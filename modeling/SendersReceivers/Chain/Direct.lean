import SendersReceivers.Chain.Affinity

/-!
# Chain/Direct — chains that keep to their schedulers on every schedule

Calls go astray in two ways only: with the last handle of the scope of a `LetValue`, and with a
`LazyScheduler`.  A chain that has neither, in the senders its functions return either, keeps to its
schedulers whatever the threads do.
-/

namespace SendersReceivers

open Machinery

variable {P V E U : Type}

/-- Any scheduler but a `LazyScheduler`. -/
def Scheduler.Eager : Scheduler P → Prop
  | .immediate | .pool _ => True
  | .lazy _ => False

/-- **Neither a `LetValue` nor a `LazyScheduler`**, also in the senders its functions return. -/
def Chain.Direct : Chain P V E U → Prop
  | just sch _ => sch.Eager
  | justError _ => True
  | justDone => True
  | then_ nested _ => nested.Direct
  | letValue _ _ _ _ => False
  | letError nested _ sender => nested.Direct ∧ ∀ error m, (sender error m).Direct
  | letDone nested _ sender => nested.Direct ∧ ∀ m, (sender m).Direct
  | uponError nested sch _ => nested.Direct ∧ sch.Eager
  | uponDone nested sch _ => nested.Direct ∧ sch.Eager
  | transfer nested target_scheduler => nested.Direct ∧ target_scheduler.Eager
  | stopIfRequested nested => nested.Direct

/-- **`q` opens no scope, stores nothing, and passes on no scheduler lazily**; nor do the tasks it
spawns, and the destructors it may run. -/
def Prog.Direct : Prog P V E U → Prop
  | .ret => True
  | .call _ k => ∀ m, (k m).Direct
  | .enter _ k => k.Direct
  | .emit _ k => k.Direct
  | .clone _ k => k.Direct
  | .release _ drop k => (drop none).Direct ∧ k.Direct
  | .spawn _ task k => task.Direct ∧ k.Direct
  | .lazily _ _ | .newScope _ _ | .store _ _ _ | .lend _ _ _ | .reclaim _ _ _ => False

/-- The same of the calls of a receiver. -/
structure Receiver.Direct (rcv : Receiver P V E U) : Prop where
  setValue : ∀ sch values, (rcv.setValue sch values).Direct
  setError : ∀ error, (rcv.setError error).Direct
  setDone : rcv.setDone.Direct

/-- The same of a handle that has nothing to forward. -/
def ScopePtr.Direct (p : ScopePtr P V E U) : Prop := (p.drop none).Direct

section

variable {p q k : Prog P V E U} {scope : ScopePtr P V E U} {rcv : Receiver P V E U}

theorem Prog.Direct.seq (hp : p.Direct) (hq : q.Direct) : (p.seq q).Direct := by
  induction p with
  | ret => exact hq
  | call f k ih => exact fun m => ih m (hp m)
  | enter sch k ih | emit sig k ih | clone s k ih => exact ih hp
  | release s drop k _ ih => exact ⟨hp.1, ih hp.2⟩
  | spawn p task k _ ih => exact ⟨hp.1, ih hp.2⟩
  | lazily | newScope | store | lend | reclaim => exact hp.elim

theorem Prog.Direct.seq_release (hp : p.Direct) (hs : scope.Direct) :
    (p.seq (scope.release .ret)).Direct := hp.seq ⟨hs, trivial⟩

theorem direct_schedule (hs : scope.Direct) (h : rcv.Direct) {sch : Scheduler P}
    (hsch : sch.Eager) :
    (sch.start scope rcv).Direct := by
  cases sch with
  | immediate => exact h.setValue .immediate []
  | lazy sch => exact hsch.elim
  | pool p => exact ⟨(h.setValue (.pool p) []).seq_release hs, trivial⟩

theorem direct_just (h : rcv.Direct) (values : List V) :
    (JustReceiverWrapper rcv values).Direct where
  setValue sch _ := h.setValue sch values
  setError := h.setError
  setDone := h.setDone

/-- What a user function returns is passed on. -/
theorem direct_result (h : rcv.Direct) (sch : Local P) (r : Except E (List V)) :
    Prog.Direct (match r with
      | .ok v => rcv.setValue sch v
      | .error e => rcv.setError e) := by
  cases r with
  | ok v => exact h.setValue sch v
  | error e => exact h.setError e

/-- The sender a user function returns is started, or its `Err` passed on. -/
theorem direct_sender (h : rcv.Direct) (hk : k.Direct) (r : Except E Unit) :
    Prog.Direct (match r with
      | .ok _ => k
      | .error e => rcv.setError e) := by
  cases r with
  | ok _ => exact hk
  | error e => exact h.setError e

theorem direct_upon (h : rcv.Direct) (fn : UserFn V E U (List V)) :
    (UponReceiver rcv fn).Direct where
  setValue sch _ m := direct_result h sch (fn m).1
  setError := h.setError
  setDone := h.setDone

/-- **Starting a direct chain.** -/
theorem direct_start (c : Chain P V E U) (hc : c.Direct) (stop_token : Bool) (hs : scope.Direct)
    (h : rcv.Direct) : (c.start scope stop_token rcv).Direct := by
  induction c generalizing rcv with
  | just sch values => exact direct_schedule hs (direct_just h values) hc
  | justError error => exact h.setError error
  | justDone => exact h.setDone
  | then_ nested fn ih =>
      exact ih hc
        { setValue := fun sch values m => direct_result h sch (fn values m).1
          setError := h.setError
          setDone := h.setDone }
  | letValue => exact hc.elim
  | letError nested fn sender ih ihs =>
      exact ih hc.1
        { setValue := fun sch value => (h.setValue sch value).seq_release hs
          setError := fun error m =>
            (direct_sender h (ihs error m (hc.2 error m) h) (fn error m).1).seq_release hs
          setDone := h.setDone.seq_release hs }
  | letDone nested fn sender ih ihs =>
      exact ih hc.1
        { setValue := fun sch value => (h.setValue sch value).seq_release hs
          setError := fun error => (h.setError error).seq_release hs
          setDone := fun m => (direct_sender h (ihs m (hc.2 m) h) (fn m).1).seq_release hs }
  | uponError nested sch fn ih =>
      exact ih hc.1
        { setValue := fun sch v => (h.setValue sch v).seq_release hs
          setError := fun error =>
            (direct_schedule hs (direct_upon h (fn error)) hc.2).seq_release hs
          setDone := h.setDone.seq_release hs }
  | uponDone nested sch fn ih =>
      exact ih hc.1
        { setValue := fun sch v => (h.setValue sch v).seq_release hs
          setError := fun error => (h.setError error).seq_release hs
          setDone := (direct_schedule hs (direct_upon h fn) hc.2).seq_release hs }
  | transfer nested target_scheduler ih =>
      exact ih hc.1
        { setValue := fun sch values =>
            (direct_schedule hs (direct_just h values) hc.2).seq_release hs
          setError := fun error => (h.setError error).seq_release hs
          setDone := h.setDone.seq_release hs }
  | stopIfRequested nested ih =>
      refine ih hc { setValue := fun sch value => ?_, setError := h.setError, setDone := h.setDone }
      change Prog.Direct (if stop_token then rcv.setDone else rcv.setValue sch value)
      split
      · exact h.setDone
      · exact h.setValue sch value

end

namespace Threads

/-- Nothing is stored anywhere, and no thread or task is about to store anything. -/
structure AllDirect (s : State P V E U) : Prop where
  threads : ∀ th ∈ s.threads, th.code.Direct
  queue : ∀ task ∈ s.queue, task.2.Direct
  lent : s.lent = []
  shared : ∀ i, s.world.shared i = none

section

variable {s s' : State P V E U} {t : ℕ} {th : Thread P V E U}

theorem AllDirect.goto (h : AllDirect s) {code : Prog P V E U} (hcode : code.Direct) :
    ∀ th' ∈ (s.goto t th code).threads, th'.code.Direct := by
  intro th' hth'
  obtain hmem | rfl := List.mem_or_eq_of_mem_set hth'
  · exact h.threads th' hmem
  · exact hcode

theorem AllDirect.exec (h : AllDirect s) (ht : s.threads[t]? = some th)
    (hs : Threads.exec s t th = some s') : AllDirect s' := by
  have hdirect := h.threads th (List.mem_of_getElem? ht)
  unfold Threads.exec at hs
  cases hcode : th.code with
  | ret => simp [hcode] at hs
  | call f k =>
      rw [hcode] at hdirect hs
      cases hs
      exact { h with threads := h.goto (hdirect s.world.mem) }
  | enter sch k | emit sig k | clone i k =>
      rw [hcode] at hdirect hs
      cases hs
      exact { h with threads := h.goto hdirect }
  | release i drop k =>
      rw [hcode] at hdirect
      simp only [hcode, h.shared i] at hs
      split at hs
      · cases hs
        have hret : (.ret : Prog P V E U).Direct := trivial
        exact { h with threads := h.goto hret }
      · cases hs
        refine { h with threads := h.goto (hdirect.1.seq hdirect.2), shared := fun l => ?_ }
        obtain rfl | hne := eq_or_ne l i
        · simp [World.free]
        · simpa [World.free, hne] using h.shared l
      · cases hs
        exact { h with threads := h.goto hdirect.2 }
  | spawn p task k =>
      rw [hcode] at hdirect hs
      cases hs
      exact { h with
        threads := h.goto hdirect.2
        queue := List.forall_mem_append.mpr ⟨h.queue, List.forall_mem_singleton.mpr hdirect.1⟩ }
  | lazily | newScope | store | lend | reclaim =>
      rw [hcode] at hdirect
      exact hdirect.elim

/-- Such a state allows any step. -/
theorem AllDirect.allowed (h : AllDirect s) (l : Label) : Allowed s l := by
  cases l with
  | exec t =>
      intro th ht
      have hdirect := h.threads th (List.mem_of_getElem? ht)
      cases hcode : th.code with
      | release i drop k =>
          intro _
          rw [h.shared i]
          exact trivial
      | lazily sch k =>
          rw [hcode] at hdirect
          exact hdirect.elim
      | ret | call | enter | emit | newScope | store | clone | lend | reclaim | spawn =>
          exact trivial
  | take t i => exact trivial
  | dropRef t i => exact trivial

variable [DecidableEq P]

theorem AllDirect.step (h : AllDirect s) {l : Label} (hs : Threads.step s l = some s') :
    AllDirect s' := by
  cases l with
  | exec t =>
      obtain ⟨th, ht, hs⟩ := Option.bind_eq_some_iff.mp hs
      exact h.exec ht hs
  | take t i =>
      obtain ⟨th, ht, hs⟩ := Option.bind_eq_some_iff.mp hs
      obtain ⟨task, htask, hs⟩ := Option.bind_eq_some_iff.mp hs
      unfold take at hs
      split at hs
      · split_ifs at hs
        cases hs
        exact { h with
          threads := h.goto (h.queue task (List.mem_of_getElem? htask))
          queue := fun task' htask' => h.queue task' (List.mem_of_mem_eraseIdx htask') }
      · cases hs
  | dropRef t i => simp [Threads.step, h.lent] at hs

/-- **A direct chain keeps to its schedulers on every schedule**: whatever its threads do, every
`set_value(sch, ..)` is called on a thread of `sch`. -/
theorem direct_affinity (c : Chain P V E U) (hc : c.Direct) (stop_token : Bool) (m : Mem V U)
    (home : Option P) (homes : List (Option P)) (as : List Label) (s : State P V E U)
    (hrun : (machine c stop_token m home homes).Run (fun _ _ => True) as s) : Affine s := by
  have hdirect : (machine c stop_token m home homes).Inductive (fun _ _ => True) AllDirect := by
    refine ⟨⟨fun th hth => ?_, by simp [machine, start], rfl, fun _ => rfl⟩,
      fun s l s' h _ hs => h.step hs⟩
    obtain rfl | hth := List.mem_cons.mp hth
    · exact direct_start c hc stop_token trivial ⟨fun _ _ => trivial, fun _ => trivial, trivial⟩
    · obtain ⟨home', -, rfl⟩ := List.mem_map.mp hth
      exact trivial
  have hallowed := hrun.mono_of_inductive hdirect fun s l h _ => h.allowed l
  exact ((Inv.inductive c stop_token m home homes).of_run hallowed).affine

end

/-- From one pool to the other and back again, with an error on the way. -/
def detour : Chain Bool ℕ Unit Unit :=
  .uponError
    (.then_ (.transfer (.just (.pool true) [6]) (.pool false)) fun _ m => (.error (), m))
    (.pool true) fun _ m => (.ok [7], m)

/-- One thread of each pool. -/
def detourSteps : List Label :=
  List.replicate 4 (.exec 0) ++ .take 1 0 :: List.replicate 6 (.exec 1) ++
    .take 2 0 :: List.replicate 5 (.exec 2) ++ .take 1 0 :: List.replicate 5 (.exec 1) ++
    [.exec 2, .exec 2]

theorem detour_affine :
    ∃ s, (machine detour false ⟨fun _ => [], ()⟩ none [some true, some false]).exec
        (machine detour false ⟨fun _ => [], ()⟩ none [some true, some false]).init detourSteps =
        some s ∧
      s.world.log = [.value (.pool true) [7]] ∧ Affine s := by
  obtain ⟨s, hexec, hlog⟩ : ∃ s,
      (machine detour false ⟨fun _ => [], ()⟩ none [some true, some false]).exec
        (machine detour false ⟨fun _ => [], ()⟩ none [some true, some false]).init detourSteps =
        some s ∧ s.world.log = [.value (.pool true) [7]] := Machine.exec_ends (by decide +kernel)
  refine ⟨s, hexec, hlog, ?_⟩
  exact direct_affinity detour ⟨⟨trivial, trivial⟩, trivial⟩ false ⟨fun _ => [], ()⟩ none
    [some true, some false] detourSteps s (.of_exec (by decide +kernel) hexec)

end Threads

end SendersReceivers
