import SendersReceivers.Chain.Threads

/-!
# Chain/Affinity — on which threads the receivers of a chain are called

`set_value(sch, ..)` is to be called on a thread of `sch`.  A pool keeps to that.  A `LetValue` does
not: the receiver behind it is called by the destructor of its scope, on the thread that drops the
last handle, and nothing makes that a thread of the scheduler whose value is stored there.

    thread of p:   set_value(p, ..) ──stores it──▸ scope ◂──drops the last handle── thread 0
                                                     │
                                                     └──▸ set_value(p, ..), on thread 0

So a run keeps to it exactly as long as last handles are dropped on the right threads.
-/

namespace SendersReceivers

variable {P V E U : Type}

/-! ## What a run may do on which thread -/

/-- The destructor of a scope with this `shared_value` may run on such a thread. -/
def MayForward : Option (Signal P V E) → Option P → Prop
  | some (.value sch _), home => sch.On home
  | _, _ => True

instance [DecidableEq P] :
    (shared : Option (Signal P V E)) → (home : Option P) → Decidable (MayForward shared home)
  | some (.value sch _), home => inferInstanceAs (Decidable (sch.On home))
  | some (.error _), _ | some .done, _ | none, _ => isTrue trivial

/-- A destructor that finds a value begins with the call of the outer receiver.  The root scope has
nothing to call. -/
def Forwards (s : ℕ) (drop : Option (Signal P V E) → Prog P V E U) : Prop :=
  0 < s → ∀ sch values, ∃ k, drop (some (.value sch values)) = .enter sch k

/-- **What a thread that works for `home` has to do stays with its schedulers**: each `set_value` is
called on a context of its scheduler, also in the tasks that are spawned and in the destructors,
wherever these may run. -/
def Prog.Stays : Prog P V E U → Option P → Prop
  | .ret, _ => True
  | .call _ k, home => ∀ m, (k m).Stays home
  | .enter sch k, home => sch.On home ∧ k.Stays home
  | .lazily sch k, home => (∃ k', k = .enter sch k') ∧ (sch.On home → k.Stays home)
  | .emit _ k, home => k.Stays home
  | .newScope _ k, home => ∀ s, 0 < s → (k s).Stays home
  | .store s _ k, home => 0 < s ∧ k.Stays home
  | .clone _ k, home => k.Stays home
  | .release s drop k, home
  | .lend s drop k, home
  | .reclaim s drop k, home =>
      Forwards s drop ∧ (∀ home' shared, MayForward shared home' → (drop shared).Stays home') ∧
        k.Stays home
  | .spawn p task k, home => task.Stays (some p) ∧ k.Stays home

/-- The same of a handle. -/
structure ScopePtr.Stays (p : ScopePtr P V E U) : Prop where
  forwards : Forwards p.id p.drop
  drop : ∀ home shared, MayForward shared home → (p.drop shared).Stays home

/-- The same of a receiver that is called on a context of the scheduler it is given. -/
structure Receiver.Stays (rcv : Receiver P V E U) : Prop where
  setValue : ∀ home sch values, sch.On home → (rcv.setValue sch values).Stays home
  setError : ∀ home error, (rcv.setError error).Stays home
  setDone : ∀ home, rcv.setDone.Stays home
  drop : ∀ home, rcv.drop.Stays home
  enters : ∀ sch values, ∃ k, rcv.setValue sch values = .enter sch k

variable {home : Option P} {scope : ScopePtr P V E U} {rcv : Receiver P V E U}
  {p q : Prog P V E U}

/-- One run after another. -/
theorem Prog.Stays.seq (hp : p.Stays home) (hq : q.Stays home) : (p.seq q).Stays home := by
  induction p with
  | ret => exact hq
  | call f k ih => exact fun m => ih m (hp m)
  | enter sch k ih => exact ⟨hp.1, ih hp.2⟩
  | lazily sch k ih =>
      obtain ⟨⟨k', rfl⟩, hk⟩ := hp
      exact ⟨⟨k'.seq q, rfl⟩, fun hsch => ih (hk hsch)⟩
  | emit sig k ih => exact ih hp
  | newScope value k ih => exact fun s hs => ih s (hp s hs)
  | store s sig k ih => exact ⟨hp.1, ih hp.2⟩
  | clone s k ih => exact ih hp
  | release s drop k _ ih => exact ⟨hp.1, hp.2.1, ih hp.2.2⟩
  | lend s drop k _ ih => exact ⟨hp.1, hp.2.1, ih hp.2.2⟩
  | reclaim s drop k _ ih => exact ⟨hp.1, hp.2.1, ih hp.2.2⟩
  | spawn p task k _ ih => exact ⟨hp.1, ih hp.2⟩

namespace ScopePtr.Stays

variable {k : Prog P V E U} (h : scope.Stays) (hk : k.Stays home)

include h hk

theorem release : (scope.release k).Stays home := ⟨h.forwards, h.drop, hk⟩

theorem lend : (scope.lend k).Stays home := ⟨h.forwards, h.drop, hk⟩

theorem reclaim : (scope.reclaim k).Stays home := ⟨h.forwards, h.drop, hk⟩

end ScopePtr.Stays

theorem Receiver.Stays.deliver (h : rcv.Stays) {sig : Signal P V E}
    (hsig : MayForward (some sig) home) : (rcv.deliver sig).Stays home := by
  cases sig with
  | value sch values => exact h.setValue home sch values hsig
  | error error => exact h.setError home error
  | done => exact h.setDone home

theorem Receiver.Stays.forward (h : rcv.Stays) {shared : Option (Signal P V E)}
    (hshared : MayForward shared home) : (SendersReceivers.forward rcv shared).Stays home := by
  cases shared with
  | none => exact h.drop home
  | some sig => exact h.deliver hshared

/-! ## The receivers of a chain -/

/-- **Scheduling**: on a pool the receiver is called by a thread of that pool, and the inline
schedulers are contexts wherever they are started. -/
theorem stays_schedule (hs : scope.Stays) (h : rcv.Stays) (sch : Scheduler P) :
    (sch.start scope rcv).Stays home := by
  cases sch with
  | immediate => exact h.setValue home .immediate [] trivial
  | lazy sch => exact ⟨h.enters sch [], h.setValue home sch []⟩
  | pool p =>
      have htask := h.setValue (some p) (.pool p) [] rfl
      exact ⟨htask.seq (hs.release trivial), trivial⟩

/-- What a user function returns is passed on. -/
theorem stays_result (h : rcv.Stays) {sch : Local P} (hsch : sch.On home)
    (r : Except E (List V)) :
    Prog.Stays (match r with
      | .ok v => rcv.setValue sch v
      | .error e => rcv.setError e) home := by
  cases r with
  | ok v => exact h.setValue home sch v hsch
  | error e => exact h.setError home e

/-- The sender a user function returns is started, or its `Err` passed on. -/
theorem stays_sender (h : rcv.Stays) {start : Prog P V E U} (hstart : start.Stays home)
    (r : Except E Unit) :
    Prog.Stays (match r with
      | .ok _ => start
      | .error e => rcv.setError e) home := by
  cases r with
  | ok _ => exact hstart
  | error e => exact h.setError home e

theorem stays_just (h : rcv.Stays) (values : List V) : (JustReceiverWrapper rcv values).Stays where
  setValue home sch _ hsch := ⟨hsch, h.setValue home sch values hsch⟩
  setError := h.setError
  setDone := h.setDone
  drop := h.drop
  enters _ _ := ⟨_, rfl⟩

theorem stays_then (h : rcv.Stays) (fn : List V → UserFn V E U (List V)) :
    (ThenWrappedReceiver rcv fn).Stays where
  setValue _ _ values hsch := ⟨hsch, fun m => stays_result h hsch (fn values m).1⟩
  setError := h.setError
  setDone := h.setDone
  drop := h.drop
  enters _ _ := ⟨_, rfl⟩

theorem stays_upon (h : rcv.Stays) (fn : UserFn V E U (List V)) : (UponReceiver rcv fn).Stays where
  setValue _ _ _ hsch := ⟨hsch, fun m => stays_result h hsch (fn m).1⟩
  setError := h.setError
  setDone := h.setDone
  drop := h.drop
  enters _ _ := ⟨_, rfl⟩

theorem stays_stopIfRequested (h : rcv.Stays) (stop_token : Bool) :
    (StopIfRequestedReceiverWrapper stop_token rcv).Stays where
  setValue home sch value hsch := by
    refine ⟨hsch, ?_⟩
    split
    · exact h.setDone home
    · exact h.setValue home sch value hsch
  setError := h.setError
  setDone := h.setDone
  drop := h.drop
  enters _ _ := ⟨_, rfl⟩

theorem stays_local (h : rcv.Stays) (s : ℕ) : (LocalReceiverWithValue s rcv).Stays where
  setValue home sch value hsch := ⟨hsch, fun m => h.setValue home sch (m.cell s ++ value) hsch⟩
  setError := h.setError
  setDone := h.setDone
  drop := h.drop
  enters _ _ := ⟨_, rfl⟩

section Scoped

variable (hs : scope.Stays) (h : rcv.Stays)

include hs h

theorem stays_letError {fn : E → UserFn V E U Unit} {start : E → Mem V U → Prog P V E U}
    (hstart : ∀ home error m, (start error m).Stays home) :
    (LetErrorReceiverWrapper rcv scope fn start).Stays where
  setValue home sch value hsch := ⟨hsch, (h.setValue home sch value hsch).seq (hs.release trivial)⟩
  setError home error m :=
    (stays_sender h (hstart home error m) (fn error m).1).seq (hs.release trivial)
  setDone home := (h.setDone home).seq (hs.release trivial)
  drop home := (h.drop home).seq (hs.release trivial)
  enters _ _ := ⟨_, rfl⟩

theorem stays_letDone {fn : UserFn V E U Unit} {start : Mem V U → Prog P V E U}
    (hstart : ∀ home m, (start m).Stays home) :
    (LetDoneReceiverWrapper rcv scope fn start).Stays where
  setValue home sch value hsch := ⟨hsch, (h.setValue home sch value hsch).seq (hs.release trivial)⟩
  setError home error := (h.setError home error).seq (hs.release trivial)
  setDone home m := (stays_sender h (hstart home m) (fn m).1).seq (hs.release trivial)
  drop home := (h.drop home).seq (hs.release trivial)
  enters _ _ := ⟨_, rfl⟩

theorem stays_uponError (fn : E → UserFn V E U (List V)) (sch : Scheduler P) :
    (UponErrorReceiverWrapper rcv scope fn sch).Stays where
  setValue home sch value hsch := ⟨hsch, (h.setValue home sch value hsch).seq (hs.release trivial)⟩
  setError _ error :=
    (stays_schedule hs (stays_upon h (fn error)) sch).seq (hs.release trivial)
  setDone home := (h.setDone home).seq (hs.release trivial)
  drop home := (h.drop home).seq (hs.release trivial)
  enters _ _ := ⟨_, rfl⟩

theorem stays_uponDone (fn : UserFn V E U (List V)) (sch : Scheduler P) :
    (UponDoneReceiverWrapper rcv scope fn sch).Stays where
  setValue home sch value hsch := ⟨hsch, (h.setValue home sch value hsch).seq (hs.release trivial)⟩
  setError home error := (h.setError home error).seq (hs.release trivial)
  setDone _ := (stays_schedule hs (stays_upon h fn) sch).seq (hs.release trivial)
  drop home := (h.drop home).seq (hs.release trivial)
  enters _ _ := ⟨_, rfl⟩

theorem stays_transfer (target_scheduler : Scheduler P) :
    (TransferReceiverWrapper rcv scope target_scheduler).Stays where
  setValue _ _ values hsch :=
    ⟨hsch, (stays_schedule hs (stays_just h values) target_scheduler).seq (hs.release trivial)⟩
  setError home error := (h.setError home error).seq (hs.release trivial)
  setDone home := (h.setDone home).seq (hs.release trivial)
  drop home := (h.drop home).seq (hs.release trivial)
  enters _ _ := ⟨_, rfl⟩

/-- **The scope of a `LetValue`**: its destructor calls the outer receiver where it runs. -/
theorem stays_innerScope (s : ℕ) : (innerScope scope s (LocalReceiverWithValue s rcv)).Stays where
  forwards _ _ _ := ⟨_, rfl⟩
  drop _ _ hshared := ((stays_local h s).forward hshared).seq (hs.release trivial)

end Scoped

theorem stays_innerScopeReceiver (hs : scope.Stays) (hid : 0 < scope.id) :
    (InnerScopeReceiver scope : Receiver P V E U).Stays where
  setValue _ _ _ hsch := ⟨hsch, hid, hs.release trivial⟩
  setError _ _ := ⟨hid, hs.release trivial⟩
  setDone _ := ⟨hid, hs.release trivial⟩
  drop _ := hs.release trivial
  enters _ _ := ⟨_, rfl⟩

theorem stays_letValue (hs : scope.Stays) (h : rcv.Stays) {fn : Local P → ℕ → UserFn V E U Unit}
    {keep : ℕ → Mem V U → Bool}
    {start : Local P → ℕ → Mem V U → ScopePtr P V E U → Receiver P V E U → Prog P V E U}
    (hstart : ∀ home sch s m q r, q.Stays → r.Stays → (start sch s m q r).Stays home) :
    (LetValueReceiver rcv scope fn keep start).Stays where
  setValue home sch value hsch := by
    refine ⟨hsch, fun s hid m => ?_⟩
    have hlocal := stays_innerScope hs h s
    have hreceiver := stays_innerScopeReceiver hlocal hid
    refine hlocal.lend (Prog.Stays.seq ?_ fun m' => ?_)
    · exact stays_sender hreceiver (hstart home sch s m _ _ hlocal hreceiver) (fn sch s m).1
    · dsimp only
      split
      · exact hlocal.release (hs.release trivial)
      · exact hlocal.reclaim (hlocal.release (hs.release trivial))
  setError home error := (h.setError home error).seq (hs.release trivial)
  setDone home := (h.setDone home).seq (hs.release trivial)
  drop home := (h.drop home).seq (hs.release trivial)
  enters _ _ := ⟨_, rfl⟩

/-- **Every chain stays with its schedulers**, also through the senders that its functions
return. -/
theorem stays_start (c : Chain P V E U) (stop_token : Bool) (hs : scope.Stays) (h : rcv.Stays) :
    (c.start scope stop_token rcv).Stays home := by
  induction c generalizing scope rcv home with
  | just sch values => exact stays_schedule hs (stays_just h values) sch
  | justError error => exact h.setError home error
  | justDone => exact h.setDone home
  | then_ nested fn ih => exact ih hs (stays_then h fn)
  | letValue nested fn sender keep ih ihs =>
      exact ih hs (stays_letValue hs h fun home sch s m q r hq hr => ihs sch s m hq hr)
  | letError nested fn sender ih ihs =>
      exact ih hs (stays_letError hs h fun home error m => ihs error m hs h)
  | letDone nested fn sender ih ihs =>
      exact ih hs (stays_letDone hs h fun home m => ihs m hs h)
  | uponError nested sch fn ih => exact ih hs (stays_uponError hs h fn sch)
  | uponDone nested sch fn ih => exact ih hs (stays_uponDone hs h fn sch)
  | transfer nested target_scheduler ih => exact ih hs (stays_transfer hs h target_scheduler)
  | stopIfRequested nested ih => exact ih hs (stays_stopIfRequested h stop_token)

theorem stays_rootScope : (rootScope : ScopePtr P V E U).Stays where
  forwards h := absurd h (Nat.lt_irrefl 0)
  drop _ _ _ := trivial

theorem stays_recorder : (recorder : Receiver P V E U).Stays where
  setValue _ _ _ hsch := ⟨hsch, trivial⟩
  setError _ _ := trivial
  setDone _ := trivial
  drop _ := trivial
  enters _ _ := ⟨_, rfl⟩

/-! ## Runs -/

namespace Threads

open Machinery

/-- What a thread does next is fine where it does it: the last drop of a handle in a context of the
value that is stored in the scope, the start of a `LazyScheduler` in a context of the scheduler it
passes on. -/
def Careful (w : World P V E U) : Prog P V E U → Option P → Prop
  | .release i _ _, home => w.strong i = 1 → MayForward (w.shared i) home
  | .lazily sch _, home => sch.On home
  | _, _ => True

instance [DecidableEq P] (w : World P V E U) :
    (p : Prog P V E U) → (home : Option P) → Decidable (Careful w p home)
  | .release i _ _, home =>
      inferInstanceAs (Decidable (w.strong i = 1 → MayForward (w.shared i) home))
  | .lazily sch _, home => inferInstanceAs (Decidable (sch.On home))
  | .ret, _ | .call _ _, _ | .enter _ _, _ | .emit _ _, _ | .newScope _ _, _ | .store _ _ _, _
  | .clone _ _, _ | .lend _ _ _, _ | .reclaim _ _ _, _ | .spawn _ _ _, _ => isTrue trivial

/-- **The condition on a step.** -/
def Allowed (s : State P V E U) : Label → Prop
  | .exec t => ∀ th ∈ s.threads[t]?, Careful s.world th.code th.home
  | .take _ _ => True
  | .dropRef _ _ => True

instance [DecidableEq P] (s : State P V E U) : (l : Label) → Decidable (Allowed s l)
  | .exec t => inferInstanceAs (Decidable (∀ th ∈ s.threads[t]?, Careful s.world th.code th.home))
  | .take _ _ | .dropRef _ _ => isTrue trivial

/-- **Scheduler affinity**: every `set_value(sch, ..)` so far was called on a context of `sch`. -/
def Affine (s : State P V E U) : Prop := ∀ call ∈ s.calls, call.1.On call.2

instance [DecidableEq P] (s : State P V E U) : Decidable (Affine s) :=
  inferInstanceAs (Decidable (∀ call ∈ s.calls, call.1.On call.2))

/-- The invariant. -/
structure Inv (s : State P V E U) : Prop where
  threads : ∀ th ∈ s.threads, th.code.Stays th.home
  queue : ∀ task ∈ s.queue, task.2.Stays (some task.1)
  lent : ∀ p ∈ s.lent, p.Stays
  affine : Affine s
  /-- no scope takes the place of the root scope, which never stores anything -/
  root : 0 < s.world.next ∧ s.world.shared 0 = none

variable {s s' : State P V E U} {t : ℕ} {th : Thread P V E U} {l : Label}

/-- Thread `t` goes on with code that stays with its schedulers. -/
theorem Inv.goto (h : Inv s) (code : Prog P V E U) (hcode : code.Stays th.home) :
    Inv (s.goto t th code) where
  threads := by
    intro th' hth'
    obtain hth' | rfl := List.mem_or_eq_of_mem_set hth'
    · exact h.threads th' hth'
    · exact hcode
  queue := h.queue
  lent := h.lent
  affine := h.affine
  root := h.root

/-- No count, and no scope but the one it is about, matters to the invariant. -/
theorem Inv.withWorld {w : World P V E U} (h : Inv s) (hnext : s.world.next ≤ w.next)
    (hshared : w.shared 0 = none) : Inv { s with world := w } :=
  { h with root := ⟨h.root.1.trans_le hnext, hshared⟩ }

theorem Inv.exec (h : Inv s) (ht : s.threads[t]? = some th)
    (hcareful : Careful s.world th.code th.home) (hs : Threads.exec s t th = some s') : Inv s' := by
  have hstays := h.threads th (List.mem_of_getElem? ht)
  have hroot := h.root.2
  unfold Threads.exec at hs
  split at hs
  next => cases hs
  next f k hcode =>
    rw [hcode] at hstays
    exact Option.some.inj hs ▸ (h.goto _ (hstays _)).withWorld le_rfl hroot
  next sch k hcode =>
    rw [hcode] at hstays
    have haffine : ∀ call ∈ s.calls ++ [(sch, th.home)], call.1.On call.2 :=
      List.forall_mem_append.mpr ⟨h.affine, List.forall_mem_singleton.mpr hstays.1⟩
    exact Option.some.inj hs ▸ { h.goto k hstays.2 with affine := haffine }
  next sch k hcode =>
    rw [hcode] at hstays hcareful
    exact Option.some.inj hs ▸ h.goto k (hstays.2 hcareful)
  next sig k hcode =>
    rw [hcode] at hstays
    exact Option.some.inj hs ▸ (h.goto k hstays).withWorld le_rfl hroot
  next value k hcode =>
    rw [hcode] at hstays
    refine Option.some.inj hs ▸ (h.goto _ (hstays _ h.root.1)).withWorld (Nat.le_succ _) ?_
    simpa [World.newScope, h.root.1.ne] using hroot
  next i sig k hcode =>
    rw [hcode] at hstays
    split at hs
    · refine Option.some.inj hs ▸ (h.goto k hstays.2).withWorld le_rfl ?_
      simpa [World.store, hstays.1.ne] using hroot
    · exact Option.some.inj hs ▸ { h.goto .ret trivial with }
  next i k hcode =>
    rw [hcode] at hstays
    exact Option.some.inj hs ▸ (h.goto k hstays).withWorld le_rfl hroot
  next i drop k hcode =>
    rw [hcode] at hstays hcareful
    obtain ⟨-, hdrop, hk⟩ := hstays
    split at hs
    · exact Option.some.inj hs ▸ { h.goto .ret trivial with }
    next hlast =>
      have hcode := (hdrop _ _ (hcareful hlast)).seq hk
      refine Option.some.inj hs ▸ (h.goto _ hcode).withWorld le_rfl ?_
      by_cases hi : i = 0
      · simp [World.free, hi]
      · simpa [World.free, Ne.symm hi] using hroot
    · exact Option.some.inj hs ▸ (h.goto k hk).withWorld le_rfl hroot
  next i drop k hcode =>
    rw [hcode] at hstays
    obtain ⟨hforwards, hdrop, hk⟩ := hstays
    have hlent : ∀ p ∈ s.lent ++ [⟨i, drop⟩], p.Stays :=
      List.forall_mem_append.mpr ⟨h.lent, List.forall_mem_singleton.mpr ⟨hforwards, hdrop⟩⟩
    exact Option.some.inj hs ▸ { h.goto k hk with lent := hlent }
  next i drop k hcode =>
    rw [hcode] at hstays
    split_ifs at hs
    · have hlent : ∀ p ∈ s.lent.eraseP (fun p => p.id = i), p.Stays :=
        fun p hp => h.lent p (List.mem_of_mem_eraseP hp)
      exact Option.some.inj hs ▸ { h.goto (.release i drop k) hstays with lent := hlent }
    · exact Option.some.inj hs ▸ h.goto k hstays.2.2
  next p task k hcode =>
    rw [hcode] at hstays
    have hqueue : ∀ task' ∈ s.queue ++ [(p, task)], task'.2.Stays (some task'.1) :=
      List.forall_mem_append.mpr ⟨h.queue, List.forall_mem_singleton.mpr hstays.1⟩
    exact Option.some.inj hs ▸ { h.goto k hstays.2 with queue := hqueue }

theorem Inv.start (c : Chain P V E U) (stop_token : Bool) (m : Mem V U) (home : Option P)
    (homes : List (Option P)) : Inv (start c stop_token m home homes) where
  threads := by
    intro th hth
    obtain rfl | hth := List.mem_cons.mp hth
    · exact stays_start c stop_token stays_rootScope stays_recorder
    · obtain ⟨home', -, rfl⟩ := List.mem_map.mp hth
      exact trivial
  queue := by simp [Threads.start]
  lent := by simp [Threads.start]
  affine := by simp [Affine, Threads.start]
  root := ⟨Nat.zero_lt_one, rfl⟩

theorem goto_threads (ht : s.threads[t]? = some th) (code : Prog P V E U) :
    (s.goto t th code).threads[t]? = some { th with code := code } := by
  simp [State.goto, (List.getElem?_eq_some_iff.mp ht).1]

theorem not_mayForward {shared : Option (Signal P V E)} (h : ¬ MayForward shared home) :
    ∃ sch values, shared = some (.value sch values) ∧ ¬ sch.On home := by
  unfold MayForward at h
  split at h
  next sch values => exact ⟨sch, values, rfl, h⟩
  next => exact absurd trivial h

theorem not_careful {w : World P V E U} {p : Prog P V E U} (h : ¬ Careful w p home) :
    (∃ i drop k sch values, p = .release i drop k ∧ w.strong i = 1 ∧
      w.shared i = some (.value sch values) ∧ ¬ sch.On home) ∨
      ∃ sch k, p = .lazily sch k ∧ ¬ sch.On home := by
  unfold Careful at h
  split at h
  next i drop k =>
    rw [Classical.not_imp] at h
    obtain ⟨sch, values, hshared, hsch⟩ := not_mayForward h.2
    exact .inl ⟨i, drop, k, sch, values, rfl, h.1, hshared, hsch⟩
  next sch k => exact .inr ⟨sch, k, rfl, h⟩
  next => exact absurd trivial h

section

variable [DecidableEq P]

/-- **A step that meets the condition keeps the invariant.** -/
theorem Inv.step (h : Inv s) (hallowed : Allowed s l) (hs : Threads.step s l = some s') :
    Inv s' := by
  cases l with
  | exec t =>
      obtain ⟨th, ht, hs⟩ := Option.bind_eq_some_iff.mp hs
      exact h.exec ht (hallowed th ht) hs
  | take t i =>
      obtain ⟨th, ht, hs⟩ := Option.bind_eq_some_iff.mp hs
      obtain ⟨task, htask, hs⟩ := Option.bind_eq_some_iff.mp hs
      unfold take at hs
      split at hs
      · simp only [Option.ite_none_right_eq_some, Option.some.injEq] at hs
        obtain ⟨hhome, rfl⟩ := hs
        have hstays := h.queue task (List.mem_of_getElem? htask)
        have hqueue : ∀ task' ∈ s.queue.eraseIdx i, task'.2.Stays (some task'.1) :=
          fun task' htask' => h.queue task' (List.mem_of_mem_eraseIdx htask')
        exact { h.goto task.2 (hhome ▸ hstays) with queue := hqueue }
      · cases hs
  | dropRef t i =>
      obtain ⟨th, ht, hs⟩ := Option.bind_eq_some_iff.mp hs
      obtain ⟨p, hp, rfl⟩ := Option.map_eq_some_iff.mp hs
      have hcode := h.threads th (List.mem_of_getElem? ht)
      have hstays := h.lent p (List.mem_of_getElem? hp)
      have hlent : ∀ p' ∈ s.lent.eraseIdx i, p'.Stays :=
        fun p' hp' => h.lent p' (List.mem_of_mem_eraseIdx hp')
      exact { h.goto _ (hstays.release hcode) with lent := hlent }

theorem Inv.inductive (c : Chain P V E U) (stop_token : Bool) (m : Mem V U) (home : Option P)
    (homes : List (Option P)) : (machine c stop_token m home homes).Inductive Allowed Inv where
  init := Inv.start c stop_token m home homes
  step _ _ _ h hallowed hs := h.step hallowed hs

/-! ## A step that does not meet the condition -/

/-- A thread that is about to call a `set_value` outside of its scheduler can do so. -/
theorem strays_of_enter {sch : Local P} {k : Prog P V E U} (ht : s.threads[t]? = some th)
    (hcode : th.code = .enter sch k) (hsch : ¬ sch.On th.home) :
    ∃ l s', step s l = some s' ∧ ¬ Affine s' := by
  refine ⟨.exec t, { s.goto t th k with calls := s.calls ++ [(sch, th.home)] }, ?_, fun h => ?_⟩
  · simp [step, ht, exec, hcode]
  · exact hsch (h (sch, th.home) (List.mem_append_right _ (.head _)))

/-- **The last handle dropped on the wrong thread**: the next step of that thread calls the receiver
there. -/
theorem strays (h : Inv s) (hs : step s l = some s') (hallowed : ¬ Allowed s l) :
    ∃ l' s'', step s' l' = some s'' ∧ ¬ Affine s'' := by
  cases l with
  | exec t =>
      obtain ⟨th, ht, hs⟩ := Option.bind_eq_some_iff.mp hs
      have hcareful : ¬ Careful s.world th.code th.home :=
        fun hcareful => hallowed fun th' ht' => Option.some.inj (ht.symm.trans ht') ▸ hcareful
      have hstays := h.threads th (List.mem_of_getElem? ht)
      obtain ⟨i, drop, k, sch, values, hcode, hlast, hshared, hsch⟩ | ⟨sch, k, hcode, hsch⟩ :=
        not_careful hcareful
      · rw [hcode] at hstays
        have hi : 0 < i := by
          rw [Nat.pos_iff_ne_zero]
          rintro rfl
          simp [h.root.2] at hshared
        obtain ⟨k', hk'⟩ := hstays.1 hi sch values
        simp only [exec, hcode, hlast, hshared, hk', Option.some.injEq] at hs
        subst hs
        exact strays_of_enter (goto_threads ht _) rfl hsch
      · rw [hcode] at hstays
        obtain ⟨⟨k', rfl⟩, -⟩ := hstays
        simp only [exec, hcode, Option.some.injEq] at hs
        subst hs
        exact strays_of_enter (goto_threads ht _) rfl hsch
  | take t i => exact absurd trivial hallowed
  | dropRef t i => exact absurd trivial hallowed

/-! ## The result -/

/-- **Scheduler affinity**: in a run that drops the last handle of every scope on a thread of the
scheduler whose value is stored there, and starts every `LazyScheduler` on a thread of the scheduler
it passes on, all calls are made on threads of their schedulers; and from the first step that does
otherwise, the next step of that thread is a call on a wrong one. -/
theorem chain_affinity (c : Chain P V E U) (stop_token : Bool) (m : Mem V U) (home : Option P)
    (homes : List (Option P)) :
    (∀ ls s, (machine c stop_token m home homes).Run Allowed ls s → Affine s) ∧
    ∀ ls s l s', (machine c stop_token m home homes).Run Allowed ls s → step s l = some s' →
      ¬ Allowed s l → ∃ l' s'', step s' l' = some s'' ∧ ¬ Affine s'' := by
  have hinv : ∀ ls s, (machine c stop_token m home homes).Run Allowed ls s → Inv s :=
    fun ls s hrun => (Inv.inductive c stop_token m home homes).of_run hrun
  exact ⟨fun ls s hrun => (hinv ls s hrun).affine,
    fun ls s l s' hrun hs hallowed => strays (hinv ls s hrun) hs hallowed⟩

end

/-- `Just | LetValue | Then`, whose `LetValue` function returns a `Just` on the pool. -/
def onPool : Chain Unit ℕ Unit Unit :=
  .then_ (.letValue (.just .immediate [6]) (fun _ _ m => (.ok (), m))
    (fun _ _ _ => .just (.pool ()) [1]) fun _ _ => false) fun values m => (.ok values, m)

/-- It is started on a thread of its own; the pool has one thread. -/
abbrev onPoolMachine : Machine (State Unit ℕ Unit Unit) Label :=
  machine onPool false ⟨fun _ => [], ()⟩ none [some ()]

/-- The thread of the pool comes last: it drops the last handle. -/
def poolLast : List Label :=
  List.replicate 14 (.exec 0) ++ .take 1 0 :: List.replicate 12 (.exec 1)

theorem poolLast_affine :
    ∃ s, onPoolMachine.exec onPoolMachine.init poolLast = some s ∧ Affine s ∧
      s.world.log = [.value (.pool ()) [6, 1]] := by
  obtain ⟨s, hs, hlog⟩ : ∃ s, onPoolMachine.exec onPoolMachine.init poolLast = some s ∧
      s.world.log = [.value (.pool ()) [6, 1]] := Machine.exec_ends (by decide +kernel)
  have hrun : onPoolMachine.Run Allowed poolLast s := .of_exec (by decide +kernel) hs
  have haffine := (chain_affinity onPool false ⟨fun _ => [], ()⟩ none [some ()]).1 poolLast s hrun
  exact ⟨s, hs, haffine, hlog⟩

/-- The thread that started the chain comes last: it still has `local_scope` when the pool has
stored the value. -/
def starterLast : List Label :=
  List.replicate 9 (.exec 0) ++ .take 1 0 :: List.replicate 5 (.exec 1) ++
    List.replicate 10 (.exec 0)

/-- **The receivers behind the `LetValue` are called with the pool on a thread that is none of its
own.** -/
theorem starterLast_strays :
    ∃ s, onPoolMachine.exec onPoolMachine.init starterLast = some s ∧ ¬ Affine s ∧
      s.calls.drop 4 = List.replicate 3 (.pool (), none) ∧
      s.world.log = [.value (.pool ()) [6, 1]] ∧ s.panics = [] :=
  Machine.exec_ends (by decide +kernel)

end Threads

end SendersReceivers
