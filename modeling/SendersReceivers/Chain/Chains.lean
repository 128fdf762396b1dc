import SendersReceivers.Chain.Completion
import SendersReceivers.Machinery.Interleaving

/-!
# Chain/Chains — many chains on the same pools

Chains that are started on threads of their own share the threads of the pools.  A thread that works
for one of them is not there for the others, so a task may wait although its pool has a thread that
has nothing to do for its chain.

    chain 0 ── thread 0 of its own ──▸ queue of p ──┐
    chain 1 ── thread 0 of its own ──▸ queue of p ──┴──take──▸ threads 1, 2, … of the pools

Only `take` has to wait for the other chains.  References may be dropped wherever user code runs,
also on a thread that is in the middle of another chain.
-/

namespace SendersReceivers

variable {P V E U : Type}

/-- **A chain without `StopIfRequested`**, also in the senders its functions return. -/
def Chain.Deaf : Chain P V E U → Prop
  | just _ _ => True
  | justError _ => True
  | justDone => True
  | then_ nested _ => nested.Deaf
  | letValue nested _ sender _ => nested.Deaf ∧ ∀ sch s m, (sender sch s m).Deaf
  | letError nested _ sender => nested.Deaf ∧ ∀ error m, (sender error m).Deaf
  | letDone nested _ sender => nested.Deaf ∧ ∀ m, (sender m).Deaf
  | uponError nested _ _ => nested.Deaf
  | uponDone nested _ _ => nested.Deaf
  | transfer nested _ => nested.Deaf
  | stopIfRequested _ => False

/-- Such a chain does the same with every token. -/
theorem Chain.start_of_deaf (c : Chain P V E U) (h : c.Deaf) (scope : ScopePtr P V E U)
    (stop_token stop_token' : Bool) (rcv : Receiver P V E U) :
    c.start scope stop_token rcv = c.start scope stop_token' rcv := by
  induction c generalizing scope rcv with
  | just | justError | justDone => rfl
  | then_ nested fn ih => exact ih h scope _
  | letValue nested fn sender keep ih ihs =>
      have hsender : (fun sch s m scope rcv => (sender sch s m).start scope stop_token rcv) =
          fun sch s m scope rcv => (sender sch s m).start scope stop_token' rcv := by
        funext sch s m scope rcv
        exact ihs sch s m (h.2 sch s m) scope rcv
      refine congrArg scope.clone ((ih h.1 scope _).trans ?_)
      exact congrArg (fun f =>
        nested.start scope stop_token' (LetValueReceiver rcv scope fn keep f))
        hsender
  | letError nested fn sender ih ihs =>
      have hsender : (fun error m => (sender error m).start scope stop_token rcv) =
          fun error m => (sender error m).start scope stop_token' rcv := by
        funext error m
        exact ihs error m (h.2 error m) scope rcv
      refine congrArg scope.clone ((ih h.1 scope _).trans ?_)
      exact congrArg (fun f =>
        nested.start scope stop_token' (LetErrorReceiverWrapper rcv scope fn f))
        hsender
  | letDone nested fn sender ih ihs =>
      have hsender : (fun m => (sender m).start scope stop_token rcv) =
          fun m => (sender m).start scope stop_token' rcv := by
        funext m
        exact ihs m (h.2 m) scope rcv
      refine congrArg scope.clone ((ih h.1 scope _).trans ?_)
      exact congrArg (fun f =>
        nested.start scope stop_token' (LetDoneReceiverWrapper rcv scope fn f))
        hsender
  | uponError nested sch fn ih => exact congrArg scope.clone (ih h scope _)
  | uponDone nested sch fn ih => exact congrArg scope.clone (ih h scope _)
  | transfer nested sch ih => exact congrArg scope.clone (ih h scope _)
  | stopIfRequested => exact h.elim

namespace Threads

open Machinery

variable {ι : Type}

/-- What is connected and started. -/
structure Operation (P V E U : Type) where
  chain : Chain P V E U
  stop_token : Bool
  mem : Mem V U

/-- What it denotes. -/
def Operation.denote (op : Operation P V E U) : Outcome P V E U :=
  op.chain.denote op.stop_token op.mem 1

/-- A thread that goes on calls the receiver of the chain, or does not. -/
theorem exec_log {s s' : Threads.State P V E U} {t : ℕ} {th : Thread P V E U}
    (hs : Threads.exec s t th = some s') :
    s'.world.log = s.world.log ∨ ∃ sig, s'.world.log = s.world.log ++ [sig] := by
  unfold Threads.exec at hs
  split at hs
  next => cases hs
  all_goals first
    | cases hs; exact .inl rfl
    | cases hs; exact .inr ⟨_, rfl⟩
    | split at hs <;> cases hs <;> exact .inl rfl

/-- Thread `t` has nothing to do for this chain. -/
def State.idle (s : State P V E U) (t : ℕ) : Bool := s.threads[t]?.all fun th => isRet th.code

/-- A thread takes a task only if it has nothing to do for any other chain. -/
def Free (s : ι → State P V E U) (i : ι) : Label → Prop
  | .take t _ => ∀ j, j ≠ i → (s j).idle t = true
  | _ => True

instance [Fintype ι] [DecidableEq ι] (s : ι → State P V E U) (i : ι) : (l : Label) →
    Decidable (Free s i l)
  | .take t _ => inferInstanceAs (Decidable (∀ j, j ≠ i → (s j).idle t = true))
  | .exec _ => isTrue trivial
  | .dropRef _ _ => isTrue trivial

variable [Fintype ι] [DecidableEq ι] [DecidableEq P]

/-- The chains `ops`, each started on a thread of its own, on pools whose threads work for `pools`.
-/
def chains (ops : ι → Operation P V E U) (pools : List P) :
    Machine (ι → State P V E U) (ι × Label) :=
  Machine.interleaved
    (fun i => machine (ops i).chain (ops i).stop_token (ops i).mem none (pools.map some)) Free

/-- A thread that is not idle can go on. -/
theorem exec_of_not_idle {s : State P V E U} {t : ℕ} (h : s.idle t ≠ true) :
    step s (.exec t) ≠ none := by
  cases ht : s.threads[t]? with
  | none => simp [State.idle, ht] at h
  | some th =>
      have hcode : th.code ≠ .ret := by simpa [State.idle, ht] using h
      have hsome : (Threads.exec s t th).isSome := exec_isSome hcode
      rw [Threads.step, ht]
      exact Option.isSome_iff_ne_none.mp hsome

section Results

variable {ops : ι → Operation P V E U} {pools : List P} {s : ι → State P V E U}

variable (ops pools) in
/-- Whatever they wait for, all their runs end. -/
theorem bounded_interleaved (free : (ι → State P V E U) → ι → Label → Prop)
    [∀ s i l, Decidable (free s i l)] :
    ∃ bound, ∀ as s, (Machine.interleaved (fun i => machine (ops i).chain (ops i).stop_token
      (ops i).mem none (pools.map some)) free).Run (fun _ _ => True) as s → as.length ≤ bound := by
  have hbound := fun i =>
    bounded_runs (ops i).chain (ops i).stop_token (ops i).mem none (pools.map some)
  exact ⟨_, fun as s hrun => hrun.length_le_sum fun i => (hbound i).choose_spec⟩

/-- Whoever a task waits for can go on. -/
theorem stuck_of_chains (hstuck : ∀ a, (chains ops pools).step s a = none) (i : ι) (l : Label) :
    Threads.step (s i) l = none := by
  have hwait : ∀ i l, ¬Free s i l → ∃ j l', Free s j l' ∧ Threads.step (s j) l' ≠ none := by
    intro i l hbusy
    cases l with
    | take t n =>
        simp only [Free, not_forall] at hbusy
        obtain ⟨j, -, hidle⟩ := hbusy
        exact ⟨j, .exec t, trivial, exec_of_not_idle hidle⟩
    | exec t => exact absurd trivial hbusy
    | dropRef t n => exact absurd trivial hbusy
  exact Machine.stuck_of_interleaved hwait hstuck i l

end Results

/-- A chain of a family, where it can not go on. -/
theorem finished_of_stuck_pools (op : Operation P V E U) {pools : List P} {as : List Label}
    {s : State P V E U}
    (hrun :
      (machine op.chain op.stop_token op.mem none (pools.map some)).Run (fun _ _ => True) as s)
    (hstuck : ∀ l, Threads.step s l = none) :
    (∃ task ∈ s.queue, task.1 ∉ pools) ∨ Finished op.denote {0} s := by
  refine (finished_of_stuck hrun hstuck).imp_left fun ⟨task, htask, hnone⟩ => ?_
  exact ⟨task, htask, fun hmem => hnone (by simp [hmem])⟩

/-- **Any number of chains on the same pools**: in every run each of them delivers nothing but its
denotation, without a panic; all runs end; and where no chain can go on, each of them has delivered
it, unless one of its tasks waits for a pool that has no thread. -/
theorem chains_complete (ops : ι → Operation P V E U) (pools : List P) :
    (∃ bound, ∀ as s, (chains ops pools).Run (fun _ _ => True) as s → as.length ≤ bound) ∧
    ∀ as s, (chains ops pools).Run (fun _ _ => True) as s →
      (∀ i, (s i).panics = [] ∧ ((s i).world.log = [] ∨
        (s i).world.log = [(ops i).denote.signal] ∧ (s i).world.mem = (ops i).denote.mem)) ∧
      ((∀ a, (chains ops pools).step s a = none) →
        ∀ i, (∃ task ∈ (s i).queue, task.1 ∉ pools) ∨ Finished (ops i).denote {0} (s i)) :=
  ⟨bounded_interleaved ops pools Free, fun _ _ hrun =>
    ⟨fun i => delivers_of_run (hrun.project i), fun hstuck i =>
      finished_of_stuck_pools (ops i) (hrun.project i) (stuck_of_chains hstuck i)⟩⟩

/-- Two chains, of which the second waits for the thread of the first pool while the first one is on
it. -/
def travellers : Bool → Operation Bool ℕ Unit Unit
  | _ => ⟨travelling, false, ⟨fun _ => [], ()⟩⟩

def travelTogether : List (Bool × Label) :=
  (travel.take 7).map (Prod.mk true) ++ (travel.take 7).map (Prod.mk false) ++
    (travel.drop 7).map (Prod.mk true) ++ (travel.drop 7).map (Prod.mk false)

theorem travellers_complete :
    ∃ s, (chains travellers [true, false]).exec (chains travellers [true, false]).init
        travelTogether = some s ∧
      ∀ i, Finished (travellers i).denote {0} (s i) := by
  obtain ⟨s, hexec, hdone⟩ : ∃ s,
      (chains travellers [true, false]).exec (chains travellers [true, false]).init
        travelTogether = some s ∧
      ∀ i, (∀ th ∈ (s i).threads, isRet th.code) ∧ (s i).queue.isEmpty ∧ (s i).lent.isEmpty :=
    Machine.exec_ends (by decide +kernel)
  have hqueue : ∀ i, (s i).queue = [] := fun i => List.isEmpty_iff.mp (hdone i).2.1
  refine ⟨s, hexec, fun i => ?_⟩
  obtain ⟨-, hends⟩ := (chains_complete travellers [true, false]).2 travelTogether s
    (.of_exec (by decide +kernel) hexec)
  have hstuck : ∀ a, (chains travellers [true, false]).step s a = none := by
    intro a
    have hnone : Threads.step (s a.1) a.2 = none :=
      step_eq_none (fun th hth => isRet_iff.mp ((hdone a.1).1 th hth)) (hqueue a.1)
        (List.isEmpty_iff.mp (hdone a.1).2.2) a.2
    simp [chains, Machine.interleaved, machine, hnone]
  obtain ⟨task, htask, -⟩ | hfinished := hends hstuck i
  · simp [hqueue] at htask
  · exact hfinished

/-! ## Chains that somebody waits for -/

/-- What a combinator starts, whose stop token it may stop later: a chain that does not look. -/
structure Child (P V E U : Type) where
  chain : Chain P V E U
  deaf : chain.Deaf
  mem : Mem V U

/-- The signal that a step of a chain has ended it with, if any. -/
def told (s s' : Threads.State P V E U) : Option (Signal P V E) :=
  s'.world.log[s.world.log.length]?

section Child

variable {c : Child P V E U} {pools : List P} {as : List Label}
  {s s' : State P V E U} {l : Label}

/-- A step calls the receiver of the chain, or does not. -/
theorem step_log (hs : Threads.step s l = some s') :
    s'.world.log = s.world.log ∨ ∃ sig, s'.world.log = s.world.log ++ [sig] := by
  cases l with
  | exec t =>
      obtain ⟨th, -, hs⟩ := Option.bind_eq_some_iff.mp hs
      exact exec_log hs
  | take t i =>
      obtain ⟨th, -, hs⟩ := Option.bind_eq_some_iff.mp hs
      obtain ⟨task, -, hs⟩ := Option.bind_eq_some_iff.mp hs
      unfold Threads.take at hs
      split at hs
      · split_ifs at hs
        cases hs
        exact .inl rfl
      · cases hs
  | dropRef t i =>
      obtain ⟨th, -, hs⟩ := Option.bind_eq_some_iff.mp hs
      obtain ⟨p, -, rfl⟩ := Option.map_eq_some_iff.mp hs
      exact .inl rfl

/-- A child, started on a thread of its own. -/
def Child.machine (c : Child P V E U) (stop_token : Bool) (pools : List P) :
    Machine (State P V E U) Label :=
  Threads.machine c.chain stop_token c.mem none (pools.map some)

/-- What it denotes. -/
def Child.denote (c : Child P V E U) : Outcome P V E U := c.chain.denote false c.mem 1

/-- What the token says makes no difference. -/
theorem Child.machine_eq (c : Child P V E U) (stop_token : Bool) (pools : List P) :
    c.machine stop_token pools = c.machine false pools := by
  simp only [Child.machine, Threads.machine, Threads.start,
    c.chain.start_of_deaf c.deaf rootScope stop_token false]

theorem Child.delivers (hrun : (c.machine false pools).Run (fun _ _ => True) as s) :
    s.panics = [] ∧ (s.world.log = [] ∨ s.world.log = [c.denote.signal]) := by
  obtain ⟨hpanics, hlog⟩ := delivers_of_run hrun
  exact ⟨hpanics, hlog.imp_right And.left⟩

/-- **A step ends the chain, or does not**, and it ends once. -/
theorem Child.told_step (hrun : (c.machine false pools).Run (fun _ _ => True) as s)
    (hs : Threads.step s l = some s') :
    told s s' = none ∧ s'.world.log = s.world.log ∨
    told s s' = some c.denote.signal ∧ s.world.log = [] ∧ s'.world.log = [c.denote.signal] := by
  obtain hlog | ⟨sig, hlog⟩ := step_log hs
  · exact .inl ⟨by simp [told, hlog], hlog⟩
  · obtain ⟨-, hnil | hone⟩ := Child.delivers (hrun.step trivial hs)
    · simp [hlog] at hnil
    · rw [hlog] at hone
      obtain ⟨hempty, hsig⟩ : s.world.log = [] ∧ sig = c.denote.signal := by
        simpa [List.append_eq_singleton_iff] using hone
      refine .inr ⟨?_, hempty, ?_⟩
      · simp [told, hlog, hempty, hsig]
      · simp [hlog, hempty, hsig]

theorem Child.finished_of_stuck (hrun : (c.machine false pools).Run (fun _ _ => True) as s)
    (hstuck : ∀ l, Threads.step s l = none) :
    (∃ task ∈ s.queue, task.1 ∉ pools) ∨ Finished c.denote {0} s :=
  finished_of_stuck_pools ⟨c.chain, false, c.mem⟩ hrun hstuck

theorem travelling_deaf : travelling.Deaf := ⟨trivial, fun _ _ _ => trivial⟩

/-- A child that goes to both pools. -/
def traveller : Child Bool ℕ Unit Unit := ⟨travelling, travelling_deaf, ⟨fun _ => [], ()⟩⟩

end Child

end Threads

end SendersReceivers
