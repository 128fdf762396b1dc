import SendersReceivers.Chain.Chains
import SendersReceivers.WhenAll.Outcome

/-!
# WhenAll/Chains — `when_all` of chains that run on pools

The children of a `when_all` are chains.  They are started in turn, on one thread; each of them goes
to the pools it is told to, and ends wherever it ends, with a call of its side of a split.

              ┌──▸ chain 0 ──▸ pools ──▸ x ─┐
    start ────┤                             ├─ split ──▸ rcv
              └──▸ chain 1 ──▸ pools ──▸ y ─┘

`Wrap` stops the token of the other children when one of them fails.  The chains here do not look at
it.
-/

namespace SendersReceivers.WhenAll

open Machinery Threads

variable {P V E U : Type}

/-- The call that a signal is, at the side of a split. -/
def ofSignal : Signal P V E → Call (Local P) V E
  | .value sch values => .setValue sch values
  | .error error => .setError error
  | .done => .setDone

/-- The chains, and what they call. -/
structure Joint (n : ℕ) (P V E U : Type) where
  chains : Fin n → Threads.State P V E U
  whenAll : State P (Local P) V E

variable {ts : NoSchedulerSender}

/-! ## What a call does -/

/-- A child that delivers has delivered, and the others have done what they had. -/
theorem Inv.deliver_signals {S : Type} {F : Completion S V E} {R : SchedulerReceiver P S V E}
    {sch : S → Local P} {s : State P S V E} (h : Inv ts sch s) (hF : F.Lawful)
    (hR : Receives R sch) {i : ℕ} (hi : s.tree.signals[i]? = some none) (c : Call S V E) :
    (s.deliver F R i c).tree.signals = s.tree.signals.set i (some c) := by
  obtain ⟨t', out, hdeliver, -, hsignals, hsent, -⟩ := h.tree.deliver hF hi c
  unfold State.deliver
  rw [hdeliver]
  cases out with
  | none => exact hsignals
  | some out =>
      have htree := (hR.frame { s with tree := t', last := some c } out (h.waiting hsent).1).1
      exact (congrArg Connected.signals htree).trans hsignals

/-- At the beginning nobody has delivered. -/
theorem connect_signals_getElem? {S : Type} {i : ℕ} (hi : i < ts.children) :
    (ts.connect : Connected S V E).signals[i]? = some none := by
  have hnone : ∀ x ∈ (ts.connect : Connected S V E).signals, x = none := by
    clear hi
    induction ts with
    | impl => simp [NoSchedulerSender.connect, Connected.signals]
    | pairwise x y ihx ihy =>
        intro c hc
        rw [NoSchedulerSender.connect, Connected.signals] at hc
        exact (List.mem_append.mp hc).elim (ihx c) (ihy c)
  rw [List.getElem?_eq_getElem ((connect_signals ts).symm ▸ hi), hnone _ (List.getElem_mem _)]

/-! ## Chains that call `when_all` -/

variable [DecidableEq P]

/-- `WhenAllOperationState::start` starts `x` and then `y`: on thread `0`, a child waits until those
before it have returned.  No other thread works for two of them at once. -/
def Turn {n : ℕ} (s : Fin n → Threads.State P V E U) (i : Fin n) : Threads.Label → Prop
  | .exec t => t = 0 → ∀ j < i, (s j).idle 0 = true
  | .take t _ => ∀ j, j ≠ i → (s j).idle t = true
  | .dropRef _ _ => True

instance {n : ℕ} (s : Fin n → Threads.State P V E U) (i : Fin n) : (l : Threads.Label) →
    Decidable (Turn s i l)
  | .exec t => inferInstanceAs (Decidable (t = 0 → ∀ j < i, (s j).idle 0 = true))
  | .take t _ => inferInstanceAs (Decidable (∀ j, j ≠ i → (s j).idle t = true))
  | .dropRef _ _ => isTrue trivial

/-- The children, started with `tokens`. -/
def started (children : Fin ts.children → Child P V E U) (tokens : Fin ts.children → Bool)
    (pools : List P) :
    Machine (Fin ts.children → Threads.State P V E U) (Fin ts.children × Threads.Label) :=
  Machine.interleaved (fun i => (children i).machine (tokens i) pools) Turn

/-- Chain `a.1` does a step, and if it ends with that, calls its side of a split. -/
def jointStep (children : Fin ts.children → Child P V E U) (tokens : Fin ts.children → Bool)
    (pools : List P) (s : Joint ts.children P V E U) (a : Fin ts.children × Threads.Label) :
    Option (Joint ts.children P V E U) :=
  ((started children tokens pools).step s.chains a).map fun cs =>
    match told (s.chains a.1) (cs a.1) with
    | some sig => ⟨cs, s.whenAll.deliver .whenAll whenAllReceiver a.1 (ofSignal sig)⟩
    | none => ⟨cs, s.whenAll⟩

/-- `when_all` of `children`, combined as `ts` says, on pools whose threads work for `pools`. -/
def joint (ts : NoSchedulerSender) (children : Fin ts.children → Child P V E U)
    (tokens : Fin ts.children → Bool) (pools : List P) :
    Machine (Joint ts.children P V E U) (Fin ts.children × Threads.Label) where
  init := ⟨(started children tokens pools).init, fresh ts⟩
  step := jointStep children tokens pools

variable {children : Fin ts.children → Child P V E U} {tokens : Fin ts.children → Bool}
  {pools : List P} {s s' : Joint ts.children P V E U}

/-- What the tokens say makes no difference. -/
theorem started_eq (children : Fin ts.children → Child P V E U) (tokens : Fin ts.children → Bool)
    (pools : List P) : started children tokens pools = started children (fun _ => false) pools :=
  congrArg (Machine.interleaved · Turn) (funext fun i => (children i).machine_eq (tokens i) pools)

/-- A run of the whole is one of the chains. -/
theorem run_chains {as : List (Fin ts.children × Threads.Label)}
    (hrun : (joint ts children tokens pools).Run (fun _ _ => True) as s) :
    (started children tokens pools).Run (fun _ _ => True) as s.chains := by
  refine hrun.map Joint.chains rfl fun s a s' _ hs => ?_
  obtain ⟨cs, hcs, rfl⟩ := Option.map_eq_some_iff.mp hs
  split <;> exact hcs

/-- Of those that are busy on a thread, one can go on. -/
theorem exists_turn {n : ℕ} {s : Fin n → Threads.State P V E U} {t : ℕ} (j : Fin n)
    (hj : (s j).idle t ≠ true) :
    ∃ k l, Turn s k l ∧ Threads.step (s k) l ≠ none := by
  induction j using WellFoundedLT.induction with
  | _ j ih =>
      by_cases hturn : Turn s j (.exec t)
      · exact ⟨j, .exec t, hturn, exec_of_not_idle hj⟩
      · simp only [Turn, not_forall] at hturn
        obtain ⟨rfl, k, hk, hbusy⟩ := hturn
        exact ih k hk hbusy

/-- Whoever a child waits for can go on. -/
theorem stuck_of_joint (hstuck : ∀ a, (joint ts children tokens pools).step s a = none)
    (i : Fin ts.children) (l : Threads.Label) : Threads.step (s.chains i) l = none := by
  have hwait : ∀ i l, ¬Turn s.chains i l →
      ∃ k l', Turn s.chains k l' ∧ Threads.step (s.chains k) l' ≠ none := by
    intro i l hbusy
    cases l with
    | exec t =>
        simp only [Turn, not_forall] at hbusy
        obtain ⟨-, j, -, hj⟩ := hbusy
        exact exists_turn j hj
    | take t n =>
        simp only [Turn, not_forall] at hbusy
        obtain ⟨j, -, hj⟩ := hbusy
        exact exists_turn j hj
    | dropRef t n => exact absurd trivial hbusy
  have hstuck' : ∀ a, (started children tokens pools).step s.chains a = none :=
    fun a => Option.map_eq_none_iff.mp (hstuck a)
  exact Machine.stuck_of_interleaved hwait hstuck' i l

/-! ## What has been heard is what was called -/

/-- **The splits have heard what the chains have called**, and the chains do what chains do. -/
structure Fed (children : Fin ts.children → Child P V E U) (pools : List P)
    (s : Joint ts.children P V E U) : Prop where
  run : ∃ as, (started children (fun _ => false) pools).Run (fun _ _ => True) as s.chains
  inv : Inv ts id s.whenAll
  tasks : s.whenAll.tasks = []
  heard : ∀ i : Fin ts.children,
    s.whenAll.tree.signals[(i : ℕ)]? = some ((s.chains i).world.log.head?.map ofSignal)

/-- What a child has delivered. -/
theorem Fed.delivers (h : Fed children pools s) (i : Fin ts.children) :
    (s.chains i).panics = [] ∧ ((s.chains i).world.log = [] ∨
      (s.chains i).world.log = [(children i).denote.signal]) := by
  obtain ⟨as, hrun⟩ := h.run
  exact Child.delivers (hrun.project i)

/-- **One step**: a chain goes on by itself, or delivers. -/
theorem Fed.step (h : Fed children pools s) {a : Fin ts.children × Threads.Label}
    (hs : jointStep children (fun _ => false) pools s a = some s') : Fed children pools s' := by
  obtain ⟨i, l⟩ := a
  obtain ⟨cs, hcs, rfl⟩ := Option.map_eq_some_iff.mp hs
  obtain ⟨as, hrun⟩ := h.run
  have hrun' := hrun.step trivial hcs
  obtain ⟨-, t, ht, rfl⟩ := Machine.interleaved_step.mp hcs
  have hi := h.heard i
  simp only [Function.update_self]
  obtain ⟨htold, hlog⟩ | ⟨htold, hempty, hlog⟩ := Child.told_step (hrun.project i) ht
  · rw [htold]
    refine ⟨⟨_, hrun'⟩, h.inv, h.tasks, fun j => ?_⟩
    obtain rfl | hne := eq_or_ne j i
    · simpa [hlog] using hi
    · simpa [Function.update_of_ne hne] using h.heard j
  · rw [hempty] at hi
    rw [htold]
    refine ⟨⟨_, hrun'⟩, h.inv.deliver lawful_whenAll receives_whenAll hi _,
      (deliver_tasks _ _ _).trans h.tasks, fun j => ?_⟩
    simp only [h.inv.deliver_signals lawful_whenAll receives_whenAll hi, List.getElem?_set]
    obtain rfl | hne := eq_or_ne j i
    · rw [if_pos rfl, if_pos (List.getElem?_eq_some_iff.mp hi).1]
      simp [hlog]
    · have hval : (i : ℕ) ≠ j := fun heq => hne (Fin.ext heq.symm)
      rw [if_neg hval, Function.update_of_ne hne]
      exact h.heard j

theorem Fed.inductive (children : Fin ts.children → Child P V E U) (pools : List P) :
    (joint ts children (fun _ => false) pools).Inductive (fun _ _ => True)
      (Fed children pools) where
  init := ⟨⟨[], .init⟩, Inv.fresh ts id, rfl, fun i => connect_signals_getElem? i.isLt⟩
  step _ _ _ h _ hs := h.step hs

/-! ## What the receiver gets -/

/-- What the children call in the end. -/
def denotations (children : Fin ts.children → Child P V E U) : List (Call (Local P) V E) :=
  List.ofFn fun i => ofSignal (children i).denote.signal

/-- The receiver of the `when_all` has got one call, the one that what the children denote leads
to. -/
def Completed (children : Fin ts.children → Child P V E U) (s : Joint ts.children P V E U) : Prop :=
  ∃ c, Outcome (denotations children) s.whenAll.last c ∧ s.whenAll.calls = [c.signal id]

/-- Once each chain has ended, the children have called what they denote. -/
theorem Fed.signals (h : Fed children pools s) (hall : ∀ i, (s.chains i).world.log ≠ []) :
    s.whenAll.tree.signals = (denotations children).map some := by
  have hlength : s.whenAll.tree.signals.length = ts.children := h.inv.children
  refine List.ext_getElem (by simp [hlength, denotations]) fun i hi _ => ?_
  have hlog := (h.delivers ⟨i, hlength ▸ hi⟩).2.resolve_left (hall _)
  have hheard := h.heard ⟨i, hlength ▸ hi⟩
  rw [List.getElem?_eq_getElem hi, hlog] at hheard
  simpa [denotations] using hheard

theorem Fed.completed (h : Fed children pools s) (hall : ∀ i, (s.chains i).world.log ≠ []) :
    Completed children s := by
  obtain ⟨c, houtcome, ⟨hcalls, -⟩ | ⟨-, a, value, -, htask⟩⟩ :=
    h.inv.completes.outcome _ (h.signals hall)
  · exact ⟨c, houtcome, hcalls⟩
  · simp [h.tasks] at htask

theorem Fed.silent (h : Fed children pools s) {i : Fin ts.children}
    (hi : (s.chains i).world.log = []) : s.whenAll.calls = [] := by
  have hheard := h.heard i
  rw [hi] at hheard
  exact (h.inv.completes.silent (List.mem_of_getElem? hheard)).1

/-- **`when_all` of chains**, however they are combined and wherever they run: nothing panics; the
receiver gets nothing as long as a chain has not ended, and then one call, which follows from what
the chains denote; all runs end; and where nothing can go on, that has happened and every handle was
given back, unless a task waits for a pool that has no thread. -/
theorem when_all_chains (ts : NoSchedulerSender) (children : Fin ts.children → Child P V E U)
    (tokens : Fin ts.children → Bool) (pools : List P) :
    (∃ bound, ∀ as s, (joint ts children tokens pools).Run (fun _ _ => True) as s →
      as.length ≤ bound) ∧
    ∀ as s, (joint ts children tokens pools).Run (fun _ _ => True) as s →
      (s.whenAll.panics = [] ∧ ∀ i, (s.chains i).panics = []) ∧
      ((∃ i, (s.chains i).world.log = []) → s.whenAll.calls = []) ∧
      ((∀ i, (s.chains i).world.log ≠ []) → Completed children s) ∧
      ((∀ a, (joint ts children tokens pools).step s a = none) →
        (∃ i, ∃ task ∈ (s.chains i).queue, task.1 ∉ pools) ∨
        Completed children s ∧ ∀ i, Finished (children i).denote {0} (s.chains i)) := by
  have hjoint : joint ts children tokens pools = joint ts children (fun _ => false) pools := by
    unfold joint jointStep
    rw [started_eq]
  rw [hjoint]
  obtain ⟨bound, hbound⟩ := bounded_interleaved
    (fun i => ⟨(children i).chain, false, (children i).mem⟩) pools Turn
  refine ⟨⟨bound, fun as s hrun => hbound as s.chains (run_chains hrun)⟩, fun as s hrun => ?_⟩
  have h : Fed children pools s := (Fed.inductive children pools).of_run hrun
  refine ⟨⟨h.inv.panics, fun i => (h.delivers i).1⟩, fun ⟨i, hi⟩ => h.silent hi, h.completed,
    fun hstuck => ?_⟩
  have hends := fun i =>
    Child.finished_of_stuck ((run_chains hrun).project i) (stuck_of_joint hstuck i)
  by_cases hwaits : ∃ i, ∃ task ∈ (s.chains i).queue, task.1 ∉ pools
  · exact .inl hwaits
  · have hfinished : ∀ i, Finished (children i).denote {0} (s.chains i) := fun i =>
      (hends i).resolve_left fun hi => hwaits ⟨i, hi⟩
    exact .inr ⟨h.completed fun i => by simp [(hfinished i).log], hfinished⟩

/-- Two chains that go to both pools. -/
def bothTravel : Fin (NoSchedulerSender.leftNested 1).children → Child Bool ℕ Unit Unit :=
  fun _ => traveller

/-- The second one ends first. -/
def takeTurns : List (Fin (NoSchedulerSender.leftNested 1).children × Threads.Label) :=
  let first : Fin 2 := 0
  let second : Fin 2 := 1
  (travel.take 7).map (Prod.mk first) ++ (travel.take 7).map (Prod.mk second) ++
    (travel.drop 7).map (Prod.mk second) ++ (travel.drop 7).map (Prod.mk first)

theorem bothTravel_completes :
    ∃ s, (joint (.leftNested 1) bothTravel (fun _ => false) [true, false]).exec
        (joint (.leftNested 1) bothTravel (fun _ => false) [true, false]).init takeTurns = some s ∧
      s.whenAll.calls = [.value (.pool false) [6, 7, 6, 7]] := by
  obtain ⟨s, hexec, hended, hlast⟩ : ∃ s,
      (joint (.leftNested 1) bothTravel (fun _ => false) [true, false]).exec
        (joint (.leftNested 1) bothTravel (fun _ => false) [true, false]).init takeTurns = some s ∧
      (∀ i, (s.chains i).world.log.isEmpty = false) ∧
      s.whenAll.last = some (.setValue (.pool false) [6, 7]) :=
    Machine.exec_ends (by decide +kernel)
  obtain ⟨-, -, hcompleted, -⟩ := (when_all_chains (.leftNested 1) bothTravel (fun _ => false)
    [true, false]).2 takeTurns s (.of_exec (by decide +kernel) hexec)
  obtain ⟨c, houtcome, hcalls⟩ := hcompleted fun i => by simpa using hended i
  have hdenotations : denotations bothTravel =
      [.setValue (.pool false) [6, 7], .setValue (.pool false) [6, 7]] := by decide +kernel
  rw [hdenotations] at houtcome
  obtain ⟨a, v, ha, rfl⟩ := houtcome.value (by simp)
  obtain ⟨rfl, rfl⟩ : .pool false = a ∧ [6, 7] = v := by simpa [hlast] using ha
  exact ⟨s, hexec, hcalls⟩

end SendersReceivers.WhenAll
