import SendersReceivers.Chain.Calling
import SendersReceivers.EnsureStarted.Stranded

/-!
# EnsureStarted/EarlyChain — an early chain that runs on pools

`ensure_started` starts its chain before it returns.  The chain goes to the pools it is told to, and
wherever it ends, it calls the `StateReceiver`; meanwhile the sender is attached, or dropped.

    start ──▸ chain ──▸ pools ──▸ StateReceiver ──┐
      └─ returns ──▸ attach, or drop ─────────────┴─ cell ──▸ rcv

A thread that has called the `StateReceiver` waits for that call to return, and others may wait for
it.  What is shown here does not depend on who waits, as long as nobody does once the calls have
returned.
-/

namespace SendersReceivers.EnsureStarted

open Machinery

variable {P V E U : Type}

/-- The cell, and who uses it: the sender goes to whoever called `ensure_started`, once that has
returned. -/
def callee (free : Threads.State P V E U → State P V E → Threads.Label → Bool) :
    Threads.Callee P V E U (State P V E) (Label P V E) where
  machine := machine P V E
  call _ _ sig := .signal sig
  own chain _
    | .run _ => true
    | .attach => chain.idle 0
    | .drop => chain.idle 0
    | .signal _ => false
    | .die => false
  free := free

/-- The calls of the `StateReceiver` and of `start` have returned. -/
def Returned (s : State P V E) : Prop := ∀ code ∈ s.threads, code = []

/-! ## What the cell does by itself -/

/-- One for a label that is not an instruction of a thread. -/
def Label.isOther : Label P V E → ℕ
  | .run _ => 0
  | _ => 1

/-- How many of these there can still be. -/
def State.others (s : State P V E) : ℕ := s.sender.toNat + s.early.handles

/-- An instruction does not touch the sender. -/
theorem exec_sender {s t : State P V E} {i : ℕ} {ins : Instr P V E} {k : List (Instr P V E)}
    (hs : exec s i k ins = some t) : t.sender = s.sender := by
  unfold exec callAttached State.goto State.panic State.release at hs
  repeat' split at hs
  all_goals first
    | cases hs; rfl
    | cases hs

theorem others_step {s t : State P V E} {l : Label P V E} (hs : step s l = some t) :
    l.isOther + t.others ≤ s.others := by
  cases l with
  | run i =>
      simp only [step] at hs
      split at hs
      · simp [Label.isOther, State.others, exec_frame hs, exec_sender hs]
      · cases hs
  | attach =>
      simp only [step, Option.ite_none_right_eq_some] at hs
      obtain ⟨hsender, hs⟩ := hs
      cases hs
      simp [Label.isOther, State.others, hsender]
  | drop =>
      simp only [step, Option.ite_none_right_eq_some] at hs
      obtain ⟨hsender, hs⟩ := hs
      cases hs
      simp [Label.isOther, State.others, hsender]
  | signal sig =>
      simp only [step] at hs
      split at hs
      · next hearly =>
          cases hs
          simp [Label.isOther, State.others, hearly, Early.handles, Nat.add_comm]
      · cases hs
  | die =>
      simp only [step] at hs
      split at hs
      · next hearly =>
          cases hs
          have hsender : s.release.sender = s.sender := by unfold State.release; split <;> rfl
          simp [Label.isOther, State.others, hearly, hsender, Early.handles, Nat.add_comm]
      · cases hs

/-- The cell does not go on for ever: the sender is used once, and the chain ends once. -/
theorem length_le {ls : List (Label P V E)} {s : State P V E}
    (h : (machine P V E).Run (fun _ _ => True) ls s) : ls.length ≤ 19 := by
  have hrun := run_le h
  have hother := h.cost_le Label.isOther State.others (fun _ => 2) Inv.inductive
    (by simp [machine, fresh, State.others, Early.handles])
    fun s l t _ _ hs => Nat.add_le_add_right (others_step hs) 2
  have hsum : ls.length = (ls.map Label.isRun).sum + (ls.map Label.isOther).sum := by
    clear h hrun hother
    induction ls with
    | nil => rfl
    | cons l ls ih =>
        simp only [List.length_cons, List.map_cons, List.sum_cons, ih]
        cases l <;> simp only [Label.isRun, Label.isOther] <;> omega
  omega

/-! ## The chain calls the cell -/

variable [DecidableEq P] {c : Threads.Child P V E U} {pools : List P}
  {free : Threads.State P V E U → State P V E → Threads.Label → Bool}
  {s : Threads.State P V E U × State P V E}

/-- **The cell has heard what the chain has called.** -/
structure Heard (o : Option (Signal P V E)) (s : State P V E) : Prop where
  inv : Inv s
  early : s.early = o.elim .running .delivered

theorem heard_inductive (c : Threads.Child P V E U) (pools : List P)
    (free : Threads.State P V E U → State P V E → Threads.Label → Bool) :
    (Threads.calling c false pools (callee free)).Inductive (fun _ _ => True)
      (Threads.Called c pools Heard) := by
  refine Threads.Called.inductive ⟨Inv.inductive.init, rfl⟩ (fun o chain s l t h _ hown hs => ?_)
    fun l s t h hs => ?_
  · have hearly : t.early = s.early := by
      cases l with
      | run i =>
          simp only [callee, machine, step] at hs
          split at hs
          · exact (exec_frame hs).1
          · cases hs
      | attach =>
          simp only [callee, machine, step, Option.ite_none_right_eq_some] at hs
          obtain ⟨-, hs⟩ := hs
          cases hs
          rfl
      | drop =>
          simp only [callee, machine, step, Option.ite_none_right_eq_some] at hs
          obtain ⟨-, hs⟩ := hs
          cases hs
          exact release_early
      | signal => simp [callee] at hown
      | die => simp [callee] at hown
    exact ⟨h.inv.step hs, hearly.trans h.early⟩
  · have hs : step s (.signal c.denote.signal) = some t := hs
    refine ⟨h.inv.step hs, ?_⟩
    simp only [step] at hs
    split at hs
    · cases hs
      rfl
    · cases hs

/-- What the cell has heard is what the chain denotes. -/
theorem denotes_of_heard (h : Threads.Called c pools Heard s) {sig : Signal P V E}
    (hsig : s.2.early = .delivered sig) : sig = c.denote.signal := by
  obtain ⟨as, hrun⟩ := h.run
  have hearly := h.callee.early
  obtain ⟨-, hlog | hlog⟩ := Threads.Child.delivers hrun
  · simp [hsig, hlog] at hearly
  · simpa [hsig, hlog] using hearly

/-- Once the calls have returned the chain waits for nobody, and its end finds the cell ready. -/
theorem quiet_of_stuck (h : Threads.Called c pools Heard s)
    (hfree : ∀ chain s l, Returned s → free chain s l = true)
    (hstuck : ∀ a, Threads.callingStep (callee free) s a = none) :
    Quiet s.2 ∧ ∀ l, Threads.step s.1 l = none := by
  have hquiet : Quiet s.2 := by
    intro i
    have hi := hstuck (.inr (.run i))
    simpa [Threads.callingStep, callee, machine] using hi
  have hreturned : Returned s.2 := hquiet.done h.callee.inv.fitted
  refine ⟨hquiet, h.stuck (fun l => hfree s.1 s.2 l hreturned) (fun l hnone => ?_)
    fun l => hstuck _⟩
  have hearly : s.2.early = .running := hnone.early
  simp [callee, machine, step, hearly]

/-- Nobody is left who could use the sender but has not. -/
theorem sender_of_stuck (hstuck : ∀ a, Threads.callingStep (callee free) s a = none)
    (hfinished : Threads.Finished c.denote {0} s.1) : s.2.sender = false := by
  have hidle : s.1.idle 0 = true := by
    simp only [Threads.State.idle, Option.all_eq_true]
    intro th hth
    exact Threads.isRet_iff.mpr (hfinished.code th (List.mem_of_getElem? hth))
  have hattach := hstuck (.inr .attach)
  simpa [Threads.callingStep, callee, machine, hidle, step] using hattach

/-- **`ensure_started` of a chain that runs on pools**, whoever waits for the calls: nothing panics
and nothing locks what it has locked; the attached receiver gets nothing but what the chain denotes,
and at most once; all runs end; and where nothing can go on, the chain has given back every handle,
the terminal receiver was called, and an attached receiver has got its signal, unless a task waits
for a pool that has no thread. -/
theorem early_chain_hands_over (c : Threads.Child P V E U) (stop_token : Bool) (pools : List P)
    (free : Threads.State P V E U → State P V E → Threads.Label → Bool)
    (hfree : ∀ chain s l, Returned s → free chain s l = true) :
    (∃ bound, ∀ as s,
      (Threads.calling c stop_token pools (callee free)).Run (fun _ _ => True) as s →
      as.length ≤ bound) ∧
    ∀ as s, (Threads.calling c stop_token pools (callee free)).Run (fun _ _ => True) as s →
      (s.1.panics = [] ∧ Sound s.2 ∧ ∀ sig ∈ s.2.calls, sig = c.denote.signal) ∧
      ((∀ a, (Threads.calling c stop_token pools (callee free)).step s a = none) →
        (∃ task ∈ s.1.queue, task.1 ∉ pools) ∨
        Threads.Finished c.denote {0} s.1 ∧ s.2.sender = false ∧
          HandedOver s.2 c.denote.signal) := by
  rw [Threads.calling_eq]
  obtain ⟨bound, hbound⟩ := Threads.bounded_runs c.chain false c.mem none (pools.map some)
  refine ⟨⟨bound + 19, fun as s hrun => ?_⟩, fun as s hrun => ?_⟩
  · obtain ⟨bs, cs, hbs, hcs, hle⟩ := Threads.parts_of_calling (D := fun _ _ => True)
      (w := fun _ => 1) (v := fun _ => 1) hrun (fun _ _ _ _ => ⟨trivial, le_rfl⟩)
      (fun _ _ _ => trivial) fun _ => le_rfl
    simp only [List.map_const', List.sum_replicate_nat, Nat.mul_one] at hle
    have := hbound bs s.1 hbs
    have := length_le hcs
    omega
  · have h := (heard_inductive c pools free).of_run hrun
    obtain ⟨bs, hbs⟩ := h.run
    have hsound := h.callee.inv.sound
    refine ⟨⟨(Threads.Child.delivers hbs).1, hsound, fun sig hsig => ?_⟩, fun hstuck => ?_⟩
    · exact denotes_of_heard h (hsound.sameSignal sig hsig)
    · obtain ⟨hquiet, hchain⟩ := quiet_of_stuck h hfree hstuck
      refine (Threads.Child.finished_of_stuck hbs hchain).imp_right fun hfinished => ?_
      have hearly := h.callee.early
      rw [hfinished.log] at hearly
      exact ⟨hfinished, sender_of_stuck hstuck hfinished, h.callee.inv.handedOver hquiet hearly⟩

/-- Everybody waits for the calls. -/
def oneByOne (_ : Threads.State Bool ℕ Unit Unit) (s : State Bool ℕ Unit) (_ : Threads.Label) :
    Bool :=
  s.threads.all List.isEmpty

/-- The sender is attached while the chain is on its way. -/
def attachAndTravel : List (Threads.Label ⊕ Label Bool ℕ Unit) :=
  [(Threads.travel.take 7).map .inl, [.inr .attach], List.replicate 4 (.inr (.run 0)),
    ((Threads.travel.drop 7).take 29).map .inl, List.replicate 11 (.inr (.run 1)),
    (Threads.travel.drop 36).map .inl].flatten

theorem travelling_hands_over :
    ∃ s, (Threads.calling Threads.traveller false [true, false] (callee oneByOne)).exec
        (Threads.calling Threads.traveller false [true, false] (callee oneByOne)).init
          attachAndTravel = some s ∧
      s.2.calls = [.value (.pool false) [6, 7]] := by
  obtain ⟨s, hexec, hlength⟩ : ∃ s,
      (Threads.calling Threads.traveller false [true, false] (callee oneByOne)).exec
        (Threads.calling Threads.traveller false [true, false] (callee oneByOne)).init
          attachAndTravel = some s ∧
      s.2.calls.length = 1 := Machine.exec_ends (by decide +kernel)
  have hfree : ∀ m s l, (∀ code ∈ s.threads, code = []) → oneByOne m s l = true :=
    fun _ s _ h => List.all_eq_true.mpr fun code hcode => by simp [h code hcode]
  obtain ⟨⟨-, -, hcalls⟩, -⟩ :=
    (early_chain_hands_over Threads.traveller false [true, false] oneByOne hfree).2
      attachAndTravel s (.of_exec (by decide +kernel) hexec)
  obtain ⟨sig, hsig⟩ := List.length_eq_one_iff.mp hlength
  have hsignal : sig = Threads.traveller.denote.signal := hcalls sig (by simp [hsig])
  refine ⟨s, hexec, ?_⟩
  rw [hsig, hsignal]
  decide +kernel

end SendersReceivers.EnsureStarted
