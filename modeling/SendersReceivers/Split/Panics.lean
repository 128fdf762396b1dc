import SendersReceivers.Split.Stranded

/-!
# Split/Panics — what a panicking receiver does to the others

`ReceiverWrapper::invoke`, and the branches of `start` for a completed split, call the receiver
under the guard of the completion state, and the completion calls what was queued in one loop.

    lockState · invoke o₁ · inside ⚡                 the guard is dropped, and poisons a Mutex
                                  lockState · invoke o₂ · ...      is unwound

So a panic is felt by the others if there are receivers left in the loop, or if it finds the guard
of a `SplitSend`; a receiver that a task of the scheduler calls has neither. -/

namespace SendersReceivers.Split

open Machinery

variable {Op P V E : Type} [DecidableEq Op] {send : Bool} {s t : State Op P V E} {i : ℕ}
  {ins : Instr Op P V E} {k : List (Instr Op P V E)} {ls : List (Label Op P V E)}

/-- The runs in which the upstream chain does not die, and nothing is started under the guard. -/
def Completing (s : State Op P V E) (l : Label Op P V E) : Prop := Unguarded s l ∧ ¬l.IsDeath

/-- **A panic stays with its receiver**: nothing is left to be called by its thread, which does not
hold the `Mutex`. -/
def Contained (send : Bool) (s : State Op P V E) : Label Op P V E → Prop
  | .panic i =>
      (codeAt s.threads i).filterMap Instr.owned = [] ∧ (send = true → s.stateLock ≠ some i)
  | _ => True

/-! ## What is done stays done -/

omit [DecidableEq Op] in
theorem Unharmed.of_release (h : Unharmed s.release) : Unharmed s := by
  unfold State.release at h
  split_ifs at h
  · exact ⟨h.1, h.2, (List.append_eq_nil_iff.mp h.3).1⟩
  · exact ⟨h.1, h.2, h.3⟩

omit [DecidableEq Op] in
/-- Only what nothing is destroyed by has harmed nothing. -/
theorem Unharmed.of_unwind (h : Unharmed (s.unwind send i k)) : Unharmed s :=
  ⟨(Bool.or_eq_false_iff.mp h.1).1, (Bool.or_eq_false_iff.mp h.2).1,
    (List.append_eq_nil_iff.mp h.3).1⟩

omit [DecidableEq Op] in
theorem Unharmed.of_exec (h : Unharmed t) (hs : Split.exec send s i k ins = some t) :
    Unharmed s := by
  cases ins with
  | lockState | lockOp =>
      simp only [Split.exec] at hs
      split at hs
      · obtain rfl := Option.some.inj hs
        exact ⟨h.1, h.2, h.3⟩
      · simp at hs
      · obtain rfl := Option.some.inj hs
        have := h.of_unwind
        exact ⟨this.1, this.2, this.3⟩
  | assign sig | invoke o =>
      simp only [Split.exec] at hs
      split at hs <;> obtain rfl := Option.some.inj hs
      · exact ⟨h.1, h.2, h.3⟩
      · have := h.of_unwind
        exact ⟨this.1, this.2, this.3⟩
  | dropHandle =>
      obtain rfl := Option.some.inj hs
      have hrelease : Unharmed s.release := ⟨h.1, h.2, h.3⟩
      exact hrelease.of_release
  | _ =>
      simp only [Split.exec] at hs
      first
        | obtain rfl := Option.some.inj hs
          exact ⟨h.1, h.2, h.3⟩
        | split at hs <;> obtain rfl := Option.some.inj hs <;> exact ⟨h.1, h.2, h.3⟩

/-- **Harm is not undone.** -/
theorem Unharmed.of_step {l : Label Op P V E} (h : Unharmed t)
    (hs : Split.step send s l = some t) : Unharmed s := by
  cases l with
  | run i =>
      simp only [Split.step] at hs
      split at hs
      · exact h.of_exec hs
      · simp at hs
  | drop | die =>
      simp only [Split.step, Option.ite_none_right_eq_some, Option.some.injEq] at hs
      obtain ⟨-, rfl⟩ := hs
      have hrelease : Unharmed s.release := ⟨h.1, h.2, h.3⟩
      exact hrelease.of_release
  | nested i o | signalInline i sig =>
      simp only [Split.step] at hs
      split at hs
      · simp only [Option.ite_none_right_eq_some, Option.some.injEq] at hs
        obtain ⟨-, rfl⟩ := hs
        exact ⟨h.1, h.2, h.3⟩
      · simp at hs
  | panic i =>
      simp only [Split.step] at hs
      split at hs
      · obtain rfl := Option.some.inj hs
        exact h.of_unwind
      · simp at hs
  | dieInline i =>
      simp only [Split.step] at hs
      split at hs
      · simp only [Option.ite_none_right_eq_some, Option.some.injEq] at hs
        obtain ⟨-, rfl⟩ := hs
        have hdie := h.of_unwind
        have hrelease : Unharmed s.release := ⟨hdie.1, hdie.2, hdie.3⟩
        exact hrelease.of_release
      · simp at hs
  | _ =>
      simp only [Split.step, Option.ite_none_right_eq_some, Option.some.injEq] at hs
      obtain ⟨-, rfl⟩ := hs
      exact ⟨h.1, h.2, h.3⟩

/-! ## One panic -/

/-- **A panic harms nobody if and only if it is contained.** -/
theorem Inv.unharmed_panic_iff (h : Inv s) (hs : Split.step send s (.panic i) = some t) :
    Unharmed t ↔ Unharmed s ∧ Contained send s (.panic i) := by
  simp only [Split.step] at hs
  split at hs
  · next k hi =>
      obtain rfl := Option.some.inj hs
      have howned : (codeAt s.threads i).filterMap Instr.owned = k.filterMap Instr.owned := by
        rw [codeAt_eq hi]
        rfl
      -- the guard of the operation state is only held together with that of the completion state
      have hop : s.stateLock ≠ some i → s.opLock ≠ some i := by
        have hfit := (h.fitted.head hi).1
        simpa using hfit
      rw [Contained, howned]
      constructor
      · intro ht
        refine ⟨ht.of_unwind, (List.append_eq_nil_iff.mp ht.3).2, fun hsend hlock => ?_⟩
        have hpoisoned := ht.statePoisoned
        simp [State.unwind, hsend, hlock] at hpoisoned
      · rintro ⟨hunharmed, hnone, hfree⟩
        cases send with
        | false => exact ⟨by simp [State.unwind, hunharmed.1], by simp [State.unwind, hunharmed.2],
            by simp [State.unwind, hunharmed.3, hnone]⟩
        | true =>
            have hlock := hfree rfl
            exact ⟨by simp [State.unwind, hunharmed.1, hlock],
              by simp [State.unwind, hunharmed.2, hop hlock],
              by simp [State.unwind, hunharmed.3, hnone]⟩
  · simp at hs

/-- In a run in which every panic is contained nobody is harmed. -/
theorem contained_inductive :
    (machine Op P V E send).Inductive (fun s l => Completing s l ∧ Contained send s l)
      fun s : State Op P V E => Inv s ∧ Unharmed s where
  init := ⟨Inv.fresh, ⟨rfl, rfl, rfl⟩⟩
  step s l t := by
    rintro ⟨hinv, hunharmed⟩ ⟨⟨hguard, halive⟩, hl⟩ hs
    replace hs : step send s l = some t := hs
    refine ⟨hinv.step hguard hs, ?_⟩
    cases l with
    | panic i => exact (hinv.unharmed_panic_iff hs).mpr ⟨hunharmed, hl⟩
    | die | dieInline i => exact absurd trivial halive
    | _ =>
        refine hunharmed.step hinv ?_ hs
        exact trivial

/-! ## Every run -/

/-- **The receivers of a split are isolated from each other's panics if and only if every panic is
contained**: then no mutex is poisoned, no receiver is destroyed, no `start` panics, and when every
thread is done every started operation has been called, once, with the signal. -/
theorem split_isolates_iff (send : Bool) (ls : List (Label Op P V E)) (s : State Op P V E)
    (h : (machine Op P V E send).Run Completing ls s) :
    (Unharmed s ∧ Sound s ∧ (Quiet send s → ∀ sig, s.upstream = .delivered sig → Delivered s sig)) ↔
      (machine Op P V E send).Run (fun s l => Completing s l ∧ Contained send s l) ls s := by
  have hinv := (Inv.inductive send).of_run (h.mono fun _ _ hl => hl.1)
  have hharm : ¬¬Unharmed s ↔
      (machine Op P V E send).Run (fun s l => Completing s l ∧ Contained send s l) ls s := by
    refine h.good_iff_within (I := Inv) ⟨Inv.fresh, fun _ _ _ hinv hl hs => hinv.step hl.1 hs⟩
      (fun _ _ _ _ hbad _ hs ht => hbad (Unharmed.of_step ht hs)) (fun s l t hinv _ hl hs ht => ?_)
      (fun _ _ hrun => not_not_intro (contained_inductive.of_run hrun).2)
    cases l with
    | panic i => exact hl ((hinv.unharmed_panic_iff hs).mp ht).2
    | _ => exact hl trivial
  rw [← hharm, Classical.not_not]
  exact ⟨And.left, fun hu => ⟨hu, hinv.sound hu, hinv.delivered hu⟩⟩

instance (l : Label Op P V E) : Decidable l.IsDeath :=
  match l with
  | .die => .isTrue trivial
  | .dieInline _ => .isTrue trivial
  | .start _ | .clone | .drop | .run _ | .nested _ _ | .panic _ | .signal _ | .signalInline _ _ =>
      .isFalse id

instance (s : State Op P V E) (l : Label Op P V E) : Decidable (Completing s l) := instDecidableAnd

instance (send : Bool) (s : State Op P V E) : DecidablePred (Contained send s)
  | .panic _ => instDecidableAnd
  | .start _ => .isTrue trivial
  | .clone => .isTrue trivial
  | .drop => .isTrue trivial
  | .run _ => .isTrue trivial
  | .nested _ _ => .isTrue trivial
  | .signal _ => .isTrue trivial
  | .signalInline _ _ => .isTrue trivial
  | .die => .isTrue trivial
  | .dieInline _ => .isTrue trivial

/-- The value arrives on a pool, so the receiver of the operation started after the completion is
called by a task, and panics there; one more operation is started. -/
def panicOnPool : List (Label ℕ Unit ℕ Unit) :=
  [[.clone, .clone, .start 0], runs 0 5, [.signal (.value (.pool ()) [7])], runs 0 3, runs 1 10,
    [.start 1], runs 2 4, runs 3 1, [.panic 3, .start 2], runs 4 4, runs 5 2].flatten

theorem panicOnPool_isolated : ∃ s, (machine ℕ Unit ℕ Unit true).exec fresh panicOnPool = some s ∧
    s.started = [0, 1, 2] ∧ Sound s ∧ Delivered s (.value (.pool ()) [7]) := by
  obtain ⟨s, hs, hup, hdone, hstarted⟩ : ∃ s, (machine ℕ Unit ℕ Unit true).exec fresh panicOnPool =
      some s ∧ s.upstream = .delivered (.value (.pool ()) [7]) ∧
      (∀ code ∈ s.threads, code = []) ∧ s.started = [0, 1, 2] :=
    Machine.exec_ends (by decide +kernel)
  have hrun : (machine ℕ Unit ℕ Unit true).Run (fun s l => Completing s l ∧ Contained true s l)
      panicOnPool s := .of_exec (by decide +kernel) hs
  obtain ⟨-, hsound, hdelivers⟩ :=
    (split_isolates_iff true panicOnPool s (hrun.mono fun _ _ hl => hl.1)).mpr hrun
  exact ⟨s, hs, hstarted, hsound, hdelivers (quiet_of_done hdone) _ hup⟩

/-- **A receiver is lost to the panic of another one**: the upstream chain has delivered, every
thread is done, and the receiver was destroyed without having been called. -/
def Loses (send : Bool) (ls : List (Label ℕ Unit ℕ Unit)) (panics : List String) : Prop :=
  ∃ s, (machine ℕ Unit ℕ Unit send).exec fresh ls = some s ∧ (∀ code ∈ s.threads, code = []) ∧
    s.upstream = .delivered (.value .immediate [7]) ∧ s.started = [0, 1] ∧
    s.calls.map Prod.fst = [0] ∧
    s.destroyed = [1] ∧ s.panics = panics

/-- Operation `0` panics: operation `1` is queued behind it, or is started afterwards. -/
theorem panic_loses :
    (∀ send, Loses send ([[.clone, .start 0], runs 0 8, [.start 1], runs 1 7,
      [.signal (.value .immediate [7])], runs 2 6, [.panic 2], runs 2 3].flatten) []) ∧
      Loses true ([[.clone, .start 0], runs 0 8, [.signal (.value .immediate [7])], runs 1 6,
        [.panic 1], runs 1 2, [.start 1], runs 2 2].flatten) ["PoisonError"] := by
  refine ⟨fun send => ?_, Machine.exec_ends (by decide +kernel)⟩
  cases send <;> exact Machine.exec_ends (by decide +kernel)

end SendersReceivers.Split
