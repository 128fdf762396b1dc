import SendersReceivers.Split.Delivery

/-!
# Split/Stranded — what happens to the queue when the upstream chain dies

Every queued receiver owns a handle of the state that holds the queue.

    state ──▸ receivers ──▸ ReceiverWrapper ──▸ state

A completion empties the queue.  When the `CompletionReceiver` is destroyed instead nothing does:
the operation whose start has started the upstream chain is queued by then, and its handle keeps the
state alive, whatever else goes away.
-/

namespace SendersReceivers.Split

open Machinery

variable {Op P V E : Type} [DecidableEq Op] {send : Bool} {s t : State Op P V E} {i : ℕ}
  {ins : Instr Op P V E} {k : List (Instr Op P V E)} {ls : List (Label Op P V E)}

/-- The upstream chain dies without a signal. -/
def Label.IsDeath : Label Op P V E → Prop
  | .die => True
  | .dieInline _ => True
  | _ => False

/-- The upstream chain has ended, in one way or the other. -/
def Upstream.Ended (u : Upstream P V E) : Prop := (∃ sig, u = .delivered sig) ∨ u = .dropped

/-- Every started receiver has been signalled or destroyed. -/
def Settled (s : State Op P V E) : Prop :=
  ∀ o ∈ s.started, o ∈ s.calls.map Prod.fst ∨ o ∈ s.destroyed

instance (s : State Op P V E) : Decidable (Settled s) :=
  inferInstanceAs (Decidable (∀ o ∈ s.started, _))

/-- A step ends the upstream chain in a death exactly if it is one. -/
theorem dropped_step {l : Label Op P V E} (h : Inv s) (hs : step send s l = some t) :
    t.upstream = .dropped ↔ s.upstream = .dropped ∨ l.IsDeath := by
  cases l with
  | run i =>
      simp only [step] at hs
      split at hs
      · obtain ⟨-, hup | ⟨ho, hup⟩⟩ := exec_frame hs
        · simp [hup, Label.IsDeath]
        · have hidle : s.upstream = .idle := by
            rcases h.counted.starts with ⟨-, -, hidle⟩ | ⟨hf, -, -⟩
            · exact hidle
            · simp [ho] at hf
          simp [hup, hidle, Label.IsDeath]
      · simp at hs
  | start o =>
      simp only [step, Option.ite_none_right_eq_some, Option.some.injEq] at hs
      obtain ⟨-, rfl⟩ := hs
      simp [Label.IsDeath]
  | clone =>
      simp only [step, Option.ite_none_right_eq_some, Option.some.injEq] at hs
      obtain ⟨-, rfl⟩ := hs
      simp [Label.IsDeath]
  | drop =>
      simp only [step, Option.ite_none_right_eq_some, Option.some.injEq] at hs
      obtain ⟨-, rfl⟩ := hs
      simp [Label.IsDeath]
  | nested i o =>
      simp only [step] at hs
      split at hs
      · simp only [Option.ite_none_right_eq_some, Option.some.injEq] at hs
        obtain ⟨-, rfl⟩ := hs
        simp [Label.IsDeath, State.goto]
      · simp at hs
  | panic i =>
      simp only [step] at hs
      split at hs
      · obtain rfl := Option.some.inj hs
        simp [Label.IsDeath, State.unwind]
      · simp at hs
  | signal sig =>
      simp only [step, Option.ite_none_right_eq_some, Option.some.injEq] at hs
      obtain ⟨hrunning, rfl⟩ := hs
      simp [Label.IsDeath, hrunning]
  | signalInline i sig =>
      simp only [step] at hs
      split at hs
      · simp only [Option.ite_none_right_eq_some, Option.some.injEq] at hs
        obtain ⟨hrunning, rfl⟩ := hs
        simp [Label.IsDeath, State.goto, hrunning]
      · simp at hs
  | die =>
      simp only [step, Option.ite_none_right_eq_some, Option.some.injEq] at hs
      obtain ⟨-, rfl⟩ := hs
      simp [Label.IsDeath, State.die]
  | dieInline i =>
      simp only [step] at hs
      split at hs
      · simp only [Option.ite_none_right_eq_some, Option.some.injEq] at hs
        obtain ⟨-, rfl⟩ := hs
        simp [Label.IsDeath, State.die, State.unwind]
      · simp at hs

/-- The upstream chain is dead exactly if it died on the way. -/
theorem dropped_iff (h : (machine Op P V E send).Run Unguarded ls s) :
    s.upstream = .dropped ↔ ∃ l ∈ ls, l.IsDeath := by
  induction h with
  | init => simp [machine, fresh]
  | step hrun hu hs ih =>
      rw [dropped_step ((Inv.inductive send).of_run hrun) hs, ih]
      simp [or_and_right, exists_or]

/-- A dead upstream chain leaves its split pending. -/
theorem Inv.completion_of_dropped (h : Inv s) (hup : s.upstream = .dropped) :
    s.completion = none := by
  have hassigned := h.counted.assigned
  cases hc : s.completion with
  | none => rfl
  | some sig => simp [hup, hc, Upstream.calls] at hassigned

/-- **A dead upstream chain leaves a queue that owns itself**: when the users have let go, all
handles of the state are those in its own queue, and there is one. -/
theorem Inv.queue_of_dropped (h : Inv s) (hup : s.upstream = .dropped) (hq : Quiet send s)
    (hhandles : s.handles = 0) : s.receivers ≠ [] ∧ s.strong = s.receivers.length := by
  have hstrong := h.counted.strong
  rw [hq.total_eq_zero h.fitted drops, hhandles, hup] at hstrong
  exact ⟨h.counted.queued (h.completion_of_dropped hup) (.inr (by simp [hup])),
    by simpa [Upstream.handles] using hstrong⟩

/-- **Nothing is stranded if and only if the upstream chain did not die**, in a run that starts
nothing under the guard, once every thread is done and the users have let go. -/
theorem split_settled_iff (send : Bool) (ls : List (Label Op P V E)) (s : State Op P V E)
    (h : (machine Op P V E send).Run Unguarded ls s) (hq : Quiet send s) (hended : s.upstream.Ended)
    (hhandles : s.handles = 0) : Settled s ↔ ∀ l ∈ ls, ¬l.IsDeath := by
  have hinv := (Inv.inductive send).of_run h
  have hdeath : (∀ l ∈ ls, ¬l.IsDeath) ↔ s.upstream ≠ .dropped := by
    rw [ne_eq, dropped_iff h]
    simp
  rw [hdeath]
  constructor
  · intro hsettled hup
    obtain ⟨o, ho⟩ := List.exists_mem_of_ne_nil _ (hinv.queue_of_dropped hup hq hhandles).1
    have hqueue := List.count_pos_iff.mpr ho
    have hstarted : o ∈ s.started := by
      by_contra hnot
      have := hinv.places_eq_zero hnot
      unfold State.places at this
      omega
    have hone := hinv.quiet_places hq hstarted
    rcases hsettled o hstarted with hc | hd
    · have := List.count_pos_iff.mpr hc
      omega
    · have := List.count_pos_iff.mpr hd
      omega
  · intro hup o ho
    obtain ⟨sig, hdelivered⟩ := hended.resolve_right hup
    have hsig := hinv.quiet_completion hq hdelivered
    have hone := hinv.quiet_places hq ho
    have hnil : s.receivers = [] := hinv.counted.drained (by simp [hsig])
    simp only [hnil, List.count_nil] at hone
    by_cases hc : o ∈ s.calls.map Prod.fst
    · exact .inl hc
    · have := List.count_eq_zero_of_not_mem hc
      exact .inr (List.count_pos_iff.mp (by omega))

/-- Two operations are called on completion, the second one after the receiver of the first one has
panicked. -/
def panicking : List (Label ℕ Unit ℕ Unit) :=
  [[.clone, .start 0], runs 0 8, [.start 1], runs 1 7, [.signal (.value .immediate [7])], runs 2 6,
    [.panic 2], runs 2 3].flatten

theorem panicking_settled :
    ∃ s, (machine ℕ Unit ℕ Unit true).exec fresh panicking = some s ∧ Settled s := by
  obtain ⟨s, hs, hup, hdone, hhandles⟩ : ∃ s, (machine ℕ Unit ℕ Unit true).exec fresh panicking =
      some s ∧ s.upstream = .delivered (.value .immediate [7]) ∧
      (∀ code ∈ s.threads, code = []) ∧ s.handles = 0 :=
    Machine.exec_ends (by decide +kernel)
  have hrun : (machine ℕ Unit ℕ Unit true).Run Unguarded panicking s :=
    .of_exec (by decide +kernel) hs
  refine ⟨s, hs, (split_settled_iff true panicking s hrun (quiet_of_done hdone) (.inl ⟨_, hup⟩)
    hhandles).mpr ?_⟩
  simp [panicking, runs, Label.IsDeath]

/-- One operation is started, and the upstream chain it has started panics on its own thread. -/
def dying : List (Label ℕ Unit ℕ Unit) := [[.start 0], runs 0 5, [.die], runs 0 3].flatten

/-- **The receiver is stranded**: nothing is left to happen, nothing is left but the state, and its
own queue holds it. -/
def Strands (send : Bool) (ls : List (Label ℕ Unit ℕ Unit)) : Prop :=
  ∃ s, (machine ℕ Unit ℕ Unit send).exec fresh ls = some s ∧ (∀ code ∈ s.threads, code = []) ∧
    s.upstream = .dropped ∧ s.handles = 0 ∧ ¬Settled s ∧ s.receivers = [0] ∧ s.strong = 1

theorem dying_strands : Strands false dying ∧ Strands true dying :=
  ⟨Machine.exec_ends (by decide +kernel), Machine.exec_ends (by decide +kernel)⟩

end SendersReceivers.Split
