import SendersReceivers.EnsureStarted.Delivery

/-!
# EnsureStarted/Stranded — the cell of a chain that died

A receiver that is attached before there is a signal is put into the cell, in a wrapper that owns a
handle of the state the cell is part of.

    state ──▸ Attached(Some) ──▸ StateReceiverWrapper ──▸ state

A signal takes it out again.  The destruction of the `StateReceiver` does not, and leaves no mark
either, so a receiver that is attached later finds `Pending` and goes the same way.
-/

namespace SendersReceivers.EnsureStarted

open Machinery

variable {P V E : Type} {s t : State P V E} {ls : List (Label P V E)}

/-- The early chain has ended, in one way or the other. -/
def Early.Ended (early : Early P V E) : Prop := early ≠ .running

/-- The receiver, if one was attached, has been signalled or destroyed. -/
def Settled (s : State P V E) : Prop := s.attached = true → s.calls ≠ [] ∨ s.destroyed = true

instance (s : State P V E) : Decidable (Settled s) :=
  haveI : Decidable (s.calls ≠ []) := decidable_of_iff (s.calls.isEmpty = false) (by simp)
  inferInstanceAs (Decidable (_ → _))

/-- An instruction changes neither what happened to the early chain nor to the sender. -/
theorem exec_frame {i : ℕ} {ins : Instr P V E} {k : List (Instr P V E)}
    (hs : exec s i k ins = some t) : t.early = s.early ∧ t.attached = s.attached := by
  cases ins with
  | lockSignal =>
      simp only [exec, Option.ite_none_right_eq_some, Option.some.injEq] at hs
      obtain ⟨-, rfl⟩ := hs
      exact ⟨rfl, rfl⟩
  | attach =>
      simp only [exec] at hs
      split at hs <;> obtain rfl := Option.some.inj hs <;>
        first | exact ⟨rfl, rfl⟩ | (unfold callAttached; split <;> exact ⟨rfl, rfl⟩)
  | assign sig =>
      simp only [exec] at hs
      split at hs <;> obtain rfl := Option.some.inj hs <;> exact ⟨rfl, rfl⟩
  | resume =>
      simp only [exec] at hs
      split at hs <;> obtain rfl := Option.some.inj hs <;> exact ⟨rfl, rfl⟩
  | dropHandle =>
      obtain rfl := Option.some.inj hs
      simp only [State.goto, State.release]
      split <;> exact ⟨rfl, rfl⟩
  | _ =>
      obtain rfl := Option.some.inj hs
      exact ⟨rfl, rfl⟩

@[simp] theorem release_early : s.release.early = s.early := by
  unfold State.release; split <;> rfl

@[simp] theorem release_attached : s.release.attached = s.attached := by
  unfold State.release; split <;> rfl

/-- What a label does to the early chain and to the sender. -/
theorem ended_step {l : Label P V E} (hs : step s l = some t) :
    (t.early = .dropped ↔ s.early = .dropped ∨ l = .die) ∧
      (t.attached = true ↔ s.attached = true ∨ l = .attach) := by
  cases l with
  | run i =>
      simp only [step] at hs
      split at hs
      · obtain ⟨hearly, hattached⟩ := exec_frame hs
        simp [hearly, hattached]
      · simp at hs
  | attach =>
      simp only [step, Option.ite_none_right_eq_some, Option.some.injEq] at hs
      obtain ⟨-, rfl⟩ := hs
      simp
  | drop =>
      simp only [step, Option.ite_none_right_eq_some, Option.some.injEq] at hs
      obtain ⟨-, rfl⟩ := hs
      simp
  | signal sig =>
      simp only [step] at hs
      split at hs
      · next hearly =>
          obtain rfl := Option.some.inj hs
          simp [hearly]
      · simp at hs
  | die =>
      simp only [step] at hs
      split at hs
      · obtain rfl := Option.some.inj hs
        simp
      · simp at hs

theorem ended_iff (h : (machine P V E).Run (fun _ _ => True) ls s) :
    (s.early = .dropped ↔ .die ∈ ls) ∧ (s.attached = true ↔ .attach ∈ ls) := by
  induction h with
  | init => simp [machine, fresh]
  | step hrun _ hs ih =>
      obtain ⟨hearly, hattached⟩ := ended_step hs
      rw [hearly, hattached, ih.1, ih.2]
      simp [eq_comm]

/-- **A cell that owns itself**: after a chain that died, and with the sender gone, the one handle
of the state is that of the receiver its own cell holds. -/
theorem Inv.cell_of_dropped (h : Inv s) (hq : Quiet s) (hearly : s.early = .dropped)
    (hattached : s.attached = true) :
    s.cell = .attached (some ()) ∧ s.strong = 1 ∧ s.calls = [] := by
  have hzero (w : Instr P V E → ℕ) : total w s.threads = 0 := total_eq_zero w (hq.done h.fitted)
  have hsender : s.sender = false := by
    by_contra htrue
    simp [h.counted.sender (by simpa using htrue)] at hattached
  have hassigned := h.counted.assigned
  have htaken := h.counted.taken
  have howned := h.counted.owned
  have hstrong := h.counted.strong
  simp only [hzero, hearly, hattached, hsender, Early.calls, Early.handles, Bool.toNat_true,
    Bool.toNat_false, Nat.zero_add, Nat.add_zero] at hassigned htaken howned hstrong
  have hcalls : s.calls = [] := by
    rcases hc : s.cell with _ | _ | _ <;>
      simp only [hc, StateEnum.assigned, StateEnum.taken, one_ne_zero] at hassigned htaken
    · exact List.length_eq_zero_iff.mp htaken
    · exact List.length_eq_zero_iff.mp htaken
  have howns : s.cell.owns = true := by
    rw [← Bool.toNat_eq_one]
    simpa [hcalls] using howned
  refine ⟨?_, by simpa [howns] using hstrong, hcalls⟩
  rcases hc : s.cell with _ | _ | _ | _ <;> simp [hc, StateEnum.owns] at howns
  rfl

/-- **A receiver is stranded if and only if it was attached and the early chain died**, in whichever
order; seen once that chain has ended and every thread is done. -/
theorem ensure_started_settled_iff (ls : List (Label P V E)) (s : State P V E)
    (h : (machine P V E).Run (fun _ _ => True) ls s) (hq : Quiet s) (hended : s.early.Ended) :
    Settled s ↔ ¬(.die ∈ ls ∧ .attach ∈ ls) := by
  have hinv := Inv.inductive.of_run h
  rw [← (ended_iff h).1, ← (ended_iff h).2]
  constructor
  · rintro hsettled ⟨hearly, hattached⟩
    obtain ⟨-, -, hcalls⟩ := hinv.cell_of_dropped hq hearly hattached
    rcases hsettled hattached with hc | hd
    · exact hc hcalls
    · simp [hinv.counted.intact.1] at hd
  · intro hnot hattached
    obtain ⟨sig, hsig⟩ : ∃ sig, s.early = .delivered sig := by
      cases he : s.early with
      | running => exact absurd he hended
      | delivered sig => exact ⟨sig, rfl⟩
      | dropped => exact absurd ⟨he, hattached⟩ hnot
    refine .inl ?_
    rw [(hinv.handedOver hq hsig).calls, if_pos hattached]
    exact List.cons_ne_nil _ _

theorem race_settled : ∃ s, (machine Unit ℕ Unit).exec fresh race = some s ∧ Settled s := by
  obtain ⟨s, hs, hearly, hdone⟩ : ∃ s, (machine Unit ℕ Unit).exec fresh race = some s ∧
      s.early = .delivered (.value (.pool ()) [7]) ∧ ∀ code ∈ s.threads, code = [] :=
    Machine.exec_ends (by decide +kernel)
  have hrun : (machine Unit ℕ Unit).Run (fun _ _ => True) race s := .of_exec (by decide +kernel) hs
  have hended : s.early.Ended := fun hrunning => by simp [hrunning] at hearly
  refine ⟨s, hs, (ensure_started_settled_iff race s hrun (quiet_of_done hdone) hended).mpr ?_⟩
  rintro ⟨hdie, -⟩
  simp [race] at hdie

/-- **The receiver is stranded**: nothing is left to happen, nothing is left but the state, and its
own cell holds it. -/
def Strands (ls : List (Label Unit ℕ Unit)) : Prop :=
  ∃ s, (machine Unit ℕ Unit).exec fresh ls = some s ∧ (∀ code ∈ s.threads, code = []) ∧
    s.early = .dropped ∧ s.sender = false ∧ ¬Settled s ∧ s.cell = .attached (some ()) ∧ s.strong = 1

/-- The receiver is attached before the early chain dies, or after that. -/
theorem attached_strands :
    Strands (.attach :: List.replicate 4 (.run 0) ++ [.die]) ∧
      Strands (.die :: .attach :: List.replicate 4 (.run 0)) :=
  ⟨Machine.exec_ends (by decide +kernel), Machine.exec_ends (by decide +kernel)⟩

end SendersReceivers.EnsureStarted
