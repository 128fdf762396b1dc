import SendersReceivers.Machinery.Runs
import Mathlib.Algebra.BigOperators.Group.Finset.Piecewise
import Mathlib.Algebra.Order.BigOperators.Group.Finset

/-!
# Machinery/Interleaving — machines side by side

A family of machines takes turns, one step of one of them at a time, and may have to wait for each
other: a step is taken only where the others leave it `free`.  Each machine does in a run of the
family what it does in a run of its own, so what holds of its runs holds here.

Waiting is harmless where whoever is waited for can go on: then the family is stuck only if all of
the machines are.

A machine of two parts moves one of them, or both at once where one part calls the other.
-/

namespace Machinery

namespace Machine

variable {ι σ α : Type*} [DecidableEq ι]

/-- **The machines `M i`, side by side**, each step of them held to `free`. -/
def interleaved (M : ι → Machine σ α) (free : (ι → σ) → ι → α → Prop)
    [∀ s i a, Decidable (free s i a)] : Machine (ι → σ) (ι × α) where
  init := fun i => (M i).init
  step := fun s a =>
    if free s a.1 a.2 then ((M a.1).step (s a.1) a.2).map (Function.update s a.1) else none

/-- The steps of machine `i`. -/
def turns (i : ι) (as : List (ι × α)) : List α :=
  as.filterMap fun a => if a.1 = i then some a.2 else none

variable {M : ι → Machine σ α} {free : (ι → σ) → ι → α → Prop} [∀ s i a, Decidable (free s i a)]
  {C : (ι → σ) → ι × α → Prop} {as : List (ι × α)} {s s' : ι → σ}

/-- A step is one of a machine that may take it, and the others stay where they are. -/
theorem interleaved_step {i : ι} {a : α} : (interleaved M free).step s (i, a) = some s' ↔
    free s i a ∧ ∃ t, (M i).step (s i) a = some t ∧ s' = Function.update s i t := by
  simp only [interleaved]
  split_ifs with hfree
  · simp [hfree, eq_comm]
  · simp [hfree]

theorem turns_append (i : ι) (a : ι × α) : turns i (as ++ [a]) =
    if a.1 = i then turns i as ++ [a.2] else turns i as := by
  unfold turns
  rw [List.filterMap_append]
  split_ifs with hi <;> simp [hi]

/-- **The projection rule**: each machine has a run of its own. -/
theorem Run.project (h : (interleaved M free).Run C as s) (i : ι) :
    (M i).Run (fun _ _ => True) (turns i as) (s i) := by
  induction h with
  | init => exact .init
  | @step as s s' a hrun hC hs ih =>
      obtain ⟨j, a⟩ := a
      obtain ⟨-, t, ht, rfl⟩ := interleaved_step.mp hs
      rw [turns_append]
      obtain rfl | hne := eq_or_ne j i
      · rw [if_pos rfl, Function.update_self]
        exact ih.step trivial ht
      · rw [if_neg hne, Function.update_of_ne hne.symm]
        exact ih

/-- Every step is the turn of some machine. -/
theorem sum_length_turns [Fintype ι] (as : List (ι × α)) :
    ∑ i, (turns i as).length = as.length := by
  induction as using List.reverseRecOn with
  | nil => simp [turns]
  | append_singleton as a ih =>
      have hturn : ∀ i, (turns i (as ++ [a])).length =
          (turns i as).length + if a.1 = i then 1 else 0 := by
        intro i
        rw [turns_append]
        split_ifs <;> simp
      rw [Finset.sum_congr rfl fun i _ => hturn i, Finset.sum_add_distrib, ih]
      simp

/-- **The bound rule**: if the runs of each machine are bounded, the runs of the family are. -/
theorem Run.length_le_sum [Fintype ι] {bound : ι → ℕ} (h : (interleaved M free).Run C as s)
    (hbound : ∀ i as s, (M i).Run (fun _ _ => True) as s → as.length ≤ bound i) :
    as.length ≤ ∑ i, bound i := by
  rw [← sum_length_turns as]
  exact Finset.sum_le_sum fun i _ => hbound i _ _ (h.project i)

/-- **The waiting rule**: where a step that is not free waits for a machine that can go on, the
family is stuck only if all of its machines are. -/
theorem stuck_of_interleaved
    (hwait : ∀ i a, ¬free s i a → ∃ j b, free s j b ∧ (M j).step (s j) b ≠ none)
    (hstuck : ∀ a, (interleaved M free).step s a = none) (i : ι) (a : α) :
    (M i).step (s i) a = none := by
  have hgo : ∀ j b, free s j b → (M j).step (s j) b = none := by
    intro j b hfree
    have := hstuck (j, b)
    simpa [interleaved, hfree] using this
  by_cases hfree : free s i a
  · exact hgo i a hfree
  · obtain ⟨j, b, hfree, hne⟩ := hwait i a hfree
    exact absurd (hgo j b hfree) hne

/-- **The rule of two parts**: if each step moves the first part, or the second, or both, a run is a
run of each of them, and costs not more than the two together. -/
theorem Run.parts {σ τ₁ τ₂ α β γ : Type*} {M : Machine σ α} {M₁ : Machine τ₁ β} {M₂ : Machine τ₂ γ}
    {C : σ → α → Prop} {D : τ₂ → γ → Prop} {f : σ → τ₁} {g : σ → τ₂} {w : α → ℕ} {v : γ → ℕ}
    {as : List α} {s : σ} (h : M.Run C as s) (hf : f M.init = M₁.init) (hg : g M.init = M₂.init)
    (hstep : ∀ ⦃s a s'⦄, C s a → M.step s a = some s' →
      (∃ b, M₁.step (f s) b = some (f s')) ∧ (g s' = g s ∧ w a ≤ 1 ∨
        ∃ c, D (g s) c ∧ M₂.step (g s) c = some (g s') ∧ w a ≤ 1 + v c) ∨
      f s' = f s ∧ ∃ c, D (g s) c ∧ M₂.step (g s) c = some (g s') ∧ w a ≤ v c) :
    ∃ bs cs, M₁.Run (fun _ _ => True) bs (f s) ∧ M₂.Run D cs (g s) ∧
      (as.map w).sum ≤ bs.length + (cs.map v).sum := by
  induction h with
  | init => exact ⟨[], [], hf ▸ .init, hg ▸ .init, le_rfl⟩
  | step _ hC hs ih =>
      obtain ⟨bs, cs, hbs, hcs, hle⟩ := ih
      obtain ⟨⟨b, hb⟩, ⟨hsame, hw⟩ | ⟨c, hD, hc, hw⟩⟩ | ⟨hsame, c, hD, hc, hw⟩ := hstep hC hs
      · refine ⟨bs ++ [b], cs, hbs.step trivial hb, hsame ▸ hcs, ?_⟩
        simp only [List.map_append, List.map_cons, List.map_nil, List.sum_append, List.sum_cons,
          List.sum_nil, List.length_append, List.length_singleton]
        omega
      · refine ⟨bs ++ [b], cs ++ [c], hbs.step trivial hb, hcs.step hD hc, ?_⟩
        simp only [List.map_append, List.map_cons, List.map_nil, List.sum_append, List.sum_cons,
          List.sum_nil, List.length_append, List.length_singleton]
        omega
      · refine ⟨bs, cs ++ [c], hsame ▸ hbs, hcs.step hD hc, ?_⟩
        simp only [List.map_append, List.map_cons, List.map_nil, List.sum_append, List.sum_cons,
          List.sum_nil]
        omega

end Machine

end Machinery
