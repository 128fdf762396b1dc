import Mathlib.Data.Set.Basic

/-!
# Machinery/Ownership — what goes with an owner

Things are owned: by an owner that is about to drop all it has, by the others, or from inside of an
object.  An object goes with its last handle, and what is inside of it goes with the object.

    dropped ──▸ handle of k ──▸ inside k ──▸ handle of j ──▸ inside j
                                                  ▴
                                         kept ────┘   then j stays
-/

namespace Machinery

variable {ι τ : Type*}

/-- What is about to be dropped, what others keep, and what is inside of object `k`. -/
structure Holdings (ι τ : Type*) where
  dropped : Set τ
  kept : Set τ
  inside : ι → Set τ

namespace Holdings

variable (handle : ι → τ)

/-- **Object `k` goes, too**: nobody keeps a handle of it, and none is inside of an object that
stays. -/
inductive Falls (H : Holdings ι τ) : ι → Prop
  | intro {k : ι} : handle k ∉ H.kept → (∀ j, handle k ∈ H.inside j → Falls H j) → Falls H k

/-- **`x` has no other owner.** -/
def Lost (H : Holdings ι τ) (x : τ) : Prop :=
  x ∈ H.dropped ∨ ∃ j, H.Falls handle j ∧ x ∈ H.inside j

/-- What others keep, and what is inside of the objects that they keep a handle of. -/
def reached (H : Holdings ι τ) : Set τ := {x | x ∈ H.kept ∨ ∃ j, handle j ∈ H.kept ∧ x ∈ H.inside j}

variable {handle} {H H' : Holdings ι τ} {k : ι} {x : τ}

theorem Falls.not_kept (h : H.Falls handle k) : handle k ∉ H.kept := by
  cases h with
  | intro hk _ => exact hk

theorem Falls.of_inside (h : H.Falls handle k) {j : ι} (hj : handle k ∈ H.inside j) :
    H.Falls handle j := by
  cases h with
  | intro _ hin => exact hin j hj

theorem Falls.not_reached (h : H.Falls handle k) : handle k ∉ H.reached handle := by
  rintro (hk | ⟨j, hj, hin⟩)
  · exact h.not_kept hk
  · exact (h.of_inside hin).not_kept hj

/-- **The others cannot save it**: where they only get hold of what they can reach, what falls still
does.  Objects with nothing inside are of no use to them. -/
theorem Falls.persists (h : H.Falls handle k) (hk : (H.inside k).Nonempty)
    (hkept : ∀ k, handle k ∈ H'.kept → handle k ∈ H.reached handle ∨ H.inside k = ∅)
    (hinside : ∀ j k, handle k ∈ H'.inside j →
      handle k ∈ H.inside j ∨ handle k ∈ H.reached handle) :
    H'.Falls handle k := by
  induction h with
  | @intro k hk' hin ih =>
      have hfalls : H.Falls handle k := .intro hk' hin
      refine .intro (fun hkept' => ?_) fun j hj => ?_
      · obtain hreached | hempty := hkept k hkept'
        · exact hfalls.not_reached hreached
        · exact hk.ne_empty hempty
      · have hj' := (hinside j k hj).resolve_right hfalls.not_reached
        exact ih j hj' ⟨_, hj'⟩

theorem Lost.persists (h : H.Lost handle x)
    (hkept : ∀ k, handle k ∈ H'.kept → handle k ∈ H.reached handle ∨ H.inside k = ∅)
    (hinside : ∀ j k, handle k ∈ H'.inside j → handle k ∈ H.inside j ∨ handle k ∈ H.reached handle)
    (hdropped : x ∈ H.dropped → x ∈ H'.dropped)
    (hfalls : ∀ j, H.Falls handle j → x ∈ H.inside j → x ∈ H'.inside j ∨ x ∈ H'.dropped) :
    H'.Lost handle x := by
  obtain hx | ⟨j, hj, hx⟩ := h
  · exact .inl (hdropped hx)
  · obtain hx' | hx' := hfalls j hj hx
    · exact .inr ⟨j, hj.persists ⟨x, hx⟩ hkept hinside, hx'⟩
    · exact .inl hx'

/-- **Dropping makes nobody an only owner**: where what is about to be dropped comes out of what
fell anyway, and the others keep all they had, whatever is lost was so before. -/
theorem Lost.reflects (h : H'.Lost handle x) (hkept : ∀ k, handle k ∈ H.kept → handle k ∈ H'.kept)
    (hinside : ∀ j, H'.inside j ⊆ H.inside j)
    (hgone : ∀ j k, handle k ∈ H.inside j → handle k ∈ H'.inside j ∨ H.Falls handle j)
    (hdropped : x ∈ H'.dropped → H.Lost handle x) : H.Lost handle x := by
  have hfalls : ∀ k, H'.Falls handle k → H.Falls handle k := by
    intro k hk
    induction hk with
    | @intro k hk _ ih =>
        refine .intro (fun hk' => hk (hkept k hk')) fun j hj => ?_
        exact (hgone j k hj).elim (ih j) id
  obtain hx | ⟨j, hj, hx⟩ := h
  · exact hdropped hx
  · exact .inr ⟨j, hfalls j hj, hinside j hx⟩

/-- With nothing about to be dropped, and no object without a handle but those with nothing inside,
nothing is lost. -/
theorem not_lost (hdropped : H.dropped = ∅)
    (howned : ∀ k, handle k ∈ H.kept ∨ (∃ j, handle k ∈ H.inside j) ∨ H.inside k = ∅) :
    ¬H.Lost handle x := by
  have hempty : ∀ k, H.Falls handle k → H.inside k = ∅ := by
    intro k hk
    induction hk with
    | @intro k hk _ ih =>
        obtain hkept | ⟨j, hj⟩ | hnone := howned k
        · exact absurd hkept hk
        · rw [ih j hj] at hj
          exact hj.elim
        · exact hnone
  rintro (hx | ⟨j, hj, hx⟩)
  · rw [hdropped] at hx
    exact hx.elim
  · rw [hempty j hj] at hx
    exact hx.elim

end Holdings

end Machinery
