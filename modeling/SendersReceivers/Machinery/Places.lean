import Mathlib.Data.List.Infix
import Mathlib.Data.List.Perm.Basic

/-!
# Machinery/Places — places inside of a value, and who may use them

A place is the way to it from the root, field by field; what is inside of a field has a longer way.
Two places have something in common only if one of them is inside of the other, so whoever splits a
place into parts that are apart can hand these out one by one.
-/

namespace Machinery

/-- The fields on the way to a part of a value. -/
abbrev Place := List ℕ

namespace Place

/-- One of the places is inside of the other. -/
def Overlap (p q : Place) : Prop := p <+: q ∨ q <+: p

instance (p q : Place) : Decidable (Overlap p q) :=
  inferInstanceAs (Decidable (p <+: q ∨ q <+: p))

variable {p q p' q' : Place}

theorem Overlap.symm (h : Overlap p q) : Overlap q p := Or.symm h

/-- Both have the place `p'` inside. -/
theorem Overlap.of_inside (hp : p <+: p') (hq : q <+: p') : Overlap p q :=
  List.prefix_or_prefix_of_prefix hp hq

/-- Parts of what is apart are apart. -/
theorem Overlap.of_parts (h : Overlap p' q') (hp : p <+: p') (hq : q <+: q') : Overlap p q := by
  obtain hpq | hqp := h
  · exact .of_inside (hp.trans hpq) hq
  · exact .of_inside hp (hq.trans hqp)

/-- Below the same place. -/
theorem Overlap.of_append {r : Place} (h : Overlap (r ++ p) (r ++ q)) : Overlap p q :=
  h.imp (List.prefix_append_right_inj r).mp (List.prefix_append_right_inj r).mp

/-- Different fields are apart. -/
theorem not_overlap_singleton {i j : ℕ} (hne : i ≠ j) : ¬Overlap [i] [j] := by
  rintro (h | h)
  · exact hne (by simpa [List.cons_prefix_cons] using h)
  · exact hne (by simpa [List.cons_prefix_cons, eq_comm] using h)

end Place

/-- **A list in which any two are related**, after one of them has made way for others that are
related among themselves, and to whatever it was related to. -/
theorem pairwise_replace {α : Type*} {R : α → α → Prop} (hsymm : ∀ {a b}, R a b → R b a)
    {l : List α}
    {i : ℕ} {a : α} (h : l.Pairwise R) (ha : l[i]? = some a) {new : List α} (hnew : new.Pairwise R)
    (hold : ∀ b ∈ new, ∀ c, R a c → R b c) : (l.eraseIdx i ++ new).Pairwise R := by
  obtain ⟨hi, rfl⟩ := List.getElem?_eq_some_iff.mp ha
  have hperm := (List.getElem_cons_eraseIdx_perm hi).pairwise_iff hsymm |>.mpr h
  obtain ⟨hrest, herase⟩ := List.pairwise_cons.mp hperm
  refine List.pairwise_append.mpr ⟨herase, hnew, fun c hc b hb => ?_⟩
  exact hsymm (hold b hb c (hrest c hc))

end Machinery
