import Mathlib.Logic.Relation
import Mathlib.Order.Defs.Unbundled

/-!
# Machinery/Acyclic — relations without cycles, edge by edge

A relation without cycles is a strict order, once it is closed under transitivity.  It stays without
cycles when it grows by one edge that closes none.
-/

namespace Machinery

open Relation

variable {α : Type*}

/-- No way leads back. -/
def Acyclic (R : α → α → Prop) : Prop := ∀ a, ¬TransGen R a a

/-- `a` is somewhere below `b`. -/
def Beneath (R : α → α → Prop) (a b : α) : Prop := TransGen R b a

variable {R R' : α → α → Prop} {p c : α}

theorem Acyclic.isStrictOrder (h : Acyclic R) : IsStrictOrder α (Beneath R) where
  irrefl := h
  trans _ _ _ hab hbc := hbc.trans hab

theorem Acyclic.anti (h : Acyclic R) (hR : ∀ a b, R' a b → R a b) : Acyclic R' := fun a ha =>
  h a (TransGen.mono hR _ _ ha)

theorem Beneath.mono (hR : ∀ a b, R a b → R' a b) {a b : α} (h : Beneath R a b) :
    Beneath R' a b :=
  TransGen.mono hR _ _ h

/-- A way in the larger relation is one in the smaller, or uses the new edge. -/
theorem transGen_insert (hR : ∀ a b, R' a b → R a b ∨ (a = p ∧ b = c)) {a b : α}
    (h : TransGen R' a b) : TransGen R a b ∨ (ReflTransGen R a p ∧ ReflTransGen R c b) := by
  induction h with
  | single hab =>
      obtain hab | ⟨rfl, rfl⟩ := hR _ _ hab
      · exact .inl (.single hab)
      · exact .inr ⟨.refl, .refl⟩
  | tail _ hbd ih =>
      obtain hbd | ⟨rfl, rfl⟩ := hR _ _ hbd
      · obtain hab | ⟨hap, hcb⟩ := ih
        · exact .inl (hab.tail hbd)
        · exact .inr ⟨hap, hcb.tail hbd⟩
      · obtain hab | ⟨hap, -⟩ := ih
        · exact .inr ⟨hab.to_reflTransGen, .refl⟩
        · exact .inr ⟨hap, .refl⟩

/-- **One more edge**, and no way from its end to its beginning. -/
theorem Acyclic.insert (h : Acyclic R) (hR : ∀ a b, R' a b → R a b ∨ (a = p ∧ b = c))
    (hnew : ¬ReflTransGen R c p) : Acyclic R' := by
  intro a ha
  obtain ha | ⟨hap, hca⟩ := transGen_insert hR ha
  · exact h a ha
  · exact hnew (hca.trans hap)

end Machinery
