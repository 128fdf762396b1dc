import Mathlib.Data.Set.Finite.Basic
import Mathlib.Order.WellFoundedSet
import SendersReceivers.Machinery.Threads

/-!
# Machinery/Locks — threads that lock inside of what they have locked

An instruction may be about to take a lock, and it may have one until it is done.  The code of a
thread is a stack: what comes first is done while the locks of what comes later are held.

    [ x, y, z ]     x is done inside of the locks that y and z hold

If some strict order puts what is used inside below what is held outside, then nobody waits for a
lock of its own, and somebody waits for none.
-/

namespace Machinery

variable {ι κ : Type*}

/-- What the instructions have to do with locks. -/
structure Locks (ι κ : Type*) where
  /-- the lock that the instruction takes or has, now or in the end -/
  uses : ι → Option κ
  /-- the lock that must be free now -/
  awaits : ι → Option κ
  holds : ι → Option κ
  uses_of_awaits : ∀ {x r}, awaits x = some r → uses x = some r
  holds_of_awaits : ∀ {x r}, awaits x = some r → holds x = none

namespace Locks

variable (L : Locks ι κ) (lt : κ → κ → Prop)

/-- The lock of `x` is below those that are held around it. -/
def Inside (x y : ι) : Prop := ∀ r ∈ L.uses x, ∀ q ∈ L.holds y, lt r q

/-- **What is used inside is below what is held outside.** -/
def Ordered (code : List ι) : Prop := code.Pairwise (L.Inside lt)

/-- Nobody holds the lock. -/
def Free (threads : List (List ι)) (q : κ) : Prop :=
  ∀ code ∈ threads, ∀ y ∈ code, L.holds y ≠ some q

instance [DecidableRel lt] : DecidableRel (L.Inside lt) := fun x y =>
  inferInstanceAs (Decidable (∀ r ∈ L.uses x, ∀ q ∈ L.holds y, lt r q))

instance [DecidableRel lt] (code : List ι) : Decidable (L.Ordered lt code) :=
  inferInstanceAs (Decidable (code.Pairwise (L.Inside lt)))

variable {L lt} {x : ι} {c k : List ι} {threads : List (List ι)}

theorem Ordered.nil : L.Ordered lt [] := List.Pairwise.nil

/-- Code that holds nothing. -/
theorem Ordered.of_holds_none (h : ∀ y ∈ c, L.holds y = none) : L.Ordered lt c :=
  List.pairwise_of_forall_mem_list fun _ _ y hy _ _ q hq => by
    rw [h y hy] at hq
    exact absurd hq (Option.not_mem_none q)

theorem Ordered.tail (h : L.Ordered lt (x :: k)) : L.Ordered lt k := List.Pairwise.of_cons h

/-- Other code takes the place of an instruction. -/
theorem Ordered.append (hk : L.Ordered lt k) (hc : L.Ordered lt c)
    (h : ∀ y ∈ c, ∀ z ∈ k, L.Inside lt y z) : L.Ordered lt (c ++ k) :=
  List.pairwise_append.mpr ⟨hc, hk, h⟩

/-- …namely one that uses no more. -/
theorem Ordered.replace {y : ι} (h : L.Ordered lt (x :: k))
    (huses : ∀ r, L.uses y = some r → L.uses x = some r) : L.Ordered lt (y :: k) :=
  List.pairwise_cons.mpr ⟨fun _ hz r hr => List.rel_of_pairwise_cons h hz r (huses r hr), h.tail⟩

/-- …or code that is done inside of it. -/
theorem Ordered.nest [IsTrans κ lt] (h : L.Ordered lt (x :: k)) {q : κ} (hx : L.uses x = some q)
    (hc : ∀ y ∈ c, ∀ r, L.uses y = some r → lt r q) :
    ∀ y ∈ c, ∀ z ∈ k, L.Inside lt y z := by
  intro y hy z hz r hr q' hq'
  exact IsTrans.trans _ _ _ (hc y hy r hr) (List.rel_of_pairwise_cons h hz q hx q' hq')

/-- Code that uses less, and holds less. -/
theorem Ordered.mono {L' : Locks ι κ} (h : L.Ordered lt c)
    (huses : ∀ y ∈ c, ∀ r, L'.uses y = some r → L.uses y = some r)
    (hholds : ∀ y ∈ c, ∀ q, L'.holds y = some q → L.holds y = some q) : L'.Ordered lt c :=
  List.Pairwise.imp_of_mem
    (fun hx hy hin r hr q hq => hin r (huses _ hx r hr) q (hholds _ hy q hq)) h

/-- The order with `r₀` at its bottom. -/
def Sunk (lt : κ → κ → Prop) (r₀ : κ) (r q : κ) : Prop := q ≠ r₀ ∧ (r = r₀ ∨ lt r q)

theorem isStrictOrder_sunk [IsStrictOrder κ lt] (r₀ : κ) : IsStrictOrder κ (Sunk lt r₀) where
  irrefl r h := h.2.elim h.1 (irrefl_of lt r)
  trans _ _ _ h h' :=
    ⟨h'.1, h.2.imp_right fun hlt => IsTrans.trans _ _ _ hlt (h'.2.resolve_left h.1)⟩

/-- **A lock that nobody holds** may come to be used by anybody: it goes to the bottom. -/
theorem Ordered.sink {L' : Locks ι κ} {r₀ : κ} (h : L.Ordered lt c)
    (hfree : ∀ y ∈ c, L'.holds y ≠ some r₀)
    (huses : ∀ y ∈ c, ∀ r, L'.uses y = some r → r = r₀ ∨ L.uses y = some r)
    (hholds : ∀ y ∈ c, ∀ q, L'.holds y = some q → L.holds y = some q) :
    L'.Ordered (Sunk lt r₀) c := by
  refine List.Pairwise.imp_of_mem (fun {x y} hx hy hin r hr q hq => ⟨fun heq => ?_, ?_⟩) h
  · exact hfree y hy (heq ▸ hq)
  · exact (huses x hx r hr).imp_right fun hr => hin r hr q (hholds y hy q hq)

/-- **Nobody waits for a lock of its own.** -/
theorem Ordered.not_own [Std.Irrefl lt] (h : L.Ordered lt (x :: k)) {q : κ}
    (hx : L.awaits x = some q) : ∀ y ∈ x :: k, L.holds y ≠ some q := by
  intro y hy hq
  obtain rfl | hy := List.mem_cons.mp hy
  · rw [L.holds_of_awaits hx] at hq
    cases hq
  · exact irrefl_of lt q (List.rel_of_pairwise_cons h hy q (L.uses_of_awaits hx) q hq)

/-- **Somebody waits for nothing**: the holder of a lock that is waited for waits for one that is
below. -/
theorem exists_unblocked [IsStrictOrder κ lt] (h : ∀ code ∈ threads, L.Ordered lt code)
    (hne : ∃ code ∈ threads, code ≠ []) :
    ∃ x k, x :: k ∈ threads ∧ ∀ q, L.awaits x = some q → L.Free threads q := by
  by_contra hnone
  push Not at hnone
  have hblocked : ∀ x k, x :: k ∈ threads → ∃ q, L.awaits x = some q ∧ ¬L.Free threads q :=
    fun x k hmem => by simpa using hnone x k hmem
  let awaited : Set κ := {q | q ∈ threads.filterMap fun code => code.head?.bind L.awaits}
  have hmem : ∀ {x k q}, x :: k ∈ threads → L.awaits x = some q → q ∈ awaited :=
    fun {x k q} hcode hq => List.mem_filterMap.mpr ⟨x :: k, hcode, by simpa using hq⟩
  have hfree : ∀ q ∈ awaited, L.Free threads q := fun q hq => by
    have hwf : awaited.WellFoundedOn lt := Set.Finite.wellFoundedOn (List.finite_toSet _)
    refine hwf.induction hq ?_
    intro q _ ih code hcode y hy hholds
    cases code with
    | nil => cases hy
    | cons x k =>
        obtain ⟨r, hr, hnotFree⟩ := hblocked x k hcode
        obtain rfl | hy := List.mem_cons.mp hy
        · rw [L.holds_of_awaits hr] at hholds
          cases hholds
        · have hlt := List.rel_of_pairwise_cons (h _ hcode) hy r (L.uses_of_awaits hr) q hholds
          exact hnotFree (ih r (hmem hcode hr) hlt)
  obtain ⟨code, hcode, hcodene⟩ := hne
  obtain ⟨x, k, rfl⟩ := List.exists_cons_of_ne_nil hcodene
  obtain ⟨q, hq, hnotFree⟩ := hblocked x k hcode
  exact hnotFree (hfree q (hmem hcode hq))

end Locks

end Machinery
