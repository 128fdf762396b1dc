import SendersReceivers.Refs.Aliasing
import Mathlib.Algebra.Order.Group.Multiset
import Mathlib.Data.List.MinMax
import Mathlib.Tactic.Abel

/-!
# Refs/Counts — references keep their scope open, and give it back

A strong count is the number of owners: references, closures and the other handles.  While a state
is on its way from one owner to the next it is nobody's; `owed` are the states that are on their
way. Closures own states that are smaller than themselves, so each of them leads to the scope, and
what nothing owns is gone.

All the references together count as one handle of the scope, however many they are: the closure
that `sr_into` made owns it, and goes when the last of them does. -/

namespace SendersReceivers.Refs

open Machinery

variable {V : Type}

/-- What a closure owns. -/
def Ptr.inner : Ptr → Option Ptr
  | .scope => none
  | .boxed _ inner => some inner

/-- What has an owner, as often as it has one. -/
def State.held (s : State V) : Multiset Ptr :=
  (s.refs.map Reference.state : Multiset Ptr) + (s.boxes.filterMap Ptr.inner : Multiset Ptr) +
    Multiset.replicate s.others .scope

/-- **Every count is the number of owners**, with the states in `owed` on their way; the closures
with a count are allocated, once, and only the destructor of the scope has got the tuple. -/
structure Counted (owed : Multiset Ptr) (s : State V) : Prop where
  counts : ∀ p, s.counts p = (s.held + owed).count p
  nodup : s.boxes.Nodup
  alive : ∀ p, p ∈ s.boxes ↔ p ≠ .scope ∧ 0 < s.counts p
  fresh : ∀ b inner, .boxed b inner ∈ s.boxes → b < s.next
  forwarded : s.forwarded = if s.counts .scope = 0 then [s.mem] else []
  faults : s.faults = 0

section Counted

variable {s s' : State V} {owed : Multiset Ptr} {i : ℕ} {r : Reference} {p : Ptr}

/-- Whatever has an owner has a count. -/
theorem Counted.pos_of_mem (h : Counted owed s) (hp : p ∈ s.held + owed) : 0 < s.counts p :=
  h.counts p ▸ Multiset.count_pos.mpr hp

theorem Counted.pos_of_ref (h : Counted owed s) (hr : r ∈ s.refs) : 0 < s.counts r.state := by
  refine h.pos_of_mem ?_
  simp only [State.held, Multiset.mem_add, Multiset.mem_coe, List.mem_map]
  exact .inl (.inl (.inl ⟨r, hr, rfl⟩))

theorem Counted.pos_of_box (h : Counted owed s) {b : ℕ} (hbox : .boxed b p ∈ s.boxes) :
    0 < s.counts p := by
  refine h.pos_of_mem ?_
  simp only [State.held, Multiset.mem_add, Multiset.mem_coe, List.mem_filterMap]
  exact .inl (.inl (.inr ⟨_, hbox, rfl⟩))

/-- **Each state leads to the scope.** -/
theorem Counted.scope_open (h : Counted owed s) (hp : 0 < s.counts p) : 0 < s.counts .scope := by
  induction p with
  | scope => exact hp
  | boxed b inner ih => exact ih (h.pos_of_box ((h.alive _).mpr ⟨nofun, hp⟩))

theorem Counted.not_forwarded (h : Counted owed s) (hp : 0 < s.counts p) : s.forwarded = [] := by
  rw [h.forwarded, if_neg (h.scope_open hp).ne']

/-! ## What a step does to the owners -/

/-- A reference is moved, and others come out of it: its state is on its way, theirs have arrived.
-/
theorem held_replace (hr : s.refs[i]? = some r) (new : List Reference) :
    r.state ::ₘ (s.replace i new).held = s.held + (new.map Reference.state : Multiset Ptr) := by
  obtain ⟨hi, rfl⟩ := List.getElem?_eq_some_iff.mp hr
  have hperm := (List.getElem_cons_eraseIdx_perm hi).map Reference.state
  have hrefs : (s.refs.map Reference.state : Multiset Ptr) =
      s.refs[i].state ::ₘ ((s.refs.eraseIdx i).map Reference.state : Multiset Ptr) :=
    (Multiset.coe_eq_coe.mpr hperm).symm
  simp only [State.held, State.replace, List.map_append, ← Multiset.coe_add, hrefs,
    ← Multiset.singleton_add]
  abel

theorem Counted.replace {owed' : Multiset Ptr} {new : List Reference} (h : Counted owed s)
    (hr : s.refs[i]? = some r)
    (hmove : r.state ::ₘ owed = (new.map Reference.state : Multiset Ptr) + owed') :
    Counted owed' (s.replace i new) where
  counts p := by
    have hheld : s.held + owed = (s.replace i new).held + owed' := by
      refine (Multiset.cons_inj_right r.state).mp ?_
      rw [← Multiset.add_cons, hmove, ← add_assoc, ← held_replace hr, Multiset.cons_add]
    exact hheld ▸ h.counts p
  nodup := h.nodup
  alive := h.alive
  fresh := h.fresh
  forwarded := h.forwarded
  faults := h.faults

/-- One reference with the same state comes out. -/
theorem Counted.replace_one (h : Counted owed s) (hr : s.refs[i]? = some r) {r' : Reference}
    (hstate : r'.state = r.state) : Counted owed (s.replace i [r']) :=
  h.replace hr (by simp [hstate])

/-- Handles of the scope change hands. -/
theorem Counted.withOthers {owed' : Multiset Ptr} {n : ℕ} (h : Counted owed s)
    (hmove : Multiset.replicate s.others .scope + owed = Multiset.replicate n .scope + owed') :
    Counted owed' { s with others := n } where
  counts p := by
    have hheld : s.held + owed = State.held { s with others := n } + owed' := by
      simp only [State.held, add_assoc, hmove]
    exact hheld ▸ h.counts p
  nodup := h.nodup
  alive := h.alive
  fresh := h.fresh
  forwarded := h.forwarded
  faults := h.faults

/-- `Clone` of a state that has a count. -/
theorem Counted.clone (h : Counted owed s) (hp : 0 < s.counts p) :
    Counted (p ::ₘ owed) (s.cloneState p) where
  counts q := by
    have hq := h.counts q
    change Function.update s.counts p (s.counts p + 1) q = (s.held + p ::ₘ owed).count q
    rw [Multiset.add_cons, Multiset.count_cons]
    obtain rfl | hne := eq_or_ne q p
    · rw [Function.update_self, if_pos rfl, hq]
    · rw [Function.update_of_ne hne, if_neg hne, hq, add_zero]
  nodup := h.nodup
  alive q := by
    refine (h.alive q).trans (and_congr_right fun _ => ?_)
    obtain rfl | hne := eq_or_ne q p
    · simp [State.cloneState, hp]
    · simp [State.cloneState, hne]
  fresh := h.fresh
  forwarded := by
    have hopen : (s.cloneState p).counts .scope ≠ 0 := by
      obtain rfl | hne := eq_or_ne Ptr.scope p
      · simp [State.cloneState]
      · simpa [State.cloneState, hne] using (h.scope_open hp).ne'
    rw [if_neg hopen]
    exact h.not_forwarded hp
  faults := h.faults

theorem Counted.iterate_clone (h : Counted owed s) (hp : 0 < s.counts p) (n : ℕ) :
    Counted (Multiset.replicate n p + owed) ((fun s : State V => s.cloneState p)^[n] s) := by
  induction n generalizing s owed with
  | zero => simpa using h
  | succ n ih =>
      have hpos : 0 < (s.cloneState p).counts p := by simp [State.cloneState]
      rw [Function.iterate_succ_apply, Multiset.replicate_succ, Multiset.cons_add,
        ← Multiset.add_cons]
      exact ih (h.clone hp) hpos

/-- Dropping a state that others have, too. -/
theorem Counted.unclone (h : Counted (p ::ₘ owed) s) {n : ℕ} (hn : s.counts p = n + 2) :
    Counted owed { s with counts := Function.update s.counts p (n + 1) } where
  counts q := by
    have hq := h.counts q
    rw [Multiset.add_cons, Multiset.count_cons] at hq
    change Function.update s.counts p (n + 1) q = (s.held + owed).count q
    obtain rfl | hne := eq_or_ne q p
    · rw [if_pos rfl] at hq
      rw [Function.update_self]
      omega
    · rw [if_neg hne, add_zero] at hq
      rw [Function.update_of_ne hne, hq]
  nodup := h.nodup
  alive q := by
    refine (h.alive q).trans (and_congr_right fun _ => ?_)
    obtain rfl | hne := eq_or_ne q p
    · simp [hn]
    · simp [hne]
  fresh := h.fresh
  forwarded := by
    have hpos : 0 < s.counts p := by omega
    have hopen : Function.update s.counts p (n + 1) .scope ≠ 0 := by
      obtain rfl | hne := eq_or_ne Ptr.scope p
      · simp
      · simpa [hne] using (h.scope_open hpos).ne'
    rw [if_neg hopen]
    exact h.not_forwarded hpos
  faults := h.faults

/-- The last handle of the scope is dropped. -/
theorem Counted.close (h : Counted (.scope ::ₘ owed) s) (hone : s.counts .scope = 1) :
    Counted owed { s with
      counts := Function.update s.counts .scope 0
      forwarded := s.forwarded ++ [s.mem] } where
  counts q := by
    have hq := h.counts q
    rw [Multiset.add_cons, Multiset.count_cons] at hq
    change Function.update s.counts .scope 0 q = (s.held + owed).count q
    obtain rfl | hne := eq_or_ne q .scope
    · rw [if_pos rfl] at hq
      rw [Function.update_self]
      omega
    · rw [if_neg hne, add_zero] at hq
      rw [Function.update_of_ne hne, hq]
  nodup := h.nodup
  alive q := (h.alive q).trans (and_congr_right fun hne => by simp [hne])
  fresh := h.fresh
  forwarded := by
    have hopen : s.forwarded = [] := h.not_forwarded (p := .scope) (by omega)
    simp [hopen]
  faults := h.faults

/-- The last clone of a closure is dropped: what it owns is on its way. -/
theorem Counted.unbox {b : ℕ} {inner : Ptr} (h : Counted (.boxed b inner ::ₘ owed) s)
    (hone : s.counts (.boxed b inner) = 1) :
    Counted (inner ::ₘ owed) { s with
      counts := Function.update s.counts (.boxed b inner) 0
      boxes := s.boxes.erase (.boxed b inner) } where
  counts q := by
    have hq := h.counts q
    have hbox : .boxed b inner ∈ s.boxes := (h.alive _).mpr ⟨nofun, by omega⟩
    have hheld : s.held = inner ::ₘ State.held { s with
        counts := Function.update s.counts (.boxed b inner) 0
        boxes := s.boxes.erase (.boxed b inner) } := by
      have hperm := (List.perm_cons_erase hbox).filterMap Ptr.inner
      rw [List.filterMap_cons_some (f := Ptr.inner) (b := inner) rfl] at hperm
      have hboxes := Multiset.coe_eq_coe.mpr hperm
      simp only [State.held, hboxes, ← Multiset.cons_coe, Multiset.add_cons, Multiset.cons_add]
    rw [hheld, Multiset.add_cons, Multiset.count_cons, Multiset.cons_add, ← Multiset.add_cons] at hq
    change Function.update s.counts (.boxed b inner) 0 q = _
    obtain rfl | hne := eq_or_ne q (.boxed b inner)
    · rw [if_pos rfl] at hq
      rw [Function.update_self]
      omega
    · rw [if_neg hne, add_zero] at hq
      rw [Function.update_of_ne hne, hq]
  nodup := h.nodup.erase _
  alive q := by
    rw [h.nodup.mem_erase_iff, h.alive q]
    obtain rfl | hne := eq_or_ne q (.boxed b inner)
    · simp
    · simp [hne]
  fresh b' inner' hbox := h.fresh b' inner' (List.mem_of_mem_erase hbox)
  forwarded := by
    have hopen : s.counts .scope ≠ 0 := (h.scope_open (p := .boxed b inner) (by omega)).ne'
    simpa [hopen] using h.forwarded
  faults := h.faults

/-- **A state is dropped**: what was on its way is gone. -/
theorem Counted.dropState (h : Counted (p ::ₘ owed) s) : Counted owed (s.dropState p) := by
  have hpos : 0 < s.counts p := h.pos_of_mem (by simp)
  induction p generalizing s with
  | scope =>
      unfold State.dropState
      split
      next hcount => omega
      next hcount => exact h.close hcount
      next n hcount => exact h.unclone hcount
  | boxed b inner ih =>
      unfold State.dropState
      split
      next hcount => omega
      next hcount =>
        have hunboxed := h.unbox hcount
        exact ih hunboxed (hunboxed.pos_of_mem (by simp))
      next n hcount => exact h.unclone hcount

/-- The closure has a clone of its own, and owns what the reference had. -/
theorem held_sr_from (hr : s.refs[i]? = some r) :
    (s.sr_from i r).held = .boxed s.next r.state ::ₘ s.held := by
  let box : Ptr := .boxed s.next r.state
  let boxed : State V := { s with
    counts := Function.update s.counts box 1
    boxes := s.boxes ++ [box]
    next := s.next + 1 }
  have hboxed : boxed.held = r.state ::ₘ s.held := by
    simp only [State.held, boxed, box, List.filterMap_append, ← Multiset.coe_add,
      ← Multiset.singleton_add]
    change _ + (_ + {r.state}) + _ = _
    abel
  have hreplace := held_replace (s := boxed) hr [{ r with state := box }]
  rw [hboxed, List.map_singleton, Multiset.coe_singleton, Multiset.cons_add,
    Multiset.cons_inj_right, Multiset.add_comm, Multiset.singleton_add] at hreplace
  exact hreplace

theorem Counted.sr_from (h : Counted owed s) (hr : s.refs[i]? = some r) :
    Counted owed (s.sr_from i r) := by
  have hnew : .boxed s.next r.state ∉ s.boxes := fun hbox => absurd (h.fresh _ _ hbox) (lt_irrefl _)
  have hzero : s.counts (.boxed s.next r.state) = 0 := by
    by_contra hne
    exact hnew ((h.alive _).mpr ⟨nofun, Nat.pos_of_ne_zero hne⟩)
  refine ⟨fun q => ?_, ?_, fun q => ?_, fun b inner hbox => ?_, ?_, h.faults⟩
  · have hq := h.counts q
    rw [held_sr_from hr, Multiset.cons_add, Multiset.count_cons, ← hq]
    change Function.update s.counts (.boxed s.next r.state) 1 q = _
    obtain rfl | hne := eq_or_ne q (.boxed s.next r.state)
    · rw [Function.update_self, hzero, if_pos rfl]
    · rw [Function.update_of_ne hne, if_neg hne, add_zero]
  · exact List.nodup_append.mpr ⟨h.nodup, List.nodup_singleton _, by
      rintro q hq _ hbox rfl
      exact hnew (List.mem_singleton.mp hbox ▸ hq)⟩
  · change q ∈ s.boxes ++ [.boxed s.next r.state] ↔
      q ≠ .scope ∧ 0 < Function.update s.counts (.boxed s.next r.state) 1 q
    rw [List.mem_append, List.mem_singleton, h.alive q]
    obtain rfl | hne := eq_or_ne q (.boxed s.next r.state)
    · simp
    · simp [hne]
  · obtain hbox | hbox := List.mem_append.mp hbox
    · exact (h.fresh b inner hbox).trans (Nat.lt_succ_self _)
    · cases List.mem_singleton.mp hbox
      exact Nat.lt_succ_self _
  · change s.forwarded =
      if Function.update s.counts (.boxed s.next r.state) 1 .scope = 0 then _ else _
    have hne : Ptr.scope ≠ .boxed s.next r.state := nofun
    rw [Function.update_of_ne hne]
    exact h.forwarded

theorem Counted.distribute (h : Counted 0 s) (hr : s.refs[i]? = some r) (n : ℕ) :
    Counted 0 (s.distribute i r n) := by
  unfold State.distribute
  split
  · exact h.replace_one hr rfl
  · have hcloned := h.iterate_clone (h.pos_of_ref (List.mem_of_getElem? hr)) n
    refine (hcloned.replace (by simpa using hr) ?_).dropState
    have hstates : (State.elements r n).map Reference.state = List.replicate n r.state := by
      simp [State.elements, Reference.map, Function.comp_def]
    rw [hstates, add_zero, Multiset.coe_replicate]
    exact (add_comm _ _).trans (Multiset.singleton_add _ _) |>.symm

theorem newScope_counted (value : Place → V) : Counted 0 (newScope value) where
  counts p := by
    have hheld : (newScope value).held = Multiset.replicate 3 .scope := by
      simp [newScope, State.held, Multiset.replicate_succ]
    rw [hheld, add_zero, Multiset.count_replicate]
    obtain rfl | hne := eq_or_ne p .scope
    · rfl
    · rw [if_neg hne.symm]
      simp [newScope, hne]
  nodup := List.nodup_nil
  alive p := by
    obtain rfl | hne := eq_or_ne p .scope
    · simp [newScope]
    · simp [newScope, hne]
  fresh b inner hbox := nomatch hbox
  forwarded := rfl
  faults := rfl

/-! ## Runs -/

theorem Counted.step (h : Counted 0 s) {l : Label V} (hs : Refs.step s l = some s') :
    Counted 0 s' := by
  cases l with
  | write i part v =>
      obtain ⟨r, hr, hs⟩ := Option.bind_eq_some_iff.mp hs
      split_ifs at hs
      cases hs
      have hpos := h.pos_of_ref (List.mem_of_getElem? hr)
      refine { h with forwarded := ?_ }
      rw [if_neg (h.scope_open hpos).ne']
      exact h.not_forwarded hpos
  | map i part =>
      obtain ⟨r, hr, rfl⟩ := Option.map_eq_some_iff.mp hs
      exact h.replace_one hr rfl
  | map_no_mut i part =>
      obtain ⟨r, hr, hs⟩ := Option.bind_eq_some_iff.mp hs
      split_ifs at hs
      cases hs
      exact h.replace_one hr rfl
  | filter_map i part =>
      obtain ⟨r, hr, rfl⟩ := Option.map_eq_some_iff.mp hs
      cases part with
      | none => exact h.replace_one hr rfl
      | some part => exact h.replace_one hr rfl
  | map_split i u v =>
      obtain ⟨r, hr, hs⟩ := Option.bind_eq_some_iff.mp hs
      split_ifs at hs
      cases hs
      have hcloned := h.clone (h.pos_of_ref (List.mem_of_getElem? hr))
      exact hcloned.replace hr rfl
  | clone i =>
      obtain ⟨r, hr, hs⟩ := Option.bind_eq_some_iff.mp hs
      split_ifs at hs
      cases hs
      have hcloned := h.clone (h.pos_of_ref (List.mem_of_getElem? hr))
      exact (hcloned.replace_one hr rfl).dropState
  | distribute i n =>
      obtain ⟨r, hr, rfl⟩ := Option.map_eq_some_iff.mp hs
      exact h.distribute hr n
  | sr_from i =>
      obtain ⟨r, hr, rfl⟩ := Option.map_eq_some_iff.mp hs
      exact h.sr_from hr
  | into i =>
      obtain ⟨r, hr, hs⟩ := Option.bind_eq_some_iff.mp hs
      split_ifs at hs
      cases hs
      exact h.replace_one hr rfl
  | drop i =>
      obtain ⟨r, hr, rfl⟩ := Option.map_eq_some_iff.mp hs
      exact (h.replace hr (by simp)).dropState
  | cloneOther =>
      simp only [Refs.step] at hs
      split_ifs at hs with hothers
      cases hs
      have hpos : 0 < s.counts .scope :=
        h.pos_of_mem (by simp [State.held, Multiset.mem_replicate, hothers])
      refine (h.clone hpos).withOthers ?_
      rw [Multiset.replicate_succ, Multiset.add_cons, Multiset.cons_add]
      rfl
  | dropOther =>
      simp only [Refs.step] at hs
      split_ifs at hs with hothers
      cases hs
      refine (h.withOthers ?_).dropState
      obtain ⟨n, hn⟩ := Nat.exists_eq_succ_of_ne_zero hothers
      rw [hn, Multiset.replicate_succ, Multiset.cons_add, Multiset.add_cons]
      rfl

/-! ## All the references are one handle -/

/-- **No reference has a handle of the scope itself**, and at most one closure has. -/
structure Sheltered (s : State V) : Prop where
  refs : ∀ r ∈ s.refs, r.state ≠ .scope
  boxes : (s.boxes.filterMap Ptr.inner).count .scope ≤ 1

theorem dropState_boxes (p : Ptr) (s : State V) : (s.dropState p).boxes.Sublist s.boxes := by
  induction p generalizing s with
  | scope =>
      unfold State.dropState
      split <;> exact List.Sublist.refl _
  | boxed b inner ih =>
      unfold State.dropState
      split
      · exact List.Sublist.refl _
      · exact (ih _).trans List.erase_sublist
      · exact List.Sublist.refl _

@[simp] theorem iterate_cloneState_boxes (p : Ptr) (n : ℕ) (s : State V) :
    ((fun s : State V => s.cloneState p)^[n] s).boxes = s.boxes := by
  induction n generalizing s with
  | zero => rfl
  | succ n ih => exact ih _

/-- Closures go, and `sr_from` makes one. -/
theorem step_boxes {l : Label V} (hs : step s l = some s') : s'.boxes.Sublist s.boxes ∨
    ∃ r ∈ s.refs, s'.boxes = s.boxes ++ [.boxed s.next r.state] := by
  cases l with
  | write i part v | map_no_mut i part | into i | map_split i u v =>
      obtain ⟨r, hr, hs⟩ := Option.bind_eq_some_iff.mp hs
      split_ifs at hs
      cases hs
      exact .inl (List.Sublist.refl _)
  | map i part | filter_map i part =>
      obtain ⟨r, hr, rfl⟩ := Option.map_eq_some_iff.mp hs
      exact .inl (List.Sublist.refl _)
  | clone i =>
      obtain ⟨r, hr, hs⟩ := Option.bind_eq_some_iff.mp hs
      split_ifs at hs
      cases hs
      exact .inl (dropState_boxes _ _)
  | distribute i n =>
      obtain ⟨r, hr, rfl⟩ := Option.map_eq_some_iff.mp hs
      refine .inl ?_
      unfold State.distribute
      split
      · exact List.Sublist.refl _
      · exact (dropState_boxes _ _).trans (by simp [State.replace])
  | sr_from i =>
      obtain ⟨r, hr, rfl⟩ := Option.map_eq_some_iff.mp hs
      exact .inr ⟨r, List.mem_of_getElem? hr, rfl⟩
  | drop i =>
      obtain ⟨r, hr, rfl⟩ := Option.map_eq_some_iff.mp hs
      exact .inl (dropState_boxes _ _)
  | cloneOther =>
      simp only [step] at hs
      split_ifs at hs
      cases hs
      exact .inl (List.Sublist.refl _)
  | dropOther =>
      simp only [step] at hs
      split_ifs at hs
      cases hs
      exact .inl (dropState_boxes _ _)

theorem Sheltered.step (h : Sheltered s) {l : Label V} (hs : Refs.step s l = some s') :
    Sheltered s' := by
  refine ⟨fun r' hr' => ?_, ?_⟩
  · obtain heq | ⟨i, r, hr, new, heq, -, hparts⟩ := step_moves hs
    · exact h.refs r' (heq ▸ hr')
    · rw [heq] at hr'
      obtain hr' | hr' := List.mem_append.mp hr'
      · exact h.refs r' (List.mem_of_mem_eraseIdx hr')
      · obtain hstate | ⟨b, hstate⟩ := (hparts r' hr').state
        · exact hstate ▸ h.refs r (List.mem_of_getElem? hr)
        · exact hstate ▸ nofun
  · obtain hsub | ⟨r, hr, heq⟩ := step_boxes hs
    · exact ((hsub.filterMap Ptr.inner).count_le _).trans h.boxes
    · have hne := h.refs r hr
      have hinner : List.filterMap Ptr.inner [.boxed s.next r.state] = [r.state] := rfl
      rw [heq, List.filterMap_append, List.count_append, hinner, List.count_singleton]
      simpa [hne] using h.boxes

/-- A state that is no handle of the scope leads to a closure that has one. -/
theorem Counted.exists_root (h : Counted owed s) (hp : 0 < s.counts p) (hne : p ≠ .scope) :
    .scope ∈ s.boxes.filterMap Ptr.inner := by
  induction p with
  | scope => exact absurd rfl hne
  | boxed b inner ih =>
      have hbox : .boxed b inner ∈ s.boxes := (h.alive _).mpr ⟨hne, hp⟩
      obtain rfl | hinner := eq_or_ne inner .scope
      · exact List.mem_filterMap.mpr ⟨_, hbox, rfl⟩
      · exact ih (h.pos_of_box hbox) hinner

/-- **Without references there is no closure left**: the largest of them has no owner. -/
theorem Counted.boxes_eq_nil (h : Counted 0 s) (hrefs : s.refs = []) : s.boxes = [] := by
  by_contra hne
  obtain ⟨box, hmax⟩ := Option.ne_none_iff_exists'.mp
    (mt (List.argmax_eq_none (f := (sizeOf : Ptr → ℕ))).mp hne)
  obtain ⟨hscope, hpos⟩ := (h.alive box).mp (List.argmax_mem hmax)
  rw [h.counts, add_zero, Multiset.count_pos] at hpos
  simp only [State.held, hrefs, List.map_nil, Multiset.coe_nil, zero_add, Multiset.mem_add,
    Multiset.mem_coe, List.mem_filterMap, Multiset.mem_replicate] at hpos
  obtain ⟨owner, howner, hinner⟩ | ⟨-, heq⟩ := hpos
  · cases owner with
    | scope => cases hinner
    | boxed b inner =>
        cases hinner
        have hle := List.le_of_mem_argmax howner hmax
        simp only [Ptr.boxed.sizeOf_spec] at hle
        omega
  · exact hscope heq

/-- **The references are one handle of the scope**, as long as there is any. -/
theorem Counted.scope_count (h : Counted 0 s) (hsheltered : Sheltered s) :
    s.counts .scope = s.others + if s.refs = [] then 0 else 1 := by
  have hnone : (s.refs.map Reference.state).count .scope = 0 := by
    refine List.count_eq_zero.mpr fun hmem => ?_
    obtain ⟨r, hr, hstate⟩ := List.mem_map.mp hmem
    exact hsheltered.refs r hr hstate
  have hcount : s.counts .scope = (s.boxes.filterMap Ptr.inner).count .scope + s.others := by
    rw [h.counts]
    simp [State.held, hnone]
  rw [hcount, add_comm]
  congr 1
  split_ifs with hrefs
  · rw [h.boxes_eq_nil hrefs]
    rfl
  · obtain ⟨r, hr⟩ := List.exists_mem_of_ne_nil _ hrefs
    have hroot := h.exists_root (h.pos_of_ref hr) (hsheltered.refs r hr)
    exact le_antisymm hsheltered.boxes (List.count_pos_iff.mpr hroot)

end Counted

/-- **The scope stays open for the references, and is left behind by them**: in every run they count
as one handle of it, however they have been split, copied and wrapped; with the last of them their
closures are gone, and the destructor runs exactly when the other handles are gone as well, once, on
the tuple as the last write has left it. -/
theorem references_accounted (value : Place → V) (as : List (Label V)) (s : State V)
    (hrun : (machine value).Run (fun _ _ => True) as s) :
    s.counts .scope = s.others + (if s.refs = [] then 0 else 1) ∧
      (s.refs = [] → s.boxes = []) ∧
      s.forwarded = (if s.refs = [] ∧ s.others = 0 then [s.mem] else []) ∧ s.faults = 0 := by
  have hinductive : (machine value).Inductive (fun _ _ => True)
      fun s => Counted 0 s ∧ Sheltered s := by
    refine ⟨⟨?_, ?_⟩, fun s l s' h _ hs => ⟨h.1.step hs, h.2.step hs⟩⟩
    · exact (newScope_counted value).sr_from rfl
    · exact ⟨List.forall_mem_singleton.mpr nofun, le_refl 1⟩
  obtain ⟨h, hsheltered⟩ := hinductive.of_run hrun
  have hcount := h.scope_count hsheltered
  refine ⟨hcount, h.boxes_eq_nil, ?_, h.faults⟩
  rw [h.forwarded, hcount]
  congr 1
  by_cases hrefs : s.refs = [] <;> simp [hrefs]

/-- A pair is split, one of the elements is wrapped again and split, the other is shared and copied;
then everything is dropped, the handles of the scope in between. -/
def keeping : List (Label ℕ) :=
  [.distribute 0 2, .write 1 [] 7, .sr_from 0, .map_split 1 [0] [1], .dropOther, .into 0, .clone 2,
    .drop 0, .write 0 [] 8, .dropOther, .drop 1, .drop 0]

theorem keeping_accounted :
    ∃ s, (machine fun _ => 0).exec (machine fun _ => 0).init keeping = some s ∧
      s.forwarded.map (fun m => (m [1], m [0, 1])) = [(7, 8)] ∧
      s.counts .scope = s.others + (if s.refs = [] then 0 else 1) ∧
      (s.refs = [] → s.boxes = []) ∧
      s.forwarded = (if s.refs = [] ∧ s.others = 0 then [s.mem] else []) ∧ s.faults = 0 := by
  obtain ⟨s, hexec, hforwarded⟩ : ∃ s,
      (machine fun _ => 0).exec (machine fun _ => 0).init keeping = some s ∧
        s.forwarded.map (fun m => (m [1], m [0, 1])) = [(7, 8)] :=
    Machine.exec_ends (by decide +kernel)
  refine ⟨s, hexec, hforwarded, ?_⟩
  exact references_accounted (fun _ => 0) keeping s (.of_exec (by decide +kernel) hexec)

end SendersReceivers.Refs
