import SendersReceivers.Refs.Machine

/-!
# Refs/Aliasing — references that overlap are all shared

The pointers in the references are used as if they were borrows.  That is sound if whoever may write
has his place to himself: a reference gives way to parts of itself, those that come out of one that
may write are apart, and what goes together with a reference goes together with its parts.
-/

namespace SendersReceivers.Refs

open Machinery

variable {V : Type}

/-! ## Who may use which place -/

/-- They are apart, or neither of them may write. -/
def Reference.Compatible (r r' : Reference) : Prop :=
  Place.Overlap r.place r'.place → r.isMut = false ∧ r'.isMut = false

theorem Reference.Compatible.symm {r r' : Reference} (h : r.Compatible r') : r'.Compatible r :=
  fun hoverlap => (h hoverlap.symm).symm

/-- `r'` is a reference to a part of what `r` refers to, writes only if `r` does, and has the state
of `r` or a closure that owns it. -/
structure Reference.Part (r r' : Reference) : Prop where
  place : r.place <+: r'.place
  isMut : r'.isMut = true → r.isMut = true
  state : r'.state = r.state ∨ ∃ b, r'.state = .boxed b r.state

/-- Whatever goes together with `r` goes together with its parts. -/
theorem Reference.Part.compatible {r r' c : Reference} (h : r.Part r') (hc : r.Compatible c) :
    r'.Compatible c := by
  intro hoverlap
  obtain ⟨hr, hcmut⟩ := hc (hoverlap.of_parts h.place (List.prefix_refl c.place))
  refine ⟨?_, hcmut⟩
  cases hmut : r'.isMut with
  | false => rfl
  | true => rw [h.isMut hmut] at hr; cases hr

/-- **The references of a state go together.** -/
def State.Exclusive (s : State V) : Prop := s.refs.Pairwise Reference.Compatible

section Exclusive

variable {s s' : State V} {i : ℕ} {r : Reference}

@[simp] theorem refs_dropState (p : Ptr) (s : State V) : (s.dropState p).refs = s.refs := by
  induction p generalizing s with
  | scope =>
      unfold State.dropState
      split <;> rfl
  | boxed b inner ih =>
      unfold State.dropState
      split
      · rfl
      · exact ih _
      · rfl

@[simp] theorem mem_dropState (p : Ptr) (s : State V) : (s.dropState p).mem = s.mem := by
  induction p generalizing s with
  | scope =>
      unfold State.dropState
      split <;> rfl
  | boxed b inner ih =>
      unfold State.dropState
      split
      · rfl
      · exact ih _
      · rfl

@[simp] theorem iterate_cloneState_refs (p : Ptr) (n : ℕ) (s : State V) :
    ((fun s : State V => s.cloneState p)^[n] s).refs = s.refs := by
  induction n generalizing s with
  | zero => rfl
  | succ n ih => exact ih _

@[simp] theorem iterate_cloneState_mem (p : Ptr) (n : ℕ) (s : State V) :
    ((fun s : State V => s.cloneState p)^[n] s).mem = s.mem := by
  induction n generalizing s with
  | zero => rfl
  | succ n ih => exact ih _

/-- **What a step does to the references**: one of them makes way for references to parts of what it
refers to, and these go together. -/
structure Moves (s s' : State V) (i : ℕ) (r : Reference) : Prop where
  ref : s.refs[i]? = some r
  moved : ∃ new, s'.refs = s.refs.eraseIdx i ++ new ∧ new.Pairwise Reference.Compatible ∧
    ∀ r' ∈ new, r.Part r'

theorem Reference.part_refl (r : Reference) : r.Part r := ⟨List.prefix_refl _, id, .inl rfl⟩

theorem Reference.part_map (r : Reference) (part : Place) : r.Part (r.map part) :=
  ⟨List.prefix_append _ _, id, .inl rfl⟩

theorem Reference.part_map_no_mut (r : Reference) (part : Place) : r.Part (r.map_no_mut part) :=
  ⟨List.prefix_append _ _, nofun, .inl rfl⟩

theorem Reference.part_filter_map (r : Reference) : ∀ part, r.Part (r.filter_map part)
  | none => r.part_refl
  | some part => r.part_map part

theorem Reference.part_into (r : Reference) : r.Part r.into := ⟨List.prefix_refl _, nofun, .inl rfl⟩

/-- One reference comes out of one. -/
theorem Moves.one (hr : s.refs[i]? = some r) {r' : Reference} (hpart : r.Part r')
    (hrefs : s'.refs = s.refs.eraseIdx i ++ [r']) : Moves s s' i r :=
  ⟨hr, [r'], hrefs, List.pairwise_singleton .., List.forall_mem_singleton.mpr hpart⟩

theorem compatible_elements (r : Reference) (n : ℕ) :
    (State.elements r n).Pairwise Reference.Compatible := by
  refine List.pairwise_map.mpr (List.nodup_range.imp fun hne hoverlap => ?_)
  exact absurd (Place.Overlap.of_append hoverlap) (Place.not_overlap_singleton hne)

theorem step_moves {l : Label V} (hs : step s l = some s') :
    s'.refs = s.refs ∨ ∃ i r, Moves s s' i r := by
  cases l with
  | write i part v =>
      obtain ⟨r, hr, hs⟩ := Option.bind_eq_some_iff.mp hs
      split_ifs at hs
      cases hs
      exact .inl rfl
  | map i part =>
      obtain ⟨r, hr, rfl⟩ := Option.map_eq_some_iff.mp hs
      exact .inr ⟨i, r, .one hr (r.part_map part) rfl⟩
  | map_no_mut i part =>
      obtain ⟨r, hr, hs⟩ := Option.bind_eq_some_iff.mp hs
      split_ifs at hs
      cases hs
      exact .inr ⟨i, r, .one hr (r.part_map_no_mut part) rfl⟩
  | filter_map i part =>
      obtain ⟨r, hr, rfl⟩ := Option.map_eq_some_iff.mp hs
      exact .inr ⟨i, r, .one hr (r.part_filter_map part) rfl⟩
  | map_split i u v =>
      obtain ⟨r, hr, hs⟩ := Option.bind_eq_some_iff.mp hs
      split_ifs at hs with hguard
      cases hs
      refine .inr ⟨i, r, hr, _, rfl, ?_, ?_⟩
      · refine List.pairwise_pair.mpr fun hoverlap => ?_
        have hmut : r.isMut = false := by
          by_contra hmut
          exact hguard ⟨by simpa using hmut, hoverlap.of_append⟩
        exact ⟨hmut, hmut⟩
      · intro r' hr'
        obtain rfl | hr' := List.mem_cons.mp hr'
        · exact r.part_map u
        · rw [List.mem_singleton.mp hr']
          exact r.part_map v
  | clone i =>
      obtain ⟨r, hr, hs⟩ := Option.bind_eq_some_iff.mp hs
      split_ifs at hs
      cases hs
      exact .inr ⟨i, r, .one hr r.part_refl (by simp [State.clone]; rfl)⟩
  | distribute i n =>
      obtain ⟨r, hr, rfl⟩ := Option.map_eq_some_iff.mp hs
      refine .inr ⟨i, r, hr, State.elements r n, ?_, compatible_elements r n, fun r' hr' => ?_⟩
      · unfold State.distribute
        split
        · rfl
        · simp [State.replace]
      · obtain ⟨k, -, rfl⟩ := List.mem_map.mp hr'
        exact r.part_map [k]
  | sr_from i =>
      obtain ⟨r, hr, rfl⟩ := Option.map_eq_some_iff.mp hs
      have hpart : r.Part { r with state := .boxed s.next r.state } :=
        ⟨List.prefix_refl _, id, .inr ⟨s.next, rfl⟩⟩
      exact .inr ⟨i, r, .one hr hpart rfl⟩
  | into i =>
      obtain ⟨r, hr, hs⟩ := Option.bind_eq_some_iff.mp hs
      split_ifs at hs
      cases hs
      exact .inr ⟨i, r, .one hr r.part_into rfl⟩
  | drop i =>
      obtain ⟨r, hr, rfl⟩ := Option.map_eq_some_iff.mp hs
      exact .inr ⟨i, r, hr, [], by simp [State.replace], .nil, by simp⟩
  | cloneOther =>
      simp only [step] at hs
      split_ifs at hs
      cases hs
      exact .inl rfl
  | dropOther =>
      simp only [step] at hs
      split_ifs at hs
      cases hs
      exact .inl (refs_dropState _ _)

theorem State.Exclusive.step (h : s.Exclusive) {l : Label V} (hs : Refs.step s l = some s') :
    s'.Exclusive := by
  obtain heq | ⟨i, r, hr, new, heq, hnew, hparts⟩ := step_moves hs
  · rw [Exclusive, heq]
    exact h
  · rw [Exclusive, heq]
    exact pairwise_replace Reference.Compatible.symm h hr hnew
      fun r' hr' c hc => (hparts r' hr').compatible hc

/-! ## Who sees a write -/

/-- Only `DerefMut` changes the tuple. -/
theorem step_mem {l : Label V} (hs : step s l = some s') : s'.mem = s.mem ∨
    ∃ j part v r, l = .write j part v ∧ s.refs[j]? = some r ∧ r.isMut = true ∧
      s'.mem = Function.update s.mem (r.place ++ part) v := by
  cases l with
  | write j part v =>
      obtain ⟨r, hr, hs⟩ := Option.bind_eq_some_iff.mp hs
      split_ifs at hs with hmut
      cases hs
      exact .inr ⟨j, part, v, r, rfl, hr, hmut, rfl⟩
  | map i part | filter_map i part | sr_from i =>
      obtain ⟨r, hr, rfl⟩ := Option.map_eq_some_iff.mp hs
      exact .inl rfl
  | map_no_mut i part | into i | map_split i u v =>
      obtain ⟨r, hr, hs⟩ := Option.bind_eq_some_iff.mp hs
      split_ifs at hs
      cases hs
      exact .inl rfl
  | clone i =>
      obtain ⟨r, hr, hs⟩ := Option.bind_eq_some_iff.mp hs
      split_ifs at hs
      cases hs
      exact .inl (mem_dropState _ _)
  | distribute i n =>
      obtain ⟨r, hr, rfl⟩ := Option.map_eq_some_iff.mp hs
      refine .inl ?_
      unfold State.distribute
      split
      · rfl
      · simp [State.replace]
  | drop i =>
      obtain ⟨r, hr, rfl⟩ := Option.map_eq_some_iff.mp hs
      exact .inl (mem_dropState _ _)
  | cloneOther | dropOther =>
      simp only [step] at hs
      split_ifs at hs
      cases hs
      exact .inl (by simp [State.cloneState])

/-- A write through another reference is elsewhere. -/
theorem State.Exclusive.elsewhere (h : s.Exclusive) {j : ℕ} {c : Reference}
    (hr : s.refs[i]? = some r)
    (hc : s.refs[j]? = some c) (hmut : c.isMut = true) (hne : j ≠ i) :
    ¬Place.Overlap r.place c.place := by
  intro hoverlap
  obtain ⟨hi, rfl⟩ := List.getElem?_eq_some_iff.mp hr
  obtain ⟨hj, rfl⟩ := List.getElem?_eq_some_iff.mp hc
  have hcompatible : s.refs[i].Compatible s.refs[j] := by
    obtain hlt | hlt := Nat.lt_or_gt_of_ne hne
    · exact (List.pairwise_iff_getElem.mp h j i hj hi hlt).symm
    · exact List.pairwise_iff_getElem.mp h i j hi hj hlt
  exact Bool.noConfusion ((hcompatible hoverlap).2.symm.trans hmut)

end Exclusive

/-- **References do not step on each other**, however they have been split and passed on: of two
that overlap neither may write, and what one of them refers to changes only when somebody writes
through it. -/
theorem references_isolated (value : Place → V) (as : List (Label V)) (s : State V)
    (hrun : (machine value).Run (fun _ _ => True) as s) :
    s.refs.Pairwise Reference.Compatible ∧
      ∀ l s', (machine value).step s l = some s' → ∀ i r, s.refs[i]? = some r →
        (∀ part v, l ≠ .write i part v) → ∀ p, r.place <+: p → s'.mem p = s.mem p := by
  have hexclusive : (machine value).Inductive (fun _ _ => True) State.Exclusive :=
    ⟨List.pairwise_singleton .., fun s l s' h _ hs => h.step hs⟩
  have h := hexclusive.of_run hrun
  refine ⟨h, fun l s' hs i r hr hwrite p hp => ?_⟩
  obtain hmem | ⟨j, part, v, c, rfl, hc, hmut, hmem⟩ := step_mem hs
  · rw [hmem]
  · have hne : j ≠ i := fun heq => hwrite part v (heq ▸ rfl)
    have hapart := h.elsewhere hr hc hmut hne
    rw [hmem, Function.update_of_ne]
    rintro rfl
    exact hapart (.of_inside hp (List.prefix_append _ _))

/-- The function gets the elements of a pair, writes to the first, shares the second, splits that
and keeps a copy. -/
def sharing : List (Label ℕ) :=
  [.distribute 0 2, .write 0 [] 7, .into 1, .map_split 1 [0] [1], .sr_from 1, .clone 2, .dropOther,
    .write 0 [3] 8]

theorem sharing_isolated :
    ∃ s, (machine fun _ => 0).exec (machine fun _ => 0).init sharing = some s ∧
      s.refs.map (fun r => (r.place, r.isMut)) = [([0], true), ([1, 1], false), ([1, 0], false)] ∧
      s.refs.Pairwise Reference.Compatible ∧
      ∀ l s', (machine fun _ => 0).step s l = some s' → ∀ i r, s.refs[i]? = some r →
        (∀ part v, l ≠ .write i part v) → ∀ p, r.place <+: p → s'.mem p = s.mem p := by
  obtain ⟨s, hexec, hrefs⟩ : ∃ s,
      (machine fun _ => 0).exec (machine fun _ => 0).init sharing = some s ∧
        s.refs.map (fun r => (r.place, r.isMut)) =
          [([0], true), ([1, 1], false), ([1, 0], false)] := Machine.exec_ends (by decide +kernel)
  refine ⟨s, hexec, hrefs, ?_⟩
  exact references_isolated (fun _ => 0) sharing s (.of_exec (by decide +kernel) hexec)

end SendersReceivers.Refs
