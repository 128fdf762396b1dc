import SendersReceivers.Detached.Machine

/-!
# Detached/Handles — every handle is counted

Whatever the functions do, the `strong` count of a cell is how many handles of it there are, in the
frames, among what is about to be dropped, and inside of the cells.
-/

namespace SendersReceivers.Detached

open Machinery

variable {s t : State} {i q : ℕ} {th : Thread} {d : Data} {p : ScopeId} {x : Instr}
  {k code : List Instr} {panicking : Bool} {a : Action} {xs given kept : List Item}

/-! ## What there is to be counted -/

def Instr.items (x : Instr) : List Item := x.owned ++ x.dropped

/-- What the frames of a thread own, or are about to drop. -/
def items (code : List Instr) : List Item := code.flatMap Instr.items

/-- The field `outer_state`. -/
def Data.outer (d : Data) : List Item :=
  match d.kind with
  | .shared => []
  | .scope outer_state => handles outer_state

/-- What is inside of a cell. -/
def Data.items (d : Data) : List Item := d.rcv ++ d.outer

@[simp] theorem items_nil : items [] = [] := rfl

@[simp] theorem items_append (code' : List Instr) :
    items (code ++ code') = items code ++ items code' :=
  List.flatMap_append

@[simp] theorem items_code (xs : List Item) : items (.code xs :: k) = xs ++ items k := by
  simp [items, Instr.items, Instr.owned, Instr.dropped]

@[simp] theorem items_drop (y : Item) : items (.drop y :: k) = y :: items k := rfl

@[simp] theorem items_run : items (.run p :: k) = items k := rfl

@[simp] theorem items_mark : items (.mark p :: k) = items k := rfl

@[simp] theorem items_map_drop (xs : List Item) : items (xs.map .drop) = xs := by
  induction xs with
  | nil => rfl
  | cons y xs ih => rw [List.map_cons, items_drop, ih]

/-- Unwinding loses nothing. -/
@[simp] theorem items_unwind (code : List Instr) :
    items (code.flatMap Instr.unwind) = items code := by
  induction code with
  | nil => rfl
  | cons x code ih =>
      rw [List.flatMap_cons, items_append, ih]
      cases x with
      | code xs => rw [items_code, Instr.unwind, items_map_drop]
      | drop y => rfl
      | run p => rfl
      | mark p => rfl

/-- A destructor passes on all that is inside. -/
theorem items_destroyed (d : Data) : (items d.destroyed).Perm d.items := by
  obtain ⟨outer_state | _, _, a_thread_panicked, shared_value, rcv⟩ := d
  · cases a_thread_panicked
    · cases shared_value <;> simp [Data.destroyed, Data.forward, Data.items, Data.outer]
    · simpa [Data.destroyed, Data.items, Data.outer] using List.perm_append_comm
  · simp [Data.destroyed, Data.items, Data.outer]

theorem borrowed_subset_items (code : List Instr) : borrowed code ⊆ items code := fun y hy => by
  obtain ⟨x, hx, hyx⟩ := List.mem_flatMap.mp hy
  exact List.mem_flatMap.mpr ⟨x, hx, List.mem_append_left _ hyx⟩

namespace State

/-- How many handles of cell `q` there are. -/
def count (s : State) (q : ℕ) : ℕ :=
  weight (fun th => (items th.code).count (.handle q)) s.threads +
    weight (fun d => d.items.count (.handle q)) s.cells

/-- `Rc::strong_count`, and `0` for what is not there. -/
def strong (s : State) (q : ℕ) : ℕ := (s.cells[q]?.map Data.strong).getD 0

end State

theorem count_goto (h : s.threads[i]? = some th) (th' : Thread) :
    (s.goto i th').count q + (items th.code).count (.handle q) =
      s.count q + (items th'.code).count (.handle q) := by
  have := weight_set (fun th => (items th.code).count (.handle q)) h th'
  simp only [State.count, State.goto] at this ⊢
  omega

theorem count_modify {r : ℕ} (h : s.cells[r]? = some d) (f : Data → Data) :
    (s.modify r f).count q + d.items.count (.handle q) =
      s.count q + (f d).items.count (.handle q) := by
  have := weight_modify (fun d => d.items.count (.handle q)) h f
  simp only [State.count, State.modify] at this ⊢
  omega

theorem count_alloc : (s.alloc d).count q = s.count q + d.items.count (.handle q) := by
  simp only [State.count, State.alloc, weight_append, weight_cons, weight_nil]
  omega

theorem count_spawn (given : List Item) :
    (s.spawn given).count q = s.count q + given.count (.handle q) := by
  simp only [State.count, State.spawn, weight_append, weight_cons, weight_nil, items_code,
    items_nil, List.append_nil]
  omega

theorem strong_alloc :
    (s.alloc d).strong q = if q = s.cells.length then d.strong else s.strong q := by
  unfold State.strong State.alloc
  rw [List.getElem?_append]
  split_ifs with hlt heq heq
  · omega
  · rfl
  · simp [heq]
  · rw [List.getElem?_eq_none (by simp; omega), List.getElem?_eq_none (by omega)]

theorem strong_modify {r : ℕ} (h : s.cells[r]? = some d) (f : Data → Data) :
    (s.modify r f).strong q = if q = r then (f d).strong else s.strong q := by
  unfold State.strong State.modify
  rw [List.getElem?_modify]
  split_ifs with hrq hqr hqr
  · subst hqr
    simp [h]
  · exact absurd hrq.symm hqr
  · exact absurd hqr.symm hrq
  · simp

/-! ## The invariant -/

/-- **The counts are right**, and what is not there has nothing inside. -/
structure Counted (s : State) : Prop where
  strong : ∀ q, s.count q = s.strong q
  freed : ∀ (q : ℕ) (d : Data), s.cells[q]? = some d → d.strong = 0 → d.items = []

/-- A cell of which somebody has a handle is there. -/
theorem Counted.exists_cell (h : Counted s) (hth : s.threads[i]? = some th)
    (hq : .handle q ∈ items th.code) : ∃ d, s.cells[q]? = some d ∧ 0 < d.strong := by
  have hle := le_weight (fun th => (items th.code).count (.handle q)) hth
  have hpos := List.count_pos_iff.mpr hq
  have hcount := h.strong q
  cases hd : s.cells[q]? with
  | none =>
      simp only [State.strong, State.count, hd, Option.map_none, Option.getD_none] at hcount
      omega
  | some d =>
      simp only [State.strong, State.count, hd, Option.map_some, Option.getD_some] at hcount
      exact ⟨d, rfl, by omega⟩

/-- Thread `i` has the same handles as before. -/
theorem Counted.goto (h : Counted s) (hth : s.threads[i]? = some th) {th' : Thread}
    (hcount : ∀ q, (items th'.code).count (.handle q) = (items th.code).count (.handle q)) :
    Counted (s.goto i th') where
  strong q := by
    have := count_goto hth th' (q := q)
    have := hcount q
    have := h.strong q
    change _ = s.strong q
    omega
  freed := h.freed

theorem Counted.raise (h : Counted s) (hth : s.threads[i]? = some th) (panicking : Bool)
    (hcount : ∀ q, (items code).count (.handle q) = (items th.code).count (.handle q)) :
    Counted (s.raise i panicking code) := by
  unfold State.raise
  split_ifs
  · exact ⟨h.strong, h.freed⟩
  · exact h.goto hth fun q => by rw [items_unwind, hcount]

theorem count_code (xs : List Item) :
    (items (.code xs :: k)).count (.handle q) =
      xs.count (.handle q) + (items k).count (.handle q) := by
  rw [items_code, List.count_append]

theorem count_handle (r : ℕ) (xs : List Item) :
    (Item.handle r :: xs).count (.handle q) = xs.count (.handle q) + if q = r then 1 else 0 := by
  rw [List.count_cons]
  simp only [beq_iff_eq, Item.handle.injEq, @eq_comm _ r q]

/-- A cell changes, and what thread `i` has. -/
theorem Counted.modify_goto (h : Counted s) (hth : s.threads[i]? = some th) {r : ℕ}
    (hr : s.cells[r]? = some d) (f : Data → Data) (th' : Thread)
    (hf : (f d).strong = 0 → (f d).items = [])
    (hcount : ∀ q, (items th'.code).count (.handle q) + (f d).items.count (.handle q) +
        (if q = r then d.strong else 0) =
      (items th.code).count (.handle q) + d.items.count (.handle q) +
        if q = r then (f d).strong else 0) :
    Counted ((s.modify r f).goto i th') where
  strong q := by
    have hthread := count_goto (s := s.modify r f) (q := q) hth th'
    have hcell := count_modify hr f (q := q)
    have hd : s.strong r = d.strong := by simp [State.strong, hr]
    have hq := hcount q
    change _ = (s.modify r f).strong q
    rw [strong_modify hr]
    have hs := h.strong q
    split_ifs at hq ⊢ with hqr
    · subst hqr
      omega
    · omega
  freed q d' hd' := by
    change (s.modify r f).cells[q]? = some d' at hd'
    unfold State.modify at hd'
    rw [List.getElem?_modify] at hd'
    split_ifs at hd' with hqr
    · subst hqr
      rw [hr] at hd'
      obtain rfl := Option.some.inj hd'
      exact hf
    · exact h.freed q d' (by simpa using hd')

/-- A new cell. -/
theorem Counted.alloc_goto (h : Counted s) (hth : s.threads[i]? = some th) (th' : Thread)
    (hpos : d.strong ≠ 0)
    (hcount : ∀ q, (items th'.code).count (.handle q) + d.items.count (.handle q) =
      (items th.code).count (.handle q) + if q = s.cells.length then d.strong else 0) :
    Counted ((s.alloc d).goto i th') where
  strong q := by
    have hthread := count_goto (s := s.alloc d) (q := q) hth th'
    have hcell := count_alloc (s := s) (d := d) (q := q)
    have hq := hcount q
    change _ = (s.alloc d).strong q
    rw [strong_alloc]
    have hs := h.strong q
    split_ifs at hq ⊢ with hlen
    · subst hlen
      have : s.strong s.cells.length = 0 := by simp [State.strong]
      omega
    · omega
  freed q d' hd' := by
    change (s.alloc d).cells[q]? = some d' at hd'
    unfold State.alloc at hd'
    rw [List.getElem?_append] at hd'
    split_ifs at hd'
    · exact h.freed q d' hd'
    · obtain rfl := List.mem_singleton.mp (List.mem_of_getElem? hd')
      exact fun hzero => absurd hzero hpos

/-- A scope is cloned, with the clone in the frame of thread `i`. -/
theorem Counted.clone (h : Counted s) (hth : s.threads[i]? = some ⟨.code xs :: k, panicking⟩)
    (hq : .handle q ∈ borrowed (.code xs :: k)) :
    Counted ((s.retain (some q)).goto i ⟨.code (.handle q :: xs) :: k, panicking⟩) := by
  obtain ⟨d, hd, -⟩ := h.exists_cell hth (borrowed_subset_items _ hq)
  refine h.modify_goto hth hd (fun d => { d with strong := d.strong + 1 }) _ (by simp) fun r => ?_
  rw [count_code, count_code, count_handle]
  change _ + d.items.count _ + _ = _ + _ + if r = q then d.strong + 1 else 0
  split_ifs <;> omega

theorem Counted.spawn (h : Counted s) (hth : s.threads[i]? = some ⟨.code xs :: k, panicking⟩)
    (hperm : xs.Perm (given ++ kept)) :
    Counted ((s.goto i ⟨.code kept :: k, panicking⟩).spawn given) where
  strong q := by
    have hthread := count_goto hth ⟨.code kept :: k, panicking⟩ (q := q)
    have hnew := count_spawn (s := s.goto i ⟨.code kept :: k, panicking⟩) given (q := q)
    have hcount := hperm.count_eq (.handle q)
    rw [List.count_append] at hcount
    rw [count_code, count_code] at hthread
    have := h.strong q
    change _ = s.strong q
    omega
  freed := h.freed

theorem Counted.share (h : Counted s) (hth : s.threads[i]? = some ⟨.code xs :: k, panicking⟩)
    (hperm : xs.Perm (given ++ kept)) :
    Counted ((s.alloc ⟨.shared, 1, false, none, given⟩).goto i
      ⟨.code (.handle s.cells.length :: kept) :: k, panicking⟩) := by
  refine h.alloc_goto hth _ Nat.one_ne_zero fun q => ?_
  have hcount := hperm.count_eq (.handle q)
  rw [List.count_append] at hcount
  rw [count_code, count_code, count_handle]
  simp only [Data.items, Data.outer, List.append_nil]
  omega

theorem Counted.newScope (h : Counted s) (hth : s.threads[i]? = some ⟨.code xs :: k, panicking⟩)
    (hperm : xs.Perm (given ++ kept)) (hp : handles p ⊆ borrowed (.code xs :: k)) :
    Counted (((s.retain p).alloc ⟨.scope p, 3, false, none, given⟩).goto i
      ⟨.code (List.replicate 3 (.handle s.cells.length) ++ kept) :: k, panicking⟩) := by
  have hlt : i < s.threads.length := (List.getElem?_eq_some_iff.mp hth).1
  have hretained : Counted ((s.retain p).goto i ⟨.code (handles p ++ xs) :: k, panicking⟩) := by
    cases p with
    | none => exact h.goto hth fun _ => rfl
    | some q => exact h.clone hth (hp (.head _))
  have hlen : (s.retain p).cells.length = s.cells.length := by
    cases p <;> simp [State.retain, State.modify]
  have hth' : ((s.retain p).goto i ⟨.code (handles p ++ xs) :: k, panicking⟩).threads[i]? =
      some ⟨.code (handles p ++ xs) :: k, panicking⟩ := by
    cases p <;> simp [State.retain, State.modify, State.goto, hlt]
  have hset : ∀ th, ((((s.retain p).goto i ⟨.code (handles p ++ xs) :: k, panicking⟩).alloc
      ⟨.scope p, 3, false, none, given⟩).goto i th) =
        ((s.retain p).alloc ⟨.scope p, 3, false, none, given⟩).goto i th := by
    intro th
    simp [State.goto, State.alloc]
  rw [← hset]
  refine hretained.alloc_goto hth' _ (by simp) fun q => ?_
  have hcount := hperm.count_eq (.handle q)
  rw [List.count_append] at hcount
  change _ = _ + if q = (s.retain p).cells.length then 3 else 0
  rw [hlen, count_code, count_code, List.count_append, List.count_append, List.count_replicate]
  simp only [Data.items, Data.outer, List.count_append, beq_iff_eq, Item.handle.injEq,
    @eq_comm _ s.cells.length q]
  split_ifs <;> omega

/-- What a frame has after it has given something. -/
theorem borrowed_kept_subset (hperm : xs.Perm (given ++ kept)) :
    borrowed (.code kept :: k) ⊆ borrowed (.code xs :: k) :=
  List.append_subset.mpr ⟨fun _ hy => List.mem_append_left _
    (hperm.mem_iff.mpr (List.mem_append_right _ hy)), List.subset_append_right ..⟩

theorem Counted.put (h : Counted s) (hth : s.threads[i]? = some ⟨.code xs :: k, panicking⟩)
    (hd : s.cells[q]? = some d) (hperm : xs.Perm (given ++ kept))
    (hq : .handle q ∈ borrowed (.code xs :: k)) :
    Counted ((s.modify q fun d => { d with rcv := d.rcv ++ given }).goto i
      ⟨.code kept :: k, panicking⟩) := by
  obtain ⟨_, hd', hpos⟩ := h.exists_cell hth (borrowed_subset_items _ hq)
  obtain rfl := Option.some.inj (hd.symm.trans hd')
  refine h.modify_goto hth hd _ _ (fun hzero => absurd hzero hpos.ne') fun r => ?_
  have hcount := hperm.count_eq (.handle r)
  rw [List.count_append] at hcount
  rw [count_code, count_code]
  change _ + (d.rcv ++ given ++ d.outer).count _ + _ = _ + (d.rcv ++ d.outer).count _ + _
  simp only [List.count_append]
  omega

theorem Counted.take (h : Counted s) (hth : s.threads[i]? = some ⟨.code xs :: k, panicking⟩)
    (hd : s.cells[q]? = some d) {taken left : List Item} (hperm : d.rcv.Perm (taken ++ left))
    (hq : .handle q ∈ borrowed (.code xs :: k)) :
    Counted ((s.modify q fun d => { d with rcv := left }).goto i
      ⟨.code (taken ++ xs) :: k, panicking⟩) := by
  obtain ⟨_, hd', hpos⟩ := h.exists_cell hth (borrowed_subset_items _ hq)
  obtain rfl := Option.some.inj (hd.symm.trans hd')
  refine h.modify_goto hth hd _ _ (fun hzero => absurd hzero hpos.ne') fun r => ?_
  have hcount := hperm.count_eq (.handle r)
  rw [List.count_append] at hcount
  rw [count_code, count_code]
  change _ + (left ++ d.outer).count _ + _ = _ + (d.rcv ++ d.outer).count _ + _
  simp only [List.count_append]
  omega

/-- The flags of a cell are not counted. -/
theorem Counted.flag (h : Counted s) (f : Data → Data) (r : ℕ)
    (hstrong : ∀ d, (f d).strong = d.strong) (hf : ∀ d, (f d).items = d.items) :
    Counted (s.modify r f) := by
  cases hd : s.cells[r]? with
  | none =>
      have hsame : s.modify r f = s := by
        unfold State.modify
        rw [List.modify_eq_self (List.getElem?_eq_none_iff.mp hd)]
      rwa [hsame]
  | some d =>
      refine ⟨fun q => ?_, fun q d' hd' hzero => ?_⟩
      · have hcell := count_modify hd f (q := q)
        rw [hf] at hcell
        rw [strong_modify hd, hstrong]
        have hs := h.strong q
        split_ifs with hqr
        · subst hqr
          have hq : s.strong q = d.strong := by simp [State.strong, hd]
          omega
        · omega
      · change (s.cells.modify r f)[q]? = some d' at hd'
        rw [List.getElem?_modify] at hd'
        obtain ⟨e, he, rfl⟩ := Option.map_eq_some_iff.mp hd'
        split_ifs at hzero ⊢
        · exact (hf e).trans (h.freed q e he (hstrong e ▸ hzero))
        · exact h.freed q e he hzero

theorem Counted.mark (h : Counted s) (p : ScopeId) : Counted (s.mark p) := by
  cases p with
  | none => exact h
  | some q =>
      exact h.flag (fun d => { d with a_thread_panicked := true }) q (fun _ => rfl) fun _ => rfl

/-- A handle of a cell is dropped. -/
theorem Counted.drop (h : Counted s)
    (hth : s.threads[i]? = some ⟨.drop (.handle q) :: k, panicking⟩)
    (hd : s.cells[q]? = some d) {n : ℕ} (hn : d.strong = n + 2) :
    Counted ((s.modify q fun d => { d with strong := n + 1 }).goto i ⟨k, panicking⟩) := by
  refine h.modify_goto hth hd _ _ (by simp) fun r => ?_
  rw [items_drop, count_handle, hn]
  change (items k).count _ + d.items.count _ + _ = _ + _ + if r = q then n + 1 else 0
  split_ifs <;> omega

/-- …the last one. -/
theorem Counted.dropLast (h : Counted s)
    (hth : s.threads[i]? = some ⟨.drop (.handle q) :: k, panicking⟩) (hd : s.cells[q]? = some d)
    (hn : d.strong = 1) :
    Counted ((s.modify q fun _ => .freed).goto i ⟨d.destroyed ++ k, panicking⟩) := by
  refine h.modify_goto hth hd _ _ (fun _ => rfl) fun r => ?_
  have hcount := (items_destroyed d).count_eq (.handle r)
  rw [items_append, List.count_append, items_drop, count_handle, hn, hcount]
  change _ + 0 + _ = _ + _ + if r = q then 0 else 0
  split_ifs <;> omega

theorem count_erase_discarding (xs : List Item) :
    (items (.code (xs.erase .discarding) :: k)).count (.handle q) =
      (items (.code xs :: k)).count (.handle q) := by
  rw [count_code, count_code, List.count_erase_of_ne (by simp)]

/-- **What thread `i` does**, with `k` after it: what `exec` lets it do. -/
inductive Does (s : State) (i : ℕ) (panicking : Bool) (k : List Instr) :
    Instr → Action → State → Prop
  | call {xs given kept : List Item} : xs.Perm (given ++ kept) →
      Does s i panicking k (.code xs) (.call given kept)
        (s.goto i ⟨.code given :: .code kept :: k, panicking⟩)
  | ret {xs : List Item} :
      Does s i panicking k (.code xs) .ret (s.goto i ⟨xs.map .drop ++ k, panicking⟩)
  | panic {xs : List Item} :
      Does s i panicking k (.code xs) .panic (s.raise i panicking (.code xs :: k))
  | spawn {xs given kept : List Item} : xs.Perm (given ++ kept) →
      Does s i panicking k (.code xs) (.spawn given kept)
        ((s.goto i ⟨.code kept :: k, panicking⟩).spawn given)
  | clone {xs : List Item} {q : ℕ} : .handle q ∈ borrowed (.code xs :: k) →
      Does s i panicking k (.code xs) (.clone q)
        ((s.retain (some q)).goto i ⟨.code (.handle q :: xs) :: k, panicking⟩)
  | share {xs given kept : List Item} : xs.Perm (given ++ kept) →
      Does s i panicking k (.code xs) (.share given kept)
        ((s.alloc ⟨.shared, 1, false, none, given⟩).goto i
          ⟨.code (.handle s.cells.length :: kept) :: k, panicking⟩)
  | put {xs given kept : List Item} {q : ℕ} {d : Data} : s.cells[q]? = some d → d.kind = .shared →
      xs.Perm (given ++ kept) → .handle q ∈ borrowed (.code kept :: k) →
      Does s i panicking k (.code xs) (.put q given kept)
        ((s.modify q fun d => { d with rcv := d.rcv ++ given }).goto i
          ⟨.code kept :: k, panicking⟩)
  | take {xs taken left : List Item} {q : ℕ} {d : Data} : s.cells[q]? = some d → d.kind = .shared →
      d.rcv.Perm (taken ++ left) → .handle q ∈ borrowed (.code xs :: k) →
      Does s i panicking k (.code xs) (.take q taken left)
        ((s.modify q fun d => { d with rcv := left }).goto i ⟨.code (taken ++ xs) :: k, panicking⟩)
  | newScope {xs given kept : List Item} {p : ScopeId} : xs.Perm (given ++ kept) →
      handles p ⊆ borrowed (.code xs :: k) →
      Does s i panicking k (.code xs) (.newScope p given kept)
        (((s.retain p).alloc ⟨.scope p, 3, false, none, given⟩).goto i
          ⟨.code (List.replicate 3 (.handle s.cells.length) ++ kept) :: k, panicking⟩)
  | store {xs : List Item} {q : ℕ} {d : Data} : .handle q ∈ xs → s.cells[q]? = some d →
      d.kind ≠ .shared → d.shared_value = none →
      Does s i panicking k (.code xs) (.store q)
        ((s.modify q fun d => { d with shared_value := some () }).goto i
          ⟨.drop (.handle q) :: .code (xs.erase (.handle q)) :: k, panicking⟩)
  | assigned {xs : List Item} {q : ℕ} {d : Data} : .handle q ∈ xs → s.cells[q]? = some d →
      d.kind ≠ .shared → d.shared_value = some () →
      Does s i panicking k (.code xs) (.store q)
        ((s.mark (some q)).raise i panicking (.code xs :: k))
  | enter {xs given kept : List Item} {p : ScopeId} : xs.Perm (handles p ++ (given ++ kept)) →
      Does s i panicking k (.code xs) (.enter p given kept) (s.goto i
        ⟨.code given :: .run p :: ((handles p).map .drop ++ .code kept :: k), panicking⟩)
  | start {xs : List Item} :
      Does s i panicking k (.code xs) .start (s.goto i ⟨.code (.discarding :: xs) :: k, panicking⟩)
  | complete {xs : List Item} : .discarding ∈ xs → Does s i panicking k (.code xs) .complete
      (s.goto i ⟨.code (xs.erase .discarding) :: k, panicking⟩)
  | fail {xs : List Item} : .discarding ∈ xs → Does s i panicking k (.code xs) .fail
      (s.raise i panicking (.code (xs.erase .discarding) :: k))
  | discarding : Does s i panicking k (.drop .discarding) .proceed (s.raise i panicking k)
  | dropLast {q : ℕ} {d : Data} : s.cells[q]? = some d → d.strong = 1 →
      Does s i panicking k (.drop (.handle q)) .proceed
        ((s.modify q fun _ => .freed).goto i ⟨d.destroyed ++ k, panicking⟩)
  | drop {q n : ℕ} {d : Data} : s.cells[q]? = some d → d.strong = n + 2 →
      Does s i panicking k (.drop (.handle q)) .proceed
        ((s.modify q fun d => { d with strong := n + 1 }).goto i ⟨k, panicking⟩)
  | run {p : ScopeId} : Does s i panicking k (.run p) .proceed (s.goto i ⟨k, panicking⟩)
  | mark {p : ScopeId} : Does s i panicking k (.mark p) .proceed ((s.mark p).goto i ⟨k, panicking⟩)

theorem does_of_code (hs : exec s i panicking k (.code xs) a = some t) :
    Does s i panicking k (.code xs) a t := by
  cases a <;> simp only [exec, reduceCtorEq] at hs
  case put =>
    split at hs
    next hd =>
      split_ifs at hs with hput
      obtain rfl := Option.some.inj hs
      exact .put hd rfl hput.1 hput.2
    next => cases hs
  case take =>
    split at hs
    next hd =>
      split_ifs at hs with htake
      obtain rfl := Option.some.inj hs
      exact .take hd rfl htake.1 htake.2
    next => cases hs
  case store =>
    split_ifs at hs with hq
    split at hs
    next hd =>
      obtain rfl := Option.some.inj hs
      exact .store hq hd nofun rfl
    next hd =>
      obtain rfl := Option.some.inj hs
      exact .assigned hq hd nofun rfl
    next => cases hs
  case newScope =>
    split_ifs at hs with hnew
    obtain rfl := Option.some.inj hs
    exact .newScope hnew.1 hnew.2
  case ret | panic | start =>
    obtain rfl := Option.some.inj hs
    constructor
  all_goals
    split_ifs at hs with h
    obtain rfl := Option.some.inj hs
    constructor
    exact h

theorem does_of_exec (hs : exec s i panicking k x a = some t) : Does s i panicking k x a t := by
  cases x with
  | code xs => exact does_of_code hs
  | drop y =>
      cases a <;> cases y <;> simp only [exec, reduceCtorEq] at hs
      case proceed.discarding =>
        obtain rfl := Option.some.inj hs
        exact .discarding
      case proceed.handle q =>
        split at hs
        next d hd =>
          split at hs
          next => cases hs
          next hn =>
            obtain rfl := Option.some.inj hs
            exact .dropLast hd hn
          next n hn =>
            obtain rfl := Option.some.inj hs
            exact .drop hd hn
        next => cases hs
  | run p =>
      cases a <;> simp only [exec, reduceCtorEq] at hs
      obtain rfl := Option.some.inj hs
      exact .run
  | mark p =>
      cases a <;> simp only [exec, reduceCtorEq] at hs
      obtain rfl := Option.some.inj hs
      exact .mark

theorem Counted.does (h : Counted s) (hth : s.threads[i]? = some ⟨x :: k, panicking⟩)
    (hs : Does s i panicking k x a t) : Counted t := by
  cases hs with
  | call hperm => exact h.goto hth fun q => by simp [hperm.count_eq, Nat.add_assoc]
  | ret => exact h.goto hth fun q => by simp
  | panic => exact h.raise hth panicking fun _ => rfl
  | spawn hperm => exact h.spawn hth hperm
  | clone hq => exact h.clone hth hq
  | share hperm => exact h.share hth hperm
  | put hd _ hperm hq => exact h.put hth hd hperm (borrowed_kept_subset hperm hq)
  | take hd _ hperm hq => exact h.take hth hd hperm hq
  | newScope hperm hp => exact h.newScope hth hperm hp
  | @store xs q d hq _ _ _ =>
      have hstored := h.flag (fun d => { d with shared_value := some () }) q (fun _ => rfl)
        fun _ => rfl
      refine hstored.goto hth fun r => ?_
      simp [(List.perm_cons_erase hq).count_eq, List.count_cons]
      omega
  | @assigned xs q _ _ _ _ _ => exact (h.mark (some q)).raise hth panicking fun _ => rfl
  | enter hperm => exact h.goto hth fun q => by simp [hperm.count_eq]; omega
  | start => exact h.goto hth fun q => by simp
  | @complete xs => exact h.goto hth fun q => count_erase_discarding xs
  | @fail xs => exact h.raise hth panicking fun q => count_erase_discarding xs
  | discarding => exact h.raise hth panicking fun q => by simp
  | dropLast hd hn => exact h.dropLast hth hd hn
  | drop hd hn => exact h.drop hth hd hn
  | run => exact h.goto hth fun _ => rfl
  | @mark p =>
      have hth' : (s.mark p).threads[i]? = some ⟨.mark p :: k, panicking⟩ := by
        cases p <;> exact hth
      exact (h.mark p).goto hth' fun _ => rfl

theorem counted_inductive : machine.Inductive (fun _ _ => True) Counted where
  init := ⟨fun q => rfl, fun q d hd => by cases hd⟩
  step s l t h _ hs := by
    change step s l = some t at hs
    unfold step at hs
    split_ifs at hs
    split at hs
    next hth => exact h.does hth (does_of_exec hs)
    next => cases hs

end SendersReceivers.Detached
