import SendersReceivers.Detached.Unwinding

/-!
# Detached/Keeping — what the others do makes nobody an only owner

`Acts` says what a step gets hold of at most, `Keeps` that nothing gets out of reach by it: what
somebody had is still owned by somebody, or inside of a cell that somebody has a handle of.  It
holds of all that a thread does, except that it drops a handle of a cell that stays. -/

namespace SendersReceivers.Detached

open Machinery

variable {s t : State} {i j u q : ℕ} {th : Thread} {d : Data} {p : ScopeId} {x : Instr}
  {k code : List Instr} {panicking : Bool} {a : Action} {xs given kept A B C : List Item}

/-- What was in `A`, or in a cell, is in reach of those who have `B`. -/
structure Keeps (s t : State) (A B : List Item) : Prop where
  /-- but not the handle of a cell that is gone -/
  own : ∀ q, .handle q ∈ A → t.Reach B q ∨ t.falling q = []
  new : ∀ q, s.cells.length ≤ q → t.Reach B q
  cells : ∀ j, Same s t j ∨ (.handle j ∈ B ∨ t.falling j = []) ∧
    ∀ q, .handle q ∈ s.falling j ∨ .handle q ∈ s.waiting j → t.Reach B q

theorem Keeps.of_same (hlength : t.cells.length ≤ s.cells.length) (hsame : ∀ j, Same s t j)
    (hAB : ∀ q, .handle q ∈ A → .handle q ∈ B) : Keeps s t A B where
  own q hq := .inl (.inl (hAB q hq))
  new _ hq := .inr (.inl (hlength.trans hq))
  cells j := .inl (hsame j)

theorem Keeps.goto (hAB : ∀ q, .handle q ∈ A → .handle q ∈ B) : Keeps s (s.goto i th) A B :=
  .of_same le_rfl (fun _ => ⟨rfl, rfl⟩) hAB

/-- What else a thread has makes no difference. -/
theorem Keeps.append {A' : List Item} (h : Keeps s t A B)
    (hA : ∀ q, .handle q ∈ A' → .handle q ∈ A ∨ .handle q ∈ C) : Keeps s t A' (B ++ C) where
  own q hq := by
    obtain hq | hq := hA q hq
    · exact (h.own q hq).imp_left fun hreach => hreach.mono (List.subset_append_left B C)
    · exact .inl (.inl (List.mem_append_right _ hq))
  new q hq := (h.new q hq).mono (List.subset_append_left B C)
  cells j := (h.cells j).imp_right fun ⟨hj, hin⟩ =>
    ⟨hj.imp_left (List.mem_append_left _), fun q hq =>
      (hin q hq).mono (List.subset_append_left B C)⟩

/-- What is in a cell after a change. -/
theorem reach_modify (f : Data → Data) (hq : .handle q ∈ B) (hd : s.cells[q]? = some d)
    {r : ℕ} (hr : .handle r ∈ (f d).items) : ((s.modify q f).goto i th).Reach B r := by
  refine .of_cell hq (d := f d) ?_ hr
  change (s.cells.modify q f)[q]? = _
  simp [hd]

/-- A cell changes that somebody has a handle of. -/
theorem Keeps.modify (f : Data → Data) (hq : .handle q ∈ B)
    (hf : ∀ d, s.cells[q]? = some d → ∀ r, .handle r ∈ d.items →
      .handle r ∈ (f d).items ∨ .handle r ∈ B)
    (hA : ∀ r, .handle r ∈ A → ((s.modify q f).goto i th).Reach B r) :
    Keeps s ((s.modify q f).goto i th) A B where
  own r hr := .inl (hA r hr)
  new r hr := .inr (.inl ((List.length_modify ..).le.trans hr))
  cells j := by
    by_cases hqj : q = j
    · subst hqj
      refine .inr ⟨.inl hq, fun r hr => ?_⟩
      obtain ⟨d, hd, hr⟩ := mem_cell.mp hr
      obtain hr | hr := hf d hd r hr
      · exact reach_modify f hq hd hr
      · exact .inl hr
    · refine .inl (.of_cell ?_)
      change (s.cells.modify q f)[j]? = _
      simp [hqj]

/-- There is a new cell. -/
theorem Keeps.alloc (hlength : t.cells.length = s.cells.length) (hsame : ∀ j, Same s t j)
    (hnew : .handle s.cells.length ∈ B)
    (hA : ∀ q, .handle q ∈ A → .handle q ∈ B ∨ .handle q ∈ d.items) :
    Keeps s (t.alloc d) A B where
  own q hq := by
    refine .inl ((hA q hq).elim .inl fun hq => .of_cell hnew (d := d) ?_ hq)
    change (t.cells ++ [d])[_]? = _
    rw [← hlength, List.getElem?_concat_length]
  new q hq := by
    obtain rfl | hlt := hq.eq_or_lt
    · exact .inl hnew
    · refine .inr (.inl ?_)
      change (t.cells ++ [d]).length ≤ q
      rw [List.length_append, hlength]
      exact hlt
  cells j := by
    by_cases hj : j = s.cells.length
    · subst hj
      refine .inr ⟨.inl hnew, fun q hq => ?_⟩
      obtain ⟨e, he, -⟩ := mem_cell.mp hq
      exact absurd (List.getElem?_eq_some_iff.mp he).1 (lt_irrefl _)
    · have hold : Same t (t.alloc d) j := .of_cell (by
        change (t.cells ++ [d])[j]? = _
        rw [List.getElem?_append]
        split_ifs with hlt
        · rfl
        · rw [List.getElem?_eq_none (by simp; omega), List.getElem?_eq_none (by omega)])
      exact .inl ⟨hold.1.trans (hsame j).1, hold.2.trans (hsame j).2⟩

theorem Same.retain (p : ScopeId) (j : ℕ) : Same s (s.retain p) j := by
  cases p with
  | none => exact ⟨rfl, rfl⟩
  | some q => exact .modify (fun d => { d with strong := d.strong + 1 }) (fun _ => ⟨rfl, rfl⟩) q j

@[simp] theorem length_retain (p : ScopeId) : (s.retain p).cells.length = s.cells.length := by
  cases p with
  | none => rfl
  | some q => exact List.length_modify ..

@[simp] theorem length_mark (p : ScopeId) : (s.mark p).cells.length = s.cells.length := by
  cases p with
  | none => rfl
  | some q => exact List.length_modify ..

/-- The last handle of a cell goes, and who has dropped it has what was inside. -/
theorem Keeps.destroyed (hd : s.cells[q]? = some d)
    (hA : ∀ r, .handle r ∈ A → r = q ∨ .handle r ∈ B)
    (hB : ∀ r, .handle r ∈ d.items → .handle r ∈ B) :
    Keeps s ((s.modify q fun _ => .freed).goto i th) A B where
  own r hr := by
    obtain rfl | hr := hA r hr
    · exact .inr (dropLast_freed (i := i) (d := d) (k := [])).1
    · exact .inl (.inl hr)
  new r hr := .inr (.inl ((List.length_modify ..).le.trans hr))
  cells j := by
    by_cases hjq : j = q
    · subst hjq
      refine .inr ⟨.inr (dropLast_freed (i := i) (d := d) (k := [])).1, fun r hr => ?_⟩
      obtain ⟨e, he, hr⟩ := mem_cell.mp hr
      obtain rfl := Option.some.inj (hd.symm.trans he)
      exact .inl (hB r hr)
    · exact .inl (dropLast_same (i := i) (d := d) (k := []) hjq)

/-! ## Functions -/

/-- It moves what a function has, and drops nothing. -/
def Action.Moves : Action → Prop
  | .call .. | .spawn .. | .clone _ | .share .. | .put .. | .take .. | .newScope .. | .start
  | .complete => True
  | _ => False

theorem kept_of_borrowed {y : Item} (hth : s.threads[i]? = some th) (hy : y ∈ borrowed th.code) :
    s.Kept u y :=
  .inr (.inl ⟨i, th, hth, .inl hy⟩)

/-- A function that goes on has all that its frame has. -/
theorem frame_kept (hi : i < s.threads.length) (ys : List Item) :
    (∀ u q, .handle q ∈ ys ++ borrowed k →
      (s.goto i ⟨.code ys :: k, panicking⟩).Kept u (.handle q)) ∧
      ∃ th, (s.goto i ⟨.code ys :: k, panicking⟩).threads[i]? = some th ∧
        dropping th.code = dropping k :=
  ⟨fun _ _ hq => kept_of_borrowed (goto_thread hi) hq, _, goto_thread hi, rfl⟩

/-- What a function does with what it has. -/
theorem exec_code_keeps (hs : exec s i panicking k (.code xs) a = some t) (ha : a.Moves)
    (hi : i < s.threads.length) : ∃ B, Keeps s t (borrowed (.code xs :: k)) B ∧
      (∀ u q, .handle q ∈ B → t.Kept u (.handle q)) ∧
        ∃ th, t.threads[i]? = some th ∧ dropping th.code = dropping k := by
  have hretain : ∀ p, i < (s.retain p).threads.length := fun p => by cases p <;> exact hi
  cases does_of_code hs with
  | @call xs given kept hperm =>
      refine ⟨given ++ (kept ++ borrowed k), .goto fun q hq => ?_,
        fun u q hq => kept_of_borrowed (goto_thread hi) hq, _, goto_thread hi, rfl⟩
      simpa [hperm.mem_iff, or_assoc] using hq
  | @spawn xs given kept hperm =>
      have hold : ((s.goto i ⟨.code kept :: k, panicking⟩).spawn given).threads[i]? =
          some ⟨.code kept :: k, panicking⟩ := by
        change (List.set _ _ _ ++ [_])[i]? = _
        rw [List.getElem?_append_left (by simpa using hi), List.getElem?_set_self hi]
      have hnew : ((s.goto i ⟨.code kept :: k, panicking⟩).spawn given).threads[s.threads.length]? =
          some ⟨[.code given], false⟩ := by
        change (List.set _ _ _ ++ [_])[_]? = _
        rw [← List.length_set, List.getElem?_concat_length]
      refine ⟨given ++ (kept ++ borrowed k), .of_same le_rfl (fun _ => ⟨rfl, rfl⟩) fun q hq => ?_,
        fun u q hq => ?_, _, hold, rfl⟩
      · simpa [hperm.mem_iff, or_assoc] using hq
      · obtain hq | hq := List.mem_append.mp hq
        · exact kept_of_borrowed hnew (List.mem_append_left _ hq)
        · exact kept_of_borrowed hold hq
  | @clone xs q hq =>
      exact ⟨.handle q :: xs ++ borrowed k, .of_same (length_retain _).le (Same.retain _)
        fun r hr => .tail _ hr, frame_kept (hretain _) _⟩
  | @share xs given kept hperm =>
      refine ⟨.handle s.cells.length :: kept ++ borrowed k,
        .alloc (t := s.goto i _) rfl (fun _ => ⟨rfl, rfl⟩) (.head _) fun q hq => ?_,
        frame_kept (s := s.alloc _) hi _⟩
      simp only [borrowed_code, List.mem_append, hperm.mem_iff] at hq
      simp only [Data.items, Data.outer, List.mem_append, List.mem_cons]
      tauto
  | @put xs given kept q d hd _ hperm hq =>
      refine ⟨kept ++ borrowed k, .modify _ hq (fun d _ r hr => .inl ?_) fun r hr => ?_,
        frame_kept (s := s.modify q _) hi _⟩
      · simp only [Data.items, Data.outer, List.mem_append] at hr ⊢
        tauto
      · simp only [borrowed_code, List.mem_append, hperm.mem_iff] at hr
        obtain (hr | hr) | hr := hr
        · exact reach_modify _ hq hd (by simp [Data.items, hr])
        · exact .inl (List.mem_append_left _ hr)
        · exact .inl (List.mem_append_right _ hr)
  | @take xs taken left q d hd _ hperm hq =>
      have hmine : ∀ {y}, y ∈ borrowed (.code xs :: k) → y ∈ taken ++ xs ++ borrowed k := by
        intro y hy
        rw [List.append_assoc]
        exact List.mem_append_right _ hy
      refine ⟨taken ++ xs ++ borrowed k, .modify _ (hmine hq) (fun d hd' r hr => ?_)
        fun r hr => .inl (hmine hr), frame_kept (s := s.modify q _) hi _⟩
      obtain rfl := Option.some.inj (hd.symm.trans hd')
      simp only [Data.items, Data.outer, List.mem_append, hperm.mem_iff] at hr ⊢
      tauto
  | @newScope xs given kept p hperm hp =>
      refine ⟨List.replicate 3 (.handle s.cells.length) ++ kept ++ borrowed k,
        .alloc (t := (s.retain p).goto i _) (length_retain p) (Same.retain p) (.head _)
          fun q hq => ?_,
        frame_kept (s := (s.retain p).alloc _) (hretain p) _⟩
      simp only [borrowed_code, List.mem_append, hperm.mem_iff] at hq
      simp only [Data.items, Data.outer, List.mem_append]
      tauto
  | @start xs =>
      exact ⟨.discarding :: xs ++ borrowed k, .goto fun q hq => .tail _ hq, frame_kept hi _⟩
  | @complete xs hmem =>
      refine ⟨xs.erase .discarding ++ borrowed k, .goto fun q hq => ?_, frame_kept hi _⟩
      simpa using hq
  | _ => exact ha.elim

/-! ## Every step -/

/-- A thread lets go of a handle that is not the last. -/
def Lets (s t : State) (i : ℕ) (panicking : Bool) (k : List Instr) (x : Instr) : Prop :=
  ∃ q n, x = .drop (.handle q) ∧ s.strong q = n + 2 ∧
    t = (s.modify q fun d => { d with strong := n + 1 }).goto i ⟨k, panicking⟩

/-- Somebody else sees all that a thread has. -/
theorem kept_of_items {y : Item} (hth : s.threads[i]? = some th) (hu : u ≠ i)
    (hy : y ∈ items th.code) :
    s.Kept u y :=
  .inr (.inl ⟨i, th, hth, (mem_items.mp hy).imp_right fun hy => ⟨hu.symm, hy⟩⟩)

/-- A thread goes on with what it has. -/
theorem goto_keeps (hi : i < s.threads.length)
    (hA : ∀ q, .handle q ∈ A → .handle q ∈ items th.code) :
    ∃ B, Keeps s (s.goto i th) A B ∧
      ∀ u ≠ i, ∀ q, .handle q ∈ B → (s.goto i th).Kept u (.handle q) :=
  ⟨_, .goto hA, fun _ hu _ hq => kept_of_items (goto_thread hi) hu hq⟩

/-- **What one thread does**, as the others see it. -/
theorem exec_keeps (hs : exec s i panicking k x a = some t) (ht : t.aborted = false)
    (hi : i < s.threads.length) : Lets s t i panicking k x ∨ ∃ B, Keeps s t (items (x :: k)) B ∧
      ∀ u ≠ i, ∀ q, .handle q ∈ B → t.Kept u (.handle q) := by
  have hmoves : ∀ {xs}, x = .code xs → a.Moves → ∃ B, Keeps s t (items (x :: k)) B ∧
      ∀ u ≠ i, ∀ q, .handle q ∈ B → t.Kept u (.handle q) := by
    rintro xs rfl ha
    obtain ⟨B, hkeeps, hB, th, hth, hdropping⟩ := exec_code_keeps hs ha hi
    refine ⟨B ++ dropping k, hkeeps.append fun q hq => mem_items.mp hq, fun u hu q hq => ?_⟩
    obtain hq | hq := List.mem_append.mp hq
    · exact hB u q hq
    · exact kept_of_items hth hu (mem_items.mpr (.inr (hdropping ▸ hq)))
  have hraise : ∀ {s' : State} {code : List Instr}, t = s'.raise i panicking code →
      panicking = false := by
    rintro s' code rfl
    cases panicking with
    | true => cases ht
    | false => rfl
  cases does_of_exec hs with
  | ret => exact .inr (goto_keeps hi fun q hq => by simpa using hq)
  | panic =>
      obtain rfl := hraise rfl
      exact .inr (goto_keeps hi fun q hq => by rwa [items_unwind])
  | @store xs q d hq =>
      refine .inr ⟨items (.drop (.handle q) :: .code (xs.erase (.handle q)) :: k),
        .modify _ (.head _) (fun _ _ _ hr => .inl hr) fun r hr => .inl ?_,
        fun u hu r hr => kept_of_items (goto_thread hi) hu hr⟩
      rw [items_code, ((List.perm_cons_erase hq).append_right _).mem_iff] at hr
      simpa using hr
  | @assigned xs q d hq =>
      obtain rfl := hraise rfl
      refine .inr ⟨items (.code xs :: k), .of_same (length_mark _).le (Same.mark _) fun _ hr => hr,
        fun u hu r hr => kept_of_items (goto_thread hi) hu ?_⟩
      rwa [items_unwind]
  | enter hperm =>
      refine .inr (goto_keeps hi fun q hq => ?_)
      simp only [items_code, List.mem_append, hperm.mem_iff] at hq
      simp only [items_code, items_run, items_append, items_map_drop, List.mem_append]
      tauto
  | fail =>
      obtain rfl := hraise rfl
      refine .inr (goto_keeps hi fun q hq => ?_)
      rw [items_unwind]
      simpa using hq
  | discarding =>
      obtain rfl := hraise rfl
      exact .inr (goto_keeps hi fun q hq => by simpa using hq)
  | @dropLast q d hd hn =>
      refine .inr ⟨items (d.destroyed ++ k), .destroyed hd (fun r hr => ?_) fun r hr => ?_,
        fun u hu r hr => kept_of_items (goto_thread hi) hu hr⟩
      · rw [items_drop, List.mem_cons, Item.handle.injEq] at hr
        exact hr.imp_right fun hr => by simp [hr]
      · rw [items_append]
        exact List.mem_append_left _ ((items_destroyed d).mem_iff.mpr hr)
  | drop hd hn => exact .inl ⟨_, _, rfl, by simp [State.strong, hd, hn], rfl⟩
  | run => exact .inr (goto_keeps hi fun q hq => hq)
  | @mark p =>
      exact .inr ⟨items k, .of_same (length_mark p).le (Same.mark p) fun _ hq => hq,
        fun u hu q hq =>
          kept_of_items (goto_thread (s := s.mark p) (by cases p <;> exact hi)) hu hq⟩
  | _ => exact .inr (hmoves rfl trivial)

/-- Counts and flags do not matter. -/
theorem holdings_congr (hthreads : t.threads = s.threads)
    (hlength : t.cells.length = s.cells.length) (hsame : ∀ j, Same s t j) (u : ℕ) :
    t.holdings u = s.holdings u := by
  have hfalling : ∀ j, t.falling j = s.falling j := fun j => (hsame j).1
  have hwaiting : ∀ j, t.waiting j = s.waiting j := fun j => (hsame j).2
  simp only [State.holdings, State.Kept, hthreads, hlength, hfalling, hwaiting]

/-- **Where nothing gets out of reach, nobody becomes an only owner.** -/
theorem Keeps.lost {old : Thread} (h : Keeps s t A B) (hacts : Acts s t i C th)
    (hold : s.threads[i]? = some old) (hu : u < s.threads.length)
    (hB : ∀ q, .handle q ∈ B → t.Kept u (.handle q))
    (hmine : ∀ q, .handle q ∈ borrowed old.code ∨ i ≠ u ∧ .handle q ∈ dropping old.code →
      .handle q ∈ A)
    (hdrops : i = u → dropping th.code ⊆ dropping old.code) (hlost : t.Lost u) : s.Lost u := by
  have hreached : ∀ q, t.Reach B q → .handle q ∈ (t.holdings u).reached .handle :=
    fun q hq => hq.reached hB
  change (s.holdings u).Lost .handle .discarding
  refine hlost.persists (fun q hq => ?_) (fun j q hq => ?_) (fun hx => ?_) fun j hj hx => .inl ?_
  · obtain ⟨r, hr, hlen⟩ | ⟨j, th', hj, hmem⟩ | ⟨j, hj⟩ := hq
    · obtain rfl := Item.handle.inj hr
      exact .inl (hreached q (h.new q hlen))
    · by_cases hji : j = i
      · subst hji
        obtain rfl := Option.some.inj (hold.symm.trans hj)
        obtain hq | hq := h.own q (hmine q hmem)
        · exact .inl (hreached q hq)
        · refine .inr (Set.eq_empty_iff_forall_notMem.mpr fun y hy => ?_)
          change y ∈ t.falling q at hy
          rw [hq] at hy
          cases hy
      · exact .inl (.inl (.inr (.inl ⟨j, th', hacts.thread_ne hji hj, hmem⟩)))
    · obtain hsame | ⟨-, hin⟩ := h.cells j
      · exact .inl (.inl (.inr (.inr ⟨j, hsame.2.symm ▸ hj⟩)))
      · exact .inl (hreached q (hin q (.inr hj)))
  · obtain hsame | ⟨-, hin⟩ := h.cells j
    · refine .inl ?_
      change _ ∈ t.falling j
      rwa [hsame.1]
    · exact .inr (hreached q (hin q (.inl hq)))
  · obtain ⟨th', hth', hx⟩ := hx
    by_cases hui : u = i
    · subst hui
      obtain rfl := Option.some.inj ((hacts.thread hu).symm.trans hth')
      exact ⟨old, hold, hdrops rfl hx⟩
    · have hsame := hacts.thread_ne hui (List.getElem?_eq_getElem hu)
      obtain rfl := Option.some.inj (hsame.symm.trans hth')
      exact ⟨_, List.getElem?_eq_getElem hu, hx⟩
  · change _ ∈ s.falling j
    obtain hsame | ⟨hnone | hempty, -⟩ := h.cells j
    · exact hsame.1 ▸ hx
    · exact absurd (hB j hnone) hj.not_kept
    · change _ ∈ t.falling j at hx
      rw [hempty] at hx
      cases hx

end SendersReceivers.Detached
