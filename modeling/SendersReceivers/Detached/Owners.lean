import SendersReceivers.Detached.Handles
import SendersReceivers.Machinery.Ownership

/-!
# Detached/Owners — the only owner of a `DiscardingReceiver`

A thread that unwinds drops all it has.  A `DiscardingReceiver` goes with it if nobody else has it,
and nobody else has a handle of a cell that it is inside of.  Whoever has none of this cannot save
it, since what code does begins with a handle that it has. -/

namespace SendersReceivers.Detached

open Machinery

variable {s t : State} {i j u q : ℕ} {th : Thread} {d : Data} {p : ScopeId} {x : Instr}
  {k code : List Instr} {panicking : Bool} {a : Action} {xs given kept A B : List Item}

/-! ## Who has what -/

/-- What a thread is about to drop. -/
def dropping (code : List Instr) : List Item := code.flatMap Instr.dropped

/-- What is dropped with a cell. -/
def Data.falling (d : Data) : List Item :=
  match d.shared_value with
  | some () => d.outer
  | none => d.items

/-- What is called instead. -/
def Data.waiting (d : Data) : List Item :=
  match d.shared_value with
  | some () => d.rcv
  | none => []

namespace State

def falling (s : State) (j : ℕ) : List Item := (s.cells[j]?.map Data.falling).getD []

def waiting (s : State) (j : ℕ) : List Item := (s.cells[j]?.map Data.waiting).getD []

/-- What thread `i` will not drop, come what may: another thread has it, or a function that it still
is in, or a scope with a signal, or it does not exist yet. -/
def Kept (s : State) (i : ℕ) (y : Item) : Prop :=
  (∃ q, y = .handle q ∧ s.cells.length ≤ q) ∨
    (∃ (j : ℕ) (th : Thread), s.threads[j]? = some th ∧
      (y ∈ borrowed th.code ∨ j ≠ i ∧ y ∈ dropping th.code)) ∨
    ∃ j, y ∈ s.waiting j

/-- The state, as thread `i` sees it. -/
def holdings (s : State) (i : ℕ) : Holdings ℕ Item where
  dropped := {y | ∃ th : Thread, s.threads[i]? = some th ∧ y ∈ dropping th.code}
  kept := {y | s.Kept i y}
  inside j := {y | y ∈ s.falling j}

/-- **Thread `i` is the only owner of a `DiscardingReceiver`**, and is about to drop it. -/
def Lost (s : State) (i : ℕ) : Prop := (s.holdings i).Lost .handle .discarding

/-- Thread `i` unwinds, or has unwound. -/
def Unwinding (s : State) (i : ℕ) : Prop :=
  ∃ th : Thread, s.threads[i]? = some th ∧ th.panicking = true

/-- What somebody who has `A` can get hold of. -/
def Reach (s : State) (A : List Item) (q : ℕ) : Prop :=
  .handle q ∈ A ∨ s.cells.length ≤ q ∨
    ∃ (j : ℕ) (d : Data), .handle j ∈ A ∧ s.cells[j]? = some d ∧ .handle q ∈ d.items

end State

/-- Cell `j` has the same inside of it. -/
def Same (s t : State) (j : ℕ) : Prop := t.falling j = s.falling j ∧ t.waiting j = s.waiting j

/-- Thread `i` has done something with what it can get hold of, and goes on with `th`. -/
structure Acts (s t : State) (i : ℕ) (A : List Item) (th : Thread) : Prop where
  length : s.cells.length ≤ t.cells.length
  same : ∀ j < s.cells.length, .handle j ∉ A → Same s t j
  inside : ∀ j, Same s t j ∨
    ∀ q, .handle q ∈ t.falling j ∨ .handle q ∈ t.waiting j → s.Reach A q
  threads : ∃ new : List Thread, t.threads = s.threads.set i th ++ new ∧
    ∀ th ∈ new, th.panicking = false ∧ ∀ q, .handle q ∈ items th.code → s.Reach A q

@[simp] theorem borrowed_append (code' : List Instr) :
    borrowed (code ++ code') = borrowed code ++ borrowed code' :=
  List.flatMap_append

@[simp] theorem borrowed_code (xs : List Item) : borrowed (.code xs :: k) = xs ++ borrowed k := rfl

@[simp] theorem borrowed_drop (y : Item) : borrowed (.drop y :: k) = borrowed k := rfl

@[simp] theorem borrowed_run : borrowed (.run p :: k) = borrowed k := rfl

@[simp] theorem borrowed_mark : borrowed (.mark p :: k) = borrowed k := rfl

@[simp] theorem borrowed_map_drop (xs : List Item) : borrowed (xs.map .drop) = [] := by
  induction xs with
  | nil => rfl
  | cons y xs ih => rwa [List.map_cons, borrowed_drop]

@[simp] theorem dropping_append (code' : List Instr) :
    dropping (code ++ code') = dropping code ++ dropping code' :=
  List.flatMap_append

@[simp] theorem dropping_code (xs : List Item) : dropping (.code xs :: k) = dropping k := rfl

@[simp] theorem dropping_drop (y : Item) : dropping (.drop y :: k) = y :: dropping k := rfl

@[simp] theorem dropping_run : dropping (.run p :: k) = dropping k := rfl

@[simp] theorem dropping_mark : dropping (.mark p :: k) = dropping k := rfl

@[simp] theorem dropping_map_drop (xs : List Item) : dropping (xs.map .drop) = xs := by
  induction xs with
  | nil => rfl
  | cons y xs ih => rw [List.map_cons, dropping_drop, ih]

theorem mem_items {y : Item} : y ∈ items code ↔ y ∈ borrowed code ∨ y ∈ dropping code := by
  simp only [items, Instr.items, borrowed, dropping, List.mem_flatMap, List.mem_append, and_or_left,
    exists_or]

theorem State.Reach.mono (h : s.Reach A q) (hA : A ⊆ B) : s.Reach B q := by
  obtain h | h | ⟨j, d, hj, hd, hq⟩ := h
  · exact .inl (hA h)
  · exact .inr (.inl h)
  · exact .inr (.inr ⟨j, d, hA hj, hd, hq⟩)

theorem Acts.mono (h : Acts s t i A th) (hA : A ⊆ B) : Acts s t i B th where
  length := h.length
  same j hlt hj := h.same j hlt fun hmem => hj (hA hmem)
  inside j := (h.inside j).imp_right fun hin q hq => (hin q hq).mono hA
  threads := by
    obtain ⟨new, hnew, hin⟩ := h.threads
    exact ⟨new, hnew, fun th hth => (hin th hth).imp_right fun hin q hq => (hin q hq).mono hA⟩

/-! ## What a function can do -/

theorem Data.mem_items {y : Item} : y ∈ d.items ↔ y ∈ d.falling ∨ y ∈ d.waiting := by
  unfold Data.falling Data.waiting
  cases d.shared_value with
  | none => simp
  | some _ => simp [Data.items, or_comm]

theorem mem_cell {y : Item} :
    y ∈ s.falling j ∨ y ∈ s.waiting j ↔ ∃ d, s.cells[j]? = some d ∧ y ∈ d.items := by
  unfold State.falling State.waiting
  cases s.cells[j]? with
  | none => simp
  | some d => simp [Data.mem_items]

theorem Same.of_cell (h : t.cells[j]? = s.cells[j]?) : Same s t j := by
  unfold Same State.falling State.waiting
  rw [h]
  exact ⟨rfl, rfl⟩

/-- Counts and flags do not matter. -/
theorem Same.modify (f : Data → Data)
    (hf : ∀ d, (f d).falling = d.falling ∧ (f d).waiting = d.waiting) (q j : ℕ) :
    Same s (s.modify q f) j := by
  unfold Same State.falling State.waiting State.modify
  rw [List.getElem?_modify]
  cases s.cells[j]? with
  | none => exact ⟨rfl, rfl⟩
  | some d =>
      simp only [Option.map_eq_map, Option.map_some, Option.getD_some]
      split_ifs
      · exact hf d
      · exact ⟨rfl, rfl⟩

theorem Same.mark (p : ScopeId) (j : ℕ) : Same s (s.mark p) j := by
  cases p with
  | none => exact ⟨rfl, rfl⟩
  | some q =>
      exact .modify (fun d => { d with a_thread_panicked := true }) (fun _ => ⟨rfl, rfl⟩) q j

theorem Acts.goto (s : State) (i : ℕ) (A : List Item) (th : Thread) :
    Acts s (s.goto i th) i A th where
  length := le_rfl
  same _ _ _ := ⟨rfl, rfl⟩
  inside _ := .inl ⟨rfl, rfl⟩
  threads := ⟨[], (List.append_nil _).symm, nofun⟩

theorem Acts.spawn (hgiven : ∀ q, .handle q ∈ given → s.Reach A q) :
    Acts s ((s.goto i th).spawn given) i A th where
  length := le_rfl
  same _ _ _ := ⟨rfl, rfl⟩
  inside _ := .inl ⟨rfl, rfl⟩
  threads := ⟨[⟨[.code given], false⟩], rfl, fun th hth => by
    obtain rfl := List.mem_singleton.mp hth
    exact ⟨rfl, fun q hq => hgiven q (by simpa using hq)⟩⟩

/-- A cell changes that there is a handle of. -/
theorem Acts.modify_goto (f : Data → Data) (hq : .handle q ∈ A)
    (hf : ∀ d, s.cells[q]? = some d → ∀ r, .handle r ∈ (f d).items → s.Reach A r) :
    Acts s ((s.modify q f).goto i th) i A th := by
  have hne : ∀ j, q ≠ j → Same s ((s.modify q f).goto i th) j := fun j hj => .of_cell (by
    change (s.cells.modify q f)[j]? = _
    simp [hj])
  refine ⟨(List.length_modify ..).ge, fun j _ hj => hne j fun heq => hj (heq ▸ hq), fun j => ?_,
    ⟨[], (List.append_nil _).symm, nofun⟩⟩
  by_cases hqj : q = j
  · subst hqj
    refine .inr fun r hr => ?_
    obtain ⟨d, hd, hr⟩ := mem_cell.mp hr
    change (s.cells.modify q f)[q]? = some d at hd
    rw [List.getElem?_modify] at hd
    obtain ⟨e, he, rfl⟩ := Option.map_eq_some_iff.mp hd
    exact hf e he r (by simpa using hr)
  · exact .inl (hne j hqj)

/-- `mark_panicked`. -/
theorem Acts.mark_goto (p : ScopeId) : Acts s ((s.mark p).goto i th) i A th := by
  refine ⟨?_, fun j _ _ => Same.mark p j, fun j => .inl (Same.mark p j), ⟨[], ?_, nofun⟩⟩
  · cases p
    · exact le_rfl
    · exact (List.length_modify ..).ge
  · cases p <;> exact (List.append_nil _).symm

/-- …and then there is a new cell. -/
theorem Acts.alloc (h : Acts s t i A th) (hd : ∀ q, .handle q ∈ d.items → s.Reach A q) :
    Acts s (t.alloc d) i A th := by
  have hsame : ∀ j < t.cells.length, Same t (t.alloc d) j := fun j hj =>
    .of_cell (List.getElem?_append_left hj)
  refine ⟨h.length.trans (List.IsPrefix.length_le ⟨[d], rfl⟩), fun j hj hA => ?_, fun j => ?_,
    h.threads⟩
  · have hold := h.same j hj hA
    have hnew := hsame j (hj.trans_le h.length)
    exact ⟨hnew.1.trans hold.1, hnew.2.trans hold.2⟩
  · rcases Nat.lt_or_ge j t.cells.length with hlt | hge
    · have hnew := hsame j hlt
      unfold Same
      rw [hnew.1, hnew.2]
      exact h.inside j
    · refine .inr fun q hq => ?_
      obtain ⟨e, he, hmem⟩ := mem_cell.mp hq
      change (t.cells ++ [d])[j]? = some e at he
      rw [List.getElem?_append_right hge] at he
      obtain rfl := List.mem_singleton.mp (List.mem_of_getElem? he)
      exact hd q hmem

/-- `new_scope`: the outer scope is cloned first. -/
theorem Acts.newScope (hp : handles p ⊆ A) (hd : ∀ q, .handle q ∈ d.items → s.Reach A q) :
    Acts s (((s.retain p).alloc d).goto i th) i A th := by
  cases p with
  | none => exact (Acts.goto s i A th).alloc hd
  | some r =>
      have hr : .handle r ∈ A := hp (.head _)
      exact (Acts.modify_goto (fun d => { d with strong := d.strong + 1 }) hr
        fun d hd q hq => .inr (.inr ⟨r, d, hr, hd, hq⟩)).alloc hd

/-- What thread `i` goes on with is made of what it has had, or can get hold of. -/
structure Follows (s : State) (code : List Instr) (panicking : Bool) (th : Thread) : Prop where
  all : ∀ q, .handle q ∈ items th.code → s.Reach (items code) q
  panics : panicking = true → th.panicking = true
  /-- unless it begins to unwind -/
  live : th.panicking = panicking → ∀ q, .handle q ∈ borrowed th.code → s.Reach (borrowed code) q
  drops : th.panicking = panicking → dropping code ⊆ dropping th.code

/-- It does not begin to unwind. -/
theorem Follows.of_live (hpanicking : th.panicking = panicking)
    (hlive : ∀ q, .handle q ∈ borrowed th.code → s.Reach (borrowed code) q)
    (hdrops : dropping code ⊆ dropping th.code)
    (hnew : ∀ y ∈ dropping th.code, y ∈ items code) : Follows s code panicking th where
  all q hq := by
    obtain hq | hq := mem_items.mp hq
    · exact (hlive q hq).mono (borrowed_subset_items code)
    · exact .inl (hnew _ hq)
  panics := hpanicking.trans
  live _ := hlive
  drops _ := hdrops

/-- The function that it is in has something else. -/
theorem Follows.frame {ys : List Item}
    (hys : ∀ q, .handle q ∈ ys → s.Reach (borrowed (.code xs :: k)) q) :
    Follows s (.code xs :: k) panicking ⟨.code ys :: k, panicking⟩ := by
  refine .of_live rfl (fun q hq => ?_) (fun y hy => hy) fun y hy => mem_items.mpr (.inr hy)
  rw [borrowed_code, List.mem_append] at hq
  exact hq.elim (hys q) fun hq => .inl (by simp [hq])

/-- It begins to unwind. -/
theorem Follows.raise {code' : List Instr} (hitems : items code' ⊆ items code) :
    Follows s code false ⟨code'.flatMap Instr.unwind, true⟩ where
  all q hq := .inl (hitems (by simpa using hq))
  panics h := by cases h
  live h := by cases h
  drops h := by cases h

/-- What is inside of a cell that somebody has a handle of. -/
theorem State.Reach.of_cell (hj : .handle j ∈ A) (hd : s.cells[j]? = some d)
    (hq : .handle q ∈ d.items) : s.Reach A q :=
  .inr (.inr ⟨j, d, hj, hd, hq⟩)

/-- **What code can do**, unless the process aborts. -/
theorem exec_code (hs : exec s i panicking k (.code xs) a = some t) (ht : t.aborted = false) :
    ∃ th, Acts s t i (borrowed (.code xs :: k)) th ∧ Follows s (.code xs :: k) panicking th := by
  have hown : ∀ q, .handle q ∈ xs → s.Reach (borrowed (.code xs :: k)) q :=
    fun q hq => .inl (List.mem_append_left _ hq)
  cases does_of_code hs with
  | call hperm =>
      refine ⟨_, .goto .., .of_live rfl (fun q hq => .inl ?_) (fun y hy => hy) fun y hy => ?_⟩
      · simpa [hperm.mem_iff, or_assoc] using hq
      · exact mem_items.mpr (.inr hy)
  | ret =>
      refine ⟨_, .goto .., .of_live rfl (fun q hq => .inl ?_) (fun y hy => ?_) fun y hy => ?_⟩
      · simp only [borrowed_append, borrowed_map_drop, List.nil_append] at hq
        simp [hq]
      · simp only [dropping_code] at hy
        simp [hy]
      · simp only [dropping_append, dropping_map_drop, List.mem_append] at hy
        simp only [items_code, List.mem_append]
        exact hy.imp_right fun hy => mem_items.mpr (.inr hy)
  | panic =>
      cases panicking with
      | true => cases ht
      | false => exact ⟨_, .goto .., .raise fun y hy => hy⟩
  | spawn hperm =>
      exact ⟨_, .spawn fun q hq => hown q (hperm.mem_iff.mpr (List.mem_append_left _ hq)),
        .frame fun q hq => hown q (hperm.mem_iff.mpr (List.mem_append_right _ hq))⟩
  | clone hq =>
      refine ⟨_, .modify_goto _ hq fun d hd r hr => .of_cell hq hd hr, .frame fun r hr => ?_⟩
      obtain hr | hr := List.mem_cons.mp hr
      · exact .inl (hr ▸ hq)
      · exact hown r hr
  | share hperm =>
      refine ⟨_, (Acts.goto ..).alloc fun q hq => ?_, .frame fun q hq => ?_⟩
      · simp only [Data.items, Data.outer, List.append_nil] at hq
        exact hown q (hperm.mem_iff.mpr (List.mem_append_left _ hq))
      · obtain hq | hq := List.mem_cons.mp hq
        · exact .inr (.inl (Item.handle.inj hq).ge)
        · exact hown q (hperm.mem_iff.mpr (List.mem_append_right _ hq))
  | put hd _ hperm hkept =>
      have hq := borrowed_kept_subset hperm hkept
      refine ⟨_, .modify_goto _ hq fun d hd r hr => ?_, .frame fun r hr => ?_⟩
      · simp only [Data.items, List.mem_append] at hr
        obtain (hr | hr) | hr := hr
        · exact .of_cell hq hd (List.mem_append_left _ hr)
        · exact hown r (hperm.mem_iff.mpr (List.mem_append_left _ hr))
        · exact .of_cell hq hd (List.mem_append_right _ hr)
      · exact hown r (hperm.mem_iff.mpr (List.mem_append_right _ hr))
  | @take xs taken left q d hd _ hperm hq =>
      have hrcv : ∀ r, .handle r ∈ taken ++ left → s.Reach (borrowed (.code xs :: k)) r :=
        fun r hr => .of_cell hq hd (List.mem_append_left _ (hperm.mem_iff.mpr hr))
      refine ⟨_, .modify_goto _ hq fun d hd' r hr => ?_, .frame fun r hr => ?_⟩
      · obtain hr | hr := List.mem_append.mp hr
        · exact hrcv r (List.mem_append_right _ hr)
        · exact .of_cell hq hd' (List.mem_append_right _ hr)
      · obtain hr | hr := List.mem_append.mp hr
        · exact hrcv r (List.mem_append_left _ hr)
        · exact hown r hr
  | newScope hperm hp =>
      refine ⟨_, .newScope hp fun q hq => ?_, .frame fun q hq => ?_⟩
      · obtain hq | hq := List.mem_append.mp hq
        · exact hown q (hperm.mem_iff.mpr (List.mem_append_left _ hq))
        · exact .inl (hp hq)
      · obtain hq | hq := List.mem_append.mp hq
        · exact .inr (.inl (Item.handle.inj (List.eq_of_mem_replicate hq)).ge)
        · exact hown q (hperm.mem_iff.mpr (List.mem_append_right _ hq))
  | @store xs q d hq hd =>
      have hborrowed : .handle q ∈ borrowed (.code xs :: k) := List.mem_append_left _ hq
      refine ⟨_, .modify_goto _ hborrowed fun d hd r hr => .of_cell hborrowed hd hr,
        .of_live rfl (fun r hr => .inl ?_) (fun y hy => .tail _ hy) fun y hy => ?_⟩
      · simp only [borrowed_drop, borrowed_code, List.mem_append] at hr ⊢
        exact hr.imp_left List.mem_of_mem_erase
      · simp only [dropping_drop, dropping_code, List.mem_cons] at hy
        obtain rfl | hy := hy
        · exact mem_items.mpr (.inl hborrowed)
        · exact mem_items.mpr (.inr hy)
  | @assigned xs q d hq hd =>
      cases panicking with
      | true => cases ht
      | false => exact ⟨_, .mark_goto (some q), .raise fun y hy => hy⟩
  | enter hperm =>
      refine ⟨_, .goto .., .of_live rfl (fun q hq => ?_) (fun y hy => ?_) fun y hy => ?_⟩
      · simp only [borrowed_code, borrowed_run, borrowed_append, borrowed_map_drop, List.nil_append,
          List.mem_append] at hq
        obtain hq | hq | hq := hq
        · exact hown q (hperm.mem_iff.mpr (by simp [hq]))
        · exact hown q (hperm.mem_iff.mpr (by simp [hq]))
        · exact .inl (by simp [hq])
      · simp only [dropping_code] at hy
        simp [hy]
      · simp only [dropping_code, dropping_run, dropping_append, dropping_map_drop,
          List.mem_append] at hy
        rw [mem_items]
        obtain hy | hy := hy
        · exact .inl (List.mem_append_left _ (hperm.mem_iff.mpr (by simp [hy])))
        · exact .inr hy
  | start =>
      refine ⟨_, .goto .., .frame fun q hq => hown q ?_⟩
      simpa using hq
  | complete => exact ⟨_, .goto .., .frame fun q hq => hown q (List.mem_of_mem_erase hq)⟩
  | fail =>
      cases panicking with
      | true => cases ht
      | false =>
          refine ⟨_, .goto .., .raise fun y hy => ?_⟩
          simp only [items_code, List.mem_append] at hy ⊢
          exact hy.imp_left List.mem_of_mem_erase

/-- …and what anything else does that a thread has to do. -/
theorem exec_acts (hs : exec s i panicking k x a = some t) (ht : t.aborted = false) :
    ∃ th, Acts s t i (items (x :: k)) th ∧
      ∀ q, .handle q ∈ items th.code → s.Reach (items (x :: k)) q := by
  have hcode : ∀ {xs}, x = .code xs → ∃ th, Acts s t i (items (x :: k)) th ∧
      ∀ q, .handle q ∈ items th.code → s.Reach (items (x :: k)) q := by
    rintro xs rfl
    obtain ⟨th, hacts, hfollows⟩ := exec_code hs ht
    exact ⟨th, hacts.mono (borrowed_subset_items _), hfollows.all⟩
  cases does_of_exec hs with
  | discarding =>
      cases panicking with
      | true => cases ht
      | false =>
          refine ⟨_, .goto .., fun q hq => .inl ?_⟩
          rw [items_unwind] at hq
          exact .tail _ hq
  | @dropLast q d hd hn =>
      have hq : .handle q ∈ items (.drop (.handle q) :: k) := .head _
      refine ⟨_, .modify_goto _ hq nofun, fun r hr => ?_⟩
      rw [items_append, List.mem_append, (items_destroyed d).mem_iff] at hr
      exact hr.elim (.of_cell hq hd) fun hr => .inl (.tail _ hr)
  | @drop q n d hd hn =>
      have hq : .handle q ∈ items (.drop (.handle q) :: k) := .head _
      exact ⟨_, .modify_goto _ hq fun d hd r hr => .of_cell hq hd hr, fun r hr => .inl (.tail _ hr)⟩
  | run => exact ⟨_, .goto .., fun q hq => .inl hq⟩
  | @mark p => exact ⟨_, .mark_goto p, fun q hq => .inl hq⟩
  | _ => exact hcode rfl

/-! ## Nobody else can save it -/

theorem State.Reach.reached (hA : ∀ j, .handle j ∈ A → s.Kept u (.handle j)) (h : s.Reach A q) :
    .handle q ∈ (s.holdings u).reached .handle := by
  obtain h | h | ⟨j, d, hj, hd, hq⟩ := h
  · exact .inl (hA q h)
  · exact .inl (.inl ⟨q, rfl, h⟩)
  · obtain hq | hq := mem_cell.mpr ⟨d, hd, hq⟩
    · exact .inr ⟨j, hA j hj, hq⟩
    · exact .inl (.inr (.inr ⟨j, hq⟩))

/-- The threads after a step. -/
theorem Acts.thread_cases (h : Acts s t i A th) {th' : Thread} (hj : t.threads[j]? = some th') :
    (j = i ∧ th' = th) ∨ (j ≠ i ∧ s.threads[j]? = some th') ∨
      th'.panicking = false ∧ ∀ q, .handle q ∈ items th'.code → s.Reach A q := by
  obtain ⟨new, hnew, hreach⟩ := h.threads
  rw [hnew, List.getElem?_append] at hj
  split_ifs at hj
  · rw [List.getElem?_set] at hj
    split_ifs at hj with hij
    · exact .inl ⟨hij.symm, (Option.some.inj hj).symm⟩
    · exact .inr (.inl ⟨fun heq => hij heq.symm, hj⟩)
  · exact .inr (.inr (hreach th' (List.mem_of_getElem? hj)))

theorem Acts.thread (h : Acts s t i A th) (hi : i < s.threads.length) :
    t.threads[i]? = some th := by
  obtain ⟨new, hnew, -⟩ := h.threads
  rw [hnew, List.getElem?_append_left (by simpa using hi), List.getElem?_set_self hi]

theorem Acts.thread_ne (h : Acts s t i A th) (hj : j ≠ i) {th' : Thread}
    (hth' : s.threads[j]? = some th') : t.threads[j]? = some th' := by
  obtain ⟨new, hnew, -⟩ := h.threads
  have hlt := (List.getElem?_eq_some_iff.mp hth').1
  rw [hnew, List.getElem?_append_left (by simpa using hlt), List.getElem?_set_ne hj.symm, hth']

/-- **What is lost stays lost**, whatever those do who keep something. -/
theorem Acts.lost {old : Thread} (h : Acts s t i A th) (hold : s.threads[i]? = some old)
    (hA : ∀ j, .handle j ∈ A → s.Kept u (.handle j))
    (hmine : ∀ q, .handle q ∈ borrowed th.code ∨ i ≠ u ∧ .handle q ∈ dropping th.code →
      s.Reach A q)
    (hdrops : i = u → dropping old.code ⊆ dropping th.code) (hlost : s.Lost u) : t.Lost u := by
  refine hlost.persists (fun q hq => .inl ?_) (fun j q hq => ?_) (fun hx => ?_)
    fun j hj hx => .inl ?_
  · obtain ⟨r, hr, hlen⟩ | ⟨j, th', hj, hmem⟩ | ⟨j, hj⟩ := hq
    · obtain rfl := Item.handle.inj hr
      exact .inl (.inl ⟨q, rfl, h.length.trans hlen⟩)
    · obtain ⟨rfl, rfl⟩ | ⟨hne, hsame⟩ | hnew := h.thread_cases hj
      · exact (hmine q hmem).reached hA
      · exact .inl (.inr (.inl ⟨j, th', hsame, hmem⟩))
      · refine (hnew.2 q (mem_items.mpr ?_)).reached hA
        exact hmem.imp_right And.right
    · obtain hsame | hreach := h.inside j
      · exact .inl (.inr (.inr ⟨j, hsame.2 ▸ hj⟩))
      · exact (hreach q (.inr hj)).reached hA
  · obtain hsame | hreach := h.inside j
    · change _ ∈ t.falling j at hq
      rw [hsame.1] at hq
      exact .inl hq
    · exact .inr ((hreach q (.inl hq)).reached hA)
  · obtain ⟨th', hth', hx⟩ := hx
    by_cases hui : u = i
    · subst hui
      obtain rfl := Option.some.inj (hold.symm.trans hth')
      exact ⟨th, h.thread (List.getElem?_eq_some_iff.mp hold).1, hdrops rfl hx⟩
    · exact ⟨th', h.thread_ne hui hth', hx⟩
  · have hlt : j < s.cells.length := by
      obtain ⟨d, hd, -⟩ := mem_cell.mp (.inl hx)
      exact (List.getElem?_eq_some_iff.mp hd).1
    have hsame := h.same j hlt fun hmem => hj.not_kept (hA j hmem)
    change _ ∈ t.falling j
    rwa [hsame.1]

end SendersReceivers.Detached
