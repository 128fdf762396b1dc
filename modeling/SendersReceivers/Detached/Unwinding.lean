import SendersReceivers.Detached.Owners

/-!
# Detached/Unwinding — what is lost stays lost

A thread that unwinds as the only owner of a `DiscardingReceiver` comes to its destructor, which
panics, and the process aborts, whatever the others do.  As long as others own it, too, unwinding
goes on, and does not make the thread the only owner. -/

namespace SendersReceivers.Detached

open Machinery

variable {s t : State} {i j q : ℕ} {th : Thread} {d : Data} {p : ScopeId} {x : Instr}
  {k code : List Instr} {panicking : Bool} {a : Action} {given : List Item}

theorem goto_thread (hi : i < s.threads.length) : (s.goto i th).threads[i]? = some th :=
  List.getElem?_set_self hi

/-! ## The thread itself makes nothing worse -/

theorem borrowed_destroyed {y : Item} (h : y ∈ borrowed d.destroyed) : y ∈ d.waiting := by
  obtain ⟨outer_state | _, _, a_thread_panicked, shared_value, rcv⟩ := d
  · cases a_thread_panicked
    · cases shared_value
      · simp [Data.destroyed, Data.forward] at h
      · simpa [Data.destroyed, Data.forward, Data.waiting] using h
    · simp [Data.destroyed] at h
  · simp [Data.destroyed] at h

theorem falling_subset_destroyed (d : Data) : d.falling ⊆ dropping d.destroyed := by
  obtain ⟨outer_state | _, _, a_thread_panicked, shared_value, rcv⟩ := d
  · cases a_thread_panicked <;> cases shared_value <;>
      simp [Data.destroyed, Data.forward, Data.falling, Data.items, Data.outer]
  · cases shared_value <;> simp [Data.destroyed, Data.falling, Data.items, Data.outer]

theorem dropping_destroyed (h : d.shared_value = none) {y : Item} (hy : y ∈ dropping d.destroyed) :
    y ∈ d.falling := by
  have hitems := (items_destroyed d).mem_iff.mp (mem_items.mpr (.inr hy))
  unfold Data.falling
  rwa [h]

/-- A cell of which there is no handle. -/
theorem not_mem_of_count (h : s.count q = 0) :
    (∀ (j : ℕ) (th : Thread), s.threads[j]? = some th → Item.handle q ∉ items th.code) ∧
      ∀ (j : ℕ) (d : Data), s.cells[j]? = some d → Item.handle q ∉ d.items := by
  have hadd := Nat.add_eq_zero_iff.mp h
  refine ⟨fun j th hth hmem => ?_, fun j d hd hmem => ?_⟩
  · have := le_weight (fun th => (items th.code).count (.handle q)) hth
    have := List.count_pos_iff.mpr hmem
    omega
  · have := le_weight (fun d => d.items.count (.handle q)) hd
    have := List.count_pos_iff.mpr hmem
    omega

/-- A thread has all handles of a cell, but for those in `k`: nobody else has one. -/
theorem Counted.only (h : Counted s) (hth : s.threads[i]? = some th) (hd : s.cells[q]? = some d)
    (hcount : (items th.code).count (.handle q) = (items k).count (.handle q) + d.strong) :
    Item.handle q ∉ items k ∧
      (∀ (j : ℕ) (th' : Thread), j ≠ i → s.threads[j]? = some th' →
        Item.handle q ∉ items th'.code) ∧
        ∀ j, Item.handle q ∉ s.falling j ∧ Item.handle q ∉ s.waiting j := by
  have hi : i < s.threads.length := (List.getElem?_eq_some_iff.mp hth).1
  have hzero : (s.goto i ⟨k, true⟩).count q = 0 := by
    have hgoto := count_goto hth ⟨k, true⟩ (q := q)
    have hstrong : s.strong q = d.strong := by simp [State.strong, hd]
    have := h.strong q
    change _ = _ + (items k).count _ at hgoto
    omega
  obtain ⟨hthreads, hcells⟩ := not_mem_of_count hzero
  refine ⟨hthreads i _ (goto_thread hi), fun j th' hji hj => ?_, fun j => not_or.mp fun hj => ?_⟩
  · exact hthreads j th' ((List.getElem?_set_ne hji.symm).trans hj)
  · obtain ⟨e, he, hmem⟩ := mem_cell.mp hj
    exact hcells j e he hmem

/-- **The last handle**: the cell goes with the thread that is about to drop it. -/
theorem Counted.falls (h : Counted s) (hth : s.threads[i]? = some ⟨.drop (.handle q) :: k, true⟩)
    (hd : s.cells[q]? = some d) (hn : d.strong = 1) : (s.holdings i).Falls .handle q := by
  obtain ⟨hmine, hthreads, hcells⟩ := h.only hth hd (k := k) (by simp [hn])
  refine .intro ?_ fun j hj => absurd hj (hcells j).1
  rintro (⟨r, hr, hlen⟩ | ⟨j, th, hj, hmem⟩ | ⟨j, hj⟩)
  · obtain rfl := Item.handle.inj hr
    exact absurd (List.getElem?_eq_some_iff.mp hd).1 hlen.not_gt
  · by_cases hji : j = i
    · subst hji
      obtain rfl := Option.some.inj (hth.symm.trans hj)
      exact hmine (mem_items.mpr (.inl (hmem.resolve_right fun hne => hne.1 rfl)))
    · exact hthreads j th hji hj (mem_items.mpr (hmem.imp_right And.right))
  · exact (hcells j).2 hj

/-- Unwinding drops the last handle of a cell. -/
def State.dropLast (s : State) (i q : ℕ) (d : Data) (k : List Instr) : State :=
  (s.modify q fun _ => .freed).goto i ⟨d.destroyed ++ k, true⟩

/-- Unwinding drops something that is not the last of its kind, or leaves `ScopeData::run`. -/
structure Passes (s t : State) (i : ℕ) (x : Instr) (k : List Instr) : Prop where
  threads : t.threads = s.threads.set i ⟨k, true⟩
  length : t.cells.length = s.cells.length
  same : ∀ j, Same s t j
  owned : x.owned = []
  rest : x ≠ .drop .discarding

/-- **What unwinding does**, unless the process aborts. -/
theorem exec_unwinds (hs : exec s i true k x .proceed = some t) (ht : t.aborted = false) :
    Passes s t i x k ∨ ∃ q d, x = .drop (.handle q) ∧ s.cells[q]? = some d ∧ d.strong = 1 ∧
      t = s.dropLast i q d k := by
  cases does_of_exec hs with
  | discarding => cases ht
  | dropLast hd hn => exact .inr ⟨_, _, rfl, hd, hn, rfl⟩
  | @drop q n d hd hn =>
      have hsame :=
        Same.modify (s := s) (fun d => { d with strong := n + 1 }) (fun _ => ⟨rfl, rfl⟩) q
      exact .inl ⟨rfl, List.length_modify .., hsame, rfl, by simp⟩
  | run => exact .inl ⟨rfl, rfl, fun _ => ⟨rfl, rfl⟩, rfl, by simp⟩
  | @mark p =>
      refine .inl ⟨?_, ?_, Same.mark p, rfl, by simp⟩
      · cases p <;> rfl
      · cases p
        · rfl
        · exact List.length_modify ..

theorem Passes.thread (h : Passes s t i x k) (hth : s.threads[i]? = some ⟨x :: k, true⟩) :
    t.threads[i]? = some ⟨k, true⟩ := by
  rw [h.threads, List.getElem?_set_self (List.getElem?_eq_some_iff.mp hth).1]

/-- Somebody else keeps the same. -/
theorem Passes.kept_iff (h : Passes s t i x k) (hth : s.threads[i]? = some ⟨x :: k, true⟩)
    (y : Item) : t.Kept i y ↔ s.Kept i y := by
  have hborrowed : borrowed (x :: k) = borrowed k := by
    change x.owned ++ _ = _
    rw [h.owned, List.nil_append]
    rfl
  have hthreads : ∀ (j : ℕ) (th : Thread), j ≠ i → (t.threads[j]? = some th ↔
      s.threads[j]? = some th) := fun j th hne => by
    rw [h.threads, List.getElem?_set_ne hne.symm]
  unfold State.Kept
  rw [h.length]
  refine or_congr_right (or_congr ⟨?_, ?_⟩ (exists_congr fun j => by rw [(h.same j).2]))
  · rintro ⟨j, th, hj, hmem⟩
    by_cases hji : j = i
    · subst hji
      obtain rfl := Option.some.inj ((h.thread hth).symm.trans hj)
      exact ⟨j, _, hth, hmem.imp (fun hmem => hborrowed ▸ hmem) fun hne => absurd rfl hne.1⟩
    · exact ⟨j, th, (hthreads j th hji).mp hj, hmem⟩
  · rintro ⟨j, th, hj, hmem⟩
    by_cases hji : j = i
    · subst hji
      obtain rfl := Option.some.inj (hth.symm.trans hj)
      refine ⟨j, _, h.thread hth, hmem.imp (fun hmem => ?_) fun hne => absurd rfl hne.1⟩
      rwa [hborrowed] at hmem
    · exact ⟨j, th, (hthreads j th hji).mpr hj, hmem⟩

theorem Passes.lost_iff (h : Passes s t i x k) (hth : s.threads[i]? = some ⟨x :: k, true⟩) :
    t.Lost i ↔ s.Lost i := by
  have hinside : ∀ j, (t.holdings i).inside j = (s.holdings i).inside j := fun j => by
    change {y | y ∈ t.falling j} = {y | y ∈ s.falling j}
    rw [(h.same j).1]
  have hdropping : .discarding ∈ dropping (x :: k) ↔ .discarding ∈ dropping k := by
    have hrest := h.rest
    cases x with
    | drop y =>
        rw [dropping_drop, List.mem_cons]
        exact or_iff_right fun heq => hrest (heq ▸ rfl)
    | code _ | run _ | mark _ => rfl
  constructor
  · intro hlost
    change (s.holdings i).Lost .handle .discarding
    refine hlost.reflects (fun q hq => (h.kept_iff hth _).mpr hq) (fun j => (hinside j).subset)
      (fun j q hq => .inl ((hinside j).symm.subset hq)) fun ⟨th, hi, hx⟩ => .inl ⟨_, hth, ?_⟩
    obtain rfl := Option.some.inj ((h.thread hth).symm.trans hi)
    exact hdropping.mpr hx
  · intro hlost
    change (t.holdings i).Lost .handle .discarding
    refine hlost.persists (fun q hq => .inl (.inl ((h.kept_iff hth _).mp hq)))
      (fun j q hq => .inl ((hinside j).subset hq)) (fun ⟨th, hi, hx⟩ => ⟨_, h.thread hth, ?_⟩)
      fun j _ hx => .inl ((hinside j).symm.subset hx)
    obtain rfl := Option.some.inj (hth.symm.trans hi)
    exact hdropping.mp hx

section DropLast

theorem dropLast_same (hjq : j ≠ q) : Same s (s.dropLast i q d k) j := .of_cell (by
  change (s.cells.modify q _)[j]? = _
  simp [hjq.symm])

theorem dropLast_freed :
    (s.dropLast i q d k).falling q = [] ∧ (s.dropLast i q d k).waiting q = [] := by
  unfold State.falling State.waiting
  change ((s.cells.modify q _)[q]?.map _).getD _ = _ ∧ ((s.cells.modify q _)[q]?.map _).getD _ = _
  rw [List.getElem?_modify]
  cases s.cells[q]? <;> simp [Data.freed, Data.falling, Data.waiting, Data.items, Data.outer]

theorem dropLast_thread (hth : s.threads[i]? = some th) :
    (s.dropLast i q d k).threads[i]? = some ⟨d.destroyed ++ k, true⟩ :=
  List.getElem?_set_self (List.getElem?_eq_some_iff.mp hth).1

theorem dropLast_thread_ne (hji : j ≠ i) : (s.dropLast i q d k).threads[j]? = s.threads[j]? :=
  List.getElem?_set_ne hji.symm

variable (hth : s.threads[i]? = some ⟨.drop (.handle q) :: k, true⟩) (hd : s.cells[q]? = some d)

include hth hd

/-- Nobody else gets anything new by it… -/
theorem kept_of_dropLast {y : Item} (h : (s.dropLast i q d k).Kept i y) : s.Kept i y := by
  obtain ⟨r, hr, hlen⟩ | ⟨j, th, hj, hmem⟩ | ⟨j, hj⟩ := h
  · exact .inl ⟨r, hr, (List.length_modify ..).ge.trans hlen⟩
  · by_cases hji : j = i
    · subst hji
      obtain rfl := Option.some.inj ((dropLast_thread hth).symm.trans hj)
      obtain hmem | hmem := hmem
      · rw [borrowed_append, List.mem_append] at hmem
        obtain hmem | hmem := hmem
        · refine .inr (.inr ⟨q, ?_⟩)
          simpa [State.waiting, hd] using borrowed_destroyed hmem
        · exact .inr (.inl ⟨j, _, hth, .inl hmem⟩)
      · exact absurd rfl hmem.1
    · exact .inr (.inl ⟨j, th, (dropLast_thread_ne hji).symm.trans hj, hmem⟩)
  · by_cases hjq : j = q
    · subst hjq
      rw [dropLast_freed.2] at hj
      cases hj
    · exact .inr (.inr ⟨j, (dropLast_same hjq).2 ▸ hj⟩)

/-- …and keeps what it has, if no signal was stored. -/
theorem kept_dropLast (hsignal : d.shared_value = none) {y : Item} (h : s.Kept i y) :
    (s.dropLast i q d k).Kept i y := by
  obtain ⟨r, hr, hlen⟩ | ⟨j, th, hj, hmem⟩ | ⟨j, hj⟩ := h
  · exact .inl ⟨r, hr, (List.length_modify ..).le.trans hlen⟩
  · by_cases hji : j = i
    · subst hji
      obtain rfl := Option.some.inj (hth.symm.trans hj)
      refine .inr (.inl ⟨j, _, dropLast_thread hth, hmem.imp (fun hmem => ?_) fun hne => ?_⟩)
      · rw [borrowed_append]
        exact List.mem_append_right _ hmem
      · exact absurd rfl hne.1
    · exact .inr (.inl ⟨j, th, (dropLast_thread_ne hji).trans hj, hmem⟩)
  · by_cases hjq : j = q
    · subst hjq
      simp [State.waiting, hd, Data.waiting, hsignal] at hj
    · exact .inr (.inr ⟨j, (dropLast_same hjq).2.symm ▸ hj⟩)

theorem Lost.dropLast (h : s.Lost i) : (s.dropLast i q d k).Lost i := by
  have hinside : ∀ j y, y ∈ (s.dropLast i q d k).falling j → y ∈ s.falling j := fun j y hy => by
    by_cases hjq : j = q
    · subst hjq
      rw [dropLast_freed.1] at hy
      cases hy
    · exact (dropLast_same hjq).1 ▸ hy
  change ((s.dropLast i q d k).holdings i).Lost .handle .discarding
  refine h.persists (fun r hr => .inl (.inl (kept_of_dropLast hth hd hr)))
    (fun j r hr => .inl (hinside j _ hr)) (fun ⟨th, hi, hx⟩ => ⟨_, dropLast_thread hth, ?_⟩)
    fun j hj hx => ?_
  · obtain rfl := Option.some.inj (hth.symm.trans hi)
    rw [dropping_append]
    exact List.mem_append_right _ (by simpa using hx)
  · by_cases hjq : j = q
    · subst hjq
      refine .inr ⟨_, dropLast_thread hth, ?_⟩
      rw [dropping_append]
      refine List.mem_append_left _ (falling_subset_destroyed d ?_)
      change _ ∈ s.falling j at hx
      simpa [State.falling, hd] using hx
    · refine .inl ?_
      change _ ∈ State.falling _ j
      rwa [(dropLast_same hjq).1]

/-- **Only what fell anyway is dropped**, if no signal was stored. -/
theorem Counted.lost_of_dropLast (hc : Counted s) (hn : d.strong = 1)
    (hsignal : d.shared_value = none)
    (h : (s.dropLast i q d k).Lost i) : s.Lost i := by
  have hfalls := hc.falls hth hd hn
  change (s.holdings i).Lost .handle .discarding
  refine h.reflects (fun r hr => kept_dropLast hth hd hsignal hr) (fun j y hy => ?_)
    (fun j r hr => ?_) fun ⟨th, hi, hx⟩ => ?_
  · by_cases hjq : j = q
    · subst hjq
      change y ∈ State.falling _ j at hy
      rw [dropLast_freed.1] at hy
      cases hy
    · change y ∈ State.falling _ j at hy
      rwa [(dropLast_same hjq).1] at hy
  · by_cases hjq : j = q
    · exact .inr (hjq ▸ hfalls)
    · refine .inl ?_
      change _ ∈ State.falling _ j
      rwa [(dropLast_same hjq).1]
  · obtain rfl := Option.some.inj ((dropLast_thread hth).symm.trans hi)
    rw [dropping_append, List.mem_append] at hx
    obtain hx | hx := hx
    · refine .inr ⟨q, hfalls, ?_⟩
      change _ ∈ s.falling q
      simpa [State.falling, hd] using dropping_destroyed hsignal hx
    · exact .inl ⟨_, hth, .tail _ hx⟩

end DropLast

/-! ## The process will abort -/

/-- The process is lost, or will be. -/
def State.Bad (s : State) : Prop := s.aborted = true ∨ ∃ u, s.Unwinding u ∧ s.Lost u

/-- A step that happens. -/
theorem step_eq {l : Label} (hs : step s l = some t) :
    s.aborted = false ∧ ∃ x k panicking, s.threads[l.thread]? = some ⟨x :: k, panicking⟩ ∧
      exec s l.thread panicking k x l.action = some t := by
  unfold step at hs
  split_ifs at hs with haborted
  split at hs
  next x k panicking hth => exact ⟨by simpa using haborted, x, k, panicking, hth, hs⟩
  next => cases hs

/-- Only functions do anything but to proceed. -/
theorem code_or_proceed (hs : exec s i panicking k x a = some t) :
    (∃ xs, x = .code xs) ∨ a = .proceed := by
  cases does_of_exec hs <;> first | exact .inl ⟨_, rfl⟩ | exact .inr rfl

theorem State.Bad.step (h : s.Bad) {l : Label} (hs : step s l = some t) : t.Bad := by
  obtain ⟨haborted, x, k, panicking, hth, hs⟩ := step_eq hs
  obtain h | ⟨u, ⟨th, hu, hpanicking⟩, hlost⟩ := h
  · rw [haborted] at h
    cases h
  cases ht : t.aborted with
  | true => exact .inl ht
  | false =>
      refine .inr ⟨u, ?_⟩
      by_cases hul : u = l.thread
      · subst hul
        obtain rfl := Option.some.inj (hth.symm.trans hu)
        obtain rfl : panicking = true := hpanicking
        have hlt : l.thread < s.threads.length := (List.getElem?_eq_some_iff.mp hth).1
        obtain ⟨xs, rfl⟩ | ha := code_or_proceed hs
        · obtain ⟨th', hacts, hfollows⟩ := exec_code hs ht
          have hpanics : th'.panicking = true := hfollows.panics rfl
          refine ⟨⟨th', hacts.thread hlt, hpanics⟩, hacts.lost hth (fun j hj => ?_) (fun q hq => ?_)
            (fun _ => hfollows.drops hpanics) hlost⟩
          · exact .inr (.inl ⟨_, _, hth, .inl hj⟩)
          · exact hfollows.live hpanics q (hq.resolve_right fun hne => hne.1 rfl)
        · rw [ha] at hs
          obtain hpasses | ⟨q, d, rfl, hd, hn, rfl⟩ := exec_unwinds hs ht
          · exact ⟨⟨_, hpasses.thread hth, rfl⟩, (hpasses.lost_iff hth).mpr hlost⟩
          · exact ⟨⟨_, dropLast_thread hth, rfl⟩, Lost.dropLast hth hd hlost⟩
      · obtain ⟨th', hacts, hreach⟩ := exec_acts hs ht
        refine ⟨⟨th, hacts.thread_ne hul hu, hpanicking⟩, ?_⟩
        refine hacts.lost hth (fun j hj => ?_) (fun q hq => hreach q (mem_items.mpr ?_))
          (fun heq => absurd heq.symm hul) hlost
        · refine .inr (.inl ⟨l.thread, _, hth, ?_⟩)
          exact (mem_items.mp hj).imp_right fun hj => ⟨Ne.symm hul, hj⟩
        · exact hq.imp_right And.right

section Aborted

@[simp] theorem aborted_alloc : (s.alloc d).aborted = s.aborted := rfl

@[simp] theorem aborted_retain : (s.retain p).aborted = s.aborted := by cases p <;> rfl

@[simp] theorem aborted_mark : (s.mark p).aborted = s.aborted := by cases p <;> rfl

@[simp] theorem aborted_raise : (s.raise i panicking code).aborted = (panicking || s.aborted) := by
  unfold State.raise
  cases panicking <;> rfl

end Aborted

/-- **A panic**: what the thread has left then, if `x` is what it does next.  A function panics, or
the destructor of a `DiscardingReceiver`. -/
inductive Panics (s : State) (k : List Instr) : Instr → Action → List Instr → Prop
  | panic {xs : List Item} : Panics s k (.code xs) .panic (.code xs :: k)
  | fail {xs : List Item} : Panics s k (.code xs) .fail (.code (xs.erase .discarding) :: k)
  | store {xs : List Item} {q : ℕ} {d : Data} : s.cells[q]? = some d → d.shared_value = some () →
      Panics s k (.code xs) (.store q) (.code xs :: k)
  | drop : Panics s k (.drop .discarding) .proceed k

theorem exec_panics (h : Panics s k x a code) (hs : exec s i panicking k x a = some t) :
    ∃ p, t = (s.mark p).raise i panicking code := by
  have hdoes := does_of_exec hs
  cases h with
  | panic | fail | drop =>
      cases hdoes
      exact ⟨none, rfl⟩
  | @store xs q d hd hsome =>
      cases hdoes with
      | store _ hd' _ hnone =>
          obtain rfl := Option.some.inj (hd.symm.trans hd')
          cases hnone.symm.trans hsome
      | assigned => exact ⟨some q, rfl⟩

/-- Without a panic, the thread goes on as before. -/
theorem exec_calm (hs : exec s i panicking k x a = some t) (h : ∀ code, ¬Panics s k x a code)
    (hi : i < s.threads.length) :
    t.aborted = s.aborted ∧ ∃ th, t.threads[i]? = some th ∧ th.panicking = panicking := by
  have hgoes : ∀ {s' : State} (code : List Instr), s'.aborted = s.aborted → i < s'.threads.length →
      (s'.goto i ⟨code, panicking⟩).aborted = s.aborted ∧
        ∃ th, (s'.goto i ⟨code, panicking⟩).threads[i]? = some th ∧ th.panicking = panicking :=
    fun code haborted hi => ⟨haborted, _, goto_thread hi, rfl⟩
  cases does_of_exec hs with
  | panic => exact absurd .panic (h _)
  | fail => exact absurd .fail (h _)
  | discarding => exact absurd .drop (h _)
  | assigned _ hd _ hsome => exact absurd (.store hd hsome) (h _)
  | @spawn xs given kept =>
      refine ⟨rfl, ⟨.code kept :: k, panicking⟩, ?_, rfl⟩
      change (List.set _ _ _ ++ [_])[i]? = _
      rw [List.getElem?_append_left (by simpa using hi), List.getElem?_set_self hi]
  | @newScope xs given kept p => exact hgoes _ (by simp) (by cases p <;> exact hi)
  | @mark p => exact hgoes _ (by simp) (by cases p <;> exact hi)
  | _ => exact hgoes _ rfl hi

end SendersReceivers.Detached
