import SendersReceivers.StopToken.Progress

/-!
# StopToken/Sweep — no callback is missed

The flag is set before the mutex is taken, and a registration looks at it inside of the mutex.  So
whatever the flag of a source says, a callback of a stopped source that is still in its box has a
`request_stop` coming its way: one that is yet to take the mutex, or one whose loop is not past its
slot.
-/

namespace SendersReceivers.StopToken

open Machinery

/-- Some `request_stop` on `q` is yet to visit slot `j`. -/
def Sweeps (threads : List (List Instr)) (q j : ℕ) : Prop :=
  .lockStop q ∈ threads.flatten ∨ ∃ j' ≤ j, .invoke q j' ∈ threads.flatten

/-- What is in a box of a stopped source is still to be visited, and so is what is about to get
there. -/
structure Pending (s : State) : Prop where
  stopped : ∀ q, .stopRequested q ∈ s.log → (s.sources q).stopped = true
  slots : ∀ q j id, (s.sources q).stopped = true → (s.sources q).callbacks[j]? = some id →
    s.Boxed id → Sweeps s.threads q j
  pushing : ∀ q caller f, .push q caller f ∈ s.threads.flatten →
    (s.sources q).stopped = true → .lockStop q ∈ s.threads.flatten

section

variable {s t : State} {i j q : ℕ} {c k : List Instr} {x : Instr} {l : Label}

/-- A turn of something else leaves the sweeps alone. -/
theorem Sweeps.goto (h : Sweeps s.threads q j) (hi : s.threads[i]? = some (x :: k))
    (c : List Instr) (hstop : x ≠ .lockStop q) (hinvoke : ∀ j' ≤ j, x ≠ .invoke q j') :
    Sweeps (s.goto i c k).threads q j := by
  obtain hmem | ⟨j', hj', hmem⟩ := h
  · exact .inl (mem_goto_of_mem hi c hmem hstop.symm)
  · exact .inr ⟨j', hj', mem_goto_of_mem hi c hmem (hinvoke j' hj').symm⟩

/-- The loop goes on to the next slot: the sweeps lose the one where it was. -/
theorem Sweeps.next (h : Sweeps s.threads q j) {q' j' : ℕ}
    (hi : s.threads[i]? = some (.invoke q' j' :: k)) (hc : .invoke q' (j' + 1) ∈ c)
    (hne : q' = q → j' ≠ j) : Sweeps (s.goto i c k).threads q j := by
  obtain hmem | ⟨m, hm, hmem⟩ := h
  · exact .inl (mem_goto_of_mem hi c hmem (by simp))
  · by_cases heq : Instr.invoke q m = .invoke q' j'
    · obtain ⟨rfl, rfl⟩ := Instr.invoke.inj heq
      exact .inr ⟨m + 1, Nat.lt_of_le_of_ne hm (hne rfl), mem_goto_code hi hc⟩
    · exact .inr ⟨m, hm, mem_goto_of_mem hi c hmem heq⟩

theorem not_holds_of_holders (h : s.holders q = 0) {y : Instr} (hy : y ∈ s.threads.flatten) :
    y.holds ≠ some q := by
  intro hq
  rw [State.holders, total_eq_weight_flatten, weight, List.sum_eq_zero_iff] at h
  have := h _ (List.mem_map_of_mem hy)
  rw [Instr.held, if_pos hq] at this
  cases this

/-! ## One turn -/

/-- A turn that sets no flag and appends no box. -/
theorem Pending.frame (h : Pending s)
    (hlog : ∀ q, .stopRequested q ∈ t.log → .stopRequested q ∈ s.log)
    (hsources : t.sources = s.sources)
    (hboxed : ∀ q, ∀ id ∈ (s.sources q).callbacks, t.Boxed id → s.Boxed id)
    (hsweeps : ∀ q j id, (s.sources q).callbacks[j]? = some id → t.Boxed id →
      Sweeps s.threads q j → Sweeps t.threads q j)
    (hstop : ∀ q caller f, .push q caller f ∈ s.threads.flatten →
      .lockStop q ∈ s.threads.flatten → .lockStop q ∈ t.threads.flatten)
    (hpush : ∀ q caller f, .push q caller f ∈ t.threads.flatten →
      .push q caller f ∈ s.threads.flatten ∨ (s.sources q).stopped = false) : Pending t where
  stopped q hq := by
    rw [hsources]
    exact h.stopped q (hlog q hq)
  slots q j id := by
    rw [hsources]
    intro hq hslot hbox
    exact hsweeps q j id hslot hbox
      (h.slots q j id hq hslot (hboxed q id (List.mem_of_getElem? hslot) hbox))
  pushing q caller f := by
    rw [hsources]
    intro hmem hq
    obtain hold | hnot := hpush q caller f hmem
    · exact hstop q caller f hold (h.pushing q caller f hold hq)
    · rw [hq] at hnot
      cases hnot

/-- …and is no turn of `request_stop`. -/
theorem Pending.goto (h : Pending s) (hi : s.threads[i]? = some (x :: k)) (c : List Instr)
    (hstop : ∀ q, x ≠ .lockStop q) (hinvoke : ∀ q j, x ≠ .invoke q j)
    (ht : t.threads = (s.goto i c k).threads)
    (hlog : ∀ q, .stopRequested q ∈ t.log → .stopRequested q ∈ s.log)
    (hsources : t.sources = s.sources)
    (hboxed : ∀ q, ∀ id ∈ (s.sources q).callbacks, t.Boxed id → s.Boxed id)
    (hpush : ∀ q caller f, .push q caller f ∈ c → (s.sources q).stopped = false) :
    Pending t := by
  refine h.frame hlog hsources hboxed (fun q j id _ _ hsw => ?_) (fun q caller body _ hmem => ?_)
    fun q caller body hmem => ?_
  · rw [ht]
    exact hsw.goto hi c (hstop q) fun j' _ => hinvoke q j'
  · rw [ht]
    exact mem_goto_of_mem hi c hmem (hstop q).symm
  · rw [ht] at hmem
    exact (mem_goto hi hmem).symm.imp_right (hpush q caller body)

theorem boxed_set {id id' : ℕ} (hne : s.functions[id]? ≠ none)
    (h : ∃ f, (s.functions.set id none)[id']? = some (some f)) : id' ≠ id ∧ s.Boxed id' := by
  obtain ⟨f, hf⟩ := h
  by_cases hid : id' = id
  · subst hid
    rw [List.getElem?_set_self (by simpa using hne)] at hf
    cases hf
  · rw [List.getElem?_set_ne (Ne.symm hid)] at hf
    exact ⟨hid, f, hf⟩

theorem Pending.store (h : Pending s) (hi : s.threads[i]? = some (.op (.requestStop q) :: k)) :
    Pending ((s.store q).goto i [.lockStop q] k) := by
  have hsources : ∀ q', (((s.store q).goto i [.lockStop q] k).sources q').stopped = true →
      (s.sources q').stopped = true ∨ q' = q := fun q' hq' => by
    simpa [State.goto, store_source] using hq'
  have hhere : .lockStop q ∈ ((s.store q).goto i [.lockStop q] k).threads.flatten :=
    mem_goto_code (s := s) hi (.head _)
  refine ⟨fun q' hq' => ?_, fun q' j id hq' hslot hbox => ?_, fun q' caller body hmem hq' => ?_⟩
  · obtain hold | hnew := mem_record.mp hq'
    · simp [State.goto, store_source, h.stopped q' hold]
    · simp [State.goto, store_source, Event.stopRequested.inj hnew]
  · obtain hold | rfl := hsources q' hq'
    · have hslot' : (s.sources q').callbacks[j]? = some id := by
        simpa [State.goto, store_source] using hslot
      exact (h.slots q' j id hold hslot' hbox).goto hi _ (by simp) (by simp)
    · exact .inl hhere
  · obtain hold | rfl := hsources q' hq'
    · have hmem' := (mem_goto (s := s) hi hmem).resolve_left (by simp)
      exact mem_goto_of_mem hi _ (h.pushing q' caller body hmem' hold) (by simp)
    · exact hhere

/-- A registration is no request. -/
theorem push_requested {caller : Caller} {f : Callback} {q' : ℕ}
    (h : .stopRequested q' ∈ (s.push i k q caller f).log) : .stopRequested q' ∈ s.log := by
  unfold State.push at h
  split at h
  · exact (mem_record.mp ((mem_record.mp h).resolve_right (by simp))).resolve_right (by simp)
  · exact (mem_record.mp h).resolve_right (by simp)

theorem Pending.push (h : Pending s) (hinv : Inv s) {caller : Caller} {f : Callback}
    (hi : s.threads[i]? = some (.push q caller f :: k)) : Pending (s.push i k q caller f) := by
  have hstopped : ∀ q', ((s.push i k q caller f).sources q').stopped = (s.sources q').stopped :=
    fun q' => by rw [push_source]
  refine ⟨fun q' hq' => ?_, fun q' j id hq' hslot hbox => ?_, fun q' caller' f' hmem hq' => ?_⟩
  · rw [hstopped]
    exact h.stopped q' (push_requested hq')
  · rw [hstopped] at hq'
    rw [push_threads]
    rw [push_source] at hslot
    simp only [List.getElem?_append] at hslot
    split at hslot
    · have hlt := (hinv.slot hslot).2
      have hbox' : s.Boxed id := by
        simpa [State.Boxed, List.getElem?_append_left hlt] using hbox
      exact (h.slots q' j id hq' hslot hbox').goto hi [] (by simp) (by simp)
    · split at hslot
      next heq =>
        subst heq
        exact .inl (mem_goto_of_mem hi [] (h.pushing q' caller f (mem_flatten_head hi) hq')
          (by simp))
      next => simp at hslot
  · rw [hstopped] at hq'
    rw [push_threads] at hmem ⊢
    have hmem' := (mem_goto hi hmem).resolve_left (by simp)
    exact mem_goto_of_mem hi [] (h.pushing q' caller' f' hmem' hq') (by simp)

theorem Turn.pending (h : Turn s i k x t) (hi : s.threads[i]? = some (x :: k)) (hinv : Inv s)
    (hp : Pending s) : Pending t := by
  have hnew : ∀ (b : Option Callback) (q id : ℕ), id ∈ (s.sources q).callbacks →
      (s.functions ++ [b])[id]? = s.functions[id]? := fun b q id hmem =>
    List.getElem?_append_left (hinv.below q id (.inl ((hinv.listed q id).mp hmem)))
  cases h with
  | store q => exact hp.store hi
  | @enter _ inside q hx hfree =>
      unfold Instr.enters at hx
      split at hx <;> cases hx
      · exact hp.goto hi _ (by simp) (by simp) rfl (fun _ h => h) rfl (fun _ _ _ h => h) (by simp)
      · refine hp.frame (fun _ h => h) rfl (fun _ _ _ h => h) (fun q' j id _ _ hsw => ?_)
          (fun q' caller f hmem hstop => ?_) fun q' caller f hmem => ?_
        · obtain hmem | ⟨j', hj', hmem⟩ := hsw
          · by_cases hq : q' = q
            · subst hq
              exact .inr ⟨0, Nat.zero_le _, mem_goto_code hi (.head _)⟩
            · exact .inl (mem_goto_of_mem hi _ hmem (by simpa using hq))
          · exact .inr ⟨j', hj', mem_goto_of_mem hi _ hmem (by simp)⟩
        · -- no registration is inside of the mutex that was free
          refine mem_goto_of_mem hi _ hstop fun heq => ?_
          obtain rfl := Instr.lockStop.inj heq
          exact not_holds_of_holders hfree hmem rfl
        · exact .inl ((mem_goto hi hmem).resolve_left (by simp))
      · exact hp.goto hi _ (by simp) (by simp) rfl (fun _ h => h) rfl (fun _ _ _ h => h) (by simp)
  | forget q name hx =>
      obtain rfl | rfl := hx <;>
        exact hp.goto hi [] (by simp) (by simp) rfl (fun _ h => h) rfl (fun _ _ _ h => h) (by simp)
  | detach q name id =>
      exact hp.goto hi [] (by simp) (by simp) rfl
        (fun q' hmem => (mem_record.mp hmem).resolve_right (by simp)) rfl (fun _ _ _ h => h)
        (by simp)
  | take q name n id _ =>
      exact hp.goto hi _ (by simp) (by simp) rfl (fun _ h => h) rfl (fun _ _ _ h => h) (by simp)
  | done q j hslot =>
      -- the loop is past all slots
      refine hp.frame (fun q' hmem => (mem_record.mp hmem).resolve_right (by simp)) rfl
        (fun _ _ _ h => h) (fun q' j' id hslot' _ hsw => ?_)
        (fun q' _ _ _ hstop => mem_goto_of_mem hi [] hstop (by simp))
        fun q' caller f hmem => .inl ((mem_goto hi hmem).resolve_left (by simp))
      refine hsw.goto hi [] (by simp) fun m hm heq => ?_
      obtain ⟨rfl, rfl⟩ := Instr.invoke.inj heq
      have hle := List.getElem?_eq_none_iff.mp hslot
      have hlt := (List.getElem?_eq_some_iff.mp hslot').1
      omega
  | skip q j id hslot hempty =>
      refine hp.frame (fun _ h => h) rfl (fun _ _ _ h => h) (fun q' j' id' hslot' hbox hsw => ?_)
        (fun q' _ _ _ hstop => mem_goto_of_mem hi _ hstop (by simp))
        fun q' caller f hmem => .inl ((mem_goto hi hmem).resolve_left (by simp))
      refine hsw.next hi (.head _) fun hq hj => ?_
      subst hq hj
      obtain rfl := Option.some.inj (hslot.symm.trans hslot')
      obtain ⟨f, hf⟩ := hbox
      cases hempty.symm.trans hf
  | run q j id f hslot hf =>
      have hne : s.functions[id]? ≠ none := by simp [hf]
      refine hp.frame (fun q' hmem => (mem_record.mp hmem).resolve_right (by simp)) rfl
        (fun _ _ _ hbox => (boxed_set hne hbox).2) (fun q' j' id' hslot' hbox hsw => ?_)
        (fun q' _ _ _ hstop => mem_goto_of_mem hi _ hstop (by simp))
        fun q' caller f hmem => .inl ((mem_goto hi hmem).resolve_left (by simp [code]))
      refine hsw.next hi (List.mem_append_right _ (.head _)) fun hq hj => ?_
      subst hq hj
      exact (boxed_set hne hbox).1 (Option.some.inj (hslot'.symm.trans hslot))
  | refuse q caller f _ =>
      refine hp.goto hi (code (if caller.runsErr then f.body else f.drops)) (by simp) (by simp) rfl
        (fun q' hmem => (mem_record.mp hmem).resolve_right (by simp)) rfl
        (fun q' id hmem hbox => ?_) (by simp [code])
      obtain ⟨g, hg⟩ := hbox
      exact ⟨g, (hnew none q' id hmem).symm.trans hg⟩
  | accept q caller f hstopped =>
      refine hp.goto hi _ (by simp) (by simp) rfl (fun _ h => h) rfl (fun _ _ _ h => h)
        fun q' caller' f' hmem => ?_
      obtain ⟨rfl, -⟩ := Instr.push.inj (List.mem_singleton.mp hmem)
      exact hstopped
  | push q caller f => exact hp.push hinv hi
  | clear q n id hslot =>
      have hne : s.functions[id]? ≠ none := by simpa using (hinv.slot hslot).2
      exact hp.goto hi (code (s.boxDrops id) ++ [.cleared q id]) (by simp) (by simp) rfl
        (fun q' hmem => (mem_record.mp hmem).resolve_right (by simp)) rfl
        (fun _ _ _ hbox => (boxed_set hne hbox).2) (by simp [code])
  | cleared q id =>
      exact hp.goto hi [] (by simp) (by simp) rfl
        (fun q' hmem => (mem_record.mp hmem).resolve_right (by simp)) rfl (fun _ _ _ h => h)
        (by simp)

end

/-! ## Whole runs -/

/-- What holds in every run without panics, with the sweeps that are to come. -/
structure Steady (s : State) : Prop where
  peace : Peace s
  pending : Pending s

section

variable {s t : State} {l : Label}

theorem Steady.step (h : Steady s) (hl : Peaceful s l) (hs : StopToken.step s l = some t) :
    Steady t := by
  refine ⟨h.peace.step hl hs, ?_⟩
  obtain ⟨o, -, rfl⟩ | ⟨i, x, k, -, hi, hturn⟩ :=
    h.peace.calm.step_cases h.peace.inv hl hs
  · have hold : ∀ y ∈ s.threads.flatten, y ∈ (s.threads ++ [[Instr.op o]]).flatten := fun y hy =>
      by rw [List.flatten_append]; exact List.mem_append_left _ hy
    refine h.pending.frame (fun _ h => h) rfl (fun _ _ _ h => h) (fun q j id _ _ hsw => ?_)
      (fun q _ _ _ => hold _) fun q caller f hmem => .inl ?_
    · exact hsw.imp (hold _) fun ⟨j', hj', hmem⟩ => ⟨j', hj', hold _ hmem⟩
    · simpa using hmem
  · exact hturn.pending hi h.peace.inv h.pending

theorem Steady.inductive : machine.Inductive Peaceful Steady where
  init := ⟨Peace.inductive.init, ⟨by simp [machine, fresh], by simp [machine, fresh],
    by simp [machine, fresh]⟩⟩
  step _ _ _ h hl hs := h.step hl hs

/-- No thread has anything left to do. -/
def Quiet (s : State) : Prop := ∀ c ∈ s.threads, c = []

theorem Quiet.not_mem (h : Quiet s) (y : Instr) : y ∉ s.threads.flatten := by
  intro hy
  obtain ⟨c, hc, hyc⟩ := List.mem_flatten.mp hy
  rw [h c hc] at hyc
  cases hyc

/-- When all is quiet, the boxes of a stopped source are empty. -/
theorem Steady.not_boxed (h : Steady s) (hquiet : Quiet s) {q id : ℕ}
    (hq : (s.sources q).stopped = true) (hmem : id ∈ (s.sources q).callbacks) : ¬s.Boxed id := by
  intro hbox
  obtain ⟨j, hj⟩ := List.mem_iff_getElem?.mp hmem
  obtain hmem | ⟨j', -, hmem⟩ := h.pending.slots q j id hq hj hbox
  · exact hquiet.not_mem _ hmem
  · exact hquiet.not_mem _ hmem

/-- **No callback is missed.** -/
theorem Steady.invoked (h : Steady s) (hquiet : Quiet s) {q id : ℕ}
    (hstop : .stopRequested q ∈ s.log) (hreg : .registered q id ∈ s.log)
    (hdrop : .dropped q id ∉ s.log) : s.log.count (.invoked q id) = 1 := by
  have hinv := h.peace.inv
  have hnot := h.not_boxed hquiet (h.pending.stopped q hstop) ((hinv.listed q id).mpr hreg)
  have hmem := ((hinv.kept q id hreg).resolve_left hnot).resolve_right hdrop
  exact Nat.le_antisymm (hinv.log.count_le q id) (List.count_pos_iff.mpr hmem)

end

end SendersReceivers.StopToken
