import SendersReceivers.Detached.Keeping

/-!
# Detached/Panics — which panics are survived

A panic is survived if the frames of the thread are not the only owners of a `DiscardingReceiver`,
and do not become so while it unwinds.  Only a few steps can do that: another thread drops a handle,
or a function that a destructor has called lets go of something. -/

namespace SendersReceivers.Detached

open Machinery

variable {s t : State} {i j u q : ℕ} {th : Thread} {d : Data} {p : ScopeId} {x : Instr}
  {k code : List Instr} {panicking : Bool} {a : Action}

/-! ## The owners that a thread has -/

/-- What goes if thread `i` unwinds, and has `code` left then. -/
def State.frames (s : State) (i : ℕ) (code : List Instr) : Holdings ℕ Item where
  dropped := {y | y ∈ items code}
  kept := {y | (∃ q, y = .handle q ∧ s.cells.length ≤ q) ∨
    (∃ (j : ℕ) (th : Thread), j ≠ i ∧ s.threads[j]? = some th ∧ y ∈ items th.code) ∨
      ∃ j, y ∈ s.waiting j}
  inside j := {y | y ∈ s.falling j}

/-- **What thread `i` has is the only owner of a `DiscardingReceiver`.** -/
def State.OnlyOwner (s : State) (i : ℕ) (code : List Instr) : Prop :=
  (s.frames i code).Lost .handle .discarding

/-- A function whose frame has the receiver owns it… -/
theorem State.OnlyOwner.of_mem (h : .discarding ∈ items code) : s.OnlyOwner i code := .inl h

/-- …and so does one that has all handles of a nested scope with the receiver. -/
theorem State.OnlyOwner.of_scope (hc : Counted s) (hth : s.threads[i]? = some th)
    (hd : s.cells[q]? = some d) (hcount : (items th.code).count (.handle q) = d.strong)
    (hsignal : d.shared_value = none) (h : .discarding ∈ d.rcv) : s.OnlyOwner i code := by
  obtain ⟨-, hthreads, hcells⟩ := hc.only hth hd (k := []) (by simp [hcount])
  refine .inr ⟨q, .intro ?_ fun j hj => absurd hj (hcells j).1, ?_⟩
  · rintro (⟨r, hr, hlen⟩ | ⟨j, th', hne, hj, hmem⟩ | ⟨j, hj⟩)
    · obtain rfl := Item.handle.inj hr
      exact absurd (List.getElem?_eq_some_iff.mp hd).1 hlen.not_gt
    · exact hthreads j th' hne hj hmem
    · exact (hcells j).2 hj
  · change _ ∈ s.falling q
    simp [State.falling, hd, Data.falling, hsignal, Data.items, h]

theorem borrowed_unwind (code : List Instr) : borrowed (code.flatMap Instr.unwind) = [] := by
  induction code with
  | nil => rfl
  | cons x code ih =>
      rw [List.flatMap_cons, borrowed_append, ih, List.append_nil]
      cases x with
      | code xs => exact borrowed_map_drop xs
      | drop y | run p | mark p => rfl

theorem mem_dropping_unwind {y : Item} :
    y ∈ dropping (code.flatMap Instr.unwind) ↔ y ∈ items code := by
  rw [← items_unwind code, mem_items, borrowed_unwind]
  simp

/-- What a thread sees that has begun to unwind. -/
theorem holdings_unwound (hi : i < s.threads.length) :
    (s.goto i ⟨code.flatMap Instr.unwind, true⟩).holdings i = s.frames i code := by
  have hthread : (s.goto i ⟨code.flatMap Instr.unwind, true⟩).threads[i]? =
      some ⟨code.flatMap Instr.unwind, true⟩ := goto_thread hi
  have hothers : ∀ {j : ℕ}, j ≠ i →
      (s.goto i ⟨code.flatMap Instr.unwind, true⟩).threads[j]? = s.threads[j]? :=
    fun hji => List.getElem?_set_ne hji.symm
  unfold State.holdings State.frames State.Kept
  congr 1
  · ext y
    refine ⟨?_, fun hy => ⟨_, hthread, mem_dropping_unwind.mpr hy⟩⟩
    rintro ⟨th, hth, hy⟩
    obtain rfl := Option.some.inj (hthread.symm.trans hth)
    exact mem_dropping_unwind.mp hy
  · ext y
    refine or_congr_right (or_congr ⟨?_, ?_⟩ Iff.rfl)
    · rintro ⟨j, th, hj, hy⟩
      by_cases hji : j = i
      · subst hji
        obtain rfl := Option.some.inj (hthread.symm.trans hj)
        rw [borrowed_unwind] at hy
        exact hy.elim nofun fun hne => absurd rfl hne.1
      · exact ⟨j, th, hji, (hothers hji).symm.trans hj, mem_items.mpr (hy.imp_right And.right)⟩
    · rintro ⟨j, th, hji, hj, hy⟩
      exact ⟨j, th, (hothers hji).trans hj, (mem_items.mp hy).imp_right fun hy => ⟨hji, hy⟩⟩

/-! ## Which steps spare the process -/

/-- A thread that unwinds lets go of something: a function that a destructor has called returns, or
drops the handle of a scope that it has stored a signal in, or has entered; and the destructor
itself does so when it calls one. -/
inductive LetsGo (s : State) (i : ℕ) (k : List Instr) : Instr → Action → State → Prop
  | ret {xs : List Item} : LetsGo s i k (.code xs) .ret (s.goto i ⟨xs.map .drop ++ k, true⟩)
  | store {xs : List Item} {q : ℕ} : LetsGo s i k (.code xs) (.store q)
      ((s.modify q fun d => { d with shared_value := some () }).goto i
        ⟨.drop (.handle q) :: .code (xs.erase (.handle q)) :: k, true⟩)
  | enter {xs : List Item} {p : ScopeId} {given kept : List Item} :
      LetsGo s i k (.code xs) (.enter p given kept) (s.goto i
        ⟨.code given :: .run p :: ((handles p).map .drop ++ .code kept :: k), true⟩)
  | forward {q : ℕ} {d : Data} : s.cells[q]? = some d → d.strong = 1 → d.shared_value = some () →
      LetsGo s i k (.drop (.handle q)) .proceed (s.dropLast i q d k)

/-- **The step spares the process.** -/
structure Spares (s : State) (l : Label) : Prop where
  /-- functions that destructors call do not panic while the thread unwinds -/
  calm : ∀ xs k code, s.threads[l.thread]? = some ⟨.code xs :: k, true⟩ →
    ¬Panics s k (.code xs) l.action code
  /-- what a thread has that begins to unwind is not the only owner -/
  begins : ∀ x k code, s.threads[l.thread]? = some ⟨x :: k, false⟩ →
    Panics s k x l.action code → ¬s.OnlyOwner l.thread code
  /-- nor is it after another thread has dropped a handle -/
  lets : ∀ q k panicking, s.threads[l.thread]? = some ⟨.drop (.handle q) :: k, panicking⟩ →
    s.strong q ≠ 1 → ∀ u ≠ l.thread, s.Unwinding u → ¬(s.goto l.thread ⟨k, panicking⟩).Lost u
  calls : ∀ x k s', s.threads[l.thread]? = some ⟨x :: k, true⟩ →
    LetsGo s l.thread k x l.action s' → ¬s'.Lost l.thread

/-- A thread has begun to unwind. -/
theorem lost_raise_iff (hi : i < s.threads.length) (p : ScopeId) :
    ((s.mark p).raise i false code).Lost i ↔ s.OnlyOwner i code := by
  have hholdings : ((s.mark p).raise i false code).holdings i =
      (s.goto i ⟨code.flatMap Instr.unwind, true⟩).holdings i :=
    holdings_congr (t := (s.mark p).goto i _) (s := s.goto i _) (by cases p <;> rfl) (length_mark p)
      (Same.mark p) i
  unfold State.Lost State.OnlyOwner
  rw [hholdings, holdings_unwound hi]

/-- A thread has dropped a handle. -/
theorem lost_lets_iff {n : ℕ} : ((s.modify q fun d => { d with strong := n }).goto i th).Lost u ↔
    (s.goto i th).Lost u := by
  have hsame := Same.modify (s := s) (fun d => { d with strong := n }) (fun _ => ⟨rfl, rfl⟩) q
  unfold State.Lost
  rw [holdings_congr rfl (List.length_modify ..) (t := (s.modify q _).goto i th)
    (s := s.goto i th) hsame u]

/-- A step that is not spared is fatal. -/
theorem bad_of_not_spares (h : ¬Spares s ⟨i, a⟩) (hs : step s ⟨i, a⟩ = some t) : t.Bad := by
  obtain ⟨haborted, x, k, panicking, hth, hexec⟩ : s.aborted = false ∧ ∃ x k panicking,
      s.threads[i]? = some ⟨x :: k, panicking⟩ ∧ exec s i panicking k x a = some t := step_eq hs
  have hi : i < s.threads.length := (List.getElem?_eq_some_iff.mp hth).1
  by_contra hbad
  have haborts : ∀ code, Panics s k x a code → panicking = true → False := by
    rintro code hpanics rfl
    obtain ⟨p, rfl⟩ := exec_panics hpanics hexec
    exact hbad (.inl (by simp))
  have hlost : ∀ (s' : State) (code : List Instr), i < s'.threads.length →
      t = s'.goto i ⟨code, true⟩ → ¬t.Lost i := by
    rintro s' code hi' rfl hlost
    exact hbad (.inr ⟨i, ⟨_, goto_thread hi', rfl⟩, hlost⟩)
  refine h ⟨fun xs k' code hth' hpanics => ?_, fun x' k' code hth' hpanics howner => ?_,
    fun q k' panicking' hth' hstrong u hu hunwinding hlets => ?_,
    fun x' k' s' hth' hgo hlost' => ?_⟩
  all_goals
    have h := Option.some.inj (hth.symm.trans hth')
    simp only [Thread.mk.injEq, List.cons.injEq] at h
    obtain ⟨⟨rfl, rfl⟩, rfl⟩ := h
  · exact haborts code hpanics rfl
  · obtain ⟨p, rfl⟩ := exec_panics hpanics hexec
    exact hlost (s.mark p) _ (by cases p <;> exact hi) rfl ((lost_raise_iff hi p).mpr howner)
  · cases does_of_exec hexec with
    | @dropLast q d hd hn => exact hstrong (by simp [State.strong, hd, hn])
    | drop hd hn =>
        obtain ⟨th, hth', hpanicking⟩ := hunwinding
        refine hbad (.inr ⟨u, ⟨th, ?_, hpanicking⟩, lost_lets_iff.mpr hlets⟩)
        exact (List.getElem?_set_ne hu.symm).trans hth'
  · have hdoes := does_of_exec hexec
    cases hgo with
    | ret =>
        cases hdoes
        exact hlost s _ hi rfl hlost'
    | store =>
        cases hdoes with
        | store => exact hlost (s.modify _ _) _ hi rfl hlost'
        | assigned _ hd _ hsome => exact haborts _ (.store hd hsome) rfl
    | enter =>
        cases hdoes
        exact hlost s _ hi rfl hlost'
    | forward hd hn _ =>
        cases hdoes with
        | dropLast hd' hn' =>
            obtain rfl := Option.some.inj (hd.symm.trans hd')
            exact hlost (s.modify _ _) _ hi rfl hlost'
        | drop hd' hn' =>
            obtain rfl := Option.some.inj (hd.symm.trans hd')
            omega

/-- **A function must not panic** while its thread has the receiver, or a whole scope with it. -/
theorem bad_of_panic {xs : List Item} (hc : Counted s)
    (hth : s.threads[i]? = some ⟨.code xs :: k, panicking⟩)
    (howner : .discarding ∈ items (.code xs :: k) ∨ ∃ q d, s.cells[q]? = some d ∧
      (items (.code xs :: k)).count (.handle q) = d.strong ∧ d.shared_value = none ∧
        .discarding ∈ d.rcv) (hs : step s ⟨i, .panic⟩ = some t) : t.Bad := by
  refine bad_of_not_spares (fun hspares => ?_) hs
  cases panicking with
  | true => exact hspares.calm _ _ _ hth .panic
  | false =>
      refine hspares.begins _ _ _ hth .panic ?_
      obtain hmem | ⟨q, d, hd, hcount, hsignal, hmem⟩ := howner
      · exact .of_mem hmem
      · exact .of_scope hc hth hd hcount hsignal hmem

/-- Who makes another thread that unwinds the only owner has dropped a handle. -/
theorem lost_of_other (hs : exec s i panicking k x a = some t) (ht : t.aborted = false)
    (hth : s.threads[i]? = some ⟨x :: k, panicking⟩) (hui : u ≠ i) (hu : t.Unwinding u)
    (hlost : t.Lost u) : s.Unwinding u ∧ (s.Lost u ∨
      ∃ q, x = .drop (.handle q) ∧ s.strong q ≠ 1 ∧ (s.goto i ⟨k, panicking⟩).Lost u) := by
  obtain ⟨th', hacts, -⟩ := exec_acts hs ht
  obtain ⟨th, hth', hpanicking⟩ := hu
  obtain ⟨heq, -⟩ | ⟨-, hsame⟩ | ⟨hnew, -⟩ := hacts.thread_cases hth'
  · exact absurd heq hui
  · refine ⟨⟨th, hsame, hpanicking⟩, ?_⟩
    have hi : i < s.threads.length := (List.getElem?_eq_some_iff.mp hth).1
    obtain ⟨q, n, rfl, hn, rfl⟩ | ⟨B, hkeeps, hB⟩ := exec_keeps hs ht hi
    · exact .inr ⟨q, rfl, by omega, lost_lets_iff.mp hlost⟩
    · exact .inl (hkeeps.lost hacts hth (List.getElem?_eq_some_iff.mp hsame).1 (hB u hui)
        (fun q hq => mem_items.mpr (hq.imp_right And.right)) (fun heq => absurd heq.symm hui) hlost)
  · exact absurd (hnew.symm.trans hpanicking) (by simp)

/-- A thread that unwinds does so only by letting go of something. -/
theorem Counted.lost_of_own (hc : Counted s) (hs : Detached.exec s i true k x a = some t)
    (ht : t.aborted = false) (hth : s.threads[i]? = some ⟨x :: k, true⟩)
    (hcalm : ∀ code, ¬Panics s k x a code) (hlost : t.Lost i) :
    s.Lost i ∨ LetsGo s i k x a t := by
  have hi : i < s.threads.length := (List.getElem?_eq_some_iff.mp hth).1
  have hmoves : ∀ {xs}, x = .code xs → a.Moves → s.Lost i := by
    rintro xs rfl ha
    obtain ⟨B, hkeeps, hB, th', hth', hdropping⟩ := exec_code_keeps hs ha hi
    obtain ⟨th, hacts, -⟩ := exec_acts hs ht
    obtain rfl := Option.some.inj (hth'.symm.trans (hacts.thread hi))
    exact hkeeps.lost hacts hth hi (hB i) (fun q hq => hq.resolve_right fun hne => hne.1 rfl)
      (fun _ y hy => hdropping ▸ hy) hlost
  have hcleans : a = .proceed → s.Lost i ∨ LetsGo s i k x a t := by
    rintro rfl
    obtain hpasses | ⟨q, d, rfl, hd, hn, rfl⟩ := exec_unwinds hs ht
    · exact .inl ((hpasses.lost_iff hth).mp hlost)
    · cases hsignal : d.shared_value with
      | none => exact .inl (hc.lost_of_dropLast hth hd hn hsignal hlost)
      | some _ => exact .inr (.forward hd hn hsignal)
  cases does_of_exec hs with
  | ret => exact .inr .ret
  | store => exact .inr .store
  | enter => exact .inr .enter
  | panic => exact absurd .panic (hcalm _)
  | fail => exact absurd .fail (hcalm _)
  | assigned _ hd _ hsome => exact absurd (.store hd hsome) (hcalm _)
  | discarding | dropLast | drop | run | mark => exact hcleans rfl
  | _ => exact .inl (hmoves rfl trivial)

/-- **A step that is spared leaves nothing lost.** -/
theorem Counted.not_bad (hc : Counted s) (h : ¬s.Bad) (hspares : Spares s ⟨i, a⟩)
    (hs : step s ⟨i, a⟩ = some t) : ¬t.Bad := by
  obtain ⟨haborted, x, k, panicking, hth, hexec⟩ : s.aborted = false ∧ ∃ x k panicking,
      s.threads[i]? = some ⟨x :: k, panicking⟩ ∧ Detached.exec s i panicking k x a = some t :=
    step_eq hs
  have hi : i < s.threads.length := (List.getElem?_eq_some_iff.mp hth).1
  have hlost : ∀ u, s.Unwinding u → ¬s.Lost u := fun u hu hlost => h (.inr ⟨u, hu, hlost⟩)
  have hothers : t.aborted = false → ∀ u ≠ i, t.Unwinding u → ¬t.Lost u := by
    intro ht u hui hu hlost'
    obtain ⟨hu', hlost' | ⟨q, rfl, hstrong, hlost'⟩⟩ := lost_of_other hexec ht hth hui hu hlost'
    · exact hlost u hu' hlost'
    · exact hspares.lets q k panicking hth hstrong u hui hu' hlost'
  by_cases hcalm : ∃ code, Panics s k x a code
  · obtain ⟨code, hpanics⟩ := hcalm
    obtain ⟨p, rfl⟩ := exec_panics hpanics hexec
    cases panicking with
    | true =>
        -- a function does not panic, and nobody is about to drop the receiver
        cases hpanics with
        | panic => exact absurd .panic (hspares.calm _ _ _ hth)
        | fail => exact absurd .fail (hspares.calm _ _ _ hth)
        | store hd hsome => exact absurd (.store hd hsome) (hspares.calm _ _ _ hth)
        | drop => exact absurd (.inl ⟨_, hth, .head _⟩) (hlost i ⟨_, hth, rfl⟩)
    | false =>
        have ht : ((s.mark p).raise i false code).aborted = false := by simp [haborted]
        rintro (ht' | ⟨u, hu, hlost'⟩)
        · exact absurd (ht.symm.trans ht') (by simp)
        by_cases hui : u = i
        · subst hui
          exact hspares.begins _ _ _ hth hpanics ((lost_raise_iff hi p).mp hlost')
        · exact hothers ht u hui hu hlost'
  · have hcalm' : ∀ code, ¬Panics s k x a code := fun code hpanics => hcalm ⟨code, hpanics⟩
    obtain ⟨ht, th, hth', hpanicking⟩ := exec_calm hexec hcalm' hi
    rw [haborted] at ht
    rintro (ht' | ⟨u, hu, hlost'⟩)
    · exact absurd (ht.symm.trans ht') (by simp)
    by_cases hui : u = i
    · subst hui
      obtain ⟨th', hth'', hpanicking'⟩ := hu
      obtain rfl := Option.some.inj (hth'.symm.trans hth'')
      obtain rfl : panicking = true := hpanicking.symm.trans hpanicking'
      obtain hlost' | hgo := hc.lost_of_own hexec ht hth hcalm' hlost'
      · exact hlost u ⟨_, hth, rfl⟩ hlost'
      · exact hspares.calls _ _ _ hth hgo hlost'
    · exact hothers ht u hui hu hlost'

/-! ## Every run -/

/-- Nobody is still unwinding. -/
def State.Settled (s : State) : Prop :=
  s.aborted = true ∨ ∀ th ∈ s.threads, th.panicking = true → th.code = []

/-- A cell of which there is no handle has nothing inside. -/
theorem Counted.owned (h : Counted s) (q : ℕ) : (∃ th ∈ s.threads, .handle q ∈ items th.code) ∨
    (∃ j, .handle q ∈ s.falling j ∨ .handle q ∈ s.waiting j) ∨
      s.cells.length ≤ q ∨ s.falling q = [] := by
  cases hd : s.cells[q]? with
  | none => exact .inr (.inr (.inl (List.getElem?_eq_none_iff.mp hd)))
  | some d =>
      rcases Nat.eq_zero_or_pos d.strong with hzero | hpos
      · refine .inr (.inr (.inr (List.eq_nil_iff_forall_not_mem.mpr fun y hy => ?_)))
        obtain ⟨e, he, hy⟩ := mem_cell.mp (.inl hy)
        obtain rfl := Option.some.inj (hd.symm.trans he)
        rw [h.freed q d hd hzero] at hy
        cases hy
      · have hcount : 0 < s.count q := by simpa [h.strong q, State.strong, hd] using hpos
        obtain hthreads | hcells := Nat.add_pos_iff_pos_or_pos.mp hcount
        · obtain ⟨j, th, hj, hmem⟩ := exists_of_weight_pos _ hthreads
          exact .inl ⟨th, List.mem_of_getElem? hj, List.count_pos_iff.mp hmem⟩
        · obtain ⟨j, e, hj, hmem⟩ := exists_of_weight_pos _ hcells
          exact .inr (.inl ⟨j, mem_cell.mpr ⟨e, hj, List.count_pos_iff.mp hmem⟩⟩)

/-- A thread that has unwound owns nothing. -/
theorem Counted.not_lost (h : Counted s) (hth : s.threads[i]? = some th) (hdone : th.code = []) :
    ¬s.Lost i := by
  refine Holdings.not_lost (Set.eq_empty_iff_forall_notMem.mpr ?_) fun q => ?_
  · rintro y ⟨th', hth', hy⟩
    obtain rfl := Option.some.inj (hth.symm.trans hth')
    rw [hdone] at hy
    cases hy
  · obtain ⟨th', hth', hq⟩ | ⟨j, hq | hq⟩ | hq | hq := h.owned q
    · obtain ⟨j, hj⟩ := List.mem_iff_getElem?.mp hth'
      refine .inl (.inr (.inl ⟨j, th', hj, (mem_items.mp hq).imp_right fun hq => ⟨?_, hq⟩⟩))
      rintro rfl
      obtain rfl := Option.some.inj (hth.symm.trans hj)
      rw [hdone] at hq
      cases hq
    · exact .inr (.inl ⟨j, hq⟩)
    · exact .inl (.inr (.inr ⟨j, hq⟩))
    · exact .inl (.inl ⟨q, rfl, hq⟩)
    · refine .inr (.inr (Set.eq_empty_iff_forall_notMem.mpr fun y hy => ?_))
      change y ∈ s.falling q at hy
      rw [hq] at hy
      cases hy

/-- **Every panic is on its way**: there was no abort, and no thread that unwinds is stuck. -/
structure Unwinds (s : State) : Prop where
  aborted : s.aborted = false
  goes_on : ∀ (i : ℕ) (th : Thread), s.threads[i]? = some th → th.panicking = true →
    th.code = [] ∨ ∃ a t, step s ⟨i, a⟩ = some t

theorem Counted.unwinds (h : Counted s) (haborted : s.aborted = false) : Unwinds s where
  aborted := haborted
  goes_on i th hth hpanicking := by
    obtain ⟨code, panicking⟩ := th
    have hstep : ∀ x k a, code = x :: k → step s ⟨i, a⟩ = Detached.exec s i panicking k x a := by
      rintro x k a rfl
      simp [step, haborted, hth]
    cases code with
    | nil => exact .inl rfl
    | cons x k =>
        refine .inr ?_
        cases x with
        | code xs => exact ⟨.ret, _, hstep _ _ _ rfl⟩
        | run p => exact ⟨.proceed, _, hstep _ _ _ rfl⟩
        | mark p => exact ⟨.proceed, _, hstep _ _ _ rfl⟩
        | drop y =>
            cases y with
            | discarding => exact ⟨.proceed, _, hstep _ _ _ rfl⟩
            | handle q =>
                obtain ⟨d, hd, hpos⟩ := h.exists_cell hth (List.mem_cons_self ..)
                obtain ⟨n, hn⟩ : ∃ n, d.strong = n + 1 := ⟨d.strong - 1, by omega⟩
                refine ⟨.proceed, ?_⟩
                rw [hstep _ _ _ rfl]
                cases n <;> simp [Detached.exec, hd, hn]

/-- **Which panics are survived**, in every run of chains that nobody waits for: if each step spares
the process, then nothing aborts, and what unwinds goes on; and where no thread is unwinding any
more, these are the only runs without an abort. -/
theorem panics_survived_iff (ls : List Label) (s : State)
    (h : machine.Run (fun _ _ => True) ls s) :
    (machine.Run Spares ls s → Unwinds s) ∧
      (s.Settled → (s.aborted = false ↔ machine.Run Spares ls s)) := by
  have hc := counted_inductive.of_run h
  have hgood : machine.Inductive Spares fun s => Counted s ∧ ¬s.Bad :=
    { init := by
        refine ⟨counted_inductive.init, ?_⟩
        rintro (habort | ⟨u, ⟨th, hth, hpanicking⟩, -⟩)
        · cases habort
        · obtain rfl := List.mem_singleton.mp (List.mem_of_getElem? hth)
          cases hpanicking
      step := fun s l t h hl hs =>
        ⟨counted_inductive.step h.1 trivial hs, h.1.not_bad h.2 hl hs⟩ }
  have hiff : ¬s.Bad ↔ machine.Run Spares ls s :=
    h.good_iff counted_inductive (fun _ _ _ _ hbad hs => hbad.step hs)
      (fun _ _ _ _ hl hs => bad_of_not_spares hl hs) fun _ _ hrun => (hgood.of_run hrun).2
  have hfalse : ¬s.Bad → s.aborted = false := fun hbad => by
    simpa using fun habort => hbad (.inl habort)
  refine ⟨fun hrun => hc.unwinds (hfalse (hiff.mpr hrun)), fun hsettled => ?_⟩
  rw [← hiff]
  refine ⟨fun haborted => ?_, hfalse⟩
  rintro (habort | ⟨u, ⟨th, hth, hpanicking⟩, hlost⟩)
  · exact absurd (haborted.symm.trans habort) (by simp)
  · have hdone := hsettled.resolve_left (by simp [haborted])
    exact hc.not_lost hth (hdone th (List.mem_of_getElem? hth) hpanicking) hlost

/-- A worker has the continuation of a nested scope, of which this thread still has two handles. -/
def panicElsewhere : List Label :=
  [⟨0, .start⟩, ⟨0, .newScope none [.discarding] []⟩,
    ⟨0, .spawn [.handle 0] [.handle 0, .handle 0]⟩, ⟨1, .call [] [.handle 0]⟩, ⟨1, .panic⟩,
    ⟨1, .proceed⟩]

theorem panicElsewhere_survived : ∃ s, machine.exec machine.init panicElsewhere = some s ∧
    s.Unwinding 1 ∧ machine.Run Spares panicElsewhere s ∧ Unwinds s := by
  obtain ⟨s, hs, haborted, hdone, hthread⟩ :
      ∃ s, machine.exec machine.init panicElsewhere = some s ∧
      s.aborted = false ∧ (∀ th ∈ s.threads, th.panicking = true → th.code = []) ∧
      s.threads[1]? = some ⟨[], true⟩ := Machine.exec_ends (by decide +kernel)
  have hrun : machine.Run (fun _ _ => True) panicElsewhere s := .of_exec (by decide +kernel) hs
  have hspares := ((panics_survived_iff panicElsewhere s hrun).2 (.inr hdone)).mp haborted
  exact ⟨s, hs, ⟨_, hthread, rfl⟩, hspares, (panics_survived_iff panicElsewhere s hrun).1 hspares⟩

/-- `(Just::from(()) | Then::from(|_| panic!())).start_detached()` -/
def thenPanics : List Label :=
  [⟨0, .start⟩,
    -- `start`, `ThenWrappedReceiver::set_value`, `tuple_invoke`
    ⟨0, .call [.discarding] []⟩, ⟨0, .call [.discarding] []⟩, ⟨0, .call [] [.discarding]⟩,
    ⟨0, .panic⟩, ⟨0, .proceed⟩]

/-- `(Just::from(()) | Then::from(|_| panic!())).ensure_started()`, whose `StateReceiver` has a
handle of the state, as the sender has that it returns. -/
def ensureStartedPanics : List Label :=
  [⟨0, .share [] []⟩, ⟨0, .clone 0⟩, ⟨0, .start⟩,
    ⟨0, .call [.handle 0, .discarding] [.handle 0]⟩, ⟨0, .call [.handle 0, .discarding] []⟩,
    ⟨0, .call [] [.handle 0, .discarding]⟩, ⟨0, .panic⟩, ⟨0, .proceed⟩, ⟨0, .proceed⟩]

/-- `pool.execute(|_| panic!())`: cell 0 is the queue of the worker, thread 1, and cell 1 the boxed
continuation of `schedule`. -/
def executePanics : List Label :=
  [⟨0, .share [] []⟩, ⟨0, .clone 0⟩, ⟨0, .spawn [.handle 0] [.handle 0]⟩, ⟨0, .start⟩,
    ⟨0, .share [.discarding] [.handle 0]⟩, ⟨0, .put 0 [.handle 1] [.handle 0]⟩,
    ⟨1, .take 0 [.handle 1] []⟩, ⟨1, .call [.handle 1] [.handle 0]⟩, ⟨1, .take 1 [.discarding] []⟩,
    ⟨1, .enter none [.discarding] [.handle 1]⟩,
    -- `LetValueReceiver::set_value`, whose function gets `rcv_ref`
    ⟨1, .newScope none [.discarding] []⟩, ⟨1, .call [.handle 2] [.handle 2, .handle 2]⟩,
    ⟨1, .panic⟩, ⟨1, .proceed⟩, ⟨1, .proceed⟩, ⟨1, .proceed⟩, ⟨1, .proceed⟩]

/-- **The first panic does not get far.** -/
theorem panic_aborts :
    (∃ s, machine.Run (fun _ _ => True) thenPanics s ∧ s.aborted = true) ∧
      (∃ s, machine.Run (fun _ _ => True) ensureStartedPanics s ∧ s.aborted = true) ∧
        ∃ s, machine.Run (fun _ _ => True) executePanics s ∧ s.aborted = true := by
  have haborts : ∀ ls, ((machine.exec machine.init ls).any fun s => s.aborted) = true →
      machine.check (fun _ _ => True) machine.init ls = true →
        ∃ s, machine.Run (fun _ _ => True) ls s ∧ s.aborted = true := fun ls hany hcheck => by
    obtain ⟨s, hs, haborted⟩ := (Option.any_eq_true _ _).mp hany
    exact ⟨s, .of_exec hcheck hs, haborted⟩
  refine ⟨haborts _ ?_ ?_, haborts _ ?_ ?_, haborts _ ?_ ?_⟩ <;> decide +kernel

end SendersReceivers.Detached
