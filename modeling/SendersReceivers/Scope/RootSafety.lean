import SendersReceivers.Scope.RootHandles

/-!
# Scope/RootSafety — `scope_send` ends when nothing runs under it any more

The last handle of the root is dropped once, by the main thread or by an activity, and whoever drops
it runs `notify`.  Until then the main thread parks, and after it there is nothing left that it
would have to wait for. -/

namespace SendersReceivers.RootScope

open Machinery

section

variable {s t : State} {p : ScopeId} {i k : ℕ} {a a' : Activity} {sc : Nested}

/-! ## The drop of a handle -/

/-- What the last handle of the root leaves to do. -/
theorem last_eq (n : ℕ) : ∀ p, (if n = 1 then Activity.notifying else .ended).holds p = 0 := by
  intro p
  split <;> rfl

/-- An activity that lets go of its handle has nothing else to do. -/
theorem releasing_weights (p : ScopeId) : (Activity.releasing p).holds p = 1 ∧
    (Activity.releasing p).overflows = 0 ∧ (Activity.releasing p).notifies = 0 ∧
    (Activity.releasing p).unmarked = 0 :=
  ⟨if_pos rfl, rfl, rfl, rfl⟩

theorem Inv.release_root (h : Inv s) (ha : s.activities[i]? = some (.releasing none)) :
    Inv (s.fetchSub.goto i (if s.num_running_threads = 1 then .notifying else .ended)) := by
  obtain ⟨hself, hover₀, hnotifies₀, hunmarked₀⟩ := releasing_weights none
  have hpos : 0 < s.num_running_threads := h.count_pos ha hself
  rw [fetchSub_eq hpos h.bounded]
  have hpending := h.pending
  rw [if_neg hpos.ne'] at hpending
  generalize hlast : (if s.num_running_threads = 1 then Activity.notifying else .ended) = a'
  have hholds : ∀ p, a'.holds p = 0 := hlast ▸ last_eq s.num_running_threads
  have hnone : a'.overflows = 0 ∧ a'.unmarked = 0 := by
    rw [← hlast]
    split <;> exact ⟨rfl, rfl⟩
  have hone : a'.notifies = if s.num_running_threads - 1 = 0 then 1 else 0 := by
    rw [← hlast]
    by_cases hn : s.num_running_threads = 1
    · rw [if_pos hn, hn]; rfl
    · rw [if_neg hn, if_neg (by omega)]; rfl
  obtain ⟨hover', hunmarked'⟩ := hnone
  have hover := weight_set Activity.overflows ha a'
  have hnotifies := weight_set Activity.notifies ha a'
  have hunmarked := weight_set Activity.unmarked ha a'
  have hzero := h.overflow
  exact {
    count := fun p => by
      have hgoto := handles_goto ha a' p
      have hp := h.count p
      rw [hholds] at hgoto
      cases p with
      | none =>
          change s.num_running_threads - 1 = (s.goto i a').handles none
          change s.num_running_threads = s.handles none at hp
          omega
      | some k => exact hp.trans hgoto.symm
    outer := h.outer
    bounded := Nat.le_trans (Nat.sub_le _ _) h.bounded
    overflow := by
      simp only [State.goto]
      omega
    notify := h.notify
    pending := by
      refine Eq.trans ?_ hone
      simp only [State.goto, State.notifies] at hpending ⊢
      omega
    parked := fun r hr hz => .inr (by
      have hz : s.num_running_threads - 1 = 0 := hz
      rw [if_pos hz] at hone
      simp only [State.goto]
      omega)
    left := fun hleft => absurd (h.left hleft) hpos.ne'
    flag := fun hany => (h.flag hany).imp_right (Or.imp_left fun hp => by
      simp only [State.goto]
      omega)
    returned := h.returned
    panics := h.panics }

/-- The destructor of a nested scope has the handle of the outer one. -/
theorem destroyed_holds (sc : Nested) (q : ScopeId) :
    sc.destroyed.holds q = if sc.outer_state = q then 1 else 0 := by
  unfold Nested.destroyed
  split <;> rfl

theorem destroyed_unmarked (sc : Nested) :
    sc.destroyed.unmarked = if sc.a_thread_panicked then 1 else 0 := by
  unfold Nested.destroyed
  split <;> rfl

theorem Inv.release_nested (h : Inv s) (ha : s.activities[i]? = some (.releasing (some k)))
    (hk : s.scopes[k]? = some sc) :
    Inv ((s.modify k fun sc => { sc with strong := sc.strong - 1 }).goto i
      (if sc.strong = 1 then sc.destroyed else .ended)) := by
  obtain ⟨hself, hover₀, hnotifies₀, hunmarked₀⟩ := releasing_weights (some k)
  have hpos : 0 < sc.strong := countOf_some hk ▸ h.count_pos ha hself
  generalize hlast : (if sc.strong = 1 then sc.destroyed else Activity.ended) = a'
  -- the destructor takes the handle of the outer scope over, and the mark that is to be passed on
  have hholds (q : ScopeId) :
      a'.holds q + Nested.child q { sc with strong := sc.strong - 1 } = sc.child q := by
    rw [← hlast]
    by_cases hone : sc.strong = 1
    · rw [if_pos hone, destroyed_holds]
      simp [Nested.child, hone]
    · have hlt : 0 < sc.strong - 1 := by omega
      rw [if_neg hone]
      simp [Nested.child, hpos, hlt, Activity.holds]
  have hflags : a'.unmarked + Nested.flagged { sc with strong := sc.strong - 1 } = sc.flagged := by
    rw [← hlast]
    by_cases hone : sc.strong = 1
    · rw [if_pos hone, destroyed_unmarked]
      simp [Nested.flagged, hone]
    · have hlt : 0 < sc.strong - 1 := by omega
      rw [if_neg hone]
      simp [Nested.flagged, hpos, hlt, Activity.unmarked]
  have hrest : a'.overflows = 0 ∧ a'.notifies = 0 := by
    rw [← hlast]
    unfold Nested.destroyed
    split
    · split <;> exact ⟨rfl, rfl⟩
    · exact ⟨rfl, rfl⟩
  obtain ⟨hover', hnotifies'⟩ := hrest
  have hover := weight_set Activity.overflows ha a'
  have hnotifies := weight_set Activity.notifies ha a'
  have hunmarked := weight_set Activity.unmarked ha a'
  have hflagged := weight_modify Nested.flagged hk fun sc => { sc with strong := sc.strong - 1 }
  have hmodified : (s.modify k fun sc => { sc with strong := sc.strong - 1 }).activities[i]? =
    some (.releasing (some k)) := ha
  have hzero := h.overflow
  exact {
    count := fun q => by
      have hq := h.count q
      have hcount := countOf_modify hk (fun sc => { sc with strong := sc.strong - 1 }) q
      have hmodify := handles_modify hk (fun sc => { sc with strong := sc.strong - 1 }) q
      have hgoto := handles_goto hmodified a' q
      have hchild := hholds q
      have hreleasing : (Activity.releasing (some k)).holds q = if q = some k then 1 else 0 := by
        simp [Activity.holds, eq_comm]
      rw [countOf_goto]
      rw [hreleasing] at hgoto
      simp only at hcount hmodify
      split_ifs at hcount hmodify hgoto <;> omega
    outer := outer_modify hk rfl h.outer
    bounded := h.bounded
    overflow := by
      simp only [State.goto, State.modify]
      omega
    notify := h.notify
    pending := by
      refine Eq.trans ?_ h.pending
      simp only [State.goto, State.modify, State.notifies]
      omega
    parked := fun r hr hz => (h.parked r hr hz).imp_right fun hp => by
      simp only [State.goto, State.modify]
      omega
    left := h.left
    flag := fun hany => (h.flag hany).imp_right fun hp => by
      simp only [State.goto, State.modify]
      omega
    returned := h.returned
    panics := h.panics }

/-! ## The notification and the main thread -/

theorem Inv.notify_eq (h : Inv s) (hpos : 0 < s.notifies) :
    s.num_running_threads = 0 ∧ s.notified = 0 ∧
      s.runNotify = { s with notify := none, token := true, notified := s.notified + 1 } := by
  have hpending := h.pending
  split_ifs at hpending with hzero
  · have hnotified : s.notified = 0 := by omega
    refine ⟨hzero, hnotified, ?_⟩
    cases hn : s.notify with
    | none => exact absurd (h.notify.mp hn) (by omega)
    | some u => rw [State.runNotify, hn]
  · omega

theorem Inv.notify_step (h : Inv s) (ha : s.activities[i]? = some .notifying) :
    Inv (s.runNotify.goto i .ended) := by
  have hle := le_weight Activity.notifies ha
  have hself : Activity.notifies .notifying = 1 := rfl
  obtain ⟨hnum, hnotified, heq⟩ := h.notify_eq (by rw [State.notifies]; omega)
  have hover := weight_set Activity.overflows ha .ended
  have hnotifies := weight_set Activity.notifies ha .ended
  have hunmarked := weight_set Activity.unmarked ha .ended
  have hended : Activity.overflows .ended = 0 ∧ Activity.notifies .ended = 0 ∧
    Activity.unmarked .notifying = 0 := ⟨rfl, rfl, rfl⟩
  have hpending := h.pending
  have hzero := h.overflow
  rw [heq]
  exact {
    count := fun p => by
      have hp := h.count_goto ha .ended (fun _ => rfl) p
      cases p with
      | none => exact hp
      | some k => exact hp
    outer := h.outer
    bounded := h.bounded
    overflow := by
      simp only [State.goto]
      omega
    notify := by simp [State.goto, hnotified]
    pending := by
      refine Eq.trans ?_ hpending
      simp only [State.goto, State.notifies]
      omega
    parked := fun _ _ _ => .inl rfl
    left := h.left
    flag := fun hany => (h.flag hany).imp_right (Or.imp_left fun hp => by
      simp only [State.goto]
      omega)
    returned := h.returned
    panics := h.panics }

/-- The main thread goes on, with the handle it had. -/
theorem Inv.withMain (h : Inv s) {m : Main} (hholds : ∀ p, m.holds p = s.main.holds p)
    (hnotifies : m.notifies = s.main.notifies)
    (hparked : ∀ r, m = .parking r → s.num_running_threads ≠ 0)
    (hleft : m.left = true → s.num_running_threads = 0)
    (hreturned : m = .done .returned → s.anyPanicked = false) : Inv { s with main := m } where
  count p := by
    have hp := h.count p
    have hm := hholds p
    cases p with
    | none =>
        simp only [State.handles, State.countOf, State.freeOf] at hp ⊢
        omega
    | some k =>
        simp only [State.handles, State.countOf, State.freeOf] at hp ⊢
        omega
  outer := h.outer
  bounded := h.bounded
  overflow := h.overflow
  notify := h.notify
  pending := by
    refine Eq.trans ?_ h.pending
    simp only [State.notifies]
    omega
  parked r hr hzero := absurd hzero (hparked r hr)
  left := hleft
  flag := h.flag
  returned := hreturned
  panics := h.panics

theorem Inv.withToken (h : Inv s) (b : Bool)
    (hb : b = true ∨ ∀ r, s.main ≠ .parking r) : Inv { s with token := b } :=
  { h with
    count := fun p => by
      cases p with
      | none => exact h.count none
      | some k => exact h.count (some k)
    parked := fun r hr hzero => hb.elim .inl fun hne => absurd hr (hne r) }

theorem Inv.dropScope (h : Inv s) {r : Unwind} (hmain : s.main = .dropping r) :
    Inv { s.fetchSub with
      main := if s.num_running_threads = 1 then .notifying r else .checking r } := by
  have hcount := h.count none
  have hpending := h.pending
  have hpos : 0 < s.num_running_threads := by
    simp only [State.countOf, State.handles, hmain, Main.holds, if_true] at hcount
    omega
  rw [fetchSub_eq hpos h.bounded]
  rw [if_neg hpos.ne'] at hpending
  generalize hlast : (if s.num_running_threads = 1 then Main.notifying r else .checking r) = m
  have hm : (∀ p, m.holds p = 0) ∧ (∀ r, m ≠ .parking r) ∧ m.left = false ∧
      m ≠ .done .returned := by
    rw [← hlast]
    split <;> exact ⟨fun _ => rfl, fun _ => by simp, rfl, by simp⟩
  obtain ⟨hholds, hparked, hleft, hreturned⟩ := hm
  have hone : m.notifies = if s.num_running_threads - 1 = 0 then 1 else 0 := by
    rw [← hlast]
    by_cases hn : s.num_running_threads = 1
    · rw [if_pos hn, hn]; rfl
    · rw [if_neg hn, if_neg (by omega)]; rfl
  exact {
    count := fun p => by
      have hp := h.count p
      have hm := hholds p
      cases p with
      | none =>
          have hself : s.main.holds none = 1 := by rw [hmain]; rfl
          simp only [State.countOf, State.handles, State.freeOf] at hp ⊢
          omega
      | some k =>
          have hself : s.main.holds (some k) = 0 := by rw [hmain]; rfl
          simp only [State.countOf, State.handles, State.freeOf] at hp ⊢
          omega
    outer := h.outer
    bounded := Nat.le_trans (Nat.sub_le _ _) h.bounded
    overflow := h.overflow
    notify := h.notify
    pending := by
      refine Eq.trans ?_ hone
      simp only [State.notifies] at hpending ⊢
      omega
    parked := fun r hr => absurd hr (hparked r)
    left := fun hl => absurd hl (by simp [hleft])
    flag := h.flag
    returned := fun hd => absurd hd hreturned
    panics := h.panics }

theorem Inv.notifyMain (h : Inv s) {r : Unwind} (hmain : s.main = .notifying r) :
    Inv { s.runNotify with main := .checking r } := by
  have hself : s.main.notifies = 1 := by rw [hmain]; rfl
  obtain ⟨hnum, hnotified, heq⟩ := h.notify_eq (by rw [State.notifies]; omega)
  have hpending := h.pending
  have hchecking : (Main.checking r).notifies = 0 := rfl
  rw [heq]
  exact {
    count := fun p => by
      have hp := h.count p
      cases p with
      | none =>
          simp only [State.countOf, State.handles, State.freeOf, hmain, Main.holds] at hp ⊢
          exact hp
      | some k =>
          simp only [State.countOf, State.handles, State.freeOf, hmain, Main.holds] at hp ⊢
          exact hp
    outer := h.outer
    bounded := h.bounded
    overflow := h.overflow
    notify := by simp [hnotified]
    pending := by
      refine Eq.trans ?_ hpending
      simp only [State.notifies]
      omega
    parked := fun r hr => by cases hr
    left := fun hl => by cases hl
    flag := h.flag
    returned := fun hd => by cases hd
    panics := h.panics }

/-! ## Every step -/

theorem Inv.release (h : Inv s) (ha : s.activities[i]? = some (.releasing p))
    (hs : s.release i p = some t) : Inv t := by
  cases p with
  | none => exact Option.some.inj hs ▸ h.release_root ha
  | some k =>
      obtain ⟨sc, hk, rfl⟩ := Option.map_eq_some_iff.mp hs
      exact h.release_nested ha hk

theorem Inv.not_overflowing (h : Inv s) : s.activities[i]? ≠ some .overflowing := fun ha => by
  have hle := le_weight Activity.overflows ha
  have hzero := h.overflow
  have hself : Activity.overflows .overflowing = 1 := rfl
  omega

theorem Inv.leave (h : Inv s) {r : Unwind} (hmain : s.main = .leaving r) :
    Inv { s with main := .done (r.outcome s.a_thread_panicked) } := by
  have hzero := h.left (by rw [hmain]; rfl)
  refine h.withMain (fun p => by rw [hmain]; rfl) (by rw [hmain]; rfl) (fun r hr => nomatch hr)
    (fun _ => hzero) fun hdone => ?_
  cases hany : s.anyPanicked with
  | false => rfl
  | true =>
      rw [h.marked hzero hany] at hdone
      cases r <;> simp [Unwind.outcome] at hdone

theorem Inv.step {l : Label} (h : Inv s) (hb : Bounded s l) (hs : RootScope.step s l = some t) :
    Inv t := by
  cases l with
  | clone p =>
      simp only [RootScope.step, Option.ite_none_right_eq_some, Option.some.injEq] at hs
      obtain ⟨hp, rfl⟩ := hs
      rw [clone_eq h.bounded]
      exact h.put (h.count_of_hasHandle hp) fun hnone => by subst hnone; exact hb
  | nest p =>
      simp only [RootScope.step, Option.ite_none_right_eq_some, Option.some.injEq] at hs
      obtain ⟨hp, rfl⟩ := hs
      rw [clone_eq h.bounded]
      exact h.newScope (h.count_of_hasHandle hp) fun hnone => by subst hnone; exact hb
  | drop p =>
      simp only [RootScope.step, Option.ite_none_right_eq_some, Option.some.injEq] at hs
      obtain ⟨hfree, rfl⟩ := hs
      exact h.take hfree (fun q => by simp [Activity.holds, eq_comm]) rfl rfl
  | run p =>
      simp only [RootScope.step, Option.ite_none_right_eq_some, Option.some.injEq] at hs
      obtain ⟨hfree, rfl⟩ := hs
      exact h.take hfree (fun q => by simp [Activity.holds, eq_comm]) rfl rfl
  | ret i =>
      simp only [RootScope.step] at hs
      split at hs
      next p ha => exact Option.some.inj hs ▸ h.ret ha
      next => cases hs
  | panic i =>
      simp only [RootScope.step] at hs
      split at hs
      next p ha => exact Option.some.inj hs ▸ h.panic ha
      next => cases hs
  | mark i =>
      simp only [RootScope.step] at hs
      split at hs
      next p ha => exact Option.some.inj hs ▸ h.mark ha
      next => cases hs
  | release i =>
      simp only [RootScope.step] at hs
      split at hs
      next p ha => exact h.release ha hs
      next ha => exact absurd ha h.not_overflowing
      next => cases hs
  | notify i =>
      simp only [RootScope.step] at hs
      split at hs
      next ha => exact Option.some.inj hs ▸ h.notify_step ha
      next => cases hs
  | close r =>
      simp only [RootScope.step, Option.ite_none_right_eq_some, Option.some.injEq] at hs
      obtain ⟨hmain, rfl⟩ := hs
      exact h.withMain (fun p => by rw [hmain]; rfl) (by rw [hmain]; rfl) (fun r hr => nomatch hr)
        (fun hl => nomatch hl) fun hd => nomatch hd
  | dropScope =>
      simp only [RootScope.step] at hs
      split at hs
      next r hmain => exact Option.some.inj hs ▸ h.dropScope hmain
      next => cases hs
  | notifyMain =>
      simp only [RootScope.step] at hs
      split at hs
      next r hmain => exact Option.some.inj hs ▸ h.notifyMain hmain
      next => cases hs
  | check =>
      simp only [RootScope.step] at hs
      split at hs
      next r hmain =>
        obtain rfl := Option.some.inj hs
        by_cases hzero : s.num_running_threads = 0
        · rw [if_pos hzero]
          exact h.withMain (fun p => by rw [hmain]; rfl) (by rw [hmain]; rfl)
            (fun r hr => nomatch hr) (fun _ => hzero) fun hd => nomatch hd
        · rw [if_neg hzero]
          exact h.withMain (fun p => by rw [hmain]; rfl) (by rw [hmain]; rfl) (fun _ _ => hzero)
            (fun hl => nomatch hl) fun hd => nomatch hd
      next => cases hs
  | park =>
      simp only [RootScope.step] at hs
      split at hs
      next r hmain =>
        simp only [Option.ite_none_right_eq_some, Option.some.injEq] at hs
        obtain ⟨-, rfl⟩ := hs
        have hchecking : Inv { s with main := .checking r } :=
          h.withMain (fun p => by rw [hmain]; rfl) (by rw [hmain]; rfl) (fun r hr => nomatch hr)
            (fun hl => nomatch hl) fun hd => nomatch hd
        exact hchecking.withToken false (.inr fun r hr => nomatch hr)
      next => cases hs
  | spurious =>
      simp only [RootScope.step] at hs
      split at hs
      next r hmain =>
        exact Option.some.inj hs ▸ h.withMain (fun p => by rw [hmain]; rfl) (by rw [hmain]; rfl)
          (fun r hr => nomatch hr) (fun hl => nomatch hl) fun hd => nomatch hd
      next => cases hs
  | unpark => exact Option.some.inj hs ▸ h.withToken true (.inl rfl)
  | consume =>
      simp only [RootScope.step, Option.ite_none_right_eq_some, Option.some.injEq] at hs
      obtain ⟨hmain, rfl⟩ := hs
      exact h.withToken false (.inr fun r => by simp [hmain])
  | leave =>
      simp only [RootScope.step] at hs
      split at hs
      next r hmain => exact Option.some.inj hs ▸ h.leave hmain
      next => cases hs

theorem Inv.fresh : Inv fresh where
  count p := by cases p <;> rfl
  outer k sc hk := nomatch hk
  bounded := by decide
  overflow := rfl
  notify := by simp [RootScope.fresh]
  pending := rfl
  parked r hr := nomatch hr
  left hl := nomatch hl
  flag hany := nomatch hany
  returned hd := nomatch hd
  panics := rfl

/-- **The invariant of every run with fewer than `usize::MAX / 2` handles.** -/
theorem Inv.inductive : machine.Inductive Bounded Inv where
  init := Inv.fresh
  step _ _ _ h hb hs := h.step hb hs

/-! ## `scope_send` ends -/

/-- How far the main thread is from its end, once no handle is left. -/
def distance (s : State) : ℕ :=
  match s.main with
  | .inside | .dropping _ => 6
  | .parking _ => if s.token then 4 else 5
  | .notifying _ => 3
  | .checking _ => 2
  | .leaving _ => 1
  | .done _ => 0

/-- **Without a handle, `scope_send` gets closer to its end**, unless it is there. -/
theorem Inv.descends (h : Inv s) (hzero : s.num_running_threads = 0) :
    (∃ o, s.main = .done o) ∨ ∃ l t, l ≠ .spurious ∧ RootScope.step s l = some t ∧
      (Inv t ∧ t.num_running_threads = 0) ∧ distance t < distance s := by
  have hstep {l : Label} {t : State} (hl : l ≠ .spurious) (hs : RootScope.step s l = some t)
      (hb : Bounded s l) (hnum : t.num_running_threads = 0) (hlt : distance t < distance s) :
      ∃ l t, l ≠ .spurious ∧ RootScope.step s l = some t ∧
        (Inv t ∧ t.num_running_threads = 0) ∧ distance t < distance s :=
    ⟨l, t, hl, hs, ⟨h.step hb hs, hnum⟩, hlt⟩
  have hcount := h.count none
  cases hmain : s.main with
  | inside =>
      simp only [State.countOf, State.handles, hmain, Main.holds, if_true] at hcount
      omega
  | dropping r =>
      simp only [State.countOf, State.handles, hmain, Main.holds, if_true] at hcount
      omega
  | notifying r =>
      have hself : s.main.notifies = 1 := by rw [hmain]; rfl
      obtain ⟨-, -, heq⟩ := h.notify_eq (by rw [State.notifies]; omega)
      have hs : RootScope.step s .notifyMain = some { s.runNotify with main := .checking r } := by
        simp [RootScope.step, hmain]
      refine .inr (hstep (by simp) hs trivial (by rw [heq]; exact hzero) ?_)
      simp [distance, hmain]
  | checking r =>
      have hs : RootScope.step s .check = some { s with main := .leaving r } := by
        simp [RootScope.step, hmain, hzero]
      refine .inr (hstep (by simp) hs trivial hzero ?_)
      simp [distance, hmain]
  | parking r =>
      cases htoken : s.token with
      | true =>
          have hs : RootScope.step s .park =
              some { s with token := false, main := .checking r } := by
            simp [RootScope.step, hmain, htoken]
          refine .inr (hstep (by simp) hs trivial hzero ?_)
          simp [distance, hmain, htoken]
      | false =>
          have hpos := (h.parked r hmain hzero).resolve_left (by simp [htoken])
          obtain ⟨i, a, ha, hnotifies⟩ := exists_of_weight_pos _ hpos
          obtain rfl : a = .notifying := by
            by_contra hne
            simp [Activity.notifies, hne] at hnotifies
          obtain ⟨-, -, heq⟩ := h.notify_eq (by rw [State.notifies]; omega)
          have hs : RootScope.step s (.notify i) = some (s.runNotify.goto i .ended) := by
            simp [RootScope.step, ha]
          refine .inr (hstep (by simp) hs trivial (by rw [heq]; exact hzero) ?_)
          simp [distance, hmain, htoken, heq, State.goto]
  | leaving r =>
      have hs : RootScope.step s .leave =
          some { s with main := .done (r.outcome s.a_thread_panicked) } := by
        simp [RootScope.step, hmain]
      refine .inr (hstep (by simp) hs trivial hzero ?_)
      simp [distance, hmain]
  | done o => exact .inl ⟨o, rfl⟩

/-- **What `scope_send` guarantees.** -/
structure Safe (s : State) : Prop where
  count : s.num_running_threads = s.live
  /-- `notify` is run once, by whoever drops the last handle -/
  notify : if s.live = 0 then s.notified + s.notifies = 1 else s.notified = 0 ∧ s.notifies = 0
  /-- `scope_send` ends when every handle is gone, and every continuation has returned -/
  ended : ∀ o, s.main = .done o → s.live = 0 ∧ ∀ a ∈ s.activities, a.active = false
  /-- a thread that is parked when no handle is left has its token, or is about to be unparked -/
  unparked : ∀ r, s.main = .parking r → s.live = 0 →
    s.token = true ∨ ∃ a ∈ s.activities, a = .notifying
  /-- once no handle is left, `scope_send` ends, also if `park` never returns for no reason -/
  ends : s.live = 0 → ∃ as t o, (∀ l ∈ as, l ≠ .spurious) ∧ machine.exec s as = some t ∧
    t.main = .done o
  /-- it does not return if a continuation has panicked -/
  panicked : s.main = .done .returned → s.anyPanicked = false
  panics : s.panics = []

theorem Inv.safe (h : Inv s) : Safe s := by
  have hlive : s.num_running_threads = s.live := h.count none
  have hpending := h.pending
  refine ⟨hlive, ?_, fun o ho => ?_, fun r hr hzero => ?_, fun hzero => ?_, h.returned, h.panics⟩
  · rw [← hlive]
    split
    next hzero => rwa [if_pos hzero] at hpending
    next hne =>
      rw [if_neg hne] at hpending
      omega
  · have hzero := h.left (by rw [ho]; rfl)
    refine ⟨hlive ▸ hzero, fun a ha => ?_⟩
    obtain ⟨i, hi⟩ := List.mem_iff_getElem?.mp ha
    cases a with
    | running p => exact absurd (if_pos rfl) (h.not_held hzero hi p)
    | panicked p => exact absurd (if_pos rfl) (h.not_held hzero hi p)
    | _ => rfl
  · refine (h.parked r hr (hlive.trans hzero)).imp_right fun hpos => ?_
    obtain ⟨i, a, ha, hnotifies⟩ := exists_of_weight_pos _ hpos
    refine ⟨a, List.mem_of_getElem? ha, ?_⟩
    by_contra hne
    simp [Activity.notifies, hne] at hnotifies
  · obtain ⟨as, t, has, hexec, -, o, ho⟩ := Machine.exec_descends_within (M := machine) distance
      (fun s (hs : Inv s ∧ s.num_running_threads = 0) => hs.1.descends hs.2)
      ⟨h, hlive.trans hzero⟩
    exact ⟨as, t, o, has, hexec, ho⟩

end

/-- **Root scope safety**: in every run of `scope_send`, of the handles of its scope and of those
nested in it, in which whoever clones one of its handles finds fewer than `usize::MAX / 2`. -/
theorem scope_send_safe (as : List Label) (s : State) (h : machine.Run Bounded as s) : Safe s :=
  (Inv.inductive.of_run h).safe

/-- A continuation under a nested scope panics after the function has returned. -/
def latePanic : List Label :=
  [.clone none, .nest none, .clone (some 0), .run (some 0), .drop none, .drop (some 0),
    .drop (some 0), .drop (some 0), .release 1, .close .ok, .dropScope, .check, .release 2,
    .release 3, .release 4, .panic 0, .mark 0, .release 0, .mark 0, .release 0, .notify 0, .park,
    .check, .leave]

theorem latePanic_safe :
    ∃ s, machine.Run Bounded latePanic s ∧
      s.main = .done (.panicked "a scoped thread panicked") ∧ s.notified = 1 ∧ Safe s := by
  obtain ⟨s, hs, hmain, hnotified⟩ : ∃ s, machine.exec fresh latePanic = some s ∧
      s.main = .done (.panicked "a scoped thread panicked") ∧ s.notified = 1 :=
    Machine.exec_ends (by decide +kernel)
  have hrun : machine.Run Bounded latePanic s := .of_exec (by decide +kernel) hs
  exact ⟨s, hrun, hmain, hnotified, scope_send_safe latePanic s hrun⟩

end SendersReceivers.RootScope
