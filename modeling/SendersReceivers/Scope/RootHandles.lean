import SendersReceivers.Scope.Root

/-!
# Scope/RootHandles — where the handles of a scope are

Every handle is somewhere: free, in an activity, with the main thread, or the `outer_state` of a
nested scope; `num_running_threads` counts those of the root.  A panic is on its way to the root: it
is about to be marked, or it is marked in a nested scope that is still to end, or in the root.
-/

namespace SendersReceivers.RootScope

open Machinery

/-- One if the activity has a handle of `p`. -/
def Activity.holds (p : ScopeId) : Activity → ℕ
  | .running q | .panicked q | .releasing q => if q = p then 1 else 0
  | _ => 0

/-- Whether it is inside of a function that was run under the scope. -/
def Activity.active : Activity → Bool
  | .running _ | .panicked _ => true
  | _ => false

def Activity.overflows (a : Activity) : ℕ := if a = .overflowing then 1 else 0

/-- One while the last handle of the root is being dropped. -/
def Activity.notifies (a : Activity) : ℕ := if a = .notifying then 1 else 0

/-- One while a panic is still to be marked. -/
def Activity.unmarked : Activity → ℕ
  | .panicked _ => 1
  | _ => 0

/-- One if the scope has a handle of `p`. -/
def Nested.child (p : ScopeId) (sc : Nested) : ℕ :=
  if sc.outer_state = p ∧ 0 < sc.strong then 1 else 0

/-- One while the scope has a panic to pass on. -/
def Nested.flagged (sc : Nested) : ℕ := if sc.a_thread_panicked ∧ 0 < sc.strong then 1 else 0

/-- One while the main thread has a handle, which is one of the root. -/
def Main.holds (p : ScopeId) : Main → ℕ
  | .inside | .dropping _ => if none = p then 1 else 0
  | _ => 0

def Main.notifies : Main → ℕ
  | .notifying _ => 1
  | _ => 0

/-- Whether the main thread has found that no handle is left. -/
def Main.left : Main → Bool
  | .leaving _ | .done _ => true
  | _ => false

namespace State

/-- The handles that a scope counts. -/
def countOf (s : State) : ScopeId → ℕ
  | none => s.num_running_threads
  | some k => (s.scopes[k]?.map Nested.strong).getD 0

/-- The handles of a scope, wherever they are. -/
def handles (s : State) (p : ScopeId) : ℕ :=
  s.freeOf p + weight (Activity.holds p) s.activities + weight (Nested.child p) s.scopes +
    s.main.holds p

/-- The live handles of the root scope. -/
def live (s : State) : ℕ := s.handles none

/-- How many threads are about to run `notify`. -/
def notifies (s : State) : ℕ := weight Activity.notifies s.activities + s.main.notifies

end State

/-- **The condition**: whoever clones a handle of the root finds fewer than `usize::MAX / 2`. -/
def Bounded (s : State) : Label → Prop
  | .clone none | .nest none => s.live < usizeMax / 2
  | _ => True

instance (s : State) (l : Label) : Decidable (Bounded s l) := by
  unfold Bounded
  split <;> infer_instance

/-- **The invariant.** -/
structure Inv (s : State) : Prop where
  count : ∀ p, s.countOf p = s.handles p
  outer : ∀ (k : ℕ) sc, s.scopes[k]? = some sc → ∀ j, sc.outer_state = some j → j < k
  bounded : s.num_running_threads ≤ usizeMax / 2
  overflow : weight Activity.overflows s.activities = 0
  notify : s.notify = none ↔ s.notified = 1
  pending : s.notified + s.notifies = if s.num_running_threads = 0 then 1 else 0
  parked : ∀ r, s.main = .parking r → s.num_running_threads = 0 →
    s.token = true ∨ 0 < weight Activity.notifies s.activities
  left : s.main.left = true → s.num_running_threads = 0
  flag : s.anyPanicked = true → s.a_thread_panicked = true ∨
    0 < weight Activity.unmarked s.activities ∨ 0 < weight Nested.flagged s.scopes
  returned : s.main = .done .returned → s.anyPanicked = false
  panics : s.panics = []

section

variable {s t : State} {p q : ScopeId} {i k : ℕ} {a a' : Activity} {sc : Nested}
    {f : Nested → Nested}

/-! ## What the operations do to the counts -/

theorem handles_goto (ha : s.activities[i]? = some a) (a' : Activity) (p : ScopeId) :
    (s.goto i a').handles p + a.holds p = s.handles p + a'.holds p := by
  have hset := weight_set (Activity.holds p) ha a'
  have hfree : (s.goto i a').freeOf p = s.freeOf p := by cases p <;> rfl
  simp only [State.handles, hfree]
  simp only [State.goto] at hset ⊢
  omega

theorem countOf_goto (i : ℕ) (a : Activity) (p : ScopeId) :
    (s.goto i a).countOf p = s.countOf p := by
  cases p <;> rfl

/-- What the change of a nested scope does to the handles that are counted. -/
theorem countOf_modify (hk : s.scopes[k]? = some sc) (f : Nested → Nested) (p : ScopeId) :
    (s.modify k f).countOf p + (if p = some k then sc.strong else 0) =
      s.countOf p + if p = some k then (f sc).strong else 0 := by
  cases p with
  | none => rfl
  | some j =>
      by_cases hj : j = k
      · subst hj
        simp [State.countOf, State.modify, hk, Nat.add_comm]
      · have hne : ¬k = j := fun h => hj h.symm
        simp [State.countOf, State.modify, hj, hne]

theorem freeOf_modify (hk : s.scopes[k]? = some sc) (f : Nested → Nested) (p : ScopeId) :
    (s.modify k f).freeOf p + (if p = some k then sc.free else 0) =
      s.freeOf p + if p = some k then (f sc).free else 0 := by
  cases p with
  | none => rfl
  | some j =>
      by_cases hj : j = k
      · subst hj
        simp [State.freeOf, State.modify, hk, Nat.add_comm]
      · have hne : ¬k = j := fun h => hj h.symm
        simp [State.freeOf, State.modify, hj, hne]

theorem countOf_some (hk : s.scopes[k]? = some sc) : s.countOf (some k) = sc.strong := by
  simp [State.countOf, hk]

/-- …and to those there are. -/
theorem handles_modify (hk : s.scopes[k]? = some sc) (f : Nested → Nested) (p : ScopeId) :
    (s.modify k f).handles p + (if p = some k then sc.free else 0) + sc.child p =
      s.handles p + (if p = some k then (f sc).free else 0) + (f sc).child p := by
  have hweight := weight_modify (Nested.child p) hk f
  have hfree := freeOf_modify hk f p
  simp only [State.handles]
  simp only [State.modify] at hweight hfree ⊢
  omega

theorem outer_modify (hk : s.scopes[k]? = some sc) (hf : (f sc).outer_state = sc.outer_state)
    (h : ∀ (k : ℕ) sc, s.scopes[k]? = some sc → ∀ j, sc.outer_state = some j → j < k) :
    ∀ (i : ℕ) sc, (s.modify k f).scopes[i]? = some sc → ∀ j, sc.outer_state = some j → j < i := by
  intro i sc' hi j hj
  rw [State.modify, List.getElem?_modify] at hi
  by_cases hik : k = i
  · subst hik
    simp only [hk, if_true, Option.map_eq_map, Option.map_some, Option.some.injEq] at hi
    subst hi
    exact h k sc hk j (hf ▸ hj)
  · simp only [hik, if_false, Option.map_eq_map, Option.map_id'] at hi
    exact h i sc' hi j hj

theorem fetchSub_eq (hpos : 0 < s.num_running_threads)
    (hle : s.num_running_threads ≤ usizeMax / 2) :
    s.fetchSub = { s with num_running_threads := s.num_running_threads - 1 } := by
  have hnum : (s.num_running_threads + usizeMax) % (usizeMax + 1) = s.num_running_threads - 1 := by
    unfold usizeMax at hle ⊢
    omega
  rw [State.fetchSub, hnum]

theorem fetchAdd_eq (hle : s.num_running_threads ≤ usizeMax / 2) :
    s.fetchAdd = { s with num_running_threads := s.num_running_threads + 1 } := by
  have hnum : (s.num_running_threads + 1) % (usizeMax + 1) = s.num_running_threads + 1 := by
    unfold usizeMax at hle ⊢
    omega
  rw [State.fetchAdd, hnum]

theorem exists_of_countOf_pos (h : 0 < s.countOf (some k)) :
    ∃ sc, s.scopes[k]? = some sc ∧ 0 < sc.strong := by
  cases hk : s.scopes[k]? with
  | none => simp [State.countOf, hk] at h
  | some sc => exact ⟨sc, rfl, by simpa [State.countOf, hk] using h⟩

theorem exists_of_freeOf_pos (h : 0 < s.freeOf (some k)) :
    ∃ sc, s.scopes[k]? = some sc ∧ 0 < sc.free := by
  cases hk : s.scopes[k]? with
  | none => simp [State.freeOf, hk] at h
  | some sc => exact ⟨sc, rfl, by simpa [State.freeOf, hk] using h⟩

/-- The handle that an activity has is counted. -/
theorem Inv.count_pos (h : Inv s) (ha : s.activities[i]? = some a) (hp : a.holds p = 1) :
    0 < s.countOf p := by
  have hle := le_weight (Activity.holds p) ha
  have hcount := h.count p
  simp only [State.handles] at hcount
  omega

theorem Inv.count_of_hasHandle (h : Inv s) (hp : s.hasHandle p = true) : 0 < s.countOf p := by
  simp only [State.hasHandle, Bool.or_eq_true, decide_eq_true_eq, Bool.and_eq_true,
    beq_iff_eq, List.contains_iff_mem] at hp
  rcases hp with (hfree | hmem) | ⟨rfl, hmain⟩
  · have hcount := h.count p
    simp only [State.handles] at hcount
    omega
  · obtain ⟨i, hi⟩ := List.mem_iff_getElem?.mp hmem
    exact h.count_pos hi (if_pos rfl)
  · have hcount := h.count none
    simp only [State.handles, hmain, Main.holds, if_true] at hcount
    omega

/-! ## Nothing is left of a scope without handles -/

/-- A nested scope that is live keeps those around it live. -/
theorem Inv.outer_pos (h : Inv s) (hk : s.scopes[k]? = some sc) (hpos : 0 < sc.strong) :
    0 < s.countOf sc.outer_state := by
  have hle := le_weight (Nested.child sc.outer_state) hk
  have hcount := h.count sc.outer_state
  rw [Nested.child, if_pos ⟨rfl, hpos⟩] at hle
  simp only [State.handles] at hcount
  omega

/-- **Without a handle of the root, nothing runs under it**, and no nested scope is left. -/
theorem Inv.countOf_eq_zero (h : Inv s) (hzero : s.num_running_threads = 0) (p : ScopeId) :
    s.countOf p = 0 := by
  cases p with
  | none => exact hzero
  | some k =>
      induction k using Nat.strong_induction_on with
      | _ k ih =>
          by_contra hne
          obtain ⟨sc, hk, hpos⟩ := exists_of_countOf_pos (Nat.pos_of_ne_zero hne)
          have houter := h.outer_pos hk hpos
          cases hsc : sc.outer_state with
          | none => exact absurd hzero (by rw [hsc] at houter; exact houter.ne')
          | some j =>
              rw [hsc] at houter
              exact absurd (ih j (h.outer k sc hk j hsc)) houter.ne'

theorem Inv.not_held (h : Inv s) (hzero : s.num_running_threads = 0)
    (ha : s.activities[i]? = some a) (p : ScopeId) : a.holds p ≠ 1 := fun hp =>
  absurd (h.countOf_eq_zero hzero p) (h.count_pos ha hp).ne'

/-- A panic has been marked in the root by then. -/
theorem Inv.marked (h : Inv s) (hzero : s.num_running_threads = 0) (hp : s.anyPanicked = true) :
    s.a_thread_panicked = true := by
  rcases h.flag hp with hflag | hunmarked | hflagged
  · exact hflag
  · obtain ⟨i, a, ha, hpos⟩ := exists_of_weight_pos _ hunmarked
    cases a with
    | panicked p => exact absurd (if_pos rfl) (h.not_held hzero ha p)
    | _ => exact absurd hpos (lt_irrefl 0)
  · obtain ⟨k, sc, hk, hpos⟩ := exists_of_weight_pos _ hflagged
    have hdead := h.countOf_eq_zero hzero (some k)
    rw [countOf_some hk] at hdead
    simp [Nested.flagged, hdead] at hpos

/-! ## Clones -/

/-- One more handle is counted, and it is not anywhere yet. -/
def State.counted (s : State) : ScopeId → State
  | none => { s with num_running_threads := s.num_running_threads + 1 }
  | some k => s.modify k fun sc => { sc with strong := sc.strong + 1 }

theorem clone_eq (hle : s.num_running_threads ≤ usizeMax / 2) (cloned : State → State)
    (p : ScopeId) : s.clone cloned p = cloned (s.counted p) := by
  cases p with
  | none => rw [State.clone, State.increment, if_neg (Nat.not_lt.mpr hle), fetchAdd_eq hle]; rfl
  | some k => rfl

theorem countOf_counted (hpos : 0 < s.countOf p) (q : ScopeId) :
    (s.counted p).countOf q = s.countOf q + if q = p then 1 else 0 := by
  cases p with
  | none => cases q <;> rfl
  | some k =>
      obtain ⟨sc, hk, -⟩ := exists_of_countOf_pos hpos
      have hcount := countOf_modify hk (fun sc => { sc with strong := sc.strong + 1 }) q
      rw [State.counted]
      simp only at hcount
      split_ifs at hcount ⊢ <;> omega

theorem handles_counted (hpos : 0 < s.countOf p) (q : ScopeId) :
    (s.counted p).handles q = s.handles q := by
  cases p with
  | none => cases q <;> rfl
  | some k =>
      obtain ⟨sc, hk, hstrong⟩ := exists_of_countOf_pos hpos
      have hmodify := handles_modify hk (fun sc => { sc with strong := sc.strong + 1 }) q
      have hchild : Nested.child q { sc with strong := sc.strong + 1 } = sc.child q := by
        simp [Nested.child, hstrong]
      rw [hchild] at hmodify
      rw [State.counted]
      simp only at hmodify
      omega

/-- What a clone leaves alone. -/
structure Grows (s t : State) : Prop where
  main : t.main = s.main
  token : t.token = s.token
  activities : t.activities = s.activities
  notify : t.notify = s.notify
  notified : t.notified = s.notified
  flag : t.a_thread_panicked = s.a_thread_panicked
  anyPanicked : t.anyPanicked = s.anyPanicked
  panics : t.panics = s.panics
  zero : t.num_running_threads = 0 ↔ s.num_running_threads = 0
  flagged : weight Nested.flagged t.scopes = weight Nested.flagged s.scopes

theorem Grows.trans {u : State} (h : Grows s t) (h' : Grows t u) : Grows s u where
  main := h'.main.trans h.main
  token := h'.token.trans h.token
  activities := h'.activities.trans h.activities
  notify := h'.notify.trans h.notify
  notified := h'.notified.trans h.notified
  flag := h'.flag.trans h.flag
  anyPanicked := h'.anyPanicked.trans h.anyPanicked
  panics := h'.panics.trans h.panics
  zero := h'.zero.trans h.zero
  flagged := h'.flagged.trans h.flagged

theorem Inv.grow (h : Inv s) (hg : Grows s t) (hcount : ∀ p, t.countOf p = t.handles p)
    (houter : ∀ (k : ℕ) sc, t.scopes[k]? = some sc → ∀ j, sc.outer_state = some j → j < k)
    (hbounded : t.num_running_threads ≤ usizeMax / 2) : Inv t where
  count := hcount
  outer := houter
  bounded := hbounded
  overflow := by rw [hg.activities, h.overflow]
  notify := by rw [hg.notify, hg.notified, h.notify]
  pending := by
    rw [hg.notified, State.notifies, hg.activities, hg.main]
    simp only [hg.zero]
    exact h.pending
  parked r hr hzero := by
    rw [hg.token, hg.activities]
    exact h.parked r (hg.main ▸ hr) (hg.zero.mp hzero)
  left hleft := hg.zero.mpr (h.left (hg.main ▸ hleft))
  flag hany := by
    rw [hg.flag, hg.activities, hg.flagged]
    exact h.flag (hg.anyPanicked ▸ hany)
  returned hmain := hg.anyPanicked.trans (h.returned (hg.main ▸ hmain))
  panics := hg.panics.trans h.panics

/-- The count of the root stays below the bound of the overflow check. -/
theorem Inv.bounded_counted (h : Inv s) (hb : p = none → s.live < usizeMax / 2) :
    (s.counted p).num_running_threads ≤ usizeMax / 2 := by
  cases p with
  | none =>
      have hcount := h.count none
      have hlt := hb rfl
      simp only [State.live, State.countOf, State.counted] at hcount hlt ⊢
      omega
  | some k => exact h.bounded

theorem grows_counted (hpos : 0 < s.countOf p) : Grows s (s.counted p) := by
  cases p with
  | none => exact ⟨rfl, rfl, rfl, rfl, rfl, rfl, rfl, rfl,
      ⟨fun h => absurd h (Nat.succ_ne_zero _), fun h => absurd h hpos.ne'⟩, rfl⟩
  | some k =>
      obtain ⟨sc, hk, hstrong⟩ := exists_of_countOf_pos hpos
      have hweight := weight_modify Nested.flagged hk fun sc => { sc with strong := sc.strong + 1 }
      have hsame : Nested.flagged { sc with strong := sc.strong + 1 } = sc.flagged := by
        simp [Nested.flagged, hstrong]
      refine ⟨rfl, rfl, rfl, rfl, rfl, rfl, rfl, rfl, Iff.rfl, ?_⟩
      simp only [State.counted, State.modify]
      omega

theorem outer_counted (h : Inv s) (hpos : 0 < s.countOf p) : ∀ (k : ℕ) sc,
    (s.counted p).scopes[k]? = some sc → ∀ j, sc.outer_state = some j → j < k := by
  cases p with
  | none => exact h.outer
  | some k =>
      obtain ⟨sc, hk, -⟩ := exists_of_countOf_pos hpos
      exact outer_modify hk rfl h.outer

/-- A handle that is counted is put somewhere. -/
theorem Inv.put (h : Inv s) (hpos : 0 < s.countOf p) (hb : p = none → s.live < usizeMax / 2) :
    Inv ((s.counted p).put p) := by
  have hgrows := grows_counted hpos
  have hcounted := countOf_counted hpos p
  have hle := h.bounded_counted hb
  have houter := outer_counted h hpos
  have hsum (q : ScopeId) : (s.counted p).countOf q = (s.counted p).handles q +
      if q = p then 1 else 0 := by
    rw [countOf_counted hpos, handles_counted hpos, h.count]
  have hpos' : 0 < (s.counted p).countOf p := by
    rw [hcounted, if_pos rfl]
    omega
  generalize s.counted p = s' at hgrows hle houter hsum hpos'
  cases p with
  | none =>
      refine h.grow (hgrows.trans ⟨rfl, rfl, rfl, rfl, rfl, rfl, rfl, rfl, Iff.rfl, rfl⟩)
        (fun q => ?_) houter hle
      have hq := hsum q
      cases q with
      | none =>
          simp only [State.countOf, State.handles, State.put, State.freeOf, if_true] at hq ⊢
          omega
      | some j => exact hq
  | some k =>
      obtain ⟨sc, hk, -⟩ := exists_of_countOf_pos hpos'
      have hflagged := weight_modify Nested.flagged hk fun sc => { sc with free := sc.free + 1 }
      have hzero : Nested.flagged { sc with free := sc.free + 1 } = sc.flagged := rfl
      refine h.grow (hgrows.trans ⟨rfl, rfl, rfl, rfl, rfl, rfl, rfl, rfl, Iff.rfl, ?_⟩)
        (fun q => ?_) (outer_modify hk rfl houter) hle
      · simp only [State.put, State.modify]
        omega
      · have hmodify := handles_modify hk (fun sc => { sc with free := sc.free + 1 }) q
        have hcount := countOf_modify hk (fun sc => { sc with free := sc.free + 1 }) q
        have hchild : Nested.child q { sc with free := sc.free + 1 } = sc.child q := rfl
        have hq := hsum q
        rw [hchild] at hmodify
        rw [State.put]
        simp only at hmodify hcount
        split_ifs at hmodify hcount hq <;> omega

/-- A handle that is counted becomes the `outer_state` of a nested scope. -/
theorem Inv.newScope (h : Inv s) (hpos : 0 < s.countOf p)
    (hb : p = none → s.live < usizeMax / 2) : Inv ((s.counted p).newScope p) := by
  have hgrows := grows_counted hpos
  have hle := h.bounded_counted hb
  have houter := outer_counted h hpos
  have hsum (q : ScopeId) : (s.counted p).countOf q = (s.counted p).handles q +
      if q = p then 1 else 0 := by
    rw [countOf_counted hpos, handles_counted hpos, h.count]
  have hpos' : ∀ k, p = some k → k < (s.counted p).scopes.length := by
    rintro k rfl
    obtain ⟨sc, hk, -⟩ := exists_of_countOf_pos hpos
    have hlt := (List.getElem?_eq_some_iff.mp hk).1
    simpa [State.counted, State.modify] using hlt
  generalize s.counted p = s' at hgrows hle houter hsum hpos'
  refine h.grow (hgrows.trans ⟨rfl, rfl, rfl, rfl, rfl, rfl, rfl, rfl, Iff.rfl, ?_⟩) (fun q => ?_)
    (fun k sc hk j hj => ?_) hle
  · simp [State.newScope, Nested.flagged]
  · have hq := hsum q
    have hchild : Nested.child q ⟨p, 3, false, 3⟩ = if q = p then 1 else 0 := by
      simp [Nested.child, eq_comm]
    cases q with
    | none =>
        simp only [State.newScope, State.handles, State.countOf, State.freeOf, weight_append,
          weight_cons, weight_nil, hchild] at hq ⊢
        omega
    | some j =>
        have hnone : j = s'.scopes.length → some j ≠ p := fun hj heq =>
          absurd (hpos' j heq.symm) (by omega)
        simp only [State.newScope, State.handles, State.countOf, State.freeOf, weight_append,
          weight_cons, weight_nil, hchild] at hq ⊢
        by_cases hj : j < s'.scopes.length
        · rw [List.getElem?_append_left hj]
          omega
        · rw [List.getElem?_eq_none (Nat.not_lt.mp hj)] at hq
          by_cases hlen : j = s'.scopes.length
          · subst hlen
            rw [if_neg (hnone rfl)] at hq ⊢
            simp only [List.getElem?_concat_length, Option.map_some, Option.map_none,
              Option.getD_some, Option.getD_none] at hq ⊢
            omega
          · rw [List.getElem?_eq_none (by simp; omega)]
            omega
  · simp only [State.newScope] at hk
    rcases Nat.lt_or_ge k s'.scopes.length with hlt | hge
    · rw [List.getElem?_append_left hlt] at hk
      exact houter k sc hk j hj
    · have hlen : k = s'.scopes.length := by
        have := (List.getElem?_eq_some_iff.mp hk).1
        simp only [List.length_append, List.length_singleton] at this
        omega
      subst hlen
      obtain rfl : ⟨p, 3, false, 3⟩ = sc := by simpa using hk
      exact hpos' j hj

/-! ## Activities -/

/-- **An activity goes on**, in a state whose counts agree. -/
theorem Inv.goto (h : Inv s) (ha : s.activities[i]? = some a) (hover : a'.overflows = 0)
    (hnotifies : a'.notifies = a.notifies) (hunmarked : a.unmarked ≤ a'.unmarked)
    (hcount : ∀ p, (s.goto i a').countOf p = (s.goto i a').handles p) : Inv (s.goto i a') where
  count := hcount
  outer := h.outer
  bounded := h.bounded
  overflow := by
    have hset := weight_set Activity.overflows ha a'
    have hzero := h.overflow
    simp only [State.goto]
    omega
  notify := h.notify
  pending := by
    have hset := weight_set Activity.notifies ha a'
    refine Eq.trans ?_ h.pending
    simp only [State.goto, State.notifies]
    omega
  parked r hr hzero := by
    have hset := weight_set Activity.notifies ha a'
    refine (h.parked r hr hzero).imp_right fun hpos => ?_
    simp only [State.goto]
    omega
  left := h.left
  flag hany := by
    have hset := weight_set Activity.unmarked ha a'
    refine (h.flag hany).imp_right (Or.imp_left fun hpos => ?_)
    simp only [State.goto]
    omega
  returned := h.returned
  panics := h.panics

/-- The counts do not change while an activity keeps its handle. -/
theorem Inv.count_goto (h : Inv s) (ha : s.activities[i]? = some a) (a' : Activity)
    (hholds : ∀ p, a'.holds p = a.holds p) (p : ScopeId) :
    (s.goto i a').countOf p = (s.goto i a').handles p := by
  have hgoto := handles_goto ha a' p
  rw [countOf_goto, h.count]
  rw [hholds] at hgoto
  omega

theorem Inv.ret (h : Inv s) (ha : s.activities[i]? = some (.running p)) :
    Inv (s.goto i (.releasing p)) :=
  h.goto ha rfl rfl (Nat.zero_le _) (h.count_goto ha _ fun _ => rfl)

theorem Inv.panic (h : Inv s) (ha : s.activities[i]? = some (.running p)) :
    Inv { s.goto i (.panicked p) with anyPanicked := true } := by
  have hgoto : Inv (s.goto i (.panicked p)) :=
    h.goto ha rfl rfl (Nat.zero_le _) (h.count_goto ha _ fun _ => rfl)
  have hset := weight_set Activity.unmarked ha (.panicked p)
  refine { hgoto with
    count := fun q => by
      cases q with
      | none => exact hgoto.count none
      | some k => exact hgoto.count (some k)
    flag := fun _ => .inr (.inl ?_)
    returned := fun hmain => ?_ }
  · simp only [Activity.unmarked] at hset
    simp only [State.goto]
    omega
  · have hzero := h.left (by rw [show s.main = _ from hmain]; rfl)
    exact absurd (if_pos rfl) (h.not_held hzero ha p)

/-- The activity that a panic is marked by lets go of its handle next. -/
theorem Inv.mark (h : Inv s) (ha : s.activities[i]? = some (.panicked p)) :
    Inv ((s.mark p).goto i (.releasing p)) := by
  have hover := weight_set Activity.overflows ha (.releasing p)
  have hnotifies := weight_set Activity.notifies ha (.releasing p)
  have hpos := h.count_pos ha (p := p) (if_pos rfl)
  have hcount := h.count_goto ha (.releasing p) fun _ => rfl
  simp only [Activity.overflows, Activity.notifies, reduceCtorEq, if_false] at hover hnotifies
  have hzero := h.overflow
  cases p with
  | none =>
      exact { h with
        count := fun q => by
          cases q with
          | none => exact hcount none
          | some k => exact hcount (some k)
        overflow := by
          simp only [State.mark, State.goto]
          omega
        pending := by
          refine Eq.trans ?_ h.pending
          simp only [State.mark, State.goto, State.notifies]
          omega
        parked := fun r hr hz => (h.parked r hr hz).imp_right fun hp => by
          simp only [State.mark, State.goto]
          omega
        flag := fun _ => .inl rfl }
  | some k =>
      obtain ⟨sc, hk, hstrong⟩ := exists_of_countOf_pos hpos
      have hgoto : (s.goto i (.releasing (some k))).scopes[k]? = some sc := hk
      have hflagged := weight_modify Nested.flagged hk fun sc =>
        { sc with a_thread_panicked := true }
      have hone : Nested.flagged { sc with a_thread_panicked := true } = 1 := by
        simp [Nested.flagged, hstrong]
      have hle := le_weight Nested.flagged hk
      exact { h with
        count := fun q => by
          have hq := hcount q
          have hmodify := handles_modify hgoto (fun sc => { sc with a_thread_panicked := true }) q
          have hsame := countOf_modify hgoto (fun sc => { sc with a_thread_panicked := true }) q
          have hchild : Nested.child q { sc with a_thread_panicked := true } = sc.child q := rfl
          change ((s.goto i (.releasing (some k))).modify k _).countOf q =
            ((s.goto i (.releasing (some k))).modify k _).handles q
          rw [hchild] at hmodify
          simp only at hmodify hsame
          omega
        outer := outer_modify hgoto rfl h.outer
        overflow := by
          simp only [State.mark, State.modify, State.goto]
          omega
        pending := by
          refine Eq.trans ?_ h.pending
          simp only [State.mark, State.modify, State.goto, State.notifies]
          omega
        parked := fun r hr hz => (h.parked r hr hz).imp_right fun hp => by
          simp only [State.mark, State.modify, State.goto]
          omega
        flag := fun _ => .inr (.inr (by
          simp only [State.mark, State.modify, State.goto]
          omega)) }

theorem handles_push (s : State) (a : Activity) (p : ScopeId) :
    (s.push a).handles p = s.handles p + a.holds p := by
  have hfree : (s.push a).freeOf p = s.freeOf p := by cases p <;> rfl
  simp only [State.handles, hfree]
  simp only [State.push, weight_append, weight_cons, weight_nil]
  omega

theorem count_take (h : Inv s) (hfree : 0 < s.freeOf p)
    (hholds : ∀ q, a.holds q = if q = p then 1 else 0) (q : ScopeId) :
    (s.take p a).countOf q = (s.take p a).handles q := by
  have hq := h.count q
  have hpush := handles_push s a q
  rw [hholds] at hpush
  cases p with
  | none =>
      cases q with
      | none =>
          simp only [State.handles, State.freeOf, State.countOf, State.take, State.push, if_true]
            at hq hpush hfree ⊢
          omega
      | some k => exact hq.trans hpush.symm
  | some k =>
      obtain ⟨sc, hk, hpos⟩ := exists_of_freeOf_pos hfree
      have hk' : (s.push a).scopes[k]? = some sc := hk
      have hmodify := handles_modify hk' (fun sc => { sc with free := sc.free - 1 }) q
      have hcount := countOf_modify hk' (fun sc => { sc with free := sc.free - 1 }) q
      have hchild : Nested.child q { sc with free := sc.free - 1 } = sc.child q := rfl
      have hsame : (s.push a).countOf q = s.countOf q := by cases q <;> rfl
      rw [hchild] at hmodify
      rw [State.take]
      simp only at hmodify hcount
      split_ifs at hmodify hcount hpush <;> omega

/-- What an activity that begins leaves alone. -/
theorem take_frame (s : State) (p : ScopeId) (a : Activity) :
    s.take p a = { s.push a with free := (s.take p a).free, scopes := (s.take p a).scopes } := by
  cases p <;> rfl

theorem flagged_take (hfree : 0 < s.freeOf p) :
    weight Nested.flagged (s.take p a).scopes = weight Nested.flagged s.scopes := by
  cases p with
  | none => rfl
  | some k =>
      obtain ⟨sc, hk, -⟩ := exists_of_freeOf_pos hfree
      have hmodify := weight_modify Nested.flagged hk fun sc => { sc with free := sc.free - 1 }
      have hsame : Nested.flagged { sc with free := sc.free - 1 } = sc.flagged := rfl
      simp only [State.take, State.modify, State.push]
      omega

/-- A handle that was free goes into an activity. -/
theorem Inv.take (h : Inv s) (hfree : 0 < s.freeOf p)
    (hholds : ∀ q, a.holds q = if q = p then 1 else 0) (hover : a.overflows = 0)
    (hnotifies : a.notifies = 0) : Inv (s.take p a) := by
  have hcount := count_take h hfree hholds
  have hflagged := flagged_take (a := a) hfree
  have houter : ∀ (k : ℕ) sc, (s.take p a).scopes[k]? = some sc →
      ∀ j, sc.outer_state = some j → j < k := by
    cases p with
    | none => exact h.outer
    | some k =>
        obtain ⟨sc, hk, -⟩ := exists_of_freeOf_pos hfree
        exact outer_modify (s := s.push a) hk rfl h.outer
  rw [take_frame] at hcount hflagged houter ⊢
  have hweight (w : Activity → ℕ) :
      weight w (s.push a).activities = weight w s.activities + w a := by
    simp [State.push]
  exact {
    count := hcount
    outer := houter
    bounded := h.bounded
    overflow := by rw [hweight, h.overflow, hover]
    notify := h.notify
    pending := by
      refine Eq.trans ?_ h.pending
      simp only [State.notifies, hweight, hnotifies]
      rfl
    parked := fun r hr hzero => by
      rw [hweight]
      exact (h.parked r hr hzero).imp_right fun hpos => Nat.add_pos_left hpos _
    left := h.left
    flag := fun hany => by
      rw [hweight, hflagged]
      exact (h.flag hany).imp_right (Or.imp_left fun hpos => Nat.add_pos_left hpos _)
    returned := h.returned
    panics := h.panics }

end

end SendersReceivers.RootScope
