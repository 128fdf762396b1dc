import SendersReceivers.Scope.Invariant

/-!
# Scope/Delivery — nested scopes deliver the inner signal, late and once

A scope that still holds its outer one keeps it from ending, and a marked scope marks the outer one
before it lets go.  So above a marked scope every scope is alive or marked, up to the root.

    marked ──▸ alive ──▸ alive ──▸ … ──▸ root          (nothing has ended yet)
    marked ──▸ marked ──▸ alive ──▸ … ──▸ root         (one destructor has run)
-/

namespace SendersReceivers.Scope

open Machinery

variable {P V E : Type} {s t : State P V E} {i p : ℕ} {c c' : ScopeData P V E}
  {data : Nested P V E}

/-- Scope `p` is scope `i`, or one around it. -/
inductive Within (s : State P V E) (i : ℕ) : ℕ → Prop
  | self : Within s i i
  | outer {j o : ℕ} {c : ScopeData P V E} :
      Within s i j → s.scopes[j]? = some c → c.outer? = some o → Within s i o

/-- The steps of the destructor of scope `i`. -/
def destructor (P V E : Type) (i : ℕ) : List (Label P V E) :=
  [.destruct i, .returned i .returns, .dropOuter i, .dropRcv i]

/-- The signals the inner receiver of scope `i` was called with, in the order of the calls. -/
def completions (i : ℕ) (ls : List (Label P V E)) : List (Signal P V E) :=
  ls.filterMap fun l =>
    match l with
    | .complete j sig => if j = i then some sig else none
    | _ => none

/-- **What becomes of the outer receiver of a nested scope**, after the steps `ls`. -/
structure Delivers (ls : List (Label P V E)) (s : State P V E) (i : ℕ) (c : ScopeData P V E)
    (data : Nested P V E) : Prop where
  once : data.called.length ≤ 1
  /-- not while there is a handle of the scope -/
  late : data.called ≠ [] → c.strong = 0
  completedOnce : (completions i ls).length ≤ 1
  /-- the signal of the inner receiver, unless the scope is marked -/
  exactly : data.phase.Past →
    data.called = if c.a_thread_panicked = true then [] else completions i ls
  destroyed : data.phase = .dead → (data.destroyed = true ↔ data.called = [])
  /-- without a handle, the destructor can go on until it is done -/
  progress : c.strong = 0 → data.phase = .dead ∨ ∃ l ∈ destructor P V E i, step s l ≠ none
  /-- a panic is not followed by a signal, here or further out -/
  isolates : c.a_thread_panicked = true → ∀ (p : ℕ) c' data', Within s i p →
    s.scopes[p]? = some c' → c'.kind = .nested data' → data'.called = []

/-- A live scope, or one that was marked, has not called its receiver. -/
theorem Inv.called_eq_nil (h : Inv s) (hi : s.scopes[i]? = some c) (hkind : c.kind = .nested data)
    (hspared : 0 < c.strong ∨ c.a_thread_panicked = true) : data.called = [] := by
  have hok := h.shaped.ok i c hi
  rw [ScopeData.Ok, hkind] at hok
  by_cases hpast : data.phase.Past
  · rcases hspared with hpos | hpanicked
    · rw [hok.live.mp hpos] at hpast
      exact hpast.elim
    · exact (hok.spared hpast hpanicked).1
  · exact (hok.waiting hpast).2.2.1

/-- **Around a scope that is alive or marked, every scope is.** -/
theorem Inv.within_spared (h : Inv s) (hi : s.scopes[i]? = some c)
    (hspared : 0 < c.strong ∨ c.a_thread_panicked = true) (hp : Within s i p)
    (hp' : s.scopes[p]? = some c') : 0 < c'.strong ∨ c'.a_thread_panicked = true := by
  induction hp generalizing c' with
  | self =>
      obtain rfl := Option.some.inj (hi.symm.trans hp')
      exact hspared
  | @outer j o d hj hd ho ih =>
      have hspared := ih hd
      obtain ⟨data, hkind⟩ : ∃ data, d.kind = .nested data := by
        cases hk : d.kind with
        | root notify => simp [ScopeData.outer?, hk] at ho
        | nested data => exact ⟨data, rfl⟩
      have hok := h.shaped.ok j d hd
      rw [ScopeData.Ok, hkind] at hok
      obtain rfl : data.outer_state = o := by simpa [ScopeData.outer?, hkind] using ho
      by_cases hpast : data.phase.Past
      · have hpanicked : d.a_thread_panicked = true := by
          refine hspared.resolve_left fun hpos => ?_
          rw [hok.live.mp hpos] at hpast
          exact hpast
        obtain ⟨co, hco, hmarked⟩ := h.shaped.escalates j d _ hd ho ⟨data, hkind, hpast, hpanicked⟩
        obtain rfl := Option.some.inj (hp'.symm.trans hco)
        exact .inr hmarked
      · have hholds : 0 < data.phase.holds := by
          cases hphase : data.phase <;> simp [hphase, Phase.Past, Phase.holds] at hpast ⊢
        obtain ⟨co, hco, hpos, -⟩ := h.outer_scope hd hkind hholds
        obtain rfl := Option.some.inj (hp'.symm.trans hco)
        exact .inl hpos

/-- Every scope is nested in the root. -/
theorem Inv.within_root (h : Inv s) (hi : i < s.scopes.length) : Within s i 0 := by
  have key (j : ℕ) : j < s.scopes.length → Within s i j → Within s i 0 := by
    induction j using Nat.strong_induction_on with
    | _ j ih =>
        intro hj hwithin
        have hget := List.getElem?_eq_getElem hj
        cases ho : s.scopes[j].outer? with
        | none =>
            obtain rfl := h.shaped.nested j _ hget ho
            exact hwithin
        | some o =>
            have hlt := h.shaped.outer j _ o hget ho
            exact ih o hlt (by omega) (.outer hwithin hget ho)
  exact key i hi .self

/-- A destructor that has begun can go on. -/
theorem Inv.progress (h : Inv s) (hi : s.scopes[i]? = some c) (hkind : c.kind = .nested data)
    (hzero : c.strong = 0) :
    data.phase = .dead ∨ ∃ l ∈ destructor P V E i, Scope.step s l ≠ none := by
  have hok := h.shaped.ok i c hi
  rw [ScopeData.Ok, hkind] at hok
  have hlive : data.phase ≠ .live := fun hphase => absurd (hok.live.mpr hphase) (by omega)
  cases hphase : data.phase with
  | live => exact absurd hphase hlive
  | ended =>
      exact .inr ⟨.destruct i, by simp [destructor], by
        simp [Scope.step, State.withNested, hi, hkind, hphase]⟩
  | forwarding =>
      exact .inr ⟨.returned i .returns, by simp [destructor], by
        simp [Scope.step, State.withNested, hi, hkind, hphase]⟩
  | releasing =>
      exact .inr ⟨.dropOuter i, by simp [destructor], by
        simp [Scope.step, State.withNested, hi, hkind, hphase]⟩
  | released =>
      exact .inr ⟨.dropRcv i, by simp [destructor], by
        simp [Scope.step, State.withNested, hi, hkind, hphase]⟩
  | dead => exact .inl rfl

/-! ## What the inner receivers are called with -/

/-- The signal in scope `c`. -/
def ScopeData.stored (c : ScopeData P V E) : List (Signal P V E) :=
  match c.kind with
  | .root _ => []
  | .nested data => data.stored.toList

/-- The signal in scope `i`, if there is such a scope. -/
def State.stored (s : State P V E) (i : ℕ) : List (Signal P V E) :=
  s.scopes[i]?.elim [] ScopeData.stored

theorem ScopeData.stored_nested (hkind : c.kind = .nested data) :
    c.stored = data.stored.toList := by
  rw [ScopeData.stored, hkind]

theorem State.stored_eq (hi : s.scopes[i]? = some c) : s.stored i = c.stored := by
  rw [State.stored, hi]
  rfl

theorem stored_put (hi : i < s.scopes.length) (hc : c'.stored = s.stored i) :
    (s.put i c').stored = s.stored := by
  funext j
  rw [State.stored, put_scopes (List.getElem?_eq_getElem hi)]
  split
  · next hij =>
      subst hij
      exact hc
  · rfl

/-- Scope `i` changes, but not what is stored in it. -/
theorem stored_put_same (hi : s.scopes[i]? = some c) (hc : c'.stored = c.stored) :
    (s.put i c').stored = s.stored :=
  stored_put (List.getElem?_eq_some_iff.mp hi).1 (hc.trans (State.stored_eq hi).symm)

theorem ScopeData.stored_drop (c : ScopeData P V E) : c.drop.stored = c.stored := by
  by_cases hlast : c.strong = 1
  · cases hkind : c.kind with
    | root notify => rw [drop_root hlast hkind, ScopeData.stored, ScopeData.stored, hkind]
    | nested data => rw [drop_nested hlast hkind, ScopeData.stored, ScopeData.stored, hkind]
  · rw [drop_of_ne hlast]
    rfl

theorem stored_drop (s : State P V E) (p : ℕ) : (s.drop p).stored = s.stored := by
  unfold State.drop
  split
  · next c hp => exact stored_put_same hp c.stored_drop
  · rfl

theorem markPanicked_stored (s : State P V E) (p : ℕ) :
    (s.markPanicked p).stored = s.stored ∧ (s.markPanicked p).scopes.length = s.scopes.length := by
  unfold State.markPanicked
  split
  · next hp => exact ⟨stored_put_same hp rfl, by simp [State.put]⟩
  · exact ⟨rfl, rfl⟩

theorem run_stored (s : State P V E) (p : ℕ) (outcome : Outcome) :
    (s.run p outcome).stored = s.stored ∧ (s.run p outcome).scopes.length = s.scopes.length := by
  cases outcome with
  | returns => exact ⟨rfl, rfl⟩
  | unwinds => exact markPanicked_stored s p

/-- A new scope at the end. -/
theorem stored_newScope (s : State P V E) (n : ScopeData P V E) (hn : n.stored = []) :
    State.stored { s with scopes := s.scopes ++ [n] } = s.stored := by
  funext j
  rw [State.stored, State.stored]
  rcases Nat.lt_trichotomy j s.scopes.length with hlt | rfl | hgt
  · rw [List.getElem?_append_left hlt]
  · simp [hn]
  · rw [List.getElem?_eq_none (by simpa using Nat.succ_le_of_lt hgt),
      List.getElem?_eq_none hgt.le]

/-- The inner receiver puts its signal into an empty cell. -/
theorem Inv.stored_complete (h : Inv s) (hi : s.scopes[i]? = some c) (hkind : c.kind = .nested data)
    (hheld : data.inner = .held) (sig : Signal P V E) (j : ℕ) :
    (Scope.complete s i c data sig).stored j = s.stored j ++ if i = j then [sig] else [] := by
  have hok := h.shaped.ok i c hi
  rw [ScopeData.Ok, hkind] at hok
  have hlive : data.phase = .live := hok.live.mp (h.counted.strong_pos hi (.inr (.inl (by
    simp [ScopeData.inner, hkind, hheld, InnerScopeReceiver.holds]))))
  have hstored := hok.held hheld
  have hnone : data.shared_value = none :=
    (hok.waiting (by simp [hlive, Phase.Past])).2.1.trans hstored
  rw [Scope.complete, hnone, State.stored, State.stored, put_scopes hi]
  split
  · next hij =>
      subst hij
      simp [hi, ScopeData.stored, hkind, hstored]
  · simp

/-- The destructor leaves the record of the signal as it is. -/
theorem stored_destruct (hi : s.scopes[i]? = some c) (hkind : c.kind = .nested data) :
    (Scope.destruct s i c data).stored = s.stored := by
  have hlt := (List.getElem?_eq_some_iff.mp hi).1
  have hc : data.stored.toList = s.stored i :=
    (ScopeData.stored_nested hkind).symm.trans (State.stored_eq hi).symm
  unfold Scope.destruct
  split
  · obtain ⟨hstored, hlength⟩ := markPanicked_stored s data.outer_state
    rw [stored_put (hlength ▸ hlt) (by rw [hstored]; exact hc), hstored]
  · split
    · refine stored_put hlt ?_
      unfold forward
      split <;> exact hc
    · rfl

/-- **One step**: a signal gets into a scope if its inner receiver is called with it. -/
theorem Inv.stored_step {l : Label P V E} (h : Inv s) (hs : Scope.step s l = some t) (j : ℕ) :
    t.stored j = s.stored j ++ completions j [l] := by
  have same (hsame : t.stored = s.stored) : t.stored j = s.stored j ++ [] := by
    rw [hsame, List.append_nil]
  cases l with
  | clone p =>
      obtain ⟨c, hp, -, rfl⟩ := withHandle_eq hs
      exact same (stored_put_same hp rfl)
  | drop p =>
      obtain ⟨c, hp, -, rfl⟩ := withHandle_eq hs
      exact same ((stored_drop _ p).trans (stored_put_same hp rfl))
  | newScope p =>
      obtain ⟨c, hp, -, rfl⟩ := withHandle_eq hs
      exact same ((stored_newScope (s.put p c.clone) (ScopeData.new p) rfl).trans
        (stored_put_same hp rfl))
  | run p outcome =>
      obtain ⟨c, hp, -, rfl⟩ := withHandle_eq hs
      exact same (run_stored s p outcome).1
  | complete i sig =>
      obtain ⟨c, data, hi, hkind, hheld, rfl⟩ := withNested_eq hs
      rw [h.stored_complete hi hkind (of_decide_eq_true hheld)]
      simp only [completions, List.filterMap_cons, List.filterMap_nil]
      split <;> rfl
  | dropInner i =>
      obtain ⟨c, data, hi, hkind, -, rfl⟩ := withNested_eq hs
      refine same ((stored_drop _ i).trans (stored_put_same hi ?_))
      simp only [ScopeData.stored, hkind]
  | destruct i =>
      obtain ⟨c, data, hi, hkind, -, rfl⟩ := withNested_eq hs
      exact same (stored_destruct hi hkind)
  | returned i outcome =>
      obtain ⟨c, data, hi, hkind, -, rfl⟩ := withNested_eq hs
      obtain ⟨hstored, hlength⟩ := run_stored s data.outer_state outcome
      refine same ((stored_put (hlength ▸ (List.getElem?_eq_some_iff.mp hi).1) ?_).trans hstored)
      rw [hstored, State.stored_eq hi, ScopeData.stored_nested hkind]
      rfl
  | dropOuter i =>
      obtain ⟨c, data, hi, hkind, -, rfl⟩ := withNested_eq hs
      refine same ((stored_drop _ _).trans (stored_put_same hi ?_))
      simp only [ScopeData.stored, hkind]
  | dropRcv i =>
      obtain ⟨c, data, hi, hkind, -, rfl⟩ := withNested_eq hs
      refine same (stored_put_same hi ?_)
      simp only [ScopeData.stored, hkind]

/-- **What is stored in a scope is what its inner receiver was called with.** -/
theorem stored_eq {ls : List (Label P V E)} (h : (machine P V E).Run (fun _ _ => True) ls s)
    (i : ℕ) : s.stored i = completions i ls := by
  induction h with
  | init => cases i <;> rfl
  | step hrun _ hs ih =>
      rw [(Inv.inductive.of_run hrun).stored_step hs, ih]
      exact List.filterMap_append.symm

theorem Inv.delivers {ls : List (Label P V E)} (h : Inv s) (hi : s.scopes[i]? = some c)
    (hkind : c.kind = .nested data) (hstored : s.stored i = completions i ls) :
    Delivers ls s i c data := by
  have hstored' : data.stored.toList = completions i ls := by
    rw [← hstored, State.stored_eq hi, ScopeData.stored_nested hkind]
  have hok := h.shaped.ok i c hi
  rw [ScopeData.Ok, hkind] at hok
  refine {
    once := ?_
    late := fun hcalled => ?_
    completedOnce := ?_
    exactly := fun hpast => ?_
    destroyed := fun hdead => ?_
    progress := h.progress hi hkind
    isolates := fun hpanicked p c' data' hp hc' hkind' =>
      h.called_eq_nil hc' hkind' (h.within_spared hi (.inr hpanicked) hp hc') }
  · by_cases hpast : data.phase.Past
    · cases hpanicked : c.a_thread_panicked with
      | true => simp [(hok.spared hpast hpanicked).1]
      | false =>
          rw [(hok.completed hpast hpanicked).2.1]
          cases data.stored <;> simp
    · simp [(hok.waiting hpast).2.2.1]
  · by_contra hpos
    exact hcalled (h.called_eq_nil hi hkind (.inl (Nat.pos_of_ne_zero hpos)))
  · rw [← hstored']
    cases data.stored <;> simp
  · cases hpanicked : c.a_thread_panicked with
    | true => simp [(hok.spared hpast hpanicked).1]
    | false => simpa [hstored'] using (hok.completed hpast hpanicked).2.1
  · have hpast : data.phase.Past := by simp [hdead, Phase.Past]
    cases hpanicked : c.a_thread_panicked with
    | true =>
        obtain ⟨hcalled, hdestroyed, -⟩ := hok.spared hpast hpanicked
        simp [hcalled, hdestroyed, hdead]
    | false =>
        obtain ⟨-, hcalled, hdestroyed⟩ := hok.completed hpast hpanicked
        rw [hcalled, hdestroyed]
        cases data.stored <;> simp

/-- **Nested scopes deliver exactly the inner signal, late and once**, whatever the nesting and the
order of clones, drops, completions, panics and destructors: that is the one signal of the step in
which the inner receiver was called; and a panic gets to the root. -/
theorem scopes_deliver (ls : List (Label P V E)) (s : State P V E)
    (h : (machine P V E).Run (fun _ _ => True) ls s) :
    s.panics = [] ∧ Counted s ∧
      (∀ (i : ℕ) c data, s.scopes[i]? = some c → c.kind = .nested data →
        Delivers ls s i c data) ∧
      ∀ (i : ℕ) c root, s.scopes[i]? = some c → c.a_thread_panicked = true →
        s.scopes[0]? = some root → root.strong = 0 → root.a_thread_panicked = true := by
  have hinv := Inv.inductive.of_run h
  refine ⟨hinv.shaped.panics, hinv.counted,
    fun i c data hi hkind => hinv.delivers hi hkind (stored_eq h i),
    fun i c root hi hpanicked hroot hzero => ?_⟩
  have hwithin := hinv.within_root (List.getElem?_eq_some_iff.mp hi).1
  exact (hinv.within_spared hi (.inr hpanicked) hwithin hroot).resolve_left (by omega)

/-- Scope `2` in scope `1` in the root.  The inner one is completed, and its receiver panics. -/
def unwinding : List (Label Unit ℕ Unit) :=
  [.newScope 0, .newScope 1, .complete 2 (.value .immediate [7]), .drop 0, .drop 2, .drop 1,
    .dropInner 2, .drop 2, .destruct 2, .dropInner 1, .returned 2 .unwinds, .drop 1, .dropOuter 2,
    .destruct 1, .dropRcv 2, .dropOuter 1, .dropRcv 1]

/-- Where the destructor of a nested scope is. -/
def ScopeData.phase? (c : ScopeData P V E) : Option Phase :=
  match c.kind with
  | .root _ => none
  | .nested data => some data.phase

theorem phase?_eq {phase : Phase} (h : c.phase? = some phase) :
    ∃ data, c.kind = .nested data ∧ data.phase = phase := by
  unfold ScopeData.phase? at h
  split at h
  · simp at h
  · next data hkind => exact ⟨data, hkind, Option.some.inj h⟩

/-- Scope `2` delivers what its inner receiver was called with; scope `1` is marked, delivers
nothing, and marks the root. -/
theorem unwinding_marks_root :
    ∃ s, (machine Unit ℕ Unit).exec fresh unwinding = some s ∧
      s.scopes[0]?.map ScopeData.a_thread_panicked = some true ∧
      (∃ c data, s.scopes[2]? = some c ∧ c.kind = .nested data ∧
        data.called = [.value .immediate [7]]) ∧
      ∃ c data, s.scopes[1]? = some c ∧ c.kind = .nested data ∧ data.called = [] := by
  obtain ⟨s, hs, hroot, hpanicked, hdelivered⟩ :
      ∃ s, (machine Unit ℕ Unit).exec fresh unwinding = some s ∧
        s.scopes[0]?.map ScopeData.strong = some 0 ∧
        s.scopes[1]?.map (fun c => (c.a_thread_panicked, c.phase?)) = some (true, some .dead) ∧
        s.scopes[2]?.map (fun c => (c.a_thread_panicked, c.phase?)) = some (false, some .dead) :=
    Machine.exec_ends (by decide +kernel)
  have hrun : (machine Unit ℕ Unit).Run (fun _ _ => True) unwinding s :=
    .of_exec (by decide +kernel) hs
  obtain ⟨-, -, hdelivers, hescalates⟩ := scopes_deliver unwinding s hrun
  have hcalled {i : ℕ} {panicked : Bool}
      (h : s.scopes[i]?.map (fun c => (c.a_thread_panicked, c.phase?)) =
        some (panicked, some .dead)) :
      ∃ c data, s.scopes[i]? = some c ∧ c.a_thread_panicked = panicked ∧
        c.kind = .nested data ∧
        data.called = if panicked = true then [] else completions i unwinding := by
    obtain ⟨c, hc, hdead⟩ := Option.map_eq_some_iff.mp h
    obtain ⟨rfl, hphase⟩ := Prod.mk.inj hdead
    obtain ⟨data, hkind, hdead⟩ := phase?_eq hphase
    exact ⟨c, data, hc, rfl, hkind,
      (hdelivers i c data hc hkind).exactly (by simp [hdead, Phase.Past])⟩
  obtain ⟨c, data, hc, hmarked, hkind, hnone⟩ := hcalled hpanicked
  obtain ⟨c', data', hc', -, hkind', hsome⟩ := hcalled hdelivered
  obtain ⟨root, hget, hzero⟩ := Option.map_eq_some_iff.mp hroot
  have hroot : root.a_thread_panicked = true := hescalates 1 c root hc hmarked hget hzero
  exact ⟨s, hs, by simp [hget, hroot], ⟨c', data', hc', hkind', hsome⟩, c, data, hc, hkind, hnone⟩

end SendersReceivers.Scope
