import SendersReceivers.Scope.Machine

/-!
# Scope/Invariant — counts, phases and flags of every scope

The count of a scope is the number of its handles: those of the users, that of its inner receiver,
and one for every scope nested in it that has not let go of it.  Hence a scope whose destructor runs
has no handles left that could mark it, and it marks the scope around it while it holds that one.
-/

namespace SendersReceivers.Scope

open Machinery

variable {P V E : Type} {s t : State P V E} {i p : ℕ} {c c' : ScopeData P V E}
  {data : Nested P V E}

/-! ## One scope -/

/-- The scope that `c` is nested in. -/
def ScopeData.outer? (c : ScopeData P V E) : Option ℕ :=
  match c.kind with
  | .root _ => none
  | .nested data => some data.outer_state

/-- One if `c` owns a handle of scope `p`. -/
def ScopeData.holds (p : ℕ) (c : ScopeData P V E) : ℕ :=
  match c.kind with
  | .root _ => 0
  | .nested data => if data.outer_state = p then data.phase.holds else 0

/-- One if there is a handle of `c` in its own inner receiver. -/
def ScopeData.inner (c : ScopeData P V E) : ℕ :=
  match c.kind with
  | .root _ => 0
  | .nested data => data.inner.holds

/-- **The phases of a nested scope**: where the outer receiver and the signal are. -/
structure Nested.Ok (data : Nested P V E) (strong : ℕ) (panicked : Bool) : Prop where
  live : 0 < strong ↔ data.phase = .live
  held : data.inner = .held → data.stored = none
  waiting : ¬data.phase.Past →
    data.rcv = some () ∧ data.shared_value = data.stored ∧ data.called = [] ∧ data.destroyed = false
  completed : data.phase.Past → panicked = false →
    data.rcv = none ∧ data.called = data.stored.toList ∧ data.destroyed = data.stored.isNone
  spared : data.phase.Past → panicked = true →
    data.called = [] ∧ data.destroyed = decide (data.phase = .dead) ∧
      data.rcv = if data.phase = .dead then none else some ()

/-- The same, and what is true of the root: it has been notified exactly if no handle is left. -/
def ScopeData.Ok (c : ScopeData P V E) : Prop :=
  match c.kind with
  | .root notify => 0 < c.strong ↔ notify = some ()
  | .nested data => data.Ok c.strong c.a_thread_panicked

/-- A scope that has marked the scope around it, if it was marked itself. -/
def ScopeData.Escalated (c : ScopeData P V E) : Prop :=
  ∃ data, c.kind = .nested data ∧ data.phase.Past ∧ c.a_thread_panicked = true

/-! ## All scopes -/

/-- Every scope is well formed, and so is the tree they make up. -/
structure Shaped (s : State P V E) : Prop where
  ok : ∀ (i : ℕ) c, s.scopes[i]? = some c → c.Ok
  outer : ∀ (i : ℕ) c o, s.scopes[i]? = some c → c.outer? = some o → o < i
  root : ∃ c : ScopeData P V E, s.scopes[0]? = some c ∧ c.outer? = none
  nested : ∀ (i : ℕ) c, s.scopes[i]? = some c → c.outer? = none → i = 0
  escalates : ∀ (i : ℕ) c o, s.scopes[i]? = some c → c.outer? = some o → c.Escalated →
    ∃ co : ScopeData P V E, s.scopes[o]? = some co ∧ co.a_thread_panicked = true
  panics : s.panics = []

/-- **Counts are numbers of handles.** -/
def Counted (s : State P V E) : Prop :=
  ∀ (i : ℕ) c, s.scopes[i]? = some c →
    c.strong = c.handles + c.inner + weight (ScopeData.holds i) s.scopes

/-- The invariant of nested scopes. -/
structure Inv (s : State P V E) : Prop where
  shaped : Shaped s
  counted : Counted s

theorem put_scopes (h : s.scopes[i]? = some c) (c' : ScopeData P V E) (j : ℕ) :
    (s.put i c').scopes[j]? = if i = j then some c' else s.scopes[j]? := by
  have hlt := (List.getElem?_eq_some_iff.mp h).1
  simp only [State.put, List.getElem?_set, hlt, if_true]

/-- **One scope changes**, and stays well formed. -/
theorem Shaped.put (h : Shaped s) (hi : s.scopes[i]? = some c) (hok : c'.Ok)
    (houter : c'.outer? = c.outer?)
    (hmarked : c.a_thread_panicked = true → c'.a_thread_panicked = true)
    (hescalates : c'.Escalated → ∀ o, c.outer? = some o →
      ∃ co : ScopeData P V E, s.scopes[o]? = some co ∧ co.a_thread_panicked = true) :
    Shaped (s.put i c') where
  ok j d hj := by
    rw [put_scopes hi] at hj
    split at hj
    · obtain rfl := Option.some.inj hj
      exact hok
    · exact h.ok j d hj
  outer j d o hj ho := by
    rw [put_scopes hi] at hj
    split at hj
    · next hij =>
        subst hij
        obtain rfl := Option.some.inj hj
        exact h.outer i c o hi (houter ▸ ho)
    · exact h.outer j d o hj ho
  root := by
    obtain ⟨d, hd, hroot⟩ := h.root
    by_cases hi0 : i = 0
    · subst hi0
      obtain rfl := Option.some.inj (hd.symm.trans hi)
      exact ⟨c', by rw [put_scopes hi, if_pos rfl], houter.trans hroot⟩
    · exact ⟨d, by rw [put_scopes hi, if_neg hi0, hd], hroot⟩
  nested j d hj hd := by
    rw [put_scopes hi] at hj
    split at hj
    · next hij =>
        subst hij
        obtain rfl := Option.some.inj hj
        exact h.nested i c hi (houter ▸ hd)
    · exact h.nested j d hj hd
  escalates j d o hj ho hd := by
    have hput (hco : ∃ co : ScopeData P V E, s.scopes[o]? = some co ∧
        co.a_thread_panicked = true) :
        ∃ co : ScopeData P V E, (s.put i c').scopes[o]? = some co ∧
          co.a_thread_panicked = true := by
      obtain ⟨co, hco, hp⟩ := hco
      by_cases hio : i = o
      · subst hio
        obtain rfl := Option.some.inj (hco.symm.trans hi)
        exact ⟨c', by rw [put_scopes hi, if_pos rfl], hmarked hp⟩
      · exact ⟨co, by rw [put_scopes hi, if_neg hio, hco], hp⟩
    rw [put_scopes hi] at hj
    split at hj
    · next hij =>
        subst hij
        obtain rfl := Option.some.inj hj
        exact hput (hescalates hd o (houter ▸ ho))
    · exact hput (h.escalates j d o hj ho hd)
  panics := h.panics

/-- One scope changes, and neither what it holds nor the number of its handles does. -/
theorem Counted.put (h : Counted s) (hi : s.scopes[i]? = some c)
    (hholds : ∀ p, c'.holds p = c.holds p)
    (hcounted : c'.strong + c.handles + c.inner = c.strong + c'.handles + c'.inner) :
    Counted (s.put i c') := by
  intro j d hj
  have hweight := weight_set (ScopeData.holds j) hi c'
  rw [hholds] at hweight
  rw [put_scopes hi] at hj
  simp only [State.put]
  split at hj
  · next hij =>
      subst hij
      obtain rfl := Option.some.inj hj
      have := h i c hi
      omega
  · have := h j d hj
    omega

/-- A handle that scope `i` holds is gone, and the count of its scope has changed with it. -/
theorem Counted.release {o : ℕ} {co co' : ScopeData P V E} (h : Counted s)
    (hi : s.scopes[i]? = some c) (ho : s.scopes[o]? = some co) (hio : i ≠ o)
    (hc : c'.strong = c.strong ∧ c'.handles = c.handles ∧ c'.inner = c.inner)
    (hholds : ∀ p, c'.holds p + (if o = p then 1 else 0) = c.holds p)
    (hco : co'.strong + 1 = co.strong ∧ co'.handles = co.handles ∧ co'.inner = co.inner)
    (hholdso : ∀ p, co'.holds p = co.holds p) : Counted ((s.put i c').put o co') := by
  intro j d hj
  have ho' : (s.put i c').scopes[o]? = some co := by rw [put_scopes hi, if_neg hio, ho]
  have hweight := weight_set (ScopeData.holds j) hi c'
  have hweighto := weight_set (ScopeData.holds j) ho' co'
  have hj' := hholds j
  rw [hholdso] at hweighto
  rw [put_scopes ho', put_scopes hi] at hj
  simp only [State.put] at hweighto ⊢
  split at hj
  · next hoj =>
      subst hoj
      obtain rfl := Option.some.inj hj
      have := h o co ho
      rw [if_pos rfl] at hj'
      omega
  · next hoj =>
      rw [if_neg hoj] at hj'
      split at hj
      · next hij =>
          subst hij
          obtain rfl := Option.some.inj hj
          have := h i c hi
          omega
      · have := h j d hj
        omega

/-- Handles of scope `p` are what its count counts. -/
theorem Counted.strong_pos (h : Counted s) (hp : s.scopes[p]? = some c)
    (hpos : 0 < c.handles ∨ 0 < c.inner ∨
      ∃ (i : ℕ) (d : ScopeData P V E), s.scopes[i]? = some d ∧ 0 < d.holds p) :
    0 < c.strong := by
  have hcounted := h p c hp
  rcases hpos with hpos | hpos | ⟨i, d, hd, hpos⟩
  · omega
  · omega
  · have := le_weight (ScopeData.holds p) hd
    omega

/-- The scope around a nested one is there, and alive as long as it is held. -/
theorem Inv.outer_scope (h : Inv s) (hi : s.scopes[i]? = some c) (hkind : c.kind = .nested data)
    (hholds : 0 < data.phase.holds) :
    ∃ co, s.scopes[data.outer_state]? = some co ∧ 0 < co.strong ∧ i ≠ data.outer_state := by
  have hlt := h.shaped.outer i c data.outer_state hi (by simp [ScopeData.outer?, hkind])
  have hlen := (List.getElem?_eq_some_iff.mp hi).1
  refine ⟨s.scopes[data.outer_state], by simp, ?_, by omega⟩
  refine h.counted.strong_pos (List.getElem?_eq_getElem (by omega)) (.inr (.inr ⟨i, c, hi, ?_⟩))
  simpa [ScopeData.holds, hkind] using hholds

/-- **A scope that is marked has a handle**, so its destructor has not begun. -/
theorem Inv.mark (h : Inv s) (hp : s.scopes[p]? = some c) (hpos : 0 < c.strong) :
    Inv (s.put p c.markPanicked) := by
  have hok := h.shaped.ok p c hp
  refine ⟨h.shaped.put hp ?_ rfl (fun _ => rfl) ?_, h.counted.put hp (fun _ => rfl) rfl⟩
  · cases hkind : c.kind with
    | root notify => simpa [ScopeData.Ok, ScopeData.markPanicked, hkind] using hok
    | nested data =>
        simp only [ScopeData.Ok, ScopeData.markPanicked, hkind] at hok ⊢
        have hphase := hok.live.mp hpos
        exact { hok with
          completed := fun hpast => absurd hpast (by simp [hphase, Phase.Past])
          spared := fun hpast => absurd hpast (by simp [hphase, Phase.Past]) }
  · rintro ⟨data, hdata, hpast, -⟩
    rw [ScopeData.Ok, show c.kind = .nested data from hdata] at hok
    simp [hok.live.mp hpos, Phase.Past] at hpast

theorem markPanicked_eq (hp : s.scopes[p]? = some c) :
    s.markPanicked p = s.put p c.markPanicked := by
  rw [State.markPanicked, hp]

theorem drop_eq (hp : s.scopes[p]? = some c) :
    s.drop p = (s.put p c.drop).panic c.dropPanics := by
  rw [State.drop, hp]

/-- What `run` leaves behind is well formed. -/
theorem Inv.run (h : Inv s) (hp : s.scopes[p]? = some c) (hpos : 0 < c.strong) (outcome : Outcome) :
    Inv (s.run p outcome) := by
  cases outcome with
  | returns => exact h
  | unwinds =>
      rw [State.run, markPanicked_eq hp]
      exact h.mark hp hpos

/-! ## Drops -/

theorem drop_of_ne (hlast : c.strong ≠ 1) : c.drop = { c with strong := c.strong - 1 } := by
  rw [ScopeData.drop, if_neg hlast]

theorem drop_root {notify : Option Unit} (hlast : c.strong = 1) (hkind : c.kind = .root notify) :
    c.drop = { c with strong := 0, kind := .root none } := by
  rw [ScopeData.drop, if_pos hlast, hkind]

theorem drop_nested (hlast : c.strong = 1) (hkind : c.kind = .nested data) :
    c.drop = { c with strong := 0, kind := .nested { data with phase := .ended } } := by
  rw [ScopeData.drop, if_pos hlast, hkind]

/-- What a drop does, whether it is the last one or not. -/
theorem ScopeData.drop_frame (c : ScopeData P V E) :
    c.drop.strong = c.strong - 1 ∧ c.drop.handles = c.handles ∧
    c.drop.outer? = c.outer? ∧ c.drop.a_thread_panicked = c.a_thread_panicked := by
  by_cases hlast : c.strong = 1
  · cases hkind : c.kind with
    | root notify =>
        rw [drop_root hlast hkind]
        simp [hlast, ScopeData.outer?, hkind]
    | nested data =>
        rw [drop_nested hlast hkind]
        simp [hlast, ScopeData.outer?, hkind]
  · rw [drop_of_ne hlast]
    exact ⟨rfl, rfl, rfl, rfl⟩

/-- The last drop of a handle of a scope begins its destructor, and does nothing else. -/
theorem ScopeData.Ok.drop (hok : c.Ok) (hpos : 0 < c.strong) :
    c.drop.Ok ∧ c.dropPanics = [] ∧ c.drop.inner = c.inner ∧ (∀ p, c.drop.holds p = c.holds p) ∧
      ¬c.drop.Escalated := by
  unfold ScopeData.Ok at hok
  cases hkind : c.kind with
  | root notify =>
      rw [hkind] at hok
      obtain rfl := hok.mp hpos
      refine ⟨?_, by simp [dropPanics, hkind], ?_⟩
      · by_cases hlast : c.strong = 1
        · simp [drop_root hlast hkind, ScopeData.Ok]
        · simp only [drop_of_ne hlast, ScopeData.Ok, hkind, iff_true]
          omega
      · by_cases hlast : c.strong = 1
        · simp [drop_root hlast hkind, ScopeData.inner, holds, Escalated, hkind]
        · simp [drop_of_ne hlast, ScopeData.inner, holds, Escalated, hkind]
  | nested data =>
      rw [hkind] at hok
      have hphase := hok.live.mp hpos
      refine ⟨?_, by simp [dropPanics, hkind], ?_⟩
      · by_cases hlast : c.strong = 1
        · simp only [drop_nested hlast hkind, ScopeData.Ok]
          exact {
            live := by simp
            held := hok.held
            waiting := fun _ => hok.waiting (by simp [hphase, Phase.Past])
            completed := fun hpast => absurd hpast (by simp [Phase.Past])
            spared := fun hpast => absurd hpast (by simp [Phase.Past]) }
        · simp only [drop_of_ne hlast, ScopeData.Ok, hkind]
          exact { hok with
            live := by
              simp only [hphase, iff_true]
              omega }
      · by_cases hlast : c.strong = 1
        · simp [drop_nested hlast hkind, ScopeData.inner, holds, Escalated, hkind, hphase,
            Phase.holds, Phase.Past]
        · simp [drop_of_ne hlast, ScopeData.inner, holds, Escalated, hkind, hphase, Phase.Past]

/-- One handle of scope `p` goes, and is dropped. -/
theorem Inv.drop (h : Inv s) (hp : s.scopes[p]? = some c) (hok : c'.Ok)
    (hsame : c'.strong = c.strong ∧ c'.outer? = c.outer? ∧
      c'.a_thread_panicked = c.a_thread_panicked)
    (hgone : c'.handles + c'.inner + 1 = c.handles + c.inner)
    (hholds : ∀ p, c'.holds p = c.holds p) : Inv ((s.put p c').drop p) := by
  have hpos : 0 < c.strong := h.counted.strong_pos hp (by omega)
  obtain ⟨hdrop, hpanics, hinner, hholds', hnot⟩ := hok.drop (hsame.1 ▸ hpos)
  obtain ⟨hstrong, hhandles, houter, hpanicked⟩ := c'.drop_frame
  have ht : (s.put p c').drop p = s.put p c'.drop := by
    rw [drop_eq (by rw [put_scopes hp, if_pos rfl]), hpanics]
    simp [State.put, State.panic, List.set_set]
  rw [ht]
  refine ⟨h.shaped.put hp hdrop (houter.trans hsame.2.1) (fun hc => ?_) (fun he => absurd he hnot),
    h.counted.put hp (fun q => (hholds' q).trans (hholds q)) ?_⟩
  · rw [hpanicked, hsame.2.2, hc]
  · rw [hstrong, hhandles, hinner]
    omega

/-! ## Every step -/

theorem withHandle_eq {f : ScopeData P V E → State P V E} (hs : s.withHandle p f = some t) :
    ∃ c, s.scopes[p]? = some c ∧ 0 < c.handles ∧ f c = t := by
  obtain ⟨c, hc, hs⟩ := Option.bind_eq_some_iff.mp hs
  simp only [Option.ite_none_right_eq_some, Option.some.injEq] at hs
  exact ⟨c, hc, hs⟩

theorem withNested_eq {guard : Nested P V E → Bool}
    {f : ScopeData P V E → Nested P V E → State P V E} (hs : s.withNested i guard f = some t) :
    ∃ c data, s.scopes[i]? = some c ∧ c.kind = .nested data ∧ guard data = true ∧
      f c data = t := by
  obtain ⟨c, hc, hs⟩ := Option.bind_eq_some_iff.mp hs
  split at hs
  · next data hdata =>
      simp only [Option.ite_none_right_eq_some, Option.some.injEq] at hs
      exact ⟨c, data, hc, hdata, hs⟩
  · simp at hs

/-- A destructor moves on, and what it holds stays. -/
theorem Inv.goto (h : Inv s) (hi : s.scopes[i]? = some c) (hkind : c.kind = .nested data)
    (data' : Nested P V E) (hok : data'.Ok c.strong c.a_thread_panicked)
    (hsame : data'.outer_state = data.outer_state ∧ data'.phase.holds = data.phase.holds ∧
      data'.inner.holds = data.inner.holds)
    (hescalates : data'.phase.Past → c.a_thread_panicked = true →
      ∃ co : ScopeData P V E, s.scopes[data.outer_state]? = some co ∧
        co.a_thread_panicked = true) :
    Inv (s.put i { c with kind := .nested data' }) := by
  refine ⟨h.shaped.put hi hok (by simp [ScopeData.outer?, hkind, hsame]) id ?_,
    h.counted.put hi (fun p => by simp [ScopeData.holds, hkind, hsame]) (by
      simp [ScopeData.inner, hkind, hsame])⟩
  rintro ⟨data'', hdata, hpast, hpanicked⟩ o ho
  obtain rfl := Kind.nested.inj hdata
  obtain rfl : data.outer_state = o := by simpa [ScopeData.outer?, hkind] using ho
  exact hescalates hpast hpanicked

theorem run_scopes (hp : s.scopes[p]? = some c) (outcome : Outcome) {j : ℕ} (hj : p ≠ j) :
    (s.run p outcome).scopes[j]? = s.scopes[j]? := by
  cases outcome with
  | returns => rfl
  | unwinds => rw [State.run, markPanicked_eq hp, put_scopes hp, if_neg hj]

/-- One more handle, of a scope that has one. -/
theorem ScopeData.Ok.clone (hok : c.Ok) (hpos : 0 < c.strong) : c.clone.Ok := by
  cases hkind : c.kind with
  | root notify =>
      simp only [ScopeData.Ok, ScopeData.clone, hkind] at hok ⊢
      simp [← hok, hpos]
  | nested data =>
      simp only [ScopeData.Ok, ScopeData.clone, hkind] at hok ⊢
      exact { hok with live := by simp [← hok.live, hpos] }

/-! ### A new scope -/

/-- A scope there is, once there is a new one: an old scope, or the new one. -/
theorem newScope_get {n : ScopeData P V E} {j : ℕ} {d : ScopeData P V E}
    (hj : (s.scopes.set p c' ++ [n])[j]? = some d) :
    (s.put p c').scopes[j]? = some d ∨ j = s.scopes.length ∧ d = n := by
  rcases Nat.lt_or_ge j s.scopes.length with hlt | hge
  · left
    rwa [List.getElem?_append_left (by simpa using hlt)] at hj
  · right
    rw [List.getElem?_append_right (by simpa using hge)] at hj
    simp only [List.length_set, List.getElem?_singleton] at hj
    split at hj
    · exact ⟨by omega, (Option.some.inj hj).symm⟩
    · simp at hj

theorem newScope_put {n : ScopeData P V E} {j : ℕ} {d : ScopeData P V E}
    (hj : (s.put p c').scopes[j]? = some d) : (s.scopes.set p c' ++ [n])[j]? = some d :=
  (List.getElem?_append_left (List.getElem?_eq_some_iff.mp hj).1).trans hj

/-- A scope that is not there yet is held by none. -/
theorem Shaped.unheld (h : Shaped s) : weight (ScopeData.holds s.scopes.length) s.scopes = 0 := by
  refine List.sum_eq_zero fun n hn => ?_
  obtain ⟨d, hd, rfl⟩ := List.mem_map.mp hn
  obtain ⟨j, hj⟩ := List.mem_iff_getElem?.mp hd
  have hjlen := (List.getElem?_eq_some_iff.mp hj).1
  cases hkind : d.kind with
  | root notify => simp [ScopeData.holds, hkind]
  | nested data =>
      have hlt := h.outer j d data.outer_state hj (by simp [ScopeData.outer?, hkind])
      simp only [ScopeData.holds, hkind]
      exact if_neg (by omega)

theorem Shaped.newScope (h : Shaped s) (hp : s.scopes[p]? = some c) (hpos : 0 < c.strong) :
    Shaped { s with scopes := s.scopes.set p c.clone ++ [ScopeData.new p] } := by
  have hlen := (List.getElem?_eq_some_iff.mp hp).1
  have hclone : Shaped (s.put p c.clone) :=
    h.put hp ((h.ok p c hp).clone hpos) rfl id fun he o ho => h.escalates p c o hp ho he
  refine ⟨fun j d hj => ?_, fun j d o hj ho => ?_, ?_, fun j d hj hd => ?_,
    fun j d o hj ho hd => ?_, h.panics⟩
  · rcases newScope_get hj with hj | ⟨-, rfl⟩
    · exact hclone.ok j d hj
    · exact {
        live := by simp [ScopeData.new]
        held := fun _ => rfl
        waiting := fun _ => ⟨rfl, rfl, rfl, rfl⟩
        completed := fun hpast => hpast.elim
        spared := fun hpast => hpast.elim }
  · rcases newScope_get hj with hj | ⟨rfl, rfl⟩
    · exact hclone.outer j d o hj ho
    · obtain rfl : p = o := by simpa [ScopeData.outer?, ScopeData.new] using ho
      exact hlen
  · obtain ⟨d, hd, hroot⟩ := hclone.root
    exact ⟨d, newScope_put hd, hroot⟩
  · rcases newScope_get hj with hj | ⟨-, rfl⟩
    · exact hclone.nested j d hj hd
    · simp [ScopeData.outer?, ScopeData.new] at hd
  · rcases newScope_get hj with hj | ⟨-, rfl⟩
    · obtain ⟨co, hco, hpanicked⟩ := hclone.escalates j d o hj ho hd
      exact ⟨co, newScope_put hco, hpanicked⟩
    · obtain ⟨data, -, -, hpanicked⟩ := hd
      simp [ScopeData.new] at hpanicked

/-- The handle that `clone` makes is the one that the new scope has. -/
theorem Inv.newScope (h : Inv s) (hp : s.scopes[p]? = some c) (hpos : 0 < c.strong) :
    Inv { s with scopes := s.scopes.set p c.clone ++ [ScopeData.new p] } := by
  refine ⟨h.shaped.newScope hp hpos, fun j d hj => ?_⟩
  have hlen := (List.getElem?_eq_some_iff.mp hp).1
  have hweight := weight_set (ScopeData.holds j) hp c.clone
  have hsame : c.clone.holds j = c.holds j := rfl
  have hnew : (ScopeData.new p : ScopeData P V E).holds j = if p = j then 1 else 0 := by
    simp [ScopeData.new, ScopeData.holds, Phase.holds]
  simp only [weight_append, weight_cons, weight_nil, hnew]
  rcases newScope_get hj with hj' | ⟨rfl, rfl⟩
  · rw [put_scopes hp] at hj'
    split at hj'
    · next hpj =>
        subst hpj
        obtain rfl := Option.some.inj hj'
        have hcounted := h.counted p c hp
        have hframe : c.clone.strong = c.strong + 1 ∧ c.clone.handles = c.handles ∧
          c.clone.inner = c.inner := ⟨rfl, rfl, rfl⟩
        rw [if_pos rfl]
        omega
    · next hpj =>
        have := h.counted j d hj'
        rw [if_neg hpj]
        omega
  · have hunheld := h.shaped.unheld
    rw [if_neg (by omega)]
    simp only [ScopeData.new, ScopeData.inner, InnerScopeReceiver.holds]
    omega

/-! ### The rest of a nested scope -/

theorem Inv.complete (h : Inv s) (hi : s.scopes[i]? = some c) (hkind : c.kind = .nested data)
    (hheld : data.inner = .held) (sig : Signal P V E) : Inv (complete s i c data sig) := by
  have hok := h.shaped.ok i c hi
  rw [ScopeData.Ok, hkind] at hok
  have hlive : data.phase = .live := hok.live.mp (h.counted.strong_pos hi (.inr (.inl (by
    simp [ScopeData.inner, hkind, hheld, InnerScopeReceiver.holds]))))
  have hnot : ¬data.phase.Past := by simp [hlive, Phase.Past]
  obtain ⟨hrcv, hshared, hcalled, hdestroyed⟩ := hok.waiting hnot
  have hnone : data.shared_value = none := hshared.trans (hok.held hheld)
  rw [Scope.complete, hnone]
  exact h.goto hi hkind _ {
    live := hok.live
    held := by simp
    waiting := fun _ => ⟨hrcv, rfl, hcalled, hdestroyed⟩
    completed := fun hpast => absurd hpast hnot
    spared := fun hpast => absurd hpast hnot } ⟨rfl, rfl, by
      simp [hheld, InnerScopeReceiver.holds]⟩ fun hpast => absurd hpast hnot

/-- **The destructor**: a scope that was marked marks the one around it, which has a handle still;
any other one has its receiver, and calls it with what was stored. -/
theorem Inv.destruct (h : Inv s) (hi : s.scopes[i]? = some c) (hkind : c.kind = .nested data)
    (hended : data.phase = .ended) : Inv (destruct s i c data) := by
  have hok := h.shaped.ok i c hi
  rw [ScopeData.Ok, hkind] at hok
  obtain ⟨hrcv, hshared, hcalled, hdestroyed⟩ := hok.waiting (by simp [hended, Phase.Past])
  have hdead : ¬0 < c.strong := by simp [hok.live, hended]
  unfold Scope.destruct
  split
  · next hpanicked =>
      obtain ⟨co, hco, hpos, hne⟩ := h.outer_scope hi hkind (by simp [hended, Phase.holds])
      have hmark := h.mark hco hpos
      rw [markPanicked_eq hco]
      refine hmark.goto (by rw [put_scopes hco, if_neg hne.symm, hi]) hkind _ {
        live := by simp [hdead]
        held := hok.held
        waiting := fun hnot => absurd trivial hnot
        completed := fun _ hp => by simp [hpanicked] at hp
        spared := fun _ _ => ⟨hcalled, by simpa using hdestroyed, by simpa using hrcv⟩ } ⟨rfl, by
          simp [hended, Phase.holds], rfl⟩ fun _ _ => ⟨co.markPanicked, ?_, rfl⟩
      rw [put_scopes hco, if_pos rfl]
  · next hpanicked =>
      rw [hrcv]
      refine h.goto hi hkind _ {
        live := by simp [hdead]
        held := ?_
        waiting := fun hnot => absurd trivial hnot
        completed := fun _ _ => ?_
        spared := fun _ hp => by simp [hpanicked] at hp } ?_ fun _ hp => by simp [hpanicked] at hp
      · unfold forward
        split <;> exact hok.held
      · unfold forward
        rw [hshared]
        split <;> simp [*]
      · unfold forward
        split <;> simp [hended, Phase.holds]

theorem Inv.dropOuter (h : Inv s) (hi : s.scopes[i]? = some c) (hkind : c.kind = .nested data)
    (hreleasing : data.phase = .releasing) :
    Inv ((s.put i { c with kind := .nested { data with phase := .released } }).drop
      data.outer_state) := by
  obtain ⟨co, hco, hpos, hne⟩ := h.outer_scope hi hkind (by simp [hreleasing, Phase.holds])
  obtain ⟨hdrop, hpanics, hinner, hholds, hnot⟩ := (h.shaped.ok _ co hco).drop hpos
  obtain ⟨hstrong, hhandles, houter, hpanicked⟩ := co.drop_frame
  have hok := h.shaped.ok i c hi
  rw [ScopeData.Ok, hkind] at hok
  have hpast : data.phase.Past := by simp [hreleasing, Phase.Past]
  have hdead : ¬0 < c.strong := by simp [hok.live, hreleasing]
  have hshaped : Shaped (s.put i { c with kind := .nested { data with phase := .released } }) := by
    refine h.shaped.put hi ?_ (by simp [ScopeData.outer?, hkind]) id ?_
    · exact {
        live := by simp [hdead]
        held := hok.held
        waiting := fun hnot => absurd trivial hnot
        completed := fun _ => hok.completed hpast
        spared := fun _ hp => by simpa [hreleasing] using hok.spared hpast hp }
    · rintro ⟨data', -, -, hp⟩ o ho
      exact h.shaped.escalates i c o hi ho ⟨data, hkind, hpast, hp⟩
  have hco' : (s.put i { c with kind := .nested { data with phase := .released } }).scopes[
      data.outer_state]? = some co := by rw [put_scopes hi, if_neg hne, hco]
  have ht : (s.put i { c with kind := .nested { data with phase := .released } }).drop
      data.outer_state = (s.put i { c with kind := .nested { data with phase := .released } }).put
        data.outer_state co.drop := by
    rw [drop_eq hco', hpanics]
    simp [State.put, State.panic]
  rw [ht]
  refine ⟨hshaped.put hco' hdrop houter (fun hp => hpanicked.trans hp) (fun he => absurd he hnot),
    h.counted.release hi hco hne ⟨rfl, rfl, by simp [ScopeData.inner, hkind]⟩ (fun p => ?_)
      ⟨by omega, hhandles, hinner⟩ hholds⟩
  simp [ScopeData.holds, hkind, hreleasing, Phase.holds]

/-- The receiver has returned, or has unwound and marks the scope around. -/
theorem Inv.returned (h : Inv s) (hi : s.scopes[i]? = some c) (hkind : c.kind = .nested data)
    (hforwarding : data.phase = .forwarding) (outcome : Outcome) :
    Inv ((s.run data.outer_state outcome).put i
      { c with kind := .nested { data with phase := .releasing } }) := by
  obtain ⟨co, hco, hpos, hne⟩ := h.outer_scope hi hkind (by simp [hforwarding, Phase.holds])
  have hok := h.shaped.ok i c hi
  rw [ScopeData.Ok, hkind] at hok
  have hpast : data.phase.Past := by simp [hforwarding, Phase.Past]
  have hrun := h.run hco hpos outcome
  have hi' : (s.run data.outer_state outcome).scopes[i]? = some c := by
    rw [run_scopes hco outcome hne.symm, hi]
  refine hrun.goto hi' hkind _ {
    live := by simpa [hforwarding] using hok.live
    held := hok.held
    waiting := fun hnot => absurd trivial hnot
    completed := fun _ => hok.completed hpast
    spared := fun _ hp => by simpa [hforwarding] using hok.spared hpast hp }
    ⟨rfl, by simp [hforwarding, Phase.holds], rfl⟩ fun _ hp => ?_
  exact hrun.shaped.escalates i c _ hi' (by simp [ScopeData.outer?, hkind])
    ⟨data, hkind, hpast, hp⟩

/-- The last field goes: a receiver that was not called is destroyed with it. -/
theorem Inv.dropRcv (h : Inv s) (hi : s.scopes[i]? = some c) (hkind : c.kind = .nested data)
    (hreleased : data.phase = .released) :
    Inv (s.put i { c with kind := .nested { data with
      phase := .dead, rcv := none, destroyed := data.destroyed || data.rcv.isSome } }) := by
  have hok := h.shaped.ok i c hi
  rw [ScopeData.Ok, hkind] at hok
  have hpast : data.phase.Past := by simp [hreleased, Phase.Past]
  refine h.goto hi hkind _ {
    live := by simpa [hreleased] using hok.live
    held := hok.held
    waiting := fun hnot => absurd trivial hnot
    completed := fun _ hp => ?_
    spared := fun _ hp => ?_ } ⟨rfl, by simp [hreleased, Phase.holds], rfl⟩ fun _ hp => ?_
  · obtain ⟨hrcv, hcalled, hdestroyed⟩ := hok.completed hpast hp
    exact ⟨rfl, hcalled, by simp [hrcv, hdestroyed]⟩
  · obtain ⟨hcalled, hdestroyed, hrcv⟩ := hok.spared hpast hp
    exact ⟨hcalled, by simp [hrcv, hreleased], by simp⟩
  · exact h.shaped.escalates i c _ hi (by simp [ScopeData.outer?, hkind])
      ⟨data, hkind, hpast, hp⟩

/-- **Every step keeps the invariant.** -/
theorem Inv.step {l : Label P V E} (h : Inv s) (hs : step s l = some t) : Inv t := by
  cases l with
  | clone p =>
      obtain ⟨c, hp, hhandles, rfl⟩ := withHandle_eq hs
      have hpos := h.counted.strong_pos hp (.inl hhandles)
      have hok : ({ c.clone with handles := c.handles + 1 } : ScopeData P V E).Ok :=
        (h.shaped.ok p c hp).clone hpos
      refine ⟨h.shaped.put hp hok rfl id fun he o ho => h.shaped.escalates p c o hp ho he,
        h.counted.put hp (fun _ => rfl) ?_⟩
      simp only [ScopeData.clone, ScopeData.inner]
      omega
  | drop p =>
      obtain ⟨c, hp, hhandles, rfl⟩ := withHandle_eq hs
      have hok : ({ c with handles := c.handles - 1 } : ScopeData P V E).Ok := h.shaped.ok p c hp
      refine h.drop hp hok ⟨rfl, rfl, rfl⟩ ?_ fun _ => rfl
      simp only [ScopeData.inner]
      omega
  | newScope p =>
      obtain ⟨c, hp, hhandles, rfl⟩ := withHandle_eq hs
      exact h.newScope hp (h.counted.strong_pos hp (.inl hhandles))
  | run p outcome =>
      obtain ⟨c, hp, hhandles, rfl⟩ := withHandle_eq hs
      exact h.run hp (h.counted.strong_pos hp (.inl hhandles)) outcome
  | complete i sig =>
      obtain ⟨c, data, hi, hkind, hheld, rfl⟩ := withNested_eq hs
      exact h.complete hi hkind (of_decide_eq_true hheld) sig
  | dropInner i =>
      obtain ⟨c, data, hi, hkind, hinner, rfl⟩ := withNested_eq hs
      have hok := h.shaped.ok i c hi
      rw [ScopeData.Ok, hkind] at hok
      have hone : data.inner.holds = 1 := by
        cases hd : data.inner <;> simp [hd, InnerScopeReceiver.holds] at hinner ⊢
      exact h.drop hi { hok with held := by simp } ⟨rfl, by simp [ScopeData.outer?, hkind], rfl⟩
        (by simp only [ScopeData.inner, hkind, hone]; rfl)
        fun p => by simp [ScopeData.holds, hkind]
  | destruct i =>
      obtain ⟨c, data, hi, hkind, hended, rfl⟩ := withNested_eq hs
      exact h.destruct hi hkind (of_decide_eq_true hended)
  | returned i outcome =>
      obtain ⟨c, data, hi, hkind, hphase, rfl⟩ := withNested_eq hs
      exact h.returned hi hkind (of_decide_eq_true hphase) outcome
  | dropOuter i =>
      obtain ⟨c, data, hi, hkind, hreleasing, rfl⟩ := withNested_eq hs
      exact h.dropOuter hi hkind (of_decide_eq_true hreleasing)
  | dropRcv i =>
      obtain ⟨c, data, hi, hkind, hphase, rfl⟩ := withNested_eq hs
      exact h.dropRcv hi hkind (of_decide_eq_true hphase)

/-- **The invariant of every run.** -/
theorem Inv.inductive : (machine P V E).Inductive (fun _ _ => True) (Inv : State P V E → Prop) where
  init := by
    have hget {j : ℕ} {d : ScopeData P V E} (hj : (fresh : State P V E).scopes[j]? = some d) :
        j = 0 ∧ d = ⟨1, false, .root (some ()), 1⟩ := by
      simpa [fresh, List.getElem?_singleton, and_comm, eq_comm] using hj
    refine ⟨⟨fun j d hj => ?_, fun j d o hj ho => ?_, ⟨_, rfl, rfl⟩, fun j d hj _ => (hget hj).1,
      fun j d o hj ho => ?_, rfl⟩, fun j d hj => ?_⟩ <;> obtain ⟨rfl, rfl⟩ := hget hj
    · simp [ScopeData.Ok]
    · simp [ScopeData.outer?] at ho
    · simp [ScopeData.outer?] at ho
    · simp [machine, fresh, ScopeData.inner, ScopeData.holds]
  step _ _ _ h _ hs := h.step hs

end SendersReceivers.Scope
