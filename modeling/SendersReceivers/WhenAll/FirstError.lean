import SendersReceivers.WhenAll.Outcome

/-!
# WhenAll/FirstError — which of several errors is forwarded

A split keeps the first error that it hears, but hears of an error of its `x` side only when all
children there have delivered.  So an error of a later child comes out on top of an earlier one if
it is delivered while a child before it is still to deliver.

    child 0 ──error──┐                       the split of 0 and 1 waits for child 1,
    child 1 ─────────┴─ split ──┐            and meanwhile the other error is noted
    child 2 ──error─────────────┴─ split ──▸ error of child 2
-/

namespace SendersReceivers.WhenAll

open Machinery

variable {P S V E : Type} {F : Completion S V E} {R : SchedulerReceiver P S V E}
  {sch : S → Local P}

/-! ## The order of the deliveries -/

/-- A delivery: which child, and what. -/
abbrev Delivery (S V E : Type) := ℕ × Call S V E

/-- The delivery that a step makes. -/
def Label.delivery? : Label S V E → Option (Delivery S V E)
  | .deliver i c => some (i, c)
  | .run => none

/-- The deliveries of a run, in order. -/
def deliveries (ls : List (Label S V E)) : List (Delivery S V E) := ls.filterMap Label.delivery?

/-- `d` is delivered before `d'`. -/
def Before (ds : List (Delivery S V E)) (d d' : Delivery S V E) : Prop := [d, d'].Sublist ds

/-- Child `m` delivers the first of all errors. -/
def First (ds : List (Delivery S V E)) (m : ℕ) (e : E) : Prop :=
  (m, .setError e) ∈ ds ∧ ∀ i e', ¬Before ds (i, .setError e') (m, .setError e)

/-- Child `k` delivers an error while a child before it is still to deliver. -/
def Overtakes (ds : List (Delivery S V E)) (k : ℕ) (e : E) : Prop :=
  ∃ d, d.1 < k ∧ Before ds (k, .setError e) d

/-- **The condition under which the first error is forwarded**: no error of a child that comes after
the one with the first error overtakes, unless it is the same error, or is overtaken in turn by the
same error. -/
def InOrder (ds : List (Delivery S V E)) : Prop :=
  ∀ m e, First ds m e → ∀ k e', m < k → Overtakes ds k e' → ∃ k', k ≤ k' ∧ Overtakes ds k' e

/-- The error of child `k` is ahead of those of the children before it. -/
def Surfaces (ds : List (Delivery S V E)) (k : ℕ) (e : E) : Prop :=
  (k, .setError e) ∈ ds ∧ (Overtakes ds k e ∨ ∀ i e', i < k → (i, .setError e') ∉ ds)

/-- The error `e` is ahead of those of all children up to `n`. -/
def Wins (ds : List (Delivery S V E)) (n : ℕ) (e : E) : Prop :=
  ∃ k, k ≤ n ∧ Surfaces ds k e ∧ ∀ k' e', k < k' → k' ≤ n → ¬Surfaces ds k' e'

section Order

variable {ds : List (Delivery S V E)} {d d' : Delivery S V E} {j k m n : ℕ} {e e' : E}
  {c : Call S V E}

theorem Before.mem (h : Before ds d d') : d ∈ ds ∧ d' ∈ ds :=
  ⟨h.subset (List.mem_cons_self ..), h.subset (List.mem_cons_of_mem _ (List.mem_cons_self ..))⟩

theorem before_append {x : Delivery S V E} :
    Before (ds ++ [x]) d d' ↔ Before ds d d' ∨ d ∈ ds ∧ d' = x := by
  constructor
  · intro h
    obtain ⟨l, l', hl, hds, hx⟩ := List.sublist_append_iff.mp h
    match l', hx with
    | [], _ =>
        rw [List.append_nil] at hl
        rw [Before, hl]
        exact .inl hds
    | [y], hx =>
        obtain rfl : y = x := List.mem_singleton.mp (hx.subset (List.mem_cons_self ..))
        obtain ⟨rfl, hy⟩ := List.append_inj' (show [d] ++ [d'] = l ++ [y] from hl) rfl
        obtain rfl := List.singleton_inj.mp hy
        exact .inr ⟨List.singleton_sublist.mp hds, rfl⟩
    | _ :: _ :: _, hx => exact absurd hx.length_le (by simp)
  · rintro (h | ⟨hmem, rfl⟩)
    · exact h.trans (List.sublist_append_left _ _)
    · exact (List.singleton_sublist.mpr hmem).append (List.Sublist.refl [d'])

/-- Of two deliveries, one comes before the other. -/
theorem before_total (hd : d ∈ ds) (hd' : d' ∈ ds) (hne : d ≠ d') :
    Before ds d d' ∨ Before ds d' d := by
  induction ds with
  | nil => cases hd
  | cons x ds ih =>
      rcases List.mem_cons.mp hd with rfl | hmem
      · have hmem' := (List.mem_cons.mp hd').resolve_left (Ne.symm hne)
        exact .inl (List.Sublist.cons_cons d (List.singleton_sublist.mpr hmem'))
      · rcases List.mem_cons.mp hd' with rfl | hmem'
        · exact .inr (List.Sublist.cons_cons d' (List.singleton_sublist.mpr hmem))
        · exact (ih hmem hmem').imp (List.Sublist.cons x) (List.Sublist.cons x)

theorem overtakes_append (hk : k ≤ n) (hj : n < j) :
    Overtakes (ds ++ [(j, c)]) k e ↔ Overtakes ds k e := by
  constructor
  · rintro ⟨d, hlt, hd⟩
    rcases before_append.mp hd with hd | ⟨-, rfl⟩
    · exact ⟨d, hlt, hd⟩
    · exact absurd hlt (by simp only; omega)
  · rintro ⟨d, hlt, hd⟩
    exact ⟨d, hlt, before_append.mpr (.inl hd)⟩

theorem mem_append_of_ne (hne : k ≠ j) {c' : Call S V E} :
    (k, c') ∈ ds ++ [(j, c)] ↔ (k, c') ∈ ds := by
  rw [List.mem_append, List.mem_singleton, Prod.mk.injEq]
  exact or_iff_left fun h => hne h.1

/-- What a later child delivers changes nothing between the children before it. -/
theorem surfaces_append (hk : k ≤ n) (hj : n < j) :
    Surfaces (ds ++ [(j, c)]) k e ↔ Surfaces ds k e := by
  unfold Surfaces
  rw [mem_append_of_ne (by omega), overtakes_append hk hj]
  refine and_congr_right fun _ => or_congr_right ?_
  refine forall₂_congr fun i e' => forall_congr' fun hi => ?_
  rw [mem_append_of_ne (by omega)]

theorem Wins.append (h : Wins ds n e) (hj : n < j) : Wins (ds ++ [(j, c)]) n e := by
  obtain ⟨k, hk, hs, hmax⟩ := h
  refine ⟨k, hk, (surfaces_append hk hj).mpr hs, fun k' e' hlt hle => ?_⟩
  rw [surfaces_append hle hj]
  exact hmax k' e' hlt hle

theorem wins_of_surfaces (h : Surfaces ds n e) : Wins ds n e :=
  ⟨n, le_rfl, h, fun _ _ hlt hle => absurd hle (Nat.not_le.mpr hlt)⟩

/-- A child that does not surface leaves the error of the others ahead. -/
theorem Wins.succ (h : Wins ds n e) (hno : ∀ e', ¬Surfaces ds (n + 1) e') : Wins ds (n + 1) e := by
  obtain ⟨k, hk, hs, hmax⟩ := h
  refine ⟨k, Nat.le_succ_of_le hk, hs, fun k' e' hlt hle => ?_⟩
  rcases Nat.le_succ_iff.mp hle with hle | rfl
  · exact hmax k' e' hlt hle
  · exact hno e'

/-- The first of all errors surfaces. -/
theorem First.surfaces (h : First ds m e) : Surfaces ds m e := by
  refine ⟨h.1, ?_⟩
  by_cases hno : ∀ i e', i < m → (i, .setError e') ∉ ds
  · exact .inr hno
  · push Not at hno
    obtain ⟨i, e', hi, hmem⟩ := hno
    have hne : ((i, .setError e') : Delivery S V E) ≠ (m, .setError e) :=
      fun heq => absurd (congrArg Prod.fst heq) (Nat.ne_of_lt hi)
    have hafter := (before_total hmem h.1 hne).resolve_left (h.2 i e')
    exact .inl ⟨(i, .setError e'), hi, hafter⟩

/-- **Which error is ahead in the end**: the first one, exactly if the errors are in order. -/
theorem Wins.eq_iff (h : Wins ds n e) (hfun : ∀ i c c', (i, c) ∈ ds → (i, c') ∈ ds → c = c')
    (hlt : ∀ d ∈ ds, d.1 ≤ n) : (∀ m e', First ds m e' → e = e') ↔ InOrder ds := by
  obtain ⟨k, hk, hs, hmax⟩ := h
  have hle : ∀ k' e', Surfaces ds k' e' → k' ≤ k := by
    intro k' e' hs'
    by_contra hlt'
    exact hmax k' e' (Nat.not_le.mp hlt') (hlt _ hs'.1) hs'
  have herror : ∀ e', (k, .setError e') ∈ ds → e = e' := fun e' hmem =>
    Call.setError.inj (hfun k _ _ hs.1 hmem)
  have hover : ∀ k' e', Overtakes ds k' e' → Surfaces ds k' e' := fun k' e' ho =>
    ⟨ho.elim fun d hd => hd.2.mem.1, .inl ho⟩
  constructor
  · intro hall m e₁ hfirst k' e' hlt' ho
    obtain rfl := hall m e₁ hfirst
    have hk' := hle k' e' (hover k' e' ho)
    refine ⟨k, hk', hs.2.resolve_right fun hno => ?_⟩
    exact hno m e (Nat.lt_of_lt_of_le hlt' hk') hfirst.1
  · intro hin m e' hfirst
    rcases Nat.eq_or_lt_of_le (hle m e' hfirst.surfaces) with rfl | hlt'
    · exact herror e' hfirst.1
    · have ho := hs.2.resolve_right fun hno => hno m e' hlt' hfirst.1
      obtain ⟨k', hge, ho'⟩ := hin m e' hfirst k e hlt' ho
      obtain rfl := Nat.le_antisymm hge (hle k' e' (hover k' e' ho'))
      exact herror e' (hover k e' ho').1

/-- Children that deliver in the order of the source do not overtake. -/
theorem inOrder_of_sorted (h : ds.Pairwise fun d d' => d.1 < d'.1) : InOrder ds := by
  rintro m e - k e' - ⟨d, hlt, hd⟩
  exact absurd hlt (Nat.not_lt.mpr (List.pairwise_iff_forall_sublist.mp h hd).le)

end Order

/-! ## One split -/

/-- The other side of a split. -/
def Side.other : Side → Side
  | .x => .y
  | .y => .x

section Split

variable {r r' : SplitReceiver V E} {heard : Side → Option (Call S V E)}
  {sent out : Option (Call S V E)} {side : Side} {a c : Call S V E} {e : E}

theorem heard_of_mem (ha : heard side.other = some a) {b d : Call S V E}
    (hx : Function.update heard side (some c) .x = some b)
    (hy : Function.update heard side (some c) .y = some d) (he : .setError e ∈ [b, d]) :
    a = .setError e ∨ c = .setError e := by
  cases side with
  | x =>
      obtain rfl : c = b := by simpa using hx
      obtain rfl : a = d := by simpa [Side.other] using ha.symm.trans hy
      exact (List.mem_pair.mp he).symm.imp Eq.symm Eq.symm
  | y =>
      obtain rfl : a = b := by simpa [Side.other] using ha.symm.trans hx
      obtain rfl : c = d := by simpa using hy
      exact (List.mem_pair.mp he).imp Eq.symm Eq.symm

/-- **A split that completes with an error** has heard it first, or only it. -/
theorem SplitReceiver.Ok.call_error (hF : F.Lawful) (h : r.Ok heard sent) (side : Side)
    (hside : heard side = none) (ha : heard side.other = some a)
    (hcall : r.call F side c = .ok (r', some (.setError e))) :
    a = .setError e ∨ (∀ e', a ≠ .setError e') ∧ c = .setError e := by
  have hone : r.pending = 1 := by
    rw [h.pending]
    cases side <;> simp_all [Side.other]
  have hnotes := h.notes (by omega)
  by_cases herror : ∃ e', a = .setError e'
  · obtain ⟨e', rfl⟩ := herror
    left
    obtain ⟨e₁, he₁⟩ : ∃ e₁, r.error = some e₁ := by
      by_contra hnone
      rw [not_exists] at hnone
      exact hnotes.noError (Option.eq_none_iff_forall_ne_some.mpr hnone) side.other e' ha
    obtain ⟨side', hs⟩ := hnotes.error e₁ he₁
    obtain rfl : side' = side.other := by
      cases side <;> cases side' <;> first | rfl | exact absurd (hside.symm.trans hs) (by simp)
    obtain rfl : e' = e₁ := by simpa using ha.symm.trans hs
    have hslot : r.slot side = none := by rw [hnotes.slot side, hside, Option.bind_none]
    rw [call_eq (by omega) hslot] at hcall
    obtain ⟨hwith, hwithout⟩ := hF.error (r.note side c) e' ((note_pending c).trans hone)
      ((note_error c e').mpr (.inl he₁))
    have hfinish : F.finish (r.note side c) c =
        .ok ({ r.note side c with pending := 0, error := none }, some (.setError e')) := by
      cases c <;> first | exact hwith _ | exact hwithout
    rw [hfinish] at hcall
    simp only [Except.ok.injEq, Prod.mk.injEq, Option.some.injEq] at hcall
    exact hcall.2
  · rw [not_exists] at herror
    refine .inr ⟨herror, ?_⟩
    obtain ⟨r₁, out, hcall', hok, -⟩ := h.call hF side hside c
    rw [hcall] at hcall'
    obtain ⟨rfl, rfl⟩ : r' = r₁ ∧ some (.setError e) = out := by simpa using hcall'
    obtain ⟨b, d, hb, hd⟩ : ∃ b d, Function.update heard side (some c) .x = some b ∧
        Function.update heard side (some c) .y = some d := by
      cases side with
      | x => exact ⟨c, a, by simp, by simpa [Side.other] using ha⟩
      | y => exact ⟨a, c, by simpa [Side.other] using ha, by simp⟩
    obtain ⟨c', hc', hcombines⟩ := hok.combines b d hb hd
    obtain rfl := Option.some.inj hc'
    exact (heard_of_mem ha hb hd hcombines).resolve_left (herror e)

/-- A split that has heard from one side only does not call. -/
theorem SplitReceiver.Ok.out_eq_none (h : r.Ok heard out) (side : Side)
    (hside : heard side = none) :
    out = none := by
  refine h.waiting ?_
  rw [h.pending]
  cases side <;> simp [hside]

end Split

/-! ## The tree of `when_all!`

The children are combined from the left, so the `y` side of each split is one child, and the `x`
side all children before it. -/

/-- A tree of `n + 1` children after the deliveries `ds`: each split that has made a call has
forwarded the error that is ahead among its children. -/
inductive Tracks (ds : List (Delivery S V E)) : ℕ → Connected S V E → Prop
  | impl {delivered : Option (Call S V E)} :
      (∀ c, delivered = some c ↔ (0, c) ∈ ds) → Tracks ds 0 (.impl delivered)
  | pairwise {n : ℕ} {r : SplitReceiver V E} {sent delivered : Option (Call S V E)}
      {x : Connected S V E} :
      Tracks ds n x → (∀ c, delivered = some c ↔ (n + 1, c) ∈ ds) →
      (∀ e, sent = some (.setError e) → Wins ds (n + 1) e) →
      Tracks ds (n + 1) (.pairwise r sent x (.impl delivered))

section Tree

variable {ds : List (Delivery S V E)} {n i j : ℕ} {t t' : Connected S V E} {c : Call S V E} {e : E}

theorem tracks_connect (n : ℕ) :
    Tracks [] n ((NoSchedulerSender.leftNested n).connect : Connected S V E) := by
  induction n with
  | zero => exact .impl fun c => by simp
  | succ n ih => exact .pairwise ih (fun c => by simp) fun e he => by simp at he

theorem Tracks.length (h : Tracks ds n t) : t.signals.length = n + 1 := by
  induction h with
  | impl _ => rfl
  | pairwise _ _ _ ih => rw [Connected.signals, List.length_append, ih]; rfl

theorem Tracks.wins (h : Tracks ds n t) (hsent : t.sent = some (.setError e)) : Wins ds n e := by
  cases h with
  | impl hdelivered =>
      refine wins_of_surfaces ⟨(hdelivered _).mp hsent, .inr fun i e' hi => ?_⟩
      exact absurd hi (Nat.not_lt_zero i)
  | pairwise _ _ hwins => exact hwins e hsent

/-- A child delivers one signal. -/
theorem Tracks.functional (h : Tracks ds n t) {c' : Call S V E} (hi : i ≤ n) (hc : (i, c) ∈ ds)
    (hc' : (i, c') ∈ ds) : c = c' := by
  induction h with
  | impl hdelivered =>
      obtain rfl := Nat.le_zero.mp hi
      exact Option.some.inj (((hdelivered c).mpr hc).symm.trans ((hdelivered c').mpr hc'))
  | pairwise _ hdelivered _ ih =>
      rcases Nat.le_succ_iff.mp hi with hi | rfl
      · exact ih hi
      · exact Option.some.inj (((hdelivered c).mpr hc).symm.trans ((hdelivered c').mpr hc'))

theorem Tracks.mem_signals (h : Tracks ds n t) (hi : i ≤ n) (hc : (i, c) ∈ ds) :
    some c ∈ t.signals := by
  induction h with
  | impl hdelivered =>
      obtain rfl := Nat.le_zero.mp hi
      rw [Connected.signals, (hdelivered c).mpr hc]
      exact List.mem_singleton_self _
  | pairwise _ hdelivered _ ih =>
      rw [Connected.signals, List.mem_append]
      rcases Nat.le_succ_iff.mp hi with hi | rfl
      · exact .inl (ih hi)
      · rw [Connected.signals, (hdelivered c).mpr hc]
        exact .inr (List.mem_singleton_self _)

/-- What a later child delivers is not seen. -/
theorem Tracks.append (h : Tracks ds n t) (hj : n < j) : Tracks (ds ++ [(j, c)]) n t := by
  induction h with
  | impl hdelivered =>
      exact .impl fun c' => by rw [hdelivered, mem_append_of_ne (by omega)]
  | pairwise _ hdelivered hwins ih =>
      refine .pairwise (ih (by omega)) (fun c' => ?_) fun e he => (hwins e he).append hj
      rw [hdelivered, mem_append_of_ne (by omega)]

/-- A tree that has not sent an error has got none. -/
theorem Tracks.noError (h : Tracks ds n t) (hok : t.Ok) {a : Call S V E} (hsent : t.sent = some a)
    (hno : ∀ e, a ≠ .setError e) (hi : i ≤ n) : (i, .setError e) ∉ ds := by
  intro hmem
  obtain ⟨cs, hcs, hcombines⟩ := hok.combines hsent
  have hin : .setError e ∈ cs := by
    have hsignal := h.mem_signals hi hmem
    rw [hcs] at hsignal
    simpa using hsignal
  cases a with
  | setError e' => exact hno e' rfl
  | setDone => exact hcombines.2 e hin
  | setValue sch v => simpa using hcombines.1 _ hin

/-- What a child delivers that had delivered nothing. -/
theorem delivered_append {delivered : Option (Call S V E)}
    (h : ∀ c, delivered = some c ↔ (j, c) ∈ ds) (hnone : delivered = none) (c c' : Call S V E) :
    some c = some c' ↔ (j, c') ∈ ds ++ [(j, c)] := by
  have hno : (j, c') ∉ ds := fun hmem => by simpa [hnone] using (h c').mpr hmem
  rw [List.mem_append, or_iff_right hno, List.mem_singleton, Option.some.injEq, Prod.mk.injEq]
  exact ⟨fun heq => ⟨rfl, heq.symm⟩, fun heq => heq.2.symm⟩

/-- **The error that a split forwards** when its `x` side completes last. -/
theorem wins_of_x {r r' : SplitReceiver V E} {sent delivered out : Option (Call S V E)}
    {x x' : Connected S V E} {up : Call S V E} (hF : F.Lawful)
    (hr : r.Ok (heard x (.impl delivered)) sent) (hx : x.sent = none)
    (hx' : Tracks (ds ++ [(i, c)]) n x') (hup : x'.sent = some up)
    (hdelivered : ∀ c', delivered = some c' ↔ (n + 1, c') ∈ ds) (hi : i ≤ n)
    (hcall : r.call F .x up = .ok (r', out)) (hout : out = some (.setError e))
    (hwaits : delivered = none → out = none) : Wins (ds ++ [(i, c)]) (n + 1) e := by
  subst hout
  cases ha : delivered with
  | none => exact absurd (hwaits ha) (by simp)
  | some a =>
      have hmem : (n + 1, a) ∈ ds := (hdelivered a).mp ha
      rcases hr.call_error hF .x hx ha hcall with rfl | ⟨hno, rfl⟩
      · refine wins_of_surfaces ⟨List.mem_append_left _ hmem, .inl ⟨(i, c), ?_, ?_⟩⟩
        · exact Nat.lt_succ_of_le hi
        · exact before_append.mpr (.inr ⟨hmem, rfl⟩)
      · refine (hx'.wins hup).succ fun e' hs => ?_
        have hs' := (mem_append_of_ne (by omega)).mp hs.1
        obtain rfl := Option.some.inj (ha.symm.trans ((hdelivered _).mpr hs'))
        exact hno e' rfl

/-- **The error that a split forwards** when its `y` side completes last. -/
theorem wins_of_y {r r' : SplitReceiver V E} {sent out : Option (Call S V E)}
    {x : Connected S V E} (hF : F.Lawful) (hr : r.Ok (heard x (.impl none)) sent)
    (hx : Tracks ds n x) (hok : x.Ok) (hnew : ∀ c', (n + 1, c') ∉ ds)
    (hcall : r.call F .y c = .ok (r', out)) (hout : out = some (.setError e))
    (hwaits : x.sent = none → out = none) : Wins (ds ++ [(n + 1, c)]) (n + 1) e := by
  subst hout
  cases ha : x.sent with
  | none => exact absurd (hwaits ha) (by simp)
  | some a =>
      rcases hr.call_error hF .y rfl ha hcall with rfl | ⟨hno, rfl⟩
      · have hwins := hx.wins ha
        refine (hwins.append (Nat.lt_succ_self n)).succ fun e' hs => ?_
        rcases hs.2 with ⟨d, hlt, hd⟩ | hnone
        · rcases before_append.mp hd with hd | ⟨-, rfl⟩
          · exact hnew _ hd.mem.1
          · exact lt_irrefl _ hlt
        · obtain ⟨k, hk, hks, -⟩ := hwins
          exact hnone k e (Nat.lt_succ_of_le hk) (List.mem_append_left _ hks.1)
      · refine wins_of_surfaces ⟨List.mem_append_right _ (List.mem_singleton_self _), .inr ?_⟩
        intro i e' hi hmem
        rw [mem_append_of_ne (by omega)] at hmem
        exact hx.noError hok ha hno (Nat.le_of_lt_succ hi) hmem

/-- A side of a split that has not called yet passes a call on. -/
theorem passOn_eq {r r' : SplitReceiver V E} {out : Option (Call S V E)} {side : Side}
    {x y : Connected S V E} (hcall : r.call F side c = .ok (r', out)) :
    passOn F r side none (some c) x y = .ok (.pairwise r' out x y, out) := by
  simp only [passOn, hcall, Option.or_none]
  rfl

/-- **A delivery keeps track.** -/
theorem Tracks.deliver {out : Option (Call S V E)} (hF : F.Lawful) (h : Tracks ds n t) (hok : t.Ok)
    (hi : t.signals[i]? = some none) (hd : t.deliver F i c = .ok (t', out)) :
    Tracks (ds ++ [(i, c)]) n t' := by
  induction h generalizing i t' out with
  | @impl delivered hdelivered =>
      obtain ⟨rfl, rfl⟩ : i = 0 ∧ delivered = none := by
        simpa [Connected.signals, List.getElem?_singleton] using hi
      obtain ⟨rfl, -⟩ : Connected.impl (some c) = t' ∧ some c = out := by
        simpa [Connected.deliver] using hd
      exact .impl fun c' => delivered_append hdelivered rfl c c'
  | @pairwise n r sent delivered x hx hdelivered hwins ih =>
      have hsent : sent = none := hok.sent_eq_none.mpr (List.mem_of_getElem? hi)
      subst hsent
      obtain ⟨hokx, -, hr⟩ := hok
      simp only [Connected.signals] at hi
      by_cases hlt : i < x.signals.length
      · rw [List.getElem?_append_left hlt] at hi
        obtain ⟨x', outx, hdx, hokx', -, hnone, hsent', -⟩ := hokx.deliver hF hi c
        have hx' := ih hokx hi hdx
        rw [hx.length] at hlt
        have hdelivered' (c' : Call S V E) :
            delivered = some c' ↔ (n + 1, c') ∈ ds ++ [(i, c)] := by
          rw [hdelivered, mem_append_of_ne (Nat.ne_of_gt hlt)]
        simp only [Connected.deliver, hx.length, if_pos hlt, hdx] at hd
        change passOn F r .x none outx x' (.impl delivered) = _ at hd
        cases outx with
        | none =>
            obtain ⟨rfl, -⟩ : Connected.pairwise r none x' (.impl delivered) = t' ∧ none = out := by
              simpa [passOn] using hd
            exact .pairwise hx' hdelivered' fun e he => by simp at he
        | some up =>
            obtain ⟨r', out', hcall, hr', -⟩ := hr.call hF .x hnone up
            rw [passOn_eq hcall] at hd
            obtain ⟨rfl, rfl⟩ : Connected.pairwise r' out' x' (.impl delivered) = t' ∧
                out' = out := by
              simpa using hd
            rw [heard_update_x x x' _ hsent'] at hr'
            refine .pairwise hx' hdelivered' fun e he => ?_
            exact wins_of_x hF hr hnone hx' hsent' hdelivered (Nat.le_of_lt_succ hlt) hcall he
              (hr'.out_eq_none .y)
      · rw [List.getElem?_append_right (Nat.not_lt.mp hlt)] at hi
        obtain ⟨hsub, rfl⟩ : i - x.signals.length = 0 ∧ delivered = none := by
          simpa [Connected.signals, List.getElem?_singleton] using hi
        obtain rfl : i = n + 1 := by
          rw [hx.length] at hsub hlt
          omega
        obtain ⟨r', out', hcall, hr', -⟩ := hr.call hF .y rfl c
        simp only [Connected.deliver, if_neg hlt] at hd
        change passOn F r .y none (some c) x (.impl (some c)) = _ at hd
        rw [passOn_eq hcall] at hd
        obtain ⟨rfl, rfl⟩ : Connected.pairwise r' out' x (.impl (some c)) = t' ∧ out' = out := by
          simpa using hd
        rw [heard_update_y x (.impl none) (.impl (some c)) rfl] at hr'
        have hnew (c' : Call S V E) : (n + 1, c') ∉ ds := fun hmem => by
          simpa using (hdelivered c').mpr hmem
        refine .pairwise (hx.append (Nat.lt_succ_self n)) (delivered_append hdelivered rfl c) ?_
        exact fun e he => wins_of_y hF hr hx hokx hnew hcall he (hr'.out_eq_none .x)

end Tree

/-! ## The whole -/

section Whole

variable {s s' : State P S V E} {n : ℕ} {ls : List (Label S V E)} {l : Label S V E}

/-- The deliveries `ds` are those of the children of the tree. -/
structure Ordered (ds : List (Delivery S V E)) (n : ℕ) (s : State P S V E) : Prop where
  tracks : Tracks ds n s.tree
  child : ∀ d ∈ ds, d.1 ≤ n

theorem Ordered.deliver {i : ℕ} {c : Call S V E} {ds : List (Delivery S V E)} (hF : F.Lawful)
    (hR : Receives R sch) (h : Ordered ds n s) (hinv : Inv (.leftNested n) sch s)
    (hi : s.tree.signals[i]? = some none) :
    Ordered (ds ++ [(i, c)]) n (s.deliver F R i c) := by
  obtain ⟨t', out, hdeliver, -, -, hsent, -⟩ := hinv.tree.deliver hF hi c
  have htracks := h.tracks.deliver hF hinv.tree hi hdeliver
  have hchild (d : Delivery S V E) (hd : d ∈ ds ++ [(i, c)]) : d.1 ≤ n := by
    rcases List.mem_append.mp hd with hd | hd
    · exact h.child d hd
    · obtain rfl := List.mem_singleton.mp hd
      have hlt := (List.getElem?_eq_some_iff.mp hi).1
      rw [h.tracks.length] at hlt
      exact Nat.le_of_lt_succ hlt
  have htree : (s.deliver F R i c).tree = t' := by
    unfold State.deliver
    rw [hdeliver]
    cases out with
    | none => rfl
    | some out =>
      exact (hR.frame { s with tree := t', last := some c } out (hinv.waiting hsent).1).1
  exact ⟨htree ▸ htracks, hchild⟩

theorem deliveries_append (ls : List (Label S V E)) (l : Label S V E) :
    deliveries (ls ++ [l]) = deliveries ls ++ deliveries [l] :=
  List.filterMap_append

theorem ordered_whenAll {s : State P (Local P) V E} {ls : List (Label (Local P) V E)}
    (h : (whenAll P V E (.leftNested n)).Run (fun _ _ => True) ls s) :
    Ordered (deliveries ls) n s := by
  induction h with
  | init => exact ⟨tracks_connect n, fun d hd => nomatch hd⟩
  | @step ls s s' l hrun _ hs ih =>
      have hinv := ((Inv.whenAll (.leftNested n)).of_run hrun).1
      rw [deliveries_append]
      cases l with
      | deliver i c =>
          simp only [whenAll, step] at hs
          split at hs
          · next hi =>
              obtain rfl := Option.some.inj hs
              exact ih.deliver lawful_whenAll receives_whenAll hinv hi
          · simp at hs
      | run => exact absurd hs (Option.some_ne_none s').symm

theorem ordered_transfer {s : State P Unit V E} {ls : List (Label Unit V E)} {target : Scheduler P}
    (h : (transferWhenAll V E target (.leftNested n)).Run (fun _ _ => True) ls s) :
    Ordered (deliveries ls) n s := by
  induction h with
  | init => exact ⟨tracks_connect n, fun d hd => nomatch hd⟩
  | @step ls s s' l hrun _ hs ih =>
      have hinv := (Inv.transferWhenAll target (.leftNested n)).of_run hrun
      rw [deliveries_append]
      cases l with
      | deliver i c =>
          simp only [transferWhenAll, step] at hs
          split at hs
          · next hi =>
              obtain rfl := Option.some.inj hs
              exact ih.deliver lawful_transferWhenAll (receives_transfer target) hinv hi
          · simp at hs
      | run =>
          simp only [transferWhenAll, step, runTask] at hs
          split at hs
          · obtain rfl := Option.some.inj hs
            rw [show deliveries ([.run] : List (Label Unit V E)) = [] from rfl, List.append_nil]
            exact ⟨ih.tracks, ih.child⟩
          · simp at hs

/-- The error that was delivered first is the one signal downstream. -/
def ForwardsFirst (ds : List (Delivery S V E)) (s : State P S V E) : Prop :=
  ∀ m e, First ds m e → s.calls = [.error e]

theorem Ordered.forwardsFirst_iff {ds : List (Delivery S V E)} (h : Ordered ds n s)
    (hinv : Inv (.leftNested n) sch s) (hall : none ∉ s.tree.signals) :
    ForwardsFirst ds s ↔ InOrder ds := by
  obtain ⟨c, hc⟩ : ∃ c, s.tree.sent = some c :=
    Option.ne_none_iff_exists'.mp fun hnone => hall (hinv.tree.sent_eq_none.mp hnone)
  by_cases herror : ∃ e, c = .setError e
  · obtain ⟨e, rfl⟩ := herror
    have hcalls : s.calls = [.error e] := by
      rcases hinv.received _ hc with ⟨hcalls, -⟩ | ⟨-, a, v, hv, -⟩
      · exact hcalls
      · cases hv
    have hiff : ForwardsFirst ds s ↔ ∀ m e', First ds m e' → e = e' := by
      refine forall₂_congr fun m e' => imp_congr_right fun _ => ?_
      rw [hcalls, List.singleton_inj, Signal.error.injEq]
    rw [hiff]
    refine (h.tracks.wins hc).eq_iff (fun i c c' hi hi' => ?_) h.child
    exact h.tracks.functional (h.child _ hi) hi hi'
  · rw [not_exists] at herror
    have hno (m : ℕ) (e : E) : ¬First ds m e := fun hfirst =>
      h.tracks.noError hinv.tree hc herror (h.child _ hfirst.1) hfirst.1
    exact ⟨fun _ m e hfirst => absurd hfirst (hno m e), fun _ m e hfirst => absurd hfirst (hno m e)⟩

end Whole

/-- **The first error is forwarded exactly if the errors are in order**: for `n + 1` children,
combined from the left, in every run of `when_all!` and of `transfer_when_all!` in which all of them
have delivered. -/
theorem first_error_forwarded (n : ℕ) (target : Scheduler P) :
    (∀ ls s, (whenAll P V E (.leftNested n)).Run (fun _ _ => True) ls s → none ∉ s.tree.signals →
      (ForwardsFirst (deliveries ls) s ↔ InOrder (deliveries ls))) ∧
    ∀ ls s, (transferWhenAll V E target (.leftNested n)).Run (fun _ _ => True) ls s →
      none ∉ s.tree.signals → (ForwardsFirst (deliveries ls) s ↔ InOrder (deliveries ls)) :=
  ⟨fun _ _ h hall =>
    (ordered_whenAll h).forwardsFirst_iff ((Inv.whenAll (.leftNested n)).of_run h).1 hall,
   fun _ _ h hall =>
    (ordered_transfer h).forwardsFirst_iff ((Inv.transferWhenAll target _).of_run h) hall⟩

/-- Three children that deliver in the order of the source, two of them an error. -/
def sortedErrors : List (Label (Local Unit) ℕ ℕ) :=
  [.deliver 0 (.setError 10), .deliver 1 .setDone, .deliver 2 (.setError 12)]

theorem sortedErrors_forwarded :
    ∃ s, (whenAll Unit ℕ ℕ (.leftNested 2)).Run (fun _ _ => True) sortedErrors s ∧
      s.calls = [.error 10] := by
  obtain ⟨s, hs, hall⟩ : ∃ s, (whenAll Unit ℕ ℕ (.leftNested 2)).exec (fresh (.leftNested 2))
      sortedErrors = some s ∧ none ∉ s.tree.signals := Machine.exec_ends (by decide +kernel)
  have hrun : (whenAll Unit ℕ ℕ (.leftNested 2)).Run (fun _ _ => True) sortedErrors s :=
    .of_exec (by decide +kernel) hs
  have hsorted : (deliveries sortedErrors).Pairwise fun d d' => d.1 < d'.1 := by
    simp [sortedErrors, deliveries, Label.delivery?]
  have hfirst : First (deliveries sortedErrors) 0 10 := by
    refine ⟨by simp [sortedErrors, deliveries, Label.delivery?], fun i e hbefore => ?_⟩
    exact absurd (List.pairwise_iff_forall_sublist.mp hsorted hbefore) (Nat.not_lt_zero i)
  have hiff := (first_error_forwarded (P := Unit) 2 (.pool ())).1 sortedErrors s hrun hall
  exact ⟨s, hrun, hiff.mpr (inOrder_of_sorted hsorted) 0 10 hfirst⟩

/-- Child 0 fails first, and child 2 fails while child 1 is still to deliver. -/
def overtakenError : List (Label (Local Unit) ℕ ℕ) :=
  [.deliver 0 (.setError 10), .deliver 2 (.setError 12), .deliver 1 (.setValue (.pool ()) [1])]

/-- The error of child 2 is forwarded. -/
theorem overtakenError_forwarded :
    ∃ s, (whenAll Unit ℕ ℕ (.leftNested 2)).Run (fun _ _ => True) overtakenError s ∧
      First (deliveries overtakenError) 0 10 ∧ s.calls = [.error 12] ∧
      ¬ForwardsFirst (deliveries overtakenError) s := by
  obtain ⟨s, hs, hcalls⟩ : ∃ s, (whenAll Unit ℕ ℕ (.leftNested 2)).exec (fresh (.leftNested 2))
      overtakenError = some s ∧ s.calls = [.error 12] := Machine.exec_ends (by decide +kernel)
  have hrun : (whenAll Unit ℕ ℕ (.leftNested 2)).Run (fun _ _ => True) overtakenError s :=
    .of_exec (by decide +kernel) hs
  have hfirst : First (deliveries overtakenError) 0 10 := by
    refine ⟨by simp [overtakenError, deliveries, Label.delivery?], fun i e hbefore => ?_⟩
    have hpair : (deliveries overtakenError).Pairwise fun _ d' => d' ≠ (0, .setError 10) := by
      simp [overtakenError, deliveries, Label.delivery?]
    exact List.pairwise_iff_forall_sublist.mp hpair hbefore rfl
  refine ⟨s, hrun, hfirst, hcalls, fun hforwards => ?_⟩
  have hten := hcalls.symm.trans (hforwards 0 10 hfirst)
  simp at hten

end SendersReceivers.WhenAll
