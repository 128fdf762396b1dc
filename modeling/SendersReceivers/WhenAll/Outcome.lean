import Mathlib.Logic.Function.Basic
import SendersReceivers.WhenAll.Machine

/-!
# WhenAll/Outcome — one signal, when the last child has delivered

A split that has heard from one side waits; one that has heard from both makes a call that follows
from what it has heard.  So a tree sends when its last child delivers, and by induction on the tree
what it sends follows from what the children have delivered: an error if there was one, or else done
if there was one, or else all values in the order of the source.
-/

namespace SendersReceivers.WhenAll

open Machinery

variable {P S V E : Type} {F : Completion S V E} {r : SplitReceiver V E} {side : Side}
  {c : Call S V E}

/-! ## What follows from what -/

/-- The value a call brings. -/
def Call.value? : Call S V E → Option (List V)
  | .setValue _ value => some value
  | _ => none

/-- The values of a value call. -/
def Call.values (c : Call S V E) : List V := c.value?.getD []

/-- **The call that follows from the calls `ds`.** -/
def Combines (ds : List (Call S V E)) : Call S V E → Prop
  | .setError e => .setError e ∈ ds
  | .setDone => .setDone ∈ ds ∧ ∀ e, .setError e ∉ ds
  | .setValue _ value =>
      (∀ d ∈ ds, ∃ sch v, d = .setValue sch v) ∧ value = ds.flatMap Call.values

theorem combines_self (c : Call S V E) : Combines [c] c := by
  cases c with
  | setValue sch v =>
      exact ⟨fun d hd => ⟨sch, v, List.mem_singleton.mp hd⟩, by simp [Call.values, Call.value?]⟩
  | setError e => exact List.mem_singleton_self _
  | setDone => exact ⟨List.mem_singleton_self _, fun e he => by simp at he⟩

/-- What follows from two calls follows from all that these follow from. -/
theorem Combines.append {dx dy : List (Call S V E)} {a b : Call S V E} (hx : Combines dx a)
    (hy : Combines dy b) (hc : Combines [a, b] c) : Combines (dx ++ dy) c := by
  cases c with
  | setError e =>
      rcases List.mem_pair.mp hc with rfl | rfl
      · exact List.mem_append_left _ hx
      · exact List.mem_append_right _ hy
  | setDone =>
      obtain ⟨hdone, hno⟩ := hc
      have hx' : ∀ e, .setError e ∉ dx := by
        cases a with
        | setError e => exact absurd (by simp) (hno e)
        | setDone => exact hx.2
        | setValue sch v => exact fun e he => by simpa using hx.1 _ he
      have hy' : ∀ e, .setError e ∉ dy := by
        cases b with
        | setError e => exact absurd (by simp) (hno e)
        | setDone => exact hy.2
        | setValue sch v => exact fun e he => by simpa using hy.1 _ he
      refine ⟨?_, fun e he => (List.mem_append.mp he).elim (hx' e) (hy' e)⟩
      rcases List.mem_pair.mp hdone with rfl | rfl
      · exact List.mem_append_left _ hx.1
      · exact List.mem_append_right _ hy.1
  | setValue sch v =>
      obtain ⟨hall, rfl⟩ := hc
      obtain ⟨sa, va, rfl⟩ := hall a (by simp)
      obtain ⟨sb, vb, rfl⟩ := hall b (by simp)
      refine ⟨fun d hd => (List.mem_append.mp hd).elim (hx.1 d) (hy.1 d), ?_⟩
      rw [List.flatMap_append, ← hx.2, ← hy.2]
      simp [Call.values, Call.value?]

/-! ## One split -/

/-- **A split notes what it hears**: values in their slots, one of the errors, and whether there was
a done. -/
structure SplitReceiver.Notes (r : SplitReceiver V E) (heard : Side → Option (Call S V E)) :
    Prop where
  slot : ∀ side, r.slot side = (heard side).bind Call.value?
  done : r.done = true ↔ ∃ side, heard side = some .setDone
  error : ∀ e, r.error = some e → ∃ side, heard side = some (.setError e)
  noError : r.error = none → ∀ side e, heard side ≠ some (.setError e)

/-- A split that waits notes what it has heard so far; one that has heard from both sides has made
the call that follows. -/
structure SplitReceiver.Ok (r : SplitReceiver V E) (heard : Side → Option (Call S V E))
    (sent : Option (Call S V E)) : Prop where
  pending : r.pending = (heard .x).isNone.toNat + (heard .y).isNone.toNat
  notes : r.pending ≠ 0 → r.Notes heard
  waiting : r.pending ≠ 0 → sent = none
  combines : ∀ a b, heard .x = some a → heard .y = some b → ∃ c, sent = some c ∧ Combines [a, b] c

theorem SplitReceiver.ok_new : (SplitReceiver.new : SplitReceiver V E).Ok
    (fun _ => (none : Option (Call S V E))) none where
  pending := rfl
  notes _ := {
    slot := fun side => by cases side <;> rfl
    done := by simp [SplitReceiver.new]
    error := fun e he => by simp [SplitReceiver.new] at he
    noError := fun _ side e => by simp }
  waiting _ := rfl
  combines a b ha := by simp at ha

/-- **What the two completion functions do**, as far as they are called. -/
structure Completion.Lawful (F : Completion S V E) : Prop where
  waits (r : SplitReceiver V E) : r.pending = 2 →
    (∀ sch, F.withValue r sch = .ok ({ r with pending := 1 }, none)) ∧
      F.withoutValue r = .ok ({ r with pending := 1 }, none)
  error (r : SplitReceiver V E) (e : E) : r.pending = 1 → r.error = some e →
    (∀ sch, F.withValue r sch =
      .ok ({ r with pending := 0, error := none }, some (.setError e))) ∧
      F.withoutValue r = .ok ({ r with pending := 0, error := none }, some (.setError e))
  done (r : SplitReceiver V E) : r.pending = 1 → r.error = none → r.done = true →
    (∀ sch, F.withValue r sch = .ok ({ r with pending := 0 }, some .setDone)) ∧
      F.withoutValue r = .ok ({ r with pending := 0 }, some .setDone)
  value (r : SplitReceiver V E) (sch : S) (x y : List V) : r.pending = 1 → r.error = none →
    r.done = false → r.x = some x → r.y = some y →
    F.withValue r sch =
      .ok ({ r with pending := 0, x := none, y := none }, some (.setValue sch (x ++ y)))

theorem lawful_whenAll : (Completion.whenAll : Completion S V E).Lawful where
  waits r hr := by
    simp [Completion.whenAll, SplitReceiver.maybeComplete, SplitReceiver.maybeCompleteWithScheduler,
      countDown, SplitReceiver.ready, hr]
  error r e hr he := by
    simp [Completion.whenAll, SplitReceiver.maybeComplete, SplitReceiver.maybeCompleteWithScheduler,
      countDown, SplitReceiver.ready, errorOrDone, hr, he]
  done r hr he hd := by
    simp [Completion.whenAll, SplitReceiver.maybeComplete, SplitReceiver.maybeCompleteWithScheduler,
      countDown, SplitReceiver.ready, errorOrDone, hr, he, hd]
  value r sch x y hr he hd hx hy := by
    simp [Completion.whenAll, SplitReceiver.maybeCompleteWithScheduler, countDown,
      SplitReceiver.ready, errorOrDone, bothValues, hr, he, hd, hx, hy]

theorem lawful_transferWhenAll : (Completion.transferWhenAll : Completion Unit V E).Lawful where
  waits r hr := by
    simp [Completion.transferWhenAll, SplitReceiver.transferMaybeComplete, countDown,
      SplitReceiver.ready, hr]
  error r e hr he := by
    simp [Completion.transferWhenAll, SplitReceiver.transferMaybeComplete, countDown,
      SplitReceiver.ready, errorOrDone, hr, he]
  done r hr he hd := by
    simp [Completion.transferWhenAll, SplitReceiver.transferMaybeComplete, countDown,
      SplitReceiver.ready, errorOrDone, hr, he, hd]
  value r sch x y hr he hd hx hy := by
    simp [Completion.transferWhenAll, SplitReceiver.transferMaybeComplete, countDown,
      SplitReceiver.ready, errorOrDone, bothValues, hr, he, hd, hx, hy]

/-- A split with a call noted. -/
def SplitReceiver.note (r : SplitReceiver V E) (side : Side) : Call S V E → SplitReceiver V E
  | .setValue _ value => r.insert value side
  | .setError error => { r with error := some (r.error.getD error) }
  | .setDone => { r with done := true }

/-- The completion function that is called after that. -/
def Completion.finish (F : Completion S V E) (r : SplitReceiver V E) : Call S V E → Answer S V E
  | .setValue sch _ => F.withValue r sch
  | _ => F.withoutValue r

theorem call_eq (hpending : r.pending ≠ 0) (hslot : r.slot side = none) (c : Call S V E) :
    r.call F side c = F.finish (r.note side c) c := by
  unfold SplitReceiver.call
  rw [if_neg hpending, hslot]
  cases c <;> rfl

theorem note_pending (c : Call S V E) : (r.note side c).pending = r.pending := by
  cases c <;> first | rfl | (cases side <;> rfl)

theorem note_slot (hslot : r.slot side = none) (c : Call S V E) (side' : Side) :
    (r.note side c).slot side' = if side' = side then c.value? else r.slot side' := by
  cases c with
  | setValue sch value => cases side <;> cases side' <;> rfl
  | setError e => cases side <;> cases side' <;> first | rfl | exact hslot
  | setDone => cases side <;> cases side' <;> first | rfl | exact hslot

theorem note_done (c : Call S V E) :
    (r.note side c).done = true ↔ r.done = true ∨ c = .setDone := by
  cases c with
  | setValue sch value => cases side <;> simp [SplitReceiver.note, SplitReceiver.insert]
  | setError e => simp [SplitReceiver.note]
  | setDone => simp [SplitReceiver.note]

theorem note_error (c : Call S V E) (e : E) :
    (r.note side c).error = some e ↔ r.error = some e ∨ r.error = none ∧ c = .setError e := by
  cases c with
  | setValue sch value => cases side <;> simp [SplitReceiver.note, SplitReceiver.insert]
  | setError e' => cases hr : r.error <;> simp [SplitReceiver.note, hr]
  | setDone => simp [SplitReceiver.note]

theorem SplitReceiver.Notes.note {heard : Side → Option (Call S V E)} (h : r.Notes heard)
    (hside : heard side = none) (c : Call S V E) :
    (r.note side c).Notes (Function.update heard side (some c)) := by
  have hslot : r.slot side = none := by rw [h.slot side, hside, Option.bind_none]
  have hheard (d : Call S V E) : (∃ side', Function.update heard side (some c) side' = some d) ↔
      c = d ∨ ∃ side', heard side' = some d := by
    constructor
    · rintro ⟨side', hs⟩
      by_cases heq : side' = side
      · subst heq
        exact .inl (by simpa using hs)
      · exact .inr ⟨side', by simpa [heq] using hs⟩
    · rintro (rfl | ⟨side', hs⟩)
      · exact ⟨side, by simp⟩
      · have hne : side' ≠ side := fun heq => by simp [heq, hside] at hs
        exact ⟨side', by simpa [hne] using hs⟩
  refine ⟨fun side' => ?_, ?_, fun e he => ?_, fun hnone side' e he => ?_⟩
  · rw [note_slot hslot, h.slot side']
    split
    · next heq =>
        subst heq
        simp
    · next heq => simp [heq]
  · rw [note_done, h.done, hheard, or_comm]
  · rw [hheard]
    rcases (note_error c e).mp he with he | ⟨-, rfl⟩
    · exact .inr (h.error e he)
    · exact .inl rfl
  · have hall (e : E) : ¬(r.error = some e ∨ r.error = none ∧ c = .setError e) := fun hr => by
      have hsome := hnone.symm.trans ((note_error c e).mpr hr)
      simp at hsome
    have hr : r.error = none := by
      cases hr : r.error with
      | none => rfl
      | some e => exact absurd (.inl hr) (hall e)
    rcases (hheard _).mp ⟨side', he⟩ with hc | ⟨side'', hs⟩
    · exact hall e (.inr ⟨hr, hc⟩)
    · exact h.noError hr side'' e hs

/-- **The second call completes a split.** -/
theorem SplitReceiver.Notes.finish (hF : F.Lawful) {heard : Side → Option (Call S V E)}
    (h : r.Notes heard) (hpending : r.pending = 1) {a b : Call S V E} (ha : heard .x = some a)
    (hb : heard .y = some b) (hside : heard side = some c) :
    ∃ r' out, F.finish r c = .ok (r', some out) ∧ r'.pending = 0 ∧ Combines [a, b] out ∧
      ∀ sch v, out = .setValue sch v → ∃ v', c = .setValue sch v' := by
  have hmem (side' : Side) (d : Call S V E) (hd : heard side' = some d) : d ∈ [a, b] := by
    cases side' <;> simp_all
  have hheard (d : Call S V E) (hd : d ∈ [a, b]) : ∃ side', heard side' = some d := by
    rcases List.mem_pair.mp hd with rfl | rfl
    · exact ⟨.x, ha⟩
    · exact ⟨.y, hb⟩
  cases he : r.error with
  | some e =>
      obtain ⟨side', hs⟩ := h.error e he
      obtain ⟨hwith, hwithout⟩ := hF.error r e hpending he
      refine ⟨{ r with pending := 0, error := none }, .setError e, ?_, rfl, hmem side' _ hs,
        fun sch v hv => by simp at hv⟩
      cases c <;> first | exact hwith _ | exact hwithout
  | none =>
      have hno (e : E) : .setError e ∉ [a, b] := fun hmem => by
        obtain ⟨side', hs⟩ := hheard _ hmem
        exact h.noError he side' e hs
      cases hd : r.done with
      | true =>
          obtain ⟨side', hs⟩ := h.done.mp hd
          obtain ⟨hwith, hwithout⟩ := hF.done r hpending he hd
          refine ⟨{ r with pending := 0 }, .setDone, ?_, rfl, ⟨hmem side' _ hs, hno⟩,
            fun sch v hv => by simp at hv⟩
          cases c <;> first | exact hwith _ | exact hwithout
      | false =>
          have hvalue (d : Call S V E) (hd' : d ∈ [a, b]) : ∃ sch v, d = .setValue sch v := by
            cases d with
            | setValue sch v => exact ⟨sch, v, rfl⟩
            | setError e => exact absurd hd' (hno e)
            | setDone => exact absurd (h.done.mpr (hheard _ hd')) (by simp [hd])
          obtain ⟨sa, va, rfl⟩ := hvalue a (by simp)
          obtain ⟨sb, vb, rfl⟩ := hvalue b (by simp)
          obtain ⟨sch, v, rfl⟩ := hvalue c (hmem side c hside)
          refine ⟨_, .setValue sch (va ++ vb), hF.value r sch va vb hpending he hd ?_ ?_, rfl,
            ⟨hvalue, by simp [Call.values, Call.value?]⟩, fun sch' v' hv => ?_⟩
          · simpa [SplitReceiver.slot, ha, Call.value?] using h.slot .x
          · simpa [SplitReceiver.slot, hb, Call.value?] using h.slot .y
          · obtain ⟨rfl, -⟩ := Call.setValue.inj hv
            exact ⟨v, rfl⟩

/-- **A side that has not called yet calls.** -/
theorem SplitReceiver.Ok.call (hF : F.Lawful) {heard : Side → Option (Call S V E)}
    {sent : Option (Call S V E)} (h : r.Ok heard sent) (side : Side) (hside : heard side = none)
    (c : Call S V E) :
    ∃ r' out, r.call F side c = .ok (r', out) ∧ r'.Ok (Function.update heard side (some c)) out ∧
      ∀ sch v, out = some (.setValue sch v) → ∃ v', c = .setValue sch v' := by
  have hpos : r.pending ≠ 0 := by
    rw [h.pending]
    cases side <;> simp [hside]
  have hnotes := (h.notes hpos).note hside c
  have hslot : r.slot side = none := by rw [(h.notes hpos).slot side, hside, Option.bind_none]
  rw [call_eq hpos hslot]
  by_cases hother : r.pending = 2
  · obtain ⟨hwith, hwithout⟩ := hF.waits (r.note side c) ((note_pending c).trans hother)
    refine ⟨{ r.note side c with pending := 1 }, none, ?_, ?_, fun sch v hv => by simp at hv⟩
    · cases c <;> first | exact hwith _ | exact hwithout
    · have hnone : heard .x = none ∧ heard .y = none := by
        have hpending := h.pending
        cases hx : heard .x <;> cases hy : heard .y <;> simp [hx, hy, hother] at hpending ⊢
      refine ⟨?_, fun _ => ⟨hnotes.slot, hnotes.done, hnotes.error, hnotes.noError⟩, fun _ => rfl,
        fun a b ha hb => ?_⟩
      · cases side <;> simp [hnone]
      · cases side <;> simp [hnone] at ha hb
  · have hone : r.pending = 1 := by
      have hpending := h.pending
      have hx := Bool.toNat_le (heard .x).isNone
      have hy := Bool.toNat_le (heard .y).isNone
      cases side <;> simp only [hside, Option.isNone_none, Bool.toNat_true] at hpending <;> omega
    obtain ⟨a, b, ha, hb⟩ : ∃ a b, Function.update heard side (some c) .x = some a ∧
        Function.update heard side (some c) .y = some b := by
      have hpending := h.pending
      cases side <;> cases hx : heard .x <;> cases hy : heard .y <;> simp_all
    obtain ⟨r', out, hfinish, hzero, hcombines, hsch⟩ :=
      hnotes.finish hF ((note_pending c).trans hone) ha hb (Function.update_self side _ heard)
    refine ⟨r', some out, hfinish, ⟨?_, fun hne => absurd hzero hne, fun hne => absurd hzero hne,
      fun a' b' ha' hb' => ?_⟩, fun sch v hv => hsch sch v (Option.some.inj hv)⟩
    · rw [hzero, ha, hb]
      rfl
    · obtain rfl := Option.some.inj (ha.symm.trans ha')
      obtain rfl := Option.some.inj (hb.symm.trans hb')
      exact ⟨out, rfl, hcombines⟩

/-! ## A tree of splits -/

/-- What a split has heard is what its two subtrees have sent. -/
def heard (x y : Connected S V E) : Side → Option (Call S V E)
  | .x => x.sent
  | .y => y.sent

theorem heard_update_x (x x' y : Connected S V E) {c : Call S V E} (hc : x'.sent = some c) :
    Function.update (heard x y) .x (some c) = heard x' y := by
  ext side : 1
  cases side <;> simp [heard, hc]

theorem heard_update_y (x y y' : Connected S V E) {c : Call S V E} (hc : y'.sent = some c) :
    Function.update (heard x y) .y (some c) = heard x y' := by
  ext side : 1
  cases side <;> simp [heard, hc]

/-- Every split of the tree is well formed. -/
def Connected.Ok : Connected S V E → Prop
  | .impl _ => True
  | .pairwise r sent x y => x.Ok ∧ y.Ok ∧ r.Ok (heard x y) sent

theorem connect_sent (ts : NoSchedulerSender) : (ts.connect : Connected S V E).sent = none := by
  cases ts <;> rfl

theorem connect_ok (ts : NoSchedulerSender) : (ts.connect : Connected S V E).Ok := by
  induction ts with
  | impl => trivial
  | pairwise x y ihx ihy =>
      refine ⟨ihx, ihy, ?_⟩
      have hnone : heard (x.connect : Connected S V E) y.connect = fun _ => none := by
        ext side : 1
        cases side <;> exact connect_sent _
      rw [hnone]
      exact SplitReceiver.ok_new

variable {t : Connected S V E}

/-- A tree has sent exactly if all of its children have delivered. -/
theorem Connected.Ok.sent_eq_none (h : t.Ok) : t.sent = none ↔ none ∈ t.signals := by
  induction t with
  | impl delivered => simp [Connected.sent, Connected.signals, eq_comm]
  | pairwise r sent x y ihx ihy =>
      obtain ⟨hx, hy, hr⟩ := h
      simp only [Connected.signals, List.mem_append, ← ihx hx, ← ihy hy]
      have hpending := hr.pending
      constructor
      · intro hsent
        by_contra hboth
        rw [not_or] at hboth
        obtain ⟨a, ha⟩ := Option.ne_none_iff_exists'.mp hboth.1
        obtain ⟨b, hb⟩ := Option.ne_none_iff_exists'.mp hboth.2
        obtain ⟨c, hc, -⟩ := hr.combines a b ha hb
        exact Option.some_ne_none c (hc.symm.trans hsent)
      · rintro (hnone | hnone)
        · exact hr.waiting (by simp [hpending, heard, hnone])
        · exact hr.waiting (by simp [hpending, heard, hnone])

/-- **What a tree sends follows from what its children have delivered.** -/
theorem Connected.Ok.combines (h : t.Ok) (hc : t.sent = some c) :
    ∃ ds, t.signals = ds.map some ∧ Combines ds c := by
  induction t generalizing c with
  | impl delivered =>
      obtain rfl : delivered = some c := hc
      exact ⟨[c], rfl, combines_self c⟩
  | pairwise r sent x y ihx ihy =>
      obtain ⟨hx, hy, hr⟩ := h
      obtain rfl : sent = some c := hc
      have hzero : r.pending = 0 := by
        by_contra hne
        exact Option.some_ne_none c (hr.waiting hne)
      have hpending := hr.pending.symm.trans hzero
      obtain ⟨a, ha⟩ : ∃ a, x.sent = some a := by
        cases hs : x.sent with
        | none => simp [heard, hs] at hpending
        | some a => exact ⟨a, rfl⟩
      obtain ⟨b, hb⟩ : ∃ b, y.sent = some b := by
        cases hs : y.sent with
        | none => simp [heard, hs] at hpending
        | some b => exact ⟨b, rfl⟩
      obtain ⟨c', hc', hcombines⟩ := hr.combines a b ha hb
      obtain rfl := Option.some.inj hc'
      obtain ⟨dx, hdx, hcx⟩ := ihx hx ha
      obtain ⟨dy, hdy, hcy⟩ := ihy hy hb
      exact ⟨dx ++ dy, by simp [Connected.signals, hdx, hdy], hcx.append hcy hcombines⟩

/-- **A child that has not delivered delivers**: no panic, and what goes out at the top carries the
scheduler of this child. -/
theorem Connected.Ok.deliver (hF : F.Lawful) {i : ℕ} (h : t.Ok) (hi : t.signals[i]? = some none)
    (c : Call S V E) :
    ∃ t' out, t.deliver F i c = .ok (t', out) ∧ t'.Ok ∧ t'.signals = t.signals.set i (some c) ∧
      t.sent = none ∧ t'.sent = out ∧
        ∀ sch v, out = some (.setValue sch v) → ∃ v', c = .setValue sch v' := by
  induction t generalizing i with
  | impl delivered =>
      obtain ⟨rfl, rfl⟩ : i = 0 ∧ delivered = none := by
        simpa [Connected.signals, List.getElem?_singleton] using hi
      exact ⟨.impl (some c), some c, rfl, trivial, rfl, rfl, rfl, fun sch v hv =>
        ⟨v, Option.some.inj hv⟩⟩
  | pairwise r sent x y ihx ihy =>
      obtain ⟨hx, hy, hr⟩ := h
      have hnone : sent = none := by
        refine (Connected.Ok.sent_eq_none (t := .pairwise r sent x y) ⟨hx, hy, hr⟩).mpr ?_
        exact List.mem_of_getElem? hi
      simp only [Connected.signals] at hi
      by_cases hlt : i < x.signals.length
      · rw [List.getElem?_append_left hlt] at hi
        obtain ⟨x', out, hdeliver, hok, hsignals, hsent, hsent', hsch⟩ := ihx hx hi
        have hset : (x.signals ++ y.signals).set i (some c) = x'.signals ++ y.signals := by
          rw [List.set_append_left _ _ hlt, hsignals]
        cases out with
        | none =>
            have hheard : heard x' y = heard x y := by
              ext side : 1
              cases side
              · exact hsent'.trans hsent.symm
              · rfl
            refine ⟨.pairwise r sent x' y, none, ?_, ⟨hok, hy, hheard ▸ hr⟩, hset.symm, hnone,
              hnone, fun sch v hv => by simp at hv⟩
            simp only [Connected.deliver, if_pos hlt, hdeliver]
            rfl
        | some up =>
            obtain ⟨r', out, hcall, hok', hsch'⟩ := hr.call hF .x hsent up
            rw [heard_update_x x x' y hsent'] at hok'
            refine ⟨.pairwise r' out x' y, out, ?_, ⟨hok, hy, hok'⟩, hset.symm, hnone, rfl,
              fun sch v hv => ?_⟩
            · simp only [Connected.deliver, if_pos hlt, hdeliver, hnone]
              change (passOn F r .x none (some up) x' y) = _
              simp only [passOn, hcall, Option.or_none]
              rfl
            · obtain ⟨v', rfl⟩ := hsch' sch v hv
              exact hsch sch v' rfl
      · rw [List.getElem?_append_right (Nat.not_lt.mp hlt)] at hi
        obtain ⟨y', out, hdeliver, hok, hsignals, hsent, hsent', hsch⟩ := ihy hy hi
        have hset : (x.signals ++ y.signals).set i (some c) = x.signals ++ y'.signals := by
          rw [List.set_append_right _ _ (Nat.not_lt.mp hlt), hsignals]
        cases out with
        | none =>
            have hheard : heard x y' = heard x y := by
              ext side : 1
              cases side
              · rfl
              · exact hsent'.trans hsent.symm
            refine ⟨.pairwise r sent x y', none, ?_, ⟨hx, hok, hheard ▸ hr⟩, hset.symm, hnone,
              hnone, fun sch v hv => by simp at hv⟩
            simp only [Connected.deliver, if_neg hlt, hdeliver]
            rfl
        | some up =>
            obtain ⟨r', out, hcall, hok', hsch'⟩ := hr.call hF .y hsent up
            rw [heard_update_y x y y' hsent'] at hok'
            refine ⟨.pairwise r' out x y', out, ?_, ⟨hx, hok, hok'⟩, hset.symm, hnone, rfl,
              fun sch v hv => ?_⟩
            · simp only [Connected.deliver, if_neg hlt, hdeliver, hnone]
              change (passOn F r .y none (some up) x y') = _
              simp only [passOn, hcall, Option.or_none]
              rfl
            · obtain ⟨v', rfl⟩ := hsch' sch v hv
              exact hsch sch v' rfl

/-! ## The whole -/

variable {s s' : State P S V E} {ts : NoSchedulerSender} {sch : S → Local P}

/-- The signal of a call, with the scheduler it is delivered on. -/
def Call.signal (sch : S → Local P) : Call S V E → Signal P V E
  | .setValue s value => .value (sch s) value
  | .setError error => .error error
  | .setDone => .done

/-- How many children were combined. -/
def NoSchedulerSender.children : NoSchedulerSender → ℕ
  | .impl => 1
  | .pairwise x y => x.children + y.children

theorem children_leftNested (n : ℕ) : (NoSchedulerSender.leftNested n).children = n + 1 := by
  induction n with
  | zero => rfl
  | succ n ih =>
      rw [NoSchedulerSender.leftNested, NoSchedulerSender.cat, NoSchedulerSender.children, ih]
      rfl

theorem connect_signals (ts : NoSchedulerSender) :
    (ts.connect : Connected S V E).signals.length = ts.children := by
  induction ts with
  | impl => rfl
  | pairwise x y ihx ihy =>
      rw [NoSchedulerSender.connect, Connected.signals, List.length_append, ihx, ihy]
      rfl

/-- **Where the call of the tree has got to**: it was made, or a task holds its value. -/
def Received (sch : S → Local P) (s : State P S V E) (c : Call S V E) : Prop :=
  (s.calls = [c.signal sch] ∧ s.tasks = []) ∨
    (s.calls = [] ∧ ∃ a value, c = .setValue a value ∧ s.tasks = [value])

/-- The invariant of `when_all` and of `transfer_when_all`. -/
structure Inv (ts : NoSchedulerSender) (sch : S → Local P) (s : State P S V E) : Prop where
  tree : s.tree.Ok
  children : s.tree.signals.length = ts.children
  waiting : s.tree.sent = none → s.rcv = some () ∧ s.calls = [] ∧ s.tasks = []
  received : ∀ c, s.tree.sent = some c → Received sch s c
  last : ∀ a v, s.tree.sent = some (.setValue a v) → ∃ v', s.last = some (.setValue a v')
  panics : s.panics = []

/-- What the receiver at the end of a tree does when it is called. -/
structure Receives (R : SchedulerReceiver P S V E) (sch : S → Local P) : Prop where
  frame (s : State P S V E) (c : Call S V E) : s.rcv = some () →
    (R s c).tree = s.tree ∧ (R s c).last = s.last ∧ (R s c).panics = s.panics
  received (s : State P S V E) (c : Call S V E) : s.rcv = some () → s.calls = [] → s.tasks = [] →
    Received sch (R s c) c

theorem receives_whenAll : Receives (whenAllReceiver : SchedulerReceiver P (Local P) V E) id where
  frame s c hs := by cases c <;> simp [whenAllReceiver, State.takeRcv, State.signal, hs]
  received s c hs hcalls htasks := by
    cases c <;>
      simp [whenAllReceiver, State.takeRcv, State.signal, Received, Call.signal, hs, hcalls, htasks]

theorem receives_transfer (target : Scheduler P) :
    Receives (transferReceiver : SchedulerReceiver P Unit V E) fun _ => target.localScheduler where
  frame s c hs := by cases c <;> simp [transferReceiver, State.takeRcv, State.signal, hs]
  received s c hs hcalls htasks := by
    cases c <;>
      simp [transferReceiver, State.takeRcv, State.signal, Received, Call.signal, hs, hcalls,
        htasks]

/-- **A delivery keeps the invariant.** -/
theorem Inv.deliver {R : SchedulerReceiver P S V E} (hF : F.Lawful) (hR : Receives R sch) {i : ℕ}
    (h : Inv ts sch s) (hi : s.tree.signals[i]? = some none) (c : Call S V E) :
    Inv ts sch (s.deliver F R i c) := by
  obtain ⟨t', out, hdeliver, hok, hsignals, hsent, hsent', hsch⟩ := h.tree.deliver hF hi c
  obtain ⟨hrcv, hcalls, htasks⟩ := h.waiting hsent
  have hchildren : t'.signals.length = ts.children := by
    rw [hsignals, List.length_set, h.children]
  unfold State.deliver
  rw [hdeliver]
  cases out with
  | none =>
      exact {
        tree := hok
        children := hchildren
        waiting := fun _ => ⟨hrcv, hcalls, htasks⟩
        received := fun c hc => absurd (hsent'.symm.trans hc) (by simp)
        last := fun a v hc => absurd (hsent'.symm.trans hc) (by simp)
        panics := h.panics }
  | some out =>
      obtain ⟨htree, hlast, hpanics⟩ := hR.frame { s with tree := t', last := some c } out hrcv
      refine {
        tree := htree ▸ hok
        children := htree ▸ hchildren
        waiting := fun hnone => ?_
        received := fun c' hc => ?_
        last := fun a v hc => ?_
        panics := hpanics.trans h.panics }
      · rw [htree] at hnone
        exact absurd (hsent'.symm.trans hnone) (by simp)
      · rw [htree] at hc
        obtain rfl := Option.some.inj (hsent'.symm.trans hc)
        exact hR.received _ _ hrcv hcalls htasks
      · rw [htree] at hc
        obtain ⟨v', rfl⟩ := hsch a v (hsent'.symm.trans hc)
        exact ⟨v', hlast⟩

theorem Inv.fresh (ts : NoSchedulerSender) (sch : S → Local P) :
    Inv ts sch (fresh ts : State P S V E) where
  tree := connect_ok ts
  children := connect_signals ts
  waiting _ := ⟨rfl, rfl, rfl⟩
  received c hc := absurd ((connect_sent ts).symm.trans hc) (by simp)
  last a v hc := absurd ((connect_sent ts).symm.trans hc) (by simp)
  panics := rfl

/-- The task of a target passes the value on. -/
theorem Inv.runTask {target : Scheduler P} (h : Inv ts (fun _ : S => target.localScheduler) s)
    (hs : runTask target s = some s') : Inv ts (fun _ => target.localScheduler) s' := by
  unfold WhenAll.runTask at hs
  split at hs
  · next value tasks htasks =>
      obtain rfl := Option.some.inj hs
      have hsent : s.tree.sent ≠ none := fun hnone => by simp [(h.waiting hnone).2.2] at htasks
      refine {
        tree := h.tree
        children := h.children
        waiting := fun hnone => absurd hnone hsent
        received := fun c hc => ?_
        last := h.last
        panics := h.panics }
      rcases h.received c hc with ⟨-, hnil⟩ | ⟨hcalls, a, value', rfl, hone⟩
      · simp [hnil] at htasks
      · obtain ⟨rfl, rfl⟩ : value' = value ∧ [] = tasks := by simpa [hone] using htasks
        exact .inl ⟨by simp [State.signal, hcalls, Call.signal], rfl⟩
  · simp at hs

/-- `when_all` schedules nothing. -/
theorem deliver_tasks (s : State P (Local P) V E) (i : ℕ) (c : Call (Local P) V E) :
    (s.deliver .whenAll whenAllReceiver i c).tasks = s.tasks := by
  have hreceiver (s : State P (Local P) V E) (c : Call (Local P) V E) :
      (whenAllReceiver s c).tasks = s.tasks := by
    cases c <;> unfold whenAllReceiver State.takeRcv <;> dsimp only <;> split <;> rfl
  unfold State.deliver
  split
  · rfl
  · rfl
  · exact hreceiver _ _

theorem Inv.whenAll (ts : NoSchedulerSender) :
    (whenAll P V E ts).Inductive (fun _ _ => True) fun s => Inv ts id s ∧ s.tasks = [] where
  init := ⟨Inv.fresh ts id, rfl⟩
  step s l s' h _ hs := by
    cases l with
    | deliver i c =>
        simp only [WhenAll.whenAll, step] at hs
        split at hs
        · next hi =>
            obtain rfl := Option.some.inj hs
            exact ⟨h.1.deliver lawful_whenAll receives_whenAll hi c,
              (deliver_tasks s i c).trans h.2⟩
        · simp at hs
    | run => exact absurd hs (Option.some_ne_none s').symm

theorem Inv.transferWhenAll (target : Scheduler P) (ts : NoSchedulerSender) :
    (transferWhenAll V E target ts).Inductive (fun _ _ => True)
      (Inv ts fun _ => target.localScheduler) where
  init := Inv.fresh ts _
  step s l s' h _ hs := by
    cases l with
    | deliver i c =>
        simp only [WhenAll.transferWhenAll, step] at hs
        split at hs
        · next hi =>
            obtain rfl := Option.some.inj hs
            exact h.deliver lawful_transferWhenAll (receives_transfer target) hi c
        · simp at hs
    | run => exact h.runTask hs

/-- **The call that the calls `ds` of all children lead to**, the latest of which is `last`. -/
structure Outcome (ds : List (Call S V E)) (last : Option (Call S V E)) (c : Call S V E) :
    Prop where
  error : (∃ e, .setError e ∈ ds) → ∃ e, c = .setError e ∧ .setError e ∈ ds
  done : (∀ e, .setError e ∉ ds) → .setDone ∈ ds → c = .setDone
  value : (∀ d ∈ ds, ∃ a v, d = .setValue a v) →
    ∃ a v, last = some (.setValue a v) ∧ c = .setValue a (ds.flatMap Call.values)

theorem Combines.outcome {ds : List (Call S V E)} {last : Option (Call S V E)} (h : Combines ds c)
    (hlast : ∀ a v, c = .setValue a v → ∃ v', last = some (.setValue a v')) :
    Outcome ds last c where
  error := by
    rintro ⟨e, he⟩
    cases c with
    | setError e' => exact ⟨e', rfl, h⟩
    | setDone => exact absurd he (h.2 e)
    | setValue a v => simpa using h.1 _ he
  done hno hdone := by
    cases c with
    | setError e => exact absurd h (hno e)
    | setDone => rfl
    | setValue a v => simpa using h.1 _ hdone
  value hall := by
    cases c with
    | setError e => simpa using hall _ h
    | setDone => simpa using hall _ h.1
    | setValue a v =>
        obtain ⟨v', hv'⟩ := hlast a v rfl
        exact ⟨a, v', hv', by rw [h.2]⟩

/-- **How a combined sender stands**, its values being delivered with `sch`. -/
structure Completes (ts : NoSchedulerSender) (sch : S → Local P) (s : State P S V E) : Prop where
  noPanic : s.panics = []
  children : s.tree.signals.length = ts.children
  silent : none ∈ s.tree.signals → s.calls = [] ∧ s.tasks = []
  outcome : ∀ ds, s.tree.signals = ds.map some → ∃ c, Outcome ds s.last c ∧ Received sch s c

theorem Inv.completes (h : Inv ts sch s) : Completes ts sch s where
  noPanic := h.panics
  children := h.children
  silent hnone := (h.waiting (h.tree.sent_eq_none.mpr hnone)).2
  outcome ds hds := by
    cases hc : s.tree.sent with
    | none => simpa [hds] using h.tree.sent_eq_none.mp hc
    | some c =>
        obtain ⟨ds', hds', hcombines⟩ := h.tree.combines hc
        obtain rfl : ds' = ds := by
          have hmap := hds'.symm.trans hds
          exact List.map_injective_iff.mpr (fun _ _ => Option.some.inj) hmap
        exact ⟨c, hcombines.outcome fun a v hv => h.last a v (hv ▸ hc), h.received c hc⟩

/-- Three children: the last one delivers first, and the middle one last. -/
def threeValues : List (Label Unit ℕ Unit) :=
  [.deliver 2 (.setValue () [3]), .deliver 0 (.setValue () [1]), .deliver 1 (.setValue () [2]),
    .run]

end SendersReceivers.WhenAll
