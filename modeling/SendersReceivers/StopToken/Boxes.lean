import SendersReceivers.StopToken.Machine

/-!
# StopToken/Boxes — the log against the vectors and the boxes

The contract of a stop source is one of its log: each event must find, among those before it, what
entitles it to happen (`Event.Ok`).  It holds in every run, whatever the callbacks do, and also when
some of them panic.  The engine is that a vector of callbacks only grows, so that a slot belongs to
one callback for good.
-/

namespace SendersReceivers.StopToken

open Machinery

/-! ## The log -/

/-- What must have happened before an event, and what must not. -/
def Event.Ok (past : List Event) : Event → Prop
  | .stopRequested _ => True
  | .stopReturned q =>
      ∀ id, .registered q id ∈ past → .invoked q id ∈ past ∨ .dropped q id ∈ past
  | .registered _ id => ∀ q, .registered q id ∉ past ∧ .refused q id ∉ past
  | .refused q id =>
      .stopRequested q ∈ past ∧ ∀ q, .registered q id ∉ past ∧ .refused q id ∉ past
  | .invoked q id => .registered q id ∈ past ∧ .invoked q id ∉ past ∧ .dropped q id ∉ past
  | .detached q id | .dropped q id => .registered q id ∈ past
  | .dropReturned q id => .dropped q id ∈ past

/-- Every event of the log may happen where it does. -/
inductive LogOk : List Event → Prop
  | nil : LogOk []
  | snoc {log : List Event} {e : Event} : LogOk log → e.Ok log → LogOk (log ++ [e])

/-- The contract, read at any event. -/
theorem LogOk.at {log past rest : List Event} {e : Event} (h : LogOk log)
    (hlog : log = past ++ e :: rest) : e.Ok past := by
  induction h generalizing rest with
  | nil => simp at hlog
  | snoc _ he ih =>
      obtain rfl | ⟨rest, b, rfl⟩ := List.eq_nil_or_concat' rest
      · obtain ⟨rfl, rfl⟩ := List.append_singleton_inj.mp hlog
        exact he
      · rw [← List.cons_append, ← List.append_assoc] at hlog
        exact ih (List.append_singleton_inj.mp hlog).1

/-- **At most once.** -/
theorem LogOk.count_le {log : List Event} (h : LogOk log) (q id : ℕ) :
    log.count (.invoked q id) ≤ 1 := by
  induction h with
  | nil => simp
  | @snoc log e _ he ih =>
      rw [List.count_append, List.count_singleton]
      by_cases heq : e = .invoked q id
      · subst heq
        rw [List.count_eq_zero_of_not_mem he.2.1]
        simp
      · simpa [heq] using ih

/-- What was run or dropped had been registered. -/
theorem LogOk.registered {log : List Event} (h : LogOk log) {q id : ℕ}
    (hmem : .invoked q id ∈ log ∨ .dropped q id ∈ log) : .registered q id ∈ log := by
  obtain hmem | hmem := hmem <;> obtain ⟨past, rest, hlog⟩ := List.append_of_mem hmem
  · exact hlog ▸ List.mem_append_left _ (h.at hlog).1
  · exact hlog ▸ List.mem_append_left _ (h.at hlog)

/-- A function is kept, or handed back, but not both. -/
theorem LogOk.not_both {log : List Event} (h : LogOk log) {q q' id : ℕ}
    (hreg : .registered q id ∈ log) : .refused q' id ∉ log := by
  induction h with
  | nil => cases hreg
  | @snoc log e _ he ih =>
      intro href
      obtain hreg | hreg := List.mem_append.mp hreg <;>
        obtain href | href := List.mem_append.mp href
      · exact ih hreg href
      · rw [← List.mem_singleton.mp href] at he
        exact (he.2 q).1 hreg
      · rw [← List.mem_singleton.mp hreg] at he
        exact (he q').2 href
      · cases (List.mem_singleton.mp hreg).trans (List.mem_singleton.mp href).symm

/-! ## The invariant -/

/-- What an instruction relies on: the loop has left nothing behind in the slots before, and the
slot to clear is that of the callback. -/
def Instr.Ok (s : State) : Instr → Prop
  | .invoke q j =>
      j ≤ (s.sources q).callbacks.length ∧
        ∀ id ∈ (s.sources q).callbacks.take j, s.functions[id]? = some none
  | .lockClear q callback_slot id | .clear q callback_slot id =>
      (s.sources q).callbacks[callback_slot]? = some id
  | .cleared q id => .dropped q id ∈ s.log
  | _ => True

/-- Callback `id` is still in its box. -/
def State.Boxed (s : State) (id : ℕ) : Prop := ∃ f, s.functions[id]? = some (some f)

/-- The log against the vectors of callbacks and the boxes. -/
structure Inv (s : State) : Prop where
  log : LogOk s.log
  below : ∀ q id, .registered q id ∈ s.log ∨ .refused q id ∈ s.log → id < s.functions.length
  listed : ∀ q id, id ∈ (s.sources q).callbacks ↔ .registered q id ∈ s.log
  one : ∀ q q' id, .registered q id ∈ s.log → .registered q' id ∈ s.log → q = q'
  boxed : ∀ q id, .registered q id ∈ s.log → s.Boxed id →
    .invoked q id ∉ s.log ∧ .dropped q id ∉ s.log
  kept : ∀ q id, .registered q id ∈ s.log →
    s.Boxed id ∨ .invoked q id ∈ s.log ∨ .dropped q id ∈ s.log
  requested : ∀ q, (s.sources q).stopped = true → .stopRequested q ∈ s.log
  code : ∀ x ∈ s.threads.flatten, x.Ok s
  handles : ∀ h ∈ s.handles, ∀ q, h.2.state = some q →
    (s.sources q).callbacks[h.2.callback_slot]? = some h.2.id
  panics : ∀ p ∈ s.panics, ∃ q, p = .poisoned q

/-- The vectors have grown, no empty box has been filled, and what has happened stays so. -/
structure Extends (s t : State) : Prop where
  callbacks : ∀ q, (s.sources q).callbacks <+: (t.sources q).callbacks
  emptied : ∀ id : ℕ, s.functions[id]? = some none → t.functions[id]? = some none
  log : s.log ⊆ t.log

section

variable {s t : State} {i j q id : ℕ} {k c : List Instr} {x : Instr}

theorem Extends.slot (h : Extends s t) {n : ℕ} (hslot : (s.sources q).callbacks[n]? = some id) :
    (t.sources q).callbacks[n]? = some id := by
  obtain ⟨rest, hrest⟩ := h.callbacks q
  rw [← hrest, List.getElem?_append_left (List.getElem?_eq_some_iff.mp hslot).1, hslot]

theorem Instr.Ok.mono (hx : x.Ok s) (h : Extends s t) : x.Ok t := by
  cases x with
  | invoke q j =>
      obtain ⟨rest, hrest⟩ := h.callbacks q
      refine ⟨hx.1.trans (h.callbacks q).length_le, fun id hid => h.emptied id (hx.2 id ?_)⟩
      rwa [← hrest, List.take_append_of_le_length hx.1] at hid
  | lockClear q n id => exact h.slot hx
  | clear q n id => exact h.slot hx
  | cleared q id => exact h.log hx
  | _ => trivial

/-- What `goto` does to the instructions there are. -/
theorem mem_goto (hi : s.threads[i]? = some (x :: k)) {y : Instr}
    (hy : y ∈ (s.goto i c k).threads.flatten) : y ∈ c ∨ y ∈ s.threads.flatten := by
  rw [← List.append_nil (s.goto i c k).threads] at hy
  rcases Machinery.mem_goto hi hy with hc | hnil | hold
  · exact .inl hc
  · cases hnil
  · exact .inr hold

/-- What a turn leaves of the instructions there were. -/
theorem mem_goto_of_mem (hi : s.threads[i]? = some (x :: k)) (c : List Instr) {y : Instr}
    (hy : y ∈ s.threads.flatten) (hne : y ≠ x) : y ∈ (s.goto i c k).threads.flatten := by
  obtain ⟨d, hd, hyd⟩ := List.mem_flatten.mp hy
  obtain ⟨n, hn⟩ := List.mem_iff_getElem?.mp hd
  refine List.mem_flatten.mpr ?_
  by_cases hin : i = n
  · subst hin
    obtain rfl := Option.some.inj (hi.symm.trans hn)
    refine ⟨c ++ k, List.mem_set (List.getElem?_eq_some_iff.mp hi).1 _, ?_⟩
    exact List.mem_append_right _ ((List.mem_cons.mp hyd).resolve_left hne)
  · refine ⟨d, List.mem_of_getElem? (i := n) ?_, hyd⟩
    rw [State.goto, List.getElem?_set_ne hin, hn]

theorem mem_goto_code (hi : s.threads[i]? = some (x :: k)) {y : Instr} (hy : y ∈ c) :
    y ∈ (s.goto i c k).threads.flatten :=
  List.mem_flatten.mpr ⟨c ++ k, List.mem_set (List.getElem?_eq_some_iff.mp hi).1 _,
    List.mem_append_left _ hy⟩

theorem mem_unwind {y : Instr} (hy : y ∈ (s.unwind i k).threads.flatten) :
    y ∈ s.threads.flatten := by
  obtain ⟨c, hc, hyc⟩ := List.mem_flatten.mp hy
  obtain hc | rfl := List.mem_or_eq_of_mem_set hc
  · exact List.mem_flatten.mpr ⟨c, hc, hyc⟩
  · cases hyc

theorem mem_flatten_head (hi : s.threads[i]? = some (x :: k)) : x ∈ s.threads.flatten :=
  List.mem_flatten.mpr ⟨x :: k, List.mem_of_getElem? hi, .head _⟩

/-! ## Steps that leave log and boxes alone -/

theorem Inv.frame (h : Inv s)
    (hcallbacks : ∀ q, (t.sources q).callbacks = (s.sources q).callbacks)
    (hfunctions : t.functions = s.functions) (hlog : t.log = s.log)
    (hstopped : ∀ q, (t.sources q).stopped = true →
      (s.sources q).stopped = true ∨ .stopRequested q ∈ s.log)
    (hhandles : ∀ hd ∈ t.handles, hd ∈ s.handles ∨ hd.2.state = none)
    (hcode : ∀ y ∈ t.threads.flatten, y.Ok s ∨ y ∈ s.threads.flatten)
    (hpanics : ∀ p ∈ t.panics, p ∈ s.panics ∨ ∃ q, p = .poisoned q) : Inv t where
  log := hlog ▸ h.log
  below q id := by
    rw [hlog, hfunctions]
    exact h.below q id
  listed q id := by
    rw [hcallbacks, hlog]
    exact h.listed q id
  one q q' id := by
    rw [hlog]
    exact h.one q q' id
  boxed q id := by
    rw [hlog, State.Boxed, hfunctions]
    exact h.boxed q id
  kept q id := by
    rw [hlog, State.Boxed, hfunctions]
    exact h.kept q id
  requested q hq := by
    rw [hlog]
    exact (hstopped q hq).elim (h.requested q) id
  code y hy := by
    have hext : Extends s t :=
      ⟨fun q => hcallbacks q ▸ List.prefix_rfl, fun id hid => hfunctions ▸ hid,
        fun e he => hlog ▸ he⟩
    exact ((hcode y hy).elim id (h.code y)).mono hext
  handles hd hmem q hq := by
    rw [hcallbacks]
    obtain hold | hnone := hhandles hd hmem
    · exact h.handles hd hold q hq
    · rw [hnone] at hq
      cases hq
  panics p hp := (hpanics p hp).elim (h.panics p) id

theorem Inv.goto (h : Inv s) (hi : s.threads[i]? = some (x :: k)) (hc : ∀ y ∈ c, y.Ok s) :
    Inv (s.goto i c k) :=
  h.frame (fun _ => rfl) rfl rfl (fun _ => .inl) (fun _ => .inl)
    (fun y hy => (mem_goto hi hy).imp_left (hc y)) fun _ => .inl

theorem Inv.unwind (h : Inv s) (i : ℕ) (k : List Instr) {ps : List Panic}
    (hps : ∀ p ∈ ps, ∃ q, p = .poisoned q) :
    Inv { s.unwind i k with panics := s.panics ++ ps } := by
  refine h.frame (fun q => ?_) rfl rfl (fun q hq => .inl ?_) (fun _ => .inl)
    (fun y hy => .inr (mem_unwind (i := i) (k := k) hy)) fun p hp => ?_
  · show ((s.unwind i k).sources q).callbacks = _
    rw [unwind_source]
  · have : ((s.unwind i k).sources q).stopped = true := hq
    rwa [unwind_source] at this
  · exact (List.mem_append.mp hp).imp_right (hps p)

theorem Inv.lock (h : Inv s) (hi : s.threads[i]? = some (x :: k))
    {inside : Instr} (hs : s.lock i k q inside = some t) (hinside : inside.Ok s) : Inv t := by
  obtain ⟨-, ⟨-, rfl⟩ | ⟨-, rfl⟩⟩ := lock_cases hs
  · exact h.unwind i k fun p hp => ⟨q, List.mem_singleton.mp hp⟩
  · exact h.goto hi fun y hy => List.mem_singleton.mp hy ▸ hinside

/-! ## Steps that are recorded -/

@[simp] theorem mem_record {e e' : Event} :
    e' ∈ (s.record e).log ↔ e' ∈ s.log ∨ e' = e := by
  simp [State.record]

theorem subset_record (s : State) (e : Event) : s.log ⊆ (s.record e).log :=
  List.subset_append_left _ _

/-- An event that is about no callback in particular. -/
theorem Inv.record (h : Inv s) {e : Event} (he : e.Ok s.log)
    (hreg : ∀ q id, .registered q id ≠ e ∧ .refused q id ≠ e)
    (hrun : ∀ q id, .invoked q id ≠ e ∧ .dropped q id ≠ e) : Inv (s.record e) where
  log := h.log.snoc he
  below q id hid := by
    simp only [mem_record, hreg q id, or_false] at hid
    exact h.below q id hid
  listed q id := by
    simp only [mem_record, hreg q id, or_false]
    exact h.listed q id
  one q q' id := by
    simp only [mem_record, hreg q id, hreg q' id, or_false]
    exact h.one q q' id
  boxed q id := by
    simp only [mem_record, hreg q id, hrun q id, or_false]
    exact h.boxed q id
  kept q id := by
    simp only [mem_record, hreg q id, hrun q id, or_false]
    exact h.kept q id
  requested q hq := mem_record.mpr (.inl (h.requested q hq))
  code x hx := (h.code x hx).mono
    ⟨fun _ => List.prefix_rfl, fun _ hid => hid, subset_record s e⟩
  handles := h.handles
  panics := h.panics

/-- A flag is set. -/
theorem Inv.store (h : Inv s) (q : ℕ) : Inv (s.store q) := by
  have hrecord : Inv (s.record (.stopRequested q)) :=
    h.record trivial (fun _ _ => by simp) fun _ _ => by simp
  refine hrecord.frame (fun q' => ?_) rfl rfl (fun q' hq' => ?_) (fun _ => .inl) (fun _ => .inr)
    fun _ => .inl
  · rw [store_source]
    rfl
  · rw [store_source, Bool.or_eq_true, decide_eq_true_eq] at hq'
    obtain hq' | rfl := hq'
    · exact .inl hq'
    · exact .inr (mem_record.mpr (.inr rfl))

/-- A box is emptied, because its callback is run or dropped. -/
theorem Inv.take (h : Inv s) (hreg : .registered q id ∈ s.log) {e : Event}
    (he : (e = .invoked q id ∧ s.Boxed id) ∨ e = .dropped q id) :
    Inv { s.record e with functions := s.functions.set id none } := by
  have hlt : id < s.functions.length := h.below q id (.inl hreg)
  have hok : e.Ok s.log := by
    obtain ⟨rfl, hboxed⟩ | rfl := he
    · exact ⟨hreg, h.boxed q id hreg hboxed⟩
    · exact hreg
  have hne : ∀ q' id', .registered q' id' ≠ e ∧ .refused q' id' ≠ e ∧
      .stopRequested q' ≠ e := fun q' id' => by
    obtain ⟨rfl, -⟩ | rfl := he <;> simp
  have hother : ∀ q' id', id' ≠ id → .invoked q' id' ≠ e ∧ .dropped q' id' ≠ e :=
    fun q' id' hid => by
      obtain ⟨rfl, -⟩ | rfl := he <;> simp [hid]
  have hset : ∀ id' ≠ id, (s.functions.set id none)[id']? = s.functions[id']? := fun id' hid => by
    rw [List.getElem?_set_ne (Ne.symm hid)]
  have hempty : (s.functions.set id none)[id]? = some none := by
    rw [List.getElem?_set_self hlt]
  have hext : Extends s { s.record e with functions := s.functions.set id none } :=
    { callbacks := fun q => List.prefix_rfl
      emptied := fun id' hid' => by
        by_cases hid : id' = id
        · subst hid
          exact hempty
        · exact (hset id' hid).trans hid'
      log := subset_record s e }
  refine
    { log := h.log.snoc hok
      below := fun q' id' hid' => ?_
      listed := fun q' id' => ?_
      one := fun q' q'' id' => ?_
      boxed := fun q' id' => ?_
      kept := fun q' id' => ?_
      requested := fun q' hq' => mem_record.mpr (.inl (h.requested q' hq'))
      code := fun x hx => (h.code x hx).mono hext
      handles := h.handles
      panics := h.panics }
  · simp only [mem_record, hne q' id', or_false] at hid'
    simpa using h.below q' id' hid'
  · simp only [mem_record, hne q' id', or_false]
    exact h.listed q' id'
  · simp only [mem_record, hne q' id', hne q'' id', or_false]
    exact h.one q' q'' id'
  · simp only [mem_record, hne q' id', or_false]
    intro hreg' hboxed
    by_cases hid : id' = id
    · obtain ⟨f, hf⟩ := hboxed
      rw [hid, hempty] at hf
      cases hf
    · simp only [hother q' id' hid, or_false]
      simp only [State.Boxed, hset id' hid] at hboxed
      exact h.boxed q' id' hreg' hboxed
  · simp only [mem_record, hne q' id', or_false]
    intro hreg'
    by_cases hid : id' = id
    · subst hid
      obtain rfl := h.one q' q id' hreg' hreg
      obtain ⟨rfl, -⟩ | rfl := he
      · exact .inr (.inl (.inr rfl))
      · exact .inr (.inr (.inr rfl))
    · simp only [hother q' id' hid, or_false, State.Boxed, hset id' hid]
      exact h.kept q' id' hreg'

/-- What is in a slot was registered, and has a number. -/
theorem Inv.slot (h : Inv s) {n : ℕ} (hslot : (s.sources q).callbacks[n]? = some id) :
    .registered q id ∈ s.log ∧ id < s.functions.length := by
  have hreg := (h.listed q id).mp (List.mem_of_getElem? hslot)
  exact ⟨hreg, h.below q id (.inl hreg)⟩

/-- The next number has not been given to a function yet. -/
theorem Inv.new (h : Inv s) (q : ℕ) : .registered q s.functions.length ∉ s.log ∧
    .refused q s.functions.length ∉ s.log :=
  ⟨fun hmem => absurd (h.below q _ (.inl hmem)) (lt_irrefl _),
    fun hmem => absurd (h.below q _ (.inr hmem)) (lt_irrefl _)⟩

/-- A function gets a number, and a box or not. -/
theorem Extends.snoc (h : ∀ q, (s.sources q).callbacks <+: (t.sources q).callbacks)
    {f : Option Callback} (hfunctions : t.functions = s.functions ++ [f]) (hlog : s.log ⊆ t.log) :
    Extends s t where
  callbacks := h
  emptied id hid := by
    rw [hfunctions, List.getElem?_append_left (List.getElem?_eq_some_iff.mp hid).1, hid]
  log := hlog

theorem getElem?_concat_none {boxes : List (Option Callback)} {f : Callback} :
    (boxes ++ [none])[id]? = some (some f) ↔ boxes[id]? = some (some f) := by
  rw [List.getElem?_append]
  split
  next => rfl
  next hge =>
    rw [List.getElem?_eq_none (Nat.not_lt.mp hge), List.getElem?_singleton]
    split <;> simp

/-- The function of a refused registration is nowhere. -/
theorem Inv.refuse (h : Inv s) (hq : (s.sources q).stopped = true) :
    Inv { s.record (.refused q s.functions.length) with functions := s.functions ++ [none] } := by
  have hext : Extends s
      { s.record (.refused q s.functions.length) with functions := s.functions ++ [none] } :=
    .snoc (fun _ => List.prefix_rfl) rfl (subset_record s _)
  have hboxed : ∀ id, State.Boxed { s.record (.refused q s.functions.length) with
      functions := s.functions ++ [none] } id ↔ s.Boxed id := fun id =>
    exists_congr fun f => getElem?_concat_none
  refine
    { log := h.log.snoc ⟨h.requested q hq, h.new⟩
      below := fun q' id' hid' => ?_
      listed := fun q' id' => ?_
      one := fun q' q'' id' => ?_
      boxed := fun q' id' => ?_
      kept := fun q' id' => ?_
      requested := fun q' hq' => mem_record.mpr (.inl (h.requested q' hq'))
      code := fun x hx => (h.code x hx).mono hext
      handles := h.handles
      panics := h.panics }
  · simp only [mem_record, reduceCtorEq, or_false, Event.refused.injEq] at hid'
    simp only [List.length_append, List.length_singleton]
    obtain hreg | hold | ⟨-, rfl⟩ := hid'
    · exact (h.below q' id' (.inl hreg)).trans (Nat.lt_succ_self _)
    · exact (h.below q' id' (.inr hold)).trans (Nat.lt_succ_self _)
    · exact Nat.lt_succ_self _
  · simp only [mem_record, reduceCtorEq, or_false]
    exact h.listed q' id'
  · simp only [mem_record, reduceCtorEq, or_false]
    exact h.one q' q'' id'
  · simp only [mem_record, reduceCtorEq, or_false, hboxed]
    exact h.boxed q' id'
  · simp only [mem_record, reduceCtorEq, or_false, hboxed]
    exact h.kept q' id'

/-- **A registration**: the slot is the next one, and the callback a new one. -/
theorem Inv.register (h : Inv s) (hi : s.threads[i]? = some (x :: k)) (q : ℕ) (f : Callback) :
    Inv (s.register i k q f) := by
  have hcallbacks : ∀ q', ((s.register i k q f).sources q').callbacks =
      (s.sources q').callbacks ++ if q' = q then [s.functions.length] else [] := fun q' => by
    rw [register_source]
  have hlog : ∀ e, e ∈ (s.register i k q f).log ↔
      e ∈ s.log ∨ e = .registered q s.functions.length := fun e => by
    simp [State.register, State.record, State.setSource, State.goto]
  have hext : Extends s (s.register i k q f) :=
    .snoc (fun q' => hcallbacks q' ▸ List.prefix_append _ _) rfl fun e he => (hlog e).mpr (.inl he)
  have hlt : ∀ q' id, .registered q' id ∈ s.log → id < s.functions.length := fun q' id hid =>
    h.below q' id (.inl hid)
  have hold : ∀ id < s.functions.length,
      State.Boxed (s.register i k q f) id ↔ s.Boxed id := fun id hid => by
    simp only [State.Boxed, State.register, List.getElem?_append_left hid]
  refine
    { log := h.log.snoc h.new
      below := fun q' id hid => ?_
      listed := fun q' id => ?_
      one := fun q' q'' id hq' hq'' => ?_
      boxed := fun q' id hreg hboxed => ?_
      kept := fun q' id hreg => ?_
      requested := fun q' hq' => (hlog _).mpr (.inl (h.requested q' ?_))
      code := fun y hy =>
        (h.code y ((mem_goto hi hy).resolve_left List.not_mem_nil)).mono hext
      handles := fun hd hmem q' hq' => hext.slot (h.handles hd hmem q' hq')
      panics := h.panics }
  · simp only [hlog, reduceCtorEq, or_false, Event.registered.injEq] at hid
    show id < (s.functions ++ [some f]).length
    rw [List.length_append, List.length_singleton]
    obtain (hreg | ⟨-, rfl⟩) | href := hid
    · exact (hlt q' id hreg).trans (Nat.lt_succ_self _)
    · exact Nat.lt_succ_self _
    · exact (h.below q' id (.inr href)).trans (Nat.lt_succ_self _)
  · rw [hcallbacks, List.mem_append, h.listed, hlog, Event.registered.injEq]
    by_cases hq : q' = q <;> simp [hq]
  · simp only [hlog, Event.registered.injEq] at hq' hq''
    obtain hq' | ⟨rfl, rfl⟩ := hq'
    · obtain hq'' | ⟨rfl, rfl⟩ := hq''
      · exact h.one q' q'' id hq' hq''
      · exact absurd hq' (h.new q').1
    · obtain hq'' | ⟨rfl, -⟩ := hq''
      · exact absurd hq'' (h.new q'').1
      · rfl
  · simp only [hlog, reduceCtorEq, or_false, Event.registered.injEq] at hreg ⊢
    obtain hreg | ⟨rfl, rfl⟩ := hreg
    · exact h.boxed q' id hreg ((hold id (hlt q' id hreg)).mp hboxed)
    · exact ⟨fun hmem => (h.new q').1 (h.log.registered (.inl hmem)),
        fun hmem => (h.new q').1 (h.log.registered (.inr hmem))⟩
  · simp only [hlog, reduceCtorEq, or_false, Event.registered.injEq] at hreg ⊢
    obtain hreg | ⟨rfl, rfl⟩ := hreg
    · exact (h.kept q' id hreg).imp_left (hold id (hlt q' id hreg)).mpr
    · exact .inl ⟨f, by simp [State.register]⟩
  · rwa [register_source] at hq'

/-- …and the handle of it is kept, or detached. -/
theorem Inv.push (h : Inv s) (hi : s.threads[i]? = some (x :: k)) (q : ℕ) (caller : Caller)
    (f : Callback) : Inv (s.push i k q caller f) := by
  have hreg := h.register hi q f
  have hmem : .registered q s.functions.length ∈ (s.register i k q f).log :=
    mem_record.mpr (.inr rfl)
  unfold State.push
  split
  · exact hreg.record hmem (fun _ _ => by simp) fun _ _ => by simp
  · refine { hreg with handles := fun hd hmem q' hq' => ?_ }
    obtain hmem | hmem := List.mem_append.mp hmem
    · exact hreg.handles hd hmem q' hq'
    · obtain rfl := List.mem_singleton.mp hmem
      obtain rfl := Option.some.inj hq'
      simp [register_source]

/-! ## Every step -/

/-- One slot of the loop, or its end. -/
theorem Inv.invoke (h : Inv s) (hi : s.threads[i]? = some (.invoke q j :: k)) :
    Inv (s.invoke i k q j) := by
  obtain ⟨hj, hswept⟩ := h.code _ (mem_flatten_head hi)
  cases hslot : (s.sources q).callbacks[j]? with
  | none =>
      simp only [State.invoke, hslot]
      refine (h.goto (c := []) hi fun y hy => nomatch hy).record (fun id hid => ?_) (by simp)
        (by simp)
      -- all slots are behind, and their boxes are empty
      have hmem := (h.listed q id).mpr hid
      rw [← List.take_of_length_le (List.getElem?_eq_none_iff.mp hslot)] at hmem
      refine (h.kept q id hid).resolve_left fun hboxed => ?_
      obtain ⟨f, hf⟩ := hboxed
      rw [hswept id hmem] at hf
      cases hf
  | some id =>
      obtain ⟨hreg, hlt⟩ := h.slot hslot
      have hnext : ∀ t : State, t.sources = s.sources →
          (∀ id' ∈ (s.sources q).callbacks.take j, t.functions[id']? = some none) →
          t.functions[id]? = some none → (Instr.invoke q (j + 1)).Ok t := by
        intro t hsources hbefore hthis
        refine ⟨hsources ▸ (List.getElem?_eq_some_iff.mp hslot).1, fun id' hid' => ?_⟩
        rw [hsources, List.take_add_one, hslot] at hid'
        obtain hid' | hid' := List.mem_append.mp hid'
        · exact hbefore id' hid'
        · exact List.mem_singleton.mp hid' ▸ hthis
      simp only [State.invoke, hslot]
      split
      next f hf =>
        have htake := h.take hreg (.inl ⟨rfl, f, hf⟩)
        refine htake.goto (x := .invoke q j) hi fun y hy => ?_
        obtain hy | hy := List.mem_append.mp hy
        · obtain ⟨o, -, rfl⟩ := List.mem_map.mp hy
          trivial
        · rw [List.mem_singleton.mp hy]
          refine hnext _ rfl (fun id' hid' => ?_) (List.getElem?_set_self hlt)
          by_cases hid : id' = id
          · subst hid
            exact List.getElem?_set_self hlt
          · exact (List.getElem?_set_ne (Ne.symm hid)).trans (hswept id' hid')
      next hf =>
        refine h.goto hi fun y hy => ?_
        rw [List.mem_singleton.mp hy]
        refine hnext s rfl hswept ?_
        cases hbox : s.functions[id]? with
        | none => exact absurd (List.getElem?_eq_none_iff.mp hbox) (Nat.not_le.mpr hlt)
        | some f =>
            cases f with
            | none => rfl
            | some f => exact absurd hbox (hf f)

theorem Inv.clear (h : Inv s) {n : ℕ} (hi : s.threads[i]? = some (.clear q n id :: k)) :
    Inv (s.clear i k q n id) := by
  have hslot : (s.sources q).callbacks[n]? = some id := h.code _ (mem_flatten_head hi)
  simp only [State.clear, hslot]
  have htake := h.take (h.slot hslot).1 (.inr rfl)
  refine htake.goto (x := .clear q n id) (k := k)
    (c := StopToken.code (s.boxDrops id) ++ [.cleared q id]) hi fun y hy => ?_
  obtain hy | hy := List.mem_append.mp hy
  · obtain ⟨o, -, rfl⟩ := List.mem_map.mp hy
    trivial
  · rw [List.mem_singleton.mp hy]
    exact mem_record.mpr (.inr rfl)

/-- The handle that is found is one of the source. -/
theorem findHandle_state {name : ℕ} {hd : ℕ × StoppableCallback}
    (hfind : s.handles[s.findHandle q name]? = some hd) : hd.2.state = some q := by
  have := List.findIdx_of_getElem?_eq_some hfind
  simp only [decide_eq_true_eq] at this
  exact this.2

theorem Inv.drop (h : Inv s) (hi : s.threads[i]? = some (x :: k)) (q name : ℕ) :
    Inv (s.drop i k q name) := by
  simp only [State.drop]
  split
  · exact h.goto hi fun y hy => nomatch hy
  next name' cb hfind =>
    have hslot := h.handles _ (List.mem_of_getElem? hfind) q (findHandle_state hfind)
    refine h.frame (fun _ => rfl) rfl rfl (fun _ => .inl)
      (fun hd hmem => .inl (List.mem_of_mem_eraseIdx hmem)) (fun y hy => ?_) fun _ => .inl
    refine (mem_goto hi hy).imp_left fun hy => ?_
    rw [List.mem_singleton.mp hy]
    exact hslot

theorem Inv.detach (h : Inv s) (hi : s.threads[i]? = some (x :: k)) (q name : ℕ) :
    Inv (s.detach i k q name) := by
  simp only [State.detach]
  split
  · exact h.goto hi fun y hy => nomatch hy
  next name' cb hfind =>
    have hreg := (h.slot (h.handles _ (List.mem_of_getElem? hfind) q (findHandle_state hfind))).1
    have hrecord : Inv (s.record (.detached q cb.id)) :=
      h.record hreg (fun _ _ => by simp) fun _ _ => by simp
    refine hrecord.frame (fun _ => rfl) rfl rfl (fun _ => .inl) (fun hd hmem => ?_)
      (fun y hy => (mem_goto (s := s) hi hy).imp_left fun hy => nomatch hy) fun _ => .inl
    obtain ⟨n, hn⟩ := List.mem_iff_getElem?.mp hmem
    simp only [List.getElem?_modify] at hn
    obtain ⟨hd', hhd', heq⟩ := Option.map_eq_some_iff.mp hn
    split at heq
    · exact .inr (heq ▸ rfl)
    · exact .inl (heq ▸ List.mem_of_getElem? hhd')

theorem Inv.exec (h : Inv s) (hi : s.threads[i]? = some (x :: k))
    (hs : s.exec i k x = some t) : Inv t := by
  cases x with
  | op o =>
      cases o with
      | requestStop q =>
          obtain rfl := Option.some.inj hs
          exact (h.store q).goto (x := .op (.requestStop q)) hi fun y hy =>
            List.mem_singleton.mp hy ▸ trivial
      | callback q caller body drops => exact h.lock hi hs trivial
      | drop q name => exact Option.some.inj hs ▸ h.drop hi q name
      | detach q name => exact Option.some.inj hs ▸ h.detach hi q name
  | lockStop q =>
      refine h.lock hi hs ⟨Nat.zero_le _, fun id hid => ?_⟩
      rw [List.take_zero] at hid
      cases hid
  | invoke q j => exact Option.some.inj hs ▸ h.invoke hi
  | load q caller f =>
      obtain rfl := Option.some.inj hs
      split
      next hstopped =>
        refine (h.refuse hstopped).goto (x := .load q caller f) hi fun y hy => ?_
        obtain ⟨o, -, rfl⟩ := List.mem_map.mp hy
        trivial
      next => exact h.goto hi fun y hy => List.mem_singleton.mp hy ▸ trivial
  | push q caller f => exact Option.some.inj hs ▸ h.push hi q caller f
  | lockClear q n id =>
      have hslot := h.code _ (mem_flatten_head hi)
      exact h.lock hi hs hslot
  | clear q n id => exact Option.some.inj hs ▸ h.clear hi
  | cleared q id =>
      obtain rfl := Option.some.inj hs
      have hdropped : .dropped q id ∈ s.log := h.code _ (mem_flatten_head hi)
      have hrecord : Inv (s.record (.dropReturned q id)) :=
        h.record hdropped (fun _ _ => by simp) fun _ _ => by simp
      exact hrecord.goto (x := .cleared q id) (c := []) hi fun y hy => nomatch hy

theorem Inv.step (h : Inv s) {l : Label} (hs : StopToken.step s l = some t) : Inv t := by
  obtain ⟨o, -, rfl⟩ | ⟨i, x, k, -, hi, hs⟩ | ⟨i, x, k, -, -, -, rfl⟩ := step_cases hs
  · refine h.frame (fun _ => rfl) rfl rfl (fun _ => .inl) (fun _ => .inl) (fun y hy => ?_)
      fun _ => .inl
    rw [List.flatten_append, List.mem_append] at hy
    refine hy.symm.imp_left fun hy => ?_
    obtain rfl : y = .op o := by simpa using hy
    trivial
  · exact h.exec hi hs
  · have hnone : ∀ p ∈ ([] : List Panic), ∃ q, p = .poisoned q := fun p hp => by cases hp
    have hunwind := h.unwind i (x :: k) hnone
    rwa [List.append_nil] at hunwind

theorem Inv.inductive : machine.Inductive (fun _ _ => True) Inv where
  init :=
    { log := .nil
      below := by simp [machine, fresh]
      listed := by simp [machine, fresh]
      one := by simp [machine, fresh]
      boxed := by simp [machine, fresh]
      kept := by simp [machine, fresh]
      requested := by simp [machine, fresh]
      code := by simp [machine, fresh]
      handles := by simp [machine, fresh]
      panics := by simp [machine, fresh] }
  step _ _ _ hs _ hstep := hs.step hstep

/-! ## What a step does to the boxes -/

/-- A thread does `body` next, and then goes on with what it had left. -/
def Begins (s t : State) (body : List Op) : Prop :=
  ∃ i x y k, s.threads[i]? = some (x :: k) ∧ t.threads = s.threads.set i (code body ++ y :: k)

/-- What happens to the box of callback `id` in a step: what is run is the function that was in it,
and what it owns is dropped otherwise. -/
inductive BoxStep (s t : State) (id : ℕ) (f : Callback) : Prop
  | stays : t.functions[id]? = some (some f) → BoxStep s t id f
  | runs (q : ℕ) : .registered q id ∈ s.log → t.functions[id]? = some none →
      t.log = s.log ++ [.invoked q id] → Begins s t f.body → BoxStep s t id f
  | clears (q : ℕ) : .registered q id ∈ s.log → t.functions[id]? = some none →
      t.log = s.log ++ [.dropped q id] → Begins s t f.drops → BoxStep s t id f

theorem begins_goto (hi : s.threads[i]? = some (x :: k)) (body : List Op) (y : Instr) :
    Begins s (s.goto i (code body ++ [y]) k) body :=
  ⟨i, x, y, k, hi, by simp [State.goto]⟩

theorem BoxStep.of_eq {f : Callback} (hf : s.functions[id]? = some (some f))
    (h : t.functions = s.functions) : BoxStep s t id f :=
  .stays (h ▸ hf)

theorem lock_functions {inside : Instr} (hs : s.lock i k q inside = some t) :
    t.functions = s.functions := by
  obtain ⟨-, ⟨-, rfl⟩ | ⟨-, rfl⟩⟩ := lock_cases hs <;> rfl

theorem Inv.exec_box (h : Inv s) (hi : s.threads[i]? = some (x :: k))
    (hs : s.exec i k x = some t) {f : Callback} (hf : s.functions[id]? = some (some f)) :
    BoxStep s t id f := by
  have hlt : id < s.functions.length := (List.getElem?_eq_some_iff.mp hf).1
  have happend : ∀ g, (s.functions ++ [g])[id]? = some (some f) := fun g => by
    rw [List.getElem?_append_left hlt, hf]
  have hset : ∀ b ≠ id, (s.functions.set b none)[id]? = some (some f) := fun b hb => by
    rw [List.getElem?_set_ne hb, hf]
  cases x with
  | op o =>
      cases o with
      | requestStop q => exact Option.some.inj hs ▸ .of_eq hf rfl
      | callback q caller body drops => exact .of_eq hf (lock_functions hs)
      | drop q name =>
          obtain rfl := Option.some.inj hs
          refine .of_eq hf ?_
          simp only [State.drop]
          split <;> rfl
      | detach q name =>
          obtain rfl := Option.some.inj hs
          refine .of_eq hf ?_
          simp only [State.detach]
          split <;> rfl
  | lockStop q => exact .of_eq hf (lock_functions hs)
  | invoke q j =>
      obtain rfl := Option.some.inj hs
      simp only [State.invoke]
      split
      · exact .of_eq hf rfl
      next b hslot =>
        split
        next g hg =>
          by_cases hb : b = id
          · subst hb
            obtain rfl := Option.some.inj (Option.some.inj (hf.symm.trans hg))
            exact .runs q (h.slot hslot).1 (List.getElem?_set_self hlt) rfl
              (begins_goto hi f.body _)
          · exact .stays (hset b hb)
        next => exact .of_eq hf rfl
  | load q caller g =>
      obtain rfl := Option.some.inj hs
      split
      · exact .stays (happend none)
      · exact .of_eq hf rfl
  | push q caller g =>
      obtain rfl := Option.some.inj hs
      simp only [State.push]
      split
      · exact .stays (happend (some g))
      · exact .stays (happend (some g))
  | lockClear q n id' => exact .of_eq hf (lock_functions hs)
  | clear q n b =>
      have hslot : (s.sources q).callbacks[n]? = some b := h.code _ (mem_flatten_head hi)
      obtain rfl := Option.some.inj hs
      simp only [State.clear, hslot]
      by_cases hb : b = id
      · subst hb
        have hdrops : s.boxDrops b = f.drops := by simp [State.boxDrops, hf]
        exact .clears q (h.slot hslot).1 (List.getElem?_set_self hlt) rfl
          (hdrops ▸ begins_goto hi _ _)
      · exact .stays (hset b hb)
  | cleared q id' => exact Option.some.inj hs ▸ .of_eq hf rfl

/-- **A function leaves its box only to be run, or because its own handle is dropped.** -/
theorem Inv.box_step (h : Inv s) {l : Label} (hs : StopToken.step s l = some t) {f : Callback}
    (hf : s.functions[id]? = some (some f)) : BoxStep s t id f := by
  obtain ⟨o, -, rfl⟩ | ⟨i, x, k, -, hi, hs⟩ | ⟨i, x, k, -, -, -, rfl⟩ := step_cases hs
  · exact .of_eq hf rfl
  · exact h.exec_box hi hs hf
  · exact .of_eq hf rfl

end

end SendersReceivers.StopToken
