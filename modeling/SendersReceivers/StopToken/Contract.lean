import Mathlib.Data.List.Nodup
import SendersReceivers.StopToken.Boxes

/-!
# StopToken/Contract — what a callback can rely on

A registered callback has a handle.  It is kept, or was detached; or it was dropped, and the drop is
on its way through the mutex, or has returned.

    kept ──▸ lockClear ──▸ clear ──▸ cleared ──▸ returned
      └────▸ detached

Nothing gets lost on the way but in a panic, and that leaves the mutex poisoned.
-/

namespace SendersReceivers.StopToken

open Machinery

/-! ## Where the handles are -/

/-- The callback that is dropped by the call the instruction is a part of. -/
def Instr.deregisters : Instr → Option (ℕ × ℕ)
  | .lockClear q _ id | .clear q _ id | .cleared q id => some (q, id)
  | _ => none

/-- Some thread is in the drop of the handle of callback `id`. -/
def Dropping (s : State) (q id : ℕ) : Prop :=
  ∃ x ∈ s.threads.flatten, x.deregisters = some (q, id)

/-- **Where the handle of callback `id` of source `q` is.** -/
inductive Accounted (s : State) (q id : ℕ) : Prop
  | kept (h : ℕ × StoppableCallback) :
      h ∈ s.handles → h.2.state = some q → h.2.id = id → Accounted s q id
  | detached : .detached q id ∈ s.log → Accounted s q id
  | dropping : Dropping s q id → Accounted s q id
  | returned : .dropReturned q id ∈ s.log → Accounted s q id
  | poisoned : (s.sources q).poisoned = true → Accounted s q id

/-- The handles, and the drops of them. -/
structure Handled (s : State) : Prop where
  ids : (s.handles.map fun h => h.2.id).Nodup
  below : ∀ h ∈ s.handles, h.2.id < s.functions.length
  /-- only the first instruction of a thread takes a mutex, or has just taken it -/
  behind : ∀ c ∈ s.threads, ∀ x ∈ c.tail, x.panics = true
  accounted : ∀ q id, .registered q id ∈ s.log → Accounted s q id

section

variable {s t : State} {i j q id : ℕ} {k c : List Instr} {x : Instr}

theorem Accounted.mono (h : Accounted s q id)
    (hhandles : ∀ hd ∈ s.handles, hd.2.state = some q → hd.2.id = id → Accounted t q id)
    (hdropping : Dropping s q id → Accounted t q id) (hlog : s.log ⊆ t.log)
    (hpoisoned : (s.sources q).poisoned = true → (t.sources q).poisoned = true) :
    Accounted t q id := by
  cases h with
  | kept hd hmem hstate hid => exact hhandles hd hmem hstate hid
  | detached hmem => exact .detached (hlog hmem)
  | dropping hd => exact hdropping hd
  | returned hmem => exact .returned (hlog hmem)
  | poisoned hq => exact .poisoned (hpoisoned hq)

/-- A drop that is behind other code has the mutex. -/
theorem holds_of_deregisters (hx : x.panics = true) (hd : x.deregisters = some (q, id)) :
    x.holds = some q := by
  cases x with
  | cleared q' id' =>
      obtain ⟨rfl, -⟩ := Prod.mk.inj (Option.some.inj hd)
      rfl
  | lockClear | clear => cases hx
  | _ => cases hd

/-- What is behind the next instruction of a thread. -/
theorem Handled.rest (h : Handled s) (hi : s.threads[i]? = some (x :: k)) :
    ∀ y ∈ k, y.panics = true :=
  h.behind _ (List.mem_of_getElem? hi)

theorem behind_goto (h : ∀ c ∈ s.threads, ∀ x ∈ c.tail, x.panics = true)
    (hc : ∀ y ∈ (c ++ k).tail, y.panics = true) :
    ∀ d ∈ (s.goto i c k).threads, ∀ y ∈ d.tail, y.panics = true := by
  intro d hd
  obtain hd | rfl := List.mem_or_eq_of_mem_set hd
  · exact h d hd
  · exact hc

theorem panics_code (body : List Op) : ∀ y ∈ code body, y.panics = true := by
  intro y hy
  obtain ⟨o, -, rfl⟩ := List.mem_map.mp hy
  rfl

theorem tail_append (hc : ∀ y ∈ c, y.panics = true) (hk : ∀ y ∈ k, y.panics = true) :
    ∀ y ∈ (c ++ k).tail, y.panics = true := by
  intro y hy
  obtain hy | hy := List.mem_append.mp (List.mem_of_mem_tail hy)
  · exact hc y hy
  · exact hk y hy

/-- A thread goes on, and does not touch the handles. -/
theorem Handled.goto (h : Handled s) (hi : s.threads[i]? = some (x :: k))
    (ht : t.threads = (s.goto i c k).threads) (hhandles : t.handles = s.handles)
    (hfunctions : s.functions.length ≤ t.functions.length) (hlog : s.log ⊆ t.log)
    (hreg : ∀ q id, .registered q id ∈ t.log → .registered q id ∈ s.log)
    (hpoisoned : ∀ q, (s.sources q).poisoned = true → (t.sources q).poisoned = true)
    (hc : ∀ y ∈ (c ++ k).tail, y.panics = true)
    (hx : ∀ q id, x.deregisters = some (q, id) → Accounted t q id) : Handled t where
  ids := hhandles ▸ h.ids
  below hd hmem := (h.below hd (hhandles ▸ hmem)).trans_le hfunctions
  behind := ht ▸ behind_goto h.behind hc
  accounted q id hmem := by
    refine (h.accounted q id (hreg q id hmem)).mono
      (fun hd hhd => .kept hd (hhandles ▸ hhd)) (fun ⟨y, hy, hd⟩ => ?_) hlog (hpoisoned q)
    by_cases hyx : y = x
    · exact hx q id (hyx ▸ hd)
    · exact .dropping ⟨y, ht ▸ mem_goto_of_mem hi c hy hyx, hd⟩

/-- A thread unwinds. -/
theorem Handled.unwind (h : Handled s) (hi : s.threads[i]? = some (x :: k)) {k' : List Instr}
    (hk : k ⊆ k') (ps : List Panic)
    (hx : ∀ q id, x.deregisters = some (q, id) →
      (s.sources q).poisoned = true ∨ x ∈ k' ∧ x.holds = some q) :
    Handled { s.unwind i k' with panics := ps } where
  ids := h.ids
  below := h.below
  behind d hd := by
    obtain hd | rfl := List.mem_or_eq_of_mem_set hd
    · exact h.behind d hd
    · exact fun y hy => nomatch hy
  accounted q id hmem := by
    have hpoison : ∀ q, (s.sources q).poisoned = true ∨ (∃ y ∈ k', y.holds = some q) →
        ((s.unwind i k').sources q).poisoned = true := by
      intro q hq
      rw [unwind_source]
      obtain hq | ⟨y, hy, hq⟩ := hq
      · simp [hq]
      · simp only [Bool.or_eq_true, List.any_eq_true, decide_eq_true_eq]
        exact .inr ⟨y, hy, hq⟩
    refine (h.accounted q id hmem).mono (fun hd hmem hstate hid => .kept hd hmem hstate hid)
      (fun ⟨y, hy, hd⟩ => ?_) (fun _ he => he) fun hq => hpoison q (.inl hq)
    obtain ⟨d, hd', hyd⟩ := List.mem_flatten.mp hy
    obtain ⟨n, hn⟩ := List.mem_iff_getElem?.mp hd'
    by_cases hin : i = n
    · subst hin
      obtain rfl := Option.some.inj (hi.symm.trans hn)
      refine .poisoned (hpoison q ?_)
      obtain rfl | hyk := List.mem_cons.mp hyd
      · exact (hx q id hd).imp_right fun ⟨hy, hq⟩ => ⟨y, hy, hq⟩
      · exact .inr ⟨y, hk hyk, holds_of_deregisters (h.rest hi y hyk) hd⟩
    · refine .dropping ⟨y, List.mem_flatten.mpr ⟨d, ?_, hyd⟩, hd⟩
      exact List.mem_of_getElem? (i := n) ((List.getElem?_set_ne hin).trans hn)

/-- A mutex is taken, or was poisoned. -/
theorem Handled.lock (h : Handled s) (hi : s.threads[i]? = some (x :: k)) {inside : Instr}
    (hs : s.lock i k q inside = some t)
    (hx : ∀ q' id, x.deregisters = some (q', id) → q' = q ∧ inside.deregisters = some (q', id)) :
    Handled t := by
  obtain ⟨-, ⟨hpoisoned, rfl⟩ | ⟨-, rfl⟩⟩ := lock_cases hs
  · exact h.unwind hi (List.Subset.refl k) _ fun q' id hd => .inl ((hx q' id hd).1 ▸ hpoisoned)
  · refine h.goto hi rfl rfl le_rfl (fun _ he => he) (fun _ _ hreg => hreg) (fun _ hq => hq)
      (h.rest hi) fun q' id hd => ?_
    exact .dropping ⟨inside, mem_goto_code hi (.head _), (hx q' id hd).2⟩

/-- The other handles are those of other callbacks. -/
theorem Handled.eraseIdx (h : Handled s) {n : ℕ} {hd : ℕ × StoppableCallback}
    (hn : s.handles[n]? = some hd) : ∀ hd' ∈ s.handles.eraseIdx n, hd'.2.id ≠ hd.2.id := by
  intro hd' hmem heq
  obtain ⟨m, hm, hget⟩ := List.mem_eraseIdx_iff_getElem?.mp hmem
  have hlt := (List.getElem?_eq_some_iff.mp hget).1
  refine hm ((List.getElem?_inj (by simpa using hlt) h.ids).mp ?_)
  simp [hget, hn, heq]

/-- `detach` leaves the names of the callbacks. -/
theorem map_detach (handles : List (ℕ × StoppableCallback)) (n : ℕ) :
    (handles.modify n fun h => (h.1, h.2.detach)).map (fun h => h.2.id) =
      handles.map fun h => h.2.id := by
  refine List.ext_getElem? fun m => ?_
  simp only [List.getElem?_map, List.getElem?_modify]
  cases handles[m]? with
  | none => rfl
  | some h => by_cases hm : n = m <;> simp [hm, StoppableCallback.detach]

/-! ## Every step -/

/-- The handle is taken away, and the drop of it begins. -/
theorem Handled.drop (h : Handled s) (hi : s.threads[i]? = some (x :: k))
    (hx : x.deregisters = none) (q name : ℕ) : Handled (s.drop i k q name) := by
  simp only [State.drop]
  split
  · exact h.goto (c := []) hi rfl rfl le_rfl (fun _ he => he) (fun _ _ hreg => hreg)
      (fun _ hq => hq) (fun y hy => h.rest hi y (List.mem_of_mem_tail hy)) (by simp [hx])
  next name' cb hfind =>
    have herase := List.eraseIdx_sublist s.handles (s.findHandle q name)
    refine ⟨h.ids.sublist (herase.map _), fun hd hmem => h.below hd (herase.subset hmem),
      behind_goto h.behind (h.rest hi), fun q' id hreg => ?_⟩
    refine (h.accounted q' id hreg).mono (fun hd hmem hstate hid => ?_) ?_ (fun _ he => he)
      fun hq => hq
    · by_cases hkept : hd ∈ s.handles.eraseIdx (s.findHandle q name)
      · exact .kept hd hkept hstate hid
      · obtain ⟨m, hm⟩ := List.mem_iff_getElem?.mp hmem
        obtain rfl : m = s.findHandle q name := by
          by_contra hne
          exact hkept (List.mem_eraseIdx_iff_getElem?.mpr ⟨m, hne, hm⟩)
        obtain rfl := Option.some.inj (hfind.symm.trans hm)
        obtain rfl : q = q' := Option.some.inj ((findHandle_state hfind).symm.trans hstate)
        exact .dropping ⟨_, mem_goto_code hi (.head _), by simp [Instr.deregisters, ← hid]⟩
    · rintro ⟨y, hy, hd⟩
      have hyx : y ≠ x := fun hyx => by simp [hyx, hx] at hd
      exact .dropping ⟨y, mem_goto_of_mem hi _ hy hyx, hd⟩

theorem Handled.detach (h : Handled s) (hi : s.threads[i]? = some (x :: k))
    (hx : x.deregisters = none) (q name : ℕ) : Handled (s.detach i k q name) := by
  have hrest : ∀ y ∈ ([] ++ k).tail, y.panics = true := fun y hy =>
    h.rest hi y (List.mem_of_mem_tail hy)
  simp only [State.detach]
  split
  · exact h.goto (c := []) hi rfl rfl le_rfl (fun _ he => he) (fun _ _ hreg => hreg)
      (fun _ hq => hq) hrest (by simp [hx])
  next name' cb hfind =>
    refine ⟨by rw [map_detach]; exact h.ids, fun hd hmem => ?_, behind_goto h.behind hrest,
      fun q' id hreg => ?_⟩
    · have hids : hd.2.id ∈ s.handles.map fun h => h.2.id := by
        rw [← map_detach s.handles (s.findHandle q name)]
        exact List.mem_map_of_mem hmem
      obtain ⟨hd', hmem', heq⟩ := List.mem_map.mp hids
      exact heq ▸ h.below hd' hmem'
    · have hreg' : .registered q' id ∈ s.log := (mem_record.mp hreg).resolve_right (by simp)
      refine (h.accounted q' id hreg').mono (fun hd hmem hstate hid => ?_) ?_ (subset_record _ _)
        fun hq => hq
      · obtain ⟨m, hm⟩ := List.mem_iff_getElem?.mp hmem
        by_cases hfound : s.findHandle q name = m
        · subst hfound
          obtain rfl := Option.some.inj (hfind.symm.trans hm)
          obtain rfl : q = q' := Option.some.inj ((findHandle_state hfind).symm.trans hstate)
          exact .detached (mem_record.mpr (.inr (by simp [← hid])))
        · refine .kept hd (List.mem_of_getElem? (i := m) ?_) hstate hid
          simp [hfound, hm]
      · rintro ⟨y, hy, hd⟩
        have hyx : y ≠ x := fun hyx => by simp [hyx, hx] at hd
        exact .dropping ⟨y, mem_goto_of_mem (s := s) hi [] hy hyx, hd⟩

/-- The handle of a new callback is kept, or detached. -/
theorem Handled.push (h : Handled s) (hi : s.threads[i]? = some (x :: k))
    (hx : x.deregisters = none) (q : ℕ) (caller : Caller) (f : Callback) :
    Handled (s.push i k q caller f) := by
  have hrest : ∀ y ∈ ([] ++ k).tail, y.panics = true := fun y hy =>
    h.rest hi y (List.mem_of_mem_tail hy)
  have hlength : (s.functions ++ [some f]).length = s.functions.length + 1 := by simp
  have hold : ∀ {t : State}, t.threads = (s.goto i [] k).threads →
      (∀ hd ∈ s.handles, hd ∈ t.handles) → s.log ⊆ t.log →
      t.sources = (s.register i k q f).sources →
      ∀ q' id, .registered q' id ∈ s.log → Accounted t q' id := by
    intro t ht hhandles hlog hsources q' id hreg
    refine (h.accounted q' id hreg).mono
      (fun hd hmem hstate hid => .kept hd (hhandles hd hmem) hstate hid)
      (fun ⟨y, hy, hd⟩ => ?_) hlog fun hq => ?_
    · have hyx : y ≠ x := fun hyx => by simp [hyx, hx] at hd
      exact .dropping ⟨y, ht ▸ mem_goto_of_mem hi [] hy hyx, hd⟩
    · rwa [hsources, register_source]
  unfold State.push
  split
  · refine ⟨h.ids, fun hd hmem => (h.below hd hmem).trans (by simp [State.record, State.register]),
      behind_goto h.behind hrest, fun q' id hreg => ?_⟩
    obtain hreg | heq := mem_record.mp hreg
    · obtain hreg | heq := mem_record.mp hreg
      · exact hold (t := (s.register i k q f).record _) rfl (fun _ hmem => hmem)
          (List.Subset.trans (subset_record s _) (subset_record _ _)) rfl q' id hreg
      · obtain ⟨rfl, rfl⟩ := Event.registered.inj heq
        exact .detached (mem_record.mpr (.inr rfl))
    · cases heq
  · refine ⟨?_, fun hd hmem => ?_, behind_goto h.behind hrest, fun q' id hreg => ?_⟩
    · rw [List.map_append, List.map_singleton]
      refine List.nodup_append.mpr ⟨h.ids, List.nodup_singleton _, fun id hid id' hid' => ?_⟩
      obtain ⟨hd, hmem, rfl⟩ := List.mem_map.mp hid
      rw [List.mem_singleton.mp hid']
      exact (h.below hd hmem).ne
    · show hd.2.id < (s.functions ++ [some f]).length
      obtain hmem | hmem := List.mem_append.mp hmem
      · exact (h.below hd hmem).trans (by simp)
      · rw [List.mem_singleton.mp hmem]
        simp
    · obtain hreg | heq := mem_record.mp hreg
      · exact hold (t := { s.register i k q f with handles := s.handles ++ [_] }) rfl
          (fun _ hmem => List.mem_append_left _ hmem) (subset_record s _) rfl q' id hreg
      · obtain ⟨rfl, rfl⟩ := Event.registered.inj heq
        exact .kept _ (List.mem_append_right _ (.head _)) rfl rfl

theorem Handled.exec (h : Handled s) (hinv : Inv s) (hi : s.threads[i]? = some (x :: k))
    (hs : s.exec i k x = some t) : Handled t := by
  have hrest : ∀ y ∈ ([] ++ k).tail, y.panics = true := fun y hy =>
    h.rest hi y (List.mem_of_mem_tail hy)
  cases x with
  | op o =>
      cases o with
      | requestStop q =>
          obtain rfl := Option.some.inj hs
          exact h.goto hi rfl rfl le_rfl (subset_record _ _)
            (fun _ _ hreg => (mem_record.mp hreg).resolve_right (by simp))
            (fun q' hq => by simpa [State.goto, store_source] using hq) (h.rest hi)
            (by simp [Instr.deregisters])
      | callback q caller body drops => exact h.lock hi hs (by simp [Instr.deregisters])
      | drop q name => exact Option.some.inj hs ▸ h.drop hi rfl q name
      | detach q name => exact Option.some.inj hs ▸ h.detach hi rfl q name
  | lockStop q => exact h.lock hi hs (by simp [Instr.deregisters])
  | invoke q j =>
      obtain rfl := Option.some.inj hs
      simp only [State.invoke]
      split
      · exact h.goto (c := []) hi rfl rfl le_rfl (subset_record _ _)
          (fun _ _ hreg => (mem_record.mp hreg).resolve_right (by simp)) (fun _ hq => hq) hrest
          (by simp [Instr.deregisters])
      · split
        next f _ =>
          refine h.goto hi rfl rfl (by simp) (subset_record _ _)
            (fun _ _ hreg => (mem_record.mp hreg).resolve_right (by simp)) (fun _ hq => hq)
            (tail_append (fun y hy => ?_) (h.rest hi)) (by simp [Instr.deregisters])
          obtain hy | hy := List.mem_append.mp hy
          · exact panics_code f.body y hy
          · rw [List.mem_singleton.mp hy]
            rfl
        next =>
          exact h.goto hi rfl rfl le_rfl (fun _ he => he) (fun _ _ hreg => hreg) (fun _ hq => hq)
            (h.rest hi) (by simp [Instr.deregisters])
  | load q caller f =>
      obtain rfl := Option.some.inj hs
      split
      · exact h.goto hi rfl rfl (by simp [State.refuse]) (subset_record _ _)
          (fun _ _ hreg => (mem_record.mp hreg).resolve_right (by simp)) (fun _ hq => hq)
          (tail_append (panics_code _) (h.rest hi)) (by simp [Instr.deregisters])
      · exact h.goto hi rfl rfl le_rfl (fun _ he => he) (fun _ _ hreg => hreg) (fun _ hq => hq)
          (h.rest hi) (by simp [Instr.deregisters])
  | push q caller f => exact Option.some.inj hs ▸ h.push hi rfl q caller f
  | lockClear q n id => exact h.lock hi hs (by simp [Instr.deregisters])
  | clear q n id =>
      have hslot : (s.sources q).callbacks[n]? = some id := hinv.code _ (mem_flatten_head hi)
      obtain rfl := Option.some.inj hs
      simp only [State.clear, hslot]
      refine h.goto hi rfl rfl (by simp) (subset_record _ _)
        (fun _ _ hreg => (mem_record.mp hreg).resolve_right (by simp)) (fun _ hq => hq)
        (tail_append (fun y hy => ?_) (h.rest hi)) fun q' id' hd => ?_
      · obtain hy | hy := List.mem_append.mp hy
        · exact panics_code _ y hy
        · rw [List.mem_singleton.mp hy]
          rfl
      · exact .dropping ⟨.cleared q id,
          mem_goto_code (s := s) hi (List.mem_append_right _ (.head _)), hd⟩
  | cleared q id =>
      obtain rfl := Option.some.inj hs
      refine h.goto (c := []) hi rfl rfl le_rfl (subset_record _ _)
        (fun _ _ hreg => (mem_record.mp hreg).resolve_right (by simp)) (fun _ hq => hq) hrest
        fun q' id' hd => ?_
      obtain ⟨rfl, rfl⟩ := Prod.mk.inj (Option.some.inj hd)
      exact .returned (mem_record.mpr (.inr rfl))

theorem Handled.step (h : Handled s) (hinv : Inv s) {l : Label} (hs : StopToken.step s l = some t) :
    Handled t := by
  obtain ⟨o, -, rfl⟩ | ⟨i, x, k, -, hi, hs⟩ | ⟨i, x, k, -, hi, hx, rfl⟩ := step_cases hs
  · refine ⟨h.ids, h.below, fun c hc => ?_, fun q id hreg => ?_⟩
    · obtain hc | hc := List.mem_append.mp hc
      · exact h.behind c hc
      · rw [List.mem_singleton.mp hc]
        exact fun y hy => nomatch hy
    · refine (h.accounted q id hreg).mono (fun hd hmem hstate hid => .kept hd hmem hstate hid)
        (fun ⟨y, hy, hd⟩ => .dropping ⟨y, ?_, hd⟩) (fun _ he => he) fun hq => hq
      rw [List.flatten_append]
      exact List.mem_append_left _ hy
  · exact h.exec hinv hi hs
  · refine h.unwind hi (List.subset_cons_self x k) s.panics fun q id hd => .inr ⟨.head _, ?_⟩
    exact holds_of_deregisters hx hd

theorem Handled.inductive : machine.Inductive (fun _ _ => True) fun s => Inv s ∧ Handled s where
  init :=
    { left := Inv.inductive.init
      right :=
        { ids := by simp [machine, fresh]
          below := by simp [machine, fresh]
          behind := by simp [machine, fresh]
          accounted := by simp [machine, fresh] } }
  step _ _ _ h _ hs := ⟨h.1.step hs, h.2.step h.1 hs⟩

/-! ## The theorem -/

/-- **A drop has begun**: the handle is gone, and the thread is on its way to the mutex. -/
def DropBegun (s : State) (q : ℕ) (cb : StoppableCallback) : Prop :=
  (∀ h ∈ s.handles, h.2.id ≠ cb.id) ∧ Dropping s q cb.id

theorem Handled.drop_begun (h : Handled s) {name : ℕ}
    (hi : s.threads[i]? = some (.op (.drop q name) :: k)) (hs : StopToken.step s (.run i) = some t)
    {hd : ℕ × StoppableCallback} (hfind : s.handles[s.findHandle q name]? = some hd) :
    DropBegun t q hd.2 := by
  simp only [StopToken.step, hi, State.exec, Option.some.injEq] at hs
  subst hs
  simp only [State.drop, hfind]
  exact ⟨h.eraseIdx hfind, _, mem_goto_code hi (.head _), rfl⟩

/-- What callers of a stop source can rely on. -/
structure Contract (s : State) : Prop where
  log : LogOk s.log
  once : ∀ q id, s.log.count (.invoked q id) ≤ 1
  refused : ∀ q id, .refused q id ∈ s.log →
    .stopRequested q ∈ s.log ∧ ∀ q', .registered q' id ∉ s.log ∧ .invoked q' id ∉ s.log
  kept : ∀ q id, .registered q id ∈ s.log → id ∈ (s.sources q).callbacks ∧
    (s.Boxed id ∨ .invoked q id ∈ s.log ∨ .dropped q id ∈ s.log)
  /-- the handle is not lost, and a drop of it returns unless the mutex is poisoned -/
  accounted : ∀ q id, .registered q id ∈ s.log → Accounted s q id
  drops : ∀ i k q name, s.threads[i]? = some (.op (.drop q name) :: k) →
    ∀ t, StopToken.step s (.run i) = some t →
    ∀ h, s.handles[s.findHandle q name]? = some h → DropBegun t q h.2
  separate : ∀ l t, StopToken.step s l = some t →
    ∀ id f, s.functions[id]? = some (some f) → BoxStep s t id f
  inBounds : ∀ q callback_slot, .outOfBounds q callback_slot ∉ s.panics

/-- **Stop callbacks run exactly once.**  In every run, whichever threads register, drop, detach and
request in which order, and whatever the callbacks do: an event of the log has what it needs among
those before it; a callback is run at most once, and one that was refused never, and only after a
stop was requested; one that was registered stays in its slot and its box until it is run or its own
handle is dropped, and that handle is kept or detached until then; and no index is out of bounds. -/
theorem callbacks_run_once (as : List Label) (s : State)
    (h : machine.Run (fun _ _ => True) as s) : Contract s := by
  obtain ⟨hinv, hhandled⟩ := Handled.inductive.of_run h
  refine
    { log := hinv.log
      once := hinv.log.count_le
      refused := fun q id hmem => ⟨?_, fun q' => ?_⟩
      kept := fun q id hreg => ⟨(hinv.listed q id).mpr hreg, hinv.kept q id hreg⟩
      accounted := hhandled.accounted
      drops := fun i k q name hi t hs hd hfind => hhandled.drop_begun hi hs hfind
      separate := fun l t hs id f hf => hinv.box_step hs hf
      inBounds := fun q n hmem => ?_ }
  · obtain ⟨past, rest, hlog⟩ := List.append_of_mem hmem
    exact hlog ▸ List.mem_append_left _ (hinv.log.at hlog).1
  · have hreg : .registered q' id ∉ s.log := fun hreg => hinv.log.not_both hreg hmem
    exact ⟨hreg, fun hrun => hreg (hinv.log.registered (.inl hrun))⟩
  · obtain ⟨q', heq⟩ := hinv.panics _ hmem
    cases heq

/-- A callback whose handle is dropped, and whose destructor stops another source; one that a stop
runs; and one that comes too late. -/
def lateCallback : List Label :=
  [.call (.callback 0 ⟨0, false, true⟩ [] [.requestStop 1]), .run 0, .run 0, .run 0,
    .call (.drop 0 0)] ++ List.replicate 7 (.run 1) ++
    [.call (.callback 0 ⟨1, false, true⟩ [] []), .run 2, .call (.requestStop 0), .run 2, .run 3,
      .run 2, .run 3, .run 3, .run 3, .run 3, .call (.callback 0 ⟨2, false, true⟩ [] []), .run 4,
      .run 4]

theorem lateCallback_runs :
    ∃ s, machine.Run (fun _ _ => True) lateCallback s ∧
      s.log = [.registered 0 0, .dropped 0 0, .stopRequested 1, .stopReturned 1, .dropReturned 0 0,
        .stopRequested 0, .registered 0 1, .invoked 0 1, .stopReturned 0, .refused 0 2] ∧
      Contract s := by
  obtain ⟨s, hs, hlog⟩ : ∃ s, machine.exec fresh lateCallback = some s ∧
      s.log = [.registered 0 0, .dropped 0 0, .stopRequested 1, .stopReturned 1, .dropReturned 0 0,
        .stopRequested 0, .registered 0 1, .invoked 0 1, .stopReturned 0, .refused 0 2] :=
    Machine.exec_ends (by decide +kernel)
  have hrun : machine.Run (fun _ _ => True) lateCallback s := .of_exec (by decide +kernel) hs
  exact ⟨s, hrun, hlog, callbacks_run_once lateCallback s hrun⟩

end

end SendersReceivers.StopToken
