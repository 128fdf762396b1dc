import Mathlib.Data.List.Perm.Basic
import SendersReceivers.Worker.Machine

/-!
# Worker/Invariant — what holds between the queues, the wake-ups and the senders

While there is a sender, a wake-up that is set, and a task that a call is bound to run, stand for
queued tasks of their own.  The wake-up of the last sender is a token: it is about to be set, or
set, or taken by a poll, or some call has reported it.

    0 < cnt_sender : waker + due ≤ queued          cnt_sender = 0 : exactly one notice
-/

namespace SendersReceivers.Worker

open Machinery Pool

/-- The task on its way through the mutex. -/
def Section.sends : Section → List Task
  | .pushing task => [task]
  | _ => []

/-- One while the last sender is about to wake the worker. -/
def Section.wakes : Section → ℕ
  | .waking => 1
  | _ => 0

/-- One while a poll has taken a wake-up, and what came with it has not been seen. -/
def Phase.drains : Phase → ℕ
  | .draining _ => 1
  | _ => 0

/-- One while the current call is bound to run a task. -/
def Phase.due (tasks : List Task) : Phase → ℕ
  | .draining _ => 1
  | .ready _ => min 1 tasks.length
  | _ => 0

/-- Whether the call has reported that no sender is left. -/
def Result.disconnected (r : Result) : Bool := r.outcome = .finished || r.outcome = .ran false

/-- **What a result may say**: `run_one` has run one task, or none. -/
def Result.Faithful (r : Result) : Prop :=
  match r.call, r.outcome with
  | .run, .finished => True
  | .runOne _, .ran did_run_a_task => r.count = did_run_a_task.toNat
  | _, _ => False

/-- The failure of the assertion, in a call that does not block. -/
def Result.failed : Result := ⟨.runOne false, .panicked "assertion failed: did_run_a_task", 0⟩

namespace State

/-- The tasks that are queued, and the one that is as soon as the mutex is free. -/
def queued (s : State) : ℕ := s.mutex.sends.length + s.channel.queue.length + s.tasks.length

/-- Whether some call has reported that no sender is left. -/
def told (s : State) : Bool := s.results.any Result.disconnected

/-- All tasks there ever were, each in one place, the local queue and all it has seen in the last
one. -/
def places (s : State) : List ℕ :=
  (s.sending ++ s.mutex.sends ++ s.channel.queue).map Task.id ++ s.entered

end State

/-- **The invariant.** -/
structure Inv (me : ℕ) (s : State) : Prop where
  senders : s.channel.cnt_sender = s.handles + s.sending.length + s.queued
  receiver : s.phase ≠ .exited → s.channel.has_receiver = true
  nodup : s.places.Nodup
  fresh : ∀ id ∈ s.places, id < s.next
  thread : s.thread_id = me
  mine : ∀ task ∈ s.sending ++ s.mutex.sends ++ s.channel.queue ++ s.tasks, task.thread_id = me
  sent : s.sent = s.entered.filter (fun id => id ∈ s.sent) ++ s.channel.queue.map Task.id
  entered : s.entered = s.ran ++ s.tasks.map Task.id
  woken : s.channel.queue ≠ [] ∨ s.mutex.sends ≠ [] →
    s.channel.waker = true ∨ s.phase.drains = 1
  live : 0 < s.channel.cnt_sender →
    s.channel.waker.toNat + s.phase.due s.tasks ≤ s.queued ∧ s.told = false
  dead : s.channel.cnt_sender = 0 →
    s.mutex.wakes + s.channel.waker.toNat + s.phase.drains + s.told.toNat = 1
  waking : s.mutex = .waking → s.channel.cnt_sender = 0
  exited : s.phase = .exited → s.told = true
  ready : ∀ c, s.phase = .ready c → s.tasks ≠ [] ∨ c = .runOne false
  count : ∀ block, (s.phase = .polling (.runOne block) ∨ s.phase = .draining (.runOne block) ∨
    s.phase = .ready (.runOne block) → s.count = 0) ∧
      (s.phase = .running (.runOne block) → s.count = 1)
  results : ∀ r ∈ s.results, r.Faithful ∨ r = .failed
  panics : s.panics = []

section Step

variable {me : ℕ} {s t : State}

/-- A sender that is left keeps the last notice back. -/
theorem Inv.pos_of_handle (h : Inv me s) (hpos : 0 < s.handles) : 0 < s.channel.cnt_sender := by
  have := h.senders
  omega

/-! ## The operations of the handles -/

theorem Inv.clone (h : Inv me s) (hpos : 0 < s.handles) :
    Inv me { s with channel := s.channel.cloneSender, handles := s.handles + 1 } :=
  have hcnt := h.pos_of_handle hpos
  { h with
    senders := by
      have := h.senders
      simp only [Channel.cloneSender, State.queued] at this ⊢
      omega
    live := fun _ => h.live hcnt
    dead := fun hzero => by simp [Channel.cloneSender] at hzero
    waking := fun hw => absurd (h.waking hw) (by omega) }

theorem Inv.drop (h : Inv me s) (hfree : s.mutex = .free) (hpos : 0 < s.handles) :
    Inv me { s with handles := s.handles - 1 }.dropSender := by
  have hcnt := h.pos_of_handle hpos
  have hsenders := h.senders
  obtain ⟨hlive, htold⟩ := h.live hcnt
  have hdown : s.channel.countDown =
      .ok { s.channel with cnt_sender := s.channel.cnt_sender - 1 } := by
    rw [Channel.countDown, if_neg (by omega)]
  simp only [State.dropSender, hdown]
  simp only [State.queued, hfree] at hsenders hlive
  by_cases hone : s.channel.cnt_sender - 1 = 0
  · rw [if_pos hone]
    have hdue : s.phase.drains ≤ s.phase.due s.tasks := by
      cases s.phase <;> simp [Phase.drains, Phase.due]
    exact { h with
      senders := by
        simp only [State.queued, Section.sends] at hsenders ⊢
        omega
      nodup := by simpa only [State.places, hfree, Section.sends] using h.nodup
      fresh := by simpa only [State.places, hfree, Section.sends] using h.fresh
      mine := by simpa only [hfree, Section.sends] using h.mine
      woken := by simpa only [hfree, Section.sends] using h.woken
      live := fun hpos' => absurd hpos' (by simp only; omega)
      dead := fun _ => by
        change Section.waking.wakes + s.channel.waker.toNat + s.phase.drains + s.told.toNat = 1
        rw [htold]
        simp only [Section.wakes, Bool.toNat_false]
        omega
      waking := fun _ => hone }
  · rw [if_neg hone]
    exact { h with
      senders := by
        simp only [State.queued, Section.sends] at hsenders ⊢
        omega
      nodup := by simpa only [State.places, hfree, Section.sends] using h.nodup
      fresh := by simpa only [State.places, hfree, Section.sends] using h.fresh
      mine := by simpa only [hfree, Section.sends] using h.mine
      woken := by simpa only [hfree, Section.sends] using h.woken
      live := fun _ => ⟨by simpa only [State.queued] using hlive, htold⟩
      dead := fun hzero => absurd hzero hone
      waking := fun hw => nomatch hw }

theorem Inv.wake (h : Inv me s) (hw : s.mutex = .waking) :
    Inv me { s with channel := s.channel.wake, mutex := .free } := by
  have hzero := h.waking hw
  have hdead := h.dead hzero
  simp only [hw, Section.wakes] at hdead
  exact { h with
    senders := by simpa only [State.queued, hw, Section.sends, Channel.wake] using h.senders
    nodup := by simpa only [State.places, hw, Section.sends, Channel.wake] using h.nodup
    fresh := by simpa only [State.places, hw, Section.sends, Channel.wake] using h.fresh
    mine := by simpa only [hw, Section.sends, Channel.wake] using h.mine
    woken := fun _ => .inl rfl
    live := fun hpos => absurd hpos (by simp [Channel.wake, hzero])
    dead := fun _ => by
      change Section.free.wakes + true.toNat + s.phase.drains + s.told.toNat = 1
      simp only [Section.wakes, Bool.toNat_true]
      omega
    waking := fun hw => nomatch hw }

/-! ## Tasks on their way to the queues -/

theorem Inv.execute (h : Inv me s) (hpos : 0 < s.handles) : Inv me s.execute := by
  have hcnt := h.pos_of_handle hpos
  have hnew : s.next ∉ s.places := fun hmem => absurd (h.fresh _ hmem) (lt_irrefl _)
  have hplaces : s.execute.places.Perm (s.next :: s.places) := by
    simp only [State.execute, State.places, List.map_append, List.map_cons, List.append_assoc,
      List.singleton_append]
    exact List.perm_middle
  exact { h with
    senders := by
      have := h.senders
      simp only [State.execute, Channel.cloneSender, State.queued, List.length_append,
        List.length_singleton] at this ⊢
      omega
    nodup := hplaces.nodup_iff.mpr (List.nodup_cons.mpr ⟨hnew, h.nodup⟩)
    fresh := fun id hid => by
      rcases List.mem_cons.mp (hplaces.mem_iff.mp hid) with rfl | hid
      · exact Nat.lt_succ_self _
      · exact Nat.lt_succ_of_lt (h.fresh id hid)
    mine := fun task htask => by
      have hmine := h.mine task
      simp only [State.execute, List.mem_append, List.mem_singleton] at htask hmine
      rcases htask with (((hsending | rfl) | hsends) | hqueue) | htasks
      · exact hmine (.inl (.inl (.inl hsending)))
      · exact h.thread
      · exact hmine (.inl (.inl (.inr hsends)))
      · exact hmine (.inl (.inr hqueue))
      · exact hmine (.inr htasks)
    live := fun _ => h.live hcnt
    dead := fun hzero => absurd hzero (Nat.succ_ne_zero _)
    waking := fun hw => absurd (h.waking hw) (by omega) }

/-- What is known about the places of the tasks survives a move. -/
theorem Inv.of_perm (h : Inv me s) {l : List ℕ} (hperm : l.Perm s.places) :
    l.Nodup ∧ ∀ id ∈ l, id < s.next :=
  ⟨hperm.nodup_iff.mpr h.nodup, fun id hid => h.fresh id (hperm.mem_iff.mp hid)⟩

theorem Inv.send (h : Inv me s) (hfree : s.mutex = .free) {i : ℕ} {task : Task}
    (hi : s.sending[i]? = some task) :
    Inv me { s with
      channel := s.channel.wake
      mutex := .pushing task
      sending := s.sending.eraseIdx i } := by
  obtain ⟨hlt, rfl⟩ := List.getElem?_eq_some_iff.mp hi
  have hlen : (s.sending.eraseIdx i).length + 1 = s.sending.length := by
    rw [List.length_eraseIdx_of_lt hlt]
    omega
  have hsenders := h.senders
  have hcnt : 0 < s.channel.cnt_sender := by omega
  obtain ⟨hlive, htold⟩ := h.live hcnt
  simp only [State.queued, hfree, Section.sends] at hsenders hlive
  have hmove : (s.sending.eraseIdx i ++ [s.sending[i]]).Perm s.sending :=
    (List.perm_append_singleton _ _).trans (List.getElem_cons_eraseIdx_perm hlt)
  have hplaces : ((s.sending.eraseIdx i ++ [s.sending[i]] ++ s.channel.queue).map Task.id ++
      s.entered).Perm s.places := by
    simp only [State.places, hfree, Section.sends, List.append_nil]
    exact ((hmove.append_right _).map _).append_right _
  exact { h with
    senders := by
      simp only [State.queued, Section.sends, Channel.wake, List.length_singleton,
        List.length_nil] at hsenders ⊢
      omega
    nodup := (h.of_perm hplaces).1
    fresh := (h.of_perm hplaces).2
    mine := fun task htask => h.mine task <| by
      simp only [Section.sends, Channel.wake, List.append_assoc, hfree, List.nil_append,
        List.mem_append] at htask ⊢
      rcases htask with herase | htask | htask
      · exact .inl (List.mem_of_mem_eraseIdx herase)
      · exact .inl (List.mem_singleton.mp htask ▸ List.getElem_mem hlt)
      · exact .inr htask
    woken := fun _ => .inl rfl
    live := fun _ => ⟨by
      simp only [State.queued, Section.sends, Channel.wake, List.length_singleton,
        Bool.toNat_true, List.length_nil] at hlive ⊢
      omega, htold⟩
    dead := fun hzero => absurd hzero hcnt.ne'
    waking := fun hw => nomatch hw }

/-- A sender that is about to push keeps the worker alive. -/
theorem Inv.enqueue_eq (h : Inv me s) {task : Task} (hmutex : s.mutex = .pushing task) :
    0 < s.channel.cnt_sender ∧
      s.channel.enqueue task = .ok { s.channel with queue := s.channel.queue ++ [task] } := by
  have hsenders := h.senders
  simp only [State.queued, hmutex, Section.sends, List.length_singleton] at hsenders
  have hcnt : 0 < s.channel.cnt_sender := by omega
  have hlive : s.phase ≠ .exited := fun hexited =>
    absurd (h.exited hexited) (Bool.eq_false_iff.mp (h.live hcnt).2)
  exact ⟨hcnt, by rw [Channel.enqueue, if_neg hcnt.ne', if_pos (h.receiver hlive)]⟩

/-- A task that is on its way was not sent before. -/
theorem Inv.sent_subset (h : Inv me s) {id : ℕ} (hid : id ∈ s.sent) :
    id ∈ s.channel.queue.map Task.id ++ s.entered := by
  rw [h.sent] at hid
  rcases List.mem_append.mp hid with hentered | hqueue
  · exact List.mem_append_right _ (List.mem_of_mem_filter hentered)
  · exact List.mem_append_left _ hqueue

/-- What joins the tasks sent does not change which of the others were sent. -/
theorem filter_sent {entered sent : List ℕ} {id : ℕ} (hid : id ∉ entered) :
    entered.filter (fun x => x ∈ sent ++ [id]) = entered.filter fun x => x ∈ sent := by
  refine List.filter_congr fun x hx => ?_
  have hne : x ≠ id := fun heq => hid (heq ▸ hx)
  simp [hne]

theorem Inv.push (h : Inv me s) {task : Task} (hmutex : s.mutex = .pushing task) :
    Inv me (s.push task) := by
  obtain ⟨hcnt, henqueue⟩ := h.enqueue_eq hmutex
  have hsenders := h.senders
  obtain ⟨hlive, htold⟩ := h.live hcnt
  have hnodup := h.nodup
  simp only [State.queued, hmutex, Section.sends, List.length_singleton] at hsenders hlive
  have hplaces : ((s.sending ++ [] ++ (s.channel.queue ++ [task])).map Task.id ++
      s.entered).Perm s.places := by
    simp only [State.places, hmutex, Section.sends, List.append_nil, List.append_assoc]
    exact ((List.perm_append_comm.append_left _).map _).append_right _
  have hnew : task.id ∉ s.entered := by
    simp only [State.places, hmutex, Section.sends] at hnodup
    exact fun hmem => (List.nodup_append.mp hnodup).2.2 _
      (List.mem_map_of_mem (by simp)) _ hmem rfl
  simp only [State.push, henqueue]
  exact { h with
    senders := by
      simp only [State.queued, Section.sends, List.length_append, List.length_singleton,
        List.length_nil] at hsenders ⊢
      omega
    nodup := (h.of_perm hplaces).1
    fresh := (h.of_perm hplaces).2
    mine := fun x hx => h.mine x <| by
      simp only [hmutex, Section.sends, List.mem_append, List.mem_singleton,
        List.not_mem_nil, or_false] at hx ⊢
      tauto
    sent := by
      rw [filter_sent hnew, List.map_append, ← List.append_assoc, ← h.sent]
      rfl
    woken := fun _ => h.woken (.inr (by simp [hmutex, Section.sends]))
    live := fun _ => ⟨by
      simp only [State.queued, Section.sends, List.length_append, List.length_singleton,
        List.length_nil] at hlive ⊢
      omega, htold⟩
    dead := fun hzero => absurd hzero hcnt.ne'
    waking := fun hw => nomatch hw }

theorem Inv.executeLocal (h : Inv me s) (hpos : 0 < s.handles)
    (hphase : s.phase = .idle ∨ ∃ c, s.phase = .running c) : Inv me s.executeLocal := by
  have hcnt := h.pos_of_handle hpos
  have hsenders := h.senders
  obtain ⟨hlive, htold⟩ := h.live hcnt
  have hdue : ∀ tasks, s.phase.due tasks = 0 := by
    rcases hphase with hphase | ⟨c, hphase⟩ <;> simp [hphase, Phase.due]
  have hnew : s.next ∉ s.places := fun hmem => absurd (h.fresh _ hmem) (lt_irrefl _)
  have hunsent : s.next ∉ s.sent := fun hmem => hnew <| by
    have := h.sent_subset hmem
    simp only [State.places, List.map_append, List.mem_append] at this ⊢
    tauto
  have hplaces : s.executeLocal.places = s.places ++ [s.next] := by
    simp only [State.executeLocal, State.places, Channel.cloneSender, List.append_assoc]
  exact { h with
    senders := by
      simp only [State.executeLocal, Channel.cloneSender, State.queued, List.length_append,
        List.length_singleton] at hsenders ⊢
      omega
    nodup := by
      rw [hplaces]
      exact (List.perm_append_singleton _ _).nodup_iff.mpr (List.nodup_cons.mpr ⟨hnew, h.nodup⟩)
    fresh := fun id hid => by
      rw [hplaces] at hid
      rcases List.mem_append.mp hid with hid | hid
      · exact Nat.lt_succ_of_lt (h.fresh id hid)
      · exact List.mem_singleton.mp hid ▸ Nat.lt_succ_self _
    mine := fun x hx => by
      have hmine := h.mine x
      simp only [State.executeLocal, Channel.cloneSender, List.mem_append,
        List.mem_singleton] at hx hmine
      rcases hx with hx | hx | rfl
      · exact hmine (.inl hx)
      · exact hmine (.inr hx)
      · exact h.thread
    sent := by
      change s.sent = (s.entered ++ [s.next]).filter (fun id => id ∈ s.sent) ++
        s.channel.queue.map Task.id
      rw [List.filter_append, List.filter_singleton, decide_eq_false hunsent, cond_false,
        List.append_nil]
      exact h.sent
    entered := by
      simp only [State.executeLocal, List.map_append, ← List.append_assoc, ← h.entered]
      rfl
    live := fun _ => ⟨by
      change s.channel.waker.toNat + s.phase.due (s.tasks ++ _) ≤ _
      simp only [hdue, State.executeLocal, Channel.cloneSender, State.queued,
        List.length_append, List.length_singleton] at hlive ⊢
      omega, htold⟩
    dead := fun hzero => absurd hzero (Nat.succ_ne_zero _)
    waking := fun hw => absurd (h.waking hw) hcnt.ne'
    ready := fun c hc => .inl (by simp [State.executeLocal]) }

/-! ## The calls -/

theorem Inv.call (h : Inv me s) (hphase : s.phase = .idle) (c : Call) :
    Inv me { s with phase := .polling c, count := 0 } := by
  have hlive := h.live
  have hdead := h.dead
  have hwoken := h.woken
  simp only [hphase, Phase.drains, Phase.due] at hlive hdead hwoken
  exact { h with
    receiver := fun _ => h.receiver (by simp [hphase])
    woken := hwoken
    live := hlive
    dead := hdead
    exited := fun he => nomatch he
    ready := fun c hc => nomatch hc
    count := fun block => ⟨fun _ => rfl, fun hc => nomatch hc⟩ }

theorem Inv.poll (h : Inv me s) {c : Call} (hphase : s.phase = .polling c)
    (hs : poll s c = some t) : Inv me t := by
  have hcount := h.count
  have hlive := h.live
  have hdead := h.dead
  simp only [hphase, Phase.drains, Phase.due] at hcount hlive hdead
  simp only [Worker.poll] at hs
  split at hs
  next hwaker =>
    obtain rfl := Option.some.inj hs
    simp only [hwaker, Bool.toNat_true] at hlive hdead
    exact { h with
      receiver := fun _ => h.receiver (by simp [hphase])
      woken := fun _ => .inr rfl
      live := fun hpos => ⟨by
        have := (hlive hpos).1
        simp only [State.queued, Phase.due, Bool.toNat_false] at this ⊢
        omega, (hlive hpos).2⟩
      dead := fun hzero => by
        have := hdead hzero
        change s.mutex.wakes + false.toNat + (Phase.draining c).drains + s.told.toNat = 1
        simp only [Phase.drains, Bool.toNat_false]
        omega
      exited := fun he => nomatch he
      ready := fun c hc => nomatch hc
      count := fun block => ⟨fun hc => (hcount block).1 (.inl (by simpa using hc)),
        fun hc => nomatch hc⟩ }
  next hwaker =>
    simp only [Option.ite_none_left_eq_some, Option.some.injEq] at hs
    obtain ⟨hblocks, rfl⟩ := hs
    rw [Bool.not_eq_true] at hwaker
    have hwoken := h.woken
    simp only [hphase, hwaker, Phase.drains, Bool.false_eq_true, Nat.zero_ne_one, or_self]
      at hwoken
    exact { h with
      receiver := fun _ => h.receiver (by simp [hphase])
      woken := fun hq => absurd hq hwoken
      live := fun hpos => ⟨by
        simp only [hwaker, State.queued, Phase.due, Bool.toNat_false]
        omega, (hlive hpos).2⟩
      dead := fun hzero => hdead hzero
      exited := fun he => nomatch he
      ready := fun c' hc => by
        obtain rfl : c = c' := by simpa using hc
        cases c with
        | run => exact .inl fun (hnil : s.tasks = []) => hblocks (by simp [Call.blocks, hnil])
        | runOne block =>
            cases block with
            | false => exact .inr rfl
            | true => exact .inl fun (hnil : s.tasks = []) => hblocks (by simp [Call.blocks, hnil])
      count := fun block => ⟨fun hc => (hcount block).1 (.inl (by simpa using hc)),
        fun hc => nomatch hc⟩ }

/-- **A call ends** with result `r`: there is nothing left that it was bound to do, and it reports
the last notice if it was the one to take it. -/
theorem Inv.leave (h : Inv me s) {c : Call} {o : Outcome} {r : Result}
    (hr : ⟨c, o, s.count⟩ = r)
    (hpast : s.phase.drains = 1 → s.channel.queue = [] ∧ s.mutex.sends = [])
    (hlive : s.phase ≠ .exited)
    (htold : s.phase.drains + s.told.toNat = (s.told || r.disconnected).toNat)
    (hcnt : r.disconnected → s.channel.cnt_sender = 0)
    (hexit : c = .run → r.disconnected) (hresult : r.Faithful ∨ r = .failed) :
    Inv me (s.leave c o) := by
  have htold' : (s.results ++ [r]).any Result.disconnected = (s.told || r.disconnected) := by
    simp [State.told]
  have hwoken : s.channel.queue ≠ [] ∨ s.mutex.sends ≠ [] → s.channel.waker = true := fun hq =>
    (h.woken hq).resolve_right fun hdrains => by simp [hpast hdrains] at hq
  have hquiet : 0 < s.channel.cnt_sender → s.channel.waker.toNat + 0 ≤ s.queued ∧
      (s.results ++ [r]).any Result.disconnected = false := fun hpos => by
    obtain ⟨hle, hfalse⟩ := h.live hpos
    refine ⟨by omega, ?_⟩
    rw [htold', hfalse, Bool.false_or]
    exact Bool.eq_false_iff.mpr fun hd => absurd (hcnt hd) hpos.ne'
  have hdead : s.channel.cnt_sender = 0 → s.mutex.wakes + s.channel.waker.toNat + 0 +
      ((s.results ++ [r]).any Result.disconnected).toNat = 1 := fun hzero => by
    have := h.dead hzero
    rw [htold']
    omega
  have hresults : ∀ r' ∈ s.results ++ [r], r'.Faithful ∨ r' = .failed := fun r' hr' =>
    (List.mem_append.mp hr').elim (h.results r') fun hr' => List.mem_singleton.mp hr' ▸ hresult
  subst hr
  cases c with
  | run =>
      exact { h with
        receiver := fun he => absurd rfl he
        woken := fun hq => .inl (hwoken hq)
        live := hquiet
        dead := hdead
        exited := fun _ => by
          change (s.results ++ [_]).any Result.disconnected = true
          rw [htold', hexit rfl, Bool.or_true]
        ready := fun c hc => nomatch hc
        count := fun block => ⟨fun hc => by simp [State.leave] at hc, fun hc => nomatch hc⟩
        results := hresults }
  | runOne block =>
      exact { h with
        receiver := fun _ => h.receiver hlive
        woken := fun hq => .inl (hwoken hq)
        live := hquiet
        dead := hdead
        exited := fun he => nomatch he
        ready := fun c hc => nomatch hc
        count := fun block => ⟨fun hc => by simp [State.leave] at hc, fun hc => nomatch hc⟩
        results := hresults }

/-- A task enters the local queue. -/
theorem Inv.receive (h : Inv me s) {c : Call} (hphase : s.phase = .draining c)
    (hfree : s.mutex = .free) {task : Task} {queue : List Task}
    (hqueue : s.channel.queue = task :: queue) :
    Inv me { s with
      channel := { s.channel with queue := queue }
      tasks := s.tasks ++ [task]
      entered := s.entered ++ [task.id] } := by
  have hlive := h.live
  have hsenders := h.senders
  simp only [hphase, Phase.due] at hlive
  simp only [State.queued, hfree, Section.sends, List.length_nil, hqueue, List.length_cons]
    at hlive hsenders
  have hcnt : 0 < s.channel.cnt_sender := by omega
  have hsent := h.sent
  rw [hqueue, List.map_cons] at hsent
  have hmem : task.id ∈ s.sent := by
    rw [hsent]
    simp
  have hplaces : ((s.sending ++ s.mutex.sends ++ queue).map Task.id ++
      (s.entered ++ [task.id])).Perm s.places := by
    simp only [State.places, hqueue, List.map_append, List.map_cons, List.append_assoc]
    refine (List.Perm.append_left _ (List.Perm.append_left _ ?_))
    rw [← List.append_assoc]
    exact List.perm_append_singleton _ _
  exact { h with
    senders := by
      simp only [State.queued, hfree, Section.sends, List.length_append,
        List.length_singleton, List.length_nil]
      omega
    receiver := fun _ => h.receiver (by simp [hphase])
    nodup := (h.of_perm hplaces).1
    fresh := (h.of_perm hplaces).2
    mine := fun x hx => h.mine x <| by
      simp only [hqueue, List.mem_append, List.mem_cons] at hx ⊢
      tauto
    sent := by
      change s.sent = (s.entered ++ [task.id]).filter (fun id => id ∈ s.sent) ++
        queue.map Task.id
      rw [List.filter_append, List.filter_singleton, decide_eq_true hmem, cond_true,
        List.append_assoc, List.singleton_append]
      exact hsent
    entered := by
      simp only [List.map_append, ← List.append_assoc, ← h.entered]
      rfl
    woken := fun _ => .inr (by simp only [hphase, Phase.drains])
    live := fun hpos => ⟨by
      have := (hlive hpos).1
      simp only [State.queued, hphase, hfree, Section.sends, Phase.due, List.length_append,
        List.length_singleton, List.length_nil]
      omega, (hlive hpos).2⟩
    dead := fun hzero => absurd hzero hcnt.ne'
    ready := fun c hc => absurd (hphase.symm.trans hc) (by simp) }

/-- Nothing has come with the wake-up, and nothing is left to run: the last sender is gone, and this
is the call that reports it. -/
theorem Inv.disconnect (h : Inv me s) {c : Call} (hphase : s.phase = .draining c)
    (hfree : s.mutex = .free) (hqueue : s.channel.queue = []) (hnil : s.tasks = []) :
    Inv me (Worker.tryRecv s c) := by
  have hcount := h.count
  have hlive := h.live
  simp only [hphase, Phase.due] at hcount hlive
  simp only [State.queued, hfree, Section.sends, List.length_nil, hqueue, hnil] at hlive
  have hzero : s.channel.cnt_sender = 0 := by
    by_contra hne
    have := (hlive (Nat.pos_of_ne_zero hne)).1
    omega
  have hdrained : s.phase.drains = 1 → s.channel.queue = [] ∧ s.mutex.sends = [] :=
    fun _ => ⟨hqueue, by rw [hfree]; rfl⟩
  have hdead := h.dead hzero
  simp only [hphase, Phase.drains] at hdead
  have htold : s.told = false := by
    cases hs : s.told <;> simp [hs] at hdead ⊢
  simp only [Worker.tryRecv, Channel.tryPop, hqueue, hnil, hzero, List.isEmpty_nil, if_true]
  cases c with
  | run =>
      exact h.leave rfl hdrained (by simp [hphase])
        (by rw [htold, hphase]; rfl) (fun _ => hzero) (fun _ => rfl) (.inl trivial)
  | runOne block =>
      have hnone := (hcount block).1 (.inr (.inl rfl))
      exact h.leave rfl hdrained (by simp [hphase])
        (by rw [htold, hphase]; rfl) (fun _ => hzero) (fun hc => nomatch hc) (.inl hnone)

/-- All that came with the wake-up is in the local queue. -/
theorem Inv.emptied (h : Inv me s) {c : Call} (hphase : s.phase = .draining c)
    (hfree : s.mutex = .free) (hqueue : s.channel.queue = []) (hne : s.tasks ≠ []) :
    Inv me { s with phase := .ready c } := by
  have hcount := h.count
  have hlive := h.live
  have hsenders := h.senders
  simp only [hphase, Phase.due] at hcount hlive
  simp only [State.queued, hfree, Section.sends, List.length_nil, hqueue] at hlive hsenders
  have hpos : 0 < s.tasks.length := List.length_pos_iff.mpr hne
  exact { h with
    receiver := fun _ => h.receiver (by simp [hphase])
    woken := fun hq => by simp [hqueue, hfree, Section.sends] at hq
    live := fun hcnt => ⟨by
      have := (hlive hcnt).1
      simp only [State.queued, hfree, hqueue, Section.sends, Phase.due, List.length_nil]
      omega, (hlive hcnt).2⟩
    dead := fun hzero => absurd hzero (by simp only; omega)
    exited := fun he => nomatch he
    ready := fun _ _ => .inl hne
    count := fun block => ⟨fun hc => (hcount block).1 (.inr (.inl (by simpa using hc))),
      fun hc => nomatch hc⟩ }

theorem Inv.tryRecv (h : Inv me s) {c : Call} (hphase : s.phase = .draining c)
    (hfree : s.mutex = .free) : Inv me (tryRecv s c) := by
  cases hqueue : s.channel.queue with
  | cons task queue =>
      simp only [Worker.tryRecv, Channel.tryPop, hqueue]
      exact h.receive hphase hfree hqueue
  | nil =>
      by_cases hnil : s.tasks = []
      · exact h.disconnect hphase hfree hqueue hnil
      · simp only [Worker.tryRecv, Channel.tryPop, hqueue, List.isEmpty_eq_false_iff.mpr hnil,
          Bool.false_eq_true, if_false]
        exact h.emptied hphase hfree hqueue hnil

theorem Inv.runOneTask (h : Inv me s) {c : Call} (hphase : s.phase = .ready c) :
    Inv me (runOneTask me s c) := by
  have hcount := h.count
  have hlive := h.live
  have hsenders := h.senders
  simp only [hphase, Phase.due] at hcount hlive
  cases htasks : s.tasks with
  | cons task tasks =>
      simp only [State.queued, htasks, List.length_cons] at hlive hsenders
      have hcnt : 0 < s.channel.cnt_sender := by omega
      have hmine : task.thread_id = me := h.mine task (by simp [htasks])
      simp only [Worker.runOneTask, htasks, if_pos hmine]
      exact { h with
        senders := by
          simp only [State.queued]
          omega
        receiver := fun _ => h.receiver (by simp [hphase])
        mine := fun x hx => h.mine x <| by
          simp only [htasks, List.mem_append, List.mem_cons] at hx ⊢
          tauto
        entered := by
          simpa only [htasks, List.map_cons, List.append_assoc, List.singleton_append]
            using h.entered
        woken := fun hq => .inl <| (h.woken hq).resolve_right (by simp [hphase, Phase.drains])
        live := fun hpos => ⟨by
          have := (hlive hpos).1
          simp only [State.queued, Phase.due]
          omega, (hlive hpos).2⟩
        dead := fun hzero => absurd hzero hcnt.ne'
        exited := fun he => nomatch he
        ready := fun c hc => nomatch hc
        count := fun block => ⟨fun hc => by simp at hc, fun hc => by
          have := (hcount block).1 (.inr (.inr (by simpa using hc)))
          simp only [this]⟩ }
  | nil =>
      obtain rfl := (h.ready c hphase).resolve_left (by simp [htasks])
      have hnone := (hcount false).1 (.inr (.inr rfl))
      simp only [Worker.runOneTask, htasks]
      refine h.leave (r := .failed) (by rw [hnone]; rfl) (fun hd => ?_) (by simp [hphase])
        (by simp [hphase, Phase.drains, Result.failed, Result.disconnected]) (fun hd => ?_)
        (fun hc => nomatch hc) (.inr rfl)
      · simp [hphase, Phase.drains] at hd
      · simp [Result.failed, Result.disconnected] at hd

theorem Inv.finish (h : Inv me s) {c : Call} (hphase : s.phase = .running c) :
    Inv me (finish s c) := by
  cases c with
  | run =>
      have hlive := h.live
      have hdead := h.dead
      have hwoken := h.woken
      simp only [hphase, Phase.drains, Phase.due] at hlive hdead hwoken
      exact { h with
        receiver := fun _ => h.receiver (by simp [hphase])
        woken := hwoken
        live := hlive
        dead := hdead
        exited := fun he => nomatch he
        ready := fun c hc => nomatch hc
        count := fun block => ⟨fun hc => by simp [Worker.finish] at hc, fun hc => nomatch hc⟩ }
  | runOne block =>
      have hone := (h.count block).2 hphase
      refine h.leave (c := .runOne block) (o := .ran true) rfl (fun hd => ?_)
        (by simp [hphase]) (by simp [hphase, Phase.drains, Result.disconnected]) (fun hd => ?_)
        (fun hc => nomatch hc) (.inl hone)
      · simp [hphase, Phase.drains] at hd
      · simp [Result.disconnected] at hd

/-! ## Every step -/

theorem Inv.step {l : Label} (h : Inv me s) (hs : step me s l = some t) : Inv me t := by
  cases l with
  | clone =>
      simp only [Worker.step, Option.ite_none_right_eq_some, Option.some.injEq] at hs
      obtain ⟨⟨-, hpos⟩, rfl⟩ := hs
      exact h.clone hpos
  | drop =>
      simp only [Worker.step, Option.ite_none_right_eq_some, Option.some.injEq] at hs
      obtain ⟨⟨hfree, hpos⟩, rfl⟩ := hs
      exact h.drop hfree hpos
  | wake =>
      simp only [Worker.step, Option.ite_none_right_eq_some, Option.some.injEq] at hs
      obtain ⟨hw, rfl⟩ := hs
      exact h.wake hw
  | execute =>
      simp only [Worker.step, Option.ite_none_right_eq_some, Option.some.injEq] at hs
      obtain ⟨⟨-, hpos⟩, rfl⟩ := hs
      exact h.execute hpos
  | send i =>
      simp only [Worker.step, Option.ite_none_right_eq_some, Option.map_eq_some_iff] at hs
      obtain ⟨hfree, task, hi, rfl⟩ := hs
      exact h.send hfree hi
  | push =>
      simp only [Worker.step] at hs
      split at hs
      next task hmutex => exact Option.some.inj hs ▸ h.push hmutex
      next => cases hs
  | executeLocal =>
      simp only [Worker.step] at hs
      split at hs
      next hphase =>
        simp only [Option.ite_none_right_eq_some, Option.some.injEq] at hs
        obtain ⟨⟨-, hpos⟩, rfl⟩ := hs
        exact h.executeLocal hpos (.inl hphase)
      next c hphase =>
        simp only [Option.ite_none_right_eq_some, Option.some.injEq] at hs
        obtain ⟨⟨-, hpos⟩, rfl⟩ := hs
        exact h.executeLocal hpos (.inr ⟨c, hphase⟩)
      next => cases hs
  | call c =>
      simp only [Worker.step, Option.ite_none_right_eq_some, Option.some.injEq] at hs
      obtain ⟨hphase, rfl⟩ := hs
      exact h.call hphase c
  | poll =>
      simp only [Worker.step] at hs
      split at hs
      next c hphase => exact h.poll hphase hs
      next => cases hs
  | tryRecv =>
      simp only [Worker.step] at hs
      split at hs
      next c hphase =>
        simp only [Option.ite_none_right_eq_some, Option.some.injEq] at hs
        obtain ⟨hfree, rfl⟩ := hs
        exact h.tryRecv hphase hfree
      next => cases hs
  | runOneTask =>
      simp only [Worker.step] at hs
      split at hs
      next c hphase => exact Option.some.inj hs ▸ h.runOneTask hphase
      next => cases hs
  | finish =>
      simp only [Worker.step] at hs
      split at hs
      next c hphase => exact Option.some.inj hs ▸ h.finish hphase
      next => cases hs

/-- **The invariant of every run.** -/
theorem Inv.inductive (me : ℕ) (origin : Origin) :
    (machine me origin).Inductive (fun _ _ => True) (Inv me) where
  init := by
    cases origin <;>
      constructor <;>
      simp [machine, Worker.fresh, Channel.new, State.queued, State.places, State.told,
        Section.sends, Section.wakes, Phase.drains, Phase.due]
  step _ _ _ h _ hs := h.step hs

end Step

end SendersReceivers.Worker
