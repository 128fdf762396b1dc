import Mathlib.Data.List.Nodup
import SendersReceivers.Worker.Abandon

/-!
# Worker/Stranded — which tasks a dead worker strands

Every sender is counted: it is a handle outside of the queues, or a queued task has it.  So a
channel that is left with a task in it that has a sender of this very channel is never destroyed,
and neither is the task.

    channel ──queue──▸ task ──xtc_sender──▸ channel
    stc     ──queue──▸ task ──ThreadLocalPool──▸ stc
-/

namespace SendersReceivers.Abandon

open Machinery Pool

variable {s s' : State} {l : Label} {t : Task}

/-! ## The senders are counted, and the tasks are somewhere -/

/-- The senders of the cross-thread channel that a task has. -/
def Task.senders (t : Task) : ℕ := 1 + t.cross + t.pools

/-- The worker's own `stc_sender`. -/
def Phase.stcSender : Phase → ℕ
  | .droppingRecv | .droppingCross | .gone => 0
  | _ => 1

/-- Whether the worker has its `stc_recv`. -/
def Phase.stcRecv : Phase → Bool
  | .droppingCross | .gone => false
  | _ => true

/-- Where the accepted tasks are. -/
def State.places (s : State) : List ℕ :=
  s.channel.queue.map Task.id ++ s.stc.queue.map Task.id ++ s.ran ++ s.destroyed

/-- **The invariant.** -/
structure Inv (s : State) : Prop where
  senders : s.channel.cnt_sender = s.cross + s.pools + weight Task.senders s.channel.queue +
    weight Task.senders s.stc.queue
  stcSenders : s.stc.cnt_sender = s.pools + weight Task.pools s.stc.queue + s.phase.stcSender
  receiver : s.channel.has_receiver = !decide (s.phase = .gone)
  stcReceiver : s.stc.has_receiver = s.phase.stcRecv
  send : ∀ t ∈ s.channel.queue, t.pools = 0
  places : s.places.Perm s.accepted
  nodup : s.accepted.Nodup
  fresh : ∀ n ∈ s.accepted, n < s.next

/-- What a dropped sender leaves of the channel. -/
theorem State.dropSender_eq (h : 0 < s.channel.cnt_sender) : ∃ waker, s.dropSender = { s with
    channel := { s.channel with cnt_sender := s.channel.cnt_sender - 1, waker := waker } } := by
  rw [dropSender, Channel.dropSender, if_neg h.ne']
  by_cases hlast : s.channel.cnt_sender - 1 = 0
  · exact ⟨true, by simp [hlast, Channel.wake]⟩
  · exact ⟨s.channel.waker, by simp [hlast]⟩

theorem State.dropStcSender_eq (h : 0 < s.stc.cnt_sender) :
    s.dropStcSender = { s with stc := { s.stc with cnt_sender := s.stc.cnt_sender - 1 } } :=
  if_neg h.ne'

/-- The worker goes to a phase in which it has the same fields. -/
theorem Inv.goto (h : Inv s) {phase : Phase} (hsender : phase.stcSender = s.phase.stcSender)
    (hrecv : phase.stcRecv = s.phase.stcRecv) (hgone : phase = .gone ↔ s.phase = .gone) {panics} :
    Inv { s with phase := phase, panics := panics } :=
  { h with
    stcSenders := by simpa [hsender] using h.stcSenders
    receiver := by simpa [hgone] using h.receiver
    stcReceiver := by simpa [hrecv] using h.stcReceiver }

theorem Phase.of_stcSender {phase : Phase} (h : phase.stcSender = 1) :
    phase.stcRecv = true ∧ phase ≠ .gone := by
  cases phase <;> first | exact ⟨rfl, nofun⟩ | exact absurd h Nat.zero_ne_one

/-- The worker goes on, with all its fields. -/
theorem Inv.alive (h : Inv s) {phase : Phase} {panics : List String}
    (hold : s.phase.stcSender = 1) (hnew : phase.stcSender = 1) :
    Inv { s with phase := phase, panics := panics } := by
  obtain ⟨hrecv, hgone⟩ := Phase.of_stcSender hold
  obtain ⟨hrecv', hgone'⟩ := Phase.of_stcSender hnew
  exact h.goto (hnew.trans hold.symm) (hrecv'.trans hrecv.symm) (iff_of_false hgone' hgone)

/-- A new task is accepted. -/
theorem Inv.accept (h : Inv s) {channel : Channel Task} {stc : Sync.SameThread.Channel Task}
    {cross pools : ℕ}
    (hsenders : channel.cnt_sender = cross + pools + weight Task.senders channel.queue +
      weight Task.senders stc.queue)
    (hstc : stc.cnt_sender = pools + weight Task.pools stc.queue + s.phase.stcSender)
    (hreceiver : channel.has_receiver = s.channel.has_receiver)
    (hstcReceiver : stc.has_receiver = s.stc.has_receiver)
    (hsend : ∀ t ∈ channel.queue, t.pools = 0)
    (hplaces : (channel.queue.map Task.id ++ stc.queue.map Task.id).Perm
      (s.next :: (s.channel.queue.map Task.id ++ s.stc.queue.map Task.id))) :
    Inv { s with
      channel := channel
      stc := stc
      cross := cross
      pools := pools
      next := s.next + 1
      accepted := s.accepted ++ [s.next] } where
  senders := hsenders
  stcSenders := hstc
  receiver := hreceiver.trans h.receiver
  stcReceiver := hstcReceiver.trans h.stcReceiver
  send := hsend
  places := by
    have hperm := ((hplaces.append_right s.ran).append_right s.destroyed)
    refine hperm.trans ((h.places.cons s.next).trans ?_)
    exact (List.perm_append_singleton _ _).symm
  nodup := by
    refine List.nodup_append.mpr ⟨h.nodup, List.nodup_singleton _, fun n hn m hm => ?_⟩
    obtain rfl := List.mem_singleton.mp hm
    exact (h.fresh n hn).ne
  fresh n hn := by
    obtain hn | hn := List.mem_append.mp hn
    · exact Nat.lt_succ_of_lt (h.fresh n hn)
    · exact Nat.lt_succ_of_le (List.mem_singleton.mp hn).le

/-- Handles and tasks move. -/
theorem Inv.move (h : Inv s) {channel : Channel Task} {stc : Sync.SameThread.Channel Task}
    {phase : Phase} {cross pools : ℕ} {ran destroyed : List ℕ} {panics : List String}
    (hsenders : channel.cnt_sender = cross + pools + weight Task.senders channel.queue +
      weight Task.senders stc.queue)
    (hstc : stc.cnt_sender = pools + weight Task.pools stc.queue + phase.stcSender)
    (hreceiver : channel.has_receiver = !decide (phase = .gone))
    (hstcReceiver : stc.has_receiver = phase.stcRecv)
    (hsend : ∀ t ∈ channel.queue, t.pools = 0)
    (hplaces : (channel.queue.map Task.id ++ stc.queue.map Task.id ++ ran ++ destroyed).Perm
      s.places) :
    Inv { s with
      channel := channel
      stc := stc
      phase := phase
      cross := cross
      pools := pools
      ran := ran
      destroyed := destroyed
      panics := panics } :=
  ⟨hsenders, hstc, hreceiver, hstcReceiver, hsend, hplaces.trans h.places, h.nodup, h.fresh⟩

@[simp] theorem stcSender_unwound (c : Call) : c.unwound.stcSender = 1 := by cases c <;> rfl

@[simp] theorem stcSender_finished (c : Call) : c.finished.stcSender = 1 := by cases c <;> rfl

@[simp] theorem stcSender_taskless (c : Call) (error : TryRecvError) :
    (c.taskless error).stcSender = 1 := by
  cases c <;> cases error <;> rfl

@[simp, grind =] theorem stcRecv_unwound (c : Call) : c.unwound.stcRecv = true := by cases c <;> rfl

@[simp, grind =] theorem stcRecv_finished (c : Call) : c.finished.stcRecv = true := by
  cases c <;> rfl

@[simp, grind =] theorem stcRecv_taskless (c : Call) (error : TryRecvError) :
    (c.taskless error).stcRecv = true := by
  cases c <;> cases error <;> rfl

@[simp, grind .] theorem unwound_ne_gone (c : Call) : c.unwound ≠ .gone := by
  cases c <;> simp [Call.unwound]

@[simp, grind .] theorem finished_ne_gone (c : Call) : c.finished ≠ .gone := by
  cases c <;> simp [Call.finished]

@[simp, grind .] theorem taskless_ne_gone (c : Call) (error : TryRecvError) :
    c.taskless error ≠ .gone := by
  cases c <;> cases error <;> simp [Call.taskless]

/-- A task is destroyed that was just taken out of one of the queues. -/
theorem Inv.destroy (h : Inv s) {channel : Channel Task} {stc : Sync.SameThread.Channel Task}
    (hcount : weight Task.senders channel.queue + weight Task.senders stc.queue + t.senders =
      weight Task.senders s.channel.queue + weight Task.senders s.stc.queue)
    (hpools : weight Task.pools stc.queue + t.pools = weight Task.pools s.stc.queue)
    (hchannel : channel.cnt_sender = s.channel.cnt_sender)
    (hstc : stc.cnt_sender = s.stc.cnt_sender)
    (hreceiver : channel.has_receiver = s.channel.has_receiver)
    (hstcReceiver : stc.has_receiver = s.stc.has_receiver)
    (hsend : ∀ t ∈ channel.queue, t.pools = 0)
    (hplaces : (t.id :: (channel.queue.map Task.id ++ stc.queue.map Task.id)).Perm
      (s.channel.queue.map Task.id ++ s.stc.queue.map Task.id)) :
    Inv ({ s with channel := channel, stc := stc }.destroy t) := by
  have hsenders := h.senders
  have hstcSenders := h.stcSenders
  simp only [Task.senders] at hcount
  obtain ⟨waker, heq⟩ := State.dropSender_eq
    (s := { s with
      channel := channel
      stc := stc
      cross := s.cross + t.cross
      pools := s.pools + t.pools
      destroyed := s.destroyed ++ [t.id] }) (by simp only [hchannel]; omega)
  rw [State.destroy, heq]
  refine h.move ?_ ?_ (hreceiver.trans h.receiver) (hstcReceiver.trans h.stcReceiver) hsend ?_
  · simp only [hchannel]
    omega
  · simp only
    omega
  · refine List.perm_iff_count.mpr fun n => ?_
    have := List.perm_iff_count.mp hplaces n
    simp only [State.places, List.count_append, List.count_cons, List.count_nil] at this ⊢
    omega

/-- A task in the cross-thread queue has a sender, so nothing is destroyed there. -/
theorem Inv.destroyCross_eq_none (h : Inv s) : Abandon.step s .destroyCross = none := by
  have hsenders := h.senders
  refine ite_eq_right_iff.mpr fun ⟨_, hzero⟩ => ?_
  rcases hqueue : s.channel.queue with _ | ⟨task, queue⟩
  · rfl
  · rw [hqueue, weight_cons, Task.senders] at hsenders
    omega

section Handles

variable (h : Inv s)

include h

theorem Inv.cloneCross :
    Inv { s with cross := s.cross + 1, channel := s.channel.cloneSender } := by
  have hsenders := h.senders
  refine h.move ?_ h.stcSenders h.receiver h.stcReceiver h.send (.refl _)
  simp only [Channel.cloneSender]
  omega

theorem Inv.dropCross (hpos : 0 < s.cross) : Inv { s with cross := s.cross - 1 }.dropSender := by
  have hsenders := h.senders
  obtain ⟨waker, heq⟩ := State.dropSender_eq (s := { s with cross := s.cross - 1 })
    (by simp only; omega)
  rw [heq]
  refine h.move ?_ h.stcSenders h.receiver h.stcReceiver h.send (.refl _)
  simp only
  omega

theorem Inv.clonePool :
    Inv { s with
      pools := s.pools + 1
      stc := { s.stc with cnt_sender := s.stc.cnt_sender + 1 }
      channel := s.channel.cloneSender } := by
  have hsenders := h.senders
  have hstc := h.stcSenders
  refine h.move ?_ ?_ h.receiver h.stcReceiver h.send (.refl _)
  · simp only [Channel.cloneSender]
    omega
  · simp only
    omega

theorem Inv.dropPool (hpos : 0 < s.pools) :
    Inv { s with pools := s.pools - 1 }.dropStcSender.dropSender := by
  have hsenders := h.senders
  have hstc := h.stcSenders
  rw [State.dropStcSender_eq (s := { s with pools := s.pools - 1 }) (by simp only; omega)]
  obtain ⟨waker, heq⟩ := State.dropSender_eq
    (s := { s with
      pools := s.pools - 1, stc := { s.stc with cnt_sender := s.stc.cnt_sender - 1 } })
    (by simp only; omega)
  rw [heq]
  refine h.move ?_ ?_ h.receiver h.stcReceiver h.send (.refl _) <;> simp only <;> omega

theorem Inv.convert (hpos : 0 < s.pools) :
    Inv { s with pools := s.pools - 1, cross := s.cross + 1 }.dropStcSender := by
  have hsenders := h.senders
  have hstc := h.stcSenders
  rw [State.dropStcSender_eq (s := { s with pools := s.pools - 1, cross := s.cross + 1 })
    (by simp only; omega)]
  refine h.move ?_ ?_ h.receiver h.stcReceiver h.send (.refl _) <;> simp only <;> omega

end Handles

/-- Whatever it owns, a task stays where it is. -/
theorem map_id_set {queue : List Task} {i cross pools : ℕ} {task : Task}
    (hi : queue[i]? = some task) :
    (queue.set i ⟨task.id, cross, pools⟩).map Task.id = queue.map Task.id := by
  have hget : (queue.map Task.id)[i]? = some task.id := by rw [List.getElem?_map, hi]; rfl
  obtain ⟨hlt, heq⟩ := List.getElem?_eq_some_iff.mp hget
  rw [List.map_set, ← heq, List.set_getElem_self]

section Tasks

variable {task : Task} {queue : List Task} (h : Inv s)

include h

theorem Inv.execute {cross : ℕ} (hlt : cross < s.cross) : Inv (s.execute cross) := by
  have hsenders := h.senders
  unfold State.execute
  split_ifs with hrecv
  · refine h.accept ?_ h.stcSenders rfl rfl ?_ ?_
    · simp only [Channel.cloneSender, Channel.wake, weight_append, weight_cons, weight_nil,
        Task.senders]
      omega
    · intro t ht
      obtain ht | ht := List.mem_append.mp ht
      · exact h.send t ht
      · rw [List.mem_singleton.mp ht]
    · simp only [List.map_append, List.map_cons, List.map_nil, List.append_assoc]
      exact List.perm_middle
  · exact h.goto rfl rfl .rfl

theorem Inv.executeLocal {cross pools : ℕ} (hcross : cross ≤ s.cross) (hpools : pools < s.pools) :
    Inv (s.executeLocal cross pools) := by
  have hsenders := h.senders
  have hstc := h.stcSenders
  unfold State.executeLocal
  split_ifs with hrecv
  · refine h.accept ?_ ?_ rfl rfl h.send ?_
    · simp only [Channel.cloneSender, weight_append, weight_cons, weight_nil, Task.senders]
      omega
    · simp only [weight_append, weight_cons, weight_nil]
      omega
    · simp only [List.map_append, List.map_cons, List.map_nil, Channel.cloneSender]
      rw [← List.append_assoc]
      exact List.perm_append_singleton _ _
  · exact h.goto rfl rfl .rfl

/-- A task goes from one queue to the other. -/
theorem Inv.received (hqueue : s.channel.queue = task :: queue) :
    Inv { s with
      channel := { s.channel with queue := queue }
      stc := { s.stc with queue := s.stc.queue ++ [task] } } := by
  have hsenders := h.senders
  have hstc := h.stcSenders
  have hpools : task.pools = 0 := h.send task (by simp [hqueue])
  rw [hqueue, weight_cons] at hsenders
  refine h.move ?_ ?_ h.receiver h.stcReceiver (fun t ht => ?_) ?_
  · simp only [weight_append, weight_cons, weight_nil]
    omega
  · simp only [weight_append, weight_cons, weight_nil]
    omega
  · exact h.send t (by simp [hqueue, ht])
  · simp only [State.places, hqueue, List.map_append, List.map_cons, List.map_nil]
    refine (List.Perm.append_right _ ?_).append_right _
    rw [← List.append_assoc]
    exact List.perm_append_singleton _ _

/-- A task is run, with what it owns. -/
theorem Inv.runs {c : Call} (hphase : s.phase = .ready c) (hqueue : s.stc.queue = task :: queue) :
    Inv { s with
      stc := { s.stc with queue := queue, cnt_sender := s.stc.cnt_sender + 1 }
      phase := .running c
      cross := s.cross + task.cross
      pools := s.pools + task.pools + 1
      ran := s.ran ++ [task.id] } := by
  have hsenders := h.senders
  have hstc := h.stcSenders
  rw [hqueue, weight_cons] at hsenders hstc
  simp only [Task.senders] at hsenders
  refine h.move ?_ ?_ (by simpa [hphase] using h.receiver)
    (by simpa [hphase, Phase.stcRecv] using h.stcReceiver) h.send ?_
  · simp only
    omega
  · simp only [hphase, Phase.stcSender] at hstc ⊢
    omega
  · refine List.perm_iff_count.mpr fun n => ?_
    simp only [State.places, hqueue, List.map_cons, List.count_append, List.count_cons,
      List.count_nil]
    omega

theorem Inv.destroyLocal (hqueue : s.stc.queue = task :: queue) :
    Inv ({ s with stc := { s.stc with queue := queue } }.destroy task) := by
  refine h.destroy ?_ ?_ rfl rfl rfl rfl h.send ?_
  · simp only [hqueue, weight_cons]
    omega
  · simp only [hqueue, weight_cons]
    omega
  · simp only [hqueue, List.map_cons]
    exact List.perm_middle.symm

theorem Inv.shareSent {i cross : ℕ} (hi : s.channel.queue[i]? = some task)
    (hle : cross ≤ s.cross + task.cross) : Inv (s.shareSent i task cross) := by
  have hsenders := h.senders
  have hmem := List.mem_of_getElem? hi
  have hset := weight_set Task.senders hi { task with cross := cross }
  simp only [Task.senders] at hset
  refine h.move ?_ h.stcSenders h.receiver h.stcReceiver (fun t ht => ?_) ?_
  · simp only
    omega
  · obtain ht | rfl := List.mem_or_eq_of_mem_set ht
    · exact h.send t ht
    · exact h.send task hmem
  · simp only [State.places]
    rw [map_id_set hi]

theorem Inv.share {i cross pools : ℕ} (hi : s.stc.queue[i]? = some task)
    (hcross : cross ≤ s.cross + task.cross) (hpools : pools ≤ s.pools + task.pools) :
    Inv (s.share i task cross pools) := by
  have hsenders := h.senders
  have hstc := h.stcSenders
  have hset := weight_set Task.senders hi { task with cross := cross, pools := pools }
  have hset' := weight_set Task.pools hi { task with cross := cross, pools := pools }
  simp only [Task.senders] at hset
  refine h.move ?_ ?_ h.receiver h.stcReceiver h.send ?_
  · simp only
    omega
  · simp only at hset' ⊢
    omega
  · simp only [State.places]
    rw [map_id_set hi]

end Tasks

/-- The worker drops one of its fields. -/
theorem Inv.dropField (h : Inv s) (hs : Abandon.step s .dropField = some s') : Inv s' := by
  have hsenders := h.senders
  have hstc := h.stcSenders
  simp only [Abandon.step] at hs
  split at hs
  next hphase =>
    have hone : Phase.stcSender .droppingSender = 1 := rfl
    rw [hphase, hone] at hstc
    rw [State.dropStcSender_eq (s := { s with phase := .droppingRecv }) (by simp only; omega),
      Option.some.injEq] at hs
    subst hs
    refine h.move hsenders ?_ (by simpa [hphase] using h.receiver)
      (by simpa [hphase, Phase.stcRecv] using h.stcReceiver) h.send (.refl _)
    simp only [Phase.stcSender]
    omega
  next hphase =>
    obtain rfl := Option.some.inj hs
    rw [hphase] at hstc
    exact h.move hsenders hstc (by simpa [hphase] using h.receiver) rfl h.send (.refl _)
  next hphase =>
    obtain rfl := Option.some.inj hs
    rw [hphase] at hstc
    exact h.move hsenders hstc rfl (by simpa [hphase, Phase.stcRecv] using h.stcReceiver) h.send
      (.refl _)
  next => cases hs

/-- **A step keeps the invariant.** -/
theorem Inv.step (h : Inv s) (hs : Abandon.step s l = some s') : Inv s' := by
  rcases eq_or_ne l .destroyCross with rfl | hl
  · simp [h.destroyCross_eq_none] at hs
  cases l <;> simp only [Abandon.step, Option.ite_none_right_eq_some, Option.some.injEq] at hs
  case cloneCross =>
    obtain ⟨-, rfl⟩ := hs
    exact h.cloneCross
  case dropCross =>
    obtain ⟨hpos, rfl⟩ := hs
    exact h.dropCross hpos
  case clonePool =>
    obtain ⟨-, rfl⟩ := hs
    exact h.clonePool
  case dropPool =>
    obtain ⟨hpos, rfl⟩ := hs
    exact h.dropPool hpos
  case convert =>
    obtain ⟨hpos, rfl⟩ := hs
    exact h.convert hpos
  case execute cross =>
    obtain ⟨hlt, rfl⟩ := hs
    exact h.execute hlt
  case executeLocal cross pools =>
    obtain ⟨⟨hcross, hpools⟩, rfl⟩ := hs
    exact h.executeLocal hcross hpools
  case shareSent i cross =>
    rcases hi : s.channel.queue[i]? with _ | task <;> rw [hi] at hs
    · cases hs
    · obtain ⟨hle, heq⟩ := Option.ite_none_right_eq_some.mp hs
      obtain rfl := Option.some.inj heq
      exact h.shareSent hi hle
  case share i cross pools =>
    rcases hi : s.stc.queue[i]? with _ | task <;> rw [hi] at hs
    · cases hs
    · obtain ⟨⟨hcross, hpools⟩, heq⟩ := Option.ite_none_right_eq_some.mp hs
      obtain rfl := Option.some.inj heq
      exact h.share hi hcross hpools
  case call c =>
    obtain ⟨hphase, rfl⟩ := hs
    exact h.alive (by rw [hphase]; rfl) rfl
  case poll =>
    split at hs
    next c hphase =>
      have hstc := h.stcSenders
      rw [hphase] at hstc
      split_ifs at hs <;> obtain rfl := Option.some.inj hs
      · exact h.move h.senders hstc (by simpa [hphase] using h.receiver)
          (by simpa [hphase, Phase.stcRecv] using h.stcReceiver) h.send (.refl _)
      · exact h.alive (by rw [hphase]; rfl) rfl
    next => cases hs
  case pollError =>
    split at hs
    next c hphase =>
      obtain rfl := Option.some.inj hs
      exact h.alive (by rw [hphase]; rfl) (stcSender_unwound c)
    next => cases hs
  case tryRecv =>
    split at hs
    next c hphase =>
      simp only [Channel.tryPop] at hs
      rcases hqueue : s.channel.queue with _ | ⟨task, queue⟩ <;> simp only [hqueue] at hs <;>
        obtain rfl := Option.some.inj hs
      · refine h.alive (by rw [hphase]; rfl) ?_
        split_ifs
        exacts [stcSender_taskless _ _, stcSender_taskless _ _, rfl]
      · exact h.received hqueue
    next => cases hs
  case runOneTask =>
    split at hs
    next c hphase =>
      rcases hqueue : s.stc.queue with _ | ⟨task, queue⟩ <;> simp only [hqueue] at hs <;>
        obtain rfl := Option.some.inj hs
      · exact h.alive (by rw [hphase]; rfl) (stcSender_unwound c)
      · exact h.runs hphase hqueue
    next => cases hs
  case finish =>
    split at hs
    next c hphase =>
      obtain rfl := Option.some.inj hs
      exact h.alive (by rw [hphase]; rfl) (stcSender_finished c)
    next => cases hs
  case panic =>
    split at hs
    next c hphase =>
      obtain rfl := Option.some.inj hs
      exact h.alive (by rw [hphase]; rfl) (stcSender_unwound c)
    next => cases hs
  case drop =>
    obtain ⟨hphase, rfl⟩ := hs
    exact h.alive (by rw [hphase]; rfl) rfl
  case dropField => exact h.dropField hs
  case destroyLocal =>
    rcases hqueue : s.stc.queue with _ | ⟨task, queue⟩
    · simp [hqueue] at hs
    · simp only [hqueue, Option.some.injEq] at hs
      obtain ⟨-, rfl⟩ := hs
      exact h.destroyLocal hqueue
  case destroyCross => exact absurd rfl hl

theorem Inv.inductive {C : State → Label → Prop} : machine.Inductive C Inv where
  init :=
    { senders := rfl
      stcSenders := rfl
      receiver := rfl
      stcReceiver := rfl
      send _ ht := absurd ht List.not_mem_nil
      places := .nil
      nodup := .nil
      fresh _ hn := absurd hn List.not_mem_nil }
  step _ _ _ h _ hs := h.step hs

/-! ## What a step does to a channel without a receiver -/

@[simp, grind =] theorem dropSender_phase : s.dropSender.phase = s.phase := by
  unfold State.dropSender; split <;> rfl

@[simp, grind =] theorem dropSender_stc : s.dropSender.stc = s.stc := by
  unfold State.dropSender; split <;> rfl

@[simp, grind =] theorem dropSender_queue : s.dropSender.channel.queue = s.channel.queue := by
  unfold State.dropSender Channel.dropSender
  split_ifs <;> simp only
  split_ifs <;> rfl

@[simp, grind =] theorem dropStcSender_phase : s.dropStcSender.phase = s.phase := by
  unfold State.dropStcSender; split_ifs <;> rfl

@[simp, grind =] theorem dropStcSender_channel : s.dropStcSender.channel = s.channel := by
  unfold State.dropStcSender; split_ifs <;> rfl

@[simp, grind =] theorem dropStcSender_queue : s.dropStcSender.stc.queue = s.stc.queue := by
  unfold State.dropStcSender; split_ifs <;> rfl

/-- **The cross-thread channel of a worker that is gone** neither gets a task nor loses one. -/
theorem Inv.queue_of_gone (h : Inv s) (hs : Abandon.step s l = some s') (hgone : s'.phase = .gone) :
    (s'.channel.queue = [] ↔ s.channel.queue = []) ∧
      (s.phase = .gone ∨ s.phase = .droppingCross ∧ l = .dropField) := by
  have hrecv := h.receiver
  cases l with
  | destroyCross => simp [h.destroyCross_eq_none] at hs
  | shareSent i cross =>
      simp only [Abandon.step] at hs
      split at hs
      next =>
        split_ifs at hs
        obtain rfl := Option.some.inj hs
        exact ⟨List.set_eq_nil_iff i _, .inl hgone⟩
      next => cases hs
  | _ =>
      simp only [Abandon.step] at hs
      grind [State.execute, State.executeLocal, State.share, State.destroy, Channel.cloneSender,
        Channel.dropReceiver]

/-- What a step does to the queue of the same-thread channel once that has no receiver. -/
inductive Keeps (s s' : State) : Label → Prop
  | same {l : Label} (h : s'.stc.queue = s.stc.queue) : Keeps s s' l
  /-- no task in it has a sender of it -/
  | destroys {l : Label} (t : Task) (hnone : ∀ t ∈ s.stc.queue, t.pools = 0)
      (h : s.stc.queue = t :: s'.stc.queue) : Keeps s s' l
  | shares {i cross pools : ℕ} (t : Task) (hi : s.stc.queue[i]? = some t)
      (h : s'.stc.queue = s.stc.queue.set i { t with cross := cross, pools := pools }) :
      Keeps s s' (.share i cross pools)

/-- **The same-thread channel without its receiver** only ever loses tasks, and only where no task
in it has a sender of it. -/
theorem Inv.stc_of_dropped (h : Inv s) (hs : Abandon.step s l = some s')
    (hdropped : s'.phase.stcRecv = false) :
    Keeps s s' l ∧ (s.phase.stcRecv = false ∨ s.phase = .droppingRecv ∧ l = .dropField) := by
  have hrecv := h.stcReceiver
  cases l with
  | share i cross pools =>
      simp only [Abandon.step] at hs
      split at hs
      next t hi =>
        split_ifs at hs
        obtain rfl := Option.some.inj hs
        exact ⟨.shares t hi rfl, .inl hdropped⟩
      next => cases hs
  | destroyLocal =>
      simp only [Abandon.step, Option.ite_none_right_eq_some] at hs
      obtain ⟨⟨hreceiver, hzero⟩, hs⟩ := hs
      rcases hqueue : s.stc.queue with _ | ⟨task, queue⟩
      · simp [hqueue] at hs
      · simp only [hqueue, Option.some.injEq] at hs
        subst hs
        have hsenders := h.stcSenders
        rw [hzero] at hsenders
        refine ⟨.destroys task (fun t ht => ?_) (by simp [hqueue, State.destroy]), .inl ?_⟩
        · obtain ⟨i, hi⟩ := List.mem_iff_getElem?.mp ht
          have hle := le_weight Task.pools hi
          omega
        · exact hrecv.symm.trans hreceiver
  | dropField =>
      simp only [Abandon.step] at hs
      split at hs
      next hphase => grind [Phase.stcRecv, Keeps]
      next hphase => grind [Keeps]
      next hphase => grind [Phase.stcRecv, Keeps]
      next => cases hs
  | _ =>
      simp only [Abandon.step] at hs
      grind [State.execute, State.executeLocal, State.shareSent, State.destroy, Channel.cloneSender,
        Channel.dropReceiver, Phase.stcRecv, Keeps]

/-- A worker does not come back. -/
theorem keeps_dropped (hs : step s l = some s') :
    (s.phase = .gone → s'.phase = .gone) ∧
      (s.phase.stcRecv = false → s'.phase.stcRecv = false) := by
  cases l <;> simp only [step] at hs <;>
    grind [State.execute, State.executeLocal, State.shareSent, State.share, State.destroy,
      Phase.stcRecv]

/-! ## What is stranded -/

/-- **The condition**: whoever drops a receiver leaves nothing in the queue that has a sender of
this very channel, and nothing in it gets one later.  Every task has one of the cross-thread
channel. -/
def Emptied (s : State) : Label → Prop
  | .dropField =>
      match s.phase with
      | .droppingRecv => ∀ t ∈ s.stc.queue, t.pools = 0
      | .droppingCross => s.channel.queue = []
      | _ => True
  | .share _ _ pools => s.phase.stcRecv = false → pools = 0
  | _ => True

/-- Nobody takes a `ThreadLocalPool` back out of a task that is left in the queue. -/
def Untaken (s : State) : Label → Prop
  | .share i _ pools =>
      s.phase.stcRecv = false → ∀ t, s.stc.queue[i]? = some t → 0 < t.pools → 0 < pools
  | _ => True

/-- **A channel that keeps itself alive.** -/
def Stranded (s : State) : Prop :=
  s.phase = .gone ∧ s.channel.queue ≠ [] ∨
    s.phase.stcRecv = false ∧ ∃ t ∈ s.stc.queue, 0 < t.pools

/-- A stranded task remains stranded, unless somebody takes from it what keeps it alive. -/
theorem Inv.keeps_stranded (h : Inv s) (hstranded : Stranded s) (hl : Untaken s l)
    (hs : Abandon.step s l = some s') : Stranded s' := by
  obtain ⟨hgone, hdropped⟩ := Abandon.keeps_dropped hs
  obtain ⟨hphase, hqueue⟩ | ⟨hphase, t, ht, hpools⟩ := hstranded
  · refine .inl ⟨hgone hphase, ?_⟩
    rwa [Ne, (h.queue_of_gone hs (hgone hphase)).1]
  · obtain ⟨hkeeps, -⟩ := h.stc_of_dropped hs (hdropped hphase)
    cases hkeeps with
    | same heq => exact .inr ⟨hdropped hphase, t, heq ▸ ht, hpools⟩
    | destroys t' hnone heq => exact absurd (hnone t ht) hpools.ne'
    | @shares i cross pools t' hi heq =>
        refine .inr ⟨hdropped hphase, ?_⟩
        rw [heq]
        obtain ⟨j, hj⟩ := List.mem_iff_getElem?.mp ht
        rcases eq_or_ne i j with rfl | hij
        · obtain rfl : t' = t := Option.some.inj (hi.symm.trans hj)
          exact ⟨_, List.mem_set (List.getElem?_eq_some_iff.mp hi).1 _, hl hphase t' hi hpools⟩
        · exact ⟨t, List.mem_of_getElem? ((List.getElem?_set_ne hij).trans hj), hpools⟩

/-- A receiver that leaves such a task strands it, and so does whoever makes a task such a one. -/
theorem stranded_of_not_emptied (hl : ¬Emptied s l) (hs : Abandon.step s l = some s') :
    Stranded s' := by
  unfold Emptied at hl
  split at hl
  next =>
    split at hl
    next hphase =>
      simp only [Abandon.step, hphase] at hs
      obtain rfl := Option.some.inj hs
      push Not at hl
      obtain ⟨t, ht, hpools⟩ := hl
      exact .inr ⟨rfl, t, ht, Nat.pos_of_ne_zero hpools⟩
    next hphase =>
      simp only [Abandon.step, hphase] at hs
      obtain rfl := Option.some.inj hs
      exact .inl ⟨rfl, hl⟩
    next => exact absurd trivial hl
  next i cross pools =>
    push Not at hl
    obtain ⟨hrecv, hpools⟩ := hl
    simp only [Abandon.step] at hs
    split at hs
    next t hi =>
      split_ifs at hs
      obtain rfl := Option.some.inj hs
      have hlt := (List.getElem?_eq_some_iff.mp hi).1
      exact .inr ⟨hrecv, _, List.mem_set hlt _, Nat.pos_of_ne_zero hpools⟩
    next => cases hs
  next => exact absurd trivial hl

/-- A receiver that leaves no such task strands none. -/
theorem inductive_not_stranded : machine.Inductive Emptied fun s => Inv s ∧ ¬Stranded s where
  init := ⟨(Inv.inductive (C := Emptied)).init, by simp [machine, fresh, Stranded, Phase.stcRecv]⟩
  step s l s' := by
    rintro ⟨h, hnot⟩ hl hs
    refine ⟨h.step hs, ?_⟩
    rintro (⟨hphase, hqueue⟩ | ⟨hphase, t, ht, hpools⟩)
    · obtain ⟨heq, hgone | ⟨hcross, rfl⟩⟩ := h.queue_of_gone hs hphase
      · exact hnot (.inl ⟨hgone, fun hnil => hqueue (heq.mpr hnil)⟩)
      · simp only [Emptied, hcross] at hl
        exact hqueue (heq.mpr hl)
    · obtain ⟨hkeeps, hdropped⟩ := h.stc_of_dropped hs hphase
      -- a task that has been given nothing was there with the same handles
      have hmem : t ∈ s.stc.queue := by
        cases hkeeps with
        | same heq => exact heq ▸ ht
        | destroys t' hnone heq =>
            rw [heq]
            exact .tail _ ht
        | shares t' hi heq =>
            rw [heq] at ht
            obtain ht | rfl := List.mem_or_eq_of_mem_set ht
            · exact ht
            · obtain hdropped | ⟨-, hfield⟩ := hdropped
              · exact absurd (hl hdropped) hpools.ne'
              · cases hfield
      obtain hdropped | ⟨hrecv, rfl⟩ := hdropped
      · exact hnot (.inr ⟨hdropped, t, hmem, hpools⟩)
      · simp only [Emptied, hrecv] at hl
        exact hpools.ne' (hl t hmem)

/-! ## The end of a worker -/

/-- The worker is gone, there are no handles but in the queues, and no channel is about to destroy
what it has queued. -/
structure Settled (s : State) : Prop where
  phase : s.phase = .gone
  cross : s.cross = 0
  pools : s.pools = 0
  destroyLocal : step s .destroyLocal = none
  destroyCross : step s .destroyCross = none

/-- What is left to drop. -/
def State.left (s : State) : ℕ := s.cross + s.pools + weight Task.senders s.stc.queue

@[simp] theorem dropSender_left : s.dropSender.left = s.left := by
  simp only [State.left, State.dropSender]; split <;> rfl

@[simp] theorem dropStcSender_left : s.dropStcSender.left = s.left := by
  simp only [State.left, State.dropStcSender]; split_ifs <;> rfl

/-- A worker that is gone has settled, or there is something to drop. -/
theorem Inv.settled_or (h : Inv s) (hphase : s.phase = .gone) :
    Settled s ∨ ∃ l s', machine.step s l = some s' ∧ s'.left < s.left := by
  rcases Nat.eq_zero_or_pos s.pools with hpools | hpools
  · rcases Nat.eq_zero_or_pos s.cross with hcross | hcross
    · cases hlocal : Abandon.step s .destroyLocal with
      | some s' =>
          refine .inr ⟨.destroyLocal, s', hlocal, ?_⟩
          simp only [Abandon.step, Option.ite_none_right_eq_some] at hlocal
          rcases hqueue : s.stc.queue with _ | ⟨task, queue⟩
          · simp [hqueue] at hlocal
          · simp only [hqueue, Option.some.injEq] at hlocal
            rw [← hlocal.2]
            rw [State.destroy, dropSender_left]
            simp only [State.left, hqueue, weight_cons, Task.senders]
            omega
      | none =>
          exact .inl ⟨hphase, hcross, hpools, hlocal, h.destroyCross_eq_none⟩
    · refine .inr ⟨.dropCross, _, if_pos hcross, ?_⟩
      rw [dropSender_left]
      simp only [State.left]
      omega
  · refine .inr ⟨.dropPool, _, if_pos hpools, ?_⟩
    rw [dropSender_left, dropStcSender_left]
    simp only [State.left]
    omega

/-- **A worker that is gone settles** once its handles are dropped. -/
theorem Inv.settles (h : Inv s) (hphase : s.phase = .gone) :
    ∃ ls t, machine.exec s ls = some t ∧ Settled t := by
  obtain ⟨ls, t, hexec, -, ht⟩ : ∃ ls t, machine.exec s ls = some t ∧
      (Inv t ∧ t.phase = .gone) ∧ Settled t := by
    refine Machine.exec_descends State.left (fun s ⟨hs, hphase⟩ => ?_) ⟨h, hphase⟩
    refine (hs.settled_or hphase).imp_right fun ⟨l, s', hstep, hlt⟩ => ⟨l, s', hstep, ?_, hlt⟩
    exact ⟨hs.step hstep, (Abandon.keeps_dropped hstep).1 hphase⟩
  exact ⟨ls, t, hexec, ht⟩

/-- Once it has settled, a task that was neither run nor destroyed is still queued. -/
theorem Inv.delivered_iff (h : Inv s) :
    (∀ n ∈ s.accepted, n ∈ s.ran ∨ n ∈ s.destroyed) ↔ s.channel.queue = [] ∧ s.stc.queue = [] := by
  have hplaces := h.places
  have hnodup : s.places.Nodup := hplaces.nodup_iff.mpr h.nodup
  simp only [← hplaces.mem_iff]
  simp only [State.places, List.nodup_append, List.mem_append] at hnodup ⊢
  constructor
  · intro hall
    constructor
    · refine List.eq_nil_iff_forall_not_mem.mpr fun t ht => ?_
      have hmem : t.id ∈ s.channel.queue.map Task.id := List.mem_map_of_mem ht
      grind
    · refine List.eq_nil_iff_forall_not_mem.mpr fun t ht => ?_
      have hmem : t.id ∈ s.stc.queue.map Task.id := List.mem_map_of_mem ht
      grind
  · rintro ⟨hcross, hlocal⟩
    simp [hcross, hlocal]

/-- …and then in a channel that keeps itself alive. -/
theorem Inv.stranded_iff (h : Inv s) (hs : Settled s) :
    Stranded s ↔ ¬(s.channel.queue = [] ∧ s.stc.queue = []) := by
  constructor
  · rintro (⟨-, hqueue⟩ | ⟨-, t, ht, -⟩) ⟨hcross, hlocal⟩
    · exact hqueue hcross
    · simp [hlocal] at ht
  · intro hsome
    by_cases hcross : s.channel.queue = []
    · have hlocal : s.stc.queue ≠ [] := fun hlocal => hsome ⟨hcross, hlocal⟩
      have hdropped : s.phase.stcRecv = false := by rw [hs.phase]; rfl
      have hsender : s.phase.stcSender = 0 := by rw [hs.phase]; rfl
      -- the channel would have destroyed the task
      have hpos : 0 < s.stc.cnt_sender := by
        refine Nat.pos_of_ne_zero fun hzero => ?_
        obtain ⟨task, queue, hqueue⟩ := List.exists_cons_of_ne_nil hlocal
        have hnone := hs.destroyLocal
        simp [Abandon.step, h.stcReceiver, hdropped, hzero, hqueue] at hnone
      rw [h.stcSenders, hs.pools, hsender, Nat.zero_add, Nat.add_zero] at hpos
      obtain ⟨i, t, hi, hpools⟩ := exists_of_weight_pos Task.pools hpos
      exact .inr ⟨hdropped, t, List.mem_of_getElem? hi, hpools⟩
    · exact .inl ⟨hs.phase, hcross⟩

/-- Every accepted task was run or destroyed, and none is queued. -/
def Released (s : State) : Prop :=
  (∀ n ∈ s.accepted, n ∈ s.ran ∨ n ∈ s.destroyed) ∧ s.channel.queue = [] ∧ s.stc.queue = []

theorem Inv.released_iff (h : Inv s) (hs : Settled s) : Released s ↔ ¬Stranded s := by
  rw [Released, h.delivered_iff, and_self_iff, h.stranded_iff hs, Classical.not_not]

/-- **Every task of a worker that has ended is run or destroyed**, if no receiver was dropped with a
task in its queue that has a sender of the same channel, and none got one later.  If nobody has
taken such a sender back, then only if. -/
theorem abandoned_worker_iff (ls : List Label) (s : State)
    (h : machine.Run (fun _ _ => True) ls s) (hs : Settled s) :
    (machine.Run Emptied ls s → Released s) ∧
      (machine.Run Untaken ls s → (Released s ↔ machine.Run Emptied ls s)) := by
  have hinv := Inv.inductive.of_run h
  rw [hinv.released_iff hs]
  refine ⟨fun hrun => (inductive_not_stranded.of_run hrun).2, fun huntaken => ?_⟩
  have hiff := huntaken.good_iff_within (C := Emptied) Inv.inductive
    (fun _ _ _ hinv hstranded hl hs => hinv.keeps_stranded hstranded hl hs)
    (fun _ _ _ _ _ hl => stranded_of_not_emptied hl)
    fun _ _ hrun => (inductive_not_stranded.of_run (hrun.mono fun _ _ h => h.2)).2
  refine hiff.trans ⟨fun hrun => hrun.mono fun _ _ h => h.2, fun hrun => ?_⟩
  exact hiff.mp (inductive_not_stranded.of_run hrun).2

instance (s : State) : DecidablePred (Emptied s)
  | .dropField =>
      match h : s.phase with
      | .droppingRecv => decidable_of_iff (∀ t ∈ s.stc.queue, t.pools = 0) (by simp [Emptied, h])
      | .droppingCross => decidable_of_iff (s.channel.queue = []) (by simp [Emptied, h])
      | .idle | .polling _ | .draining _ | .ready _ | .running _ | .droppingSender | .gone =>
          isTrue (by simp [Emptied, h])
  | .share _ _ pools =>
      decidable_of_iff (s.phase.stcRecv = false → pools = 0) (by simp [Emptied])
  | .cloneCross | .dropCross | .clonePool | .dropPool | .convert | .execute _ | .executeLocal _ _
  | .shareSent _ _ | .call _ | .poll | .pollError | .tryRecv | .runOneTask | .finish | .panic
  | .drop | .destroyLocal | .destroyCross => isTrue trivial

/-- A task panics while another one is queued; that one is lent a `ThreadLocalPool` for a while, and
then has a `CrossThreadPool`.  The worker and all handles are dropped. -/
def panicking : List Label :=
  [.clonePool, .convert, .execute 0, .executeLocal 0 0, .call (.runOne true), .poll, .tryRecv,
    .tryRecv, .runOneTask, .panic, .share 0 0 1, .share 0 1 0, .drop, .dropField, .dropField,
    .dropField, .dropPool, .dropPool, .destroyLocal, .dropCross]

theorem settled_of_ends {ls : List Label} {p : State → Prop} [DecidablePred p]
    (h : (machine.exec machine.init ls).any (fun s => s.phase = .gone ∧ s.cross = 0 ∧ s.pools = 0 ∧
      (step s .destroyLocal).isNone ∧ (step s .destroyCross).isNone ∧ p s) = true) :
    ∃ s, machine.exec machine.init ls = some s ∧ Settled s ∧ p s := by
  obtain ⟨s, hexec, hphase, hcross, hpools, hlocal, hsend, hp⟩ := Machine.exec_ends h
  exact ⟨s, hexec, ⟨hphase, hcross, hpools, by simpa using hlocal, by simpa using hsend⟩, hp⟩

theorem abandoned_panicking : ∃ s, machine.exec machine.init panicking = some s ∧
    Released s ∧ s.ran = [1] ∧ s.destroyed = [0] := by
  obtain ⟨s, hexec, hs, hran⟩ : ∃ s, machine.exec machine.init panicking = some s ∧ Settled s ∧
      s.ran = [1] ∧ s.destroyed = [0] := settled_of_ends (by decide +kernel)
  have hrun : machine.Run Emptied panicking s := .of_exec (by decide +kernel) hexec
  exact ⟨s, hexec, (abandoned_worker_iff panicking s hrun.any hs).1 hrun, hran⟩

/-- The worker is dropped without having run, and no handle is left.  The task that was sent to it
is still there, in the one queue or the other: it had a `ThreadLocalPool` when the worker was
dropped, or it has got one since. -/
def Strands (ls : List Label) : Prop :=
  ∃ s, machine.exec machine.init ls = some s ∧ Settled s ∧ s.accepted = [0] ∧ s.ran = [] ∧
    s.destroyed = []

theorem dropped_worker_strands :
    Strands [.convert, .execute 0, .drop, .dropField, .dropField, .dropField, .dropCross] ∧
      Strands [.clonePool, .executeLocal 0 1, .drop, .dropField, .dropField, .dropField,
        .dropPool] ∧
      Strands [.executeLocal 0 0, .drop, .dropField, .dropField, .dropField, .share 0 0 1] :=
  ⟨settled_of_ends (by decide +kernel), settled_of_ends (by decide +kernel),
    settled_of_ends (by decide +kernel)⟩

end SendersReceivers.Abandon
