import SendersReceivers.Pool.Machine

/-!
# Pool/Invariant — every sender is a handle somewhere, and no wake-up is lost

The `cnt_sender` of a worker is the number of handles of it: in the pool, with `join`, outside, in a
queued task or in the frame of a running one.  Between the parts of a step some handles are in
nobody's hands, and some are there for which the count is still owed.

    cnt_sender  +  owed   =   held  +  hand
-/

namespace SendersReceivers.Pool

open Machinery

/-! ## Where the handles are -/

/-- The workers whose handles a task has. -/
def Task.senders (t : Task) : List ℕ := t.xtc_sender :: t.captured.map Handle.worker

/-- The handles that the function owns which a worker runs. -/
def Phase.frame : Phase → List Handle
  | .running frame => frame
  | _ => []

/-- The workers whose handles a worker has: with its tasks, and in its frame. -/
def Worker.handles (w : Worker) : List ℕ :=
  (w.channel.queue ++ w.tasks).flatMap Task.senders ++ w.phase.frame.map Handle.worker

/-- The worker whose handle is in the scrutinee of the loop over `threads`. -/
def Join.held : Join → List ℕ
  | .waiting w | .leaving w => [w]
  | _ => []

/-- The worker that `join` waits for. -/
def Join.waitsFor : Join → List ℕ
  | .waiting w | .waitingPending w => [w]
  | _ => []

namespace State

/-- How many handles of worker `u` there are. -/
def held (s : State) (u : ℕ) : ℕ :=
  s.threads.count u + s.join.held.count u + s.outside.count u +
    weight (fun w => w.handles.count u) s.workers

/-- The `cnt_sender` of worker `u`; a worker that does not exist has none. -/
def senders (s : State) (u : ℕ) : ℕ := (s.workers[u]?.map (·.channel.cnt_sender)).getD 0

variable {s : State} {v u : ℕ} {w w' : Worker}

theorem senders_eq (h : s.workers[v]? = some w) : s.senders v = w.channel.cnt_sender := by
  simp [senders, h]

theorem exists_of_senders (h : 0 < s.senders v) :
    ∃ w, s.workers[v]? = some w ∧ 0 < w.channel.cnt_sender := by
  rw [senders] at h
  cases hw : s.workers[v]? with
  | none => simp [hw] at h
  | some w => exact ⟨w, rfl, by simpa [hw] using h⟩

theorem senders_put (h : s.workers[v]? = some w) :
    (s.put v w').senders u = if u = v then w'.channel.cnt_sender else s.senders u := by
  have hv := (List.getElem?_eq_some_iff.mp h).1
  split_ifs with huv
  · simp [senders, put, huv, hv]
  · simp [senders, put, List.getElem?_set_ne (Ne.symm huv)]

theorem senders_put_eq (h : s.workers[v]? = some w)
    (hcount : w'.channel.cnt_sender = w.channel.cnt_sender) :
    (s.put v w').senders u = s.senders u := by
  rw [senders_put h]
  split_ifs with huv
  · rw [huv, senders_eq h, hcount]
  · rfl

theorem held_put (h : s.workers[v]? = some w) (w' : Worker) (u : ℕ) :
    (s.put v w').held u + w.handles.count u = s.held u + w'.handles.count u := by
  have := weight_set (fun w : Worker => w.handles.count u) h w'
  simp only [held, put] at this ⊢
  omega

theorem held_pos (h : s.workers[v]? = some w) (hu : u ∈ w.handles) : 0 < s.held u := by
  have := le_weight (fun w : Worker => w.handles.count u) h
  have hpos := List.count_pos_iff.mpr hu
  rw [held]
  omega

theorem workers_put_self (h : s.workers[v]? = some w) : (s.put v w').workers[v]? = some w' := by
  simp [put, (List.getElem?_eq_some_iff.mp h).1]

theorem workers_put (h : s.workers[v]? = some w) {i : ℕ} {c : Worker}
    (hi : (s.put v w').workers[i]? = some c) : i = v ∧ c = w' ∨ i ≠ v ∧ s.workers[i]? = some c := by
  have hv := (List.getElem?_eq_some_iff.mp h).1
  by_cases hiv : i = v
  · subst hiv
    exact .inl ⟨rfl, by simpa [put, hv, eq_comm] using hi⟩
  · exact .inr ⟨hiv, by simpa [put, List.getElem?_set_ne (Ne.symm hiv)] using hi⟩

theorem withChannel_eq (message : String) (f) {channel : Channel Task}
    (h : s.workers[v]? = some w) (hf : f w.channel = .ok channel) :
    s.withChannel v message f = s.put v { w with channel := channel } := by
  simp [withChannel, h, hf]

end State

theorem Worker.mem_handles_of_task {w : Worker} {task : Task} {u : ℕ}
    (htask : task ∈ w.channel.queue ++ w.tasks) (hu : u ∈ task.senders) : u ∈ w.handles :=
  List.mem_append_left _ (List.mem_flatMap.mpr ⟨task, htask, hu⟩)

theorem Worker.mem_handles_of_frame {w : Worker} {frame : List Handle} {h : Handle}
    (hphase : w.phase = .running frame) (hmem : h ∈ frame) : h.worker ∈ w.handles := by
  refine List.mem_append_right _ (List.mem_map_of_mem ?_)
  rwa [hphase]

/-! ## The invariant -/

/-- What holds of worker `v` on its own.  **`awake`** is what keeps it from sleeping through a task
or through the loss of its last handle. -/
structure Worker.Ok (v : ℕ) (w : Worker) : Prop where
  receiver : w.channel.has_receiver = true ↔ w.phase ≠ .exited
  awake : w.phase ≠ .draining → w.phase ≠ .exited →
    w.channel.queue ≠ [] ∨ w.channel.cnt_sender = 0 → w.channel.waker = true
  exited : w.phase = .exited →
    w.channel.cnt_sender = 0 ∧ w.channel.queue = [] ∧ w.tasks = []
  ready : w.phase = .ready → w.tasks ≠ []
  own : ∀ task ∈ w.channel.queue ++ w.tasks, task.xtc_sender = v

/-- **The invariant**, with the handles that are `owed` to a count and those in nobody's hands. -/
structure Inv (owed hand : List ℕ) (s : State) : Prop where
  counted : ∀ u, s.senders u + owed.count u = s.held u + hand.count u
  ok : ∀ (v : ℕ) w, s.workers[v]? = some w → w.Ok v
  joinable : ∀ w ∈ s.pending_joins ++ s.join.waitsFor, w < s.workers.length

variable {owed hand owed' hand' : List ℕ} {s s' : State} {v u : ℕ} {w w' : Worker} {l : Label}

/-- **One worker changes**, and the handles in between with it. -/
theorem Inv.put (h : Inv owed hand s) (hw : s.workers[v]? = some w) (hok : w'.Ok v)
    (hcount : ∀ u, (if u = v then w'.channel.cnt_sender else 0) + owed'.count u +
        w.handles.count u + hand.count u =
      (if u = v then w.channel.cnt_sender else 0) + owed.count u +
        w'.handles.count u + hand'.count u) :
    Inv owed' hand' (s.put v w') where
  counted u := by
    have h₁ := h.counted u
    have h₂ := hcount u
    have h₃ := State.held_put hw w' u
    have h₄ := State.senders_eq hw
    rw [State.senders_put hw]
    split_ifs with huv
    · subst huv
      simp only [if_pos] at h₂
      omega
    · simp only [huv, if_false] at h₂
      omega
  ok i c hi := by
    obtain ⟨rfl, rfl⟩ | ⟨-, hi⟩ := State.workers_put hw hi
    · exact hok
    · exact h.ok i c hi
  joinable i hi := by simpa [State.put] using h.joinable i hi

/-- **Handles move outside of the workers.** -/
theorem Inv.move (h : Inv owed hand s) (hworkers : s'.workers = s.workers)
    (hcount : ∀ u, s'.threads.count u + s'.join.held.count u + s'.outside.count u + hand'.count u +
        owed.count u =
      s.threads.count u + s.join.held.count u + s.outside.count u + hand.count u + owed'.count u)
    (hjoin : ∀ w ∈ s'.pending_joins ++ s'.join.waitsFor, w < s.workers.length) :
    Inv owed' hand' s' where
  counted u := by
    have h₁ := h.counted u
    have h₂ := hcount u
    simp only [State.senders, State.held, hworkers] at h₁ ⊢
    omega
  ok i c hi := h.ok i c (hworkers ▸ hi)
  joinable := by rwa [hworkers]

/-- A handle in hand pays for one that is owed. -/
theorem Inv.cancel (h : Inv (v :: owed) (v :: hand) s) : Inv owed hand s where
  counted u := by
    have := h.counted u
    simp only [List.count_cons] at this
    omega
  ok := h.ok
  joinable := h.joinable

theorem Inv.senders_pos (h : Inv [] hand s) (hv : 0 < s.held v) : 0 < s.senders v := by
  have := h.counted v
  simp only [List.count_nil] at this
  omega

/-- A handle is one of a worker that has not exited. -/
theorem Inv.live (h : Inv [] hand s) (hv : 0 < s.held v + hand.count v) :
    ∃ w, s.workers[v]? = some w ∧ 0 < w.channel.cnt_sender ∧ w.phase ≠ .exited := by
  have hcount := h.counted v
  obtain ⟨w, hw, hpos⟩ := State.exists_of_senders (s := s) (v := v) (by simp at hcount; omega)
  exact ⟨w, hw, hpos, fun hphase => absurd ((h.ok v w hw).exited hphase).1 (by omega)⟩

/-! ## The operations of a channel -/

theorem Worker.Ok.cloneSender (h : w.Ok v) (hpos : 0 < w.channel.cnt_sender) :
    Worker.Ok v { w with channel := w.channel.cloneSender } where
  receiver := h.receiver
  awake hd he := by
    rintro (hq | hzero)
    · exact h.awake hd he (.inl hq)
    · simp [Channel.cloneSender] at hzero
  exited hphase := absurd (h.exited hphase).1 (by omega)
  ready := h.ready
  own := h.own

/-- `Sender::clone`: the new handle is in hand. -/
theorem Inv.cloneSender (h : Inv owed hand s) (hpos : 0 < s.senders v) :
    Inv owed (v :: hand) (s.cloneSender v) := by
  obtain ⟨w, hw, hpos⟩ := State.exists_of_senders hpos
  have heq : s.cloneSender v = s.put v { w with channel := w.channel.cloneSender } :=
    State.withChannel_eq _ _ hw rfl
  rw [heq]
  refine h.put hw ((h.ok v w hw).cloneSender hpos) fun u => ?_
  simp only [Worker.handles, Channel.cloneSender, List.count_cons, beq_iff_eq, eq_comm (a := v)]
  split_ifs <;> omega

/-- The channel after the drop of a `Sender`. -/
def Channel.dropped {α : Type} (c : Channel α) : Channel α :=
  { c with
    cnt_sender := c.cnt_sender - 1
    waker := c.waker || decide (c.cnt_sender = 1) }

theorem Channel.dropSender_eq {α : Type} {c : Channel α} (h : 0 < c.cnt_sender) :
    c.dropSender = .ok c.dropped := by
  have hne : c.cnt_sender ≠ 0 := by omega
  by_cases hone : c.cnt_sender = 1
  · simp [Channel.dropSender, dropped, wake, hone]
  · have : c.cnt_sender - 1 ≠ 0 := by omega
    simp [Channel.dropSender, dropped, hne, hone, this]

theorem Worker.Ok.dropped (h : w.Ok v) (hpos : 0 < w.channel.cnt_sender) :
    Worker.Ok v { w with channel := w.channel.dropped } where
  receiver := h.receiver
  awake hd he := by
    rintro (hq | hzero)
    · simp [Channel.dropped, h.awake hd he (.inl hq)]
    · have hone : w.channel.cnt_sender = 1 := by
        simp only [Channel.dropped] at hzero
        omega
      simp [Channel.dropped, hone]
  exited hphase := absurd (h.exited hphase).1 (by omega)
  ready := h.ready
  own := h.own

/-- The channel a dropped handle belongs to is there, and lets go of it. -/
theorem Inv.dropSender_eq (h : Inv [] (v :: hand) s) :
    ∃ w, s.workers[v]? = some w ∧ 0 < w.channel.cnt_sender ∧
      s.dropSender v = s.put v { w with channel := w.channel.dropped } := by
  obtain ⟨w, hw, hpos, -⟩ := h.live (v := v) (by simp)
  exact ⟨w, hw, hpos, State.withChannel_eq _ _ hw (Channel.dropSender_eq hpos)⟩

/-- `Drop for Sender`: the handle in hand is gone. -/
theorem Inv.dropSender (h : Inv [] (v :: hand) s) : Inv [] hand (s.dropSender v) := by
  obtain ⟨w, hw, hpos, heq⟩ := h.dropSender_eq
  rw [heq]
  refine h.put hw ((h.ok v w hw).dropped hpos) fun u => ?_
  simp only [Worker.handles, Channel.dropped, List.count_cons, beq_iff_eq, eq_comm (a := v)]
  split_ifs <;> omega

theorem Worker.Ok.pushed {captured : List Handle} (h : w.Ok v) (he : w.phase ≠ .exited) :
    Worker.Ok v { w with
      channel := { w.channel.wake with queue := w.channel.queue ++ [⟨v, captured⟩] } } where
  receiver := h.receiver
  awake _ _ _ := rfl
  exited hphase := absurd hphase he
  ready := h.ready
  own task htask := by
    simp only [List.mem_append, List.mem_singleton] at htask
    obtain (hq | rfl) | ht := htask
    · exact h.own task (List.mem_append_left _ hq)
    · rfl
    · exact h.own task (List.mem_append_right _ ht)

/-- `Sender::send`: the handles of the task are in hand, and then in the queue. -/
theorem Inv.push {captured : List Handle} {message : String}
    (h : Inv [] (v :: (captured.map Handle.worker ++ hand)) s) :
    Inv [] hand (s.withChannel v message fun channel => channel.push ⟨v, captured⟩) := by
  obtain ⟨w, hw, hpos, he⟩ := h.live (v := v) (by simp)
  have hok := h.ok v w hw
  have hpush : w.channel.push ⟨v, captured⟩ =
      .ok { w.channel.wake with queue := w.channel.queue ++ [⟨v, captured⟩] } := by
    simp [Channel.push, Nat.pos_iff_ne_zero.mp hpos, hok.receiver.mpr he]
  rw [State.withChannel_eq _ _ hw hpush]
  refine h.put hw (hok.pushed he) fun u => ?_
  simp only [Worker.handles, Channel.wake, List.append_assoc, List.flatMap_append,
    List.flatMap_cons, List.flatMap_nil, List.count_append, Task.senders, List.count_cons,
    List.append_nil]
  omega

@[simp] theorem map_worker_cross (captured : List ℕ) :
    (captured.map cross).map Handle.worker = captured := by
  simp [cross, Function.comp_def]

/-- `CrossThreadPool::execute`: the captured handles are in hand, and then in the queue. -/
theorem Inv.execute {captured : List ℕ} (h : Inv [] (captured ++ hand) s)
    (hv : 0 < s.held v + (captured ++ hand).count v) : Inv [] hand (s.execute v captured) := by
  have hpos : 0 < s.senders v := by
    have := h.counted v
    simp only [List.count_nil] at this
    omega
  refine Inv.push ?_
  rw [map_worker_cross]
  exact h.cloneSender hpos

/-- What `CrossThreadPool::execute` makes of the worker. -/
theorem Inv.execute_eq {captured : List ℕ} (h : Inv [] (captured ++ hand) s)
    (hv : 0 < s.held v + (captured ++ hand).count v) :
    ∃ w, s.workers[v]? = some w ∧ s.execute v captured = s.put v { w with
      channel := { w.channel.cloneSender.wake with
        queue := w.channel.queue ++ [⟨v, captured.map cross⟩] } } := by
  obtain ⟨w, hw, -, he⟩ := h.live hv
  have hclone : s.cloneSender v = s.put v { w with channel := w.channel.cloneSender } :=
    State.withChannel_eq _ _ hw rfl
  have hpush : w.channel.cloneSender.push ⟨v, captured.map cross⟩ =
      .ok { w.channel.cloneSender.wake with
        queue := w.channel.queue ++ [⟨v, captured.map cross⟩] } := by
    simp [Channel.push, Channel.cloneSender, Channel.wake, (h.ok v w hw).receiver.mpr he]
  refine ⟨w, hw, ?_⟩
  rw [State.execute, hclone, State.withChannel_eq _ _ (State.workers_put_self hw) hpush]
  simp [State.put]

/-! ## What a step does -/

theorem State.withWorker_eq {phase : Phase} {f : Worker → Option State}
    (h : s.withWorker v phase f = some s') :
    ∃ w, s.workers[v]? = some w ∧ w.phase = phase ∧ f w = some s' := by
  obtain ⟨w, hw, h⟩ := Option.bind_eq_some_iff.mp h
  simp only [Option.ite_none_right_eq_some] at h
  exact ⟨w, hw, h⟩

/-- What a running function does is guarded by the handles it needs. -/
theorem State.withFrame_eq {p : Worker → List Handle → Prop} [∀ w frame, Decidable (p w frame)]
    {g : Worker → List Handle → State}
    (h : s.withFrame v (fun w frame => if p w frame then some (g w frame) else none) = some s') :
    ∃ w frame, s.workers[v]? = some w ∧ w.phase = .running frame ∧ p w frame ∧ g w frame = s' := by
  obtain ⟨w, hw, h⟩ := Option.bind_eq_some_iff.mp h
  split at h
  next frame hphase =>
    simp only [Option.ite_none_right_eq_some, Option.some.injEq] at h
    exact ⟨w, frame, hw, hphase, h⟩
  next => cases h

theorem State.withPool_eq {next : Option State} (h : s.withPool next = some s') :
    s.join = .idle ∧ next = some s' := by
  simp only [withPool, Option.ite_none_right_eq_some] at h
  exact ⟨h.1.1, h.2⟩

/-- What is left of a list, and what was taken from it. -/
theorem count_map_diff {α : Type} [DecidableEq α] {taken l : List α} (h : taken.Subperm l)
    (f : α → ℕ) (u : ℕ) :
    ((l.diff taken).map f).count u + (taken.map f).count u = (l.map f).count u := by
  have hperm := List.subperm_append_diff_self_of_count_le (List.subperm_ext_iff.mp h)
  have := (hperm.map f).count_eq u
  simp only [List.map_append, List.count_append] at this
  omega

theorem count_diff {taken l : List ℕ} (h : taken.Subperm l) (u : ℕ) :
    (l.diff taken).count u + taken.count u = l.count u := by
  simpa using count_map_diff h id u

theorem count_map_erase {α : Type} [DecidableEq α] {a : α} {l : List α} (h : a ∈ l) (f : α → ℕ)
    (u : ℕ) : ((l.erase a).map f).count u + [f a].count u = (l.map f).count u := by
  have := ((List.perm_cons_erase h).map f).count_eq u
  simp only [List.map_cons, List.count_cons, List.count_nil] at this ⊢
  omega

theorem count_dropLast {l : List ℕ} {w : ℕ} (h : l.getLast? = some w) (u : ℕ) :
    l.dropLast.count u + [w].count u = l.count u := by
  rw [← List.count_append, List.dropLast_append_getLast? w h]

/-! ## Steps of a worker -/

theorem Worker.Ok.setFrame {frame frame' : List Handle} (h : w.Ok v)
    (hphase : w.phase = .running frame) :
    Worker.Ok v { w with phase := .running frame' } where
  receiver := by simpa [hphase] using h.receiver
  awake _ _ := h.awake (by simp [hphase]) (by simp [hphase])
  exited := by simp
  ready := by simp
  own := h.own

/-- **The function that a worker runs does something with its handles.** -/
theorem Inv.putFrame {frame frame' : List Handle} (h : Inv [] [] s) (hw : s.workers[v]? = some w)
    (hphase : w.phase = .running frame)
    (hcount : ∀ u, owed.count u + (frame.map Handle.worker).count u =
      (frame'.map Handle.worker).count u + hand.count u) :
    Inv owed hand (s.putFrame v w frame') := by
  refine h.put hw ((h.ok v w hw).setFrame hphase) fun u => ?_
  have := hcount u
  simp only [Worker.handles, Phase.frame, hphase, List.count_append, List.count_nil]
  omega

theorem Inv.poll (h : Inv [] [] s) (hw : s.workers[v]? = some w) (hphase : w.phase = .polling)
    (hs : Pool.poll s v w = some s') : Inv [] [] s' := by
  have hok := h.ok v w hw
  rw [Pool.poll] at hs
  split_ifs at hs with hwaker htasks
  · obtain rfl := Option.some.inj hs
    refine h.put hw
      { receiver := by simpa [hphase] using hok.receiver
        awake := by simp
        exited := by simp
        ready := by simp
        own := hok.own } fun u => ?_
    simp [Worker.handles, Phase.frame, hphase]
  · obtain rfl := Option.some.inj hs
    refine h.put hw
      { receiver := by simpa [hphase] using hok.receiver
        awake := fun _ _ => hok.awake (by simp [hphase]) (by simp [hphase])
        exited := by simp
        ready := fun _ => htasks
        own := hok.own } fun u => ?_
    simp [Worker.handles, Phase.frame, hphase]

/-- A worker with a task has a handle of itself: the task's. -/
theorem Inv.senders_of_task (h : Inv [] [] s) (hw : s.workers[v]? = some w) (task : Task)
    (htask : task ∈ w.channel.queue ++ w.tasks) : w.channel.cnt_sender ≠ 0 := by
  have hpos := h.senders_pos <| State.held_pos hw <| Worker.mem_handles_of_task htask
    (u := v) (by simp [Task.senders, (h.ok v w hw).own task htask])
  rw [State.senders_eq hw] at hpos
  omega

theorem Inv.tryRecv (h : Inv [] [] s) (hw : s.workers[v]? = some w) (hphase : w.phase = .draining) :
    Inv [] [] (Pool.tryRecv s v w) := by
  have hok := h.ok v w hw
  have hreceiver : w.channel.has_receiver = true := hok.receiver.mpr (by simp [hphase])
  rw [Pool.tryRecv, Channel.tryPop]
  rcases hqueue : w.channel.queue with _ | ⟨task, queue⟩
  · by_cases htasks : w.tasks = []
    · by_cases hzero : w.channel.cnt_sender = 0
      · simp only [hzero, htasks, if_true]
        refine h.put hw
          { receiver := by simp [Channel.dropReceiver]
            awake := by simp
            exited := fun _ => ⟨hzero, hqueue, rfl⟩
            ready := by simp
            own := by simp [Channel.dropReceiver, hqueue] } fun u => ?_
        simp [Worker.handles, Phase.frame, Channel.dropReceiver, hphase, hqueue, htasks]
      · simp only [hzero, htasks, if_true, if_false]
        refine h.put hw
          { receiver := by simpa using hreceiver
            awake := by simp [hqueue, hzero]
            exited := by simp
            ready := by simp
            own := by simp [hqueue] } fun u => ?_
        simp [Worker.handles, Phase.frame, hphase, hqueue, htasks]
    · simp only [htasks, if_false]
      -- the count cannot be zero here: a task that is still to run has a handle of its own
      have hne : w.channel.cnt_sender ≠ 0 := by
        obtain ⟨task, tasks, heq⟩ := List.exists_cons_of_ne_nil htasks
        exact h.senders_of_task hw task (by simp [heq])
      refine h.put hw
        { receiver := by simpa using hreceiver
          awake := by simp [hqueue, hne]
          exited := by simp
          ready := fun _ => htasks
          own := hok.own } fun u => ?_
      simp [Worker.handles, Phase.frame, hphase]
  · refine h.put hw
      { receiver := by simpa [hphase] using hreceiver
        awake := by simp [hphase]
        exited := by simp [hphase]
        ready := by simp [hphase]
        own := fun t ht => hok.own t (by simp at ht ⊢; simp [hqueue]; tauto) } fun u => ?_
    simp only [Worker.handles, hqueue, List.flatMap_append, List.flatMap_cons, List.flatMap_nil,
      List.count_append, List.append_nil, List.count_nil]
    omega

theorem Inv.runOneTask (h : Inv [] [] s) (hw : s.workers[v]? = some w) (hphase : w.phase = .ready) :
    Inv [] [] (Pool.runOneTask s v w) := by
  have hok := h.ok v w hw
  obtain ⟨task, tasks, htasks⟩ := List.exists_cons_of_ne_nil (hok.ready hphase)
  simp only [Pool.runOneTask, htasks]
  refine h.put hw
    { receiver := by simpa [hphase] using hok.receiver
      awake := fun _ _ => hok.awake (by simp [hphase]) (by simp [hphase])
      exited := by simp
      ready := by simp
      own := fun t ht => hok.own t (by simp at ht ⊢; simp [htasks]; tauto) } fun u => ?_
  simp only [Worker.handles, htasks, hphase, Phase.frame, List.flatMap_append, List.flatMap_cons,
    List.count_append, List.count_nil, List.map_nil, List.map_cons, Task.senders, tlp,
    List.count_cons]
  omega

/-! ## Steps of a function that a worker runs -/

section Frame

variable {frame : List Handle} {h' : Handle}

theorem Inv.clone (h : Inv [] [] s) (hw : s.workers[v]? = some w)
    (hphase : w.phase = .running frame) (hmem : h' ∈ frame) :
    Inv [] [] ((s.putFrame v w (h' :: frame)).cloneSender h'.worker) := by
  have hput : Inv [h'.worker] [] (s.putFrame v w (h' :: frame)) :=
    h.putFrame hw hphase fun u => by simp [List.count_cons]; omega
  refine Inv.cancel (hput.cloneSender ?_)
  -- the handle that is cloned is still in the frame, so the count is not zero
  have hpos := h.senders_pos (State.held_pos hw (Worker.mem_handles_of_frame hphase hmem))
  refine hpos.trans_eq (Eq.symm ?_)
  exact State.senders_put_eq hw rfl

theorem Inv.drop (h : Inv [] [] s) (hw : s.workers[v]? = some w) (hphase : w.phase = .running frame)
    (hmem : h' ∈ frame) :
    Inv [] [h'.worker] (s.putFrame v w (frame.erase h')) :=
  h.putFrame hw hphase fun u => by
    have := count_map_erase hmem Handle.worker u
    simp only [List.count_nil]
    omega

theorem Inv.convert (h : Inv [] [] s) (hw : s.workers[v]? = some w)
    (hphase : w.phase = .running frame) (hmem : tlp v ∈ frame) :
    Inv [] [] (s.putFrame v w (cross v :: frame.erase (tlp v))) :=
  h.putFrame hw hphase fun u => by
    have := count_map_erase hmem Handle.worker u
    simp only [List.map_cons, List.count_cons, List.count_nil, tlp, cross] at this ⊢
    omega

theorem Inv.executeLocal {captured : List Handle} (h : Inv [] [] s) (hw : s.workers[v]? = some w)
    (hphase : w.phase = .running frame) (hsub : captured.Subperm frame)
    (hmem : tlp v ∈ frame.diff captured) :
    Inv [] [] ((s.put v { w with
      tasks := w.tasks ++ [⟨v, captured⟩]
      phase := .running (frame.diff captured) }).cloneSender v) := by
  have hok := h.ok v w hw
  have hput : Inv [v] [] (s.put v { w with
      tasks := w.tasks ++ [⟨v, captured⟩]
      phase := .running (frame.diff captured) }) := by
    refine h.put hw
      { receiver := by simpa [hphase] using hok.receiver
        awake := fun _ _ => hok.awake (by simp [hphase]) (by simp [hphase])
        exited := by simp
        ready := by simp
        own := fun t ht => ?_ } fun u => ?_
    · simp only [List.mem_append, List.mem_singleton] at ht
      obtain hq | ht | rfl := ht
      · exact hok.own t (List.mem_append_left _ hq)
      · exact hok.own t (List.mem_append_right _ ht)
      · rfl
    · have := count_map_diff hsub Handle.worker u
      simp only [Worker.handles, Phase.frame, hphase, List.flatMap_append, List.flatMap_cons,
        List.flatMap_nil, List.append_nil, List.count_append, List.count_nil, Task.senders,
        List.count_cons]
      omega
  refine Inv.cancel (hput.cloneSender ?_)
  have hpos := h.senders_pos <| State.held_pos hw <|
    Worker.mem_handles_of_frame hphase (h := tlp v) (List.diff_subset _ _ hmem)
  refine hpos.trans_eq (Eq.symm ?_)
  exact State.senders_put_eq hw rfl

/-- What the function captures is in hand. -/
theorem Inv.takeFrame {captured : List ℕ} (h : Inv [] [] s) (hw : s.workers[v]? = some w)
    (hphase : w.phase = .running frame) (hsub : (captured.map cross).Subperm frame) :
    Inv [] (captured ++ []) (s.putFrame v w (frame.diff (captured.map cross))) :=
  h.putFrame hw hphase fun i => by
    have := count_map_diff hsub Handle.worker i
    rw [map_worker_cross] at this
    simp only [List.append_nil, List.count_nil]
    omega

/-- …and the handle that it sends with is left. -/
theorem State.held_pos_of_frame {frame' : List Handle} (hw : s.workers[v]? = some w)
    (hmem : cross u ∈ frame') : 0 < (s.putFrame v w frame').held u :=
  State.held_pos (State.workers_put_self hw) (Worker.mem_handles_of_frame (h := cross u) rfl hmem)

theorem Inv.executeCross {captured : List ℕ} (h : Inv [] [] s) (hw : s.workers[v]? = some w)
    (hphase : w.phase = .running frame) (hsub : (captured.map cross).Subperm frame)
    (hmem : cross u ∈ frame.diff (captured.map cross)) :
    Inv [] [] ((s.putFrame v w (frame.diff (captured.map cross))).execute u captured) :=
  (h.takeFrame hw hphase hsub).execute (Nat.add_pos_left (State.held_pos_of_frame hw hmem) _)

theorem Inv.give (h : Inv [] [] s) (hw : s.workers[v]? = some w)
    (hphase : w.phase = .running frame) (hmem : cross u ∈ frame) :
    Inv [] [] { s.putFrame v w (frame.erase (cross u)) with outside := s.outside ++ [u] } := by
  refine (h.drop hw hphase hmem).move rfl (fun i => ?_) fun w hw => ?_
  · simp only [State.putFrame, State.put, List.count_append, List.count_nil, cross]
    omega
  · simpa [State.putFrame, State.put] using h.joinable w hw

theorem Inv.finish (h : Inv [] [] s) (hw : s.workers[v]? = some w)
    (hphase : w.phase = .running []) : Inv [] [] (s.put v { w with phase := .polling }) := by
  have hok := h.ok v w hw
  refine h.put hw
    { receiver := by simpa [hphase] using hok.receiver
      awake := fun _ _ => hok.awake (by simp [hphase]) (by simp [hphase])
      exited := by simp
      ready := by simp
      own := hok.own } fun u => ?_
  simp [Worker.handles, Phase.frame, hphase]

end Frame

/-! ## Steps of the pool -/

theorem Inv.lt_of_mem_threads (h : Inv [] [] s) (hv : v ∈ s.threads) : v < s.workers.length := by
  have hheld : 0 < s.held v := by
    have := List.count_pos_iff.mpr hv
    rw [State.held]
    omega
  obtain ⟨w, hw, -⟩ := h.live (v := v) (by simpa using hheld)
  exact (List.getElem?_eq_some_iff.mp hw).1

theorem Inv.shrink (h : Inv [] [] s) (hlast : s.threads.getLast? = some v) :
    Inv [] [v] { s with
      threads := s.threads.dropLast
      pending_joins := s.pending_joins ++ [v] } := by
  refine h.move rfl (fun u => ?_) fun w hw => ?_
  · have := count_dropLast hlast u
    simp only [List.count_nil]
    omega
  · simp only [List.mem_append, List.mem_singleton] at hw
    obtain (hw | rfl) | hw := hw
    · exact h.joinable w (List.mem_append_left _ hw)
    · exact h.lt_of_mem_threads (List.mem_of_getLast? hlast)
    · exact h.joinable w (List.mem_append_right _ hw)

theorem State.senders_start :
    s.start.senders u = s.senders u + [s.workers.length].count u := by
  simp only [senders, start, List.getElem?_append, List.count_singleton, beq_iff_eq]
  split_ifs with hlt heq heq
  · omega
  · rfl
  · simp [heq, Channel.new]
  · have hne : u - s.workers.length ≠ 0 := by omega
    simp [List.getElem?_eq_none (Nat.not_lt.mp hlt), hne]

theorem State.held_start : s.start.held u = s.held u + [s.workers.length].count u := by
  simp only [held, start, List.count_append, weight_append, weight_cons, weight_nil,
    Worker.handles, Channel.new, Phase.frame, List.nil_append, List.flatMap_nil, List.map_nil,
    List.count_nil]
  omega

theorem Inv.start (h : Inv [] [] s) : Inv [] [] s.start where
  counted u := by
    rw [State.senders_start, State.held_start]
    have := h.counted u
    omega
  ok i c hi := by
    rw [State.start, List.getElem?_append] at hi
    split_ifs at hi with hlt
    · exact h.ok i c hi
    · obtain ⟨hzero, rfl⟩ : i - s.workers.length = 0 ∧ c = ⟨.new, [], .polling⟩ := by
        rw [List.getElem?_singleton] at hi
        split_ifs at hi with hzero
        exact ⟨hzero, (Option.some.inj hi).symm⟩
      exact {
        receiver := by simp [Channel.new]
        awake := by simp [Channel.new]
        exited := by simp
        ready := by simp
        own := by simp [Channel.new] }
  joinable w hw := by
    have := h.joinable w hw
    simp only [State.start, List.length_append, List.length_singleton]
    omega

/-- Handles taken from outside are in hand. -/
theorem Inv.take {captured : List ℕ} (h : Inv [] [] s) (hsub : captured.Subperm s.outside) :
    Inv [] (captured ++ []) { s with outside := s.outside.diff captured } := by
  refine h.move rfl (fun u => ?_) fun w hw => h.joinable w hw
  have := count_diff hsub u
  simp only [List.append_nil, List.count_nil]
  omega

theorem Inv.schedule {k : ℕ} {captured : List ℕ} (h : Inv [] [] s)
    (hs : Pool.schedule s k captured = some s') : Inv [] [] s' := by
  rw [Pool.schedule] at hs
  split_ifs at hs with hempty hsub
  · obtain rfl := Option.some.inj hs
    exact h.move rfl (fun _ => rfl) fun w hw => h.joinable w hw
  · obtain ⟨v, hv, rfl⟩ := Option.map_eq_some_iff.mp hs
    refine (h.take hsub).execute ?_
    have := List.count_pos_iff.mpr (List.mem_of_getElem? hv)
    simp only [State.held]
    omega

theorem State.held_pos_of_outside (h : v ∈ s.outside) : 0 < s.held v := by
  have := List.count_pos_iff.mpr h
  rw [held]
  omega

theorem Inv.outsideClone (h : Inv [] [] s) (hmem : v ∈ s.outside) :
    Inv [] [] ({ s with outside := s.outside ++ [v] }.cloneSender v) := by
  have hmove : Inv [v] [] { s with outside := s.outside ++ [v] } :=
    h.move rfl (fun u => by simp only [List.count_append, List.count_nil]; omega)
      fun w hw => h.joinable w hw
  exact Inv.cancel (hmove.cloneSender (h.senders_pos (State.held_pos_of_outside hmem)))

theorem Inv.outsideDrop (h : Inv [] [] s) (hmem : v ∈ s.outside) :
    Inv [] [v] { s with outside := s.outside.erase v } := by
  refine h.move rfl (fun u => ?_) fun w hw => h.joinable w hw
  have := count_map_erase hmem id u
  simp only [List.map_id, id] at this
  simp only [List.count_nil]
  omega

theorem Inv.outsideExecute {captured : List ℕ} (h : Inv [] [] s) (hsub : captured.Subperm s.outside)
    (hmem : v ∈ s.outside.diff captured) :
    Inv [] [] ({ s with outside := s.outside.diff captured }.execute v captured) :=
  (h.take hsub).execute (Nat.add_pos_left (State.held_pos_of_outside hmem) _)

/-! ## Steps of `join` -/

/-- `join` goes on with the handle that it has. -/
theorem Inv.setJoin {join : Join} (h : Inv [] [] s) (hheld : join.held = s.join.held)
    (hwaits : ∀ w ∈ join.waitsFor, w < s.workers.length) : Inv [] [] { s with join := join } := by
  refine h.move rfl (fun u => by simp only [hheld]) fun w hw => ?_
  obtain hw | hw := List.mem_append.mp hw
  · exact h.joinable w (List.mem_append_left _ hw)
  · exact hwaits w hw

/-- What `join` does next. -/
inductive Joins (s : State) : State → Prop
  | lock : s.join = .idle → s.poisoned = false → Joins s { s with join := .threads }
  | pop {w : ℕ} : s.join = .threads → s.threads.getLast? = some w →
      Joins s { s with threads := s.threads.dropLast, join := .waiting w }
  | popped : s.join = .threads → s.threads.getLast? = none →
    Joins s { s with join := .pendingJoins }
  | joined {w : ℕ} {c : Worker} : s.join = .waiting w → s.workers[w]? = some c →
      c.phase = .exited → Joins s { s with join := .leaving w }
  | leave {w : ℕ} : s.join = .leaving w → Joins s ({ s with join := .threads }.dropSender w)
  | popPending {w : ℕ} : s.join = .pendingJoins → s.pending_joins.getLast? = some w →
      Joins s { s with pending_joins := s.pending_joins.dropLast, join := .waitingPending w }
  | done : s.join = .pendingJoins → s.pending_joins.getLast? = none →
      Joins s { s with join := .done }
  | joinedPending {w : ℕ} {c : Worker} : s.join = .waitingPending w → s.workers[w]? = some c →
      c.phase = .exited → Joins s { s with join := .pendingJoins }

theorem joins_of_step (hs : joinStep s = some s') : Joins s s' := by
  rw [joinStep] at hs
  split at hs
  next hjoin =>
    simp only [Option.ite_none_left_eq_some, Option.some.injEq, Bool.not_eq_true] at hs
    obtain ⟨hpoisoned, rfl⟩ := hs
    exact .lock hjoin hpoisoned
  next hjoin =>
    split at hs
    next w hlast => exact Option.some.inj hs ▸ .pop hjoin hlast
    next hnone => exact Option.some.inj hs ▸ .popped hjoin hnone
  next w hjoin =>
    obtain ⟨c, hc, hphase, hs⟩ := State.withWorker_eq hs
    exact Option.some.inj hs ▸ .joined hjoin hc hphase
  next w hjoin => exact Option.some.inj hs ▸ .leave hjoin
  next hjoin =>
    split at hs
    next w hlast => exact Option.some.inj hs ▸ .popPending hjoin hlast
    next hnone => exact Option.some.inj hs ▸ .done hjoin hnone
  next w hjoin =>
    obtain ⟨c, hc, hphase, hs⟩ := State.withWorker_eq hs
    exact Option.some.inj hs ▸ .joinedPending hjoin hc hphase
  next => cases hs

theorem Inv.joinStep (h : Inv [] [] s) (hs : Pool.joinStep s = some s') : Inv [] [] s' := by
  cases joins_of_step hs with
  | lock hjoin | popped hjoin | joined hjoin | done hjoin | joinedPending hjoin =>
      exact h.setJoin (by simp [hjoin, Join.held]) (by simp [Join.waitsFor])
  | @pop w hjoin hlast =>
      refine h.move rfl (fun u => ?_) fun i hi => ?_
      · have := count_dropLast hlast u
        simp only [Join.held, hjoin, List.count_nil] at this ⊢
        omega
      · obtain hi | hi := List.mem_append.mp hi
        · exact h.joinable i (List.mem_append_left _ hi)
        · obtain rfl : i = w := by simpa [Join.waitsFor] using hi
          exact h.lt_of_mem_threads (List.mem_of_getLast? hlast)
  | leave hjoin =>
      refine Inv.dropSender (h.move rfl (fun u => ?_) fun i hi => h.joinable i ?_)
      · simp only [hjoin, Join.held, List.count_nil]
        omega
      · simpa [hjoin, Join.waitsFor] using hi
  | @popPending w hjoin hlast =>
      refine h.move rfl (fun _ => by simp [hjoin, Join.held]) fun i hi => h.joinable i ?_
      simp only [Join.waitsFor, hjoin, List.append_nil] at hi ⊢
      rwa [List.dropLast_append_getLast? w hlast] at hi

/-- **A step keeps the invariant.** -/
theorem Inv.step (h : Inv [] [] s) (hs : Pool.step s l = some s') : Inv [] [] s' := by
  cases l with
  | shrink =>
      obtain ⟨-, hs⟩ := State.withPool_eq hs
      obtain ⟨w, hlast, rfl⟩ := Option.map_eq_some_iff.mp hs
      exact (h.shrink hlast).dropSender
  | grow =>
      obtain ⟨-, hs⟩ := State.withPool_eq hs
      exact Option.some.inj hs ▸ h.start
  | schedule k captured =>
      obtain ⟨-, hs⟩ := State.withPool_eq hs
      exact h.schedule hs
  | outsideClone v =>
      simp only [Pool.step, Option.ite_none_right_eq_some, Option.some.injEq] at hs
      obtain ⟨hmem, rfl⟩ := hs
      exact h.outsideClone hmem
  | outsideDrop v =>
      simp only [Pool.step, Option.ite_none_right_eq_some, Option.some.injEq] at hs
      obtain ⟨hmem, rfl⟩ := hs
      exact (h.outsideDrop hmem).dropSender
  | outsideExecute v captured =>
      simp only [Pool.step, Option.ite_none_right_eq_some, Option.some.injEq] at hs
      obtain ⟨⟨hsub, hmem⟩, rfl⟩ := hs
      exact h.outsideExecute hsub hmem
  | poll v =>
      obtain ⟨w, hw, hphase, hs⟩ := State.withWorker_eq hs
      exact h.poll hw hphase hs
  | tryRecv v =>
      obtain ⟨w, hw, hphase, hs⟩ := State.withWorker_eq hs
      exact Option.some.inj hs ▸ h.tryRecv hw hphase
  | runOneTask v =>
      obtain ⟨w, hw, hphase, hs⟩ := State.withWorker_eq hs
      exact Option.some.inj hs ▸ h.runOneTask hw hphase
  | clone v h' =>
      obtain ⟨w, frame, hw, hphase, hmem, rfl⟩ := State.withFrame_eq hs
      exact h.clone hw hphase hmem
  | drop v h' =>
      obtain ⟨w, frame, hw, hphase, hmem, rfl⟩ := State.withFrame_eq hs
      exact (h.drop hw hphase hmem).dropSender
  | convert v =>
      obtain ⟨w, frame, hw, hphase, hmem, rfl⟩ := State.withFrame_eq hs
      exact h.convert hw hphase hmem
  | executeLocal v captured =>
      obtain ⟨w, frame, hw, hphase, ⟨hsub, hmem⟩, rfl⟩ := State.withFrame_eq hs
      exact h.executeLocal hw hphase hsub hmem
  | executeCross v u captured =>
      obtain ⟨w, frame, hw, hphase, ⟨hsub, hmem⟩, rfl⟩ := State.withFrame_eq hs
      exact h.executeCross hw hphase hsub hmem
  | give v u =>
      obtain ⟨w, frame, hw, hphase, hmem, rfl⟩ := State.withFrame_eq hs
      exact h.give hw hphase hmem
  | finish v =>
      obtain ⟨w, hw, hphase, hs⟩ := State.withWorker_eq hs
      exact Option.some.inj hs ▸ h.finish hw hphase
  | join => exact h.joinStep hs

theorem Inv.inductive : machine.Inductive (fun _ _ => True) (Inv [] []) where
  init :=
    { counted := by simp [machine, fresh, State.senders, State.held, Join.held]
      ok := by simp [machine, fresh]
      joinable := by simp [machine, fresh, Join.waitsFor] }
  step _ _ _ h _ hs := h.step hs

end SendersReceivers.Pool
