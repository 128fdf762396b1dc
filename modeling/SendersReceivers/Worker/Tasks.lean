import SendersReceivers.Worker.Invariant

/-!
# Worker/Tasks — every task is run once, in order, before `run` returns

Each queued task has a sender, and so does each handle; `run` returns when it finds both queues
empty and no sender left, so nothing is in a queue then, and nothing can get there any more.
-/

namespace SendersReceivers.Worker

open Machinery Pool

/-- **What a worker makes of its tasks.** -/
structure RunsTasks (s : State) : Prop where
  /-- no task is run twice -/
  once : s.ran.Nodup
  /-- the tasks are run in the order in which they have entered the local queue -/
  local_order : s.ran <+: s.entered
  /-- those of the cross-thread queue are run in the order in which they were sent -/
  cross_order : s.ran.filter (fun id => id ∈ s.sent) <+: s.sent
  senders : s.channel.queue.length + s.tasks.length ≤ s.channel.cnt_sender
  /-- when `run` has returned, all that was accepted has been run, and no handle is left -/
  finished : ∀ r ∈ s.results, r.outcome = .finished →
    (∀ id, id ∈ s.sent ∨ id ∈ s.entered → id ∈ s.ran) ∧ s.handles = 0 ∧ s.sending = []
  /-- `run` does not panic: there is a task when it runs one, and on the thread of the worker -/
  asserts : ∀ r ∈ s.results, r.call = .run → r.outcome = .finished
  panics : s.panics = []

section

variable {me : ℕ} {s : State}

/-- Without a sender, the queues are empty. -/
theorem Inv.drained (h : Inv me s) (hzero : s.channel.cnt_sender = 0) :
    s.handles = 0 ∧ s.sending = [] ∧ s.mutex.sends = [] ∧ s.channel.queue = [] ∧ s.tasks = [] := by
  have hsenders := h.senders
  simp only [State.queued] at hsenders
  exact ⟨by omega, List.length_eq_zero_iff.mp (by omega), List.length_eq_zero_iff.mp (by omega),
    List.length_eq_zero_iff.mp (by omega), List.length_eq_zero_iff.mp (by omega)⟩

/-- Only without a sender does a call report that there is none. -/
theorem Inv.senders_of_told (h : Inv me s) {r : Result} (hr : r ∈ s.results)
    (hd : r.disconnected) : s.channel.cnt_sender = 0 := by
  by_contra hne
  have hfalse := (h.live (Nat.pos_of_ne_zero hne)).2
  exact absurd (List.any_eq_true.mpr ⟨r, hr, hd⟩) (Bool.eq_false_iff.mp hfalse)

theorem Inv.entered_nodup (h : Inv me s) : s.entered.Nodup := (List.nodup_append.mp h.nodup).2.1

/-- **A worker runs its tasks once, in order, and all of them**, in every run of the worker and of
the threads that send to it. -/
theorem worker_runs_tasks (me : ℕ) (origin : Origin) (as : List Label) (s : State)
    (h : (machine me origin).Run (fun _ _ => True) as s) : RunsTasks s := by
  have hinv := (Inv.inductive me origin).of_run h
  have horder : s.ran <+: s.entered := ⟨_, hinv.entered.symm⟩
  refine
    { once := hinv.entered_nodup.sublist horder.sublist
      local_order := horder
      cross_order := ?_
      senders := ?_
      finished := fun r hr hf => ?_
      asserts := fun r hr hrun => ?_
      panics := hinv.panics }
  · have hsent : s.entered.filter (fun id => id ∈ s.sent) <+: s.sent := ⟨_, hinv.sent.symm⟩
    exact (horder.filter _).trans hsent
  · have hsenders := hinv.senders
    simp only [State.queued] at hsenders
    omega
  · have hzero := hinv.senders_of_told hr (by simp [Result.disconnected, hf])
    obtain ⟨hhandles, hsending, -, hqueue, htasks⟩ := hinv.drained hzero
    refine ⟨fun id hid => ?_, hhandles, hsending⟩
    have hentered : id ∈ s.entered := hid.elim
      (fun hsent => by simpa [hqueue] using hinv.sent_subset hsent) fun hentered => hentered
    have hran := hinv.entered
    rw [htasks, List.map_nil, List.append_nil] at hran
    exact hran ▸ hentered
  · rcases hinv.results r hr with hfaithful | rfl
    · unfold Result.Faithful at hfaithful
      split at hfaithful
      next hf => exact hf
      next hcall _ => simp [hrun] at hcall
      next => exact hfaithful.elim
    · simp [Result.failed] at hrun

end

/-- Three tasks: one that the owner enqueues, one that another thread sends while the first is run,
and one that this one executes. -/
def threeTasks : List Label :=
  [.executeLocal, .call .run, .poll, .runOneTask, .execute, .send 0, .push, .drop, .finish, .poll,
    .tryRecv, .tryRecv, .runOneTask, .executeLocal, .drop, .finish, .poll, .runOneTask, .drop,
    .drop, .wake, .finish, .poll, .tryRecv]

theorem threeTasks_finished :
    ∃ s, (machine 7 .new).Run (fun _ _ => True) threeTasks s ∧
      s.results = [⟨.run, .finished, 3⟩] ∧ s.ran = [0, 1, 2] ∧ s.sent = [1] ∧ RunsTasks s := by
  obtain ⟨s, hs, hresults, hran, hsent⟩ : ∃ s, (machine 7 .new).exec (fresh 7 .new) threeTasks =
      some s ∧ s.results = [⟨.run, .finished, 3⟩] ∧ s.ran = [0, 1, 2] ∧ s.sent = [1] :=
    Machine.exec_ends (by decide +kernel)
  have hrun : (machine 7 .new).Run (fun _ _ => True) threeTasks s := .of_exec (by decide +kernel) hs
  exact ⟨s, hrun, hresults, hran, hsent, worker_runs_tasks 7 .new threeTasks s hrun⟩

end SendersReceivers.Worker
