import SendersReceivers.Machinery.Runs
import SendersReceivers.Pool.Channel

/-!
# Worker/Machine — one worker, its two queues, and the calls of `run` and `run_one`

What other threads send goes through the channel of the worker, under its mutex, and wakes the
worker up.  A poll that reports the wake-up moves all of it to the local queue, from which the tasks
are run.

    execute ──send──▸ queue ──try_recv──▸ tasks ──run_one_task──▸ running
                │                                   ▴
              wake ──▸ waker ──poll──▸ draining     │
                                 ThreadLocalPool::execute

A send and the drop of the last sender each take two steps inside of the mutex.  Where a pool handle
is, and which thread uses it, is left open: as long as there is one, it may be cloned, dropped or
used at any time.
-/

namespace SendersReceivers.Worker

open Machinery Pool

/-- `Task` and `SendTask`, each with a clone of the `xtc_sender`. -/
structure Task where
  id : ℕ
  thread_id : ℕ
  deriving DecidableEq

/-- Who is inside of the mutex of the channel, half-way through. -/
inductive Section where
  | free
  /-- `Channel::push`, after `wake` -/
  | pushing (task : Task)
  /-- the drop of the last `Sender`, before `wake` -/
  | waking
  deriving DecidableEq

/-- A call of `Worker::run`, or of `Worker::run_one`. -/
inductive Call where
  | run
  | runOne (block : Bool)
  deriving DecidableEq

/-- Where the worker is. -/
inductive Phase where
  /-- between two calls -/
  | idle
  /-- about to poll, or blocked there -/
  | polling (c : Call)
  /-- in `poll_move_send_tasks_to_tasks` -/
  | draining (c : Call)
  /-- about to call `run_one_task` -/
  | ready (c : Call)
  /-- inside of the function of a task -/
  | running (c : Call)
  /-- the worker is gone -/
  | exited
  deriving DecidableEq

/-- How a call ends. -/
inductive Outcome where
  /-- `Ok(())` of `run` -/
  | finished
  /-- `Ok(did_run_a_task)` of `run_one` -/
  | ran (did_run_a_task : Bool)
  | panicked (message : String)
  deriving DecidableEq

/-- A call that has ended, and how many tasks it has run. -/
structure Result where
  call : Call
  outcome : Outcome
  count : ℕ
  deriving DecidableEq

/-- A worker, with the `handles` of it that are not in a task, and the tasks that are `sending`:
made by `execute`, and not yet in the mutex.  `thread_id` is the one that all its pools have.  From
`next` on the fields record: the next task, how many tasks the current call has run, which tasks
were sent, have entered the local queue, and were run, each in that order, how the calls have ended,
and the panics outside of them. -/
structure State where
  channel : Channel Task
  mutex : Section
  tasks : List Task
  phase : Phase
  thread_id : ℕ
  handles : ℕ
  sending : List Task
  next : ℕ
  count : ℕ
  sent : List ℕ
  entered : List ℕ
  ran : List ℕ
  results : List Result
  panics : List String

/-- What can happen next. -/
inductive Label where
  /-- a pool handle is cloned -/
  | clone
  /-- a pool handle is dropped, and, if it was the last one, wakes the worker -/
  | drop
  | wake
  /-- `CrossThreadPool::execute` makes a task, takes the mutex and wakes, and pushes the task -/
  | execute
  | send (i : ℕ)
  | push
  /-- `ThreadLocalPool::execute` -/
  | executeLocal
  /-- the owner of the worker calls it -/
  | call (c : Call)
  | poll
  | tryRecv
  | runOneTask
  /-- the function of the task returns -/
  | finish
  deriving DecidableEq

/-! ## The functions of the source -/

namespace State

/-- `Drop for Sender`, up to its `wake`. -/
def dropSender (s : State) : State :=
  match s.channel.countDown with
  | .ok channel =>
      { s with
        channel := channel
        mutex := if channel.cnt_sender = 0 then .waking else .free }
  | .error _ => { s with panics := s.panics ++ ["assertion failed: channel.cnt_sender > 0"] }

/-- `CrossThreadPool::execute`, up to its `send`. -/
def execute (s : State) : State :=
  { s with
    channel := s.channel.cloneSender
    sending := s.sending ++ [⟨s.next, s.thread_id⟩]
    next := s.next + 1 }

/-- `Channel::push` after its `wake`, and what `execute` makes of the result: a task that was not
accepted is dropped with its sender. -/
def push (s : State) (task : Task) : State :=
  match s.channel.enqueue task with
  | .ok channel =>
      { s with channel := channel, mutex := .free, sent := s.sent ++ [task.id] }
  | .error _ =>
      { s with
        mutex := .free
        handles := s.handles + 1
        panics := s.panics ++ ["receiver remains active"] }

/-- `ThreadLocalPool::execute`. -/
def executeLocal (s : State) : State :=
  { s with
    channel := s.channel.cloneSender
    tasks := s.tasks ++ [⟨s.next, s.thread_id⟩]
    next := s.next + 1
    entered := s.entered ++ [s.next] }

/-- The call ends; the one of `run` takes the worker along. -/
def leave (s : State) (c : Call) (outcome : Outcome) : State :=
  match c with
  | .run =>
      { s with
        channel := s.channel.dropReceiver
        phase := .exited
        results := s.results ++ [⟨c, outcome, s.count⟩] }
  | .runOne _ => { s with phase := .idle, results := s.results ++ [⟨c, outcome, s.count⟩] }

end State

/-- Whether the poll of a call has no timeout. -/
def Call.blocks (s : State) : Call → Bool
  | .run => s.tasks.isEmpty
  | .runOne block => block && s.tasks.isEmpty

/-- `Worker::poll` up to the loop over the events: without a wake-up it blocks, or there is no
event. -/
def poll (s : State) (c : Call) : Option State :=
  if s.channel.waker then
    some { s with channel := { s.channel with waker := false }, phase := .draining c }
  else if c.blocks s then none
  else some { s with phase := .ready c }

/-- One iteration of `poll_move_send_tasks_to_tasks`, and what the call makes of its result. -/
def tryRecv (s : State) (c : Call) : State :=
  match s.channel.tryPop with
  | .ok (task, channel) =>
      { s with
        channel := channel
        tasks := s.tasks ++ [task]
        entered := s.entered ++ [task.id] }
  | .error error =>
      if s.tasks.isEmpty then
        match c, error with
        | .run, .disconnected => s.leave c .finished
        | .run, .empty => { s with phase := .polling c }
        | .runOne _, _ => s.leave c (.ran false)
      else { s with phase := .ready c }

/-- `Worker::run_one_task` with its assertion, and the beginning of `Task::invoke` on thread
`me`. -/
def runOneTask (me : ℕ) (s : State) (c : Call) : State :=
  match s.tasks with
  | task :: tasks =>
      if task.thread_id = me then
        { s with
          tasks := tasks
          phase := .running c
          handles := s.handles + 1
          count := s.count + 1
          ran := s.ran ++ [task.id] }
      else
        { s with tasks := tasks, handles := s.handles + 1 }.leave c
          (.panicked "invocation should happen on the worker thread")
  | [] => s.leave c (.panicked "assertion failed: did_run_a_task")

/-- The function of the task has returned: the loop of `run` goes on, and `run_one` is done. -/
def finish (s : State) (c : Call) : State :=
  match c with
  | .run => { s with phase := .polling c }
  | .runOne _ => s.leave c (.ran true)

/-- **The step function** of a worker whose calls are made on thread `me`. -/
def step (me : ℕ) (s : State) : Label → Option State
  | .clone =>
      if s.mutex = .free ∧ 0 < s.handles then
        some { s with channel := s.channel.cloneSender, handles := s.handles + 1 }
      else none
  | .drop =>
      if s.mutex = .free ∧ 0 < s.handles then
        some { s with handles := s.handles - 1 }.dropSender
      else none
  | .wake =>
      if s.mutex = .waking then some { s with channel := s.channel.wake, mutex := .free } else none
  | .execute => if s.mutex = .free ∧ 0 < s.handles then some s.execute else none
  | .send i =>
      if s.mutex = .free then
        s.sending[i]?.map fun task =>
          { s with
            channel := s.channel.wake
            mutex := .pushing task
            sending := s.sending.eraseIdx i }
      else none
  | .push =>
      match s.mutex with
      | .pushing task => some (s.push task)
      | _ => none
  | .executeLocal =>
      match s.phase with
      | .idle | .running _ =>
          if s.mutex = .free ∧ 0 < s.handles then some s.executeLocal else none
      | _ => none
  | .call c => if s.phase = .idle then some { s with phase := .polling c, count := 0 } else none
  | .poll =>
      match s.phase with
      | .polling c => poll s c
      | _ => none
  | .tryRecv =>
      match s.phase with
      | .draining c => if s.mutex = .free then some (tryRecv s c) else none
      | _ => none
  | .runOneTask =>
      match s.phase with
      | .ready c => some (runOneTask me s c)
      | _ => none
  | .finish =>
      match s.phase with
      | .running c => some (finish s c)
      | _ => none

/-- Where a worker comes from: `Worker::new` returns it, with a `ThreadLocalPool`; the thread of
`Worker::start` calls `run` at once, and its `CrossThreadPool` is returned. -/
inductive Origin where
  | new
  | start
  deriving DecidableEq

/-- A worker at the beginning. -/
def fresh (me : ℕ) (origin : Origin) : State where
  channel := .new
  mutex := .free
  tasks := []
  phase :=
    match origin with
    | .new => .idle
    | .start => .polling .run
  thread_id := me
  handles := 1
  sending := []
  next := 0
  count := 0
  sent := []
  entered := []
  ran := []
  results := []
  panics := []

/-- A worker whose calls are made on thread `me`. -/
def machine (me : ℕ) (origin : Origin) : Machine State Label where
  init := fresh me origin
  step := step me

end SendersReceivers.Worker
