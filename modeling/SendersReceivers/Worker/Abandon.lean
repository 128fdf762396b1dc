import SendersReceivers.Machinery.Threads
import SendersReceivers.Sync.Channels

/-!
# Worker/Abandon — the end of a worker, and what its queues keep alive

A `Worker` may go before its queues are empty: it is dropped, or a task panics and `run` unwinds.
Its fields go one after the other, and meanwhile other threads may send.

    stc_sender ──▸ stc_recv ──▸ xtc_recv ──▸ gone
                              ▴
                    execute ──┘

A channel goes with its last sender and its receiver, and what is queued in it goes with it.  But a
queued task is an owner: every task has a sender of the cross-thread channel, and the function of a
task that is not sent may have a `ThreadLocalPool`, with a sender of the same-thread channel.

Where the handles are that are not in a queue is left open: the frame of a task, a destructor, or
another thread may have them.  And what a queued task owns may change, for its function may have a
cell in common with others: `Rc<RefCell<Option<ThreadLocalPool>>>`, if it is not sent.
-/

namespace SendersReceivers.Abandon

open Machinery Pool

/-- `Task` and `SendTask`, with how many `CrossThreadPool`s and `ThreadLocalPool`s of this worker
the function owns. -/
structure Task where
  id : ℕ
  cross : ℕ
  pools : ℕ
  deriving DecidableEq

/-- A call of `Worker::run`, or of `Worker::run_one`. -/
inductive Call where
  | run
  | runOne (block : Bool)
  deriving DecidableEq

/-- Where the worker is. -/
inductive Phase where
  /-- between two calls -/
  | idle
  | polling (c : Call)
  | draining (c : Call)
  | ready (c : Call)
  | running (c : Call)
  /-- about to drop `stc_sender`, `stc_recv`, `xtc_recv` -/
  | droppingSender
  | droppingRecv
  | droppingCross
  | gone
  deriving DecidableEq

/-- The worker with its channels, and the handles that are in neither.  The last fields record the
tasks: the next one, those that a channel has accepted, that were run, and that were destroyed; and
the panics. -/
structure State where
  channel : Channel Task
  stc : Sync.SameThread.Channel Task
  phase : Phase
  cross : ℕ
  pools : ℕ
  next : ℕ
  accepted : List ℕ
  ran : List ℕ
  destroyed : List ℕ
  panics : List String

/-- What can happen next. -/
inductive Label where
  /-- a `CrossThreadPool` is cloned, or dropped -/
  | cloneCross
  | dropCross
  /-- a `ThreadLocalPool` is cloned, dropped, or made a `CrossThreadPool` -/
  | clonePool
  | dropPool
  | convert
  /-- `CrossThreadPool::execute`, `ThreadLocalPool::execute`, with what the function owns -/
  | execute (cross : ℕ)
  | executeLocal (cross pools : ℕ)
  /-- handles are put into a cell of the function of the `i`-th queued task, or taken out of it: now
  it owns `cross` and `pools` -/
  | shareSent (i cross : ℕ)
  | share (i cross pools : ℕ)
  | call (c : Call)
  | poll
  /-- `poll` fails -/
  | pollError
  | tryRecv
  | runOneTask
  | finish
  /-- the task panics -/
  | panic
  /-- the owner drops the worker -/
  | drop
  /-- the next field of the worker is dropped -/
  | dropField
  /-- a channel without senders and receiver destroys what it has queued, one task after the other
  -/
  | destroyLocal
  | destroyCross
  deriving DecidableEq

/-! ## The functions of the source -/

/-- Whether `poll` has no timeout. -/
def Call.blocks (c : Call) (s : State) : Prop :=
  match c with
  | .run => s.stc.queue = []
  | .runOne block => block = true ∧ s.stc.queue = []

instance (c : Call) (s : State) : Decidable (c.blocks s) :=
  match c with
  | .run => inferInstanceAs (Decidable (_ = []))
  | .runOne _ => inferInstanceAs (Decidable (_ ∧ _ = []))

/-- Where the worker is after a call has unwound or returned an error: `run` owns it. -/
def Call.unwound : Call → Phase
  | .run => .droppingSender
  | .runOne _ => .idle

/-- Where the worker is after it has run a task. -/
def Call.finished : Call → Phase
  | .run => .polling .run
  | .runOne _ => .idle

/-- Where it is when there is no task, and why. -/
def Call.taskless (c : Call) (error : TryRecvError) : Phase :=
  match c, error with
  | .run, .disconnected => .droppingSender
  | .run, .empty => .polling .run
  | .runOne _, _ => .idle

namespace State

/-- `CrossThreadPool::execute` with a function that owns `cross` handles: a sender is cloned for the
task, and goes with it if the send fails. -/
def execute (s : State) (cross : ℕ) : State :=
  if s.channel.has_receiver then
    { s with
      channel := { s.channel.cloneSender.wake with
        queue := s.channel.queue ++ [⟨s.next, cross, 0⟩] }
      cross := s.cross - cross
      next := s.next + 1
      accepted := s.accepted ++ [s.next] }
  else { s with panics := s.panics ++ ["receiver remains active"] }

/-- `ThreadLocalPool::execute`. -/
def executeLocal (s : State) (cross pools : ℕ) : State :=
  if s.stc.has_receiver then
    { s with
      channel := s.channel.cloneSender
      stc := { s.stc with queue := s.stc.queue ++ [⟨s.next, cross, pools⟩] }
      cross := s.cross - cross
      pools := s.pools - pools
      next := s.next + 1
      accepted := s.accepted ++ [s.next] }
  else { s with panics := s.panics ++ ["receiver remains active"] }

/-- The channel after the drop of a sender. -/
def dropSender (s : State) : State :=
  match s.channel.dropSender with
  | .ok channel => { s with channel := channel }
  | .error _ => { s with panics := s.panics ++ ["assertion failed: channel.cnt_sender > 0"] }

/-- The same-thread channel after the drop of a sender. -/
def dropStcSender (s : State) : State :=
  if s.stc.cnt_sender = 0 then
    { s with panics := s.panics ++ ["assertion failed: channel.cnt_sender > 0"] }
  else { s with stc := { s.stc with cnt_sender := s.stc.cnt_sender - 1 } }

/-- The function of the `i`-th task of the cross-thread queue comes to own `cross` handles. -/
def shareSent (s : State) (i : ℕ) (t : Task) (cross : ℕ) : State :=
  { s with
    channel := { s.channel with queue := s.channel.queue.set i { t with cross := cross } }
    cross := s.cross + t.cross - cross }

/-- …and that of the `i`-th task of the same-thread queue `cross` and `pools`. -/
def share (s : State) (i : ℕ) (t : Task) (cross pools : ℕ) : State :=
  { s with
    stc := { s.stc with
      queue := s.stc.queue.set i { t with cross := cross, pools := pools } }
    cross := s.cross + t.cross - cross
    pools := s.pools + t.pools - pools }

/-- What a task has owned is in the hands of whoever destroys it; its own `xtc_sender` is dropped.
-/
def destroy (s : State) (t : Task) : State :=
  { s with
    cross := s.cross + t.cross
    pools := s.pools + t.pools
    destroyed := s.destroyed ++ [t.id] }.dropSender

end State

/-- **The step function.** -/
def step (s : State) : Label → Option State
  | .cloneCross =>
      if 0 < s.cross then some { s with cross := s.cross + 1, channel := s.channel.cloneSender }
      else none
  | .dropCross => if 0 < s.cross then some { s with cross := s.cross - 1 }.dropSender else none
  | .clonePool =>
      if 0 < s.pools then
        some { s with
          pools := s.pools + 1
          stc := { s.stc with cnt_sender := s.stc.cnt_sender + 1 }
          channel := s.channel.cloneSender }
      else none
  | .dropPool =>
      if 0 < s.pools then some { s with pools := s.pools - 1 }.dropStcSender.dropSender else none
  | .convert =>
      if 0 < s.pools then
        some { s with pools := s.pools - 1, cross := s.cross + 1 }.dropStcSender
      else none
  | .execute cross => if cross < s.cross then some (s.execute cross) else none
  | .executeLocal cross pools =>
      if cross ≤ s.cross ∧ pools < s.pools then some (s.executeLocal cross pools) else none
  | .shareSent i cross =>
      match s.channel.queue[i]? with
      | some t => if cross ≤ s.cross + t.cross then some (s.shareSent i t cross) else none
      | none => none
  | .share i cross pools =>
      match s.stc.queue[i]? with
      | some t =>
          if cross ≤ s.cross + t.cross ∧ pools ≤ s.pools + t.pools then
            some (s.share i t cross pools)
          else none
      | none => none
  | .call c => if s.phase = .idle then some { s with phase := .polling c } else none
  | .poll =>
      match s.phase with
      | .polling c =>
          if s.channel.waker then
            some { s with channel := { s.channel with waker := false }, phase := .draining c }
          else if c.blocks s then none
          else some { s with phase := .ready c }
      | _ => none
  | .pollError =>
      match s.phase with
      | .polling c => some { s with phase := c.unwound }
      | _ => none
  | .tryRecv =>
      match s.phase with
      | .draining c =>
          match s.channel.tryPop with
          | .ok (task, channel) =>
              some { s with
                channel := channel
                stc := { s.stc with queue := s.stc.queue ++ [task] } }
          | .error error =>
              some { s with phase := if s.stc.queue = [] then c.taskless error else .ready c }
      | _ => none
  | .runOneTask =>
      match s.phase with
      | .ready c =>
          match s.stc.queue with
          | task :: queue =>
              -- the function gets a `ThreadLocalPool` with the `xtc_sender` of the task
              some { s with
                stc := { s.stc with queue := queue, cnt_sender := s.stc.cnt_sender + 1 }
                phase := .running c
                cross := s.cross + task.cross
                pools := s.pools + task.pools + 1
                ran := s.ran ++ [task.id] }
          | [] =>
              some { s with
                phase := c.unwound, panics := s.panics ++ ["assertion failed: did_run_a_task"] }
      | _ => none
  | .finish =>
      match s.phase with
      | .running c => some { s with phase := c.finished }
      | _ => none
  | .panic =>
      match s.phase with
      | .running c => some { s with phase := c.unwound }
      | _ => none
  | .drop => if s.phase = .idle then some { s with phase := .droppingSender } else none
  | .dropField =>
      match s.phase with
      | .droppingSender => some { s with phase := .droppingRecv }.dropStcSender
      | .droppingRecv =>
          some { s with phase := .droppingCross, stc := { s.stc with has_receiver := false } }
      | .droppingCross =>
          some { s with phase := .gone, channel := s.channel.dropReceiver }
      | _ => none
  | .destroyLocal =>
      if s.stc.has_receiver = false ∧ s.stc.cnt_sender = 0 then
        match s.stc.queue with
        | task :: queue => some ({ s with stc := { s.stc with queue := queue } }.destroy task)
        | [] => none
      else none
  | .destroyCross =>
      if s.channel.has_receiver = false ∧ s.channel.cnt_sender = 0 then
        match s.channel.queue with
        | task :: queue =>
            some ({ s with channel := { s.channel with queue := queue } }.destroy task)
        | [] => none
      else none

/-- `Worker::new`: the worker, and a `ThreadLocalPool`. -/
def fresh : State where
  channel := .new
  stc := ⟨true, 2, []⟩
  phase := .idle
  cross := 0
  pools := 1
  next := 0
  accepted := []
  ran := []
  destroyed := []
  panics := []

/-- A worker. -/
def machine : Machine State Label where
  init := fresh
  step := step

end SendersReceivers.Abandon
