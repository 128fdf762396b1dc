import SendersReceivers.Machinery.Runs
import SendersReceivers.Machinery.Threads
import SendersReceivers.Pool.Channel

/-!
# Pool/Machine — a thread pool, its workers, and `join`

Every worker has a channel of its own.  The pool has a handle of each worker in `threads`, every
queued task has one of the worker it is queued on, and the function of a task gets that one when it
is run; what such a function then does with the handles it owns is left open here.

    pool ──handle──▸ worker ◂──handle── task ◂── channel of the worker

A worker stops when no handle of it is left.  `join` holds the mutex of the pool all along.
-/

namespace SendersReceivers.Pool

open Machinery

/-- A `ThreadLocalPool` or a `CrossThreadPool` of a worker: both have an `xtc_sender`, and a local
one can be used on the thread of its worker only. -/
structure Handle where
  worker : ℕ
  isLocal : Bool
  deriving DecidableEq

/-- `Task` and `SendTask`: the worker whose `xtc_sender` it has, and the handles its function
owns. -/
structure Task where
  xtc_sender : ℕ
  captured : List Handle
  deriving DecidableEq

/-- Where a worker is in `Worker::run`. -/
inductive Phase where
  /-- about to poll, or blocked there -/
  | polling
  /-- in `poll_move_send_tasks_to_tasks` -/
  | draining
  /-- about to call `run_one_task` -/
  | ready
  /-- inside the function of a task that owns these handles -/
  | running (frame : List Handle)
  | exited
  deriving DecidableEq

/-- A worker; `tasks` is the queue of its same-thread channel. -/
structure Worker where
  channel : Channel Task
  tasks : List Task
  phase : Phase

/-- Where the thread is that calls `ThreadPool::join`. -/
inductive Join where
  | idle
  /-- at the head of the loop over `threads` -/
  | threads
  /-- in `h.join()`, with the other half of the pair still in the scrutinee -/
  | waiting (w : ℕ)
  /-- at the end of that iteration, which drops it -/
  | leaving (w : ℕ)
  /-- at the head of the loop over `pending_joins` -/
  | pendingJoins
  | waitingPending (w : ℕ)
  | done
  deriving DecidableEq

/-- The pool with all the workers it ever started.  `outside` are the handles of workers that are
neither in the pool nor with a task. -/
structure State where
  workers : List Worker
  threads : List ℕ
  pending_joins : List ℕ
  poisoned : Bool
  join : Join
  outside : List ℕ
  panics : List String

/-- What can happen next. -/
inductive Label where
  /-- one iteration of the first loop of `set_thread_count` -/
  | shrink
  /-- one iteration of its second loop -/
  | grow
  /-- an operation that was scheduled on the pool is started, and draws worker `k` -/
  | schedule (k : ℕ) (captured : List ℕ)
  /-- a thread outside clones a handle, drops one, or executes a task -/
  | outsideClone (v : ℕ)
  | outsideDrop (v : ℕ)
  | outsideExecute (v : ℕ) (captured : List ℕ)
  | poll (v : ℕ)
  | tryRecv (v : ℕ)
  | runOneTask (v : ℕ)
  /-- the function that worker `v` runs clones a handle, drops one, makes a local one a cross-thread
  one, executes a task here or there, gives a handle away, or returns -/
  | clone (v : ℕ) (h : Handle)
  | drop (v : ℕ) (h : Handle)
  | convert (v : ℕ)
  | executeLocal (v : ℕ) (captured : List Handle)
  | executeCross (v u : ℕ) (captured : List ℕ)
  | give (v u : ℕ)
  | finish (v : ℕ)
  /-- the thread that calls `join` goes on -/
  | join
  deriving DecidableEq

/-- `CrossThreadPool` of worker `v`. -/
def cross (v : ℕ) : Handle := ⟨v, false⟩

/-- `ThreadLocalPool` of worker `v`. -/
def tlp (v : ℕ) : Handle := ⟨v, true⟩

/-! ## The functions of the source -/

namespace State

/-- Worker `v` becomes `w`. -/
def put (s : State) (v : ℕ) (w : Worker) : State := { s with workers := s.workers.set v w }

/-- An operation on the channel of worker `v`; `expect` and `assert!` panic with `message`. -/
def withChannel (s : State) (v : ℕ) (message : String)
    (f : Channel Task → Except ChannelError (Channel Task)) : State :=
  match s.workers[v]? with
  | some w =>
      match f w.channel with
      | .ok channel => s.put v { w with channel := channel }
      | .error _ => { s with panics := s.panics ++ [message] }
  | none => s

/-- A handle of worker `v` is cloned. -/
def cloneSender (s : State) (v : ℕ) : State :=
  s.withChannel v "" fun channel => .ok channel.cloneSender

/-- A handle of worker `v` is dropped. -/
def dropSender (s : State) (v : ℕ) : State :=
  s.withChannel v "assertion failed: channel.cnt_sender > 0" Channel.dropSender

/-- `CrossThreadPool::execute` for worker `v`, with a function that owns the handles `captured`. -/
def execute (s : State) (v : ℕ) (captured : List ℕ) : State :=
  (s.cloneSender v).withChannel v "receiver remains active" fun channel =>
    channel.push ⟨v, captured.map cross⟩

/-- `Worker::start` and `self.threads.push`. -/
def start (s : State) : State :=
  { s with
    workers := s.workers ++ [⟨.new, [], .polling⟩]
    threads := s.threads ++ [s.workers.length] }

end State

/-- What worker `v` does in `poll`: it blocks without a wake-up, unless it has tasks. -/
def poll (s : State) (v : ℕ) (w : Worker) : Option State :=
  if w.channel.waker then
    some (s.put v { w with channel := { w.channel with waker := false }, phase := .draining })
  else if w.tasks = [] then none
  else some (s.put v { w with phase := .ready })

/-- One iteration of `poll_move_send_tasks_to_tasks`, and what `run` makes of its result. -/
def tryRecv (s : State) (v : ℕ) (w : Worker) : State :=
  match w.channel.tryPop with
  | .ok (task, channel) => s.put v { w with channel := channel, tasks := w.tasks ++ [task] }
  | .error error =>
      if w.tasks = [] then
        match error with
        | .empty => s.put v { w with phase := .polling }
        | .disconnected =>
            s.put v { w with channel := w.channel.dropReceiver, phase := .exited }
      else s.put v { w with phase := .ready }

/-- `Worker::run_one_task`, and the beginning of `Task::invoke`. -/
def runOneTask (s : State) (v : ℕ) (w : Worker) : State :=
  match w.tasks with
  | task :: tasks =>
      s.put v { w with tasks := tasks, phase := .running (tlp task.xtc_sender :: task.captured) }
  | [] => { s with panics := s.panics ++ ["assertion failed: did_run_a_task"] }

/-- What happens to worker `v` if it is in such a phase. -/
def State.withWorker (s : State) (v : ℕ) (phase : Phase) (f : Worker → Option State) :
    Option State :=
  s.workers[v]?.bind fun w => if w.phase = phase then f w else none

/-- What the function does that worker `v` runs, with the handles `frame`. -/
def State.withFrame (s : State) (v : ℕ) (f : Worker → List Handle → Option State) : Option State :=
  s.workers[v]?.bind fun w =>
    match w.phase with
    | .running frame => f w frame
    | _ => none

/-- The frame of worker `v` becomes `frame`. -/
def State.putFrame (s : State) (v : ℕ) (w : Worker) (frame : List Handle) : State :=
  s.put v { w with phase := .running frame }

/-- What a thread does that takes the mutex of the pool. -/
def State.withPool (s : State) (next : Option State) : Option State :=
  if s.join = .idle ∧ s.poisoned = false then next else none

/-- `ThreadPoolOperationState::start`: drawing from no threads at all panics, under the mutex. -/
def schedule (s : State) (k : ℕ) (captured : List ℕ) : Option State :=
  if s.threads = [] then
    some { s with poisoned := true, panics := s.panics ++ ["cannot sample empty range"] }
  else if captured.Subperm s.outside then
    s.threads[k]?.map fun v =>
      { s with outside := s.outside.diff captured }.execute v captured
  else none

/-- `ThreadPoolState::join`, one step of it.  The pattern `Some((_, h))` leaves the handle of the
worker in the scrutinee, where it is dropped at the end of the iteration. -/
def joinStep (s : State) : Option State :=
  match s.join with
  | .idle => if s.poisoned then none else some { s with join := .threads }
  | .threads =>
      match s.threads.getLast? with
      | some w => some { s with threads := s.threads.dropLast, join := .waiting w }
      | none => some { s with join := .pendingJoins }
  | .waiting w => s.withWorker w .exited fun _ => some { s with join := .leaving w }
  | .leaving w => some ({ s with join := .threads }.dropSender w)
  | .pendingJoins =>
      match s.pending_joins.getLast? with
      | some w =>
          some { s with pending_joins := s.pending_joins.dropLast, join := .waitingPending w }
      | none => some { s with join := .done }
  | .waitingPending w => s.withWorker w .exited fun _ => some { s with join := .pendingJoins }
  | .done => none

/-- **The step function.** -/
def step (s : State) : Label → Option State
  | .shrink =>
      s.withPool <| s.threads.getLast?.map fun w =>
        { s with
          threads := s.threads.dropLast
          pending_joins := s.pending_joins ++ [w] }.dropSender w
  | .grow => s.withPool (some s.start)
  | .schedule k captured => s.withPool (schedule s k captured)
  | .outsideClone v =>
      if v ∈ s.outside then some ({ s with outside := s.outside ++ [v] }.cloneSender v) else none
  | .outsideDrop v =>
      if v ∈ s.outside then some ({ s with outside := s.outside.erase v }.dropSender v) else none
  | .outsideExecute v captured =>
      if captured.Subperm s.outside ∧ v ∈ s.outside.diff captured then
        some ({ s with outside := s.outside.diff captured }.execute v captured)
      else none
  | .poll v => s.withWorker v .polling (poll s v)
  | .tryRecv v => s.withWorker v .draining fun w => some (tryRecv s v w)
  | .runOneTask v => s.withWorker v .ready fun w => some (runOneTask s v w)
  | .clone v h =>
      s.withFrame v fun w frame =>
        if h ∈ frame then some ((s.putFrame v w (h :: frame)).cloneSender h.worker) else none
  | .drop v h =>
      s.withFrame v fun w frame =>
        if h ∈ frame then some ((s.putFrame v w (frame.erase h)).dropSender h.worker) else none
  | .convert v =>
      s.withFrame v fun w frame =>
        if tlp v ∈ frame then some (s.putFrame v w (cross v :: frame.erase (tlp v))) else none
  | .executeLocal v captured =>
      s.withFrame v fun w frame =>
        if captured.Subperm frame ∧ tlp v ∈ frame.diff captured then
          some ((s.put v { w with
            tasks := w.tasks ++ [⟨v, captured⟩]
            phase := .running (frame.diff captured) }).cloneSender v)
        else none
  | .executeCross v u captured =>
      s.withFrame v fun w frame =>
        if (captured.map cross).Subperm frame ∧ cross u ∈ frame.diff (captured.map cross) then
          some ((s.putFrame v w (frame.diff (captured.map cross))).execute u captured)
        else none
  | .give v u =>
      s.withFrame v fun w frame =>
        if cross u ∈ frame then
          some { s.putFrame v w (frame.erase (cross u)) with outside := s.outside ++ [u] }
        else none
  | .finish v =>
      s.withWorker v (.running []) fun w => some (s.put v { w with phase := .polling })
  | .join => joinStep s

/-- `ThreadPoolState::new`, before its first `set_thread_count`. -/
def fresh : State where
  workers := []
  threads := []
  pending_joins := []
  poisoned := false
  join := .idle
  outside := []
  panics := []

/-- A thread pool. -/
def machine : Machine State Label where
  init := fresh
  step := step

end SendersReceivers.Pool
