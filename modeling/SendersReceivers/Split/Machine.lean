import SendersReceivers.Foundations.Signal
import SendersReceivers.Machinery.Runs
import SendersReceivers.Machinery.Threads

/-!
# Split/Machine — the shared state of `Split` and `SplitSend`

Derived operations of one split share a completion state and the operation state of the upstream
chain, each behind its own lock: a `RefCell` in `Split`, a `Mutex` in `SplitSend`.  The source's
functions are lists of instructions here, one for each point at which another thread can come in,
and a step runs the next instruction of one thread.

    start o     lockState · check o · ...                    queue o, or call o at once
    upstream    lockState · assign sig · unlockState · invoke o₁ · invoke o₂ · ...

A user does what it likes: it starts operations, drops clones, and the code it runs inside a
receiver may start further operations, or panic.
-/

namespace SendersReceivers.Split

open Machinery

variable (Op P V E : Type)

/-- One step of a thread. -/
inductive Instr where
  | lockState
  | unlockState
  | lockOp
  | unlockOp
  /-- the `match &state.completion` of `SplitOpState::start` -/
  | check (o : Op)
  /-- `self.opstate.lock().unwrap().take()` -/
  | takeOp
  /-- inside `opstate.start()` of the upstream chain -/
  | upstreamStart
  /-- `assign_value`, `assign_error` or `assign_done` -/
  | assign (sig : Signal P V E)
  /-- the `match` of `ReceiverWrapper::invoke` -/
  | invoke (o : Op)
  /-- the derived receiver `o` is called -/
  | setSignal (o : Op) (sig : Signal P V E)
  /-- inside that call: code of the user -/
  | inside
  /-- a handle of the shared state goes out of scope -/
  | dropHandle
  deriving DecidableEq

/-- How far the upstream chain is: it ends by delivering a signal, or by the destruction of its
`CompletionReceiver`. -/
inductive Upstream where
  | idle
  | running
  | delivered (sig : Signal P V E)
  | dropped
  deriving DecidableEq

instance : (u : Upstream P V E) → Decidable (u = .idle)
  | .idle => .isTrue rfl
  | .running => .isFalse (by simp)
  | .delivered _ => .isFalse (by simp)
  | .dropped => .isFalse (by simp)

instance : (u : Upstream P V E) → Decidable (u = .running)
  | .running => .isTrue rfl
  | .idle => .isFalse (by simp)
  | .delivered _ => .isFalse (by simp)
  | .dropped => .isFalse (by simp)

/-- The state.  `completion` is `none` for `Completion::Pending`; `opstate` tells whether the
`Option<OpState>` still holds the upstream operation state; `strong` is the count of the shared
state.  From `upstream` on the fields record what has happened, and what users still own:
`handles` are the split clones and derived operation states not started yet. -/
structure State where
  completion : Option (Signal P V E)
  receivers : List Op
  stateLock : Option ℕ
  statePoisoned : Bool
  opstate : Bool
  opLock : Option ℕ
  opPoisoned : Bool
  strong : ℕ
  threads : List (List (Instr Op P V E))
  upstream : Upstream P V E
  upstreamStarts : ℕ
  handles : ℕ
  started : List Op
  calls : List (Op × Signal P V E)
  destroyed : List Op
  panics : List String

/-- What can happen next. -/
inductive Label where
  /-- a thread calls `start` on the derived operation `o` -/
  | start (o : Op)
  | clone
  | drop
  /-- thread `i` runs its next instruction -/
  | run (i : ℕ)
  /-- the receiver thread `i` is inside of starts the operation `o` -/
  | nested (i : ℕ) (o : Op)
  /-- the receiver thread `i` is inside of panics -/
  | panic (i : ℕ)
  /-- the upstream chain completes, on a thread of its own or inside `opstate.start()` -/
  | signal (sig : Signal P V E)
  | signalInline (i : ℕ) (sig : Signal P V E)
  /-- the upstream chain dies in a panic of its own, elsewhere or inside `opstate.start()` -/
  | die
  | dieInline (i : ℕ)

variable {Op P V E}

/-! ## The functions of the source -/

/-- `SplitOpState::start`; `check` puts in what its branches do. -/
def SplitOpState.start (o : Op) : List (Instr Op P V E) :=
  [.lockState, .check o, .dropHandle]

/-- `OpStateWrapper::ensure_started`: the guard of the `if let` lives until `start` has returned. -/
def OpStateWrapper.ensureStarted : List (Instr Op P V E) :=
  [.lockOp, .takeOp, .unlockOp]

/-- `ReceiverWrapper::invoke`: the guard is a temporary of the `match`, and lives as long. -/
def ReceiverWrapper.invoke (o : Op) : List (Instr Op P V E) :=
  [.lockState, .invoke o, .unlockState, .dropHandle]

/-- `CompletionReceiver::set_value`, `set_error` and `set_done`. -/
def CompletionReceiver.complete (sig : Signal P V E) : List (Instr Op P V E) :=
  [.lockState, .assign sig, .dropHandle]

/-- The receiver an instruction owns. -/
def Instr.owned : Instr Op P V E → Option Op
  | .check o => some o
  | .invoke o => some o
  | .setSignal o _ => some o
  | _ => none

/-- Whether an instruction is the drop of a handle. -/
def Instr.isDrop : Instr Op P V E → Bool
  | .dropHandle => true
  | _ => false

namespace State

/-- Thread `i` goes on with `code`; the threads `spawned` come into being. -/
def goto (s : State Op P V E) (i : ℕ) (code : List (Instr Op P V E))
    (spawned : List (List (Instr Op P V E))) : State Op P V E :=
  { s with threads := s.threads.set i code ++ spawned }

/-- The drop of one handle of the shared state; the last one destroys what is queued in it. -/
def release (s : State Op P V E) : State Op P V E :=
  if s.strong = 1 then
    { s with strong := 0, receivers := [], destroyed := s.destroyed ++ s.receivers }
  else { s with strong := s.strong - 1 }

/-- The `CompletionReceiver` is destroyed without having been called. -/
def die (s : State Op P V E) : State Op P V E := { s.release with upstream := .dropped }

/-- Thread `i` unwinds from a panic, `k` being what it had left to do: guards are dropped, poisoning
a `Mutex`, the receivers its frames own are destroyed, and of `k` only the drops run. -/
def unwind (send : Bool) (s : State Op P V E) (i : ℕ) (k : List (Instr Op P V E)) :
    State Op P V E :=
  { s with
    stateLock := if s.stateLock = some i then none else s.stateLock
    statePoisoned := s.statePoisoned || (send && s.stateLock = some i)
    opLock := if s.opLock = some i then none else s.opLock
    opPoisoned := s.opPoisoned || (send && s.opLock = some i)
    destroyed := s.destroyed ++ k.filterMap Instr.owned
    threads := s.threads.set i (k.filter Instr.isDrop) }

end State

/-- What a locking instruction does: it takes a free lock, waits for another thread, and for a lock
held by its own thread a `Mutex` waits forever while a `RefCell` panics.  A poisoned `Mutex`
panics. -/
inductive Locking where
  | taken
  | blocked
  | panics (message : String)

/-- `lock().unwrap()` of `SplitSend`, `borrow_mut()` of `Split`, by thread `i`. -/
def lock (send : Bool) (i : ℕ) (holder : Option ℕ) (poisoned : Bool) : Locking :=
  match holder with
  | none => if poisoned then .panics "PoisonError" else .taken
  | some j => if i = j ∧ send = false then .panics "BorrowMutError" else .blocked

/-- The next instruction of thread `i`, with `k` after it.  `send` tells `SplitSend` from
`Split`. -/
def exec (send : Bool) (s : State Op P V E) (i : ℕ) (k : List (Instr Op P V E)) :
    Instr Op P V E → Option (State Op P V E)
  | .lockState =>
      match lock send i s.stateLock s.statePoisoned with
      | .taken => some ({ s with stateLock := some i }.goto i k [])
      | .blocked => none
      | .panics e => some ({ s with panics := s.panics ++ [e] }.unwind send i k)
  | .unlockState => some ({ s with stateLock := none }.goto i k [])
  | .check o =>
      match s.completion with
      | some (.value (.pool p) value) =>
          some (s.goto i (.unlockState :: k) [[.setSignal o (.value (.pool p) value)]])
      | some sig => some (s.goto i (.setSignal o sig :: .unlockState :: k) [])
      | none =>
          some ({ s with receivers := s.receivers ++ [o], strong := s.strong + 1 }.goto i
            ((Instr.unlockState :: OpStateWrapper.ensureStarted) ++ k) [])
  | .lockOp =>
      match lock send i s.opLock s.opPoisoned with
      | .taken => some ({ s with opLock := some i }.goto i k [])
      | .blocked => none
      | .panics e => some ({ s with panics := s.panics ++ [e] }.unwind send i k)
  | .takeOp =>
      if s.opstate then
        some ({ s with
          opstate := false
          upstream := .running
          upstreamStarts := s.upstreamStarts + 1 }.goto i (.upstreamStart :: k) [])
      else some (s.goto i k [])
  | .upstreamStart => some (s.goto i k [])
  | .unlockOp => some ({ s with opLock := none }.goto i k [])
  | .assign sig =>
      match s.completion with
      | none =>
          some ({ s with completion := some sig, receivers := [] }.goto i
            ((Instr.unlockState :: s.receivers.flatMap ReceiverWrapper.invoke) ++ k) [])
      | some _ =>
          some ({ s with panics := s.panics ++ ["expected to be in the running state"] }.unwind
            send i k)
  | .invoke o =>
      match s.completion with
      | some sig => some (s.goto i (.setSignal o sig :: k) [])
      | none =>
          some ({ s with
            panics := s.panics ++
              ["ReceiverWrapper was invoked without a signal having been installed"] }.unwind
            send i (.invoke o :: k))
  | .setSignal o sig => some ({ s with calls := s.calls ++ [(o, sig)] }.goto i (.inside :: k) [])
  | .inside => some (s.goto i k [])
  | .dropHandle => some (s.release.goto i k [])

/-- **The step function** of one split. -/
def step [DecidableEq Op] (send : Bool) (s : State Op P V E) :
    Label Op P V E → Option (State Op P V E)
  | .start o =>
      if o ∉ s.started ∧ 0 < s.handles then
        some { s with
          started := s.started ++ [o]
          handles := s.handles - 1
          threads := s.threads ++ [SplitOpState.start o] }
      else none
  | .clone =>
      if 0 < s.handles then some { s with handles := s.handles + 1, strong := s.strong + 1 }
      else none
  | .drop => if 0 < s.handles then some { s.release with handles := s.handles - 1 } else none
  | .run i =>
      match s.threads[i]? with
      | some (ins :: k) => exec send s i k ins
      | _ => none
  | .nested i o =>
      match s.threads[i]? with
      | some (.inside :: k) =>
          if o ∉ s.started ∧ 0 < s.handles then
            some ({ s with started := s.started ++ [o], handles := s.handles - 1 }.goto i
              (SplitOpState.start o ++ (Instr.inside :: k)) [])
          else none
      | _ => none
  | .panic i =>
      match s.threads[i]? with
      | some (.inside :: k) => some (s.unwind send i k)
      | _ => none
  | .signal sig =>
      if s.upstream = .running then
        some { s with
          upstream := .delivered sig
          threads := s.threads ++ [CompletionReceiver.complete sig] }
      else none
  | .signalInline i sig =>
      match s.threads[i]? with
      | some (.upstreamStart :: k) =>
          if s.upstream = .running then
            some ({ s with upstream := .delivered sig }.goto i
              (CompletionReceiver.complete sig ++ (Instr.upstreamStart :: k)) [])
          else none
      | _ => none
  | .die => if s.upstream = .running then some s.die else none
  | .dieInline i =>
      match s.threads[i]? with
      | some (.upstreamStart :: k) =>
          if s.upstream = .running then
            some (s.die.unwind send i k)
          else none
      | _ => none

/-- A split as `Split::from` and `SplitSend::from` make it: one clone, and the handle of the
`CompletionReceiver` in the operation state. -/
def fresh : State Op P V E where
  completion := none
  receivers := []
  stateLock := none
  statePoisoned := false
  opstate := true
  opLock := none
  opPoisoned := false
  strong := 2
  threads := []
  upstream := .idle
  upstreamStarts := 0
  handles := 1
  started := []
  calls := []
  destroyed := []
  panics := []

/-- `Split` (`send = false`) and `SplitSend` (`send = true`). -/
def machine (Op P V E : Type) [DecidableEq Op] (send : Bool) :
    Machine (State Op P V E) (Label Op P V E) where
  init := fresh
  step := step send

/-- No thread has a step to make: each is done, or waits for a lock. -/
def Quiet [DecidableEq Op] (send : Bool) (s : State Op P V E) : Prop :=
  ∀ i, step send s (.run i) = none

end SendersReceivers.Split
