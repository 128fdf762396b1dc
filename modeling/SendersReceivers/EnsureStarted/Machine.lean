import SendersReceivers.Foundations.Signal
import SendersReceivers.Machinery.Runs
import SendersReceivers.Machinery.Threads

/-!
# EnsureStarted/Machine — the cell between an early chain and its receiver

`ensure_started` starts a chain with a `StateReceiver` at its end, and returns a sender; connecting
and starting that sender attaches a receiver.  The two meet in one cell behind one lock, a `RefCell`
in `ensure_started` and a `Mutex` in `ensure_started_send`.

    Pending ──attach──▸ Attached(Some) ──signal──▸ Signal(Some) ──take──▸ Signal(None)
       └──────────signal──────────────────────────────▴

The thread that completes an attached cell lets go of the lock, and the continuation it calls then
takes the signal under the lock again.
-/

namespace SendersReceivers.EnsureStarted

open Machinery

variable (P V E : Type)

/-- `StateEnum` and `StateSendEnum`; of the boxed continuation only its presence matters. -/
inductive StateEnum where
  | pending
  | signal (signal : Option (Signal P V E))
  | attached (opstate : Option Unit)
  deriving DecidableEq

/-- One step of a thread. -/
inductive Instr where
  | lockSignal
  | unlockSignal
  /-- the `match` of `State::assign_signal` -/
  | assign (sig : Signal P V E)
  /-- the `match` of `State::attach_receiver` -/
  | attach
  /-- the `match` of `StateReceiverWrapper::set_value` -/
  | resume
  /-- the attached receiver is called -/
  | setSignal (sig : Signal P V E)
  /-- inside that call: code of the user -/
  | inside
  /-- `self.nested.set_done()` of the `StateReceiver` -/
  | setDone
  /-- a handle of the state goes out of scope -/
  | dropHandle
  deriving DecidableEq

/-- How far the early chain is: its `StateReceiver` was called, or destroyed. -/
inductive Early where
  | running
  | delivered (sig : Signal P V E)
  | dropped
  deriving DecidableEq

/-- The state.  From `early` on the fields record what has happened: `sender` tells whether the user
still holds the sender or its operation state, `done` counts the calls of the detached terminal
receiver, and `calls` are those of the attached receiver. -/
structure State where
  cell : StateEnum P V E
  lock : Option ℕ
  strong : ℕ
  threads : List (List (Instr P V E))
  early : Early P V E
  sender : Bool
  attached : Bool
  done : ℕ
  calls : List (Signal P V E)
  destroyed : Bool
  panics : List String

/-- What can happen next. -/
inductive Label where
  /-- the operation state of the returned sender is started, on a thread of its own -/
  | attach
  /-- the returned sender is dropped instead -/
  | drop
  /-- thread `i` runs its next instruction -/
  | run (i : ℕ)
  /-- the early chain completes -/
  | signal (sig : Signal P V E)
  /-- the early chain ends without a signal: its `StateReceiver` is destroyed -/
  | die
  deriving DecidableEq

variable {P V E}

/-! ## The functions of the source -/

/-- `StateReceiver::set_value`, `set_error` and `set_done`. -/
def StateReceiver.complete (sig : Signal P V E) : List (Instr P V E) :=
  [.lockSignal, .assign sig, .setDone, .dropHandle]

/-- `EnsureStartedOpstate::start`, which is `State::attach_receiver`. -/
def EnsureStartedOpstate.start : List (Instr P V E) :=
  [.lockSignal, .attach, .dropHandle]

/-- `StateReceiverWrapper::set_value`: the guard is a temporary of the `match`. -/
def StateReceiverWrapper.setValue : List (Instr P V E) :=
  [.lockSignal, .resume, .unlockSignal, .dropHandle]

/-- Whether the cell owns the attached receiver. -/
def StateEnum.owns : StateEnum P V E → Bool
  | .attached (some ()) => true
  | _ => false

namespace State

/-- Thread `i` goes on with `code`; the threads `spawned` come into being. -/
def goto (s : State P V E) (i : ℕ) (code : List (Instr P V E))
    (spawned : List (List (Instr P V E))) : State P V E :=
  { s with threads := s.threads.set i code ++ spawned }

/-- The drop of one handle of the state; the last one destroys the receiver the cell owns. -/
def release (s : State P V E) : State P V E :=
  if s.strong = 1 ∧ s.cell.owns = true then
    { s with strong := 0, cell := .attached none, destroyed := true }
  else { s with strong := s.strong - 1 }

/-- Thread `i` ends in a panic of the library with this message. -/
def panic (s : State P V E) (i : ℕ) (message : String) : State P V E :=
  { s with panics := s.panics ++ [message], threads := s.threads.set i [] }

end State

/-- `Just::with_scheduler(sch, value).connect(..).start()` and the other two arms: the attached
receiver is called where the thread stands, or by a task of the scheduler of the value. -/
def callAttached (s : State P V E) (i : ℕ) (k : List (Instr P V E)) :
    Signal P V E → State P V E
  | .value (.pool p) value => s.goto i (.unlockSignal :: k) [[.setSignal (.value (.pool p) value)]]
  | sig => s.goto i (.setSignal sig :: .unlockSignal :: k) []

/-- The next instruction of thread `i`, with `k` after it.  A lock that is held is waited for; that
nobody waits for itself is part of `Sound`. -/
def exec (s : State P V E) (i : ℕ) (k : List (Instr P V E)) : Instr P V E → Option (State P V E)
  | .lockSignal => if s.lock = none then some ({ s with lock := some i }.goto i k []) else none
  | .unlockSignal => some ({ s with lock := none }.goto i k [])
  | .assign sig =>
      match s.cell with
      | .pending => some ({ s with cell := .signal (some sig) }.goto i (.unlockSignal :: k) [])
      | .attached (some ()) =>
          some ({ s with cell := .signal (some sig) }.goto i
            ((Instr.unlockSignal :: StateReceiverWrapper.setValue) ++ k) [])
      | .attached none => some (s.panic i "signal is delivered for the first time")
      | .signal _ => some (s.panic i "already completed")
  | .attach =>
      match s.cell with
      | .pending =>
          some ({ s with cell := .attached (some ()), strong := s.strong + 1 }.goto i
            (.unlockSignal :: k) [])
      | .signal (some sig) => some (callAttached { s with cell := .signal none } i k sig)
      | .signal none => some (s.panic i "signal is not consumed twice")
      | .attached _ => some (s.panic i "already completed")
  | .resume =>
      match s.cell with
      | .signal (some sig) =>
          some ({ s with cell := .signal none }.goto i (.setSignal sig :: k) [])
      | .signal none => some (s.panic i "signal has not been consumed")
      | _ => some (s.panic i "expected state to have a signal")
  | .setSignal sig => some ({ s with calls := s.calls ++ [sig] }.goto i (.inside :: k) [])
  | .inside => some (s.goto i k [])
  | .setDone => some ({ s with done := s.done + 1 }.goto i k [])
  | .dropHandle => some (s.release.goto i k [])

/-- **The step function** of one `ensure_started`. -/
def step (s : State P V E) : Label P V E → Option (State P V E)
  | .attach =>
      if s.sender then
        some { s with
          sender := false
          attached := true
          threads := s.threads ++ [EnsureStartedOpstate.start] }
      else none
  | .drop => if s.sender then some { s.release with sender := false } else none
  | .run i =>
      match s.threads[i]? with
      | some (ins :: k) => exec s i k ins
      | _ => none
  | .signal sig =>
      match s.early with
      | .running =>
          some { s with
            early := .delivered sig
            threads := s.threads ++ [StateReceiver.complete sig] }
      | _ => none
  | .die =>
      match s.early with
      | .running => some { s.release with early := .dropped }
      | _ => none

/-- The state `ensure_started` makes: a handle for the `StateReceiver`, and one for the sender. -/
def fresh : State P V E where
  cell := .pending
  lock := none
  strong := 2
  threads := []
  early := .running
  sender := true
  attached := false
  done := 0
  calls := []
  destroyed := false
  panics := []

/-- `ensure_started` and `ensure_started_send`. -/
def machine (P V E : Type) :
    Machine (State P V E) (Label P V E) where
  init := fresh
  step := step

/-- No thread has a step to make: each is done, or waits for the lock. -/
def Quiet (s : State P V E) : Prop := ∀ i, step s (.run i) = none

end SendersReceivers.EnsureStarted
