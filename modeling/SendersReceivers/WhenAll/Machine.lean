import SendersReceivers.Foundations.Signal
import SendersReceivers.Machinery.Runs

/-!
# WhenAll/Machine — two-way receivers in a tree

`cat` pairs two senders, and connecting a pair splits its receiver in two.  A child that delivers
takes the lock of its split, and a split that has heard from both sides calls the receiver it was
made from, which is a side of the next split, or the receiver of the whole.

    child 0 ─x─┐
               ├─ split ─x─┐
    child 1 ─y─┘           ├─ split ──▸ SchedulerReceiver ──▸ rcv
    child 2 ───────────y───┘

All of that happens under the locks on the way, so a delivery is one step.  `when_all` passes the
scheduler of the last child on; `transfer_when_all` passes none (`S` is `Unit`), and calls its
receiver on a scheduler of its own.
-/

namespace SendersReceivers.WhenAll

open Machinery

variable {P S V E : Type}

/-- A call of a `NoSchedulerReceiver`. -/
inductive Call (S V E : Type) where
  | setValue (sch : S) (value : List V)
  | setError (error : E)
  | setDone
  deriving DecidableEq

/-! ## One split -/

/-- `SplitReceiver`, less the receiver it calls. -/
structure SplitReceiver (V E : Type) where
  error : Option E
  x : Option (List V)
  y : Option (List V)
  done : Bool
  pending : ℕ
  deriving DecidableEq

/-- The two ways to a split: `XSplitReceiver` and `YSplitReceiver`. -/
inductive Side where
  | x
  | y
  deriving DecidableEq

namespace SplitReceiver

/-- `SplitReceiver::from`. -/
def new : SplitReceiver V E where
  error := none
  x := none
  y := none
  done := false
  pending := 2

/-- The value that a side has brought. -/
def slot (r : SplitReceiver V E) : Side → Option (List V)
  | .x => r.x
  | .y => r.y

/-- `r.x.insert(value)` and `r.y.insert(value)`. -/
def insert (r : SplitReceiver V E) (value : List V) : Side → SplitReceiver V E
  | .x => { r with x := some value }
  | .y => { r with y := some value }

/-- `SplitReceiver::ready`. -/
def ready (r : SplitReceiver V E) : Bool := r.pending = 0

end SplitReceiver

/-- What an operation of a split leaves: its panic, or the split and the call it made. -/
abbrev Answer (S V E : Type) := Except String (SplitReceiver V E × Option (Call S V E))

/-- `self.pending -= 1`, and the end of the function if that was not the last one. -/
def countDown (r : SplitReceiver V E) (last : SplitReceiver V E → Answer S V E) : Answer S V E :=
  if r.pending = 0 then .error "attempt to subtract with overflow"
  else
    let r := { r with pending := r.pending - 1 }
    if r.ready then last r else .ok (r, none)

/-- The branches for an error and for done that all of them have. -/
def errorOrDone (r : SplitReceiver V E) (otherwise : Answer S V E) : Answer S V E :=
  match r.error with
  | some error => .ok ({ r with error := none }, some (.setError error))
  | none => if r.done then .ok (r, some .setDone) else otherwise

/-- The branch for two values. -/
def bothValues (r : SplitReceiver V E) (sch : S) : Answer S V E :=
  match r.x, r.y with
  | some x, some y => .ok ({ r with x := none, y := none }, some (.setValue sch (x ++ y)))
  | _, _ => .error "internal error: entered unreachable code"

/-- The message of the `panic!` of `maybe_complete`. -/
def onlyValueSignals : String :=
  "maybe_complete should only be called in case of any error/done signal, " ++
    "but the only signals were value signals"

/-- `SplitReceiver::maybe_complete` of `when_all`. -/
def SplitReceiver.maybeComplete (r : SplitReceiver V E) : Answer S V E :=
  countDown r fun r => errorOrDone r <|
    if r.x.isSome && r.y.isSome then
      .error onlyValueSignals
    else .error "internal error: entered unreachable code"

/-- `SplitReceiver::maybe_complete_with_scheduler`. -/
def SplitReceiver.maybeCompleteWithScheduler (r : SplitReceiver V E) (sch : S) : Answer S V E :=
  countDown r fun r => errorOrDone r (bothValues r sch)

/-- `SplitReceiver::maybe_complete` of `transfer_when_all`. -/
def SplitReceiver.transferMaybeComplete (r : SplitReceiver V E) : Answer Unit V E :=
  countDown r fun r => errorOrDone r (bothValues r ())

/-- The functions at the end of `set_value`, and of `set_error` and `set_done`. -/
structure Completion (S V E : Type) where
  withValue : SplitReceiver V E → S → Answer S V E
  withoutValue : SplitReceiver V E → Answer S V E

/-- Those of `when_all`. -/
def Completion.whenAll : Completion S V E where
  withValue r sch := r.maybeCompleteWithScheduler sch
  withoutValue r := r.maybeComplete

/-- Those of `transfer_when_all`. -/
def Completion.transferWhenAll : Completion Unit V E where
  withValue r _ := r.transferMaybeComplete
  withoutValue r := r.transferMaybeComplete

/-- `set_value`, `set_error` and `set_done` of one side of a split. -/
def SplitReceiver.call (F : Completion S V E) (r : SplitReceiver V E) (side : Side)
    (c : Call S V E) : Answer S V E :=
  if r.pending = 0 then .error "should have completed"
  else if (r.slot side).isSome then .error "value already assigned"
  else
    match c with
    | .setValue sch value => F.withValue (r.insert value side) sch
    | .setError error => F.withoutValue { r with error := some (r.error.getD error) }
    | .setDone => F.withoutValue { r with done := true }

/-! ## Trees of splits -/

/-- The senders that `when_all!` and `transfer_when_all!` put together. -/
inductive NoSchedulerSender where
  | impl
  | pairwise (x y : NoSchedulerSender)
  deriving DecidableEq

/-- `NoSchedulerSenderValue::cat`. -/
def NoSchedulerSender.cat (x y : NoSchedulerSender) : NoSchedulerSender := .pairwise x y

/-- `when_all!` and `transfer_when_all!`: `n + 1` children, combined from the left. -/
def NoSchedulerSender.leftNested : ℕ → NoSchedulerSender
  | 0 => .impl
  | n + 1 => (NoSchedulerSender.leftNested n).cat .impl

/-- The receivers of a connected sender.  `delivered` and `sent` record the call that a child, or a
split, has made. -/
inductive Connected (S V E : Type) where
  | impl (delivered : Option (Call S V E))
  | pairwise (rcv : SplitReceiver V E) (sent : Option (Call S V E)) (x y : Connected S V E)

/-- `connect` of `NoSchedulerSenderImpl` and of `PairwiseTS`. -/
def NoSchedulerSender.connect : NoSchedulerSender → Connected S V E
  | .impl => .impl none
  | .pairwise x y => .pairwise .new none x.connect y.connect

/-- What each child has delivered, in the order of the source. -/
def Connected.signals : Connected S V E → List (Option (Call S V E))
  | .impl delivered => [delivered]
  | .pairwise _ _ x y => x.signals ++ y.signals

/-- The call that the receiver of the whole tree has got. -/
def Connected.sent : Connected S V E → Option (Call S V E)
  | .impl delivered => delivered
  | .pairwise _ sent _ _ => sent

/-- A side of a split passes a call on. -/
def passOn (F : Completion S V E) (r : SplitReceiver V E) (side : Side)
    (sent out : Option (Call S V E)) (x y : Connected S V E) :
    Except String (Connected S V E × Option (Call S V E)) :=
  match out with
  | none => .ok (.pairwise r sent x y, none)
  | some c => do
      let (r, out) ← r.call F side c
      return (.pairwise r (out.or sent) x y, out)

/-- Child `i` delivers: `Wrap` passes the call to the receiver of the child. -/
def Connected.deliver (F : Completion S V E) : Connected S V E → ℕ → Call S V E →
    Except String (Connected S V E × Option (Call S V E))
  | .impl _, _, c => .ok (.impl (some c), some c)
  | .pairwise r sent x y, i, c =>
      if i < x.signals.length then do
        let (x, out) ← x.deliver F i c
        passOn F r .x sent out x y
      else do
        let (y, out) ← y.deliver F (i - x.signals.length) c
        passOn F r .y sent out x y

/-! ## The whole -/

/-- The connected sender and its `SchedulerReceiver`.  `tasks` are scheduled on the target of
`transfer_when_all`; `calls` are those of the receiver downstream, and `last` is the latest
delivery. -/
structure State (P S V E : Type) where
  tree : Connected S V E
  rcv : Option Unit
  tasks : List (List V)
  calls : List (Signal P V E)
  last : Option (Call S V E)
  panics : List String

/-- What can happen next. -/
inductive Label (S V E : Type) where
  /-- child `i` delivers its signal -/
  | deliver (i : ℕ) (c : Call S V E)
  /-- the target scheduler runs the task -/
  | run
  deriving DecidableEq

/-- The receiver that `fin` or `schedule` puts at the end. -/
abbrev SchedulerReceiver (P S V E : Type) := State P S V E → Call S V E → State P S V E

/-- `rcv.take().expect(..)`. -/
def State.takeRcv (s : State P S V E) (message : String)
    (f : State P S V E → State P S V E) : State P S V E :=
  match s.rcv with
  | some () => f { s with rcv := none }
  | none => { s with panics := s.panics ++ [message] }

/-- The receiver downstream is called. -/
def State.signal (s : State P S V E) (sig : Signal P V E) : State P S V E :=
  { s with calls := s.calls ++ [sig] }

/-- `SchedulerReceiver` of `when_all`. -/
def whenAllReceiver : SchedulerReceiver P (Local P) V E
  | s, .setError error =>
      s.takeRcv "receiver has not yet completed" fun s => s.signal (.error error)
  | s, .setDone => s.takeRcv "receiver has not yet completed" fun s => s.signal .done
  | s, .setValue sch value =>
      s.takeRcv "receiverhas not yet completed" fun s => s.signal (.value sch value)

/-- `SchedulerReceiver` of `transfer_when_all`: a value goes into a task of the target. -/
def transferReceiver : SchedulerReceiver P Unit V E
  | s, .setError error =>
      s.takeRcv "receiver has not yet completed" fun s => s.signal (.error error)
  | s, .setDone => s.takeRcv "receiver has not yet completed" fun s => s.signal .done
  | s, .setValue () value =>
      s.takeRcv "receiver has not yet completed" fun s => { s with tasks := s.tasks ++ [value] }

/-- Child `i` delivers. -/
def State.deliver (F : Completion S V E) (R : SchedulerReceiver P S V E) (s : State P S V E) (i : ℕ)
    (c : Call S V E) : State P S V E :=
  match s.tree.deliver F i c with
  | .error message => { s with panics := s.panics ++ [message] }
  | .ok (tree, none) => { s with tree := tree, last := some c }
  | .ok (tree, some out) => R { s with tree := tree, last := some c } out

/-- A task of `transfer_when_all`: `WrapValue` passes its value on, with the scheduler that runs
it. -/
def runTask (target : Scheduler P) (s : State P S V E) : Option (State P S V E) :=
  match s.tasks with
  | value :: tasks => some ({ s with tasks := tasks }.signal (.value target.localScheduler value))
  | [] => none

/-- **The step function**: a child that has delivered does not do so again. -/
def step (F : Completion S V E) (R : SchedulerReceiver P S V E)
    (T : State P S V E → Option (State P S V E)) (s : State P S V E) :
    Label S V E → Option (State P S V E)
  | .deliver i c =>
      match s.tree.signals[i]? with
      | some none => some (s.deliver F R i c)
      | _ => none
  | .run => T s

/-- A connected sender. -/
def fresh (ts : NoSchedulerSender) : State P S V E where
  tree := ts.connect
  rcv := some ()
  tasks := []
  calls := []
  last := none
  panics := []

/-- `when_all`, for whichever way the senders are combined. -/
def whenAll (P V E : Type) (ts : NoSchedulerSender) :
    Machine (State P (Local P) V E) (Label (Local P) V E) where
  init := fresh ts
  step := step .whenAll whenAllReceiver fun _ => none

/-- `transfer_when_all`. -/
def transferWhenAll (V E : Type) (target : Scheduler P) (ts : NoSchedulerSender) :
    Machine (State P Unit V E) (Label Unit V E) where
  init := fresh ts
  step := step .transferWhenAll transferReceiver (runTask target)

end SendersReceivers.WhenAll
