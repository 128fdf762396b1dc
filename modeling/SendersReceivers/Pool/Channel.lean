import Mathlib.Data.List.Basic

/-!
# Pool/Channel — the channel into a worker's thread

A `Channel` counts its senders, queues what they send, and has the waker of the worker's `Poll`: a
flag that stays set until a poll reports it.  Every operation runs under the mutex of the channel.

    send ──▸ wake, push        last Sender dropped ──▸ wake        try_recv ──▸ pop, or say why not
-/

namespace SendersReceivers.Pool

/-- `Channel<T>`; of the waker only the flag it sets is modelled. -/
structure Channel (α : Type) where
  waker : Bool
  has_receiver : Bool
  cnt_sender : ℕ
  queue : List α

/-- `mpsc::TryRecvError`. -/
inductive TryRecvError where
  | disconnected
  | empty
  deriving DecidableEq

/-- Why an operation of a channel panics, or its caller does. -/
inductive ChannelError where
  /-- `assert!(self.cnt_sender > 0)`, in `push` and in the drop of a `Sender` -/
  | noSender
  /-- `SendError` -/
  | noReceiver
  deriving DecidableEq

namespace Channel

variable {α : Type}

/-- `Channel::new`. -/
def new : Channel α where
  waker := false
  has_receiver := true
  cnt_sender := 1
  queue := []

/-- `Waker::wake`, which is assumed to succeed. -/
def wake (c : Channel α) : Channel α := { c with waker := true }

/-- `Channel::push`. -/
def push (c : Channel α) (v : α) : Except ChannelError (Channel α) :=
  if c.cnt_sender = 0 then .error .noSender
  else if c.has_receiver then .ok { c.wake with queue := c.queue ++ [v] }
  else .error .noReceiver

/-- `Channel::push` after its `wake`. -/
def enqueue (c : Channel α) (v : α) : Except ChannelError (Channel α) :=
  if c.cnt_sender = 0 then .error .noSender
  else if c.has_receiver then .ok { c with queue := c.queue ++ [v] }
  else .error .noReceiver

/-- The two halves of a push. -/
theorem push_eq_enqueue (c : Channel α) (v : α) : c.push v = c.wake.enqueue v := rfl

/-- `Channel::try_pop`. -/
def tryPop (c : Channel α) : Except TryRecvError (α × Channel α) :=
  match c.queue with
  | v :: queue => .ok (v, { c with queue := queue })
  | [] => .error (if c.cnt_sender = 0 then .disconnected else .empty)

/-- `Clone for Sender`. -/
def cloneSender (c : Channel α) : Channel α := { c with cnt_sender := c.cnt_sender + 1 }

/-- `Drop for Sender`: the last one wakes the worker. -/
def dropSender (c : Channel α) : Except ChannelError (Channel α) :=
  if c.cnt_sender = 0 then .error .noSender
  else
    let c := { c with cnt_sender := c.cnt_sender - 1 }
    .ok (if c.cnt_sender = 0 then c.wake else c)

/-- `Drop for Sender` before its `wake`. -/
def countDown (c : Channel α) : Except ChannelError (Channel α) :=
  if c.cnt_sender = 0 then .error .noSender
  else .ok { c with cnt_sender := c.cnt_sender - 1 }

/-- The two halves of the drop of a `Sender`. -/
theorem dropSender_eq_countDown (c : Channel α) :
    c.dropSender = c.countDown.map fun c => if c.cnt_sender = 0 then c.wake else c := by
  unfold dropSender countDown
  split <;> rfl

/-- `Drop for Receiver`. -/
def dropReceiver (c : Channel α) : Channel α := { c with has_receiver := false }

end Channel

end SendersReceivers.Pool
