import SendersReceivers.Machinery.Runs

/-!
# Machinery/Fifo — a queue with many senders and one receiver

An object is used through handles: senders put values in and may be cloned, a receiver takes values
out.  What the object answers is recorded.  The queue itself is such an object, and any other object
that answers like it has the properties that the queue has.

    send v ──▸ v₁ ⋯ vₙ v        try_recv ◂── v₁        empty, while a sender is left
                                                      disconnected, when none is
-/

namespace Machinery.Fifo

/-- What a handle is asked to do. -/
inductive Op (α : Type*) where
  | send (v : α)
  | cloneSender
  | dropSender
  | tryRecv
  | dropReceiver

/-- An operation, and whether the receiver can be woken, should it have to be. -/
structure Call (α : Type*) where
  op : Op α
  wakes : Bool

/-- What comes back. -/
inductive Answer (α : Type*) where
  | ok
  /-- a send that failed, with its value -/
  | refused (v : α)
  | received (v : α)
  | empty
  | disconnected
  | panicked (message : String)
  deriving DecidableEq

/-- An object with its handles.  `sent` and `received` are the values that went in and came out, and
`answers` everything that came back. -/
structure Session (χ α : Type*) where
  object : χ
  senders : ℕ
  receiver : Bool
  sent : List α
  received : List α
  answers : List (Answer α)

variable {χ ψ α : Type*}

/-- Whether there is a handle for an operation. -/
def Session.Holds (s : Session χ α) : Op α → Prop
  | .send _ | .cloneSender | .dropSender => 0 < s.senders
  | .tryRecv | .dropReceiver => s.receiver = true

instance (s : Session χ α) : DecidablePred s.Holds
  | .send _ | .cloneSender | .dropSender => inferInstanceAs (Decidable (0 < s.senders))
  | .tryRecv | .dropReceiver => inferInstanceAs (Decidable (s.receiver = true))

/-- The handles after an operation: a handle that is dropped is gone, a clone that panics makes
none. -/
def Session.after (s : Session χ α) (op : Op α) (r : Answer α × χ) : Session χ α where
  object := r.2
  senders :=
    match op, r.1 with
    | .cloneSender, .ok => s.senders + 1
    | .dropSender, _ => s.senders - 1
    | _, _ => s.senders
  receiver :=
    match op with
    | .dropReceiver => false
    | _ => s.receiver
  sent :=
    match op, r.1 with
    | .send v, .ok => s.sent ++ [v]
    | _, _ => s.sent
  received :=
    match r.1 with
    | .received v => s.received ++ [v]
    | _ => s.received
  answers := s.answers ++ [r.1]

/-- The machine of an object: whoever has a handle may use it. -/
def sessions (perform : χ → Call α → Answer α × χ) (new : χ) : Machine (Session χ α) (Call α) where
  init := ⟨new, 1, true, [], [], []⟩
  step s c := if s.Holds c.op then some (s.after c.op (perform s.object c)) else none

theorem sessions_step {perform : χ → Call α → Answer α × χ} {new : χ} {s s' : Session χ α}
    {c : Call α} (h : (sessions perform new).step s c = some s') :
    s.Holds c.op ∧ s' = s.after c.op (perform s.object c) := by
  simp only [sessions, Option.ite_none_right_eq_some, Option.some.injEq] at h
  exact ⟨h.1, h.2.symm⟩

/-! ## The queue -/

/-- The values in it, and who can use it. -/
structure Queue (α : Type*) where
  values : List α
  senders : ℕ
  receiver : Bool

/-- What the queue does. -/
def Queue.perform (q : Queue α) (c : Call α) : Answer α × Queue α :=
  match c.op with
  | .send v =>
      if c.wakes ∧ q.receiver then (.ok, { q with values := q.values ++ [v] }) else (.refused v, q)
  | .cloneSender => (.ok, { q with senders := q.senders + 1 })
  | .dropSender => (.ok, { q with senders := q.senders - 1 })
  | .tryRecv =>
      match q.values with
      | v :: values => (.received v, { q with values := values })
      | [] => (if q.senders = 0 then .disconnected else .empty, q)
  | .dropReceiver => (.ok, { q with receiver := false })

/-- The queue, with a sender and its receiver. -/
def queues (α : Type*) : Machine (Session (Queue α) α) (Call α) :=
  sessions Queue.perform ⟨[], 1, true⟩

/-- **In order, without loss, without a copy**: what went in has come out, or is still there, and
the queue knows its handles. -/
structure Sound (s : Session (Queue α) α) : Prop where
  senders : s.object.senders = s.senders
  receiver : s.object.receiver = s.receiver
  order : s.sent = s.received ++ s.object.values

theorem Sound.after {s : Session (Queue α) α} (hs : Sound s) (c : Call α) :
    Sound (s.after c.op (s.object.perform c)) := by
  obtain ⟨hsenders, hreceiver, horder⟩ := hs
  obtain ⟨op, wakes⟩ := c
  cases op with
  | send v =>
      simp only [Queue.perform]
      split_ifs
      · exact ⟨hsenders, hreceiver, by simp [Session.after, horder]⟩
      · exact ⟨hsenders, hreceiver, horder⟩
  | cloneSender => exact ⟨congrArg (· + 1) hsenders, hreceiver, horder⟩
  | dropSender => exact ⟨congrArg (· - 1) hsenders, hreceiver, horder⟩
  | tryRecv =>
      cases hvalues : s.object.values with
      | nil =>
          simp only [Queue.perform, hvalues]
          split_ifs <;> exact ⟨hsenders, hreceiver, horder⟩
      | cons v values =>
          simp only [Queue.perform, hvalues]
          exact ⟨hsenders, hreceiver, by simp [Session.after, horder, hvalues]⟩
  | dropReceiver => exact ⟨hsenders, rfl, horder⟩

/-! ## Objects that answer like a queue -/

/-- The same session, with another object. -/
def Session.map (f : χ → ψ) (s : Session χ α) : Session ψ α :=
  { s with object := f s.object }

theorem Session.map_after (f : χ → ψ) (s : Session χ α) (op : Op α) (r : Answer α × χ) :
    (s.after op r).map f = (s.map f).after op (r.1, f r.2) := rfl

/-- A step of an object that answers like the queue is one of the queue. -/
theorem sessions_step_map {perform : χ → Call α → Answer α × χ} {new : χ} {view : χ → Queue α}
    {s : Session χ α} {c : Call α}
    (h : s.Holds c.op →
      ((perform s.object c).1, view (perform s.object c).2) = (view s.object).perform c) :
    ((sessions perform new).step s c).map (Session.map view) = (queues α).step (s.map view) c := by
  by_cases hold : s.Holds c.op
  · have hold' : (s.map view).Holds c.op := hold
    simp only [queues, sessions, if_pos hold, if_pos hold', Option.map_some, Session.map_after,
      h hold]
    rfl
  · have hold' : ¬(s.map view).Holds c.op := hold
    simp [queues, sessions, if_neg hold, if_neg hold']

/-- What is asked of the answer to a call: it tells what is in the queue and who can use it, and a
send that fails gives its value back and leaves the queue alone. -/
structure Tells (view : χ → Queue α) (s : Session χ α) (c : Call α) (r : Answer α × χ) : Prop where
  received : ∀ v, r.1 = .received v ↔ c.op = .tryRecv ∧ (view s.object).values.head? = some v
  empty : r.1 = .empty ↔ c.op = .tryRecv ∧ (view s.object).values = [] ∧ 0 < s.senders
  disconnected : r.1 = .disconnected ↔ c.op = .tryRecv ∧ (view s.object).values = [] ∧ s.senders = 0
  refused : ∀ v, r.1 = .refused v ↔ c.op = .send v ∧ (s.receiver = false ∨ c.wakes = false)
  unsent : ∀ v, r.1 = .refused v → (view r.2).values = (view s.object).values
  calm : ∀ message, r.1 ≠ .panicked message

/-- The queue tells. -/
theorem Sound.tells {s : Session (Queue α) α} (hs : Sound s) (c : Call α) :
    Tells id s c (s.object.perform c) := by
  have hsenders := hs.senders
  have hreceiver := hs.receiver
  obtain ⟨op, wakes⟩ := c
  cases op with
  | send v =>
      cases wakes <;> cases hr : s.receiver <;> constructor <;>
        simp [Queue.perform, hreceiver, hr, eq_comm]
  | cloneSender => constructor <;> simp [Queue.perform]
  | dropSender => constructor <;> simp [Queue.perform]
  | tryRecv =>
      cases hvalues : s.object.values with
      | nil =>
          by_cases hzero : s.senders = 0
          · constructor <;> simp [Queue.perform, hvalues, hsenders, hzero]
          · constructor <;> simp [Queue.perform, hvalues, hsenders, hzero, Nat.pos_of_ne_zero hzero]
      | cons v values => constructor <;> simp [Queue.perform, hvalues]
  | dropReceiver => constructor <;> simp [Queue.perform]

/-- **What the queue tells, any object does that answers like it.** -/
theorem Tells.of_view {view : χ → Queue α} {s : Session χ α} {c : Call α} {r : Answer α × χ}
    (h : Tells id (s.map view) c (r.1, view r.2)) : Tells view s c r :=
  ⟨h.received, h.empty, h.disconnected, h.refused, h.unsent, h.calm⟩

end Machinery.Fifo
