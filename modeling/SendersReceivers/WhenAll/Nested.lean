import SendersReceivers.StopToken.Propagation
import SendersReceivers.WhenAll.Outcome

/-!
# WhenAll/Nested — senders that are children of one another

Every `when_all` and `transfer_when_all` has a stop source of its own.  Its children get tokens of
that source, and a child that does not deliver a value stops it first; a callback on the token that
the sender itself was connected with stops it, too.

    token of the root ──▸ source 1 ──▸ source 2 ──▸ leaf
                              ▴            ▴         │
                              └── Wrap ◂── └── Wrap ◂┘

Here are a whole tree of them, the threads that are in `request_stop` or in `connect`, and the
signals that are on their way.  Source `0` is that of the root token, and source `g + 1` that of
sender `g`.
-/

namespace SendersReceivers.Nested

open Machinery Relation

variable {P V E : Type}

/-! ## The tree -/

/-- `WhenAllFin`, or a `SchedulerTS` with its target; and which child of which sender it is. -/
structure Sender (P : Type) where
  target : Option (Scheduler P)
  sender : WhenAll.NoSchedulerSender
  outer : Option (ℕ × ℕ)

/-- **A finite tree of senders**, in an order in which the outer one comes first.  The children that
no sender is in the place of are the leaves. -/
structure Tree (P : Type) where
  senders : List (Sender P)
  root (g : ℕ) (x : Sender P) : senders[g]? = some x → (x.outer = none ↔ g = 0)
  nested (g : ℕ) (x : Sender P) (a i : ℕ) : senders[g]? = some x → x.outer = some (a, i) →
    a < g ∧ ∃ y : Sender P, senders[a]? = some y ∧ i < y.sender.children
  distinct (g g' : ℕ) (x x' : Sender P) : senders[g]? = some x → senders[g']? = some x' →
    x.outer = x'.outer → g = g'

/-- Sender `g` is a child of sender `a`. -/
def Tree.Child (T : Tree P) (a g : ℕ) : Prop :=
  ∃ x i, T.senders[g]? = some x ∧ x.outer = some (a, i)

/-- Sender `a` is on the path from sender `g` to the root. -/
def Tree.Encloses (T : Tree P) : ℕ → ℕ → Prop := ReflTransGen T.Child

/-- Child `i` of sender `g` is not a sender of the tree. -/
def Tree.IsLeaf (T : Tree P) (g i : ℕ) : Prop := ∀ x ∈ T.senders, x.outer ≠ some (g, i)

instance (T : Tree P) (g i : ℕ) : Decidable (T.IsLeaf g i) :=
  inferInstanceAs (Decidable (∀ x ∈ T.senders, _))

/-- The source of the token that a sender is connected with, if its `STOP_POSSIBLE`. -/
def Sender.token (stopPossible : Bool) (x : Sender P) : Option ℕ :=
  match x.outer with
  | some (a, _) => some (a + 1)
  | none => if stopPossible then some 0 else none

/-! ## One sender of it -/

/-- A connected sender. -/
inductive Group (P V E : Type) where
  | whenAll (s : WhenAll.State P (Local P) V E)
  | transferWhenAll (target : Scheduler P) (s : WhenAll.State P Unit V E)

/-- The call of a `NoSchedulerReceiver` of `when_all`, and of `transfer_when_all`. -/
def call : Signal P V E → WhenAll.Call (Local P) V E
  | .value sch value => .setValue sch value
  | .error error => .setError error
  | .done => .setDone

def transferCall : Signal P V E → WhenAll.Call Unit V E
  | .value _ value => .setValue () value
  | .error error => .setError error
  | .done => .setDone

/-- The signals that stop the siblings: `set_error` and `set_done` of `Wrap`. -/
def fails : Signal P V E → Bool
  | .value _ _ => false
  | .error _ | .done => true

/-- …and the calls that come of them. -/
def callFails {S : Type} : WhenAll.Call S V E → Bool
  | .setValue _ _ => false
  | .setError _ | .setDone => true

namespace Group

/-- `WhenAllFin::connect` and `SchedulerTS::connect`, less the stop token. -/
def connect (x : Sender P) : Group P V E :=
  match x.target with
  | none => .whenAll (WhenAll.fresh x.sender)
  | some target => .transferWhenAll target (WhenAll.fresh x.sender)

/-- Child `i` delivers. -/
def deliver (g : Group P V E) (i : ℕ) (sig : Signal P V E) : Option (Group P V E) :=
  match g with
  | .whenAll s =>
      (WhenAll.step .whenAll WhenAll.whenAllReceiver (fun _ => none) s
        (.deliver i (Nested.call sig))).map .whenAll
  | .transferWhenAll target s =>
      (WhenAll.step .transferWhenAll WhenAll.transferReceiver (WhenAll.runTask target) s
        (.deliver i (transferCall sig))).map (.transferWhenAll target)

/-- The target runs the task. -/
def run : Group P V E → Option (Group P V E)
  | .whenAll _ => none
  | .transferWhenAll target s => (WhenAll.runTask target s).map (.transferWhenAll target)

/-- The calls of the receiver that the sender was connected with. -/
def calls : Group P V E → List (Signal P V E)
  | .whenAll s => s.calls
  | .transferWhenAll _ s => s.calls

/-- Which children have delivered, and whether that was an error or done. -/
def heard : Group P V E → List (Option Bool)
  | .whenAll s => s.tree.signals.map (Option.map callFails)
  | .transferWhenAll _ s => s.tree.signals.map (Option.map callFails)

end Group

/-! ## All of them -/

/-- A signal that a child has brought to its `Wrap`, and the thread that is in `request_stop`. -/
structure Delivery (P V E : Type) where
  thread : Option ℕ
  group : ℕ
  child : ℕ
  signal : Signal P V E

/-- The stop sources, the senders, of which the first `connected` ones are connected, and the
signals on their way.  `connecting` is the thread that is in the latest `connect`; `calls` records
those of the receiver of the whole. -/
structure State (P V E : Type) where
  tokens : StopToken.State
  connected : ℕ
  connecting : Option ℕ
  groups : List (Group P V E)
  deliveries : List (Delivery P V E)
  calls : List (Signal P V E)

/-- What can happen next. -/
inductive Label (P V E : Type) where
  /-- the next sender is connected -/
  | connect
  /-- a stop is requested of the root token -/
  | stopRoot
  /-- thread `i` goes on, in `request_stop` or in `connect` -/
  | token (i : ℕ)
  /-- leaf `i` of sender `g` completes -/
  | deliver (g i : ℕ) (sig : Signal P V E)
  /-- the `request_stop` of delivery `n` has returned, and its signal is recorded -/
  | record (n : ℕ)
  /-- the target of sender `g` runs the task -/
  | run (g : ℕ)

namespace State

/-- A thread calls `o`. -/
def call (s : State P V E) (o : StopToken.Op) : State P V E :=
  { s with
    tokens := { s.tokens with
      threads := s.tokens.threads ++ [[.op o]]
      called := s.tokens.called ++ [o] } }

/-- The call has returned. -/
def Returned (s : State P V E) (thread : Option ℕ) : Prop :=
  ∀ n ∈ thread, s.tokens.threads[n]? = some []

instance (s : State P V E) : DecidablePred s.Returned
  | none => .isTrue (by simp [Returned])
  | some n =>
      match h : s.tokens.threads[n]? with
      | some [] => .isTrue (by simp [Returned, h])
      | some (_ :: _) => .isFalse (by simp [Returned, h])
      | none => .isFalse (by simp [Returned, h])

/-- `Wrap::set_value`, `set_error` and `set_done`, as far as `request_stop`. -/
def wrap (s : State P V E) (g i : ℕ) (sig : Signal P V E) : State P V E :=
  if fails sig then
    { s.call (.requestStop (g + 1)) with
      deliveries := s.deliveries ++ [⟨some s.tokens.threads.length, g, i, sig⟩] }
  else { s with deliveries := s.deliveries ++ [⟨none, g, i, sig⟩] }

/-- Sender `g` has called its receiver: the `Wrap` of the outer sender, or that of the whole. -/
def emit (T : Tree P) (s : State P V E) (g : ℕ) : Option (Signal P V E) → State P V E
  | none => s
  | some sig =>
      match T.senders[g]?.bind Sender.outer with
      | some (a, i) => s.wrap a i sig
      | none => { s with calls := s.calls ++ [sig] }

/-- Something happens in sender `g`. -/
def update (T : Tree P) (s : State P V E) (g : ℕ) (f : Group P V E → Option (Group P V E)) :
    Option (State P V E) := do
  let before ← s.groups[g]?
  let after ← f before
  return { s with groups := s.groups.set g after }.emit T g after.calls[before.calls.length]?

/-- Child `i` of sender `g` has its receiver. -/
def Undelivered (s : State P V E) (g i : ℕ) : Prop :=
  (s.groups[g]?.bind fun x => x.heard[i]?) = some none ∧
    ∀ d ∈ s.deliveries, ¬(d.group = g ∧ d.child = i)

instance (s : State P V E) (g i : ℕ) : Decidable (s.Undelivered g i) := instDecidableAnd

/-- Everything is connected, and may be started. -/
def Ready (T : Tree P) (s : State P V E) : Prop :=
  s.connected = T.senders.length ∧ s.Returned s.connecting

instance (T : Tree P) (s : State P V E) : Decidable (s.Ready T) := instDecidableAnd

end State

/-- **The step function**, of a tree that is connected with a token of source `0`, or with a
`NeverStopToken`. -/
def step (T : Tree P) (stopPossible : Bool) (s : State P V E) :
    Label P V E → Option (State P V E)
  | .connect =>
      match T.senders[s.connected]? with
      | some x =>
          if s.Returned s.connecting then
            match x.token stopPossible with
            | some stop_token =>
                some { s.call (StopToken.WhenAllFin.connect stop_token (s.connected + 1)) with
                  connected := s.connected + 1
                  connecting := some s.tokens.threads.length }
            | none => some { s with connected := s.connected + 1 }
          else none
      | none => none
  | .stopRoot => if stopPossible then some (s.call (.requestStop 0)) else none
  | .token i => (StopToken.step s.tokens (.run i)).map fun tokens => { s with tokens := tokens }
  | .deliver g i sig =>
      if s.Ready T ∧ T.IsLeaf g i ∧ s.Undelivered g i then some (s.wrap g i sig) else none
  | .record n =>
      match s.deliveries[n]? with
      | some d =>
          if s.Returned d.thread then
            { s with deliveries := s.deliveries.eraseIdx n }.update T d.group fun g =>
              g.deliver d.child d.signal
          else none
      | none => none
  | .run g => s.update T g Group.run

/-- Nothing is connected. -/
def fresh (T : Tree P) : State P V E where
  tokens := StopToken.fresh
  connected := 0
  connecting := none
  groups := T.senders.map Group.connect
  deliveries := []
  calls := []

/-- A tree of senders, and the stop sources of it. -/
def machine (V E : Type) (T : Tree P) (stopPossible : Bool) :
    Machine (State P V E) (Label P V E) where
  init := fresh T
  step := step T stopPossible

end SendersReceivers.Nested
