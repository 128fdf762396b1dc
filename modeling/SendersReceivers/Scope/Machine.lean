import SendersReceivers.Foundations.Signal
import SendersReceivers.Machinery.Runs
import SendersReceivers.Machinery.Threads

/-!
# Scope/Machine — nested scopes, their handles and their destructors

A scope lives as long as there is a handle of it.  The root scope counts its handles itself; a
nested scope is the target of an `Rc` or an `Arc`, and owns a handle of the scope it was made in.

    root ◂── scope 1 ◂── scope 2          scope 2 ends ──▸ outer receiver of 2 is called
      ▴────── scope 3                                  ──▸ handle of 1 is dropped ──▸ …

The last handle of a nested scope runs its destructor, which calls the outer receiver and lets go of
the outer scope.  The steps of a destructor are steps of this machine, so those of several scopes
and whatever the holders of handles do may interleave.
-/

namespace SendersReceivers.Scope

open Machinery

variable (P V E : Type)

/-- The `InnerScopeReceiver` of a scope; once it is completed, all it still has to do is to drop its
handle. -/
inductive InnerScopeReceiver where
  | held
  | completed
  | gone
  deriving DecidableEq

/-- How far a nested scope is.  The destructor calls `forward`, drops `outer_state`, then drops
`rcv`. -/
inductive Phase where
  | live
  | ended
  | forwarding
  | releasing
  | released
  | dead
  deriving DecidableEq

/-- `ScopeDataNoSend` and `ScopeDataSend` of a nested scope, less what every scope has.  From
`phase` on the fields record what has happened: `stored` is the signal of the inner receiver, and
`called` and `destroyed` are what became of the outer one. -/
structure Nested where
  shared_value : Option (Signal P V E)
  outer_state : ℕ
  rcv : Option Unit
  phase : Phase
  inner : InnerScopeReceiver
  stored : Option (Signal P V E)
  called : List (Signal P V E)
  destroyed : Bool

/-- What a scope has besides its handles: the root has the function that is notified. -/
inductive Kind where
  | root (notify : Option Unit)
  | nested (data : Nested P V E)

/-- A scope.  `strong` is `num_running_threads` of the root, and the strong count of a nested scope;
`handles` counts the handles in the hands of the users: scope pointers and references. -/
structure ScopeData where
  strong : ℕ
  a_thread_panicked : Bool
  kind : Kind P V E
  handles : ℕ

/-- The scopes by number; number `0` is the root. -/
structure State where
  scopes : List (ScopeData P V E)
  panics : List String

/-- How a function returns. -/
inductive Outcome where
  | returns
  | unwinds
  deriving DecidableEq

/-- What can happen next. -/
inductive Label where
  /-- a handle of scope `p` is cloned -/
  | clone (p : ℕ)
  | drop (p : ℕ)
  /-- `new_scope` on a handle of scope `p` -/
  | newScope (p : ℕ)
  /-- a closure that was run by `ScopeData::run` of a handle of scope `p` is at its end -/
  | run (p : ℕ) (outcome : Outcome)
  /-- the `InnerScopeReceiver` of scope `i` is called -/
  | complete (i : ℕ) (sig : Signal P V E)
  /-- the `InnerScopeReceiver` of scope `i` goes out of scope -/
  | dropInner (i : ℕ)
  /-- the destructor of scope `i`, up to and including the call of the outer receiver -/
  | destruct (i : ℕ)
  /-- that call is at its end -/
  | returned (i : ℕ) (outcome : Outcome)
  /-- the destructor drops `outer_state` -/
  | dropOuter (i : ℕ)
  /-- the destructor drops `rcv` -/
  | dropRcv (i : ℕ)

variable {P V E}

/-- Whether the destructor is past the call of the outer receiver, or has decided against it. -/
def Phase.Past : Phase → Prop
  | .live => False
  | .ended => False
  | _ => True

/-- One as long as the handle `outer_state` is there. -/
def Phase.holds : Phase → ℕ
  | .released => 0
  | .dead => 0
  | _ => 1

/-- One as long as the handle of the inner receiver is there. -/
def InnerScopeReceiver.holds : InnerScopeReceiver → ℕ
  | .gone => 0
  | _ => 1

/-! ## The functions of the source -/

namespace ScopeData

/-- `mark_panicked`. -/
def markPanicked (c : ScopeData P V E) : ScopeData P V E := { c with a_thread_panicked := true }

/-- `Clone` of a scope pointer. -/
def clone (c : ScopeData P V E) : ScopeData P V E := { c with strong := c.strong + 1 }

/-- `Drop` of a scope pointer: the last one notifies, or has the destructor run. -/
def drop (c : ScopeData P V E) : ScopeData P V E :=
  if c.strong = 1 then
    match c.kind with
    | .root _ => { c with strong := 0, kind := .root none }
    | .nested data => { c with strong := 0, kind := .nested { data with phase := .ended } }
  else { c with strong := c.strong - 1 }

/-- The panic of that drop. -/
def dropPanics (c : ScopeData P V E) : List String :=
  match c.kind with
  | .root none => if c.strong = 1 then ["has not been notified before"] else []
  | _ => []

/-- `InnerScopeConstructor::new`: handles for the scope pointer, the inner receiver and the
reference. -/
def new (outer_state : ℕ) : ScopeData P V E where
  strong := 3
  a_thread_panicked := false
  kind := .nested
    { shared_value := none
      outer_state := outer_state
      rcv := some ()
      phase := .live
      inner := .held
      stored := none
      called := []
      destroyed := false }
  handles := 2

end ScopeData

/-- `forward`: without a signal the receiver is dropped. -/
def forward (data : Nested P V E) : Nested P V E :=
  match data.shared_value with
  | some sig => { data with called := data.called ++ [sig] }
  | none => { data with destroyed := true }

namespace State

/-- Scope `i` becomes `c`. -/
def put (s : State P V E) (i : ℕ) (c : ScopeData P V E) : State P V E :=
  { s with scopes := s.scopes.set i c }

/-- A panic of the library with this message. -/
def panic (s : State P V E) (messages : List String) : State P V E :=
  { s with panics := s.panics ++ messages }

/-- `mark_panicked` on a handle of scope `p`. -/
def markPanicked (s : State P V E) (p : ℕ) : State P V E :=
  match s.scopes[p]? with
  | some c => s.put p c.markPanicked
  | none => s

/-- `ScopeData::run` on a handle of scope `p`, at the end of the closure. -/
def run (s : State P V E) (p : ℕ) : Outcome → State P V E
  | .returns => s
  | .unwinds => s.markPanicked p

/-- The drop of a handle of scope `p`. -/
def drop (s : State P V E) (p : ℕ) : State P V E :=
  match s.scopes[p]? with
  | some c => (s.put p c.drop).panic c.dropPanics
  | none => s

end State

/-- The `match` of `Drop for ScopeDataNoSend` and `Drop for ScopeDataSend`. -/
def destruct (s : State P V E) (i : ℕ) (c : ScopeData P V E) (data : Nested P V E) : State P V E :=
  match c.a_thread_panicked with
  | true =>
      (s.markPanicked data.outer_state).put i
        { c with kind := .nested { data with phase := .releasing } }
  | false =>
      match data.rcv with
      | some () =>
          s.put i { c with
            kind := .nested
              { forward data with rcv := none, shared_value := none, phase := .forwarding } }
      | none => s.panic ["receiver has not been completed yet"]

/-- `set_value`, `set_error` and `set_done` of `InnerScopeReceiver` and `InnerScopeSendReceiver`. -/
def complete (s : State P V E) (i : ℕ) (c : ScopeData P V E) (data : Nested P V E)
    (sig : Signal P V E) : State P V E :=
  match data.shared_value with
  | none =>
      s.put i { c with
        kind := .nested
          { data with shared_value := some sig, stored := some sig, inner := .completed } }
  | some _ => (s.put i c.markPanicked).panic ["signal double assigned"]

/-- What a user does with a handle of scope `p`. -/
def State.withHandle (s : State P V E) (p : ℕ) (f : ScopeData P V E → State P V E) :
    Option (State P V E) :=
  s.scopes[p]?.bind fun c => if 0 < c.handles then some (f c) else none

/-- What happens to the nested scope `i` if it is in such a state. -/
def State.withNested (s : State P V E) (i : ℕ) (guard : Nested P V E → Bool)
    (f : ScopeData P V E → Nested P V E → State P V E) : Option (State P V E) :=
  s.scopes[i]?.bind fun c =>
    match c.kind with
    | .nested data => if guard data then some (f c data) else none
    | .root _ => none

/-- **The step function** of all scopes under one root. -/
def step (s : State P V E) : Label P V E → Option (State P V E)
  | .clone p =>
      s.withHandle p fun c => s.put p { c.clone with handles := c.handles + 1 }
  | .drop p =>
      s.withHandle p fun c => (s.put p { c with handles := c.handles - 1 }).drop p
  | .newScope p =>
      s.withHandle p fun c =>
        { s with scopes := s.scopes.set p c.clone ++ [ScopeData.new p] }
  | .run p outcome => s.withHandle p fun _ => s.run p outcome
  | .complete i sig =>
      s.withNested i (fun data => data.inner = .held) fun c data => complete s i c data sig
  | .dropInner i =>
      s.withNested i (fun data => data.inner ≠ .gone) fun c data =>
        (s.put i { c with kind := .nested { data with inner := .gone } }).drop i
  | .destruct i =>
      s.withNested i (fun data => data.phase = .ended) fun c data => destruct s i c data
  | .returned i outcome =>
      s.withNested i (fun data => data.phase = .forwarding) fun c data =>
        (s.run data.outer_state outcome).put i
          { c with kind := .nested { data with phase := .releasing } }
  | .dropOuter i =>
      s.withNested i (fun data => data.phase = .releasing) fun c data =>
        (s.put i { c with kind := .nested { data with phase := .released } }).drop data.outer_state
  | .dropRcv i =>
      s.withNested i (fun data => data.phase = .released) fun c data =>
        s.put i { c with
          kind := .nested
            { data with
              rcv := none
              destroyed := data.destroyed || data.rcv.isSome
              phase := .dead } }

/-- A root scope with one handle. -/
def fresh : State P V E where
  scopes := [⟨1, false, .root (some ()), 1⟩]
  panics := []

/-- `scope` and `scope_send`, with all the scopes nested inside. -/
def machine (P V E : Type) : Machine (State P V E) (Label P V E) where
  init := fresh
  step := step

end SendersReceivers.Scope
