import Mathlib.Data.List.Perm.Basic
import SendersReceivers.Machinery.Runs
import SendersReceivers.Machinery.Threads

/-!
# Detached/Machine — who owns a `DiscardingReceiver` when somebody panics

What `start_detached`, `ensure_started` and `ThreadPool::execute` start has a `DiscardingReceiver`
at its end, which panics when it is dropped without a signal.  Until then it is owned by the
receivers of the combinators, and those by the frames of `set_value`, by boxed continuations, by the
states that senders share, and by nested scopes, whose destructor calls them or drops them.

    frame ──▸ ThenWrappedReceiver ──▸ DiscardingReceiver
    frame ──▸ handle ──▸ nested scope ──▸ LocalReceiverWithValue ──▸ DiscardingReceiver

A receiver is the list of what it owns that has a destructor.  What a function does with what it
owns is left open: as long as it has something, it may pass it on, clone it, share it, or panic.
What the destructors do is not, nor what runs while a thread unwinds. -/

namespace SendersReceivers.Detached

open Machinery

/-- A scope of `scope.rs`; `none` is that of `detached_scope`, which nobody waits for. -/
abbrev ScopeId := Option ℕ

/-- What has a destructor. -/
inductive Item where
  /-- `DiscardingReceiver { completed: false }` -/
  | discarding
  /-- an `Rc`, an `Arc` or a `Box`, of cell `q` -/
  | handle (q : ℕ)
  deriving DecidableEq

/-- The handle that somebody has of a scope. -/
def handles : ScopeId → List Item
  | none => []
  | some q => [.handle q]

/-- What a cell is. -/
inductive Kind where
  /-- `ScopeDataNoSend` or `ScopeDataSend` of a nested scope -/
  | scope (outer_state : ScopeId)
  /-- the state of a `split`, a `when_all` or an `ensure_started`, a queue, a boxed closure -/
  | shared
  deriving DecidableEq

/-- A cell, with what the receiver `rcv` in it owns; `shared_value` tells whether a signal is
stored. One that is not a scope has anything in place of the receiver. -/
structure Data where
  kind : Kind
  strong : ℕ
  a_thread_panicked : Bool
  shared_value : Option Unit
  rcv : List Item
  deriving DecidableEq

/-- What a thread still has to do. -/
inductive Instr where
  /-- a function, with what its frame owns -/
  | code (owned : List Item)
  /-- something goes out of scope -/
  | drop (x : Item)
  /-- the function that `ScopeData::run` has called returns to here -/
  | run (p : ScopeId)
  | mark (p : ScopeId)
  deriving DecidableEq

/-- A thread; one that is `panicking` unwinds. -/
structure Thread where
  code : List Instr
  panicking : Bool
  deriving DecidableEq

/-- The threads and the cells.  The process is `aborted` when a thread panics while it unwinds. -/
structure State where
  threads : List Thread
  cells : List Data
  aborted : Bool

/-- What a thread can do next. -/
inductive Action where
  /-- it calls a function that consumes what it is `given` -/
  | call (given kept : List Item)
  | ret
  | panic
  /-- another thread gets something -/
  | spawn (given kept : List Item)
  | clone (q : ℕ)
  /-- `Rc::new`, `Arc::new`, `Box::new` -/
  | share (given kept : List Item)
  | put (q : ℕ) (given kept : List Item)
  | take (q : ℕ) (taken left : List Item)
  /-- `new_scope` -/
  | newScope (p : ScopeId) (given kept : List Item)
  /-- `set_value`, `set_error` or `set_done` of an `InnerScopeReceiver` -/
  | store (q : ℕ)
  /-- the closure that `wrap` has made is called -/
  | enter (p : ScopeId) (given kept : List Item)
  /-- a `DiscardingReceiver` is made -/
  | start
  /-- `set_value` or `set_done` of it, and `set_error` -/
  | complete
  | fail
  /-- the next destructor runs, or `ScopeData::run` ends -/
  | proceed
  deriving DecidableEq

structure Label where
  thread : ℕ
  action : Action
  deriving DecidableEq

/-! ## The functions of the source -/

/-- What the frames of a function own. -/
def Instr.owned : Instr → List Item
  | .code xs => xs
  | _ => []

/-- What is about to be dropped. -/
def Instr.dropped : Instr → List Item
  | .drop x => [x]
  | _ => []

/-- What unwinding does in the place of an instruction: `catch_unwind` of `ScopeData::run` notices
the panic. -/
def Instr.unwind : Instr → List Instr
  | .code xs => xs.map .drop
  | .drop x => [.drop x]
  | .run p => [.mark p]
  | .mark p => [.mark p]

/-- `forward`. -/
def Data.forward (d : Data) : List Instr :=
  match d.shared_value with
  | some () => [.code d.rcv]
  | none => d.rcv.map .drop

/-- What the last handle of a cell leaves to be done: `Drop for ScopeDataNoSend` and
`ScopeDataSend`, and the drop of the fields. -/
def Data.destroyed (d : Data) : List Instr :=
  match d.kind with
  | .shared => d.rcv.map .drop
  | .scope outer_state =>
      if d.a_thread_panicked then
        .mark outer_state :: ((handles outer_state).map .drop ++ d.rcv.map .drop)
      else d.forward ++ .run outer_state :: (handles outer_state).map .drop

/-- A cell that is not there any more. -/
def Data.freed : Data := ⟨.shared, 0, false, none, []⟩

namespace State

/-- Thread `i` goes on. -/
def goto (s : State) (i : ℕ) (th : Thread) : State := { s with threads := s.threads.set i th }

/-- Thread `i` panics, with `code` still to do. -/
def raise (s : State) (i : ℕ) (panicking : Bool) (code : List Instr) : State :=
  if panicking then { s with aborted := true } else s.goto i ⟨code.flatMap Instr.unwind, true⟩

/-- A cell changes. -/
def modify (s : State) (q : ℕ) (f : Data → Data) : State := { s with cells := s.cells.modify q f }

/-- A scope is cloned. -/
def retain (s : State) : ScopeId → State
  | none => s
  | some q => s.modify q fun d => { d with strong := d.strong + 1 }

/-- `mark_panicked`. -/
def mark (s : State) : ScopeId → State
  | none => s
  | some q => s.modify q fun d => { d with a_thread_panicked := true }

/-- A new cell. -/
def alloc (s : State) (d : Data) : State := { s with cells := s.cells ++ [d] }

/-- A new thread. -/
def spawn (s : State) (given : List Item) : State :=
  { s with threads := s.threads ++ [⟨[.code given], false⟩] }

end State

/-- What the functions that a thread is in have a reference to. -/
def borrowed (code : List Instr) : List Item := code.flatMap Instr.owned

/-- The next instruction of thread `i`, with `k` after it. -/
def exec (s : State) (i : ℕ) (panicking : Bool) (k : List Instr) :
    Instr → Action → Option State
  | .code xs, .call given kept =>
      if xs.Perm (given ++ kept) then
        some (s.goto i ⟨.code given :: .code kept :: k, panicking⟩)
      else none
  | .code xs, .ret => some (s.goto i ⟨xs.map .drop ++ k, panicking⟩)
  | .code xs, .panic => some (s.raise i panicking (.code xs :: k))
  | .code xs, .spawn given kept =>
      if xs.Perm (given ++ kept) then
        some ((s.goto i ⟨.code kept :: k, panicking⟩).spawn given)
      else none
  | .code xs, .clone q =>
      if .handle q ∈ borrowed (.code xs :: k) then
        some ((s.retain (some q)).goto i ⟨.code (.handle q :: xs) :: k, panicking⟩)
      else none
  | .code xs, .share given kept =>
      if xs.Perm (given ++ kept) then
        some ((s.alloc ⟨.shared, 1, false, none, given⟩).goto i
          ⟨.code (.handle s.cells.length :: kept) :: k, panicking⟩)
      else none
  | .code xs, .put q given kept =>
      match s.cells[q]? with
      | some ⟨.shared, _, _, _, _⟩ =>
          if xs.Perm (given ++ kept) ∧ .handle q ∈ borrowed (.code kept :: k) then
            some ((s.modify q fun d => { d with rcv := d.rcv ++ given }).goto i
              ⟨.code kept :: k, panicking⟩)
          else none
      | _ => none
  | .code xs, .take q taken left =>
      match s.cells[q]? with
      | some ⟨.shared, _, _, _, rcv⟩ =>
          if rcv.Perm (taken ++ left) ∧ .handle q ∈ borrowed (.code xs :: k) then
            some ((s.modify q fun d => { d with rcv := left }).goto i
              ⟨.code (taken ++ xs) :: k, panicking⟩)
          else none
      | _ => none
  -- `inner_data`, `wrapper` and `rcv_ref` have a handle each
  | .code xs, .newScope p given kept =>
      if xs.Perm (given ++ kept) ∧ handles p ⊆ borrowed (.code xs :: k) then
        some (((s.retain p).alloc ⟨.scope p, 3, false, none, given⟩).goto i
          ⟨.code (List.replicate 3 (.handle s.cells.length) ++ kept) :: k, panicking⟩)
      else none
  | .code xs, .store q =>
      if .handle q ∈ xs then
        match s.cells[q]? with
        | some ⟨.scope _, _, _, none, _⟩ =>
            some ((s.modify q fun d => { d with shared_value := some () }).goto i
              ⟨.drop (.handle q) :: .code (xs.erase (.handle q)) :: k, panicking⟩)
        -- "signal double assigned"
        | some ⟨.scope _, _, _, some (), _⟩ =>
            some ((s.mark (some q)).raise i panicking (.code xs :: k))
        | _ => none
      else none
  | .code xs, .enter p given kept =>
      if xs.Perm (handles p ++ (given ++ kept)) then
        some (s.goto i
          ⟨.code given :: .run p :: ((handles p).map .drop ++ .code kept :: k), panicking⟩)
      else none
  | .code xs, .start => some (s.goto i ⟨.code (.discarding :: xs) :: k, panicking⟩)
  | .code xs, .complete =>
      if .discarding ∈ xs then some (s.goto i ⟨.code (xs.erase .discarding) :: k, panicking⟩)
      else none
  -- `completed` is set first
  | .code xs, .fail =>
      if .discarding ∈ xs then some (s.raise i panicking (.code (xs.erase .discarding) :: k))
      else none
  | .drop .discarding, .proceed => some (s.raise i panicking k)
  | .drop (.handle q), .proceed =>
      match s.cells[q]? with
      | some d =>
          match d.strong with
          | 0 => none
          | 1 => some ((s.modify q fun _ => .freed).goto i ⟨d.destroyed ++ k, panicking⟩)
          | n + 2 =>
              some ((s.modify q fun d => { d with strong := n + 1 }).goto i ⟨k, panicking⟩)
      | none => none
  | .run _, .proceed => some (s.goto i ⟨k, panicking⟩)
  | .mark p, .proceed => some ((s.mark p).goto i ⟨k, panicking⟩)
  | _, _ => none

/-- **The step function.**  Nothing happens after an abort. -/
def step (s : State) (l : Label) : Option State :=
  if s.aborted then none
  else
    match s.threads[l.thread]? with
    | some ⟨x :: k, panicking⟩ => exec s l.thread panicking k x l.action
    | _ => none

/-- One thread, in a function that owns nothing. -/
def fresh : State where
  threads := [⟨[.code []], false⟩]
  cells := []
  aborted := false

/-- A process that starts chains and does not wait for them. -/
def machine : Machine State Label where
  init := fresh
  step := step

end SendersReceivers.Detached
