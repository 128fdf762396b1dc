import SendersReceivers.Machinery.Runs
import SendersReceivers.Machinery.Threads

/-!
# Scope/Root — `scope_send`, its handles, and the thread that waits for them

The root scope counts its handles, and the last one to be dropped unparks the main thread.  A nested
scope owns a handle of the scope it was made in, and gives it back when its own last handle is gone.
What runs under a scope, be it a continuation of `wrap` or the destructor of a nested scope, has a
handle of that scope, and marks the scope before it lets go of it, if it has panicked.

    running ──ret────────────────────▸ releasing ──last──▸ notifying ──▸ unpark
       └─────panic──▸ panicked ──mark──▸ ┘

Where a handle is, and which thread uses it, is left open: as long as somebody has one, it may be
cloned, dropped or used at any time.
-/

namespace SendersReceivers.RootScope

open Machinery

/-- `usize::MAX`. -/
def usizeMax : ℕ := 2 ^ 64 - 1

/-- What `catch_unwind` has got from the function of `scope_send`. -/
inductive Unwind where
  | ok
  | err
  deriving DecidableEq

/-- How `scope_send` ends. -/
inductive Outcome where
  | returned
  /-- `resume_unwind(e)` -/
  | resumed
  | panicked (message : String)
  deriving DecidableEq

/-- Where the main thread is. -/
inductive Main where
  /-- in the function that `scope_send` was called with -/
  | inside
  /-- about to drop `scope` -/
  | dropping (result : Unwind)
  /-- its handle was the last one -/
  | notifying (result : Unwind)
  /-- about to look at `state.running()` -/
  | checking (result : Unwind)
  /-- about to park, or parked -/
  | parking (result : Unwind)
  /-- past the loop -/
  | leaving (result : Unwind)
  | done (outcome : Outcome)
  deriving DecidableEq

/-- A scope: `none` is the root. -/
abbrev ScopeId := Option ℕ

/-- What some thread is doing with a handle. -/
inductive Activity where
  /-- in the function of `ScopeData::run` -/
  | running (p : ScopeId)
  /-- that function has panicked, and `mark_panicked` is next -/
  | panicked (p : ScopeId)
  /-- about to drop the handle -/
  | releasing (p : ScopeId)
  /-- a clone that was one too many, about to be taken back -/
  | overflowing
  /-- the handle was the last one of the root, and `notify` is next -/
  | notifying
  | ended
  deriving DecidableEq

/-- `ScopeDataSend` of a nested scope.  `free` of its handles are not in an activity. -/
structure Nested where
  outer_state : ScopeId
  strong : ℕ
  a_thread_panicked : Bool
  free : ℕ

/-- `ScopeDataSend` of the root, the nested scopes, and the threads.  `token` is the one of
`unpark`.  The last fields record how often `notify` was run, whether any continuation has panicked,
and which panics there were otherwise. -/
structure State where
  num_running_threads : ℕ
  a_thread_panicked : Bool
  notify : Option Unit
  free : ℕ
  scopes : List Nested
  main : Main
  token : Bool
  activities : List Activity
  notified : ℕ
  anyPanicked : Bool
  panics : List String

/-- What can happen next. -/
inductive Label where
  /-- a handle is cloned -/
  | clone (p : ScopeId)
  /-- `new_scope`: a nested scope, with a clone as its `outer_state` -/
  | nest (p : ScopeId)
  /-- a handle is dropped -/
  | drop (p : ScopeId)
  /-- the closure that `wrap` or `wrap_send` has made is called -/
  | run (p : ScopeId)
  /-- the function of activity `i` returns, or panics -/
  | ret (i : ℕ)
  | panic (i : ℕ)
  | mark (i : ℕ)
  | release (i : ℕ)
  | notify (i : ℕ)
  /-- the function of `scope_send` has returned, or has panicked -/
  | close (result : Unwind)
  | dropScope
  | notifyMain
  | check
  | park
  /-- `park` returns for no reason -/
  | spurious
  /-- somebody else unparks the thread, or it parks inside of the function -/
  | unpark
  | consume
  | leave
  deriving DecidableEq

/-! ## The functions of the source -/

/-- `Drop for ScopeDataSend` of a nested scope: its activity goes on in the outer one. -/
def Nested.destroyed (sc : Nested) : Activity :=
  if sc.a_thread_panicked then .panicked sc.outer_state else .running sc.outer_state

namespace State

/-- `num_running_threads.fetch_add(1)`. -/
def fetchAdd (s : State) : State :=
  { s with num_running_threads := (s.num_running_threads + 1) % (usizeMax + 1) }

/-- `num_running_threads.fetch_sub(1)`. -/
def fetchSub (s : State) : State :=
  { s with num_running_threads := (s.num_running_threads + usizeMax) % (usizeMax + 1) }

/-- Some thread does one more thing. -/
def push (s : State) (a : Activity) : State := { s with activities := s.activities ++ [a] }

/-- `increment_num_running_threads`; the decrement of `overflow` is a step of its own. -/
def increment (s : State) (cloned : State → State) : State :=
  if usizeMax / 2 < s.num_running_threads then
    s.fetchAdd.push .overflowing
  else cloned s.fetchAdd

/-- The handles of a scope that are not in an activity. -/
def freeOf (s : State) : ScopeId → ℕ
  | none => s.free
  | some k => (s.scopes[k]?.map Nested.free).getD 0

/-- A nested scope changes. -/
def modify (s : State) (k : ℕ) (f : Nested → Nested) : State :=
  { s with scopes := s.scopes.modify k f }

/-- `Clone` of a handle, which goes where `cloned` says. -/
def clone (s : State) (cloned : State → State) : ScopeId → State
  | none => s.increment cloned
  | some k => cloned (s.modify k fun sc => { sc with strong := sc.strong + 1 })

/-- One more handle that is not in an activity. -/
def put (s : State) : ScopeId → State
  | none => { s with free := s.free + 1 }
  | some k => s.modify k fun sc => { sc with free := sc.free + 1 }

/-- A handle goes into an activity. -/
def take (s : State) (p : ScopeId) (a : Activity) : State :=
  match p with
  | none => { s.push a with free := s.free - 1 }
  | some k => (s.push a).modify k fun sc => { sc with free := sc.free - 1 }

/-- A nested scope with a handle of `p`: `inner_data`, `wrapper` and `rcv_ref` have one each. -/
def newScope (s : State) (p : ScopeId) : State :=
  { s with scopes := s.scopes ++ [⟨p, 3, false, 3⟩] }

/-- Activity `i` goes on. -/
def goto (s : State) (i : ℕ) (a : Activity) : State :=
  { s with activities := s.activities.set i a }

/-- `mark_panicked`. -/
def mark (s : State) : ScopeId → State
  | none => { s with a_thread_panicked := true }
  | some k => s.modify k fun sc => { sc with a_thread_panicked := true }

/-- `Drop` of a handle, in activity `i`. -/
def release (s : State) (i : ℕ) : ScopeId → Option State
  | none => some (s.fetchSub.goto i (if s.num_running_threads = 1 then .notifying else .ended))
  | some k =>
      s.scopes[k]?.map fun sc =>
        (s.modify k fun sc => { sc with strong := sc.strong - 1 }).goto i
          (if sc.strong = 1 then sc.destroyed else .ended)

/-- The function `notify`, which unparks the main thread. -/
def runNotify (s : State) : State :=
  match s.notify with
  | some () => { s with notify := none, token := true, notified := s.notified + 1 }
  | none => { s with panics := s.panics ++ ["has not been notified before"] }

/-- Whether somebody has a handle of scope `p` to clone. -/
def hasHandle (s : State) (p : ScopeId) : Bool :=
  0 < s.freeOf p || s.activities.contains (.running p) || (p == none && s.main == .inside)

end State

/-- The end of `scope_send`. -/
def Unwind.outcome (result : Unwind) (a_thread_panicked : Bool) : Outcome :=
  match result with
  | .err => .resumed
  | .ok => if a_thread_panicked then .panicked "a scoped thread panicked" else .returned

/-- **The step function.** -/
def step (s : State) : Label → Option State
  | .clone p => if s.hasHandle p then some (s.clone (fun s => s.put p) p) else none
  | .nest p => if s.hasHandle p then some (s.clone (fun s => s.newScope p) p) else none
  | .drop p => if 0 < s.freeOf p then some (s.take p (.releasing p)) else none
  | .run p => if 0 < s.freeOf p then some (s.take p (.running p)) else none
  | .ret i =>
      match s.activities[i]? with
      | some (.running p) => some (s.goto i (.releasing p))
      | _ => none
  | .panic i =>
      match s.activities[i]? with
      | some (.running p) => some { s.goto i (.panicked p) with anyPanicked := true }
      | _ => none
  | .mark i =>
      match s.activities[i]? with
      | some (.panicked p) => some ((s.mark p).goto i (.releasing p))
      | _ => none
  | .release i =>
      match s.activities[i]? with
      | some (.releasing p) => s.release i p
      | some .overflowing =>
          some { s.fetchSub.goto i (if s.num_running_threads = 1 then .notifying else .ended) with
            panics := s.panics ++ ["too many running threads in thread scope"] }
      | _ => none
  | .notify i =>
      match s.activities[i]? with
      | some .notifying => some (s.runNotify.goto i .ended)
      | _ => none
  | .close result =>
      if s.main = .inside then some { s with main := .dropping result } else none
  | .dropScope =>
      match s.main with
      | .dropping result =>
          some { s.fetchSub with
            main := if s.num_running_threads = 1 then .notifying result else .checking result }
      | _ => none
  | .notifyMain =>
      match s.main with
      | .notifying result => some { s.runNotify with main := .checking result }
      | _ => none
  | .check =>
      match s.main with
      | .checking result =>
          some { s with
            main := if s.num_running_threads = 0 then .leaving result else .parking result }
      | _ => none
  | .park =>
      match s.main with
      | .parking result =>
          if s.token then some { s with token := false, main := .checking result } else none
      | _ => none
  | .spurious =>
      match s.main with
      | .parking result => some { s with main := .checking result }
      | _ => none
  | .unpark => some { s with token := true }
  | .consume => if s.main = .inside then some { s with token := false } else none
  | .leave =>
      match s.main with
      | .leaving result => some { s with main := .done (result.outcome s.a_thread_panicked) }
      | _ => none

/-- `ScopeDataSendPtr::new`, and the function of `scope_send` with the handle in `scope`. -/
def fresh : State where
  num_running_threads := 1
  a_thread_panicked := false
  notify := some ()
  free := 0
  scopes := []
  main := .inside
  token := false
  activities := []
  notified := 0
  anyPanicked := false
  panics := []

/-- A call of `scope_send`. -/
def machine : Machine State Label where
  init := fresh
  step := step

end SendersReceivers.RootScope
