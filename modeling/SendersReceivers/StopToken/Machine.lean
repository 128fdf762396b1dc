import SendersReceivers.Machinery.Runs
import SendersReceivers.Machinery.Threads

/-!
# StopToken/Machine — stop sources, their callbacks, and the threads that use them

A stop source is a flag, and a vector of boxed callbacks under a mutex.  `request_stop` sets the
flag, and then visits the boxes, inside of the mutex; `register` appends a box, inside of the mutex,
unless it sees the flag there; `deregister` empties a box.

    request_stop   stopped ← true ──lock──▸ invoke 0 ── invoke 1 ── ⋯ ──▸ unlock
    register                      ──lock──▸ load ──▸ push, or Err     ──▸ unlock
    deregister                    ──lock──▸ clear, cleared            ──▸ unlock

What a function does is again a list of operations on stop sources, and so is what its destructor
does: it drops what the function owns.  `invoke` runs a callback in the place where it stands, and
`clear` destroys one there, so with the mutex held. -/

namespace SendersReceivers.StopToken

open Machinery

/-- What the caller of `callback` does with its result: the `StoppableCallback` is kept under a
name, or detached at once, as `detached_callback` does; the function that comes back in an `Err` is
run, or it is not. -/
structure Caller where
  name : ℕ
  detached : Bool
  runsErr : Bool
  deriving DecidableEq

/-- **What a thread does with stop sources.** -/
inductive Op where
  | requestStop (q : ℕ)
  /-- `StopToken::callback`, with a function that does `body`, and whose destructor does `drops` if
  it is destroyed without having been run -/
  | callback (q : ℕ) (caller : Caller) (body drops : List Op)
  /-- the handle of source `q` that is kept under the name is dropped, or detached -/
  | drop (q name : ℕ)
  | detach (q name : ℕ)

/-- The function of a callback.  It is run or destroyed, and that once, so what happens then is one
of two lists. -/
@[ext]
structure Callback where
  body : List Op
  drops : List Op

/-- What a thread still has to do.  Those that begin with the word `lock` are about to take the
mutex of `q`, as is the `op` of a `callback`. -/
inductive Instr where
  | op (o : Op)
  /-- `request_stop` -/
  | lockStop (q : ℕ)
  /-- the loop of `request_stop` is at slot `j`, inside of the mutex -/
  | invoke (q j : ℕ)
  /-- `register`, inside of the mutex -/
  | load (q : ℕ) (caller : Caller) (f : Callback)
  | push (q : ℕ) (caller : Caller) (f : Callback)
  /-- `deregister`, for callback `id` -/
  | lockClear (q callback_slot id : ℕ)
  | clear (q callback_slot id : ℕ)
  /-- what was in the slot has been destroyed -/
  | cleared (q id : ℕ)

/-- `StoppableCallback`: `state` is the source, or `Weak::new()`.  `id` records which callback it is
for. -/
structure StoppableCallback where
  state : Option ℕ
  callback_slot : ℕ
  id : ℕ
  deriving DecidableEq

/-- `StopSourceState`.  A box is known by its callback. -/
structure StopSourceState where
  stopped : Bool
  callbacks : List ℕ
  poisoned : Bool
  deriving DecidableEq

/-- A panic of the code itself. -/
inductive Panic where
  /-- `lock().unwrap()` -/
  | poisoned (q : ℕ)
  /-- `callbacks[callback_slot]` -/
  | outOfBounds (q callback_slot : ℕ)
  deriving DecidableEq

/-- What has happened. -/
inductive Event where
  /-- `request_stop` has set the flag, and returns -/
  | stopRequested (q : ℕ)
  | stopReturned (q : ℕ)
  /-- `callback` has its result: `Ok`, or `Err` -/
  | registered (q id : ℕ)
  | refused (q id : ℕ)
  /-- the function is run -/
  | invoked (q id : ℕ)
  /-- the handle is detached -/
  | detached (q id : ℕ)
  /-- the drop of the handle has emptied the slot, and returns -/
  | dropped (q id : ℕ)
  | dropReturned (q id : ℕ)
  deriving DecidableEq

/-- The sources, the boxes, the handles and the threads.  `functions` has, for each call of
`callback` so far, the function, as long as it is in a box.  The last three fields record what has
happened, which calls were made by the threads, and which panics there were in the code itself. -/
structure State where
  sources : ℕ → StopSourceState
  functions : List (Option Callback)
  handles : List (ℕ × StoppableCallback)
  threads : List (List Instr)
  log : List Event
  called : List Op
  panics : List Panic

/-- What can happen next. -/
inductive Label where
  /-- a new thread makes a call -/
  | call (o : Op)
  /-- thread `i` takes a step -/
  | run (i : ℕ)
  /-- a function that thread `i` is in panics -/
  | panic (i : ℕ)

/-- `usize::MAX`. -/
def usizeMax : ℕ := 2 ^ 64 - 1

/-- `StopCallback::detach`. -/
def StoppableCallback.detach (cb : StoppableCallback) : StoppableCallback :=
  { cb with state := none, callback_slot := usizeMax }

/-- The mutex that the thread has while the instruction is still to be done. -/
def Instr.holds : Instr → Option ℕ
  | .invoke q _ | .load q _ _ | .push q _ _ | .clear q _ _ | .cleared q _ => some q
  | _ => none

/-- One if that is the mutex of `q`. -/
def Instr.held (q : ℕ) (x : Instr) : ℕ := if x.holds = some q then 1 else 0

/-- The code of a function, or of its destructor. -/
def code (body : List Op) : List Instr := body.map .op

namespace State

/-- How many threads are inside of the mutex of `q`. -/
def holders (s : State) (q : ℕ) : ℕ := total (Instr.held q) s.threads

/-- Source `q` becomes `src`. -/
def setSource (s : State) (q : ℕ) (src : StopSourceState) : State :=
  { s with sources := Function.update s.sources q src }

/-- Thread `i`, which has `k` left to do after this step, does `c` first. -/
def goto (s : State) (i : ℕ) (c k : List Instr) : State :=
  { s with threads := s.threads.set i (c ++ k) }

def record (s : State) (e : Event) : State := { s with log := s.log ++ [e] }

/-- Thread `i` unwinds, and poisons what it has locked. -/
def unwind (s : State) (i : ℕ) (k : List Instr) : State :=
  { s with
    sources := fun q =>
      if k.any fun x => x.holds = some q then { s.sources q with poisoned := true }
      else s.sources q
    threads := s.threads.set i [] }

/-- The handle of source `q` with that name. -/
def findHandle (s : State) (q name : ℕ) : ℕ :=
  s.handles.findIdx fun h => h.1 = name ∧ h.2.state = some q

/-! ## The functions of the source -/

/-- `callbacks.lock().unwrap()`. -/
def lock (s : State) (i : ℕ) (k : List Instr) (q : ℕ) (inside : Instr) : Option State :=
  if s.holders q = 0 then
    some
      (if (s.sources q).poisoned then
        { s.unwind i k with panics := s.panics ++ [.poisoned q] }
      else s.goto i [inside] k)
  else none

/-- `self.stopped.store(true)`. -/
def store (s : State) (q : ℕ) : State :=
  (s.setSource q { s.sources q with stopped := true }).record (.stopRequested q)

/-- `callback.invoke()` for slot `j`, and the loop around it. -/
def invoke (s : State) (i : ℕ) (k : List Instr) (q j : ℕ) : State :=
  match (s.sources q).callbacks[j]? with
  | none => (s.goto i [] k).record (.stopReturned q)
  | some id =>
      match s.functions[id]? with
      | some (some f) =>
          { (s.goto i (code f.body ++ [.invoke q (j + 1)]) k).record (.invoked q id) with
            functions := s.functions.set id none }
      | _ => s.goto i [.invoke q (j + 1)] k

/-- `return Err(f)`, and what the caller does then: it runs the function, or destroys it. -/
def refuse (s : State) (i : ℕ) (k : List Instr) (q : ℕ) (caller : Caller) (f : Callback) : State :=
  { (s.goto i (code (if caller.runsErr then f.body else f.drops)) k).record
      (.refused q s.functions.length) with
    functions := s.functions ++ [none] }

/-- `callbacks.push(..)`. -/
def register (s : State) (i : ℕ) (k : List Instr) (q : ℕ) (f : Callback) : State :=
  { ((s.goto i [] k).setSource q
      { s.sources q with callbacks := (s.sources q).callbacks ++ [s.functions.length] }).record
      (.registered q s.functions.length) with
    functions := s.functions ++ [some f] }

/-- `register`, and what the caller does with the handle; that of a detached one is dropped without
effect. -/
def push (s : State) (i : ℕ) (k : List Instr) (q : ℕ) (caller : Caller) (f : Callback) : State :=
  if caller.detached then (s.register i k q f).record (.detached q s.functions.length)
  else
    { s.register i k q f with
      handles := s.handles ++
        [(caller.name, ⟨some q, (s.sources q).callbacks.length, s.functions.length⟩)] }

/-- `Drop for StoppableCallback`. -/
def drop (s : State) (i : ℕ) (k : List Instr) (q name : ℕ) : State :=
  match s.handles[s.findHandle q name]? with
  | none => s.goto i [] k
  | some (_, cb) =>
      { s.goto i [.lockClear q cb.callback_slot cb.id] k with
        handles := s.handles.eraseIdx (s.findHandle q name) }

def detach (s : State) (i : ℕ) (k : List Instr) (q name : ℕ) : State :=
  match s.handles[s.findHandle q name]? with
  | none => s.goto i [] k
  | some (_, cb) =>
      { (s.goto i [] k).record (.detached q cb.id) with
        handles := s.handles.modify (s.findHandle q name) fun h => (h.1, h.2.detach) }

/-- What the destructor of the function in box `id` does, if there is one. -/
def boxDrops (s : State) (id : ℕ) : List Op :=
  match s.functions[id]? with
  | some (some f) => f.drops
  | _ => []

/-- `callbacks[callback_slot].clear()`. -/
def clear (s : State) (i : ℕ) (k : List Instr) (q callback_slot id : ℕ) : State :=
  match (s.sources q).callbacks[callback_slot]? with
  | none =>
      { s.unwind i (.clear q callback_slot id :: k) with
        panics := s.panics ++ [.outOfBounds q callback_slot] }
  | some b =>
      { (s.goto i (code (s.boxDrops b) ++ [.cleared q id]) k).record (.dropped q id) with
        functions := s.functions.set b none }

/-- Thread `i` does `x`. -/
def exec (s : State) (i : ℕ) (k : List Instr) : Instr → Option State
  | .op (.requestStop q) => some ((s.store q).goto i [.lockStop q] k)
  | .op (.callback q caller body drops) => s.lock i k q (.load q caller ⟨body, drops⟩)
  | .op (.drop q name) => some (s.drop i k q name)
  | .op (.detach q name) => some (s.detach i k q name)
  | .lockStop q => s.lock i k q (.invoke q 0)
  | .invoke q j => some (s.invoke i k q j)
  | .load q caller f =>
      some
        (if (s.sources q).stopped then s.refuse i k q caller f
        else s.goto i [.push q caller f] k)
  | .push q caller f => some (s.push i k q caller f)
  | .lockClear q callback_slot id => s.lock i k q (.clear q callback_slot id)
  | .clear q callback_slot id => some (s.clear i k q callback_slot id)
  | .cleared q id => some ((s.goto i [] k).record (.dropReturned q id))

end State

/-! ## What changes in the sources -/

theorem store_source (s : State) (q q' : ℕ) : (s.store q).sources q' =
    { s.sources q' with stopped := (s.sources q').stopped || decide (q' = q) } := by
  by_cases hq : q' = q
  · subst hq
    simp [State.store, State.setSource, State.record]
  · simp [State.store, State.setSource, State.record, hq]

theorem register_source (s : State) (i : ℕ) (k : List Instr) (q : ℕ) (f : Callback) (q' : ℕ) :
    (s.register i k q f).sources q' =
      { s.sources q' with
        callbacks := (s.sources q').callbacks ++ if q' = q then [s.functions.length] else [] } := by
  by_cases hq : q' = q
  · subst hq
    simp [State.register, State.record, State.setSource, State.goto]
  · simp [State.register, State.record, State.setSource, State.goto, hq]

theorem push_source (s : State) (i : ℕ) (k : List Instr) (q : ℕ) (caller : Caller) (f : Callback)
    (q' : ℕ) : (s.push i k q caller f).sources q' =
      { s.sources q' with
        callbacks := (s.sources q').callbacks ++ if q' = q then [s.functions.length] else [] } := by
  unfold State.push
  split <;> exact register_source s i k q f q'

@[simp] theorem push_functions (s : State) (i : ℕ) (k : List Instr) (q : ℕ) (caller : Caller)
    (f : Callback) : (s.push i k q caller f).functions = s.functions ++ [some f] := by
  unfold State.push
  split <;> rfl

@[simp] theorem push_threads (s : State) (i : ℕ) (k : List Instr) (q : ℕ) (caller : Caller)
    (f : Callback) : (s.push i k q caller f).threads = (s.goto i [] k).threads := by
  unfold State.push
  split <;> rfl

@[simp] theorem push_panics (s : State) (i : ℕ) (k : List Instr) (q : ℕ) (caller : Caller)
    (f : Callback) : (s.push i k q caller f).panics = s.panics := by
  unfold State.push
  split <;> rfl

@[simp] theorem push_called (s : State) (i : ℕ) (k : List Instr) (q : ℕ) (caller : Caller)
    (f : Callback) : (s.push i k q caller f).called = s.called := by
  unfold State.push
  split <;> rfl

theorem unwind_source (s : State) (i : ℕ) (k : List Instr) (q : ℕ) : (s.unwind i k).sources q =
    { s.sources q with
      poisoned := (s.sources q).poisoned || k.any fun x => x.holds = some q } := by
  simp only [State.unwind]
  split
  next h => rw [h, Bool.or_true]
  next h => rw [eq_false_of_ne_true h, Bool.or_false]

/-! ## The machine -/

/-- Whether a thread may be in a function: between two operations, or just behind the callback that
the loop of `request_stop` has run, or that `clear` has destroyed. -/
def Instr.panics : Instr → Bool
  | .op _ | .invoke .. | .cleared .. => true
  | _ => false

/-- **The step function.** -/
def step (s : State) : Label → Option State
  | .call o => some { s with threads := s.threads ++ [[.op o]], called := s.called ++ [o] }
  | .run i =>
      match s.threads[i]? with
      | some (x :: k) => s.exec i k x
      | _ => none
  | .panic i =>
      match s.threads[i]? with
      | some (x :: k) => if x.panics then some (s.unwind i (x :: k)) else none
      | _ => none

/-- What a step is: a call, a turn of a thread, or a panic in one. -/
theorem step_cases {s t : State} {l : Label} (hs : step s l = some t) :
    (∃ o, l = .call o ∧
      t = { s with threads := s.threads ++ [[.op o]], called := s.called ++ [o] }) ∨
    (∃ i x k, l = .run i ∧ s.threads[i]? = some (x :: k) ∧ s.exec i k x = some t) ∨
    ∃ i x k, l = .panic i ∧ s.threads[i]? = some (x :: k) ∧ x.panics = true ∧
      t = s.unwind i (x :: k) := by
  cases l with
  | call o => exact .inl ⟨o, rfl, (Option.some.inj hs).symm⟩
  | run i =>
      simp only [step] at hs
      split at hs
      next x k hi => exact .inr (.inl ⟨i, x, k, rfl, hi, hs⟩)
      next => cases hs
  | panic i =>
      simp only [step] at hs
      split at hs
      next x k hi =>
        obtain ⟨hx, heq⟩ := Option.ite_none_right_eq_some.mp hs
        exact .inr (.inr ⟨i, x, k, rfl, hi, hx, (Option.some.inj heq).symm⟩)
      next => cases hs

/-- A mutex was free, and is taken, or was poisoned. -/
theorem lock_cases {s t : State} {i q : ℕ} {k : List Instr} {inside : Instr}
    (hs : s.lock i k q inside = some t) : s.holders q = 0 ∧
      (((s.sources q).poisoned = true ∧
          t = { s.unwind i k with panics := s.panics ++ [.poisoned q] }) ∨
        ((s.sources q).poisoned = false ∧ t = s.goto i [inside] k)) := by
  obtain ⟨hfree, heq⟩ := Option.ite_none_right_eq_some.mp hs
  refine ⟨hfree, ?_⟩
  obtain rfl := Option.some.inj heq
  split
  next h => exact .inl ⟨h, rfl⟩
  next h => exact .inr ⟨eq_false_of_ne_true h, rfl⟩

/-- `StopSource::default()`, for every source. -/
def fresh : State where
  sources _ := ⟨false, [], false⟩
  functions := []
  handles := []
  threads := []
  log := []
  called := []
  panics := []

/-- Any number of stop sources, and the threads that use them. -/
def machine : Machine State Label where
  init := fresh
  step := step

end SendersReceivers.StopToken
