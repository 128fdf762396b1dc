import Mathlib.Logic.Function.Basic
import SendersReceivers.Foundations.Signal

/-!
# Chain/Prog — what starting an operation does, as a tree of effects

A receiver method runs user functions, creates, clones and drops handles of nested scopes, stores a
signal in the `shared_value` of a scope, and hands tasks to a pool.  A `Prog` is such a run with
its future spelled out: the state it depends on is read by the handler, so the one translation of
the source is read by a sequential handler (`Chain/Exec`) and by a multi-threaded one
(`Chain/Threads`).

A handle of a nested scope is a pointer to its `ScopeDataSend`/`ScopeDataNoSend`; the part of that
data which never changes (the outer receiver and the outer scope) sits in the pointer, as the
destructor it determines.
-/

namespace SendersReceivers

variable (P V E U : Type)

/-- What user functions can read and write: the boxed tuple of every `LetValue` stage (reached
through `ScopedRefMut`), and any state of their own. -/
structure Mem (V U : Type) where
  cell : ℕ → List V
  user : U

variable {V U} in
/-- `Box::new(value)`: the tuple stored for scope `s`. -/
def Mem.setCell (m : Mem V U) (s : ℕ) (value : List V) : Mem V U :=
  { m with cell := Function.update m.cell s value }

/-- A user function: it may change the memory, and returns a result or an `Err`. -/
abbrev UserFn (α : Type) := Mem V U → Except E α × Mem V U

/-- The effects of a run.  `release` is the drop of one handle of scope `s`: the last one runs the
destructor `drop` on the stored signal before anything else happens on that thread. -/
inductive Prog where
  | ret
  /-- a user function runs; what follows depends on the memory it ran on -/
  | call (f : Mem V U → Mem V U) (k : Mem V U → Prog)
  /-- some receiver's `set_value(sch, ..)` is entered -/
  | enter (sch : Local P) (k : Prog)
  /-- a `LazyScheduler` passes on `sch` where it stands -/
  | lazily (sch : Local P) (k : Prog)
  /-- the outermost receiver gets a signal -/
  | emit (sig : Signal P V E) (k : Prog)
  /-- `new_scope`: a fresh scope, its three handles held by the caller -/
  | newScope (value : List V) (k : ℕ → Prog)
  /-- an inner receiver stores its signal in `shared_value` -/
  | store (s : ℕ) (sig : Signal P V E) (k : Prog)
  | clone (s : ℕ) (k : Prog)
  | release (s : ℕ) (drop : Option (Signal P V E) → Prog) (k : Prog)
  /-- a user function has got the `ScopedRefMut` of scope `s`, which it may drop where it likes -/
  | lend (s : ℕ) (drop : Option (Signal P V E) → Prog) (k : Prog)
  /-- that reference is dropped here, unless it is gone already -/
  | reclaim (s : ℕ) (drop : Option (Signal P V E) → Prog) (k : Prog)
  /-- a task is enqueued on pool `p` -/
  | spawn (p : P) (task : Prog) (k : Prog)

variable {P V E U}

/-- One run after another, on one thread. -/
def Prog.seq : Prog P V E U → Prog P V E U → Prog P V E U
  | .ret, q => q
  | .call f k, q => .call f fun m => (k m).seq q
  | .enter sch k, q => .enter sch (k.seq q)
  | .lazily sch k, q => .lazily sch (k.seq q)
  | .emit sig k, q => .emit sig (k.seq q)
  | .newScope value k, q => .newScope value fun s => (k s).seq q
  | .store s sig k, q => .store s sig (k.seq q)
  | .clone s k, q => .clone s (k.seq q)
  | .release s drop k, q => .release s drop (k.seq q)
  | .lend s drop k, q => .lend s drop (k.seq q)
  | .reclaim s drop k, q => .reclaim s drop (k.seq q)
  | .spawn p task k, q => .spawn p task (k.seq q)

/-- A handle of a scope: which one, and what its data's destructor does with the stored signal. -/
structure ScopePtr (P V E U : Type) where
  id : ℕ
  drop : Option (Signal P V E) → Prog P V E U

/-- `Clone for ScopeDataSendPtr`. -/
def ScopePtr.clone (p : ScopePtr P V E U) (k : Prog P V E U) : Prog P V E U := .clone p.id k

/-- The drop of one handle. -/
def ScopePtr.release (p : ScopePtr P V E U) (k : Prog P V E U) : Prog P V E U :=
  .release p.id p.drop k

/-- The `ScopedRefMut` is handed to the user function. -/
def ScopePtr.lend (p : ScopePtr P V E U) (k : Prog P V E U) : Prog P V E U := .lend p.id p.drop k

/-- The drop of the `ScopedRefMut`, if it is still to be dropped. -/
def ScopePtr.reclaim (p : ScopePtr P V E U) (k : Prog P V E U) : Prog P V E U :=
  .reclaim p.id p.drop k

/-- `Receiver` and `ReceiverOf`: each method consumes the receiver, as does dropping it. -/
structure Receiver (P V E U : Type) where
  setValue : Local P → List V → Prog P V E U
  setError : E → Prog P V E U
  setDone : Prog P V E U
  drop : Prog P V E U

/-- The method a signal selects. -/
def Receiver.deliver (rcv : Receiver P V E U) : Signal P V E → Prog P V E U
  | .value sch values => rcv.setValue sch values
  | .error error => rcv.setError error
  | .done => rcv.setDone

/-- `forward` of `scope/receiver.rs`: the stored signal goes to the receiver; without one the
receiver is destroyed. -/
def forward (rcv : Receiver P V E U) : Option (Signal P V E) → Prog P V E U
  | some argument => rcv.deliver argument
  | none => rcv.drop

end SendersReceivers
