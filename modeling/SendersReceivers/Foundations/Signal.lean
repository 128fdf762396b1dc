import Mathlib.Algebra.Order.Group.Nat
import Mathlib.Data.List.Basic

/-!
# Foundations/Signal — schedulers and the three signals

A sender completes with exactly one of a value, an error or a done signal.  The value signal alone
carries a scheduler: the `LocalScheduler` of whatever ran it.  A tuple is a list of values, and
`TupleCat` is `++`.
-/

namespace SendersReceivers

/-- A scheduler that can travel with a value signal, i.e. one that is its own `LocalScheduler`:
`ImmediateScheduler`, or a thread pool named by `P`. -/
inductive Local (P : Type) where
  | immediate
  | pool (p : P)
  deriving DecidableEq, Repr

/-- A scheduler a chain may name: `ImmediateScheduler`, `LazyScheduler { sch }`, or a pool. -/
inductive Scheduler (P : Type) where
  | immediate
  | lazy (sch : Local P)
  | pool (p : P)
  deriving DecidableEq, Repr

variable {P V E : Type}

/-- `Scheduler::LocalScheduler`, as the value it passes to `set_value`. -/
def Scheduler.localScheduler : Scheduler P → Local P
  | .immediate => .immediate
  | .lazy sch => sch
  | .pool p => .pool p

/-- **The schedulers that run their continuation inside `start`**: the immediate and the lazy
one. -/
def Scheduler.Inline : Scheduler P → Prop
  | .immediate => True
  | .lazy _ => True
  | .pool _ => False

instance (sch : Scheduler P) : Decidable sch.Inline := by
  cases sch <;> unfold Scheduler.Inline <;> infer_instance

/-- What a sender completes with. -/
inductive Signal (P V E : Type) where
  | value (sch : Local P) (values : List V)
  | error (error : E)
  | done
  deriving DecidableEq, Repr

end SendersReceivers
