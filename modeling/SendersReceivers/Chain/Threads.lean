import SendersReceivers.Chain.SyncWait
import SendersReceivers.Machinery.Runs

/-!
# Chain/Threads — running a `Prog` on several threads

Every thread has a `Prog` of its own and does one effect of it at a time, in any order among the
threads.  A thread that works for a pool and has nothing to do takes a task of the queue of its
pool.

    thread 0 (started the chain)   ──spawn──▸   queue of p   ──take──▸   a thread of p

The reference that a `LetValue` function gets may be dropped by any thread at any time, since the
function can hand it to whom it likes.
-/

namespace SendersReceivers

/-- **The execution contexts of a scheduler**: the threads of a pool for the pool, every thread for
the immediate scheduler. -/
def Local.On {P : Type} : Local P → Option P → Prop
  | .immediate, _ => True
  | .pool p, home => home = some p

instance {P : Type} [DecidableEq P] : (sch : Local P) → (home : Option P) → Decidable (sch.On home)
  | .immediate, _ => isTrue trivial
  | .pool p, home => inferInstanceAs (Decidable (home = some p))

namespace Threads

open Machinery

/-- A thread: the pool it works for, if any, and what it still has to do. -/
structure Thread (P V E U : Type) where
  home : Option P
  code : Prog P V E U

/-- The threads, the tasks that wait, the references that user functions have, and every call of a
`set_value` so far with the pool of the thread it was made on. -/
structure State (P V E U : Type) where
  threads : List (Thread P V E U)
  queue : List (P × Prog P V E U)
  lent : List (ScopePtr P V E U)
  world : World P V E U
  calls : List (Local P × Option P)
  panics : List String

/-- What can happen next. -/
inductive Label where
  /-- thread `t` goes on -/
  | exec (t : ℕ)
  /-- thread `t` takes the `i`-th task that waits -/
  | take (t i : ℕ)
  /-- user code on thread `t` drops the `i`-th reference -/
  | dropRef (t i : ℕ)
  deriving DecidableEq

variable {P V E U : Type}

namespace State

/-- Thread `t` goes on with `code`. -/
def goto (s : State P V E U) (t : ℕ) (th : Thread P V E U) (code : Prog P V E U) : State P V E U :=
  { s with threads := s.threads.set t { th with code := code } }

/-- Thread `t` panics. -/
def panic (s : State P V E U) (t : ℕ) (th : Thread P V E U) (message : String) : State P V E U :=
  { s.goto t th .ret with panics := s.panics ++ [message] }

end State

/-- The next effect of thread `t`. -/
def exec (s : State P V E U) (t : ℕ) (th : Thread P V E U) : Option (State P V E U) :=
  match th.code with
  | .ret => none
  | .call f k =>
      some { s.goto t th (k s.world.mem) with world := { s.world with mem := f s.world.mem } }
  | .enter sch k => some { s.goto t th k with calls := s.calls ++ [(sch, th.home)] }
  | .lazily _ k => some (s.goto t th k)
  | .emit sig k => some { s.goto t th k with world := { s.world with log := s.world.log ++ [sig] } }
  | .newScope value k =>
      some { s.goto t th (k s.world.next) with world := s.world.newScope value }
  | .store i sig k =>
      match s.world.shared i with
      | none => some { s.goto t th k with world := s.world.store i sig }
      | some _ => some (s.panic t th "signal double assigned")
  | .clone i k => some { s.goto t th k with world := s.world.setStrong i (s.world.strong i + 1) }
  | .release i drop k =>
      match s.world.strong i with
      | 0 => some (s.panic t th "drop of a freed scope")
      | 1 => some { s.goto t th ((drop (s.world.shared i)).seq k) with world := s.world.free i }
      | n + 2 => some { s.goto t th k with world := s.world.setStrong i (n + 1) }
  | .lend i drop k => some { s.goto t th k with lent := s.lent ++ [⟨i, drop⟩] }
  | .reclaim i drop k =>
      if s.lent.any (fun p => p.id = i) then
        some { s.goto t th (.release i drop k) with lent := s.lent.eraseP fun p => p.id = i }
      else some (s.goto t th k)
  | .spawn p task k => some { s.goto t th k with queue := s.queue ++ [(p, task)] }

/-- Thread `t` takes a task of its pool, if it has nothing else to do. -/
def take [DecidableEq P] (s : State P V E U) (t : ℕ) (th : Thread P V E U) (i : ℕ)
    (task : P × Prog P V E U) : Option (State P V E U) :=
  match th.code with
  | .ret =>
      if th.home = some task.1 then
        some { s.goto t th task.2 with queue := s.queue.eraseIdx i }
      else none
  | _ => none

/-- **The step function.** -/
def step [DecidableEq P] (s : State P V E U) : Label → Option (State P V E U)
  | .exec t => s.threads[t]?.bind fun th => exec s t th
  | .take t i => s.threads[t]?.bind fun th => s.queue[i]?.bind fun task => take s t th i task
  | .dropRef t i =>
      s.threads[t]?.bind fun th => s.lent[i]?.map fun p =>
        { s.goto t th (p.release th.code) with lent := s.lent.eraseIdx i }

/-- Thread `0` connects `chain` to the recorder and starts it; `homes` are the other threads. -/
def start (chain : Chain P V E U) (stop_token : Bool) (m : Mem V U) (home : Option P)
    (homes : List (Option P)) : State P V E U where
  threads := ⟨home, chain.start rootScope stop_token recorder⟩ :: homes.map fun h => ⟨h, .ret⟩
  queue := []
  lent := []
  world := World.root m
  calls := []
  panics := []

/-- A chain, started on a thread that works for `home`, among threads that work for `homes`. -/
def machine [DecidableEq P] (chain : Chain P V E U) (stop_token : Bool) (m : Mem V U)
    (home : Option P) (homes : List (Option P)) : Machine (State P V E U) Label where
  init := start chain stop_token m home homes
  step := step

end Threads

end SendersReceivers
