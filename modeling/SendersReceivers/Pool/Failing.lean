import SendersReceivers.Pool.Resize

/-!
# Pool/Failing — workers whose threads end before their time

`Worker::run` returns when no handle of the worker is left.  It also returns when `poll` fails, and
it unwinds when a task panics: then the thread is gone, but not its handles, and the pool may have
one of them.

    polling ──poll fails──▸ ended ◂──task panics── running

Its `stc_recv` and `xtc_recv` are dropped with it.  Nothing can be sent to such a worker, and
whoever tries panics: under the mutex of the pool, if it is the pool that sends.
-/

namespace SendersReceivers.Failing

open Machinery Pool

/-- The pool, and the workers that have ended.  What `base.pool` has of such a worker is what was
left of it, with its handles; that it has no receiver is said by `ended`. -/
structure State where
  base : Resizing.State
  ended : List ℕ

/-- What can happen next. -/
inductive Action where
  | act (a : Resizing.Action)
  /-- the `poll` of worker `v` returns an error, or its task panics -/
  | fail (v : ℕ)
  /-- the next task in the same-thread queue that worker `v` has left is destroyed -/
  | discard (v : ℕ)
  /-- `f.clone()` panics in `execute_all` -/
  | clonePanics (message : String)

/-- Whether a worker may end here. -/
def fails : Phase → Bool
  | .polling | .running _ => true
  | _ => false

namespace State

/-- The worker that the holder of the mutex turns to: it is sent a task, or joined. -/
def deals (s : State) : Resizing.Action → Option ℕ
  | .start k _ _ => if s.base.Free then s.base.pool.threads[k]? else none
  | .next _ _ =>
      match s.base.holder with
      | .executingAll i => s.base.pool.threads[i]?
      | _ => none
  | .pool .join => s.base.pool.join.waitsFor.head?
  | _ => none

/-- An action that meets no worker that has ended. -/
def lift (s : State) (a : Resizing.Action) : Option State :=
  (Resizing.act s.base a).map fun base => { s with base := base }

/-- What the holder of the mutex does where the worker has ended: a send fails, as it does without a
wake, and `h.join().unwrap()` panics. -/
def meet (s : State) : Resizing.Action → Option State
  | .start k captured _ => s.lift (.start k captured false)
  | .next captured _ => s.lift (.next captured false)
  | .pool .join =>
      if s.base.holder = .free then
        some { s with
          base := s.base.poison "called `Result::unwrap()` on an `Err` value: Any \x7b .. \x7d" }
      else none
  | _ => none

/-- A send that fails, not under the mutex: the caller panics. -/
def refused (s : State) : State :=
  { s with base := { s.base with
    pool := { s.base.pool with panics := s.base.pool.panics ++ ["receiver remains active"] } } }

/-- Worker `v` ends.  What the function owned that it ran is in other hands. -/
def fail (s : State) (v : ℕ) : Option State :=
  s.base.pool.workers[v]?.bind fun w =>
    if fails w.phase ∧ v ∉ s.ended then
      some { s with
        base := { s.base with
          pool := { s.base.pool.put v { w with phase := .polling } with
            outside := s.base.pool.outside ++ w.phase.frame.map Handle.worker } }
        ended := s.ended ++ [v] }
    else none

/-- The same-thread channel of worker `v` goes, with what is queued in it, unless a task in it has a
`ThreadLocalPool`. -/
def discard (s : State) (v : ℕ) : Option State :=
  if v ∈ s.ended then
    (s.base.pool.withWorker v .polling fun w =>
      match w.tasks with
      | task :: tasks =>
          if ∀ t ∈ w.tasks, tlp v ∉ t.captured then
            some ({ s.base.pool.put v { w with tasks := tasks } with
              outside := s.base.pool.outside ++ task.captured.map Handle.worker }.dropSender v)
          else none
      | [] => none).map fun pool => { s with base := { s.base with pool := pool } }
  else none

/-- An action of the pool, of a worker or of a thread outside. -/
def act (s : State) (a : Resizing.Action) : Option State :=
  if (s.deals a).any (· ∈ s.ended) then s.meet a
  else
    match a with
    | .pool (.poll v) => if v ∈ s.ended then none else s.lift a
    | .pool (.outsideExecute v captured) =>
        if v ∈ s.ended then
          (Pool.step s.base.pool (.outsideExecute v captured)).map fun _ => s.refused
        else s.lift a
    | .pool (.executeCross v u captured) =>
        -- it is the task of worker `v` that panics
        if u ∈ s.ended then
          (Pool.step s.base.pool (.executeCross v u captured)).bind fun _ => s.refused.fail v
        else s.lift a
    | _ => s.lift a

end State

/-- **The step function**: as before, a history ends with the first panic under the mutex. -/
def step (s : State) (a : Action) : Option State :=
  if s.base.pool.poisoned ∨ s.base.holder = .failed then none
  else
    match a with
    | .act a => s.act a
    | .fail v => s.fail v
    | .discard v => s.discard v
    | .clonePanics message =>
        match s.base.holder with
        | .executingAll i =>
            if i < s.base.pool.threads.length then
              some { s with base := s.base.poison message }
            else none
        | _ => none

/-- A pool, from before it is made. -/
def machine : Machine State Action where
  init := ⟨Resizing.machine.init, []⟩
  step := step

/-! ## What a step does -/

/-- What the end of a worker leaves. -/
structure Fails (s : State) (v : ℕ) (w : Worker) (s' : State) : Prop where
  worker : s.base.pool.workers[v]? = some w
  phase : fails w.phase = true
  pool : s'.base.pool = { s.base.pool.put v { w with phase := .polling } with
    outside := s.base.pool.outside ++ w.phase.frame.map Handle.worker
    panics := s'.base.pool.panics }
  holder : s'.base.holder = s.base.holder
  ended : s'.ended = s.ended ++ [v]

/-- **What an action can do.** -/
inductive Moves (s : State) : Action → State → Prop
  | lift {a : Resizing.Action} {base : Resizing.State} :
      (∀ v ∈ s.deals a, v ∉ s.ended) → Resizing.step s.base a = some base →
      Moves s (.act a) { s with base := base }
  | meet {a : Resizing.Action} {v : ℕ} {s' : State} : v ∈ s.deals a → v ∈ s.ended →
      s'.base.pool.poisoned = true → Moves s (.act a) s'
  | refused {v : ℕ} {captured : List ℕ} :
      Moves s (.act (.pool (.outsideExecute v captured))) s.refused
  | unwinds {v u : ℕ} {captured : List ℕ} {w : Worker} {s' : State} : Fails s v w s' →
      Moves s (.act (.pool (.executeCross v u captured))) s'
  | fail {v : ℕ} {w : Worker} {s' : State} : Fails s v w s' → Moves s (.fail v) s'
  | discard {v : ℕ} {w : Worker} {task : Task} {tasks : List Task} :
      s.base.pool.workers[v]? = some w → w.phase = .polling → w.tasks = task :: tasks →
      Moves s (.discard v) { s with base := { s.base with
        pool := { s.base.pool.put v { w with tasks := tasks } with
          outside := s.base.pool.outside ++ task.captured.map Handle.worker }.dropSender v } }
  | clonePanics {message : String} :
      Moves s (.clonePanics message) { s with base := s.base.poison message }

variable {s s' : State} {a : Action}

theorem State.fail_eq {v : ℕ} (h : s.fail v = some s') : ∃ w, Fails s v w s' := by
  obtain ⟨w, hw, h⟩ := Option.bind_eq_some_iff.mp h
  obtain ⟨hguard, heq⟩ := Option.ite_none_right_eq_some.mp h
  obtain rfl := Option.some.inj heq
  exact ⟨w, hw, hguard.1, rfl, rfl, rfl⟩

theorem State.meet_poisons {a : Resizing.Action} (h : s.meet a = some s') :
    s'.base.pool.poisoned = true := by
  unfold meet at h
  split at h
  next =>
    obtain ⟨base, hbase, rfl⟩ := Option.map_eq_some_iff.mp h
    cases Resizing.act_moves hbase with
    | startEmpty | startUnheard => rfl
  next =>
    obtain ⟨base, hbase, rfl⟩ := Option.map_eq_some_iff.mp h
    cases Resizing.act_moves hbase with
    | nextUnheard => rfl
  next =>
    obtain ⟨-, heq⟩ := Option.ite_none_right_eq_some.mp h
    exact Option.some.inj heq ▸ rfl
  next => cases h

section Act

variable {a : Resizing.Action}

theorem State.lift_eq (hok : ¬(s.base.pool.poisoned = true ∨ s.base.holder = .failed))
    (h : s.lift a = some s') :
    ∃ base, Resizing.step s.base a = some base ∧ s' = { s with base := base } := by
  obtain ⟨base, hbase, rfl⟩ := Option.map_eq_some_iff.mp h
  exact ⟨base, (if_neg hok).trans hbase, rfl⟩

theorem State.act_moves (hok : ¬(s.base.pool.poisoned = true ∨ s.base.holder = .failed))
    (h : s.act a = some s') : Moves s (.act a) s' := by
  unfold act at h
  split_ifs at h with hdeals
  · obtain ⟨v, hv, hended⟩ := (Option.any_eq_true _ _).mp hdeals
    exact .meet hv (by simpa using hended) (State.meet_poisons h)
  · replace hdeals : ∀ v ∈ s.deals a, v ∉ s.ended := fun v hv hended =>
      hdeals ((Option.any_eq_true _ _).mpr ⟨v, hv, by simpa using hended⟩)
    split at h
    next v =>
      obtain ⟨-, h⟩ := Option.ite_none_left_eq_some.mp h
      obtain ⟨base, hbase, rfl⟩ := State.lift_eq hok h
      exact .lift hdeals hbase
    next v captured =>
      split_ifs at h with hended
      · obtain ⟨-, -, rfl⟩ := Option.map_eq_some_iff.mp h
        exact .refused
      · obtain ⟨base, hbase, rfl⟩ := State.lift_eq hok h
        exact .lift hdeals hbase
    next v u captured =>
      split_ifs at h with hended
      · obtain ⟨-, -, h⟩ := Option.bind_eq_some_iff.mp h
        obtain ⟨w, hw⟩ := State.fail_eq h
        exact .unwinds ⟨hw.worker, hw.phase, hw.pool, hw.holder, hw.ended⟩
      · obtain ⟨base, hbase, rfl⟩ := State.lift_eq hok h
        exact .lift hdeals hbase
    next =>
      obtain ⟨base, hbase, rfl⟩ := State.lift_eq hok h
      exact .lift hdeals hbase

end Act

theorem step_moves (h : step s a = some s') : Moves s a s' := by
  obtain ⟨hok, h⟩ := Option.ite_none_left_eq_some.mp h
  cases a with
  | act a => exact State.act_moves hok h
  | fail v =>
      obtain ⟨w, hw⟩ := State.fail_eq h
      exact .fail hw
  | discard v =>
      obtain ⟨-, h⟩ := Option.ite_none_right_eq_some.mp h
      obtain ⟨pool, hpool, rfl⟩ := Option.map_eq_some_iff.mp h
      obtain ⟨w, hw, hphase, hpool⟩ := Pool.State.withWorker_eq hpool
      rcases htasks : w.tasks with _ | ⟨task, tasks⟩
      · simp [htasks] at hpool
      · simp only [htasks, Option.ite_none_right_eq_some, Option.some.injEq] at hpool
        obtain ⟨-, rfl⟩ := hpool
        exact .discard hw hphase htasks
  | clonePanics message =>
      simp only at h
      split at h
      next =>
        obtain ⟨-, heq⟩ := Option.ite_none_right_eq_some.mp h
        exact Option.some.inj heq ▸ .clonePanics
      next => cases h

end SendersReceivers.Failing
