import SendersReceivers.Pool.Invariant

/-!
# Pool/Resize — `set_thread_count`, and who holds the mutex of the pool

`Pool/Machine` starts and retires workers one by one.  Here they are started and retired by calls:
whoever has the mutex of the pool resizes it, sends a task to one worker, or one to each.  Workers,
and threads that have handles of them, go on meanwhile.

    free ──resize──▸ pop ⋯ pop  or  push ⋯ push ──ret──▸ free
      ├───start───▸ one task, on a worker that is drawn
      └─executeAll▸ a task on each

What can go wrong under the mutex is a panic, which poisons it: the history ends there.
-/

namespace SendersReceivers.Resizing

open Machinery Pool

/-! ## What is written down of a worker -/

/-- The numbers of the tasks that a worker was given: in its channel, in its own queue, the one it
runs, and those it has run.  `fromPool` are the ones that the pool has sent, and `retired` is what
these were when `set_thread_count` took it out of the pool. -/
structure Book where
  queue : List ℕ
  tasks : List ℕ
  running : Option ℕ
  ran : List ℕ
  fromPool : List ℕ
  retired : Option (List ℕ)

namespace Book

/-- A worker that was just started. -/
def new : Book := ⟨[], [], none, [], [], none⟩

/-- Task `n` goes into the channel. -/
def send (n : ℕ) (b : Book) : Book := { b with queue := b.queue ++ [n] }

/-- …and it is the pool that sends it. -/
def sendFromPool (n : ℕ) (b : Book) : Book := { b.send n with fromPool := b.fromPool ++ [n] }

/-- Task `n` goes into the worker's own queue. -/
def executeLocal (n : ℕ) (b : Book) : Book := { b with tasks := b.tasks ++ [n] }

/-- The worker takes a task out of the channel, if there is one. -/
def move (b : Book) : Book :=
  { b with queue := b.queue.tail, tasks := b.tasks ++ b.queue.head?.toList }

def begin (b : Book) : Book := { b with tasks := b.tasks.tail, running := b.tasks.head? }

def finish (b : Book) : Book := { b with running := none, ran := b.ran ++ b.running.toList }

def retire (b : Book) : Book := { b with retired := some b.fromPool }

end Book

/-! ## The pool -/

/-- Who has the mutex. -/
inductive Holder where
  /-- there is no pool yet -/
  | unborn
  /-- in `set_thread_count`, which `ThreadPoolState::new` calls when there is no mutex yet -/
  | resizing (creating : Bool) (old_size thread_count : ℕ)
  /-- in `execute_all`, before its iteration `i` -/
  | executingAll (i : ℕ)
  | free
  /-- `ThreadPool::new` has failed -/
  | failed
  deriving DecidableEq

/-- A call of `set_thread_count` that is over: how many threads the call before has left, what it
returned (`none` is an error), and how many it has left. -/
structure Resized where
  thread_count : ℕ
  before : ℕ
  returned : Option ℕ
  after : ℕ

/-- The pool, who has its mutex, and what is written down: a book for each worker, the number of
the next task, the calls of `set_thread_count`, and the workers that were joined. -/
structure State where
  pool : Pool.State
  holder : Holder
  books : List Book
  next : ℕ
  calls : List Resized
  joined : List ℕ

/-- How `Worker::start` ends: `thread::spawn` panics if there can be no thread. -/
inductive Started where
  | ok
  | ioError
  | panicked
  deriving DecidableEq

/-- What can happen next; `wakes` is whether a wake succeeds, if there is one. -/
inductive Action where
  | new (n : ℕ)
  | resize (m : ℕ)
  /-- one iteration of either loop -/
  | pop (wakes : Bool)
  | push (outcome : Started)
  | ret
  /-- an operation is started, and draws worker `k` -/
  | start (k : ℕ) (captured : List ℕ) (wakes : Bool)
  /-- `execute_all`, an iteration of it, and its end -/
  | executeAll
  | next (captured : List ℕ) (wakes : Bool)
  | allDone
  /-- any other step of the pool, of a worker or of a thread outside -/
  | pool (l : Pool.Label)

namespace State

/-- A panic under the mutex. -/
def poison (s : State) (message : String) : State :=
  { s with pool := { s.pool with poisoned := true, panics := s.pool.panics ++ [message] } }

/-- A new task is written down for worker `v`. -/
def note (s : State) (v : ℕ) (f : ℕ → Book → Book) : State :=
  { s with books := s.books.modify v (f s.next), next := s.next + 1 }

/-- What a step of the pool changes in the books. -/
def noted (s : State) : Pool.Label → State
  | .outsideExecute v _ => s.note v Book.send
  | .executeCross _ u _ => s.note u Book.send
  | .executeLocal v _ => s.note v Book.executeLocal
  | .tryRecv v => { s with books := s.books.modify v Book.move }
  | .runOneTask v => { s with books := s.books.modify v Book.begin }
  | .finish v => { s with books := s.books.modify v Book.finish }
  | .join => { s with joined := s.joined ++ s.pool.join.waitsFor }
  | _ => s

/-- A step of the pool, and what is written down of it. -/
def lift (s : State) (l : Pool.Label) : Option State :=
  (Pool.step s.pool l).map fun pool => { s.noted l with pool := pool }

/-- Nobody has the mutex. -/
def Free (s : State) : Prop := s.holder = .free ∧ s.pool.join = .idle

instance (s : State) : Decidable s.Free := inferInstanceAs (Decidable (_ ∧ _))

/-- How many threads the last call of `set_thread_count` has left. -/
def size (s : State) : ℕ := (s.calls.getLast?.map (·.after)).getD 0

/-- `set_thread_count` is over. -/
def resized (s : State) (thread_count : ℕ) (returned : Option ℕ) : State :=
  { s with calls := s.calls ++ [⟨thread_count, s.size, returned, s.pool.threads.length⟩] }

/-- Whether the pool has the last handle of worker `v`. -/
def hasLast (s : State) (v : ℕ) : Bool :=
  s.pool.workers[v]?.any fun w => w.channel.cnt_sender = 1

/-- `self.pending_joins.push(self.threads.pop().unwrap().1)`: the handle of the worker is dropped,
and if it is the last one, the worker must be woken. -/
def retire (s : State) (wakes : Bool) : Option State :=
  s.pool.threads.getLast?.bind fun v =>
    let s' := { s with books := s.books.modify v Book.retire }
    if wakes = false ∧ s.hasLast v then
      some ({ s' with
        pool := { s.pool with
          threads := s.pool.threads.dropLast
          pending_joins := s.pool.pending_joins ++ [v] }.withChannel v "" Channel.countDown }.poison
            "wakeup should succeed")
    else (Pool.step s.pool .shrink).map fun pool => { s' with pool := pool }

/-- `state.threads[k].0.schedule().connect(..).start()`, under the mutex.  Drawing `k` from no
threads panics, and so does a send that fails. -/
def dispatch (s : State) (k : ℕ) (captured : List ℕ) (wakes : Bool) : Option State :=
  if wakes = false ∧ s.pool.threads ≠ [] then
    if captured.Subperm s.pool.outside ∧ k < s.pool.threads.length then
      some (s.poison "receiver remains active")
    else none
  else
    (Pool.step s.pool (.schedule k captured)).map fun pool =>
      match s.pool.threads[k]? with
      | some v => { s.note v Book.sendFromPool with pool := pool }
      | none => { s with pool := pool }

end State

/-- One step, while the mutex is not poisoned. -/
def act (s : State) : Action → Option State
  | .new n =>
      if s.holder = .unborn then some { s with holder := .resizing true s.pool.threads.length n }
      else none
  | .resize m =>
      if s.Free then some { s with holder := .resizing false s.pool.threads.length m } else none
  | .pop wakes =>
      match s.holder with
      | .resizing _ _ m => if m < s.pool.threads.length then s.retire wakes else none
      | _ => none
  | .push outcome =>
      match s.holder with
      | .resizing creating _ m =>
          if s.pool.threads.length < m then
            match outcome with
            | .ok =>
                (Pool.step s.pool .grow).map fun pool =>
                  { s with pool := pool, books := s.books ++ [.new] }
            | .ioError =>
                some { s.resized m none with holder := if creating then .failed else .free }
            | .panicked =>
                if creating then some { s with holder := .failed }
                else some (s.poison "failed to spawn thread")
          else none
      | _ => none
  | .ret =>
      match s.holder with
      | .resizing _ old_size m =>
          if s.pool.threads.length = m then
            some { s.resized m (some old_size) with holder := .free }
          else none
      | _ => none
  | .start k captured wakes => if s.Free then s.dispatch k captured wakes else none
  | .executeAll => if s.Free then some { s with holder := .executingAll 0 } else none
  | .next captured wakes =>
      match s.holder with
      | .executingAll i =>
          if i < s.pool.threads.length then
            (s.dispatch i captured wakes).map fun s' => { s' with holder := .executingAll (i + 1) }
          else none
      | _ => none
  | .allDone =>
      match s.holder with
      | .executingAll i =>
          if s.pool.threads.length ≤ i then some { s with holder := .free } else none
      | _ => none
  | .pool .shrink | .pool .grow | .pool (.schedule _ _) => none
  | .pool .join => if s.holder = .free then s.lift .join else none
  | .pool l => s.lift l

/-- **The step function**: a history ends with the first panic under the mutex, or without a pool.
-/
def step (s : State) (a : Action) : Option State :=
  if s.pool.poisoned ∨ s.holder = .failed then none else act s a

/-- A pool, from before it is made. -/
def machine : Machine State Action where
  init := ⟨Pool.fresh, .unborn, [], 0, [], []⟩
  step := step

/-! ## What a step does -/

/-- The steps of the pool that take its mutex. -/
def Locks : Pool.Label → Prop
  | .shrink | .grow | .schedule _ _ => True
  | _ => False

/-- **What an action can do**, and where. -/
inductive Moves (s : State) : Action → State → Prop
  | new {n : ℕ} : s.holder = .unborn →
      Moves s (.new n) { s with holder := .resizing true s.pool.threads.length n }
  | resize {m : ℕ} : s.Free →
      Moves s (.resize m) { s with holder := .resizing false s.pool.threads.length m }
  | pop {creating : Bool} {old_size m v : ℕ} {wakes : Bool} {pool : Pool.State} :
      s.holder = .resizing creating old_size m → m < s.pool.threads.length →
      s.pool.threads.getLast? = some v → (wakes = true ∨ s.hasLast v = false) →
      Pool.step s.pool .shrink = some pool →
      Moves s (.pop wakes) { s with pool := pool, books := s.books.modify v Book.retire }
  | popUnheard {v : ℕ} {s' : State} : s.pool.threads.getLast? = some v → s.hasLast v = true →
      s'.pool.poisoned = true → Moves s (.pop false) s'
  | grow {creating : Bool} {old_size m : ℕ} {pool : Pool.State} :
      s.holder = .resizing creating old_size m → s.pool.threads.length < m →
      Pool.step s.pool .grow = some pool →
      Moves s (.push .ok) { s with pool := pool, books := s.books ++ [.new] }
  | ioError {creating : Bool} {old_size m : ℕ} : s.holder = .resizing creating old_size m →
      Moves s (.push .ioError)
        { s.resized m none with holder := if creating then .failed else .free }
  | spawnCreating {old_size m : ℕ} : s.holder = .resizing true old_size m →
      Moves s (.push .panicked) { s with holder := .failed }
  | spawn {old_size m : ℕ} : s.holder = .resizing false old_size m →
      Moves s (.push .panicked) (s.poison "failed to spawn thread")
  | ret {creating : Bool} {old_size m : ℕ} : s.holder = .resizing creating old_size m →
      s.pool.threads.length = m →
      Moves s .ret { s.resized m (some old_size) with holder := .free }
  | start {k v : ℕ} {captured : List ℕ} {pool : Pool.State} : s.Free →
      s.pool.threads[k]? = some v → Pool.step s.pool (.schedule k captured) = some pool →
      Moves s (.start k captured true) { s.note v Book.sendFromPool with pool := pool }
  | startEmpty {k : ℕ} {captured : List ℕ} {wakes : Bool} : s.Free → s.pool.threads = [] →
      Moves s (.start k captured wakes) (s.poison "cannot sample empty range")
  | startUnheard {k : ℕ} {captured : List ℕ} : s.Free → s.pool.threads ≠ [] →
      Moves s (.start k captured false) (s.poison "receiver remains active")
  | executeAll : s.Free → Moves s .executeAll { s with holder := .executingAll 0 }
  | next {i v : ℕ} {captured : List ℕ} {pool : Pool.State} :
      s.holder = .executingAll i → s.pool.threads[i]? = some v →
      Pool.step s.pool (.schedule i captured) = some pool →
      Moves s (.next captured true)
        { s.note v Book.sendFromPool with pool := pool, holder := .executingAll (i + 1) }
  | nextUnheard {i : ℕ} {captured : List ℕ} : s.holder = .executingAll i →
      Moves s (.next captured false)
        { s.poison "receiver remains active" with holder := .executingAll (i + 1) }
  | allDone {i : ℕ} : s.holder = .executingAll i → s.pool.threads.length ≤ i →
      Moves s .allDone { s with holder := .free }
  | join {pool : Pool.State} : s.holder = .free → Pool.step s.pool .join = some pool →
      Moves s (.pool .join) { s.noted .join with pool := pool }
  | pool {l : Pool.Label} {pool : Pool.State} : ¬Locks l → l ≠ .join →
      Pool.step s.pool l = some pool → Moves s (.pool l) { s.noted l with pool := pool }

variable {s s' : State} {a : Action}

theorem State.lift_eq {l : Pool.Label} (h : s.lift l = some s') :
    ∃ pool, Pool.step s.pool l = some pool ∧ s' = { s.noted l with pool := pool } := by
  obtain ⟨pool, hpool, rfl⟩ := Option.map_eq_some_iff.mp h
  exact ⟨pool, hpool, rfl⟩

/-- Drawing from no threads. -/
theorem State.schedule_empty {k : ℕ} {captured : List ℕ} {pool : Pool.State}
    (hempty : s.pool.threads = []) (h : Pool.step s.pool (.schedule k captured) = some pool) :
    { s with pool := pool } = s.poison "cannot sample empty range" := by
  obtain ⟨-, h⟩ := Pool.State.withPool_eq h
  rw [Pool.schedule, if_pos hempty] at h
  obtain rfl := Option.some.inj h
  rfl

/-- Drawing a thread that there is. -/
theorem State.getElem?_of_schedule {k : ℕ} {captured : List ℕ} {pool : Pool.State}
    (hne : s.pool.threads ≠ []) (h : Pool.step s.pool (.schedule k captured) = some pool) :
    ∃ v, s.pool.threads[k]? = some v := by
  obtain ⟨-, h⟩ := Pool.State.withPool_eq h
  rw [Pool.schedule, if_neg hne, Option.ite_none_right_eq_some] at h
  obtain ⟨v, hv, -⟩ := Option.map_eq_some_iff.mp h.2
  exact ⟨v, hv⟩

/-- What a dispatch can do. -/
theorem State.dispatch_eq {k : ℕ} {captured : List ℕ} {wakes : Bool}
    (h : s.dispatch k captured wakes = some s') :
    (wakes = true ∧ ∃ v pool, s.pool.threads[k]? = some v ∧
      Pool.step s.pool (.schedule k captured) = some pool ∧
      s' = { s.note v Book.sendFromPool with pool := pool }) ∨
    (s.pool.threads = [] ∧ s' = s.poison "cannot sample empty range") ∨
    (s.pool.threads ≠ [] ∧ wakes = false ∧ s' = s.poison "receiver remains active") := by
  unfold dispatch at h
  split_ifs at h with hwakes hguard
  · exact .inr (.inr ⟨hwakes.2, hwakes.1, (Option.some.inj h).symm⟩)
  · obtain ⟨pool, hpool, rfl⟩ := Option.map_eq_some_iff.mp h
    by_cases hempty : s.pool.threads = []
    · refine .inr (.inl ⟨hempty, ?_⟩)
      rw [← State.schedule_empty hempty hpool]
      simp [hempty]
    · obtain ⟨v, hv⟩ := State.getElem?_of_schedule hempty hpool
      refine .inl ⟨?_, v, pool, hv, hpool, by simp [hv]⟩
      simpa [hempty] using hwakes

/-- What an iteration of the first loop can do. -/
theorem State.retire_eq {wakes : Bool} (h : s.retire wakes = some s') :
    ∃ v, s.pool.threads.getLast? = some v ∧
      (((wakes = true ∨ s.hasLast v = false) ∧ ∃ pool, Pool.step s.pool .shrink = some pool ∧
          s' = { s with pool := pool, books := s.books.modify v Book.retire }) ∨
        wakes = false ∧ s.hasLast v = true ∧ s'.pool.poisoned = true) := by
  obtain ⟨v, hv, hlast⟩ := Option.bind_eq_some_iff.mp h
  refine ⟨v, hv, ?_⟩
  split_ifs at hlast with hwakes
  · exact .inr ⟨hwakes.1, hwakes.2, Option.some.inj hlast ▸ rfl⟩
  · obtain ⟨pool, hpool, rfl⟩ := Option.map_eq_some_iff.mp hlast
    refine .inl ⟨?_, pool, hpool, rfl⟩
    simpa [Classical.or_iff_not_imp_left] using hwakes

theorem act_moves (h : act s a = some s') : Moves s a s' := by
  cases a with
  | new n =>
      simp only [act, Option.ite_none_right_eq_some, Option.some.injEq] at h
      obtain ⟨hholder, rfl⟩ := h
      exact .new hholder
  | resize m =>
      simp only [act, Option.ite_none_right_eq_some, Option.some.injEq] at h
      obtain ⟨hfree, rfl⟩ := h
      exact .resize hfree
  | pop wakes =>
      simp only [act] at h
      split at h
      next creating old_size m hholder =>
        rw [Option.ite_none_right_eq_some] at h
        obtain ⟨v, hv, ⟨hheard, pool, hpool, rfl⟩ | ⟨rfl, hlast, hpoisoned⟩⟩ := State.retire_eq h.2
        · exact .pop hholder h.1 hv hheard hpool
        · exact .popUnheard hv hlast hpoisoned
      next => cases h
  | push outcome =>
      simp only [act] at h
      split at h
      next creating old_size m hholder =>
        rw [Option.ite_none_right_eq_some] at h
        obtain ⟨hlt, h⟩ := h
        cases outcome with
        | ok =>
            obtain ⟨pool, hpool, rfl⟩ := Option.map_eq_some_iff.mp h
            exact .grow hholder hlt hpool
        | ioError => exact Option.some.inj h ▸ .ioError hholder
        | panicked =>
            cases creating with
            | true => exact Option.some.inj h ▸ .spawnCreating hholder
            | false => exact Option.some.inj h ▸ .spawn hholder
      next => cases h
  | ret =>
      simp only [act] at h
      split at h
      next creating old_size m hholder =>
        simp only [Option.ite_none_right_eq_some, Option.some.injEq] at h
        obtain ⟨hlength, rfl⟩ := h
        exact .ret hholder hlength
      next => cases h
  | start k captured wakes =>
      simp only [act, Option.ite_none_right_eq_some] at h
      obtain ⟨hfree, h⟩ := h
      obtain ⟨rfl, v, pool, hv, hpool, rfl⟩ | ⟨hempty, rfl⟩ | ⟨hne, rfl, rfl⟩ :=
        State.dispatch_eq h
      · exact .start hfree hv hpool
      · exact .startEmpty hfree hempty
      · exact .startUnheard hfree hne
  | executeAll =>
      simp only [act, Option.ite_none_right_eq_some, Option.some.injEq] at h
      obtain ⟨hfree, rfl⟩ := h
      exact .executeAll hfree
  | next captured wakes =>
      simp only [act] at h
      split at h
      next i hholder =>
        rw [Option.ite_none_right_eq_some] at h
        obtain ⟨t, ht, rfl⟩ := Option.map_eq_some_iff.mp h.2
        obtain ⟨rfl, v, pool, hv, hpool, rfl⟩ | ⟨hempty, rfl⟩ | ⟨hne, rfl, rfl⟩ :=
          State.dispatch_eq ht
        · exact .next hholder hv hpool
        · simp [hempty] at h
        · exact .nextUnheard hholder
      next => cases h
  | allDone =>
      simp only [act] at h
      split at h
      next i hholder =>
        simp only [Option.ite_none_right_eq_some, Option.some.injEq] at h
        obtain ⟨hle, rfl⟩ := h
        exact .allDone hholder hle
      next => cases h
  | pool l =>
      cases l with
      | shrink | grow | schedule => cases h
      | join =>
          simp only [act, Option.ite_none_right_eq_some] at h
          obtain ⟨pool, hpool, rfl⟩ := State.lift_eq h.2
          exact .join h.1 hpool
      | _ =>
          obtain ⟨pool, hpool, rfl⟩ := State.lift_eq h
          exact .pool id (by simp) hpool

/-- A step is an action before anything went wrong. -/
theorem step_moves (h : step s a = some s') :
    s.pool.poisoned = false ∧ s.holder ≠ .failed ∧ Moves s a s' := by
  simp only [step, Option.ite_none_left_eq_some, not_or, Bool.not_eq_true] at h
  exact ⟨h.1.1, h.1.2, act_moves h.2⟩

end SendersReceivers.Resizing
