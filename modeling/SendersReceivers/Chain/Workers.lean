import SendersReceivers.Chain.Completion
import SendersReceivers.Pool.Channel

/-!
# Chain/Workers — a chain on the workers of its pools

Each worker of a pool has a channel of its own and a queue of its own, and runs `Worker::run`.  A
task goes to a worker that is drawn from its pool, or stays on the worker that schedules it on the
scheduler it is on.

    thread ──push──▸ channel ──try_recv──▸ tasks ──run_one_task──▸ running
               │                             ▴                        │
             waker ──poll──▸ draining        └──ThreadLocalPool───────┘

The pool keeps a handle of each of its workers, so no channel is ever without a sender; of the
senders only those handles are counted here.  Thread `0` has started the chain, and worker `w` is
thread `w + 1`. -/

namespace SendersReceivers.Workers

open Machinery Threads
open Pool (Channel)

variable {P V E U : Type}

/-- Where a worker is in `Worker::run`. -/
inductive Phase where
  /-- about to poll, or blocked there -/
  | polling
  /-- in `poll_move_send_tasks_to_tasks` -/
  | draining
  /-- about to call `run_one_task` -/
  | ready
  /-- inside of the function of a task -/
  | running
  | exited
  deriving DecidableEq

/-- A worker of `pool`; `tasks` is the queue of its same-thread channel. -/
structure Worker (P V E U : Type) where
  pool : P
  channel : Channel (Prog P V E U)
  tasks : List (Prog P V E U)
  phase : Phase

/-- The threads with all that they share, and the workers among them. -/
structure State (P V E U : Type) where
  chain : Threads.State P V E U
  workers : List (Worker P V E U)

/-- Where a task goes that is scheduled. -/
inductive Target where
  /-- to worker `w`, which `gen_range` has drawn -/
  | drawn (w : ℕ)
  /-- to the worker that schedules it -/
  | here
  deriving DecidableEq

/-- What can happen next. -/
inductive Label where
  /-- thread `t` goes on; a task it schedules goes to `target` -/
  | exec (t : ℕ) (target : Target)
  /-- user code on thread `t` drops the `i`-th reference -/
  | dropRef (t i : ℕ)
  | poll (w : ℕ)
  | tryRecv (w : ℕ)
  | runOneTask (w : ℕ)
  /-- the function of the task has returned -/
  | finish (w : ℕ)
  deriving DecidableEq

/-! ## The functions of the source -/

namespace State

/-- Worker `w` becomes `wk`. -/
def put (s : State P V E U) (w : ℕ) (wk : Worker P V E U) : State P V E U :=
  { s with workers := s.workers.set w wk }

/-- Thread `t` panics. -/
def panic (s : State P V E U) (t : ℕ) (th : Thread P V E U) (message : String) : State P V E U :=
  { s with chain := s.chain.panic t th message }

/-- Whether thread `t` is in code of its own, rather than in the loop of a worker. -/
def busy (s : State P V E U) : ℕ → Bool
  | 0 => true
  | w + 1 => s.workers[w]?.any fun wk => wk.phase = .running

end State

/-- `ThreadPoolOperationState::start`, and `CrossThreadPool::execute` for the worker that was drawn;
or `ThreadLocalPool::execute`. -/
def spawn [DecidableEq P] (s : State P V E U) (t : ℕ) (th : Thread P V E U) (p : P)
    (task k : Prog P V E U) : Target → Option (State P V E U)
  | .drawn w =>
      if s.workers.all fun wk => wk.pool ≠ p then
        some (s.panic t th "cannot sample empty range")
      else
        s.workers[w]?.bind fun wk =>
          if wk.pool = p then
            match wk.channel.push task with
            | .ok channel =>
                some ({ s with chain := s.chain.goto t th k }.put w { wk with channel := channel })
            | .error _ => some (s.panic t th "receiver remains active")
          else none
  | .here =>
      match t with
      | 0 => none
      | w + 1 =>
          s.workers[w]?.bind fun wk =>
            if wk.pool = p then
              some ({ s with chain := s.chain.goto t th k }.put w
                { wk with tasks := wk.tasks ++ [task] })
            else none

/-- The next effect of thread `t`. -/
def exec [DecidableEq P] (s : State P V E U) (t : ℕ) (th : Thread P V E U) (target : Target) :
    Option (State P V E U) :=
  match th.code with
  | .spawn p task k => spawn s t th p task k target
  | _ => (Threads.exec s.chain t th).map fun chain => { s with chain := chain }

/-- `Worker::poll` up to the loop over the events: without a wake-up it blocks, unless there are
tasks. -/
def poll (s : State P V E U) (w : ℕ) (wk : Worker P V E U) : Option (State P V E U) :=
  if wk.channel.waker then
    some (s.put w { wk with channel := { wk.channel with waker := false }, phase := .draining })
  else if wk.tasks.isEmpty then none
  else some (s.put w { wk with phase := .ready })

/-- One iteration of `poll_move_send_tasks_to_tasks`, and what `run` makes of its result. -/
def tryRecv (s : State P V E U) (w : ℕ) (wk : Worker P V E U) : State P V E U :=
  match wk.channel.tryPop with
  | .ok (task, channel) => s.put w { wk with channel := channel, tasks := wk.tasks ++ [task] }
  | .error error =>
      if wk.tasks.isEmpty then
        match error with
        | .empty => s.put w { wk with phase := .polling }
        | .disconnected =>
            s.put w { wk with channel := wk.channel.dropReceiver, phase := .exited }
      else s.put w { wk with phase := .ready }

/-- `Worker::run_one_task`, and the beginning of `Task::invoke`. -/
def runOneTask (s : State P V E U) (w : ℕ) (th : Thread P V E U) (wk : Worker P V E U) :
    State P V E U :=
  match wk.tasks with
  | task :: tasks =>
      { s with chain := s.chain.goto (w + 1) th task }.put w
        { wk with tasks := tasks, phase := .running }
  | [] => s.panic (w + 1) th "assertion failed: did_run_a_task"

/-- What happens to worker `w`, and to its thread, if it is in such a phase. -/
def State.withWorker (s : State P V E U) (w : ℕ) (phase : Phase)
    (f : Thread P V E U → Worker P V E U → Option (State P V E U)) : Option (State P V E U) :=
  s.workers[w]?.bind fun wk =>
    s.chain.threads[w + 1]?.bind fun th => if wk.phase = phase then f th wk else none

/-- The function that worker `w` runs returns. -/
def finish (s : State P V E U) (w : ℕ) (th : Thread P V E U) (wk : Worker P V E U) :
    Option (State P V E U) :=
  if isRet th.code then some (s.put w { wk with phase := .polling }) else none

/-- **The step function.** -/
def step [DecidableEq P] (s : State P V E U) : Label → Option (State P V E U)
  | .exec t target =>
      if s.busy t then s.chain.threads[t]?.bind fun th => exec s t th target else none
  | .dropRef t i =>
      if s.busy t then
        (Threads.step s.chain (.dropRef t i)).map fun chain => { s with chain := chain }
      else none
  | .poll w => s.withWorker w .polling fun _ wk => poll s w wk
  | .tryRecv w => s.withWorker w .draining fun _ wk => some (tryRecv s w wk)
  | .runOneTask w => s.withWorker w .ready fun th wk => some (runOneTask s w th wk)
  | .finish w => s.withWorker w .running fun th wk => finish s w th wk

/-- A worker of `pool` at the beginning. -/
def Worker.start (pool : P) : Worker P V E U := ⟨pool, .new, [], .polling⟩

/-- A chain, started on a thread of its own, with one worker for each of `pools`. -/
def machine [DecidableEq P] (c : Chain P V E U) (stop_token : Bool) (m : Mem V U) (pools : List P) :
    Machine (State P V E U) Label where
  init := ⟨Threads.start c stop_token m none (pools.map some), pools.map Worker.start⟩
  step := step

/-! ## The tasks that wait, and the steps that the loops still take -/

/-- The tasks of worker `wk`. -/
def Worker.pending (wk : Worker P V E U) : Multiset (P × Prog P V E U) :=
  ((wk.tasks ++ wk.channel.queue).map fun task => (wk.pool, task) : List (P × Prog P V E U))

/-- How far a phase is from the next poll, or further on. -/
def Phase.rank : Phase → ℕ
  | .running => 5
  | .draining => 4
  | .polling => 3
  | .ready => 2
  | .exited => 0

/-- What worker `wk` has left to do besides running its tasks. -/
def Worker.load (wk : Worker P V E U) : ℕ :=
  6 * wk.channel.waker.toNat + 4 * wk.channel.queue.length + 3 * wk.tasks.length + wk.phase.rank

namespace State

variable (s : State P V E U)

def pending : Multiset (P × Prog P V E U) := (s.workers.map Worker.pending).sum

def load : ℕ := weight Worker.load s.workers

end State

theorem mem_pending {s : State P V E U} {wk : Worker P V E U} {task : P × Prog P V E U}
    (hwk : wk ∈ s.workers) (htask : task ∈ wk.pending) : task ∈ s.pending := by
  obtain ⟨workers, workers', heq⟩ := List.append_of_mem hwk
  rw [State.pending, heq]
  simp [htask]

/-- **The threads of `Chain/Threads` do the same**: there, all the tasks wait in one queue. -/
def Sim (s : State P V E U) (a : Threads.State P V E U) : Prop :=
  ∃ queue : List (P × Prog P V E U), a = { s.chain with queue := queue } ∧ ↑queue = s.pending

/-- What holds of a worker by itself: **a message that waits has woken it up**. -/
structure Worker.Fit (wk : Worker P V E U) : Prop where
  ready : wk.phase = .ready → wk.tasks ≠ []
  sender : wk.channel.cnt_sender ≠ 0
  receiver : wk.channel.has_receiver = true
  alive : wk.phase ≠ .exited
  woken : wk.channel.queue ≠ [] → wk.channel.waker = true ∨ wk.phase = .draining

/-- **The invariant**: outside of a task, the thread of a worker has no code of its own. -/
structure Inv (pools : List P) (s : State P V E U) : Prop where
  workers : s.workers.map Worker.pool = pools
  homes : s.chain.threads.map Thread.home = none :: pools.map some
  queue : s.chain.queue = []
  rests : ∀ w wk th, s.workers[w]? = some wk → s.chain.threads[w + 1]? = some th →
    wk.phase ≠ .running → th.code = .ret
  fit : ∀ wk ∈ s.workers, wk.Fit

section Steps

/-- Worker `w` has been in that phase, and has a thread. -/
theorem withWorker_eq_some {s s' : State P V E U} {w : ℕ} {phase : Phase}
    {f : Thread P V E U → Worker P V E U → Option (State P V E U)}
    (hs : s.withWorker w phase f = some s') :
    ∃ wk th, s.workers[w]? = some wk ∧ s.chain.threads[w + 1]? = some th ∧ wk.phase = phase ∧
      f th wk = some s' := by
  obtain ⟨wk, hw, hs⟩ := Option.bind_eq_some_iff.mp hs
  obtain ⟨th, ht, hs⟩ := Option.bind_eq_some_iff.mp hs
  split_ifs at hs with hphase
  exact ⟨wk, th, hw, ht, hphase, hs⟩

variable {pools : List P} {s s' : State P V E U} {a : Threads.State P V E U} {w t : ℕ}
    {wk wk' : Worker P V E U}
  {th : Thread P V E U}

/-- Worker `w` goes on in its loop. -/
theorem Inv.put (h : Inv pools s) (hw : s.workers[w]? = some wk) (hpool : wk'.pool = wk.pool)
    (hfit : wk'.Fit) (hrests : wk'.phase ≠ .running → ∀ th, s.chain.threads[w + 1]? = some th →
      th.code = .ret) : Inv pools (s.put w wk') where
  workers := by
    rw [State.put, List.map_set, ← h.workers]
    refine List.ext_getElem (by simp) fun i _ _ => ?_
    simp only [List.getElem_set, List.getElem_map]
    split
    next heq =>
      subst heq
      rw [hpool, (List.getElem?_eq_some_iff.mp hw).2]
    next => rfl
  homes := h.homes
  queue := h.queue
  rests := by
    intro w' wk'' th hw' hth hphase
    obtain ⟨hlt, rfl⟩ := List.getElem?_eq_some_iff.mp hw
    rw [State.put, List.getElem?_set] at hw'
    split at hw'
    next heq =>
      subst heq
      cases hw'
      exact hrests hphase th hth
    next => exact h.rests w' wk'' th hw' hth hphase
  fit := by
    intro wk'' hwk''
    obtain hmem | rfl := List.mem_or_eq_of_mem_set hwk''
    · exact h.fit wk'' hmem
    · exact hfit

/-- Thread `t` goes on with its own code. -/
theorem Inv.withChain (h : Inv pools s) (hbusy : s.busy t) (ht : s.chain.threads[t]? = some th)
    {chain : Threads.State P V E U} {code : Prog P V E U}
    (hthreads : chain.threads = s.chain.threads.set t { th with code := code })
    (hqueue : chain.queue = []) : Inv pools { s with chain := chain } where
  workers := h.workers
  homes := by rw [hthreads, map_home_set code ht, h.homes]
  queue := hqueue
  rests := by
    intro w wk th' hw hth' hphase
    refine h.rests w wk th' hw ?_ hphase
    have hne : t ≠ w + 1 := by
      rintro rfl
      simp [State.busy, hw, hphase] at hbusy
    rwa [hthreads, List.getElem?_set_ne hne] at hth'
  fit := h.fit

theorem Sim.put (h : Sim s a) (hw : s.workers[w]? = some wk) (hpending : wk'.pending = wk.pending) :
    Sim (s.put w wk') a := by
  obtain ⟨queue, rfl, hqueue⟩ := h
  refine ⟨queue, rfl, hqueue.trans ?_⟩
  have hset := sum_map_set Worker.pending hw wk'
  rw [hpending] at hset
  exact (add_right_cancel hset).symm

theorem load_put (hw : s.workers[w]? = some wk) (wk' : Worker P V E U) :
    (s.put w wk').load + wk.load = s.load + wk'.load := weight_set Worker.load hw wk'

/-- No effect but a `spawn` is about the tasks that wait. -/
theorem exec_withQueue {c : Threads.State P V E U} (queue : List (P × Prog P V E U))
    (hcode : ∀ p task k, th.code ≠ .spawn p task k) :
    Threads.exec { c with queue := queue } t th =
      (Threads.exec c t th).map fun c' => { c' with queue := queue } := by
  unfold Threads.exec
  cases hth : th.code with
  | spawn p task k => exact absurd hth (hcode p task k)
  | ret | call | enter | lazily | emit | newScope | clone | lend => rfl
  | store i sig k | release i drop k =>
      dsimp only
      split <;> rfl
  | reclaim i drop k =>
      dsimp only
      split <;> rfl

theorem exec_queue {c c' : Threads.State P V E U} (hcode : ∀ p task k, th.code ≠ .spawn p task k)
    (hs : Threads.exec c t th = some c') : c'.queue = c.queue := by
  have hsame := exec_withQueue (t := t) (c := c) c.queue hcode
  rw [hs, Option.map_some] at hsame
  have hqueue : c' = { c' with queue := c.queue } := Option.some.inj hsame
  rw [hqueue]

/-- What a step does: nothing that can be seen in `Chain/Threads`, with less left to do in the
loops, or a step there. -/
def Matched [DecidableEq P] (s s' : State P V E U) (a : Threads.State P V E U) : Prop :=
  Sim s' a ∧ s'.load < s.load ∨
    ∃ l a', Threads.step a l = some a' ∧ Sim s' a' ∧ s'.load ≤ s.load + 10

/-- A task comes to worker `w`. -/
theorem Sim.spawn [DecidableEq P] (h : Sim s a) (ht : s.chain.threads[t]? = some th) {p : P}
    {task k : Prog P V E U} (hcode : th.code = .spawn p task k) (hw : s.workers[w]? = some wk)
    (hpending : wk'.pending = wk.pending + {(p, task)}) (hload : wk'.load ≤ wk.load + 10) :
    Matched s ({ s with chain := s.chain.goto t th k }.put w wk') a := by
  obtain ⟨queue, rfl, hqueue⟩ := h
  have hstep : Threads.step { s.chain with queue := queue } (.exec t) =
      some { s.chain.goto t th k with queue := queue ++ [(p, task)] } := by
    simp only [Threads.step, ht, Option.bind_some, Threads.exec, hcode]
    rfl
  refine .inr ⟨_, _, hstep, ⟨queue ++ [(p, task)], rfl, ?_⟩, ?_⟩
  · have hset := sum_map_set Worker.pending hw wk'
    rw [hpending, ← add_assoc, add_right_comm] at hset
    rw [← Multiset.coe_add, hqueue, Multiset.coe_singleton]
    exact (add_right_cancel hset).symm
  · have hset := load_put hw wk'
    change (s.put w wk').load ≤ s.load + 10
    omega

/-- The channel of a worker of the pool takes what is sent. -/
theorem Worker.Fit.push (h : wk.Fit) (task : Prog P V E U) : wk.channel.push task =
    .ok { wk.channel.wake with queue := wk.channel.queue ++ [task] } := by
  simp [Channel.push, h.sender, h.receiver]

theorem Inv.spawn [DecidableEq P] (h : Inv pools s) (hsim : Sim s a) (hbusy : s.busy t)
    (ht : s.chain.threads[t]? = some th) {p : P} {task k : Prog P V E U}
    (hcode : th.code = .spawn p task k) (hp : p ∈ pools) {target : Target}
    (hs : Workers.spawn s t th p task k target = some s') : Inv pools s' ∧ Matched s s' a := by
  have hgoto : Inv pools { s with chain := s.chain.goto t th k } :=
    h.withChain hbusy ht rfl h.queue
  cases target with
  | drawn w =>
      obtain ⟨wk, hwk, rfl⟩ := List.mem_map.mp (h.workers ▸ hp)
      rw [Workers.spawn, if_neg (by simpa using ⟨wk, hwk, rfl⟩)] at hs
      obtain ⟨wk', hw, hs⟩ := Option.bind_eq_some_iff.mp hs
      split_ifs at hs with hp
      have hfit := h.fit wk' (List.mem_of_getElem? hw)
      rw [hfit.push task] at hs
      cases hs
      refine ⟨hgoto.put hw rfl { hfit with woken := fun _ => .inl rfl } fun hphase th' hth' =>
        hgoto.rests w wk' th' hw hth' hphase, hsim.spawn ht hcode hw ?_ ?_⟩
      · simp [Worker.pending, hp, ← Multiset.coe_add, add_assoc]
      · cases hwaker : wk'.channel.waker <;> simp [Worker.load, Channel.wake, hwaker] <;> omega
  | here =>
      cases t with
      | zero => cases hs
      | succ w =>
          obtain ⟨wk', hw, hs⟩ := Option.bind_eq_some_iff.mp hs
          split_ifs at hs with hp
          have hfit := h.fit wk' (List.mem_of_getElem? hw)
          cases hs
          refine ⟨hgoto.put hw rfl { hfit with ready := by simp } fun hphase th' hth' =>
            hgoto.rests w wk' th' hw hth' hphase, hsim.spawn ht hcode hw ?_ ?_⟩
          · simp only [Worker.pending, hp, List.map_append, ← Multiset.coe_add, List.map_cons,
              List.map_nil, Multiset.coe_singleton]
            exact add_right_comm _ _ _
          · simp [Worker.load]
            omega

/-- **A step of a thread in code of its own.** -/
theorem Inv.exec [DecidableEq P] (h : Inv pools s) (hsim : Sim s a) (hbusy : s.busy t)
    (ht : s.chain.threads[t]? = some th) (hpools : ∀ p, p ∈ pools)
    {target : Target} (hs : Workers.exec s t th target = some s') :
    Inv pools s' ∧ Matched s s' a := by
  by_cases hspawn : ∃ p task k, th.code = .spawn p task k
  · obtain ⟨p, task, k, hcode⟩ := hspawn
    simp only [Workers.exec, hcode] at hs
    exact h.spawn hsim hbusy ht hcode (hpools p) hs
  · have hcode : ∀ p task k, th.code ≠ .spawn p task k := fun p task k heq =>
      hspawn ⟨p, task, k, heq⟩
    have hexec : (Threads.exec s.chain t th).map (fun chain => { s with chain := chain }) =
        some s' := by
      rw [← hs, Workers.exec]
      split
      next p task k heq => exact absurd heq (hcode p task k)
      next => rfl
    obtain ⟨chain, hchain, rfl⟩ := Option.map_eq_some_iff.mp hexec
    obtain ⟨code, hthreads⟩ := exec_threads hchain
    refine ⟨h.withChain hbusy ht hthreads ((exec_queue hcode hchain).trans h.queue), .inr ?_⟩
    obtain ⟨queue, rfl, hqueue⟩ := hsim
    refine ⟨.exec t, { chain with queue := queue }, ?_, ⟨queue, rfl, hqueue⟩, Nat.le_add_right _ _⟩
    rw [Threads.step, ht, Option.bind_some, exec_withQueue queue hcode, hchain]
    rfl

/-- **A step of the loop of a worker.** -/
theorem Inv.loop [DecidableEq P] (h : Inv pools s) (hsim : Sim s a) (hw : s.workers[w]? = some wk)
    (hpool : wk'.pool = wk.pool) (hpending : wk'.pending = wk.pending) (hload : wk'.load < wk.load)
    (hfit : wk'.Fit) (hphase : wk.phase ≠ .running ∨ ∀ th, s.chain.threads[w + 1]? = some th →
      th.code = .ret) : Inv pools (s.put w wk') ∧ Matched s (s.put w wk') a := by
  refine ⟨h.put hw hpool hfit fun _ th hth => ?_, .inl ⟨hsim.put hw hpending, ?_⟩⟩
  · exact hphase.elim (h.rests w wk th hw hth) fun hret => hret th hth
  · have := load_put hw wk'
    omega

theorem Inv.poll [DecidableEq P] (h : Inv pools s) (hsim : Sim s a) (hw : s.workers[w]? = some wk)
    (hphase : wk.phase = .polling) (hs : Workers.poll s w wk = some s') :
    Inv pools s' ∧ Matched s s' a := by
  have hfit := h.fit wk (List.mem_of_getElem? hw)
  unfold Workers.poll at hs
  split_ifs at hs with hwaker htasks
  · cases hs
    refine h.loop hsim hw rfl rfl ?_ { hfit with
      ready := nofun
      alive := nofun
      woken := fun _ => .inr rfl } (.inl (by simp [hphase]))
    simp [Worker.load, hwaker, hphase, Phase.rank]
    omega
  · cases hs
    refine h.loop hsim hw rfl rfl ?_ { hfit with
      ready := fun _ => by simpa using htasks
      alive := nofun
      woken := fun hqueue => ?_ } (.inl (by simp [hphase]))
    · simp [Worker.load, hphase, Phase.rank]
    · simpa [hphase, hwaker] using hfit.woken hqueue

theorem Inv.tryRecv [DecidableEq P] (h : Inv pools s) (hsim : Sim s a)
    (hw : s.workers[w]? = some wk)
    (hphase : wk.phase = .draining) :
    Inv pools (Workers.tryRecv s w wk) ∧ Matched s (Workers.tryRecv s w wk) a := by
  have hfit := h.fit wk (List.mem_of_getElem? hw)
  unfold Workers.tryRecv Channel.tryPop
  cases hqueue : wk.channel.queue with
  | cons task queue =>
      refine h.loop hsim hw rfl ?_ ?_ { hfit with
        ready := by simp
        woken := fun _ => .inr hphase } (.inl (by simp [hphase]))
      · simp [Worker.pending, hqueue]
      · simp [Worker.load, hqueue]
        omega
  | nil =>
      simp only [hfit.sender, if_false]
      split_ifs with htasks
      · refine h.loop hsim hw rfl rfl ?_ { hfit with
          ready := nofun
          alive := nofun
          woken := by simp [hqueue] } (.inl (by simp [hphase]))
        simp [Worker.load, hphase, Phase.rank]
      · refine h.loop hsim hw rfl rfl ?_ { hfit with
          ready := fun _ => by simpa using htasks
          alive := nofun
          woken := by simp [hqueue] } (.inl (by simp [hphase]))
        simp [Worker.load, hphase, Phase.rank]

/-- The thread of a worker works for its pool. -/
theorem Inv.home (h : Inv pools s) (hw : s.workers[w]? = some wk)
    (ht : s.chain.threads[w + 1]? = some th) : th.home = some wk.pool := by
  have hget := congrArg (fun homes => homes[w + 1]?) h.homes
  rw [← h.workers] at hget
  simpa [ht, hw] using hget

/-- **A worker runs one of its tasks.** -/
theorem Inv.runOneTask [DecidableEq P] (h : Inv pools s) (hsim : Sim s a)
    (hw : s.workers[w]? = some wk)
    (ht : s.chain.threads[w + 1]? = some th) (hphase : wk.phase = .ready) :
    Inv pools (Workers.runOneTask s w th wk) ∧ Matched s (Workers.runOneTask s w th wk) a := by
  have hfit := h.fit wk (List.mem_of_getElem? hw)
  obtain ⟨task, tasks, htasks⟩ := List.exists_cons_of_ne_nil (hfit.ready hphase)
  simp only [Workers.runOneTask, htasks]
  have hrunning : Inv pools (s.put w { wk with tasks := tasks, phase := .running }) :=
    h.put hw rfl { hfit with
      ready := nofun
      alive := nofun
      woken := fun hqueue => by simpa [hphase] using hfit.woken hqueue } (absurd rfl)
  have hbusy : (s.put w { wk with tasks := tasks, phase := .running }).busy (w + 1) := by
    obtain ⟨hlt, -⟩ := List.getElem?_eq_some_iff.mp hw
    simp [State.busy, State.put, hlt]
  refine ⟨hrunning.withChain hbusy ht rfl h.queue, .inr ?_⟩
  obtain ⟨queue, rfl, hqueue⟩ := hsim
  have hset := sum_map_set Worker.pending hw { wk with tasks := tasks, phase := .running }
  have hpending : wk.pending =
      (wk.pool, task) ::ₘ
        ({ wk with tasks := tasks, phase := .running } : Worker P V E U).pending := by
    simp [Worker.pending, htasks]
  have hmem : (wk.pool, task) ∈ (queue : Multiset (P × Prog P V E U)) := by
    rw [hqueue]
    exact mem_pending (List.mem_of_getElem? hw) (hpending ▸ Multiset.mem_cons_self _ _)
  obtain ⟨i, hi⟩ := List.mem_iff_getElem?.mp (Multiset.mem_coe.mp hmem)
  refine ⟨.take (w + 1) i, { s.chain.goto (w + 1) th task with queue := queue.eraseIdx i }, ?_,
    ⟨queue.eraseIdx i, rfl, ?_⟩, ?_⟩
  · have hcode := h.rests w wk th hw ht (by simp [hphase])
    simp only [Threads.step, ht, hi, Option.bind_some, Threads.take, hcode, h.home hw ht, if_pos]
    rfl
  · obtain ⟨hlt, hget⟩ := List.getElem?_eq_some_iff.mp hi
    have hperm : (wk.pool, task) ::ₘ ↑(queue.eraseIdx i) = s.pending := by
      rw [← hqueue, ← hget, Multiset.cons_coe, Multiset.coe_eq_coe]
      exact List.getElem_cons_eraseIdx_perm hlt
    have hcancel : (s.put w { wk with tasks := tasks, phase := .running }).pending =
        ↑(queue.eraseIdx i) := by
      refine add_right_cancel (hset.trans ?_)
      change s.pending + _ = _
      rw [hpending, ← hperm, Multiset.cons_add, Multiset.add_cons]
    exact hcancel.symm
  · have hset := load_put hw { wk with tasks := tasks, phase := .running }
    simp only [Worker.load, htasks, hphase, Phase.rank, List.length_cons] at hset
    change (s.put w _).load ≤ s.load + 10
    omega

theorem Inv.finish [DecidableEq P] (h : Inv pools s) (hsim : Sim s a) (hw : s.workers[w]? = some wk)
    (ht : s.chain.threads[w + 1]? = some th) (hphase : wk.phase = .running)
    (hs : Workers.finish s w th wk = some s') : Inv pools s' ∧ Matched s s' a := by
  have hfit := h.fit wk (List.mem_of_getElem? hw)
  unfold Workers.finish at hs
  split_ifs at hs with hret
  cases hs
  refine h.loop hsim hw rfl rfl ?_ { hfit with
    ready := nofun
    alive := nofun
    woken := fun hqueue => by simpa [hphase] using hfit.woken hqueue } (.inr fun th' hth' => ?_)
  · simp [Worker.load, hphase, Phase.rank]
  · obtain rfl : th = th' := Option.some.inj (ht.symm.trans hth')
    exact isRet_iff.mp hret

theorem Inv.dropRef [DecidableEq P] (h : Inv pools s) (hsim : Sim s a) (hbusy : s.busy t) {i : ℕ}
    {chain : Threads.State P V E U} (hs : Threads.step s.chain (.dropRef t i) = some chain) :
    Inv pools { s with chain := chain } ∧ Matched s { s with chain := chain } a := by
  obtain ⟨th, ht, hs⟩ := Option.bind_eq_some_iff.mp hs
  obtain ⟨p, hp, rfl⟩ := Option.map_eq_some_iff.mp hs
  refine ⟨h.withChain hbusy ht rfl h.queue, .inr ?_⟩
  obtain ⟨queue, rfl, hqueue⟩ := hsim
  refine ⟨.dropRef t i, _, ?_, ⟨queue, rfl, hqueue⟩, Nat.le_add_right _ _⟩
  simp only [Threads.step, ht, hp, Option.bind_some, Option.map_some]
  rfl

/-- **Every step is matched**, where each pool has a worker. -/
theorem Inv.step [DecidableEq P] (h : Inv pools s) (hsim : Sim s a)
    (hpools : ∀ p, p ∈ pools) {l : Label} (hs : Workers.step s l = some s') :
    Inv pools s' ∧ Matched s s' a := by
  cases l with
  | exec t target =>
      simp only [Workers.step] at hs
      split_ifs at hs with hbusy
      obtain ⟨th, ht, hs⟩ := Option.bind_eq_some_iff.mp hs
      exact h.exec hsim hbusy ht hpools hs
  | dropRef t i =>
      simp only [Workers.step] at hs
      split_ifs at hs with hbusy
      obtain ⟨chain, hchain, rfl⟩ := Option.map_eq_some_iff.mp hs
      exact h.dropRef hsim hbusy hchain
  | poll w =>
      obtain ⟨wk, th, hw, ht, hphase, hs⟩ := withWorker_eq_some hs
      exact h.poll hsim hw hphase hs
  | tryRecv w =>
      obtain ⟨wk, th, hw, ht, hphase, hs⟩ := withWorker_eq_some hs
      cases hs
      exact h.tryRecv hsim hw hphase
  | runOneTask w =>
      obtain ⟨wk, th, hw, ht, hphase, hs⟩ := withWorker_eq_some hs
      cases hs
      exact h.runOneTask hsim hw ht hphase
  | finish w =>
      obtain ⟨wk, th, hw, ht, hphase, hs⟩ := withWorker_eq_some hs
      exact h.finish hsim hw ht hphase hs

end Steps

/-! ## Where nothing can go on -/

section Stuck

variable {pools : List P} {s : State P V E U} {a : Threads.State P V E U} {w t : ℕ}
  {wk : Worker P V E U} {th : Thread P V E U}

theorem Inv.length_threads (h : Inv pools s) : s.chain.threads.length = s.workers.length + 1 := by
  have hlength := congrArg List.length h.homes
  simpa [← h.workers] using hlength

variable [DecidableEq P]

/-- A thread that is not done can go on: there is a worker for the task it schedules. -/
theorem Inv.exec_isSome (h : Inv pools s) (hpools : ∀ p, p ∈ pools) (hcode : th.code ≠ .ret) :
    ∃ target s', Workers.exec s t th target = some s' := by
  by_cases hspawn : ∃ p task k, th.code = .spawn p task k
  · obtain ⟨p, task, k, hcode⟩ := hspawn
    obtain ⟨wk, hwk, rfl⟩ := List.mem_map.mp (h.workers ▸ hpools p)
    obtain ⟨w, hw⟩ := List.mem_iff_getElem?.mp hwk
    have hnone : ¬s.workers.all fun wk' => wk'.pool ≠ wk.pool := by simpa using ⟨wk, hwk, rfl⟩
    refine ⟨.drawn w, ?_⟩
    simp only [Workers.exec, hcode, Workers.spawn, if_neg hnone, hw, Option.bind_some, if_true,
      (h.fit wk hwk).push task]
    exact ⟨_, rfl⟩
  · obtain ⟨chain, hchain⟩ := Option.isSome_iff_exists.mp
      (Threads.exec_isSome hcode : (Threads.exec s.chain t th).isSome)
    refine ⟨.here, { s with chain := chain }, ?_⟩
    rw [Workers.exec, hchain]
    split
    next p task k heq => exact absurd ⟨p, task, k, heq⟩ hspawn
    next => rfl

/-- Code of its own a thread has run to its end. -/
theorem Inv.code_of_busy (h : Inv pools s) (hpools : ∀ p, p ∈ pools)
    (hstuck : ∀ l, Workers.step s l = none) (hbusy : s.busy t)
    (ht : s.chain.threads[t]? = some th) : th.code = .ret := by
  by_contra hne
  obtain ⟨target, s', hs'⟩ := h.exec_isSome (t := t) hpools hne
  have hlabel := hstuck (.exec t target)
  simp [Workers.step, hbusy, ht, hs'] at hlabel

/-- **Each worker is blocked in its poll, and has nothing to do**: a message would have woken it up.
-/
theorem Inv.blocked (h : Inv pools s) (hpools : ∀ p, p ∈ pools)
    (hstuck : ∀ l, Workers.step s l = none)
    (hw : s.workers[w]? = some wk) (ht : s.chain.threads[w + 1]? = some th) :
    wk.phase = .polling ∧ wk.tasks = [] ∧ wk.channel.queue = [] := by
  have hfit := h.fit wk (List.mem_of_getElem? hw)
  cases hphase : wk.phase with
  | polling =>
      have hlabel := hstuck (.poll w)
      simp only [Workers.step, State.withWorker, hw, ht, Option.bind_some, hphase, if_true,
        Workers.poll] at hlabel
      split_ifs at hlabel with hwaker htasks
      refine ⟨rfl, by simpa using htasks, ?_⟩
      by_contra hqueue
      simpa [hwaker, hphase] using hfit.woken hqueue
  | draining =>
      have hlabel := hstuck (.tryRecv w)
      simp [Workers.step, State.withWorker, hw, ht, hphase] at hlabel
  | ready =>
      have hlabel := hstuck (.runOneTask w)
      simp [Workers.step, State.withWorker, hw, ht, hphase] at hlabel
  | running =>
      have hcode := h.code_of_busy hpools hstuck (t := w + 1) (by simp [State.busy, hw, hphase]) ht
      have hlabel := hstuck (.finish w)
      simp [Workers.step, State.withWorker, hw, ht, hphase, Workers.finish, hcode] at hlabel
  | exited => exact absurd hphase hfit.alive

theorem Inv.worker_blocked (h : Inv pools s) (hpools : ∀ p, p ∈ pools)
    (hstuck : ∀ l, Workers.step s l = none) :
    ∀ wk ∈ s.workers, wk.phase = .polling ∧ wk.tasks = [] ∧ wk.channel.queue = [] := by
  intro wk hwk
  obtain ⟨w, hw⟩ := List.mem_iff_getElem?.mp hwk
  have hlt := (List.getElem?_eq_some_iff.mp hw).1
  have hlength := h.length_threads
  exact h.blocked hpools hstuck hw (List.getElem?_eq_getElem (by omega))

/-- Every thread has run its code to the end, … -/
theorem Inv.code_of_stuck (h : Inv pools s) (hpools : ∀ p, p ∈ pools)
    (hstuck : ∀ l, Workers.step s l = none) : ∀ th ∈ s.chain.threads, th.code = .ret := by
  intro th hth
  obtain ⟨t, ht⟩ := List.mem_iff_getElem?.mp hth
  cases t with
  | zero => exact h.code_of_busy hpools hstuck rfl ht
  | succ w =>
      have hlt := (List.getElem?_eq_some_iff.mp ht).1
      have hlength := h.length_threads
      obtain ⟨wk, hw⟩ : ∃ wk, s.workers[w]? = some wk :=
        ⟨_, List.getElem?_eq_getElem (by omega)⟩
      exact h.rests w wk th hw ht (by simp [(h.blocked hpools hstuck hw ht).1])

/-- …and no reference is left, since thread `0` might drop one. -/
theorem Inv.lent_of_stuck (h : Inv pools s) (hstuck : ∀ l, Workers.step s l = none) :
    s.chain.lent = [] := by
  by_contra hlent
  obtain ⟨p, lent, hp⟩ := List.exists_cons_of_ne_nil hlent
  obtain ⟨th, ht⟩ : ∃ th, s.chain.threads[0]? = some th :=
    ⟨_, List.getElem?_eq_getElem (by rw [h.length_threads]; omega)⟩
  have hlabel := hstuck (.dropRef 0 0)
  simp [Workers.step, State.busy, Threads.step, ht, hp] at hlabel

end Stuck

/-! ## The results -/

section Results

variable [DecidableEq P] {c : Chain P V E U} {stop_token : Bool} {m : Mem V U} {pools : List P}

theorem Inv.init : Inv pools (machine c stop_token m pools).init where
  workers := by simp [machine, Worker.start, Function.comp_def]
  homes := by simp [machine, start, Function.comp_def]
  queue := rfl
  rests := by
    intro w wk th _ hth _
    obtain ⟨home, -, rfl⟩ := List.mem_map.mp (List.mem_of_getElem? hth)
    rfl
  fit := by
    intro wk hwk
    obtain ⟨pool, -, rfl⟩ := List.mem_map.mp hwk
    constructor <;> simp [Worker.start, Pool.Channel.new]

theorem Sim.init : Sim (machine c stop_token m pools).init
    (Threads.machine c stop_token m none (pools.map some)).init := by
  refine ⟨[], rfl, ?_⟩
  have hpending : ∀ pool : P, (Worker.start pool : Worker P V E U).pending = 0 := fun _ => rfl
  simp [machine, State.pending, Function.comp_def, hpending]

/-- **The workers do what `Chain/Threads` says**: where each pool has a worker, every run of the
workers, with the channels, the wake-ups and the loops of the source, is matched by a run there. -/
theorem workers_refine (c : Chain P V E U) (stop_token : Bool) (m : Mem V U) (pools : List P)
    (hpools : ∀ p, p ∈ pools) (as : List Label) (s : State P V E U)
    (hrun : (machine c stop_token m pools).Run (fun _ _ => True) as s) :
    ∃ bs a, (Threads.machine c stop_token m none (pools.map some)).Run (fun _ _ => True) bs a ∧
      Sim s a := by
  obtain ⟨bs, a, hrun', -, hsim⟩ := hrun.simulate
    (N := Threads.machine c stop_token m none (pools.map some))
    (R := fun s a => Inv pools s ∧ Sim s a) ⟨.init, .init⟩ fun s l s' a h _ hs => by
      obtain ⟨hinv, ⟨hsim, -⟩ | ⟨l', a', hstep, hsim, -⟩⟩ := h.1.step h.2 hpools hs
      · exact .inl ⟨hinv, hsim⟩
      · exact .inr ⟨l', a', hstep, hinv, hsim⟩
  exact ⟨bs, a, hrun', hsim⟩

/-- One worker for each pool: `travelling` goes from the first thread to one and to the other. -/
def travel : List Label :=
  List.replicate 7 (.exec 0 (.drawn 0)) ++ [.poll 0, .tryRecv 0, .tryRecv 0, .runOneTask 0] ++
    List.replicate 6 (.exec 1 .here) ++ [.dropRef 0 0, .exec 0 .here] ++
    List.replicate 10 (.exec 1 (.drawn 1)) ++
    [.finish 0, .poll 1, .tryRecv 1, .tryRecv 1, .runOneTask 1] ++
    List.replicate 10 (.exec 2 .here) ++ [.finish 1]

theorem travel_ends :
    ∃ s, (machine travelling false ⟨fun _ => [], ()⟩ [true, false]).exec
        (machine travelling false ⟨fun _ => [], ()⟩ [true, false]).init travel = some s ∧
      s.chain.world.log ≠ [] := Machine.exec_ends (by decide +kernel)

theorem travel_refines :
    ∃ s bs a, (machine travelling false ⟨fun _ => [], ()⟩ [true, false]).exec
        (machine travelling false ⟨fun _ => [], ()⟩ [true, false]).init travel = some s ∧
      (Threads.machine travelling false ⟨fun _ => [], ()⟩ none [some true, some false]).Run
        (fun _ _ => True) bs a ∧ Sim s a := by
  obtain ⟨s, hexec, -⟩ := travel_ends
  obtain ⟨bs, a, hrun, hsim⟩ := workers_refine travelling false ⟨fun _ => [], ()⟩ [true, false]
    (by decide) travel s (.of_exec (by decide +kernel) hexec)
  exact ⟨s, bs, a, hexec, hrun, hsim⟩

/-- **The invariant holds in every state of a run**, and each step has left less to do. -/
theorem Inv.of_run (c : Chain P V E U) (stop_token : Bool) (m : Mem V U) (hpools : ∀ p, p ∈ pools) :
    ∃ bound, ∀ as s, (machine c stop_token m pools).Run (fun _ _ => True) as s →
      ∃ a g, Inv pools s ∧ Sim s a ∧ Books (c.denote stop_token m 1) {0} g a ∧
        as.length + (11 * g.potential a + s.load) ≤ bound := by
  obtain ⟨g₀, hinit⟩ := books_machine c stop_token m none (pools.map some)
  let J : ℕ → State P V E U → Prop := fun n s => ∃ a g, Inv pools s ∧ Sim s a ∧
    Books (c.denote stop_token m 1) {0} g a ∧ 11 * g.potential a + s.load = n
  have hcount : ∀ ⦃n s l s'⦄, J n s → True → Workers.step s l = some s' → ∃ n' < n, J n' s' := by
    rintro n s l s' ⟨a, g, hinv, hsim, hg, rfl⟩ - hs
    obtain ⟨hinv', ⟨hsim', hlt⟩ | ⟨l', a', hstep, hsim', hle⟩⟩ := hinv.step hsim hpools hs
    · exact ⟨_, by omega, a, g, hinv', hsim', hg, rfl⟩
    · obtain ⟨g', hg', hlt⟩ := hg.step hstep
      exact ⟨_, by omega, a', g', hinv', hsim', hg', rfl⟩
  obtain ⟨n₀, hbegin⟩ : ∃ n₀, J n₀ (machine c stop_token m pools).init :=
    ⟨_, _, g₀, .init, .init, hinit, rfl⟩
  refine ⟨n₀, fun as s hrun => ?_⟩
  obtain ⟨n, ⟨a, g, hinv, hsim, hg, rfl⟩, hle⟩ := hrun.length_le hbegin hcount
  exact ⟨a, g, hinv, hsim, hg, hle⟩

/-- **A chain on real workers**: where each pool has one, no worker panics, whatever the receiver
gets is the denotation, all runs end, and where nothing can go on, the denotation has been delivered
and no queue has anything in it. -/
theorem workers_complete (c : Chain P V E U) (stop_token : Bool) (m : Mem V U) (pools : List P)
    (hpools : ∀ p, p ∈ pools) :
    (∃ bound, ∀ as s, (machine c stop_token m pools).Run (fun _ _ => True) as s →
      as.length ≤ bound) ∧
    ∀ as s, (machine c stop_token m pools).Run (fun _ _ => True) as s →
      s.chain.panics = [] ∧
      (s.chain.world.log = [] ∨ s.chain.world.log = [(c.denote stop_token m 1).signal]) ∧
      ((∀ l, step s l = none) → Finished (c.denote stop_token m 1) {0} s.chain ∧
        ∀ wk ∈ s.workers, wk.phase = .polling ∧ wk.tasks = [] ∧ wk.channel.queue = []) := by
  obtain ⟨bound, hbound⟩ := Inv.of_run c stop_token m hpools
  refine ⟨⟨bound, fun as s hrun => ?_⟩, fun as s hrun => ?_⟩
  · obtain ⟨a, g, -, -, -, hle⟩ := hbound as s hrun
    omega
  · obtain ⟨a, g, hinv, ⟨queue, rfl, hqueue⟩, hg, -⟩ := hbound as s hrun
    refine ⟨hg.panics, ?_, fun hstuck => ?_⟩
    · cases hg.place with
      | running _ hlog => exact .inl hlog
      | stored _ _ _ _ _ hlog => exact .inl hlog
      | delivered _ hlog => exact .inr hlog
    · have hblocked := hinv.worker_blocked hpools hstuck
      have hnone : queue = [] := by
        have hzero : ∀ wk ∈ s.workers, wk.pending = 0 := fun wk hwk => by
          simp [Worker.pending, hblocked wk hwk]
        have hpending : s.pending = 0 := by
          rw [State.pending, List.map_congr_left hzero]
          simp
        exact Multiset.coe_eq_zero _ |>.mp (hqueue.trans hpending)
      have hfinished := hg.finished le_rfl (hinv.code_of_stuck hpools hstuck) hnone
        (hinv.lent_of_stuck hstuck)
      exact ⟨{ hfinished with queue := hinv.queue }, hblocked⟩

theorem travel_completes :
    ∃ s, (machine travelling false ⟨fun _ => [], ()⟩ [true, false]).exec
        (machine travelling false ⟨fun _ => [], ()⟩ [true, false]).init travel = some s ∧
      s.chain.panics = [] ∧ s.chain.world.log = [.value (.pool false) [6, 7]] := by
  obtain ⟨s, hexec, hlog⟩ := travel_ends
  obtain ⟨hpanics, hnone | hsignal, -⟩ := (workers_complete travelling false ⟨fun _ => [], ()⟩
    [true, false] (by decide)).2 travel s (.of_exec (by decide +kernel) hexec)
  · exact absurd hnone hlog
  · exact ⟨s, hexec, hpanics, hsignal⟩

end Results

end SendersReceivers.Workers
