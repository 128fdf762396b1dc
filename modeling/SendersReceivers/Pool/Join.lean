import SendersReceivers.Pool.Invariant

/-!
# Pool/Join — when `join` returns

A worker stops once no handle of it is left, and `join` waits for it to stop.  For a worker that
`set_thread_count` took out of `threads` that goes well.  For one that `join` takes out itself the
pair of its handle and its `JoinHandle` stays in the scrutinee while `h.join()` runs:

    while let Some((_, h)) = self.threads.pop() { h.join() }

    join ──waits for──▸ worker ──polls until there is no──▸ handle ◂──held by── join
-/

namespace SendersReceivers.Pool

open Machinery

variable {s s' : State} {v u : ℕ} {w w' : Worker} {l : Label} {hand : List ℕ}

/-! ## States without a next step -/

/-- A worker that is blocked in its `poll`, or gone. -/
def Worker.Idle (w : Worker) : Prop :=
  w.phase = .exited ∨ w.phase = .polling ∧ w.channel.waker = false ∧ w.tasks = []

instance (w : Worker) : Decidable w.Idle :=
  inferInstanceAs (Decidable (_ ∨ _ ∧ _ ∧ _))

/-- Nobody can do anything. -/
def Quiet (s : State) : Prop :=
  s.outside = [] ∧ (∀ w ∈ s.workers, w.Idle) ∧ joinStep s = none

instance (s : State) : Decidable (Quiet s) :=
  inferInstanceAs (Decidable (_ ∧ _ ∧ _))

theorem Quiet.withWorker {phase : Phase} {f : Worker → Option State} (h : Quiet s)
    (hphase : phase ≠ .polling) (hexited : phase ≠ .exited) : s.withWorker v phase f = none := by
  rw [State.withWorker, Option.bind_eq_none_iff]
  intro w hw
  obtain hp | ⟨hp, -⟩ := h.2.1 w (List.mem_of_getElem? hw)
  · exact if_neg fun heq => hexited (heq.symm.trans hp)
  · exact if_neg fun heq => hphase (heq.symm.trans hp)

theorem Quiet.withFrame {f : Worker → List Handle → Option State} (h : Quiet s) :
    s.withFrame v f = none := by
  rw [State.withFrame, Option.bind_eq_none_iff]
  intro w hw
  obtain hp | ⟨hp, -⟩ := h.2.1 w (List.mem_of_getElem? hw) <;> simp [hp]

theorem Quiet.withPool {next : Option State} (h : Quiet s) : s.withPool next = none := by
  refine if_neg ?_
  rintro ⟨hjoin, hpoisoned⟩
  simpa [joinStep, hjoin, hpoisoned] using h.2.2

theorem Quiet.poll (h : Quiet s) : s.withWorker v .polling (Pool.poll s v) = none := by
  rw [State.withWorker, Option.bind_eq_none_iff]
  intro w hw
  obtain hp | ⟨hp, hwaker, htasks⟩ := h.2.1 w (List.mem_of_getElem? hw)
  · simp [hp]
  · simp [hp, Pool.poll, hwaker, htasks]

/-- **In a quiet state no step is possible.** -/
theorem Quiet.stuck (h : Quiet s) (l : Label) : step s l = none := by
  cases l with
  | shrink | grow | schedule => exact h.withPool
  | outsideClone | outsideDrop => simp [step, h.1]
  | outsideExecute v captured =>
      refine if_neg ?_
      rintro ⟨-, hmem⟩
      simpa [h.1] using List.diff_subset _ _ hmem
  | poll => exact h.poll
  | tryRecv | runOneTask | finish => exact h.withWorker (by simp) (by simp)
  | clone | drop | convert | executeLocal | executeCross | give => exact h.withFrame
  | join => exact h.2.2

/-! ## What is left to do

Handles are dropped, tasks are run and workers go to sleep: each such step makes the potential
smaller, even where the drop of a last handle wakes a worker. -/

/-- What a worker has to do in its phase. -/
def Phase.potential : Phase → ℕ
  | .polling => 2
  | .draining => 3
  | .ready => 1
  | .running frame => 3 + 4 * frame.length
  | .exited => 0

/-- What a task has to do. -/
def Task.potential (t : Task) : ℕ := 7 + 4 * t.captured.length

def Worker.potential (w : Worker) : ℕ :=
  w.phase.potential + 3 * w.channel.waker.toNat +
    weight (fun t => t.potential + 1) w.channel.queue + weight Task.potential w.tasks

def State.potential (s : State) : ℕ :=
  weight Worker.potential s.workers + 4 * s.outside.length

theorem State.potential_put (h : s.workers[v]? = some w) (w' : Worker) :
    (s.put v w').potential + w.potential = s.potential + w'.potential := by
  have := weight_set Worker.potential h w'
  simp only [potential, put] at this ⊢
  omega

theorem State.potential_put_lt (h : s.workers[v]? = some w) (hlt : w'.potential < w.potential) :
    (s.put v w').potential < s.potential := by
  have := State.potential_put h w'
  omega

/-- The drop of a handle wakes its worker at most. -/
theorem Inv.potential_dropSender (h : Inv [] (v :: hand) s) :
    (s.dropSender v).potential ≤ s.potential + 3 := by
  obtain ⟨w, hw, -, heq⟩ := h.dropSender_eq
  have hput := State.potential_put hw { w with channel := w.channel.dropped }
  have hle : Worker.potential { w with channel := w.channel.dropped } ≤ w.potential + 3 := by
    have := Bool.toNat_le (w.channel.waker || decide (w.channel.cnt_sender = 1))
    simp only [Worker.potential, Channel.dropped]
    omega
  rw [heq]
  omega

theorem State.withWorker_of {phase : Phase} {f : Worker → Option State}
    (hw : s.workers[v]? = some w) (hphase : w.phase = phase) : s.withWorker v phase f = f w := by
  simp [withWorker, hw, hphase]

theorem State.withFrame_of {frame : List Handle} {f : Worker → List Handle → Option State}
    (hw : s.workers[v]? = some w) (hphase : w.phase = .running frame) :
    s.withFrame v f = f w frame := by
  simp [withFrame, hw, hphase]

/-- **A worker that is not idle can do a step that leaves less to do.** -/
theorem worker_descends (h : Inv [] [] s) (hw : s.workers[v]? = some w) (hidle : ¬ w.Idle) :
    ∃ l s', step s l = some s' ∧ s'.potential < s.potential := by
  cases hphase : w.phase with
  | polling =>
      cases hwaker : w.channel.waker with
      | true =>
          refine ⟨.poll v, _, (State.withWorker_of hw hphase).trans (if_pos hwaker), ?_⟩
          refine State.potential_put_lt hw ?_
          simp [Worker.potential, Phase.potential, hphase, hwaker]
      | false =>
          have htasks : w.tasks ≠ [] := fun htasks => hidle (.inr ⟨hphase, hwaker, htasks⟩)
          have hpoll : poll s v w = some (s.put v { w with phase := .ready }) := by
            simp [poll, hwaker, htasks]
          refine ⟨.poll v, _, (State.withWorker_of hw hphase).trans hpoll, ?_⟩
          refine State.potential_put_lt hw ?_
          simp [Worker.potential, Phase.potential, hphase]
  | draining =>
      refine ⟨.tryRecv v, tryRecv s v w, State.withWorker_of hw hphase, ?_⟩
      rw [tryRecv, Channel.tryPop]
      rcases hqueue : w.channel.queue with _ | ⟨task, queue⟩
      · dsimp only
        split_ifs with htasks hzero
        · refine State.potential_put_lt hw ?_
          simp [Worker.potential, Phase.potential, hphase, Channel.dropReceiver]
        · refine State.potential_put_lt hw ?_
          simp [Worker.potential, Phase.potential, hphase]
        · refine State.potential_put_lt hw ?_
          simp [Worker.potential, Phase.potential, hphase]
      · refine State.potential_put_lt hw ?_
        simp only [Worker.potential, hqueue, weight_append, weight_cons, weight_nil]
        omega
  | ready =>
      obtain ⟨task, tasks, htasks⟩ := List.exists_cons_of_ne_nil ((h.ok v w hw).ready hphase)
      refine ⟨.runOneTask v, runOneTask s v w, State.withWorker_of hw hphase, ?_⟩
      simp only [runOneTask, htasks]
      refine State.potential_put_lt hw ?_
      simp only [Worker.potential, Phase.potential, hphase, htasks, weight_cons, Task.potential,
        List.length_cons]
      omega
  | running frame =>
      cases frame with
      | nil =>
          refine ⟨.finish v, _, State.withWorker_of hw hphase, ?_⟩
          refine State.potential_put_lt hw ?_
          simp [Worker.potential, Phase.potential, hphase]
      | cons h' frame =>
          refine ⟨.drop v h', _, (State.withFrame_of hw hphase).trans (if_pos (.head _)), ?_⟩
          have hdrop := h.drop hw hphase (List.mem_cons_self (a := h'))
          have hle := hdrop.potential_dropSender
          have hput := State.potential_put hw { w with phase := .running frame }
          simp only [List.erase_cons_head, State.putFrame] at hle ⊢
          simp only [Worker.potential, Phase.potential, hphase, List.length_cons] at hput
          omega
  | exited => exact absurd (.inl hphase) hidle

/-- **While `join` cannot go on, the others come to rest.** -/
theorem descends (h : Inv [] [] s) (hjoin : joinStep s = none) :
    Quiet s ∨ ∃ l s', step s l = some s' ∧ s'.potential < s.potential := by
  by_cases hidle : ∀ w ∈ s.workers, w.Idle
  · rcases houtside : s.outside with _ | ⟨v, outside⟩
    · exact .inl ⟨houtside, hidle, hjoin⟩
    · refine .inr ⟨.outsideDrop v, _, if_pos (by simp [houtside]), ?_⟩
      have hdrop := h.outsideDrop (v := v) (by simp [houtside])
      have hle := hdrop.potential_dropSender
      simp only [State.potential, houtside, List.erase_cons_head, List.length_cons] at hle ⊢
      omega
  · push Not at hidle
    obtain ⟨w, hmem, hidle⟩ := hidle
    obtain ⟨v, hw⟩ := List.getElem?_of_mem hmem
    exact .inr (worker_descends h hw hidle)

/-! ## What the others leave alone -/

section Frame

variable (s v) (message : String) (f : Channel Task → Except ChannelError (Channel Task))
  (captured : List ℕ)

theorem State.withChannel_join : (s.withChannel v message f).join = s.join := by
  unfold withChannel
  split
  · split <;> rfl
  · rfl

theorem State.withChannel_threads : (s.withChannel v message f).threads = s.threads := by
  unfold withChannel
  split
  · split <;> rfl
  · rfl

@[simp] theorem State.cloneSender_join : (s.cloneSender v).join = s.join :=
  s.withChannel_join v _ _

@[simp] theorem State.cloneSender_threads : (s.cloneSender v).threads = s.threads :=
  s.withChannel_threads v _ _

@[simp] theorem State.dropSender_join : (s.dropSender v).join = s.join :=
  s.withChannel_join v _ _

@[simp] theorem State.dropSender_threads : (s.dropSender v).threads = s.threads :=
  s.withChannel_threads v _ _

@[simp] theorem State.execute_join : (s.execute v captured).join = s.join :=
  (State.withChannel_join _ v _ _).trans (s.cloneSender_join v)

@[simp] theorem State.execute_threads : (s.execute v captured).threads = s.threads :=
  (State.withChannel_threads _ v _ _).trans (s.cloneSender_threads v)

@[simp] theorem State.put_join : (s.put v w).join = s.join := rfl

@[simp] theorem State.put_threads : (s.put v w).threads = s.threads := rfl

@[simp] theorem State.putFrame_join (frame : List Handle) : (s.putFrame v w frame).join = s.join :=
  rfl

@[simp] theorem State.putFrame_threads (frame : List Handle) :
    (s.putFrame v w frame).threads = s.threads := rfl

end Frame

theorem poll_frame (hs : poll s v w = some s') : s'.join = s.join ∧ s'.threads = s.threads := by
  rw [poll] at hs
  split_ifs at hs <;> obtain rfl := Option.some.inj hs <;> exact ⟨rfl, rfl⟩

theorem tryRecv_frame : (tryRecv s v w).join = s.join ∧ (tryRecv s v w).threads = s.threads := by
  rw [tryRecv]
  split
  · exact ⟨rfl, rfl⟩
  · split_ifs
    · split <;> exact ⟨rfl, rfl⟩
    · exact ⟨rfl, rfl⟩

theorem runOneTask_frame :
    (runOneTask s v w).join = s.join ∧ (runOneTask s v w).threads = s.threads := by
  rw [runOneTask]
  split <;> exact ⟨rfl, rfl⟩

/-- **While `join` runs, only `join` itself takes anything from the pool.** -/
theorem step_frame (hs : step s l = some s') (hjoin : s.join ≠ .idle) (hl : l ≠ .join) :
    s'.join = s.join ∧ s'.threads = s.threads := by
  cases l with
  | shrink | grow | schedule => exact absurd (State.withPool_eq hs).1 hjoin
  | outsideClone | outsideDrop | outsideExecute =>
      simp only [step, Option.ite_none_right_eq_some, Option.some.injEq] at hs
      obtain ⟨-, rfl⟩ := hs
      simp
  | poll v =>
      obtain ⟨w, -, -, hs⟩ := State.withWorker_eq hs
      exact poll_frame hs
  | tryRecv v =>
      obtain ⟨w, -, -, hs⟩ := State.withWorker_eq hs
      exact Option.some.inj hs ▸ tryRecv_frame
  | runOneTask v =>
      obtain ⟨w, -, -, hs⟩ := State.withWorker_eq hs
      exact Option.some.inj hs ▸ runOneTask_frame
  | clone | drop | convert | executeLocal | executeCross | give =>
      obtain ⟨w, frame, -, -, -, rfl⟩ := State.withFrame_eq hs
      simp
  | finish v =>
      obtain ⟨w, -, -, hs⟩ := State.withWorker_eq hs
      exact Option.some.inj hs ▸ ⟨rfl, rfl⟩
  | join => exact absurd rfl hl

/-! ## A worker that `join` took from `threads` -/

/-- `join` waits for a worker that it has a handle of. -/
theorem Inv.join_waits (h : Inv [] [] s) (hjoin : s.join = .waiting v) :
    Pool.joinStep s = none := by
  have hheld : 0 < s.held v := by
    simp [State.held, hjoin, Join.held]
  obtain ⟨w, hw, -, hphase⟩ := h.live (v := v) (by simpa using hheld)
  simp [Pool.joinStep, hjoin, State.withWorker, hw, hphase]

/-- **… and waits for ever.** -/
theorem waits_step (h : Inv [] [] s) (hjoin : s.join = .waiting v) (hs : step s l = some s') :
    s'.join = .waiting v := by
  have hl : l ≠ .join := by
    rintro rfl
    exact absurd ((h.join_waits hjoin).symm.trans hs) (by simp)
  exact (step_frame hs (by simp [hjoin]) hl).1.trans hjoin

/-- **The deadlock**: from there, the others come to rest, and nobody can do anything. -/
theorem waits_comes_to_rest (h : Inv [] [] s) (hjoin : s.join = .waiting v) :
    ∃ ls t, machine.exec s ls = some t ∧ t.join = .waiting v ∧ Quiet t := by
  have hdescends : ∃ ls t, machine.exec s ls = some t ∧ (Inv [] [] t ∧ t.join = .waiting v) ∧
      Quiet t := by
    refine Machine.exec_descends State.potential (fun s h => ?_) ⟨h, hjoin⟩
    obtain ⟨h, hjoin⟩ := h
    obtain hquiet | ⟨l, s', hs, hlt⟩ := descends h (h.join_waits hjoin)
    · exact .inl hquiet
    · exact .inr ⟨l, s', hs, ⟨h.step hs, waits_step h hjoin hs⟩, hlt⟩
  obtain ⟨ls, t, hexec, ⟨-, hwaits⟩, hquiet⟩ := hdescends
  exact ⟨ls, t, hexec, hwaits, hquiet⟩

/-! ## A pool without threads -/

/-- `join` runs and has nothing from `threads`. -/
structure Emptied (s : State) : Prop where
  threads : s.threads = []
  held : s.join.held = []
  runs : s.join ≠ .idle

theorem Emptied.joinStep (h : Emptied s) (hs : Pool.joinStep s = some s') : Emptied s' := by
  obtain ⟨hthreads, hheld, hruns⟩ := h
  cases joins_of_step hs with
  | lock hjoin => exact absurd hjoin hruns
  | pop _ hlast => simp [hthreads] at hlast
  | joined hjoin | leave hjoin => simp [hjoin, Join.held] at hheld
  | popped | popPending | done | joinedPending => exact ⟨hthreads, rfl, by simp⟩

theorem Emptied.step (h : Emptied s) (hs : Pool.step s l = some s') : Emptied s' := by
  by_cases hl : l = .join
  · subst hl
    exact h.joinStep hs
  · obtain ⟨hjoin, hthreads⟩ := step_frame hs h.runs hl
    exact ⟨hthreads.trans h.threads, hjoin ▸ h.held, hjoin ▸ h.runs⟩

/-- A quiet worker is a worker without handles. -/
theorem Worker.Idle.handles {w : Worker} (h : w.Idle) (hok : w.Ok v) : w.handles = [] := by
  obtain hphase | ⟨hphase, hwaker, htasks⟩ := h
  · obtain ⟨-, hqueue, htasks⟩ := hok.exited hphase
    simp [Worker.handles, hqueue, htasks, hphase, Phase.frame]
  · have hqueue : w.channel.queue = [] := by
      by_contra hne
      simpa [hwaker] using hok.awake (by simp [hphase]) (by simp [hphase]) (.inl hne)
    simp [Worker.handles, hqueue, htasks, hphase, Phase.frame]

/-- **Without handles in the pool, a quiet state is one in which all workers have exited.** -/
theorem Quiet.exited (hquiet : Quiet s) (h : Inv [] [] s) (hempty : Emptied s)
    (hw : s.workers[v]? = some w) : w.phase = .exited := by
  have hzero : w.channel.cnt_sender = 0 := by
    have hcount := h.counted v
    have hsum : weight (fun w : Worker => w.handles.count v) s.workers = 0 := by
      refine List.sum_eq_zero fun n hn => ?_
      obtain ⟨c, hc, rfl⟩ := List.mem_map.mp hn
      obtain ⟨i, hi⟩ := List.getElem?_of_mem hc
      simp [(hquiet.2.1 c hc).handles (h.ok i c hi)]
    simpa [State.senders_eq hw, State.held, hempty.threads, hempty.held, hquiet.1, hsum]
      using hcount
  obtain hphase | ⟨hphase, hwaker, -⟩ := hquiet.2.1 w (List.mem_of_getElem? hw)
  · exact hphase
  · simpa [hwaker] using (h.ok v w hw).awake (by simp [hphase]) (by simp [hphase]) (.inr hzero)

theorem Quiet.done (hquiet : Quiet s) (h : Inv [] [] s) (hempty : Emptied s) : s.join = .done := by
  have hjoin := hquiet.2.2
  cases hphase : s.join with
  | idle => exact absurd hphase hempty.runs
  | threads => simp [joinStep, hphase, hempty.threads] at hjoin
  | waiting => simpa [hphase, Join.held] using hempty.held
  | leaving => simpa [hphase, Join.held] using hempty.held
  | pendingJoins =>
      rw [joinStep, hphase] at hjoin
      dsimp only at hjoin
      split at hjoin <;> cases hjoin
  | waitingPending v =>
      have hlt := h.joinable v (by simp [hphase, Join.waitsFor])
      have hw := List.getElem?_eq_getElem hlt
      have hexited := hquiet.exited h hempty hw
      simp [joinStep, hphase, State.withWorker, hw, hexited] at hjoin
  | done => rfl

/-! ## The result -/

/-- **`join` never gets stuck**: however the run goes on that begins with it, a state in which no
handle is outside and no step is possible is one in which it has returned. -/
def JoinReturns (s : State) : Prop :=
  ∀ ls t, machine.exec s (.join :: ls) = some t → t.outside = [] → (∀ l, step t l = none) →
    t.join = .done

/-- **`join` has let go of the workers it waits for**: the pool has no handle of them. -/
def LetsGo (s : State) : Prop :=
  ∀ ls t w, machine.exec s (.join :: ls) = some t → w ∈ t.join.waitsFor →
    w ∉ t.threads ++ t.join.held

section

variable {ls : List Label}

theorem join_starts (hidle : s.join = .idle) (hlock : s.poisoned = false) :
    step s .join = some { s with join := .threads } := by
  simp [step, joinStep, hidle, hlock]

/-- The first iteration over `threads`, up to `h.join()`. -/
theorem join_pops (hidle : s.join = .idle) (hlock : s.poisoned = false)
    (hlast : s.threads.getLast? = some v) :
    machine.exec s [.join, .join] =
      some { s with threads := s.threads.dropLast, join := .waiting v } := by
  have hnext : step { s with join := .threads } .join =
      some { s with threads := s.threads.dropLast, join := .waiting v } := by
    simp [step, joinStep, hlast]
  simp only [Machine.exec, machine, join_starts hidle hlock, Option.bind_some, hnext]

/-- Whatever steps follow, `join` has nothing from `threads`. -/
theorem emptied_of_exec (h : Inv [] [] s) (hidle : s.join = .idle) (hlock : s.poisoned = false)
    (hthreads : s.threads = []) {t : State} (hexec : machine.exec s (.join :: ls) = some t) :
    Inv [] [] t ∧ Emptied t := by
  obtain ⟨s₁, hs₁, hexec⟩ := Option.bind_eq_some_iff.mp hexec
  have hstart := join_starts hidle hlock
  obtain rfl := Option.some.inj (hstart.symm.trans hs₁)
  refine Machine.exec_preserves (M := machine) (I := fun s => Inv [] [] s ∧ Emptied s)
    (fun s l s' h hs => ⟨h.1.step hs, h.2.step hs⟩) ⟨h.step hstart, ?_⟩ hexec
  exact ⟨hthreads, rfl, by simp⟩

theorem join_returns_of_emptied (h : Inv [] [] s) (hidle : s.join = .idle)
    (hlock : s.poisoned = false) (hthreads : s.threads = []) : JoinReturns s := by
  intro ls t hexec houtside hstuck
  obtain ⟨hinv, hempty⟩ := emptied_of_exec h hidle hlock hthreads hexec
  have hjoin : joinStep t = none := hstuck .join
  obtain hquiet | ⟨l, t', hs, -⟩ := descends hinv hjoin
  · exact hquiet.done hinv hempty
  · simp [hstuck l] at hs

theorem lets_go_of_emptied (h : Inv [] [] s) (hidle : s.join = .idle) (hlock : s.poisoned = false)
    (hthreads : s.threads = []) : LetsGo s := by
  intro ls t w hexec _
  obtain ⟨-, hempty⟩ := emptied_of_exec h hidle hlock hthreads hexec
  simp [hempty.threads, hempty.held]

/-- **A pool that still has a thread**: `join` takes it, waits for it, and gets stuck. -/
theorem threads_eq_nil_of_join_returns (h : Inv [] [] s) (hidle : s.join = .idle)
    (hlock : s.poisoned = false) (hreturns : JoinReturns s) : s.threads = [] := by
  by_contra hne
  have hpops := join_pops hidle hlock (List.getLast?_eq_some_getLast hne)
  have hinv := Machine.exec_preserves (M := machine) (fun s l s' h hs => h.step hs) h hpops
  obtain ⟨ls, t, hexec, hjoin, hquiet⟩ := waits_comes_to_rest hinv rfl
  have hrun : machine.exec s ([.join, .join] ++ ls) = some t := by
    rw [Machine.exec_append, hpops]
    exact hexec
  have hdone := hreturns (.join :: ls) t hrun hquiet.1 hquiet.stuck
  simp [hjoin] at hdone

theorem threads_eq_nil_of_lets_go (hidle : s.join = .idle) (hlock : s.poisoned = false)
    (hgo : LetsGo s) : s.threads = [] := by
  by_contra hne
  have hpops := join_pops hidle hlock (List.getLast?_eq_some_getLast hne)
  exact hgo [.join] _ (s.threads.getLast hne) hpops (.head _)
    (List.mem_append_right _ (.head _))

/-- **`join` never gets stuck, and lets go of what it waits for, exactly on a pool whose `threads`
are empty when it begins**: one that `set_thread_count(0)` has emptied. -/
theorem join_returns_iff (ls : List Label) (s : State)
    (h : machine.Run (fun _ _ => True) ls s) (hidle : s.join = .idle) (hlock : s.poisoned = false) :
    (JoinReturns s ↔ s.threads = []) ∧ (LetsGo s ↔ s.threads = []) := by
  have hinv := Inv.inductive.of_run h
  exact ⟨⟨threads_eq_nil_of_join_returns hinv hidle hlock,
      join_returns_of_emptied hinv hidle hlock⟩,
    threads_eq_nil_of_lets_go hidle hlock, lets_go_of_emptied hinv hidle hlock⟩

/-- A pool that ran a task and was emptied, and its `join`. -/
def emptied : List Label := [.grow, .schedule 0 [], .shrink]

theorem emptied_pool_joins :
    ∃ s, machine.exec fresh emptied = some s ∧ s.pending_joins = [0] ∧
      JoinReturns s ∧ LetsGo s := by
  obtain ⟨s, hs, hidle, hlock, hthreads, hpending⟩ : ∃ s, machine.exec fresh emptied = some s ∧
      s.join = .idle ∧ s.poisoned = false ∧ s.threads = [] ∧ s.pending_joins = [0] :=
    Machine.exec_ends (by decide +kernel)
  have hrun : machine.Run (fun _ _ => True) emptied s := .of_exec (by decide +kernel) hs
  obtain ⟨hreturns, hgo⟩ := join_returns_iff emptied s hrun hidle hlock
  exact ⟨s, hs, hpending, hreturns.mpr hthreads, hgo.mpr hthreads⟩

/-- `ThreadPool::new(1)` and `join`: worker `0` sleeps, and `join` waits for it with its handle. -/
theorem new_pool_join_deadlocks :
    ∃ s t, machine.exec fresh [.grow] = some s ∧ s.outside = [] ∧
      machine.exec s [.join, .join] = some t ∧ t.outside = [] ∧ (∀ l, step t l = none) ∧
      t.join = .waiting 0 ∧ 0 ∈ t.join.held := by
  obtain ⟨s, hs, houtside, hquiet⟩ : ∃ s, machine.exec fresh [.grow] = some s ∧ s.outside = [] ∧
      ((machine.exec s [.join, .join]).any fun t => Quiet t ∧ t.join = .waiting 0) = true :=
    Machine.exec_ends (by decide +kernel)
  obtain ⟨t, ht, hquiet, hjoin⟩ := Machine.exec_ends hquiet
  exact ⟨s, t, hs, houtside, ht, hquiet.1, hquiet.stuck, hjoin, by simp [hjoin, Join.held]⟩

end

end SendersReceivers.Pool
