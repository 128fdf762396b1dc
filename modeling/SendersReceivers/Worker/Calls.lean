import SendersReceivers.Worker.Tasks

/-!
# Worker/Calls — wake-ups, and what the calls report

A wake-up is there when a blocking poll has something to do, and is not there between two calls when
there is nothing to do; so `run_one(true)` runs a task, or no sender is left.

Two things go wrong.  The notice of the last sender is given once: a blocking call after the one
that has got it sleeps for ever.  And a poll that reports no event is taken for one that found a
task, which `run_one(false)` then asserts.
-/

namespace SendersReceivers.Worker

open Machinery Pool

variable {me : ℕ} {origin : Origin} {as : List Label} {s t : State}

/-! ## The wake-ups -/

/-- **No wake-up is lost, and none is stale.** -/
structure Wakes (me : ℕ) (s : State) : Prop where
  /-- a poll that has something to report does not block -/
  queue : ∀ c, s.phase = .polling c → s.channel.queue ≠ [] → s.channel.waker = true
  /-- a send that completes wakes the worker up -/
  push : ∀ c t, s.phase = .polling c → step me s .push = some t → t.channel.waker = true
  /-- between two calls, a wake-up means that there is a task, or no sender -/
  idle : s.phase = .idle → s.channel.waker = true → (∀ task, s.mutex ≠ .pushing task) →
    s.channel.queue ≠ [] ∨ s.tasks ≠ [] ∨ s.channel.cnt_sender = 0
  /-- `run_one(true)` runs one task, or there is no handle left -/
  results : ∀ r ∈ s.results, r.call = .runOne true →
    r.outcome = .ran true ∧ r.count = 1 ∨
      r.outcome = .ran false ∧ r.count = 0 ∧ s.channel.cnt_sender = 0 ∧ s.handles = 0

theorem Inv.waker_of_polling (h : Inv me s) {c : Call} (hphase : s.phase = .polling c)
    (hqueue : s.channel.queue ≠ []) : s.channel.waker = true :=
  (h.woken (.inl hqueue)).resolve_right (by simp [hphase, Phase.drains])

/-- **Wake-ups are neither lost nor stale**, in every run of a worker, whichever calls are made. -/
theorem worker_wakes (me : ℕ) (origin : Origin) (as : List Label) (s : State)
    (h : (machine me origin).Run (fun _ _ => True) as s) : Wakes me s where
  queue c hphase hqueue := ((Inv.inductive me origin).of_run h).waker_of_polling hphase hqueue
  push c t hphase hs := by
    have hinv := (Inv.inductive me origin).of_run h
    simp only [step] at hs
    split at hs
    next task hmutex =>
      obtain ⟨-, henqueue⟩ := hinv.enqueue_eq hmutex
      have hwaker := (hinv.woken (.inr (by simp [hmutex, Section.sends]))).resolve_right
        (by simp [hphase, Phase.drains])
      obtain rfl := Option.some.inj hs
      simpa only [State.push, henqueue] using hwaker
    next => cases hs
  idle hphase hwaker hmutex := by
    have hinv := (Inv.inductive me origin).of_run h
    by_contra hnone
    simp only [not_or, Decidable.not_not] at hnone
    obtain ⟨hqueue, htasks, hne⟩ := hnone
    have hlive := (hinv.live (Nat.pos_of_ne_zero hne)).1
    have hsends : s.mutex.sends = [] := by
      cases hm : s.mutex with
      | pushing task => exact absurd hm (hmutex task)
      | free => rfl
      | waking => rfl
    simp [State.queued, hqueue, htasks, hsends, hwaker] at hlive
  results r hr hcall := by
    have hinv := (Inv.inductive me origin).of_run h
    rcases hinv.results r hr with hfaithful | rfl
    · unfold Result.Faithful at hfaithful
      split at hfaithful
      next hrun _ => simp [hcall] at hrun
      next did_run_a_task _ ho =>
        cases did_run_a_task with
        | true => exact .inl ⟨ho, hfaithful⟩
        | false =>
            have hzero := hinv.senders_of_told hr (by simp [Result.disconnected, ho])
            exact .inr ⟨ho, hfaithful, hzero, (hinv.drained hzero).1⟩
      next => exact hfaithful.elim
    · simp [Result.failed] at hcall

/-- A task is sent while `run_one(true)` blocks; the next call gets the notice of the last
handle. -/
def twoCalls : List Label :=
  [.call (.runOne true), .execute, .send 0, .push, .poll, .tryRecv, .tryRecv, .runOneTask, .finish,
    .drop, .drop, .wake, .call (.runOne true), .poll, .tryRecv]

theorem twoCalls_wakes :
    ∃ s, (machine 7 .new).Run (fun _ _ => True) twoCalls s ∧
      s.results = [⟨.runOne true, .ran true, 1⟩, ⟨.runOne true, .ran false, 0⟩] ∧ Wakes 7 s := by
  obtain ⟨s, hs, hresults⟩ : ∃ s, (machine 7 .new).exec (fresh 7 .new) twoCalls = some s ∧
      s.results = [⟨.runOne true, .ran true, 1⟩, ⟨.runOne true, .ran false, 0⟩] :=
    Machine.exec_ends (by decide +kernel)
  have hrun : (machine 7 .new).Run (fun _ _ => True) twoCalls s := .of_exec (by decide +kernel) hs
  exact ⟨s, hrun, hresults, worker_wakes 7 .new twoCalls s hrun⟩

/-! ## What a step does to a call -/

/-- The call that the worker is in. -/
def Phase.call : Phase → Option Call
  | .polling c => some c
  | .draining c => some c
  | .ready c => some c
  | .running c => some c
  | .idle => none
  | .exited => none

/-- **What a step does to the current call**, seen from outside: which phase it is in, whether it
finds tasks, and which results there are. -/
inductive Moves (s t : State) : Label → Prop
  /-- a step that is not the worker's -/
  | other {l : Label} : t.phase = s.phase → t.results = s.results →
      (∀ c, s.phase = .ready c → t.tasks = s.tasks) → Moves s t l
  | call (c : Call) : s.phase = .idle → t.phase = .polling c → t.results = s.results →
      Moves s t (.call c)
  | event (c : Call) : s.phase = .polling c → s.channel.waker = true → t.phase = .draining c →
      t.results = s.results → Moves s t .poll
  | noEvent (c : Call) : s.phase = .polling c → s.channel.waker = false → t.phase = .ready c →
      t.tasks = s.tasks → t.results = s.results → Moves s t .poll
  | received (c : Call) : s.phase = .draining c → t.phase = .draining c →
      t.results = s.results → Moves s t .tryRecv
  | drained (c : Call) : s.phase = .draining c → t.phase = .ready c → t.tasks ≠ [] →
      t.results = s.results → Moves s t .tryRecv
  | runs (c : Call) : s.phase = .ready c → s.tasks ≠ [] → t.phase = .running c →
      t.results = s.results → Moves s t .runOneTask
  | fails (c : Call) (r : Result) : s.phase = .ready c → s.tasks = [] → t.phase.call = none →
      t.results = s.results ++ [r] → ¬r.Faithful → Moves s t .runOneTask
  /-- `run` polls once more -/
  | again : s.phase = .running .run → t.phase = .polling .run → t.results = s.results →
      Moves s t .finish
  | leaves {l : Label} (c : Call) (r : Result) : s.phase.call = some c → (∀ c, s.phase ≠ .ready c) →
      t.phase.call = none → t.results = s.results ++ [r] → r.Faithful → Moves s t l

/-- What a call returns when no sender is left. -/
def Call.disconnected : Call → Outcome
  | .run => .finished
  | .runOne _ => .ran false

theorem leave_call (s : State) (c : Call) (o : Outcome) :
    (s.leave c o).phase.call = none ∧ (s.leave c o).results = s.results ++ [⟨c, o, s.count⟩] := by
  cases c <;> exact ⟨rfl, rfl⟩

theorem moves_poll {c : Call} (hphase : s.phase = .polling c) (hs : poll s c = some t) :
    Moves s t .poll := by
  unfold poll at hs
  split at hs
  next hwaker =>
    obtain rfl := Option.some.inj hs
    exact .event c hphase hwaker rfl rfl
  next hwaker =>
    simp only [Option.ite_none_left_eq_some, Option.some.injEq] at hs
    obtain ⟨-, rfl⟩ := hs
    exact .noEvent c hphase (Bool.eq_false_iff.mpr hwaker) rfl rfl rfl

/-- Without tasks and senders, a poll ends the call. -/
theorem tryRecv_drained {c : Call} (hqueue : s.channel.queue = []) (htasks : s.tasks = [])
    (hzero : s.channel.cnt_sender = 0) : tryRecv s c = s.leave c c.disconnected := by
  cases c <;> simp [tryRecv, Call.disconnected, Channel.tryPop, hqueue, htasks, hzero]

theorem Inv.moves_tryRecv (h : Inv me s) {c : Call} (hphase : s.phase = .draining c)
    (hfree : s.mutex = .free) : Moves s (Worker.tryRecv s c) .tryRecv := by
  have hready : ∀ c, s.phase ≠ .ready c := fun c' => by simp [hphase]
  have hcall : s.phase.call = some c := by rw [hphase]; rfl
  cases hqueue : s.channel.queue with
  | cons task queue =>
      simp only [Worker.tryRecv, Channel.tryPop, hqueue]
      exact .received c hphase hphase rfl
  | nil =>
      by_cases hnil : s.tasks = []
      · have hzero : s.channel.cnt_sender = 0 := by
          by_contra hne
          have := (h.live (Nat.pos_of_ne_zero hne)).1
          simp [hphase, Phase.due, State.queued, hfree, Section.sends, hqueue, hnil] at this
        rw [tryRecv_drained hqueue hnil hzero]
        obtain ⟨hout, hresults⟩ := leave_call s c _
        refine .leaves c _ hcall hready hout hresults ?_
        cases c with
        | run => trivial
        | runOne block => exact (h.count block).1 (.inr (.inl hphase))
      · have hmove : Worker.tryRecv s c = { s with phase := .ready c } := by
          simp [Worker.tryRecv, Channel.tryPop, hqueue, List.isEmpty_eq_false_iff.mpr hnil]
        rw [hmove]
        exact .drained c hphase rfl hnil rfl

theorem Inv.moves_runOneTask (h : Inv me s) {c : Call} (hphase : s.phase = .ready c) :
    Moves s (Worker.runOneTask me s c) .runOneTask := by
  cases htasks : s.tasks with
  | cons task tasks =>
      have hmine : task.thread_id = me := h.mine task (by simp [htasks])
      simp only [Worker.runOneTask, htasks, if_pos hmine]
      exact .runs c hphase (by simp [htasks]) rfl rfl
  | nil =>
      simp only [Worker.runOneTask, htasks]
      obtain ⟨hout, hresults⟩ := leave_call s c _
      refine .fails c _ hphase htasks hout hresults ?_
      cases c <;> exact id

theorem Inv.moves_finish (h : Inv me s) {c : Call} (hphase : s.phase = .running c) :
    Moves s (Worker.finish s c) .finish := by
  cases c with
  | run => exact .again hphase rfl rfl
  | runOne block =>
      exact .leaves (.runOne block) _ (by rw [hphase]; rfl) (fun c => by simp [hphase]) rfl rfl
        ((h.count block).2 hphase)

/-- **What a step does to the current call.** -/
theorem Inv.moves {l : Label} (h : Inv me s) (hs : Worker.step me s l = some t) : Moves s t l := by
  cases l with
  | clone =>
      simp only [Worker.step, Option.ite_none_right_eq_some, Option.some.injEq] at hs
      obtain ⟨-, rfl⟩ := hs
      exact .other rfl rfl fun _ _ => rfl
  | drop =>
      simp only [Worker.step, Option.ite_none_right_eq_some, Option.some.injEq] at hs
      obtain ⟨-, rfl⟩ := hs
      unfold State.dropSender
      split <;> exact .other rfl rfl fun _ _ => rfl
  | wake =>
      simp only [Worker.step, Option.ite_none_right_eq_some, Option.some.injEq] at hs
      obtain ⟨-, rfl⟩ := hs
      exact .other rfl rfl fun _ _ => rfl
  | execute =>
      simp only [Worker.step, Option.ite_none_right_eq_some, Option.some.injEq] at hs
      obtain ⟨-, rfl⟩ := hs
      exact .other rfl rfl fun _ _ => rfl
  | send i =>
      simp only [Worker.step, Option.ite_none_right_eq_some, Option.map_eq_some_iff] at hs
      obtain ⟨-, task, -, rfl⟩ := hs
      exact .other rfl rfl fun _ _ => rfl
  | push =>
      simp only [Worker.step] at hs
      split at hs
      next task _ =>
        obtain rfl := Option.some.inj hs
        unfold State.push
        split <;> exact .other rfl rfl fun _ _ => rfl
      next => cases hs
  | executeLocal =>
      simp only [Worker.step] at hs
      split at hs
      next hphase =>
        simp only [Option.ite_none_right_eq_some, Option.some.injEq] at hs
        obtain ⟨-, rfl⟩ := hs
        exact .other rfl rfl fun c hc => by simp [hphase] at hc
      next hphase =>
        simp only [Option.ite_none_right_eq_some, Option.some.injEq] at hs
        obtain ⟨-, rfl⟩ := hs
        exact .other rfl rfl fun c hc => by simp [hphase] at hc
      next => cases hs
  | call c =>
      simp only [Worker.step, Option.ite_none_right_eq_some, Option.some.injEq] at hs
      obtain ⟨hphase, rfl⟩ := hs
      exact .call c hphase rfl rfl
  | poll =>
      simp only [Worker.step] at hs
      split at hs
      next c hphase => exact moves_poll hphase hs
      next => cases hs
  | tryRecv =>
      simp only [Worker.step] at hs
      split at hs
      next c hphase =>
        simp only [Option.ite_none_right_eq_some, Option.some.injEq] at hs
        obtain ⟨hfree, rfl⟩ := hs
        exact h.moves_tryRecv hphase hfree
      next => cases hs
  | runOneTask =>
      simp only [Worker.step] at hs
      split at hs
      next c hphase => exact Option.some.inj hs ▸ h.moves_runOneTask hphase
      next => cases hs
  | finish =>
      simp only [Worker.step] at hs
      split at hs
      next c hphase => exact Option.some.inj hs ▸ h.moves_finish hphase
      next => cases hs

/-! ## The notice of the last sender -/

/-- The worker has entered a poll without timeout that nothing will ever end: no sender is left, no
task is queued, and no wake-up is set or about to be. -/
def Stuck (s : State) : Prop :=
  ∃ c, s.phase = .polling c ∧ c.blocks s = true ∧ s.channel.cnt_sender = 0 ∧
    s.channel.queue = [] ∧ s.channel.waker = false ∧ s.mutex = .free

/-- Once no sender is left, the call that the worker is in returns. -/
def Returns (me : ℕ) (origin : Origin) (s : State) : Prop :=
  s.channel.cnt_sender = 0 →
    ∃ as t, (machine me origin).exec s as = some t ∧ t.phase.call = none

/-- **The condition under which no call blocks for ever**: a call that may block is only made while
no call has returned `Ok(false)`. -/
def Untold (s : State) : Label → Prop
  | .call c => c = .runOne false ∨ s.told = false
  | _ => True

instance (s : State) (l : Label) : Decidable (Untold s l) := by
  cases l <;> unfold Untold <;> infer_instance

/-- A call that may block has begun before the notice was given. -/
def Waits (s : State) : Prop := ∀ c, s.phase.call = some c → c = .runOne false ∨ s.told = false

theorem told_of_results (hresults : t.results = s.results) : t.told = s.told := by
  rw [State.told, State.told, hresults]

theorem Waits.of_eq (hw : Waits s) (hcall : t.phase.call = s.phase.call)
    (hresults : t.results = s.results) : Waits t := by
  intro c hc
  rw [told_of_results hresults]
  exact hw c (hcall ▸ hc)

theorem Waits.step {l : Label} (hw : Waits s) (hu : Untold s l) (hm : Moves s t l) : Waits t := by
  have hnone : t.phase.call = none → Waits t := fun hout c hc => by simp [hout] at hc
  cases hm with
  | other hphase hresults _ => exact hw.of_eq (by rw [hphase]) hresults
  | call c _ hphase hresults =>
      intro c' hc'
      rw [hphase] at hc'
      obtain rfl : c = c' := Option.some.inj hc'
      rw [told_of_results hresults]
      exact hu
  | event c hs _ ht hresults => exact hw.of_eq (by rw [hs, ht]; rfl) hresults
  | noEvent c hs _ ht _ hresults => exact hw.of_eq (by rw [hs, ht]; rfl) hresults
  | received c hs ht hresults => exact hw.of_eq (by rw [hs, ht]) hresults
  | drained c hs ht _ hresults => exact hw.of_eq (by rw [hs, ht]; rfl) hresults
  | runs c hs _ ht hresults => exact hw.of_eq (by rw [hs, ht]; rfl) hresults
  | fails c r _ _ hout _ _ => exact hnone hout
  | again hs ht hresults => exact hw.of_eq (by rw [hs, ht]; rfl) hresults
  | leaves c r _ _ hout _ _ => exact hnone hout

theorem Waits.inductive (me : ℕ) (origin : Origin) :
    (machine me origin).Inductive Untold (fun s => Inv me s ∧ Waits s) where
  init := ⟨(Inv.inductive me origin).init, fun _ _ => .inr rfl⟩
  step _ _ _ h hu hs := ⟨h.1.step hs, h.2.step hu (h.1.moves hs)⟩

/-- Without a sender, the mutex is free, or about to give the notice. -/
theorem Inv.mutex_of_zero (h : Inv me s) (hzero : s.channel.cnt_sender = 0) :
    s.mutex = .free ∨ s.mutex = .waking := by
  have hsends := (h.drained hzero).2.2.1
  cases hm : s.mutex with
  | free => exact .inl rfl
  | pushing task => simp [hm, Section.sends] at hsends
  | waking => exact .inr rfl

/-- A blocked worker has had its notice. -/
theorem Inv.told_of_stuck (h : Inv me s) (hs : Stuck s) : s.told = true := by
  obtain ⟨c, hphase, -, hzero, -, hwaker, hfree⟩ := hs
  have hdead := h.dead hzero
  simpa [hphase, hwaker, hfree, Section.wakes, Phase.drains] using hdead

/-- A blocked worker is blocked for ever: there is no step at all. -/
theorem Inv.no_step_of_stuck (h : Inv me s) (hs : Stuck s) (l : Label) :
    Worker.step me s l = none := by
  obtain ⟨c, hphase, hblocks, hzero, -, hwaker, hfree⟩ := hs
  obtain ⟨hhandles, hsending, -⟩ := h.drained hzero
  cases l <;> simp [Worker.step, hphase, hfree, hhandles, hsending, Worker.poll, hwaker, hblocks]

/-- After the notice, a call that may block does. -/
theorem Inv.stuck_of_call (h : Inv me s) {c : Call}
    (hc : c ≠ .runOne false) (htold : s.told = true) :
    Stuck { s with phase := .polling c, count := 0 } := by
  have hzero : s.channel.cnt_sender = 0 := by
    by_contra hne
    simp [(h.live (Nat.pos_of_ne_zero hne)).2] at htold
  obtain ⟨-, -, -, hqueue, htasks⟩ := h.drained hzero
  have hdead := h.dead hzero
  simp only [htold, Bool.toNat_true] at hdead
  have hblocks : c.blocks { s with phase := .polling c, count := 0 } = true := by
    match c, hc with
    | .run, _ => simp [Call.blocks, htasks]
    | .runOne true, _ => simp [Call.blocks, htasks]
  refine ⟨c, rfl, hblocks, hzero, hqueue, ?_, (h.mutex_of_zero hzero).resolve_right ?_⟩
  · cases hw : s.channel.waker with
    | false => rfl
    | true => simp [hw] at hdead
  · intro hw
    simp [hw, Section.wakes] at hdead

/-- How far a call is from its end, once no sender is left. -/
def distance (s : State) : ℕ :=
  s.mutex.wakes +
    match s.phase with
    | .running _ => 3
    | .polling _ => 2
    | .draining _ => 1
    | .ready _ => 1
    | .idle => 0
    | .exited => 0

/-- What is left to do when no sender is: nothing in the queues, and a call that has its notice. -/
structure Ending (me : ℕ) (s : State) : Prop where
  inv : Inv me s
  waits : Waits s
  zero : s.channel.cnt_sender = 0

theorem leave_ends (s : State) (c : Call) (o : Outcome) :
    (s.leave c o).channel.cnt_sender = s.channel.cnt_sender ∧
      distance (s.leave c o) = s.mutex.wakes := by
  cases c <;> exact ⟨rfl, rfl⟩

theorem Ending.step {l : Label} (h : Ending me s) (hs : Worker.step me s l = some t)
    (hu : Untold s l) (hzero : t.channel.cnt_sender = 0) : Ending me t :=
  ⟨h.inv.step hs, h.waits.step hu (h.inv.moves hs), hzero⟩

/-- **Once no sender is left, a call gets closer to its end**, unless there is none. -/
theorem Ending.descends (h : Ending me s) : s.phase.call = none ∨ ∃ l t,
    Worker.step me s l = some t ∧ Ending me t ∧ distance t < distance s := by
  obtain ⟨-, -, -, hqueue, htasks⟩ := h.inv.drained h.zero
  have hdead := h.inv.dead h.zero
  have hmutex := h.inv.mutex_of_zero h.zero
  cases hphase : s.phase with
  | idle => exact .inl rfl
  | exited => exact .inl rfl
  | polling c =>
      refine .inr ?_
      cases hwaker : s.channel.waker with
      | true =>
          have hs : Worker.step me s .poll =
              some { s with
                channel := { s.channel with waker := false }
                phase := .draining c } := by
            simp [Worker.step, hphase, Worker.poll, hwaker]
          refine ⟨_, _, hs, h.step hs trivial h.zero, ?_⟩
          simp [distance, hphase]
      | false =>
          rcases hmutex with hfree | hwaking
          · have hblocks : c.blocks s = false := by
              by_contra hblocks
              have hstuck : Stuck s :=
                ⟨c, hphase, by simpa using hblocks, h.zero, hqueue, hwaker, hfree⟩
              rcases h.waits c (by rw [hphase]; rfl) with rfl | htold
              · exact hblocks rfl
              · exact absurd (h.inv.told_of_stuck hstuck) (by simp [htold])
            have hs : Worker.step me s .poll = some { s with phase := .ready c } := by
              simp [Worker.step, hphase, Worker.poll, hwaker, hblocks]
            refine ⟨_, _, hs, h.step hs trivial h.zero, ?_⟩
            simp [distance, hphase]
          · have hs : Worker.step me s .wake =
                some { s with channel := s.channel.wake, mutex := .free } := by
              simp [Worker.step, hwaking]
            refine ⟨_, _, hs, h.step hs trivial h.zero, ?_⟩
            simp [distance, hphase, hwaking, Section.wakes]
  | draining c =>
      have hfree : s.mutex = .free := hmutex.resolve_right fun hw => by
        simp only [hw, hphase, Section.wakes, Phase.drains] at hdead
        omega
      have hs : Worker.step me s .tryRecv = some (s.leave c c.disconnected) := by
        simp [Worker.step, hphase, hfree, tryRecv_drained hqueue htasks h.zero]
      obtain ⟨hcnt, hdistance⟩ := leave_ends s c c.disconnected
      refine .inr ⟨_, _, hs, h.step hs trivial (hcnt.trans h.zero), ?_⟩
      rw [hdistance, distance, hphase]
      exact Nat.lt_succ_self _
  | ready c =>
      have hs : Worker.step me s .runOneTask =
          some (s.leave c (.panicked "assertion failed: did_run_a_task")) := by
        simp [Worker.step, hphase, Worker.runOneTask, htasks]
      obtain ⟨hcnt, hdistance⟩ := leave_ends s c (.panicked "assertion failed: did_run_a_task")
      refine .inr ⟨_, _, hs, h.step hs trivial (hcnt.trans h.zero), ?_⟩
      rw [hdistance, distance, hphase]
      exact Nat.lt_succ_self _
  | running c =>
      have hs : Worker.step me s .finish = some (Worker.finish s c) := by
        simp [Worker.step, hphase]
      have hzero : (Worker.finish s c).channel.cnt_sender = 0 := by
        cases c <;> exact h.zero
      refine .inr ⟨_, _, hs, h.step hs trivial hzero, ?_⟩
      cases c with
      | run => simp [Worker.finish, distance, hphase]
      | runOne block => simp [Worker.finish, distance, hphase, State.leave]

/-- **A worker blocks for ever exactly after its notice was given**: in a run of a worker, whichever
calls are made, none is stuck in a poll, and all return once no sender is left, if and only if no
call that may block is made after one has returned `Ok(false)`. -/
theorem worker_never_blocks (me : ℕ) (origin : Origin) (as : List Label) (s : State)
    (h : (machine me origin).Run (fun _ _ => True) as s) :
    ¬Stuck s ∧ Returns me origin s ↔ (machine me origin).Run Untold as s := by
  have hgood : ∀ ⦃as s⦄, (machine me origin).Run Untold as s → ¬Stuck s := by
    intro as s hrun hstuck
    obtain ⟨hinv, hwaits⟩ := (Waits.inductive me origin).of_run hrun
    have htold := hinv.told_of_stuck hstuck
    obtain ⟨c, hphase, hblocks, -⟩ := hstuck
    rcases hwaits c (by rw [hphase]; rfl) with rfl | hfalse
    · cases hblocks
    · exact absurd htold (by simp [hfalse])
  have hiff : ¬Stuck s ↔ (machine me origin).Run Untold as s := by
    refine h.good_iff (Inv.inductive me origin) ?_ ?_ hgood
    · intro s l t hinv hstuck hs
      exact absurd ((hinv.no_step_of_stuck hstuck l).symm.trans hs) (by simp)
    · intro s l t hinv hu hs
      cases l <;> first | exact absurd trivial hu | skip
      next c =>
        obtain ⟨hc, htold⟩ := not_or.mp hu
        simp only [machine, Worker.step, Option.ite_none_right_eq_some, Option.some.injEq] at hs
        obtain ⟨-, rfl⟩ := hs
        exact hinv.stuck_of_call hc (by simpa using htold)
  refine ⟨fun hs => hiff.mp hs.1, fun hrun => ⟨hgood hrun, fun hzero => ?_⟩⟩
  obtain ⟨hinv, hwaits⟩ := (Waits.inductive me origin).of_run hrun
  have hending : Ending me s := ⟨hinv, hwaits, hzero⟩
  obtain ⟨as, t, hexec, -, hend⟩ :=
    Machine.exec_descends (M := machine me origin) distance (fun _ hs => hs.descends) hending
  exact ⟨as, t, hexec, hend⟩

theorem twoCalls_returns :
    ∃ s, (machine 7 .new).Run Untold twoCalls s ∧ s.channel.cnt_sender = 0 ∧
      ¬Stuck s ∧ Returns 7 .new s := by
  obtain ⟨s, hs, hzero⟩ : ∃ s, (machine 7 .new).exec (fresh 7 .new) twoCalls = some s ∧
      s.channel.cnt_sender = 0 := Machine.exec_ends (by decide +kernel)
  have hrun : (machine 7 .new).Run (fun _ _ => True) twoCalls s := .of_exec (by decide +kernel) hs
  have hrun' : (machine 7 .new).Run Untold twoCalls s := .of_exec (by decide +kernel) hs
  exact ⟨s, hrun', hzero, (worker_never_blocks 7 .new twoCalls s hrun).mpr hrun'⟩

/-- The last handle goes away, `run_one(true)` returns `Ok(false)`, and `run` is called. -/
def toldTwice : List Label :=
  [.drop, .wake, .call (.runOne true), .poll, .tryRecv, .call .run]

/-- `run` blocks for ever. -/
theorem toldTwice_blocks :
    ∃ s, (machine 7 .new).Run (fun _ _ => True) toldTwice s ∧ s.phase = .polling .run ∧
      s.results = [⟨.runOne true, .ran false, 0⟩] ∧ Stuck s ∧ ∀ l, Worker.step 7 s l = none := by
  obtain ⟨s, hs, hphase, hresults, hzero, hqueue, htasks, hwaker, hfree⟩ :
      ∃ s, (machine 7 .new).exec (fresh 7 .new) toldTwice = some s ∧ s.phase = .polling .run ∧
        s.results = [⟨.runOne true, .ran false, 0⟩] ∧ s.channel.cnt_sender = 0 ∧
        s.channel.queue = [] ∧ s.tasks = [] ∧ s.channel.waker = false ∧ s.mutex = .free :=
    Machine.exec_ends (by decide +kernel)
  have hrun : (machine 7 .new).Run (fun _ _ => True) toldTwice s := .of_exec (by decide +kernel) hs
  have hstuck : Stuck s :=
    ⟨.run, hphase, by simp [Call.blocks, htasks], hzero, hqueue, hwaker, hfree⟩
  exact ⟨s, hrun, hphase, hresults, hstuck,
    ((Inv.inductive 7 .new).of_run hrun).no_step_of_stuck hstuck⟩

/-! ## What `run_one` reports -/

/-- **The calls report what they did**: an assertion of a task finds one, and no call has ended
otherwise than it says. -/
structure Reports (s : State) : Prop where
  asserts : ∀ c, s.phase = .ready c → s.tasks ≠ []
  results : ∀ r ∈ s.results, r.Faithful

/-- **The condition under which the assertion holds**: a poll of `run_one(false)` has a task in the
local queue, or a wake-up. -/
def Fed (s : State) : Label → Prop
  | .poll => s.phase = .polling (.runOne false) → s.tasks ≠ [] ∨ s.channel.waker = true
  | _ => True

instance (s : State) (l : Label) : Decidable (Fed s l) := by
  cases l <;> unfold Fed <;> infer_instance

theorem Reports.step {l : Label} (hr : Reports s) (h : Inv me t) (hf : Fed s l)
    (hm : Moves s t l) : Reports t := by
  have hresults : t.results = s.results → ∀ r ∈ t.results, r.Faithful := fun heq r hmem =>
    hr.results r (heq ▸ hmem)
  have hready : (∀ c, t.phase ≠ .ready c) → ∀ c, t.phase = .ready c → t.tasks ≠ [] :=
    fun hne c hc => absurd hc (hne c)
  cases hm with
  | other hphase heq htasks =>
      refine ⟨fun c hc => ?_, hresults heq⟩
      rw [hphase] at hc
      rw [htasks c hc]
      exact hr.asserts c hc
  | call c _ ht heq => exact ⟨hready (by simp [ht]), hresults heq⟩
  | event c _ _ ht heq => exact ⟨hready (by simp [ht]), hresults heq⟩
  | noEvent c hs hwaker ht htasks heq =>
      refine ⟨fun c' hc' => ?_, hresults heq⟩
      rcases h.ready c' hc' with hne | rfl
      · exact hne
      · obtain rfl : c = .runOne false := by simpa [ht] using hc'
        rw [htasks]
        exact (hf hs).resolve_right (by simp [hwaker])
  | received c _ ht heq => exact ⟨hready (by simp [ht]), hresults heq⟩
  | drained c _ _ hne heq => exact ⟨fun _ _ => hne, hresults heq⟩
  | runs c _ _ ht heq => exact ⟨hready (by simp [ht]), hresults heq⟩
  | fails c r hs hnil _ _ _ => exact absurd hnil (hr.asserts c hs)
  | again _ ht heq => exact ⟨hready (by simp [ht]), hresults heq⟩
  | leaves c r _ _ hout heq hfaithful =>
      refine ⟨hready fun c hc => by simp [hc, Phase.call] at hout, fun r' hr' => ?_⟩
      rw [heq] at hr'
      rcases List.mem_append.mp hr' with hold | hnew
      · exact hr.results r' hold
      · exact List.mem_singleton.mp hnew ▸ hfaithful

/-- What went wrong stays wrong. -/
theorem not_reports_step {l : Label} (hr : ¬Reports s) (hm : Moves s t l) : ¬Reports t := by
  refine fun ht => hr ⟨fun c hc hnil => ?_, fun r hmem => ?_⟩
  · cases hm with
    | other hphase _ htasks => exact ht.asserts c (by rw [hphase, hc]) (by rw [htasks c hc, hnil])
    | call _ hs _ _ => simp [hs] at hc
    | event _ hs _ _ _ => simp [hs] at hc
    | noEvent _ hs _ _ _ _ => simp [hs] at hc
    | received _ hs _ _ => simp [hs] at hc
    | drained _ hs _ _ _ => simp [hs] at hc
    | runs _ _ hne _ _ => exact hne hnil
    | fails _ r _ _ _ heq hunfaithful =>
        exact hunfaithful (ht.results r (heq ▸ List.mem_append_right _ (.head _)))
    | again hs _ _ => simp [hs] at hc
    | leaves _ _ _ hne _ _ _ => exact hne c hc
  · suffices hsub : s.results ⊆ t.results from ht.results r (hsub hmem)
    cases hm with
    | other _ heq _ => exact heq ▸ List.Subset.refl _
    | call _ _ _ heq => exact heq ▸ List.Subset.refl _
    | event _ _ _ _ heq => exact heq ▸ List.Subset.refl _
    | noEvent _ _ _ _ _ heq => exact heq ▸ List.Subset.refl _
    | received _ _ _ heq => exact heq ▸ List.Subset.refl _
    | drained _ _ _ _ heq => exact heq ▸ List.Subset.refl _
    | runs _ _ _ _ heq => exact heq ▸ List.Subset.refl _
    | fails _ _ _ _ _ heq _ => exact heq ▸ List.subset_append_left _ _
    | again _ _ heq => exact heq ▸ List.Subset.refl _
    | leaves _ _ _ _ _ heq _ => exact heq ▸ List.subset_append_left _ _

/-- A poll of `run_one(false)` that reports no event is taken for one that found a task. -/
theorem not_reports_of_unfed {l : Label} (hf : ¬Fed s l) (hs : Worker.step me s l = some t) :
    ¬Reports t := by
  cases l <;> first | exact absurd trivial hf | skip
  simp only [Fed, Classical.not_imp, not_or, Decidable.not_not] at hf
  obtain ⟨hphase, htasks, hwaker⟩ := hf
  have hwaker : s.channel.waker = false := by simpa using hwaker
  simp only [Worker.step, hphase, Worker.poll, hwaker, Bool.false_eq_true, if_false, Call.blocks,
    Bool.false_and, Option.some.injEq] at hs
  obtain rfl := hs
  exact fun hr => hr.asserts _ rfl htasks

/-- **`run_one` reports faithfully exactly while it is fed**: in a run of a worker, whichever calls
are made, none fails its assertion or misreports what it ran, if and only if no `run_one(false)`
polls without a task in the local queue and without a wake-up. -/
theorem worker_reports (me : ℕ) (origin : Origin) (as : List Label) (s : State)
    (h : (machine me origin).Run (fun _ _ => True) as s) :
    Reports s ↔ (machine me origin).Run Fed as s := by
  have hfed : (machine me origin).Inductive Fed (fun s => Inv me s ∧ Reports s) :=
    { init := ⟨(Inv.inductive me origin).init, by
        cases origin <;> exact ⟨fun _ hc => (nomatch hc), fun _ hr => (nomatch hr)⟩⟩
      step := fun s l t hs hf hstep =>
        have hinv := hs.1.step hstep
        ⟨hinv, hs.2.step hinv hf (hs.1.moves hstep)⟩ }
  have hiff : ¬¬Reports s ↔ (machine me origin).Run Fed as s :=
    @Machine.Run.good_iff _ _ _ Fed (Inv me) as s (fun s => ¬Reports s) h (Inv.inductive me origin)
      (fun s l t hinv hbad hs => not_reports_step hbad (hinv.moves hs))
      (fun s l t hinv hf hs => not_reports_of_unfed hf hs)
      fun as s hrun => not_not.mpr (hfed.of_run hrun).2
  exact not_not.symm.trans hiff

theorem twoCalls_reports :
    ∃ s, (machine 7 .new).Run Fed twoCalls s ∧ s.results.length = 2 ∧ Reports s := by
  obtain ⟨s, hs, hlength⟩ : ∃ s, (machine 7 .new).exec (fresh 7 .new) twoCalls = some s ∧
      s.results.length = 2 := Machine.exec_ends (by decide +kernel)
  have hrun : (machine 7 .new).Run (fun _ _ => True) twoCalls s := .of_exec (by decide +kernel) hs
  have hfed : (machine 7 .new).Run Fed twoCalls s := .of_exec (by decide +kernel) hs
  exact ⟨s, hfed, hlength, (worker_reports 7 .new twoCalls s hrun).mpr hfed⟩

/-- `run_one(false)` of a worker that nobody has sent anything to fails its assertion. -/
theorem runOne_panics :
    ∃ s, (machine 7 .new).Run (fun _ _ => True) [.call (.runOne false), .poll, .runOneTask] s ∧
      s.channel.cnt_sender = 1 ∧
      s.results = [⟨.runOne false, .panicked "assertion failed: did_run_a_task", 0⟩] ∧
      ¬Reports s := by
  obtain ⟨s, hs, hcnt, hresults⟩ : ∃ s, (machine 7 .new).exec (fresh 7 .new)
      [.call (.runOne false), .poll, .runOneTask] = some s ∧ s.channel.cnt_sender = 1 ∧
      s.results = [⟨.runOne false, .panicked "assertion failed: did_run_a_task", 0⟩] :=
    Machine.exec_ends (by decide +kernel)
  have hrun : (machine 7 .new).Run (fun _ _ => True)
      [.call (.runOne false), .poll, .runOneTask] s := .of_exec (by decide +kernel) hs
  refine ⟨s, hrun, hcnt, hresults, fun hr => ?_⟩
  exact hr.results ⟨.runOne false, .panicked "assertion failed: did_run_a_task", 0⟩
    (by simp [hresults])

end SendersReceivers.Worker
