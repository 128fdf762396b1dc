import SendersReceivers.Split.Invariant

/-!
# Split/Progress — no deadlock, and no run without end

Whoever holds the completion state can go on, whoever holds the operation state can go on unless it
waits for the completion state, and a thread that holds neither waits for nothing else.  So a state
in which no thread can go on is one in which every thread is done; and as every instruction uses up
some work that a start or a completion has brought in, such a state is reached.
-/

namespace SendersReceivers.Split

open Machinery

variable {Op P V E : Type} [DecidableEq Op] {send : Bool} {s t : State Op P V E} {i : ℕ}
  {ins : Instr Op P V E} {k : List (Instr Op P V E)}

/-! ## Quiet states -/

omit [DecidableEq Op] in
/-- Only a locking instruction can be blocked. -/
theorem exec_isSome (hstate : ins ≠ .lockState) (hop : ins ≠ .lockOp) :
    exec send s i k ins ≠ none := by
  cases ins with
  | lockState => exact absurd rfl hstate
  | lockOp => exact absurd rfl hop
  | check o => simp only [exec]; split <;> simp
  | takeOp => simp only [exec]; split <;> simp
  | assign sig => simp only [exec]; split <;> simp
  | invoke o => simp only [exec]; split <;> simp
  | _ => simp [exec]

omit [DecidableEq Op] in
/-- A free lock blocks nobody. -/
theorem lock_free (poisoned : Bool) : lock send i none poisoned ≠ .blocked := by
  cases poisoned <;> simp [lock]

/-- The next instruction of a thread in a quiet state is blocked. -/
theorem Quiet.blocked (hq : Quiet send s) (hi : s.threads[i]? = some (ins :: k)) :
    exec send s i k ins = none := by
  simpa [step, hi] using hq i

/-- In a quiet state nobody holds the completion state. -/
theorem Quiet.stateLock (hq : Quiet send s) (hf : Fitted s) : s.stateLock = none := by
  by_contra hne
  obtain ⟨j, hj⟩ := Option.ne_none_iff_exists'.mp hne
  have hfit := hf j
  cases hcode : codeAt s.threads j with
  | nil => simp [hcode, hj, Fits] at hfit
  | cons ins k =>
      rw [hcode] at hfit
      refine exec_isSome ?_ ?_ (hq.blocked (getElem?_of_codeAt hcode)) <;> rintro rfl <;>
        simp [Fits, hj] at hfit

/-- **A quiet state is one in which every thread is done.** -/
theorem Quiet.done (hq : Quiet send s) (hf : Fitted s) : ∀ code ∈ s.threads, code = [] := by
  have hstate := hq.stateLock hf
  have hlock (j : ℕ) (k : List (Instr Op P V E)) : s.threads[j]? ≠ some (.lockState :: k) := by
    intro hj
    have := hq.blocked hj
    simp only [exec, hstate] at this
    split at this
    · simp at this
    · exact lock_free _ ‹_›
    · simp at this
  have hop : s.opLock = none := by
    by_contra hne
    obtain ⟨j, hj⟩ := Option.ne_none_iff_exists'.mp hne
    have hfit := hf j
    cases hcode : codeAt s.threads j with
    | nil => simp [hcode, hj, Fits] at hfit
    | cons ins k =>
        rw [hcode] at hfit
        refine exec_isSome ?_ ?_ (hq.blocked (getElem?_of_codeAt hcode))
        · rintro rfl
          exact hlock j k (getElem?_of_codeAt hcode)
        · rintro rfl
          simp [Fits, hj] at hfit
  intro code hcode
  obtain ⟨j, hj⟩ := List.mem_iff_getElem?.mp hcode
  cases code with
  | nil => rfl
  | cons ins k =>
      refine (exec_isSome ?_ ?_ (hq.blocked hj)).elim
      · rintro rfl
        exact hlock j k hj
      · rintro rfl
        have := hq.blocked hj
        simp only [exec, hop] at this
        split at this
        · simp at this
        · exact lock_free _ ‹_›
        · simp at this

/-- And the other way round. -/
theorem quiet_of_done (hdone : ∀ code ∈ s.threads, code = []) : Quiet send s := by
  intro i
  cases hi : s.threads[i]? with
  | none => simp [step, hi]
  | some code =>
      obtain rfl := hdone code (List.mem_of_getElem? hi)
      simp [step, hi]

/-- Nothing is left to count in the threads of a quiet state. -/
theorem Quiet.total_eq_zero (hq : Quiet send s) (hf : Fitted s) (w : Instr Op P V E → ℕ) :
    total w s.threads = 0 :=
  Machinery.total_eq_zero w (hq.done hf)

/-! ## Work -/

/-- The work an instruction stands for, that of what it puts in place included. -/
def work : Instr Op P V E → ℕ
  | .check _ => 12
  | .takeOp => 2
  | .assign _ => 2
  | .invoke _ => 3
  | .setSignal _ _ => 2
  | _ => 1

/-- The work left: a queued receiver will be invoked. -/
def State.work (s : State Op P V E) : ℕ := total Split.work s.threads + 6 * s.receivers.length

/-- The work that was ever brought in. -/
def State.brought (s : State Op P V E) : ℕ := 14 * s.started.length + 4 * s.upstream.calls

/-- One for a label that is an instruction of a thread. -/
def Label.isRun : Label Op P V E → ℕ
  | .run _ => 1
  | _ => 0

omit [DecidableEq Op] in
@[simp] theorem weight_work_invokes (ops : List Op) :
    weight work (ops.flatMap ReceiverWrapper.invoke : List (Instr Op P V E)) = 6 * ops.length := by
  induction ops with
  | nil => rfl
  | cons o ops ih =>
      simp [ReceiverWrapper.invoke, work, ih]
      omega

omit [DecidableEq Op] in
theorem weight_work_drops (k : List (Instr Op P V E)) :
    weight work (k.filter Instr.isDrop) ≤ weight work k := by
  induction k with
  | nil => rfl
  | cons ins k ih =>
      rw [List.filter_cons]
      split
      · simpa using ih
      · simp only [weight_cons]
        omega

omit [DecidableEq Op] in
/-- Unwinding runs fewer instructions than were left. -/
theorem work_unwind (send : Bool) (hi : s.threads[i]? = some (ins :: k))
    (k' : List (Instr Op P V E)) (hk : k'.filter Instr.isDrop = k.filter Instr.isDrop) :
    (s.unwind send i k').work + work ins ≤ s.work := by
  have hset := total_set work hi (k.filter Instr.isDrop)
  have hle := weight_work_drops k
  simp only [State.work, State.unwind, weight_cons, hk] at hset ⊢
  omega

omit [DecidableEq Op] in
theorem work_release : s.release.work ≤ s.work := by
  unfold State.release State.work
  split
  · simp
  · exact le_rfl

omit [DecidableEq Op] in
/-- Moving on uses up the difference. -/
theorem work_goto (hi : s.threads[i]? = some (ins :: k)) (t : State Op P V E)
    (code : List (Instr Op P V E)) (spawned : List (List (Instr Op P V E)))
    (ht : t.threads = s.threads)
    (hlt : weight work code + total work spawned + 6 * t.receivers.length + 1 ≤
      work ins + 6 * s.receivers.length) : (t.goto i (code ++ k) spawned).work + 1 ≤ s.work := by
  have hgoto := total_goto work hi code spawned
  simp only [State.work, State.goto, ht]
  omega

omit [DecidableEq Op] in
/-- The same, with the queue as it was. -/
theorem work_move (hi : s.threads[i]? = some (ins :: k)) (t : State Op P V E)
    (code : List (Instr Op P V E)) (spawned : List (List (Instr Op P V E)))
    (ht : t.threads = s.threads ∧ t.receivers = s.receivers)
    (hlt : weight work code + total work spawned < work ins) :
    (t.goto i (code ++ k) spawned).work + 1 ≤ s.work :=
  work_goto hi t code spawned ht.1 (by rw [ht.2]; omega)

omit [DecidableEq Op] in
/-- **An instruction uses up work.** -/
theorem work_exec (hi : s.threads[i]? = some (ins :: k)) (hs : exec send s i k ins = some t) :
    t.work + 1 ≤ s.work := by
  cases ins with
  | lockState =>
      simp only [exec] at hs
      split at hs
      · obtain rfl := Option.some.inj hs
        exact work_move hi _ [] [] ⟨rfl, rfl⟩ (by simp [work])
      · simp at hs
      · obtain rfl := Option.some.inj hs
        exact work_unwind (s := { s with panics := _ }) send hi k rfl
  | lockOp =>
      simp only [exec] at hs
      split at hs
      · obtain rfl := Option.some.inj hs
        exact work_move hi _ [] [] ⟨rfl, rfl⟩ (by simp [work])
      · simp at hs
      · obtain rfl := Option.some.inj hs
        exact work_unwind (s := { s with panics := _ }) send hi k rfl
  | check o =>
      simp only [exec] at hs
      split at hs
      · obtain rfl := Option.some.inj hs
        exact work_move hi _ [.unlockState] _ ⟨rfl, rfl⟩ (by simp [work])
      · obtain rfl := Option.some.inj hs
        exact work_move hi _ [.setSignal o _, .unlockState] [] ⟨rfl, rfl⟩ (by simp [work])
      · obtain rfl := Option.some.inj hs
        exact work_goto hi _ _ [] rfl (by simp [OpStateWrapper.ensureStarted, work]; omega)
  | takeOp =>
      simp only [exec] at hs
      split at hs
      · obtain rfl := Option.some.inj hs
        exact work_move hi _ [.upstreamStart] [] ⟨rfl, rfl⟩ (by simp [work])
      · obtain rfl := Option.some.inj hs
        exact work_move hi _ [] [] ⟨rfl, rfl⟩ (by simp [work])
  | assign sig =>
      simp only [exec] at hs
      split at hs
      · obtain rfl := Option.some.inj hs
        refine work_goto hi _ _ [] rfl ?_
        simp only [work, weight_cons, weight_work_invokes, total_nil, List.length_nil]
        omega
      · obtain rfl := Option.some.inj hs
        exact (Nat.le_succ _).trans (work_unwind (s := { s with panics := _ }) send hi k rfl)
  | invoke o =>
      simp only [exec] at hs
      split at hs
      · obtain rfl := Option.some.inj hs
        exact work_move hi _ [.setSignal o _] [] ⟨rfl, rfl⟩ (by simp [work])
      · obtain rfl := Option.some.inj hs
        exact (Nat.le_add_right _ 2).trans
          (work_unwind (s := { s with panics := _ }) send hi (.invoke o :: k) rfl)
  | setSignal o sig =>
      obtain rfl := Option.some.inj hs
      exact work_move hi _ [.inside] [] ⟨rfl, rfl⟩ (by simp [work])
  | dropHandle =>
      obtain rfl := Option.some.inj hs
      have hgoto := total_goto work hi [] []
      have hle := work_release (s := s)
      simp only [State.work, State.goto, release_threads, work, weight_nil, total_nil,
        List.nil_append] at hgoto hle ⊢
      omega
  | unlockState =>
      obtain rfl := Option.some.inj hs
      exact work_move hi _ [] [] ⟨rfl, rfl⟩ (by simp [work])
  | unlockOp =>
      obtain rfl := Option.some.inj hs
      exact work_move hi _ [] [] ⟨rfl, rfl⟩ (by simp [work])
  | upstreamStart =>
      obtain rfl := Option.some.inj hs
      exact work_move hi _ [] [] ⟨rfl, rfl⟩ (by simp [work])
  | inside =>
      obtain rfl := Option.some.inj hs
      exact work_move hi _ [] [] ⟨rfl, rfl⟩ (by simp [work])

/-- Instructions bring in no work. -/
theorem brought_exec (h : Counted s) (hs : exec send s i k ins = some t) :
    t.brought = s.brought := by
  obtain ⟨hstarted, hup | ⟨ho, hup⟩⟩ := exec_frame hs
  · rw [State.brought, State.brought, hstarted, hup]
  · have hidle : s.upstream = .idle := by
      rcases h.starts with ⟨-, -, hidle⟩ | ⟨hf, -, -⟩
      · exact hidle
      · simp [ho] at hf
    rw [State.brought, State.brought, hstarted, hup, hidle]
    rfl

/-- **No label brings in more work than it is allowed, and instructions bring in none.** -/
theorem work_step {l : Label Op P V E} (h : Inv s) (hs : step send s l = some t) :
    l.isRun + t.work + s.brought ≤ s.work + t.brought := by
  have hrelease := work_release (s := s)
  cases l with
  | start o =>
      simp only [step, Option.ite_none_right_eq_some, Option.some.injEq] at hs
      obtain ⟨-, rfl⟩ := hs
      simp [State.work, State.brought, Label.isRun, SplitOpState.start, work]
      omega
  | clone =>
      simp only [step, Option.ite_none_right_eq_some, Option.some.injEq] at hs
      obtain ⟨-, rfl⟩ := hs
      simp [State.work, State.brought, Label.isRun]
  | drop =>
      simp only [step, Option.ite_none_right_eq_some, Option.some.injEq] at hs
      obtain ⟨-, rfl⟩ := hs
      simpa [State.work, State.brought, Label.isRun] using hrelease
  | run i =>
      simp only [step] at hs
      split at hs
      · next ins k hi =>
          have hwork := work_exec hi hs
          have hbrought := brought_exec h.counted hs
          simp only [Label.isRun]
          omega
      · simp at hs
  | nested i o =>
      simp only [step] at hs
      split at hs
      · next k hi =>
          simp only [Option.ite_none_right_eq_some, Option.some.injEq] at hs
          obtain ⟨-, rfl⟩ := hs
          have hgoto := total_goto work hi (SplitOpState.start o ++ [.inside]) []
          simp [SplitOpState.start, work] at hgoto
          simp [State.work, State.brought, Label.isRun, State.goto, SplitOpState.start]
          omega
      · simp at hs
  | panic i =>
      simp only [step] at hs
      split at hs
      · next k hi =>
          obtain rfl := Option.some.inj hs
          have hwork := work_unwind send hi k rfl
          have hbrought : (s.unwind send i k).brought = s.brought := rfl
          simp only [Label.isRun]
          omega
      · simp at hs
  | signal sig =>
      simp only [step, Option.ite_none_right_eq_some, Option.some.injEq] at hs
      obtain ⟨hrunning, rfl⟩ := hs
      simp [State.work, State.brought, Label.isRun, CompletionReceiver.complete, work, hrunning,
        Upstream.calls]
      omega
  | signalInline i sig =>
      simp only [step] at hs
      split at hs
      · next k hi =>
          simp only [Option.ite_none_right_eq_some, Option.some.injEq] at hs
          obtain ⟨hrunning, rfl⟩ := hs
          have hgoto := total_goto work hi (CompletionReceiver.complete sig ++ [.upstreamStart]) []
          simp [CompletionReceiver.complete, work] at hgoto
          simp [State.work, State.brought, Label.isRun, State.goto, CompletionReceiver.complete,
            hrunning, Upstream.calls]
          omega
      · simp at hs
  | die =>
      simp only [step, Option.ite_none_right_eq_some, Option.some.injEq] at hs
      obtain ⟨hrunning, rfl⟩ := hs
      simpa [State.work, State.brought, Label.isRun, State.die, hrunning, Upstream.calls] using
        hrelease
  | dieInline i =>
      simp only [step] at hs
      split at hs
      · next k hi =>
          simp only [Option.ite_none_right_eq_some, Option.some.injEq] at hs
          obtain ⟨hrunning, rfl⟩ := hs
          have hwork : (s.die.unwind send i k).work + 1 ≤ s.release.work :=
            work_unwind (s := s.die) send ((congrArg (·[i]?) die_threads).trans hi) k rfl
          have hbrought : (s.die.unwind send i k).brought = s.brought := by
            simp [State.brought, State.unwind, State.die, hrunning, Upstream.calls]
          simp only [Label.isRun]
          omega
      · simp at hs

/-- **A run makes no more instructions than its starts and its completion account for.** -/
theorem run_le {ls : List (Label Op P V E)} (h : (machine Op P V E send).Run Unguarded ls s) :
    (ls.map Label.isRun).sum ≤ 14 * s.started.length + 4 := by
  have hle := h.cost_le Label.isRun State.work State.brought (Inv.inductive send)
    (by simp [machine, fresh, State.work, State.brought, Upstream.calls])
    (fun s a s' hI _ hs => work_step hI hs)
  have : s.upstream.calls ≤ 1 := by cases s.upstream <;> simp [Upstream.calls]
  simp only [State.brought] at hle
  omega

end SendersReceivers.Split
