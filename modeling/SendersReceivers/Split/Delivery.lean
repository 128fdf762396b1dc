import Mathlib.Data.List.Nodup
import SendersReceivers.Split.Progress

/-!
# Split/Delivery — every started operation is signalled, once, with the same signal

A run may interleave starts, lock operations and the completion of the upstream chain in any order.
As long as nobody panics and no receiver starts a further clone under the guard, nothing is lost
between the check of `start` and the assignment of the signal, no thread waits for itself, and when
every thread is done every started operation has been called with the signal the upstream chain has
delivered.

Under the guard is where the source does not keep this up: `ReceiverWrapper::invoke`, and the
branches of `start` for a completed split, call the receiver while they hold the completion state.
-/

namespace SendersReceivers.Split

open Machinery

variable {Op P V E : Type} [DecidableEq Op] {send : Bool} {s t : State Op P V E} {i : ℕ}
  {ins : Instr Op P V E} {k : List (Instr Op P V E)} {ls : List (Label Op P V E)}

/-- Nobody panics: neither a receiver, nor the upstream chain. -/
def Label.Undisturbed : Label Op P V E → Prop
  | .panic _ => False
  | .die => False
  | .dieInline _ => False
  | _ => True

/-- And no receiver starts a clone at all. -/
def Label.Plain : Label Op P V E → Prop
  | .nested _ _ => False
  | l => l.Undisturbed

instance : DecidablePred (Label.Undisturbed : Label Op P V E → Prop)
  | .panic _ => .isFalse id
  | .die => .isFalse id
  | .dieInline _ => .isFalse id
  | .start _ => .isTrue trivial
  | .clone => .isTrue trivial
  | .drop => .isTrue trivial
  | .run _ => .isTrue trivial
  | .nested _ _ => .isTrue trivial
  | .signal _ => .isTrue trivial
  | .signalInline _ _ => .isTrue trivial

instance : DecidablePred (Label.Plain : Label Op P V E → Prop)
  | .nested _ _ => .isFalse id
  | .panic _ => .isFalse id
  | .die => .isFalse id
  | .dieInline _ => .isFalse id
  | .start _ => .isTrue trivial
  | .clone => .isTrue trivial
  | .drop => .isTrue trivial
  | .run _ => .isTrue trivial
  | .signal _ => .isTrue trivial
  | .signalInline _ _ => .isTrue trivial

/-- **A thread is about to acquire the completion state, and holds it already.** -/
def Reacquires (s : State Op P V E) (i : ℕ) : Prop :=
  (codeAt s.threads i).head? = some .lockState ∧ s.stateLock = some i

instance [DecidableEq P] [DecidableEq V] [DecidableEq E] (s : State Op P V E) (i : ℕ) :
    Decidable (Reacquires s i) := instDecidableAnd

/-- What is true at every moment of a run. -/
structure Sound (s : State Op P V E) : Prop where
  startedOnce : s.upstreamStarts ≤ 1
  startedAfter : 0 < s.upstreamStarts → s.started ≠ []
  noPanic : s.panics = []
  noReacquire : ∀ i, ¬Reacquires s i
  /-- so no receiver is called before there is a completion -/
  sameSignal : ∀ c ∈ s.calls, s.completion = some c.2
  completed : ∀ sig, s.completion = some sig → s.upstream = .delivered sig
  atMostOnce : (s.calls.map Prod.fst).Nodup
  onlyStarted : ∀ c ∈ s.calls, c.1 ∈ s.started
  /-- a started operation is called, in the queue, or in the hands of a thread -/
  notForgotten : ∀ o ∈ s.started, o ∈ s.calls.map Prod.fst ∨ o ∈ s.receivers ∨
    ∃ ins ∈ s.threads.flatten, ins.owned = some o

/-- The completion is `sig`, and every started operation has been called exactly once, with it. -/
def Delivered (s : State Op P V E) (sig : Signal P V E) : Prop :=
  s.completion = some sig ∧ ∀ o ∈ s.started, s.calls.filter (fun c => c.1 = o) = [(o, sig)]

/-! ## Runs without panics -/

/-- No mutex is poisoned and no receiver was destroyed. -/
structure Unharmed (s : State Op P V E) : Prop where
  statePoisoned : s.statePoisoned = false
  opPoisoned : s.opPoisoned = false
  destroyed : s.destroyed = []

theorem Unharmed.exec (hu : Unharmed s) (h : Inv s) (hi : s.threads[i]? = some (ins :: k))
    (hs : exec send s i k ins = some t) : Unharmed t := by
  have hfit := h.fitted.head hi
  cases ins with
  | lockState =>
      simp only [Split.exec] at hs
      split at hs
      · obtain rfl := Option.some.inj hs
        exact ⟨hu.1, hu.2, hu.3⟩
      · simp at hs
      · next e hl =>
          obtain ⟨hp, -⟩ | hown := lock_panics hl
          · simp [hu.statePoisoned] at hp
          · simp [hown, Fits] at hfit
  | lockOp =>
      simp only [Split.exec] at hs
      split at hs
      · obtain rfl := Option.some.inj hs
        exact ⟨hu.1, hu.2, hu.3⟩
      · simp at hs
      · next e hl =>
          obtain ⟨hp, -⟩ | hown := lock_panics hl
          · simp [hu.opPoisoned] at hp
          · simp [hown, Fits] at hfit
  | assign sig =>
      simp only [Split.exec, h.counted.pending hi] at hs
      obtain rfl := Option.some.inj hs
      exact ⟨hu.1, hu.2, hu.3⟩
  | invoke o =>
      simp only [Split.exec] at hs
      split at hs
      · obtain rfl := Option.some.inj hs
        exact ⟨hu.1, hu.2, hu.3⟩
      · next hnone => exact absurd hnone (h.counted.head hi)
  | dropHandle =>
      obtain rfl := Option.some.inj hs
      have hle := weight_le_total drops hi
      simp only [weight_cons, drops] at hle
      rw [h.counted.release_eq (by omega)]
      exact ⟨hu.1, hu.2, hu.3⟩
  | _ =>
      simp only [Split.exec] at hs
      first
        | obtain rfl := Option.some.inj hs
          exact ⟨hu.1, hu.2, hu.3⟩
        | split at hs <;> obtain rfl := Option.some.inj hs <;> exact ⟨hu.1, hu.2, hu.3⟩

theorem Unharmed.step {l : Label Op P V E} (hu : Unharmed s) (h : Inv s) (hl : l.Undisturbed)
    (hs : step send s l = some t) : Unharmed t := by
  cases l with
  | run i =>
      simp only [Split.step] at hs
      split at hs
      · next ins k hi => exact hu.exec h hi hs
      · simp at hs
  | drop =>
      simp only [Split.step, Option.ite_none_right_eq_some, Option.some.injEq] at hs
      obtain ⟨hpos, rfl⟩ := hs
      rw [h.counted.release_eq (by omega)]
      exact ⟨hu.1, hu.2, hu.3⟩
  | nested i o =>
      simp only [Split.step] at hs
      split at hs
      · simp only [Option.ite_none_right_eq_some, Option.some.injEq] at hs
        obtain ⟨-, rfl⟩ := hs
        exact ⟨hu.1, hu.2, hu.3⟩
      · simp at hs
  | signalInline i sig =>
      simp only [Split.step] at hs
      split at hs
      · simp only [Option.ite_none_right_eq_some, Option.some.injEq] at hs
        obtain ⟨-, rfl⟩ := hs
        exact ⟨hu.1, hu.2, hu.3⟩
      · simp at hs
  | panic i => exact hl.elim
  | die => exact hl.elim
  | dieInline i => exact hl.elim
  | _ =>
      simp only [Split.step, Option.ite_none_right_eq_some, Option.some.injEq] at hs
      obtain ⟨-, rfl⟩ := hs
      exact ⟨hu.1, hu.2, hu.3⟩

/-- The runs in which nobody panics and nothing is started under the guard. -/
def Calm (s : State Op P V E) (l : Label Op P V E) : Prop := Unguarded s l ∧ l.Undisturbed

instance (s : State Op P V E) (l : Label Op P V E) : Decidable (Calm s l) := instDecidableAnd

theorem calm_inductive : (machine Op P V E send).Inductive Calm
    fun s : State Op P V E => Inv s ∧ Unharmed s where
  init := ⟨Inv.fresh, ⟨rfl, rfl, rfl⟩⟩
  step _ _ _ h hl hs := ⟨h.1.step hl.1 hs, h.2.step h.1 hl.2 hs⟩

/-! ## Safety -/

theorem Inv.places_eq_one (h : Inv s) {o : Op} (ho : o ∈ s.started) : s.places o = 1 := by
  rw [h.counted.owned o]
  exact List.count_eq_one_of_mem h.counted.nodup ho

theorem Inv.places_eq_zero (h : Inv s) {o : Op} (ho : o ∉ s.started) : s.places o = 0 := by
  rw [h.counted.owned o]
  exact List.count_eq_zero_of_not_mem ho

/-- **A thread that acquires the completion state does not hold it.** -/
theorem Inv.not_reacquires (h : Inv s) (i : ℕ) : ¬Reacquires s i := by
  rintro ⟨hhead, hlock⟩
  obtain ⟨k, hk⟩ := List.head?_eq_some_iff.mp hhead
  have hfit := h.fitted i
  simp [hk, hlock, Fits] at hfit

omit [DecidableEq Op] in
/-- The weight of an owner somewhere is the ownership of an instruction somewhere. -/
theorem exists_owned [DecidableEq Op] {o : Op} (h : 0 < total (owns o) s.threads) :
    ∃ ins ∈ s.threads.flatten, ins.owned = some o := by
  rw [total_eq_weight_flatten, weight_owns, List.count_pos_iff, List.mem_filterMap] at h
  exact h

theorem Inv.sound (h : Inv s) (hu : Unharmed s) : Sound s where
  startedOnce := by
    rcases h.counted.starts with ⟨-, h0, -⟩ | ⟨-, h1, -⟩ <;> omega
  startedAfter hpos := by
    rcases h.counted.starts with ⟨-, h0, -⟩ | ⟨-, -, hidle⟩
    · omega
    · exact h.counted.begun (.inr hidle)
  noPanic := by
    refine List.eq_nil_iff_forall_not_mem.mpr fun e he => ?_
    rcases (h.counted.panics e he).2 with hp | hp
    · simp [hu.statePoisoned] at hp
    · simp [hu.opPoisoned] at hp
  noReacquire := h.not_reacquires
  sameSignal := h.counted.called
  completed := h.counted.completed
  atMostOnce := by
    refine List.nodup_iff_count_le_one.mpr fun o => ?_
    by_cases ho : o ∈ s.started
    · have := h.places_eq_one ho
      unfold State.places at this
      omega
    · have := h.places_eq_zero ho
      unfold State.places at this
      omega
  onlyStarted c hc := by
    by_contra ho
    have := h.places_eq_zero ho
    have hpos := List.count_pos_iff.mpr (List.mem_map_of_mem (f := Prod.fst) hc)
    unfold State.places at this
    omega
  notForgotten o ho := by
    have hone := h.places_eq_one ho
    simp only [State.places, hu.destroyed, List.count_nil] at hone
    by_cases hcalls : o ∈ s.calls.map Prod.fst
    · exact .inl hcalls
    by_cases hqueue : o ∈ s.receivers
    · exact .inr (.inl hqueue)
    have := List.count_eq_zero_of_not_mem hcalls
    have := List.count_eq_zero_of_not_mem hqueue
    exact .inr (.inr (exists_owned (by omega)))

/-! ## Delivery -/

/-- In a quiet state a started operation is called, queued or destroyed. -/
theorem Inv.quiet_places (h : Inv s) (hq : Quiet send s) {o : Op} (ho : o ∈ s.started) :
    s.receivers.count o + (s.calls.map Prod.fst).count o + s.destroyed.count o = 1 := by
  have hone := h.places_eq_one ho
  have hzero := hq.total_eq_zero h.fitted (owns o)
  unfold State.places at hone
  omega

/-- In a quiet state the signal of the upstream chain has been assigned. -/
theorem Inv.quiet_completion (h : Inv s) (hq : Quiet send s) {sig : Signal P V E}
    (hup : s.upstream = .delivered sig) : s.completion = some sig := by
  have hassigned := h.counted.assigned
  rw [hq.total_eq_zero h.fitted assigns, hup] at hassigned
  cases hc : s.completion with
  | none => simp [hc, Upstream.calls] at hassigned
  | some sig' =>
      have hsig : Upstream.delivered sig = .delivered sig' :=
        hup.symm.trans (h.counted.completed _ hc)
      rw [Upstream.delivered.inj hsig]

omit [DecidableEq Op] in
/-- One call of `o` in the list, and its signal known, is a list of one call. -/
theorem filter_calls [DecidableEq Op] {calls : List (Op × Signal P V E)} {o : Op}
    {sig : Signal P V E} (hone : (calls.map Prod.fst).count o = 1)
    (hsig : ∀ c ∈ calls, c.2 = sig) : calls.filter (fun c => c.1 = o) = [(o, sig)] := by
  have hlen : (calls.filter fun c => c.1 = o).length = 1 := by
    rw [← hone, List.count, List.countP_map, List.countP_eq_length_filter]
    congr 2
  obtain ⟨c, hc⟩ := List.length_eq_one_iff.mp hlen
  have hmem : c ∈ calls.filter (fun c => c.1 = o) := hc ▸ List.mem_singleton_self c
  obtain ⟨hc', ho⟩ := List.mem_filter.mp hmem
  rw [hc, ← hsig c hc', ← of_decide_eq_true ho]

/-- **When every thread is done, every started operation has got the signal.** -/
theorem Inv.delivered (h : Inv s) (hu : Unharmed s) (hq : Quiet send s) (sig : Signal P V E)
    (hup : s.upstream = .delivered sig) : Delivered s sig := by
  have hsig := h.quiet_completion hq hup
  refine ⟨hsig, fun o ho => filter_calls ?_ fun c hc => ?_⟩
  · have hone := h.quiet_places hq ho
    have hnil : s.receivers = [] := h.counted.drained (by simp [hsig])
    simpa [hnil, hu.destroyed] using hone
  · exact Option.some.inj ((h.counted.called c hc).symm.trans hsig)

/-- **Split delivers exactly once**, whatever the order of starts, lock operations and completion,
if no receiver starts another clone or panics: what is delivered is the signal `sig` the upstream
chain has called its `CompletionReceiver` with.  A run makes only so many instructions, so one that
goes on as long as it can ends in a quiet state. -/
theorem split_delivers_once (send : Bool) (ls : List (Label Op P V E)) (s : State Op P V E)
    (h : (machine Op P V E send).Run (fun _ l => l.Plain) ls s) :
    Sound s ∧ (ls.map Label.isRun).sum ≤ 14 * s.started.length + 4 ∧
      (Quiet send s → ∀ sig, s.upstream = .delivered sig → Delivered s sig) := by
  have hcalm : (machine Op P V E send).Run Calm ls s := by
    refine h.mono fun s l hl => ?_
    cases l <;> first | exact hl.elim | exact ⟨trivial, trivial⟩
  obtain ⟨hinv, hunharmed⟩ := calm_inductive.of_run hcalm
  exact ⟨hinv.sound hunharmed, run_le (hcalm.mono fun _ _ hl => hl.1), hinv.delivered hunharmed⟩

/-- Thread `i` runs `n` instructions. -/
def runs (i n : ℕ) : List (Label ℕ Unit ℕ Unit) := List.replicate n (.run i)

/-- Two operations are started before the upstream chain completes on a thread of its own; the
second one is queued while the first one is inside `ensure_started`. -/
def race : List (Label ℕ Unit ℕ Unit) :=
  [[.clone, .start 0, .start 1], runs 0 5, [.signal (.value .immediate [7])], runs 1 3, runs 0 3,
    runs 1 4, runs 2 16].flatten

theorem race_delivered :
    ∃ s, (machine ℕ Unit ℕ Unit true).exec fresh race = some s ∧ s.started = [0, 1] ∧
      Delivered s (.value .immediate [7]) := by
  obtain ⟨s, hs, hstarted, hup, hdone⟩ :
      ∃ s, (machine ℕ Unit ℕ Unit true).exec fresh race = some s ∧ s.started = [0, 1] ∧
        s.upstream = .delivered (.value .immediate [7]) ∧ ∀ code ∈ s.threads, code = [] :=
    Machine.exec_ends (by decide +kernel)
  have hrun : (machine ℕ Unit ℕ Unit true).Run (fun _ l => l.Plain) race s :=
    .of_exec (by decide +kernel) hs
  have hdelivers := (split_delivers_once true race s hrun).2.2
  exact ⟨s, hs, hstarted, hdelivers (quiet_of_done hdone) _ hup⟩

/-! ## Starting clones from a receiver -/

/-- **Split is re-entrant outside of its guard**: in a run in which nobody panics, and no receiver
starts a further clone while its thread holds the completion state, no thread acquires that state
twice and every started operation is delivered to.  The next clone a receiver starts is acquired
twice if and only if its thread holds the completion state. -/
theorem split_reentrant_iff_unguarded (send : Bool) (ls : List (Label Op P V E))
    (s : State Op P V E) (h : (machine Op P V E send).Run Calm ls s) :
    Sound s ∧ (Quiet send s → ∀ sig, s.upstream = .delivered sig → Delivered s sig) ∧
      ∀ i o t, step send s (.nested i o) = some t → (Reacquires t i ↔ s.stateLock = some i) := by
  obtain ⟨hinv, hunharmed⟩ := calm_inductive.of_run h
  refine ⟨hinv.sound hunharmed, hinv.delivered hunharmed, fun i o t ht => ⟨fun hre => ?_, ?_⟩⟩
  · by_contra hfree
    have hu : Unguarded s (.nested i o) := hfree
    exact (hinv.step hu ht).not_reacquires i hre
  · intro hlock
    simp only [step] at ht
    split at ht
    · next k hi =>
        simp only [Option.ite_none_right_eq_some, Option.some.injEq] at ht
        obtain ⟨-, rfl⟩ := ht
        have hlt := (List.getElem?_eq_some_iff.mp hi).1
        exact ⟨by simp [codeAt, State.goto, SplitOpState.start, hlt], hlock⟩
    · simp at ht

/-- The value arrives on a pool, so the operation started after the completion is called by a task,
and the clone that its receiver starts is called by another one. -/
def nestedOnPool : List (Label ℕ Unit ℕ Unit) :=
  [[.clone, .clone, .start 0], runs 0 5, [.signal (.value (.pool ()) [7])], runs 0 3, runs 1 10,
    [.start 1], runs 2 4, [.run 3, .nested 3 2], runs 3 5, runs 4 2].flatten

theorem nestedOnPool_delivered :
    ∃ s, (machine ℕ Unit ℕ Unit false).exec fresh nestedOnPool = some s ∧ s.started = [0, 1, 2] ∧
      Delivered s (.value (.pool ()) [7]) := by
  obtain ⟨s, hs, hstarted, hup, hdone⟩ :
      ∃ s, (machine ℕ Unit ℕ Unit false).exec fresh nestedOnPool = some s ∧
        s.started = [0, 1, 2] ∧ s.upstream = .delivered (.value (.pool ()) [7]) ∧
        ∀ code ∈ s.threads, code = [] :=
    Machine.exec_ends (by decide +kernel)
  have hrun : (machine ℕ Unit ℕ Unit false).Run Calm nestedOnPool s :=
    .of_exec (by decide +kernel) hs
  have hdelivers := (split_reentrant_iff_unguarded false nestedOnPool s hrun).2.1
  exact ⟨s, hs, hstarted, hdelivers (quiet_of_done hdone) _ hup⟩

/-- `split.clone() | LetValue(|..| split.clone())`: the receiver of operation `0`, called by
`ReceiverWrapper::invoke`, starts operation `1`. -/
def nestedClone : List (Label ℕ Unit ℕ Unit) :=
  [[.clone, .start 0], runs 0 5, [.signalInline 0 (.value .immediate [6])], runs 0 6,
    [.nested 0 1]].flatten

/-- **The clone started under the guard acquires it again**: a panic in `Split`, and in `SplitSend`
a thread that waits for itself. -/
theorem nestedClone_reacquires :
    (∃ s, (machine ℕ Unit ℕ Unit false).exec fresh nestedClone = some s ∧ Reacquires s 0 ∧
      (step false s (.run 0)).map State.panics = some ["BorrowMutError"]) ∧
    ∃ s, (machine ℕ Unit ℕ Unit true).exec fresh nestedClone = some s ∧ Reacquires s 0 ∧
      (step true s (.run 0)).map State.panics = none :=
  ⟨Machine.exec_ends (by decide +kernel), Machine.exec_ends (by decide +kernel)⟩

end SendersReceivers.Split
