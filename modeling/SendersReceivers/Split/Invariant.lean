import SendersReceivers.Split.Machine

/-!
# Split/Invariant — what every run of a split preserves

Three things are kept together.  Every thread stands at a place in the source where it holds exactly
the locks the state says it holds.  Every started operation is owned by exactly one place: a frame,
the queue, the list of calls, or the list of destroyed receivers.  And the count of the shared state
is the number of handles there are.

The runs are those in which no receiver starts a further operation of the split while its thread
holds the completion state.
-/

namespace SendersReceivers.Split

open Machinery

variable {Op P V E : Type}

/-! ## Places in the source -/

/-- **`Fits g p code`**: a thread that has `code` left to run holds the guard of the completion
state if `g`, that of the operation state if `p`, and `code` gives both back. -/
def Fits : Bool → Bool → List (Instr Op P V E) → Prop
  | g, p, [] => g = false ∧ p = false
  | g, p, .lockState :: k => g = false ∧ Fits true p k
  | g, p, .unlockState :: k => g = true ∧ Fits false p k
  | g, p, .check _ :: k => g = true ∧ p = false ∧ Fits false false k
  | g, p, .lockOp :: k => g = false ∧ p = false ∧ Fits false true k
  | g, p, .takeOp :: k => g = false ∧ p = true ∧ Fits false true k
  | g, p, .upstreamStart :: k => g = false ∧ p = true ∧ Fits false true k
  | g, p, .unlockOp :: k => g = false ∧ p = true ∧ Fits false false k
  | g, p, .assign _ :: k => g = true ∧ Fits false p k
  | g, p, .invoke _ :: k => g = true ∧ Fits true p k
  | g, p, .setSignal _ _ :: k => (g = false → p = false) ∧ Fits g p k
  | g, p, .inside :: k => (g = false → p = false) ∧ Fits g p k
  | g, p, .dropHandle :: k => g = false ∧ Fits false p k

theorem fits_invokes (queued : List Op) {p : Bool} {k : List (Instr Op P V E)}
    (h : Fits false p k) : Fits false p (queued.flatMap ReceiverWrapper.invoke ++ k) := by
  induction queued with
  | nil => exact h
  | cons o queued ih => exact ⟨rfl, rfl, rfl, rfl, ih⟩

theorem fits_drops (k : List (Instr Op P V E)) : Fits false false (k.filter Instr.isDrop) := by
  induction k with
  | nil => exact ⟨rfl, rfl⟩
  | cons ins k ih => cases ins <;> first | exact ih | exact ⟨rfl, ih⟩

/-! ## What is counted -/

/-- One for an instruction that owns the receiver `o`. -/
def owns [DecidableEq Op] (o : Op) (ins : Instr Op P V E) : ℕ := ins.owned.toList.count o

/-- One for `assign`. -/
def assigns : Instr Op P V E → ℕ
  | .assign _ => 1
  | _ => 0

/-- One for the drop of a handle. -/
def drops : Instr Op P V E → ℕ
  | .dropHandle => 1
  | _ => 0

/-- One for the first two instructions of `ensure_started`. -/
def ensures : Instr Op P V E → ℕ
  | .lockOp => 1
  | .takeOp => 1
  | _ => 0

section Counts

theorem weight_owns [DecidableEq Op] (o : Op) (k : List (Instr Op P V E)) :
    weight (owns o) k = (k.filterMap Instr.owned).count o := by
  induction k with
  | nil => rfl
  | cons ins k ih =>
      rw [weight_cons, ih, owns, ← List.count_append]
      cases ins <;> rfl

theorem owned_invokes (queued : List Op) :
    (queued.flatMap ReceiverWrapper.invoke : List (Instr Op P V E)).filterMap Instr.owned =
      queued := by
  induction queued with
  | nil => rfl
  | cons o queued ih => exact congrArg (o :: ·) ih

theorem owned_drops (k : List (Instr Op P V E)) :
    (k.filter Instr.isDrop).filterMap Instr.owned = [] := by
  induction k with
  | nil => rfl
  | cons ins k ih => cases ins <;> exact ih

theorem weight_drops_filter (k : List (Instr Op P V E)) :
    weight drops (k.filter Instr.isDrop) = weight drops k := by
  induction k with
  | nil => rfl
  | cons ins k ih => cases ins <;> simpa [List.filter_cons, Instr.isDrop, drops] using ih

/-- A weight that drops do not have is gone after unwinding. -/
theorem weight_filter_eq_zero {w : Instr Op P V E → ℕ} (hw : w .dropHandle = 0)
    (k : List (Instr Op P V E)) : weight w (k.filter Instr.isDrop) = 0 := by
  induction k with
  | nil => rfl
  | cons ins k ih => cases ins <;> simpa [List.filter_cons, Instr.isDrop, hw] using ih

@[simp] theorem weight_drops_invokes (ops : List Op) :
    weight drops (ops.flatMap ReceiverWrapper.invoke : List (Instr Op P V E)) = ops.length := by
  induction ops with
  | nil => rfl
  | cons o ops ih => simp [ReceiverWrapper.invoke, drops, ih, Nat.add_comm]

@[simp] theorem weight_assigns_invokes (ops : List Op) :
    weight assigns (ops.flatMap ReceiverWrapper.invoke : List (Instr Op P V E)) = 0 := by
  induction ops with
  | nil => rfl
  | cons o ops ih => simp [ReceiverWrapper.invoke, assigns, ih]

end Counts

/-! ## The locks -/

/-- Every thread holds the locks its place in the source says it holds. -/
def Fitted (s : State Op P V E) : Prop :=
  ∀ i, Fits (decide (s.stateLock = some i)) (decide (s.opLock = some i)) (codeAt s.threads i)

variable {s : State Op P V E} {i : ℕ} {ins : Instr Op P V E} {k : List (Instr Op P V E)}

theorem Fitted.head (h : Fitted s) (hi : s.threads[i]? = some (ins :: k)) :
    Fits (decide (s.stateLock = some i)) (decide (s.opLock = some i)) (ins :: k) :=
  codeAt_eq hi ▸ h i

/-- Thread `i` takes or gives back locks of its own, and goes on with code that fits. -/
theorem Fitted.goto (h : Fitted s) (hi : s.threads[i]? = some (ins :: k)) {t : State Op P V E}
    (code : List (Instr Op P V E)) (spawned : List (List (Instr Op P V E)))
    (ht : t.threads = s.threads.set i code ++ spawned)
    (hstate : ∀ j ≠ i, (t.stateLock = some j ↔ s.stateLock = some j))
    (hop : ∀ j ≠ i, (t.opLock = some j ↔ s.opLock = some j))
    (hcode : Fits (decide (t.stateLock = some i)) (decide (t.opLock = some i)) code)
    (hspawned : ∀ c ∈ spawned, Fits false false c) : Fitted t := by
  intro j
  rw [ht]
  refine codeAt_goto (fun j => Fits (decide (s.stateLock = some j)) (decide (s.opLock = some j)))
    (fun j => Fits (decide (t.stateLock = some j)) (decide (t.opLock = some j)))
    h hi hcode (fun j hj c hc => ?_) (fun c hc j hnil => ?_) j
  · simpa only [hstate j hj, hop j hj] using hc
  · obtain ⟨hg, hp⟩ := hnil
    simp only [hg, hp]
    exact hspawned c hc

/-- Thread `i` only moves on. -/
theorem Fitted.move (h : Fitted s) (hi : s.threads[i]? = some (ins :: k))
    {code : List (Instr Op P V E)} {spawned : List (List (Instr Op P V E))}
    (hcode : ∀ g p, Fits g p (ins :: k) → Fits g p code)
    (hspawned : ∀ c ∈ spawned, Fits false false c) : Fitted (s.goto i code spawned) :=
  h.goto hi code spawned rfl (fun _ _ => Iff.rfl) (fun _ _ => Iff.rfl) (hcode _ _ (h.head hi))
    hspawned

/-- After unwinding the thread holds nothing. -/
theorem Fitted.unwind (h : Fitted s) (send : Bool) (hi : s.threads[i]? = some (ins :: k))
    (k' : List (Instr Op P V E)) : Fitted (s.unwind send i k') := by
  refine h.goto hi (k'.filter Instr.isDrop) [] (List.append_nil _).symm (fun j hj => ?_)
    (fun j hj => ?_) ?_ (by simp)
  · by_cases hs : s.stateLock = some i <;> simp [State.unwind, hs, hj.symm]
  · by_cases hs : s.opLock = some i <;> simp [State.unwind, hs, hj.symm]
  · have hs : (s.unwind send i k').stateLock ≠ some i := by
      by_cases hs : s.stateLock = some i <;> simp [State.unwind, hs]
    have hp : (s.unwind send i k').opLock ≠ some i := by
      by_cases hp : s.opLock = some i <;> simp [State.unwind, hp]
    simp only [hs, hp, decide_false]
    exact fits_drops k'

/-- A lock that is taken was free. -/
theorem lock_taken {send : Bool} {holder : Option ℕ} {poisoned : Bool}
    (h : lock send i holder poisoned = .taken) : holder = none ∧ poisoned = false := by
  unfold lock at h
  split at h
  · cases poisoned <;> simp_all
  · split at h <;> simp at h

/-- Taking a lock panics on poison, and in `Split` on a guard of the same thread. -/
theorem lock_panics {send : Bool} {holder : Option ℕ} {poisoned : Bool} {e : String}
    (h : lock send i holder poisoned = .panics e) :
    poisoned = true ∧ e = "PoisonError" ∨ holder = some i := by
  unfold lock at h
  split at h
  · cases poisoned <;> simp_all
  · next j =>
      split at h
      · next hj => exact .inr (by rw [hj.1])
      · simp at h

@[simp] theorem goto_threads (s : State Op P V E) (i : ℕ) (code : List (Instr Op P V E))
    (spawned : List (List (Instr Op P V E))) :
    (s.goto i code spawned).threads = s.threads.set i code ++ spawned := rfl

@[simp] theorem release_threads : s.release.threads = s.threads := by
  unfold State.release; split <;> rfl

@[simp] theorem release_stateLock : s.release.stateLock = s.stateLock := by
  unfold State.release; split <;> rfl

@[simp] theorem release_opLock : s.release.opLock = s.opLock := by
  unfold State.release; split <;> rfl

@[simp] theorem die_threads : s.die.threads = s.threads := release_threads

@[simp] theorem die_stateLock : s.die.stateLock = s.stateLock := release_stateLock

@[simp] theorem die_opLock : s.die.opLock = s.opLock := release_opLock

@[simp] theorem release_started : s.release.started = s.started := by
  unfold State.release; split <;> rfl

@[simp] theorem release_upstream : s.release.upstream = s.upstream := by
  unfold State.release; split <;> rfl

/-- **What no instruction does**: it starts no operation, and of the upstream chain it can only be
the start. -/
theorem exec_frame {send : Bool} {t : State Op P V E} (hs : exec send s i k ins = some t) :
    t.started = s.started ∧
      (t.upstream = s.upstream ∨ s.opstate = true ∧ t.upstream = .running) := by
  cases ins with
  | takeOp =>
      simp only [Split.exec] at hs
      split at hs
      · next ho =>
          obtain rfl := Option.some.inj hs
          exact ⟨rfl, .inr ⟨ho, rfl⟩⟩
      · obtain rfl := Option.some.inj hs
        exact ⟨rfl, .inl rfl⟩
  | dropHandle =>
      obtain rfl := Option.some.inj hs
      simp [State.goto]
  | _ =>
      simp only [Split.exec] at hs
      first
        | obtain rfl := Option.some.inj hs
          exact ⟨rfl, .inl rfl⟩
        | split at hs <;> first
          | obtain rfl := Option.some.inj hs
            exact ⟨rfl, .inl rfl⟩
          | simp at hs

/-- An instruction keeps every thread at a place it fits. -/
theorem Fitted.exec {send : Bool} {t : State Op P V E} (h : Fitted s)
    (hi : s.threads[i]? = some (ins :: k)) (hs : exec send s i k ins = some t) : Fitted t := by
  have hhead := h.head hi
  cases ins with
  | lockState =>
      simp only [Split.exec] at hs
      split at hs
      · next hl =>
          obtain rfl := Option.some.inj hs
          obtain ⟨hfree, -⟩ := lock_taken hl
          refine h.goto hi k [] rfl (fun j hj => by simp [State.goto, hfree, hj.symm])
            (fun j _ => Iff.rfl) ?_ (by simp)
          simpa [State.goto] using hhead.2
      · simp at hs
      · obtain rfl := Option.some.inj hs
        exact Fitted.unwind (s := { s with panics := _ }) h send hi k
  | unlockState =>
      obtain rfl := Option.some.inj hs
      have hown : s.stateLock = some i := by simpa using hhead.1
      refine h.goto hi k [] rfl (fun j hj => by simp [State.goto, hown, hj.symm])
        (fun j _ => Iff.rfl) ?_ (by simp)
      simpa [State.goto] using hhead.2
  | lockOp =>
      simp only [Split.exec] at hs
      split at hs
      · next hl =>
          obtain rfl := Option.some.inj hs
          obtain ⟨hfree, -⟩ := lock_taken hl
          refine h.goto hi k [] rfl (fun j _ => Iff.rfl)
            (fun j hj => by simp [State.goto, hfree, hj.symm]) ?_ (by simp)
          simpa [State.goto, hhead.1] using hhead.2.2
      · simp at hs
      · obtain rfl := Option.some.inj hs
        exact Fitted.unwind (s := { s with panics := _ }) h send hi k
  | unlockOp =>
      obtain rfl := Option.some.inj hs
      have hown : s.opLock = some i := by simpa using hhead.2.1
      refine h.goto hi k [] rfl (fun j _ => Iff.rfl)
        (fun j hj => by simp [State.goto, hown, hj.symm]) ?_ (by simp)
      simpa [State.goto, hhead.1] using hhead.2.2
  | check o =>
      simp only [Split.exec] at hs
      split at hs
      · obtain rfl := Option.some.inj hs
        refine h.move hi (fun g p hg => ⟨hg.1, hg.2.1 ▸ hg.2.2⟩) ?_
        simpa using ⟨fun _ => rfl, rfl, rfl⟩
      · obtain rfl := Option.some.inj hs
        exact h.move hi (fun g p hg => ⟨by simp [hg.1], hg.1, hg.2.1 ▸ hg.2.2⟩) (by simp)
      · obtain rfl := Option.some.inj hs
        refine h.goto hi _ [] rfl (fun _ _ => Iff.rfl) (fun _ _ => Iff.rfl) ?_ (by simp)
        exact ⟨hhead.1, rfl, hhead.2.1, rfl, rfl, rfl, rfl, hhead.2.2⟩
  | takeOp =>
      simp only [Split.exec] at hs
      split at hs
      · obtain rfl := Option.some.inj hs
        refine h.goto hi _ [] rfl (fun _ _ => Iff.rfl) (fun _ _ => Iff.rfl) ?_ (by simp)
        exact ⟨hhead.1, hhead.2.1, hhead.2.2⟩
      · obtain rfl := Option.some.inj hs
        exact h.move hi (fun g p hg => by rw [hg.1, hg.2.1]; exact hg.2.2) (by simp)
  | upstreamStart =>
      obtain rfl := Option.some.inj hs
      exact h.move hi (fun g p hg => by rw [hg.1, hg.2.1]; exact hg.2.2) (by simp)
  | assign sig =>
      simp only [Split.exec] at hs
      split at hs
      · obtain rfl := Option.some.inj hs
        refine h.goto hi _ [] rfl (fun _ _ => Iff.rfl) (fun _ _ => Iff.rfl) ?_ (by simp)
        exact ⟨hhead.1, fits_invokes _ hhead.2⟩
      · obtain rfl := Option.some.inj hs
        exact Fitted.unwind (s := { s with panics := _ }) h send hi k
  | invoke o =>
      simp only [Split.exec] at hs
      split at hs
      · obtain rfl := Option.some.inj hs
        exact h.move hi (fun g p hg => ⟨by simp [hg.1], hg.1 ▸ hg.2⟩) (by simp)
      · obtain rfl := Option.some.inj hs
        exact Fitted.unwind (s := { s with panics := _ }) h send hi _
  | setSignal o sig =>
      obtain rfl := Option.some.inj hs
      refine h.goto hi _ [] rfl (fun _ _ => Iff.rfl) (fun _ _ => Iff.rfl) ?_ (by simp)
      exact ⟨hhead.1, hhead.2⟩
  | inside =>
      obtain rfl := Option.some.inj hs
      exact h.move hi (fun g p hg => hg.2) (by simp)
  | dropHandle =>
      obtain rfl := Option.some.inj hs
      refine h.goto hi k [] (by simp [State.goto]) (fun _ _ => by simp [State.goto])
        (fun _ _ => by simp [State.goto]) ?_ (by simp)
      simpa [State.goto, hhead.1] using hhead.2

/-! ## The counts -/

/-- Handles the upstream chain has: its `CompletionReceiver` owns one. -/
def Upstream.handles : Upstream P V E → ℕ
  | .idle => 1
  | .running => 1
  | .delivered _ => 0
  | .dropped => 0

/-- Whether the `CompletionReceiver` was called. -/
def Upstream.calls : Upstream P V E → ℕ
  | .delivered _ => 1
  | _ => 0

/-- What the next instruction takes for granted of the upstream chain and of the completion. -/
def Instr.Known (upstream : Upstream P V E) (completion : Option (Signal P V E)) :
    Instr Op P V E → Prop
  | .assign sig => upstream = .delivered sig
  | .invoke _ => completion ≠ none
  | .setSignal _ sig => completion = some sig
  | .inside => completion ≠ none
  | _ => True

/-- How often the operation `o` is owned, or was. -/
def State.places [DecidableEq Op] (s : State Op P V E) (o : Op) : ℕ :=
  total (owns o) s.threads + s.receivers.count o + (s.calls.map Prod.fst).count o +
    s.destroyed.count o

/-- **What is where**, whatever the locks are. -/
structure Counted [DecidableEq Op] (s : State Op P V E) : Prop where
  owned : ∀ o, s.places o = s.started.count o
  nodup : s.started.Nodup
  strong : s.strong =
    s.handles + total drops s.threads + s.receivers.length + s.upstream.handles
  assigned : total assigns s.threads + s.completion.toList.length = s.upstream.calls
  starts : s.opstate = true ∧ s.upstreamStarts = 0 ∧ s.upstream = .idle ∨
    s.opstate = false ∧ s.upstreamStarts = 1 ∧ s.upstream ≠ .idle
  begun : s.threads ≠ [] ∨ s.upstream ≠ .idle → s.started ≠ []
  queued : s.completion = none → 0 < total ensures s.threads ∨ s.upstream ≠ .idle →
    s.receivers ≠ []
  drained : s.completion ≠ none → s.receivers = []
  known : ∀ ins ∈ s.threads.flatten, ins.Known s.upstream s.completion
  completed : ∀ sig, s.completion = some sig → s.upstream = .delivered sig
  called : ∀ c ∈ s.calls, s.completion = some c.2
  poisoned : s.statePoisoned = true → s.completion ≠ none
  opPoisoned : s.opPoisoned = true → s.completion ≠ none ∨ s.upstream = .dropped
  panics : ∀ e ∈ s.panics, e = "PoisonError" ∧ (s.statePoisoned = true ∨ s.opPoisoned = true)

section Counted

variable [DecidableEq Op]

omit [DecidableEq Op] in
/-- The one thing a drop does is to count down: the last handle cannot go while receivers are
queued, for each of them has one. -/
theorem release_eq (h : s.receivers.length < s.strong) :
    s.release = { s with strong := s.strong - 1 } := by
  unfold State.release
  split
  · next h1 =>
      have hnil : s.receivers = [] := List.eq_nil_of_length_eq_zero (by omega)
      simp [h1, hnil]
  · rfl

/-- How often `o` is owned outside of the threads. -/
def State.elsewhere (s : State Op P V E) (o : Op) : ℕ :=
  s.receivers.count o + (s.calls.map Prod.fst).count o + s.destroyed.count o

/-- The handles outside of the threads. -/
def State.holders (s : State Op P V E) : ℕ := s.handles + s.receivers.length + s.upstream.handles

/-- **What a step may do**: a thread replaces the instructions `gone` by `code`, the threads
`spawned` start, and the rest of the state turns from `s` into `t`.  What the threads lose is
somewhere else then. -/
structure Moves (s t : State Op P V E) (gone code : List (Instr Op P V E))
    (spawned : List (List (Instr Op P V E))) : Prop where
  owned : ∀ o, weight (owns o) code + total (owns o) spawned + t.elsewhere o + s.started.count o =
    weight (owns o) gone + s.elsewhere o + t.started.count o
  strong : t.strong + weight drops gone + s.holders =
    s.strong + weight drops code + total drops spawned + t.holders
  assigned : weight assigns code + total assigns spawned + t.completion.toList.length +
    s.upstream.calls = weight assigns gone + s.completion.toList.length + t.upstream.calls
  known : ∀ x ∈ code ++ spawned.flatten, x.Known t.upstream t.completion
  nodup : s.started.Nodup → t.started.Nodup := by exact id
  begun : s.started ⊆ t.started := by exact fun _ h => h
  starts : t.opstate = s.opstate ∧ t.upstreamStarts = s.upstreamStarts ∧
      (t.upstream = .idle ↔ s.upstream = .idle) ∨
    s.opstate = true ∧ t.opstate = false ∧ t.upstreamStarts = s.upstreamStarts + 1 ∧
      t.upstream ≠ .idle ∧ 0 < weight ensures gone := by exact .inl ⟨rfl, rfl, Iff.rfl⟩
  queued : t.completion = none → t.receivers ≠ [] ∨
    t.receivers = s.receivers ∧
      weight ensures code + total ensures spawned ≤ weight ensures gone := by
      exact fun _ => .inr ⟨rfl, by simp [ensures]⟩
  drained : t.completion ≠ none → t.receivers = [] ∨
    t.receivers = s.receivers ∧ s.completion ≠ none := by exact fun h => .inr ⟨rfl, h⟩
  completion : s.completion ≠ none → t.completion = s.completion := by exact fun _ => rfl
  completed : ∀ sig, t.completion = some sig →
    s.completion = some sig ∨ t.upstream = .delivered sig := by exact fun _ h => .inl h
  delivered : ∀ sig, s.upstream = .delivered sig → t.upstream = .delivered sig := by
    exact fun _ h => h
  called : ∀ c ∈ t.calls, c ∈ s.calls ∨ t.completion = some c.2 := by exact fun _ h => .inl h
  dropped : s.upstream = .dropped → t.upstream = .dropped := by exact id
  poisons : t.statePoisoned = s.statePoisoned ∧ t.opPoisoned = s.opPoisoned ∧ t.panics = s.panics :=
    by exact ⟨rfl, rfl, rfl⟩

omit [DecidableEq Op] in
/-- What an instruction takes for granted stays true. -/
theorem Instr.Known.mono {x : Instr Op P V E} {u u' : Upstream P V E}
    {c c' : Option (Signal P V E)} (h : x.Known u c)
    (hu : ∀ sig, u = .delivered sig → u' = .delivered sig) (hc : c ≠ none → c' = c) :
    x.Known u' c' := by
  cases x with
  | assign sig => exact hu sig h
  | invoke o =>
      have hsome : c ≠ none := h
      exact (hc hsome).trans_ne hsome
  | setSignal o sig =>
      have hsig : c = some sig := h
      exact (hc (by simp [hsig])).trans hsig
  | inside =>
      have hsome : c ≠ none := h
      exact (hc hsome).trans_ne hsome
  | _ => trivial

/-- **Such a step keeps the counts.** -/
theorem Counted.of_moves (h : Counted s) {t t' : State Op P V E} {gone code : List (Instr Op P V E)}
    {spawned : List (List (Instr Op P V E))} (hm : Moves s t gone code spawned)
    (ht : t' = { t with threads := t'.threads })
    (htotal : ∀ w : Instr Op P V E → ℕ, total w t'.threads + weight w gone =
      total w s.threads + weight w code + total w spawned)
    (hgone : ∀ w : Instr Op P V E → ℕ, weight w gone ≤ total w s.threads)
    (hmem : ∀ x ∈ t'.threads.flatten, x ∈ code ∨ x ∈ spawned.flatten ∨ x ∈ s.threads.flatten)
    (hbegun : s.started ≠ [] ∨ t.started ≠ [] ∨ t'.threads = [] ∧ t.upstream = .idle) :
    Counted t' := by
  have hnone (hn : t.completion = none) : s.completion = none := by
    by_contra hs
    exact hs (hm.completion hs ▸ hn)
  obtain ⟨hsp, hop, hpanics⟩ := hm.poisons
  rw [ht]
  refine ⟨fun o => ?_, hm.nodup h.nodup, ?_, ?_, ?_, fun hpos => ?_, fun hn hpos => ?_,
    fun hsome => ?_, fun x hx => ?_, fun sig hsig => ?_, fun c hc => ?_, fun hp => ?_,
    fun hp => ?_, fun e he => ?_⟩
  · have := h.owned o
    have := hm.owned o
    have := htotal (owns o)
    simp only [State.places, State.elsewhere] at *
    omega
  · have := h.strong
    have := hm.strong
    have := htotal drops
    simp only [State.holders] at *
    omega
  · have := h.assigned
    have := hm.assigned
    have := htotal assigns
    simp only at *
    omega
  · rcases hm.starts with ⟨ho, hs, hu⟩ | ⟨ho, ho', hs, hu, -⟩
    · simpa only [ho, hs, hu, ne_eq] using h.starts
    · rcases h.starts with ⟨-, h0, -⟩ | ⟨hf, -, -⟩
      · exact .inr ⟨ho', by simp only [hs, h0], hu⟩
      · simp [ho] at hf
  · rcases hbegun with hs | hs | ⟨hnil, hidle⟩
    · obtain ⟨o, ho⟩ := List.exists_mem_of_ne_nil _ hs
      exact List.ne_nil_of_mem (hm.begun ho)
    · exact hs
    · exact absurd hpos (by simp [hnil, hidle])
  · rcases hm.queued hn with hne | ⟨hr, hle⟩
    · exact hne
    · show t.receivers ≠ []
      rw [hr]
      refine h.queued (hnone hn) ?_
      have hg := htotal ensures
      rcases hm.starts with ⟨-, -, hu⟩ | ⟨-, -, -, -, hins⟩
      · exact hpos.imp (fun hpos => by have : 0 < total ensures t'.threads := hpos; omega)
          (fun hidle => hu.not.mp hidle)
      · exact .inl (hins.trans_le (hgone ensures))
  · rcases hm.drained hsome with hr | ⟨hr, hs⟩
    · exact hr
    · exact hr.trans (h.drained hs)
  · rcases hmem x hx with hx | hx | hx
    · exact hm.known x (List.mem_append_left _ hx)
    · exact hm.known x (List.mem_append_right _ hx)
    · exact (h.known x hx).mono hm.delivered hm.completion
  · rcases hm.completed sig hsig with hs | hu
    · exact hm.delivered sig (h.completed sig hs)
    · exact hu
  · rcases hm.called c hc with hc | hc
    · have hs := h.called c hc
      exact (hm.completion (by simp [hs])).trans hs
    · exact hc
  · have hs := h.poisoned (hsp ▸ hp)
    exact (hm.completion hs).symm ▸ hs
  · refine (h.opPoisoned (hop ▸ hp)).imp (fun hs => ?_) hm.dropped
    exact (hm.completion hs).symm ▸ hs
  · exact (h.panics e (hpanics ▸ he)).imp_right fun hp =>
      hp.imp (fun hp => hsp ▸ hp) (fun hp => hop ▸ hp)

/-- A step of thread `i`. -/
theorem Counted.goto (h : Counted s) (hi : s.threads[i]? = some (ins :: k)) {t : State Op P V E}
    (code : List (Instr Op P V E)) (spawned : List (List (Instr Op P V E)))
    (ht : t.threads = s.threads) (hm : Moves s t [ins] code spawned) :
    Counted (t.goto i (code ++ k) spawned) := by
  refine h.of_moves hm rfl (fun w => ?_) (fun w => ?_) (fun x hx => ?_)
    (.inl (h.begun (.inl (List.ne_nil_of_mem (List.mem_of_getElem? hi)))))
  · simpa only [goto_threads, ht, weight_cons, weight_nil, Nat.add_zero] using
      total_goto w hi code spawned
  · have := weight_le_total w hi
    simp only [weight_cons, weight_nil] at this ⊢
    omega
  · exact mem_goto hi (by simpa only [goto_threads, ht] using hx)

/-- A step outside of the threads, which may start a new one. -/
theorem Counted.spawn (h : Counted s) {t : State Op P V E}
    (spawned : List (List (Instr Op P V E))) (ht : t.threads = s.threads ++ spawned)
    (hm : Moves s t [] [] spawned)
    (hbegun : s.started ≠ [] ∨ t.started ≠ [] ∨ spawned = [] ∧ t.upstream = .idle) : Counted t := by
  refine h.of_moves hm rfl (fun w => by simp [ht]) (fun w => by simp) (fun x hx => ?_) ?_
  · rw [ht, List.flatten_append] at hx
    exact .inr (List.mem_append.mp hx).symm
  · by_cases hs : s.started = []
    · refine hbegun.imp_right (Or.imp_right fun ⟨hnil, hidle⟩ => ⟨?_, hidle⟩)
      have : ¬(s.threads ≠ [] ∨ s.upstream ≠ .idle) := fun hpos => h.begun hpos hs
      simpa [ht, hnil] using (not_or.mp this).1
    · exact .inl hs

/-- Once the upstream chain has ended, no thread is about to assign a signal, but for the one that
has it. -/
theorem Counted.assigns_eq_zero (h : Counted s)
    (hdown : s.completion ≠ none ∨ s.upstream.calls = 0) : total assigns s.threads = 0 := by
  have hassigned := h.assigned
  rcases hdown with hsome | hcalls
  · obtain ⟨sig, hsig⟩ := Option.ne_none_iff_exists'.mp hsome
    have : s.upstream.calls ≤ 1 := by cases s.upstream <;> simp [Upstream.calls]
    simp only [hsig, Option.toList_some, List.length_singleton] at hassigned
    omega
  · omega

/-- **A panic destroys what the frames own**, and leaves the counts right.  Only a panic of the
upstream chain can happen before there is a completion. -/
theorem Counted.unwind (h : Counted s) (send : Bool) (hi : s.threads[i]? = some (ins :: k))
    (howned : ins.owned = none) (hdrops : drops ins = 0)
    (hdown : s.completion ≠ none ∨ s.upstream = .dropped ∧ s.stateLock ≠ some i) :
    Counted (s.unwind send i k) := by
  have hgoto (w : Instr Op P V E → ℕ) :
      total w (s.threads.set i (k.filter Instr.isDrop)) + (w ins + weight w k) =
        total w s.threads + weight w (k.filter Instr.isDrop) := by
    simpa using total_set w hi (k.filter Instr.isDrop)
  have hassigns : total assigns s.threads = 0 :=
    h.assigns_eq_zero (hdown.imp_right fun hd => by rw [hd.1]; rfl)
  refine ⟨?_, h.nodup, ?_, ?_, h.starts, ?_, ?_, h.drained, ?_, h.completed, h.called, ?_, ?_, ?_⟩
  · intro o
    have hplaces := h.owned o
    have hg := hgoto (owns o)
    have hins : owns o ins = 0 := by simp [owns, howned]
    rw [weight_owns o (k.filter Instr.isDrop), owned_drops, weight_owns] at hg
    simp only [State.places, State.unwind, List.count_append, List.count_nil] at hplaces hg ⊢
    omega
  · have hstrong := h.strong
    have hg := hgoto drops
    rw [weight_drops_filter] at hg
    simp only [State.unwind] at hg ⊢
    omega
  · have hassigned := h.assigned
    have hg := hgoto assigns
    rw [weight_filter_eq_zero rfl] at hg
    simp only [State.unwind] at hg ⊢
    omega
  · intro _
    exact h.begun (.inl (List.ne_nil_of_mem (List.mem_of_getElem? hi)))
  · intro hnone _
    rcases hdown with hsome | ⟨hdropped, -⟩
    · exact absurd hnone hsome
    · exact h.queued hnone (.inr (by simp [hdropped]))
  · intro x hx
    obtain ⟨c, hc, hxc⟩ := List.mem_flatten.mp hx
    obtain hc | rfl := List.mem_or_eq_of_mem_set hc
    · exact h.known x (List.mem_flatten.mpr ⟨c, hc, hxc⟩)
    · cases x <;> simp_all [Instr.isDrop, Instr.Known]
  · intro hp
    rcases hdown with hsome | ⟨-, hlock⟩
    · exact hsome
    · exact h.poisoned (by simpa [State.unwind, hlock] using hp)
  · intro _
    exact hdown.imp_right fun hd => hd.1
  · intro e he
    obtain ⟨rfl, hpoison⟩ := h.panics e he
    exact ⟨rfl, hpoison.imp (fun hp => by simp [State.unwind, hp])
      (fun hp => by simp [State.unwind, hp])⟩

/-- A panic on poison is noted. -/
theorem Counted.notePoison (h : Counted s)
    (hp : s.statePoisoned = true ∨ s.opPoisoned = true) :
    Counted { s with panics := s.panics ++ ["PoisonError"] } := by
  refine { h with panics := fun e he => ?_ }
  rcases List.mem_append.mp he with he | he
  · exact h.panics e he
  · exact ⟨List.mem_singleton.mp he, hp⟩

/-- Whoever is about to assign the signal finds the state pending: 'expected to be in the running
state' is not reached. -/
theorem Counted.pending (h : Counted s) {sig : Signal P V E}
    (hi : s.threads[i]? = some (.assign sig :: k)) : s.completion = none := by
  by_contra hsome
  have hzero := h.assigns_eq_zero (.inl hsome)
  have hle := weight_le_total assigns hi
  simp only [weight_cons, assigns] at hle
  omega

/-- What the head of a thread takes for granted holds. -/
theorem Counted.head (h : Counted s) (hi : s.threads[i]? = some (ins :: k)) :
    ins.Known s.upstream s.completion :=
  h.known ins (List.mem_flatten.mpr ⟨_, List.mem_of_getElem? hi, .head k⟩)

/-- A thread that takes or gives back a lock, or does nothing. -/
theorem Counted.next (h : Counted s) (hi : s.threads[i]? = some (ins :: k)) (a b : Option ℕ)
    (howned : ins.owned = none) (hdrops : drops ins = 0) (hassigns : assigns ins = 0) :
    Counted ({ s with stateLock := a, opLock := b }.goto i k []) :=
  h.goto hi [] [] rfl {
    owned := fun o => by simp [owns, howned, State.elsewhere]
    strong := by simp [hdrops, State.holders]
    assigned := by simp [hassigns]
    known := by simp }

/-- Taking the completion state; a `BorrowMutError` is not reached. -/
theorem Counted.lockState {send : Bool} {t : State Op P V E} (h : Counted s) (hf : Fitted s)
    (hi : s.threads[i]? = some (.lockState :: k)) (hs : Split.exec send s i k .lockState = some t) :
    Counted t := by
  have hhead := hf.head hi
  simp only [Split.exec] at hs
  split at hs
  · obtain rfl := Option.some.inj hs
    exact h.next hi _ _ rfl rfl rfl
  · simp at hs
  · next e hl =>
      obtain rfl := Option.some.inj hs
      obtain ⟨hp, rfl⟩ | hown := lock_panics hl
      · exact (h.notePoison (.inl hp)).unwind send hi rfl rfl (.inl (h.poisoned hp))
      · simp [hown, Fits] at hhead

/-- Taking the operation state. -/
theorem Counted.lockOp {send : Bool} {t : State Op P V E} (h : Counted s) (hf : Fitted s)
    (hi : s.threads[i]? = some (.lockOp :: k)) (hs : Split.exec send s i k .lockOp = some t) :
    Counted t := by
  have hhead := hf.head hi
  simp only [Split.exec] at hs
  split at hs
  · obtain rfl := Option.some.inj hs
    exact h.next hi _ _ rfl rfl rfl
  · simp at hs
  · next e hl =>
      obtain rfl := Option.some.inj hs
      obtain ⟨hp, rfl⟩ | hown := lock_panics hl
      · refine (h.notePoison (.inr hp)).unwind send hi rfl rfl ?_
        exact (h.opPoisoned hp).imp_right fun hd => ⟨hd, by simpa using hhead.1⟩
      · simp [hown, Fits] at hhead

/-- The three branches of `SplitOpState::start`. -/
theorem Counted.check {send : Bool} {t : State Op P V E} {o : Op} (h : Counted s)
    (hi : s.threads[i]? = some (.check o :: k)) (hs : Split.exec send s i k (.check o) = some t) :
    Counted t := by
  simp only [Split.exec] at hs
  split at hs
  · next p value hc =>
      obtain rfl := Option.some.inj hs
      exact h.goto hi [.unlockState] _ rfl {
        owned := fun o' => by simp [owns, Instr.owned, State.elsewhere]
        strong := by simp [drops]
        assigned := by simp [assigns]
        known := by simp [Instr.Known, hc] }
  · next sig _ hc =>
      obtain rfl := Option.some.inj hs
      exact h.goto hi [.setSignal o sig, .unlockState] [] rfl {
        owned := fun o' => by simp [owns, Instr.owned, State.elsewhere]
        strong := by simp [drops]
        assigned := by simp [assigns]
        known := by simp [Instr.Known, hc] }
  · next hc =>
      obtain rfl := Option.some.inj hs
      exact h.goto hi _ [] rfl {
        owned := fun o' => by
          simp [OpStateWrapper.ensureStarted, owns, Instr.owned, State.elsewhere]
          omega
        strong := by
          simp [OpStateWrapper.ensureStarted, drops, State.holders]
          omega
        assigned := by simp [OpStateWrapper.ensureStarted, assigns]
        known := by simp [OpStateWrapper.ensureStarted, Instr.Known]
        queued := fun _ => .inl (by simp)
        drained := fun hsome => absurd hc hsome }

/-- The upstream operation is started by whoever takes it, once. -/
theorem Counted.takeOp {send : Bool} {t : State Op P V E} (h : Counted s)
    (hi : s.threads[i]? = some (.takeOp :: k)) (hs : Split.exec send s i k .takeOp = some t) :
    Counted t := by
  simp only [Split.exec] at hs
  split at hs
  · next ho =>
      obtain rfl := Option.some.inj hs
      have hidle : s.upstream = .idle := by
        rcases h.starts with ⟨-, -, hu⟩ | ⟨hf, -, -⟩
        · exact hu
        · simp [ho] at hf
      exact h.goto hi [.upstreamStart] [] rfl {
        owned := fun o' => by simp [owns, Instr.owned, State.elsewhere]
        strong := by simp [drops, State.holders, hidle, Upstream.handles]
        assigned := by simp [assigns, hidle, Upstream.calls]
        known := by simp [Instr.Known]
        starts := .inr ⟨ho, rfl, rfl, by simp, by simp [ensures]⟩
        delivered := fun sig hd => by simp [hidle] at hd
        dropped := fun hd => by simp [hidle] at hd }
  · obtain rfl := Option.some.inj hs
    exact h.next hi _ _ rfl rfl rfl

/-- The completion: what was queued is about to be invoked. -/
theorem Counted.assign {send : Bool} {t : State Op P V E} {sig : Signal P V E} (h : Counted s)
    (hi : s.threads[i]? = some (.assign sig :: k))
    (hs : Split.exec send s i k (.assign sig) = some t) :
    Counted t := by
  have hdelivered : s.upstream = .delivered sig := h.head hi
  simp only [Split.exec] at hs
  split at hs
  · next hc =>
      obtain rfl := Option.some.inj hs
      exact h.goto hi _ [] rfl {
        owned := fun o => by
          rw [weight_cons, weight_owns, owned_invokes]
          simp [owns, Instr.owned, State.elsewhere]
          omega
        strong := by
          simp [drops, State.holders]
          omega
        assigned := by simp [assigns, hc]
        known := by simp [ReceiverWrapper.invoke, Instr.Known]; grind
        queued := by simp
        drained := fun _ => .inl rfl
        completion := fun hsome => absurd hc hsome
        completed := fun sig' hsig => .inr (Option.some.inj hsig ▸ hdelivered)
        called := fun c hcalls => .inl hcalls }
  · next hc =>
      simp [h.pending hi] at hc

/-- A receiver that is invoked finds a signal installed. -/
theorem Counted.invoke {send : Bool} {t : State Op P V E} {o : Op} (h : Counted s)
    (hi : s.threads[i]? = some (.invoke o :: k)) (hs : Split.exec send s i k (.invoke o) = some t) :
    Counted t := by
  have hknown := h.head hi
  simp only [Split.exec] at hs
  split at hs
  · next sig hc =>
      obtain rfl := Option.some.inj hs
      exact h.goto hi [.setSignal o sig] [] rfl {
        owned := fun o' => by simp [owns, Instr.owned, State.elsewhere]
        strong := by simp [drops]
        assigned := by simp [assigns]
        known := by simp [Instr.Known, hc] }
  · next hc => exact absurd hc hknown

/-- The call of a derived receiver, with the signal of the completion. -/
theorem Counted.setSignal {send : Bool} {t : State Op P V E} {o : Op} {sig : Signal P V E}
    (h : Counted s)
    (hi : s.threads[i]? = some (.setSignal o sig :: k))
    (hs : Split.exec send s i k (.setSignal o sig) = some t) :
    Counted t := by
  have hknown := h.head hi
  obtain rfl := Option.some.inj hs
  have hc : s.completion = some sig := hknown
  exact h.goto hi [.inside] [] rfl {
    owned := fun o' => by
      simp [owns, Instr.owned, State.elsewhere]
      omega
    strong := by simp [drops, State.holders]
    assigned := by simp [assigns]
    known := by simp [Instr.Known, hc]
    called := fun c hcalls => (List.mem_append.mp hcalls).imp_right fun hcalls => by
      obtain rfl := List.mem_singleton.mp hcalls
      exact hc }

/-- The drop of a handle, never the last one while receivers are queued. -/
theorem Counted.dropHandle {send : Bool} {t : State Op P V E} (h : Counted s)
    (hi : s.threads[i]? = some (.dropHandle :: k))
    (hs : Split.exec send s i k .dropHandle = some t) :
    Counted t := by
  obtain rfl := Option.some.inj hs
  have hstrong := h.strong
  have hle := weight_le_total drops hi
  simp only [weight_cons, drops] at hle
  rw [release_eq (by omega)]
  exact h.goto hi [] [] rfl {
    owned := fun o' => by simp [owns, Instr.owned, State.elsewhere]
    strong := by
      simp [drops, State.holders]
      omega
    assigned := by simp [assigns]
    known := by simp }

/-- **An instruction keeps the counts.** -/
theorem Counted.exec {send : Bool} {t : State Op P V E} (h : Counted s) (hf : Fitted s)
    (hi : s.threads[i]? = some (ins :: k)) (hs : exec send s i k ins = some t) : Counted t := by
  cases ins with
  | lockState => exact h.lockState hf hi hs
  | lockOp => exact h.lockOp hf hi hs
  | unlockState | unlockOp | upstreamStart | inside =>
      obtain rfl := Option.some.inj hs
      exact h.next hi _ _ rfl rfl rfl
  | check o => exact h.check hi hs
  | takeOp => exact h.takeOp hi hs
  | assign sig => exact h.assign hi hs
  | invoke o => exact h.invoke hi hs
  | setSignal o sig => exact h.setSignal hi hs
  | dropHandle => exact h.dropHandle hi hs

end Counted

/-! ## Every step -/

/-- **No receiver starts a further operation of the split while its thread holds the completion
state.** -/
def Unguarded (s : State Op P V E) : Label Op P V E → Prop
  | .nested i _ => s.stateLock ≠ some i
  | _ => True

instance (s : State Op P V E) : DecidablePred (Unguarded s)
  | .nested i _ => inferInstanceAs (Decidable (s.stateLock ≠ some i))
  | .start _ => .isTrue trivial
  | .clone => .isTrue trivial
  | .drop => .isTrue trivial
  | .run _ => .isTrue trivial
  | .panic _ => .isTrue trivial
  | .signal _ => .isTrue trivial
  | .signalInline _ _ => .isTrue trivial
  | .die => .isTrue trivial
  | .dieInline _ => .isTrue trivial

/-- The invariant of a split. -/
structure Inv [DecidableEq Op] (s : State Op P V E) : Prop where
  fitted : Fitted s
  counted : Counted s

/-- New threads that hold nothing. -/
theorem Fitted.spawn (h : Fitted s) {t : State Op P V E} (spawned : List (List (Instr Op P V E)))
    (ht : t.threads = s.threads ++ spawned) (hstate : t.stateLock = s.stateLock)
    (hop : t.opLock = s.opLock) (hspawned : ∀ c ∈ spawned, Fits false false c) : Fitted t := by
  intro j
  rw [ht, hstate, hop]
  refine codeAt_append
    (fun j => Fits (decide (s.stateLock = some j)) (decide (s.opLock = some j))) h
    (fun c hc j hnil => ?_) j
  rw [hnil.1, hnil.2]
  exact hspawned c hc

section Step

variable [DecidableEq Op]

/-- A handle more than the queued receivers have is there for everybody who drops one. -/
theorem Counted.release_eq (h : Counted s)
    (hpos : 0 < s.handles + total drops s.threads + s.upstream.handles) :
    s.release = { s with strong := s.strong - 1 } :=
  Split.release_eq (by have := h.strong; omega)

/-- The upstream chain dies: its `CompletionReceiver` is destroyed. -/
theorem Counted.die (h : Counted s) (hrunning : s.upstream = .running) :
    Counted s.die := by
  have hstrong := h.strong
  rw [State.die, h.release_eq (by simp [hrunning, Upstream.handles])]
  exact h.spawn [] (by simp) {
    owned := fun o => by simp [State.elsewhere]
    strong := by
      simp [State.holders, hrunning, Upstream.handles] at hstrong ⊢
      omega
    assigned := by simp [hrunning, Upstream.calls]
    known := by simp
    starts := .inl ⟨rfl, rfl, by simp [hrunning]⟩
    delivered := fun sig hd => by simp [hrunning] at hd
    dropped := fun _ => rfl } (.inl (h.begun (.inr (by simp [hrunning]))))

theorem Counted.started_or_idle (h : Counted s) : s.started ≠ [] ∨ s.upstream = .idle :=
  or_iff_not_imp_right.mpr fun hidle => h.begun (.inr hidle)

/-- A user clones or drops a handle it owns. -/
theorem Counted.handles (h : Counted s) {m n : ℕ} (hmn : m + s.handles = n + s.strong) :
    Counted { s with handles := n, strong := m } :=
  h.spawn [] (by simp) {
    owned := fun o => by simp [State.elsewhere]
    strong := by
      simp [State.holders]
      omega
    assigned := by simp
    known := by simp } (h.started_or_idle.imp_right fun hidle => .inr ⟨rfl, hidle⟩)

omit [DecidableEq Op] in
theorem nodup_concat {o : Op} {l : List Op} (h : l.Nodup) (ho : o ∉ l) : (l ++ [o]).Nodup :=
  List.nodup_append.mpr ⟨h, by simp, fun a ha b hb => by
    obtain rfl := List.mem_singleton.mp hb
    exact fun hab => ho (hab ▸ ha)⟩

/-- The threads themselves do not matter to what a step may do. -/
theorem Moves.withThreads {t : State Op P V E} {gone code : List (Instr Op P V E)}
    {spawned : List (List (Instr Op P V E))} (hm : Moves s t gone code spawned)
    (threads : List (List (Instr Op P V E))) : Moves s { t with threads } gone code spawned :=
  { hm with }

/-- What may happen on a new thread may happen nested in the code of another one. -/
theorem Moves.inline {t : State Op P V E} {new : List (Instr Op P V E)}
    (hm : Moves s t [] [] [new]) {gone : List (Instr Op P V E)}
    (hknown : ∀ x ∈ gone, x.Known t.upstream t.completion) : Moves s t gone (new ++ gone) [] where
  owned o := by
    have howned := hm.owned o
    simp only [weight_append, weight_nil, total_cons, total_nil] at howned ⊢
    omega
  strong := by
    have hstrong := hm.strong
    simp only [weight_append, weight_nil, total_cons, total_nil] at hstrong ⊢
    omega
  assigned := by
    have hassigned := hm.assigned
    simp only [weight_append, weight_nil, total_cons, total_nil] at hassigned ⊢
    omega
  known x hx := by
    rw [List.flatten_nil, List.append_nil] at hx
    rcases List.mem_append.mp hx with hnew | hgone
    · exact hm.known x (by simpa using hnew)
    · exact hknown x hgone
  nodup := hm.nodup
  begun := hm.begun
  starts := .inl (hm.starts.resolve_right (by simp))
  queued hn := (hm.queued hn).imp_right fun ⟨hreceivers, hensures⟩ => ⟨hreceivers, by
    simp only [weight_append, weight_nil, total_cons, total_nil] at hensures ⊢
    omega⟩
  drained := hm.drained
  completion := hm.completion
  completed := hm.completed
  delivered := hm.delivered
  called := hm.called
  dropped := hm.dropped
  poisons := hm.poisons

/-- A new operation is started with one of the handles. -/
theorem moves_start {o : Op} (hnew : o ∉ s.started) (hpos : 0 < s.handles) :
    Moves s { s with started := s.started ++ [o], handles := s.handles - 1 } [] []
      [SplitOpState.start o] where
  owned o' := by
    simp [SplitOpState.start, owns, Instr.owned, State.elsewhere]
    omega
  strong := by
    simp [SplitOpState.start, drops, State.holders]
    omega
  assigned := by simp [SplitOpState.start, assigns]
  known := by simp [SplitOpState.start, Instr.Known]
  nodup hn := nodup_concat hn hnew
  begun := List.subset_append_left _ _
  queued _ := .inr ⟨rfl, by simp [SplitOpState.start, ensures]⟩

/-- The upstream chain signals. -/
theorem moves_signal (sig : Signal P V E) (hrunning : s.upstream = .running) :
    Moves s { s with upstream := .delivered sig } [] [] [CompletionReceiver.complete sig] where
  owned o := by simp [CompletionReceiver.complete, owns, Instr.owned, State.elsewhere]
  strong := by
    simp [CompletionReceiver.complete, drops, State.holders, hrunning, Upstream.handles]
    omega
  assigned := by
    simp [CompletionReceiver.complete, assigns, hrunning, Upstream.calls]
    omega
  known := by simp [CompletionReceiver.complete, Instr.Known]
  starts := .inl ⟨rfl, rfl, by simp [hrunning]⟩
  queued _ := .inr ⟨rfl, by simp [CompletionReceiver.complete, ensures]⟩
  delivered sig' hd := by simp [hrunning] at hd
  dropped hd := by simp [hrunning] at hd

/-- **Every step keeps the invariant.** -/
theorem Inv.step {send : Bool} {t : State Op P V E} {l : Label Op P V E} (h : Inv s)
    (hu : Unguarded s l) (hs : step send s l = some t) : Inv t := by
  obtain ⟨hf, hc⟩ := h
  cases l with
  | start o =>
      simp only [Split.step, Option.ite_none_right_eq_some, Option.some.injEq] at hs
      obtain ⟨⟨hnew, hpos⟩, rfl⟩ := hs
      refine ⟨hf.spawn [SplitOpState.start o] rfl rfl rfl ?_,
        hc.spawn [SplitOpState.start o] rfl ((moves_start hnew hpos).withThreads _)
          (.inr (.inl (by simp)))⟩
      simp [SplitOpState.start, Fits]
  | clone =>
      simp only [Split.step, Option.ite_none_right_eq_some, Option.some.injEq] at hs
      obtain ⟨hpos, rfl⟩ := hs
      exact ⟨hf, hc.handles (by omega)⟩
  | drop =>
      simp only [Split.step, Option.ite_none_right_eq_some, Option.some.injEq] at hs
      obtain ⟨hpos, rfl⟩ := hs
      have hstrong := hc.strong
      rw [hc.release_eq (by omega)]
      exact ⟨hf, hc.handles (by simp only; omega)⟩
  | run i =>
      simp only [Split.step] at hs
      split at hs
      · next ins k hi => exact ⟨hf.exec hi hs, hc.exec hf hi hs⟩
      · simp at hs
  | nested i o =>
      simp only [Split.step] at hs
      split at hs
      · next k hi =>
          simp only [Option.ite_none_right_eq_some, Option.some.injEq] at hs
          obtain ⟨⟨hnew, hpos⟩, rfl⟩ := hs
          have hhead := hf.head hi
          have hg : decide (s.stateLock = some i) = false := by simpa [Unguarded] using hu
          refine ⟨hf.goto hi _ [] rfl (fun _ _ => Iff.rfl) (fun _ _ => Iff.rfl) ?_ (by simp), ?_⟩
          · have hp := hhead.1 hg
            simp only [hg, hp] at hhead
            simpa [State.goto, hg, hp, SplitOpState.start, Fits] using hhead.2
          · exact hc.goto (t := { s with started := s.started ++ [o], handles := s.handles - 1 }) hi
              (SplitOpState.start o ++ [.inside]) [] rfl
              ((moves_start hnew hpos).inline (by simpa using hc.head hi))
      · simp at hs
  | panic i =>
      simp only [Split.step] at hs
      split at hs
      · next k hi =>
          obtain rfl := Option.some.inj hs
          have hknown := hc.head hi
          exact ⟨hf.unwind send hi k, hc.unwind send hi rfl rfl (.inl hknown)⟩
      · simp at hs
  | signal sig =>
      simp only [Split.step, Option.ite_none_right_eq_some, Option.some.injEq] at hs
      obtain ⟨hrunning, rfl⟩ := hs
      refine ⟨hf.spawn [CompletionReceiver.complete sig] rfl rfl rfl ?_,
        hc.spawn [CompletionReceiver.complete sig] rfl ((moves_signal sig hrunning).withThreads _)
          (.inl (hc.begun (.inr (by simp [hrunning]))))⟩
      simp [CompletionReceiver.complete, Fits]
  | signalInline i sig =>
      simp only [Split.step] at hs
      split at hs
      · next k hi =>
          simp only [Option.ite_none_right_eq_some, Option.some.injEq] at hs
          obtain ⟨hrunning, rfl⟩ := hs
          have hhead := hf.head hi
          refine ⟨hf.goto hi _ [] rfl (fun _ _ => Iff.rfl) (fun _ _ => Iff.rfl) ?_ (by simp), ?_⟩
          · exact ⟨hhead.1, rfl, rfl, rfl, hhead.2.1, hhead.2.2⟩
          · exact hc.goto (t := { s with upstream := .delivered sig }) hi
              (CompletionReceiver.complete sig ++ [.upstreamStart]) [] rfl
              ((moves_signal sig hrunning).inline (by simp [Instr.Known]))
      · simp at hs
  | die =>
      simp only [Split.step, Option.ite_none_right_eq_some, Option.some.injEq] at hs
      obtain ⟨hrunning, rfl⟩ := hs
      exact ⟨hf.spawn [] (by simp) (by simp) (by simp) (by simp), hc.die hrunning⟩
  | dieInline i =>
      simp only [Split.step] at hs
      split at hs
      · next k hi =>
          simp only [Option.ite_none_right_eq_some, Option.some.injEq] at hs
          obtain ⟨hrunning, rfl⟩ := hs
          have hf' : Fitted s.die := hf.spawn [] (by simp) (by simp) (by simp) (by simp)
          have hi' : s.die.threads[i]? = some (.upstreamStart :: k) := by simpa using hi
          refine ⟨hf'.unwind send hi' k, (hc.die hrunning).unwind send hi' rfl rfl (.inr ⟨rfl, ?_⟩)⟩
          simpa using (hf'.head hi').1
      · simp at hs

theorem Inv.fresh : Inv (Split.fresh : State Op P V E) where
  fitted i := by simp [codeAt, Split.fresh, Fits]
  counted := by
    constructor <;> simp [Split.fresh, State.places, Upstream.handles, Upstream.calls]

/-- **The invariant of every run that starts nothing under the guard.** -/
theorem Inv.inductive (send : Bool) :
    (machine Op P V E send).Inductive Unguarded (Inv : State Op P V E → Prop) where
  init := Inv.fresh
  step _ _ _ h hu hs := h.step hu hs

end Step

end SendersReceivers.Split
