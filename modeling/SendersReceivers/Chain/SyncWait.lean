import SendersReceivers.Chain.Delivery

/-!
# Chain/SyncWait — an inline chain at its outermost receiver

The receiver a chain is connected to gets one signal, the chain's denotation, before `start`
returns; `sync_wait` hands that signal to its caller, once the scope is left (`Scope/SameThread`).
It takes functions that let go of the stored tuple: a `ScopedRefMut` keeps its scope live, so the
stage of a function that stashes one has not ended when `start` returns.
-/

namespace SendersReceivers

variable {P V E U : Type}

/-- What `start` leaves of `w`: one more signal in the log, and every handle given back. -/
structure Signalled (w : World P V E U) (o : Outcome P V E U) (w' : World P V E U) : Prop where
  log : w'.log = w.log ++ [o.signal]
  mem : w'.mem = o.mem
  strong : ∀ i < w.next, w'.strong i = w.strong i
  shared : ∀ i < w.next, w'.shared i = w.shared i

/-- The recorder takes any outcome, as long as somebody holds the scope. -/
theorem accepts_recorder {scope : ScopePtr P V E U} {w : World P V E U} (o : Outcome P V E U)
    (hlive : 0 < w.strong scope.id) : Accepts recorder scope w o (Signalled w o) := by
  intro w₁ hL hm _
  have hlands : Lands (recorder.deliver o.signal) w₁
      fun w₂ => w₂ = { w₁ with log := w₁.log ++ [o.signal] } := by
    cases o.signal <;> simp [Receiver.deliver, recorder]
  refine hlands.mono fun w₂ h₂ => ?_
  subst h₂
  refine ⟨by simpa using hlive, fun w' hw' => ⟨?_, ?_, fun i hi => ?_, fun i hi => ?_⟩⟩
  · rw [hw'.log, hL.log]
  · rw [hw'.mem, hm]
  · have := hw'.strong i hi
    simp only at this
    omega
  · rw [hw'.shared i hi, hL.shared i hi]

/-- The root scope, which `scope` keeps alive until its function has returned. -/
def rootScope : ScopePtr P V E U where
  id := 0
  drop _ := .ret

/-- The state in which `scope` calls its function. -/
def World.root (m : Mem V U) : World P V E U where
  mem := m
  next := 1
  strong := Function.update (fun _ => 0) 0 1
  shared _ := none
  log := []

/-- **A chain on inline schedulers delivers its denotation, exactly once.**  Its receiver gets that
signal and no other, and no scope handle is left over. -/
theorem Chain.start_signals_denote (c : Chain P V E U) (hinline : c.Inline) (hreleases : c.Releases)
    (stop_token : Bool) (scope : ScopePtr P V E U) (w : World P V E U) (hscope : scope.id < w.next)
    (hlive : 0 < w.strong scope.id) :
    ∃ w', (c.start scope stop_token recorder).exec w = .ok w' ∧
      Signalled w (c.denote stop_token w.mem w.next) w' :=
  lands_start c hinline hreleases stop_token hscope (accepts_recorder _ hlive)

/-- `Just::from((6,)) | LetValue` whose function sets the stored tuple to `(5,)`, then `(7, 8)`. -/
def mutating (keep : Bool) : Chain Unit ℕ Unit Unit :=
  .letValue (.just .immediate [6]) (fun _ s m => (.ok (), m.setCell s [5]))
    (fun _ _ _ => .just .immediate [7, 8]) (fun _ _ => keep)

theorem mutating_signals_denote :
    (mutating false).Inline ∧ (mutating false).Releases ∧
      ∃ w', ((mutating false).start rootScope false recorder).exec (World.root ⟨fun _ => [], ()⟩) =
        .ok w' ∧ w'.log = [.value .immediate [5, 7, 8]] := by
  have hinline : (mutating false).Inline := ⟨trivial, fun _ _ _ => trivial⟩
  have hreleases : (mutating false).Releases :=
    ⟨trivial, fun _ _ _ => trivial, fun _ _ => rfl⟩
  obtain ⟨w', hw', hsig⟩ := (mutating false).start_signals_denote hinline hreleases false rootScope
    (World.root ⟨fun _ => [], ()⟩) Nat.zero_lt_one Nat.zero_lt_one
  exact ⟨hinline, hreleases, w', hw', hsig.log⟩

/-- **A stashed reference keeps the signal back**: the same chain, but its function hands the
`ScopedRefMut` to somebody else; `start` returns, and the receiver got nothing. -/
theorem stashed_reference_signals_nothing :
    (mutating true).Inline ∧
      ∃ w', ((mutating true).start rootScope false recorder).exec (World.root ⟨fun _ => [], ()⟩) =
        .ok w' ∧ w'.log = [] :=
  ⟨⟨trivial, fun _ _ _ => trivial⟩, _, rfl, rfl⟩

end SendersReceivers
