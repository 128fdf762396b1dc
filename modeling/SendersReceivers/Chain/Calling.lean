import SendersReceivers.Chain.Chains

/-!
# Chain/Calling — a chain on pools, and what it calls when it ends

A combinator that starts a chain puts a receiver of its own at the end, which shares some state with
whoever waits for the chain.  That state is a machine with steps of its own; one of its labels is
the call of the chain.

    chain ──▸ pools ──▸ call ──┐
                               ├──▸ the callee
    everybody else ──▸ own ────┘

The chain may have to wait for the callee, and the callee for the chain.
-/

namespace SendersReceivers.Threads

open Machinery

variable {P V E U τ β : Type}

/-- **What a chain calls**: `call` is the label of the call that a step of the chain makes, `own`
are the labels that others may take, and `free` the steps of the chain that need not wait. -/
structure Callee (P V E U τ β : Type) where
  machine : Machine τ β
  call : Label → τ → Signal P V E → β
  own : State P V E U → τ → β → Bool
  free : State P V E U → τ → Label → Bool

variable [DecidableEq P]

/-- The chain does a step, and if it ends with that, makes its call; or the callee does one. -/
def callingStep (N : Callee P V E U τ β) (s : State P V E U × τ) :
    Label ⊕ β → Option (State P V E U × τ)
  | .inl l =>
      if N.free s.1 s.2 l then
        (step s.1 l).bind fun t =>
          match told s.1 t with
          | some sig => (N.machine.step s.2 (N.call l s.2 sig)).map (Prod.mk t)
          | none => some (t, s.2)
      else none
  | .inr b => if N.own s.1 s.2 b then (N.machine.step s.2 b).map (Prod.mk s.1) else none

/-- The chain `c` on pools whose threads work for `pools`, and what it calls. -/
def calling (c : Child P V E U) (stop_token : Bool) (pools : List P) (N : Callee P V E U τ β) :
    Machine (State P V E U × τ) (Label ⊕ β) where
  init := ((c.machine stop_token pools).init, N.machine.init)
  step := callingStep N

variable {c : Child P V E U} {pools : List P} {N : Callee P V E U τ β}
  {as : List (Label ⊕ β)} {s s' : State P V E U × τ} {a : Label ⊕ β}
  {C : State P V E U × τ → Label ⊕ β → Prop}

theorem calling_eq (c : Child P V E U) (stop_token : Bool) (pools : List P)
    (N : Callee P V E U τ β) : calling c stop_token pools N = calling c false pools N := by
  unfold calling
  rw [c.machine_eq]

/-- **What a step does**: the chain goes on by itself, or makes its call, or the callee goes on. -/
theorem callingStep_cases (hs : callingStep N s a = some s') :
    (∃ l, a = .inl l ∧ step s.1 l = some s'.1 ∧
      (told s.1 s'.1 = none ∧ s'.2 = s.2 ∨
        ∃ sig, told s.1 s'.1 = some sig ∧ N.machine.step s.2 (N.call l s.2 sig) = some s'.2)) ∨
    ∃ b, a = .inr b ∧ s'.1 = s.1 ∧ N.own s.1 s.2 b ∧ N.machine.step s.2 b = some s'.2 := by
  cases a with
  | inl l =>
      simp only [callingStep, Option.ite_none_right_eq_some] at hs
      obtain ⟨-, hs⟩ := hs
      obtain ⟨t, ht, hs⟩ := Option.bind_eq_some_iff.mp hs
      refine .inl ⟨l, rfl, ?_⟩
      split at hs
      · next sig htold =>
          obtain ⟨t', ht', rfl⟩ := Option.map_eq_some_iff.mp hs
          exact ⟨ht, .inr ⟨sig, htold, ht'⟩⟩
      · next htold =>
          cases hs
          exact ⟨ht, .inl ⟨htold, rfl⟩⟩
  | inr b =>
      simp only [callingStep, Option.ite_none_right_eq_some] at hs
      obtain ⟨hown, hs⟩ := hs
      obtain ⟨t, ht, rfl⟩ := Option.map_eq_some_iff.mp hs
      exact .inr ⟨b, rfl, rfl, hown, ht⟩

/-- **What holds of the callee**, before the call and after it. -/
structure Called (c : Child P V E U) (pools : List P) (J : Option (Signal P V E) → τ → Prop)
    (s : State P V E U × τ) : Prop where
  run : ∃ as, (c.machine false pools).Run (fun _ _ => True) as s.1
  callee : J s.1.world.log.head? s.2

/-- **The rule of the call**: what the callee's own steps keep, and the call turns into what holds
after it, holds in every run. -/
theorem Called.inductive {J : Option (Signal P V E) → τ → Prop} (hinit : J none N.machine.init)
    (hown : ∀ ⦃o s t b t'⦄, J o t → C (s, t) (.inr b) → N.own s t b →
      N.machine.step t b = some t' → J o t')
    (hcall : ∀ ⦃l t t'⦄, J none t → N.machine.step t (N.call l t c.denote.signal) = some t' →
      J (some c.denote.signal) t') :
    (calling c false pools N).Inductive C (Called c pools J) where
  init := ⟨⟨[], .init⟩, hinit⟩
  step s a s' h hC hs := by
    obtain ⟨as, hrun⟩ := h.run
    have hcallee := h.callee
    obtain ⟨l, rfl, hl, hends⟩ | ⟨b, rfl, hsame, hb, ht⟩ := callingStep_cases hs
    · refine ⟨⟨_, hrun.step trivial hl⟩, ?_⟩
      obtain ⟨hnone, hlog⟩ | ⟨hsome, hempty, hlog⟩ := Child.told_step hrun hl
      · obtain ⟨-, ht⟩ | ⟨sig, hsig, -⟩ := hends
        · rw [hlog, ht]
          exact hcallee
        · simp [hnone] at hsig
      · obtain ⟨hnone, -⟩ | ⟨sig, hsig, ht⟩ := hends
        · simp [hsome] at hnone
        · obtain rfl : c.denote.signal = sig := by simpa [hsome] using hsig
          rw [hempty] at hcallee
          rw [hlog]
          exact hcall hcallee ht
    · exact ⟨⟨as, hsame ▸ hrun⟩, hsame ▸ hown hcallee hC hb ht⟩

/-- A run is one of the chain and one of the callee, and costs not more than the two. -/
theorem parts_of_calling {D : τ → β → Prop} {w : Label ⊕ β → ℕ} {v : β → ℕ}
    (hrun : (calling c false pools N).Run C as s)
    (hown : ∀ ⦃s t b⦄, C (s, t) (.inr b) → D t b ∧ w (.inr b) ≤ v b)
    (hcall : ∀ l t sig, D t (N.call l t sig)) (hw : ∀ l, w (.inl l) ≤ 1) :
    ∃ bs cs, (c.machine false pools).Run (fun _ _ => True) bs s.1 ∧ N.machine.Run D cs s.2 ∧
      (as.map w).sum ≤ bs.length + (cs.map v).sum := by
  refine hrun.parts rfl rfl fun s a s' hC hs => ?_
  obtain ⟨l, rfl, hl, ⟨-, ht⟩ | ⟨sig, -, ht⟩⟩ | ⟨b, rfl, hsame, -, ht⟩ := callingStep_cases hs
  · exact .inl ⟨⟨l, hl⟩, .inl ⟨ht, hw l⟩⟩
  · exact .inl ⟨⟨l, hl⟩, .inr ⟨_, hcall l s.2 sig, ht, (hw l).trans (Nat.le_add_right _ _)⟩⟩
  · exact .inr ⟨hsame, b, (hown hC).1, ht, (hown hC).2⟩

/-- A chain that need not wait, and whose call is answered, can not go on only where it could not by
itself. -/
theorem Called.stuck {J : Option (Signal P V E) → τ → Prop} (h : Called c pools J s)
    (hfree : ∀ l, N.free s.1 s.2 l)
    (hcall : ∀ l, J none s.2 → N.machine.step s.2 (N.call l s.2 c.denote.signal) ≠ none)
    (hstuck : ∀ l, callingStep N s (.inl l) = none) (l : Label) : step s.1 l = none := by
  by_contra hne
  obtain ⟨t, ht⟩ := Option.ne_none_iff_exists'.mp hne
  obtain ⟨as, hrun⟩ := h.run
  have hl := hstuck l
  simp only [callingStep, hfree l, if_true, ht, Option.bind_some] at hl
  obtain ⟨hnone, -⟩ | ⟨hsome, hempty, -⟩ := Child.told_step hrun ht
  · simp [hnone] at hl
  · have hcallee := h.callee
    rw [hempty] at hcallee
    rw [hsome] at hl
    exact hcall l hcallee (Option.map_eq_none_iff.mp hl)

end SendersReceivers.Threads
