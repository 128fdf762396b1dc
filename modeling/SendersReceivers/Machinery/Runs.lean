import Mathlib.Algebra.Order.Ring.Nat
import Mathlib.Data.List.Basic

/-!
# Machinery/Runs — step functions, their runs, invariants and termination

A machine is an initial state and a guarded step function.  A run is the list of its labels, and a
run may be held to a condition on the state before each step; an invariant under that condition
holds wherever such a run leads.

    init ──a₁──▸ s₁ ──a₂──▸ s₂ ── ⋯ ──▸ s        Run C [a₁, a₂, …] s
-/

namespace Machinery

/-- A transition system: `step s a` is `none` where `a` is not enabled in `s`. -/
structure Machine (σ α : Type*) where
  init : σ
  step : σ → α → Option σ

namespace Machine

variable {σ α : Type*} (M : Machine σ α)

/-- **`M.Run C as s`**: the steps `as` lead from the initial state to `s`, each of them taken in a
state in which `C` allows it. -/
inductive Run (C : σ → α → Prop) : List α → σ → Prop
  | init : Run C [] M.init
  | step {as : List α} {s s' : σ} {a : α} :
      Run C as s → C s a → M.step s a = some s' → Run C (as ++ [a]) s'

/-- An invariant of the runs held to `C`. -/
structure Inductive (C : σ → α → Prop) (I : σ → Prop) : Prop where
  init : I M.init
  step : ∀ ⦃s a s'⦄, I s → C s a → M.step s a = some s' → I s'

variable {M} {C : σ → α → Prop} {I J : σ → Prop} {as : List α} {s : σ}

/-- **The invariant rule.** -/
theorem Inductive.of_run (hI : M.Inductive C I) (h : M.Run C as s) : I s := by
  induction h with
  | init => exact hI.init
  | step _ hC hstep ih => exact hI.step ih hC hstep

/-- A weaker condition has more runs. -/
theorem Run.mono {C' : σ → α → Prop} (h : M.Run C as s) (hC : ∀ s a, C s a → C' s a) :
    M.Run C' as s := by
  induction h with
  | init => exact .init
  | step _ ha hstep ih => exact ih.step (hC _ _ ha) hstep

/-- …also where it is weaker only in the states that there are. -/
theorem Run.mono_of_inductive {C' : σ → α → Prop} (h : M.Run C as s) (hI : M.Inductive C I)
    (hC : ∀ s a, I s → C s a → C' s a) : M.Run C' as s := by
  induction h with
  | init => exact .init
  | step hrun ha hstep ih => exact ih.step (hC _ _ (hI.of_run hrun) ha) hstep

/-- A run held to a condition is a run. -/
theorem Run.any (h : M.Run C as s) : M.Run (fun _ _ => True) as s := h.mono fun _ _ _ => trivial

/-- A run whose labels are all in `D` is held to that, too. -/
theorem Run.of_labels {D : α → Prop} (h : M.Run C as s) (has : ∀ a ∈ as, D a) :
    M.Run (fun s a => C s a ∧ D a) as s := by
  induction h with
  | init => exact .init
  | step _ ha hstep ih =>
      have hlast := has _ (List.mem_append_right _ (.head _))
      exact (ih fun a h => has a (List.mem_append_left _ h)).step ⟨ha, hlast⟩ hstep

/-- **The counting rule**: `cost` of the labels spent so far, and what `potential` is still there,
stay below `budget`. -/
theorem Run.cost_le (cost : α → ℕ) (potential budget : σ → ℕ) (h : M.Run C as s)
    (hI : M.Inductive C I) (hinit : potential M.init ≤ budget M.init)
    (hstep : ∀ ⦃s a s'⦄, I s → C s a → M.step s a = some s' →
      cost a + potential s' + budget s ≤ potential s + budget s') :
    (as.map cost).sum + potential s ≤ budget s := by
  induction h with
  | init => simpa using hinit
  | step hrun hC hs ih =>
      have := hstep (hI.of_run hrun) hC hs
      simp only [List.map_append, List.map_cons, List.map_nil, List.sum_append, List.sum_cons,
        List.sum_nil]
      omega

/-- **The fuel rule**: an invariant that counts down with every step bounds the length of the
runs. -/
theorem Run.length_le {J : ℕ → σ → Prop} {n₀ : ℕ} (h : M.Run C as s) (hinit : J n₀ M.init)
    (hstep : ∀ ⦃n s a s'⦄, J n s → C s a → M.step s a = some s' → ∃ n' < n, J n' s') :
    ∃ n, J n s ∧ as.length + n ≤ n₀ := by
  induction h with
  | init => exact ⟨n₀, hinit, by simp⟩
  | step _ hC hs ih =>
      obtain ⟨n, hn, hle⟩ := ih
      obtain ⟨n', hlt, hn'⟩ := hstep hn hC hs
      exact ⟨n', hn', by simp; omega⟩

/-- **The exactness rule**, for the runs held to `B`: if a step that `C` does not allow leads to a
state with `bad`, which stays, and no run held to `C` leads there, then `C` tells exactly which runs
stay good. -/
theorem Run.good_iff_within {B : σ → α → Prop} {bad : σ → Prop} (h : M.Run B as s)
    (hI : M.Inductive B I)
    (hkeep : ∀ ⦃s a s'⦄, I s → bad s → B s a → M.step s a = some s' → bad s')
    (hbad : ∀ ⦃s a s'⦄, I s → B s a → ¬C s a → M.step s a = some s' → bad s')
    (hgood : ∀ ⦃as s⦄, M.Run (fun s a => B s a ∧ C s a) as s → ¬bad s) :
    ¬bad s ↔ M.Run (fun s a => B s a ∧ C s a) as s := by
  refine ⟨fun hs => ?_, fun h => hgood h⟩
  induction h with
  | init => exact .init
  | step hrun hB hstep ih =>
      have hinv := hI.of_run hrun
      refine .step (ih fun hb => hs (hkeep hinv hb hB hstep)) ⟨hB, ?_⟩ hstep
      exact Classical.not_not.mp fun hC => hs (hbad hinv hB hC hstep)

/-- …and for all runs. -/
theorem Run.good_iff {bad : σ → Prop} (h : M.Run (fun _ _ => True) as s)
    (hI : M.Inductive (fun _ _ => True) I)
    (hkeep : ∀ ⦃s a s'⦄, I s → bad s → M.step s a = some s' → bad s')
    (hbad : ∀ ⦃s a s'⦄, I s → ¬C s a → M.step s a = some s' → bad s')
    (hgood : ∀ ⦃as s⦄, M.Run C as s → ¬bad s) : ¬bad s ↔ M.Run C as s := by
  refine (h.good_iff_within hI (fun _ _ _ hs hb _ => hkeep hs hb) (fun _ _ _ hs _ => hbad hs)
    fun _ _ hrun => hgood (hrun.mono fun _ _ h => h.2)).trans ?_
  exact ⟨fun hrun => hrun.mono fun _ _ h => h.2, fun hrun => hrun.mono fun _ _ h => ⟨trivial, h⟩⟩

variable (M) in
/-- **`M.Always P as s`**: the steps `as` lead to `s`, and `P` holds in every state on the way. -/
def Always (P : σ → Prop) (as : List α) (s : σ) : Prop := M.Run (fun s _ => P s) as s ∧ P s

/-- **The exactness rule for every state of a run**: if `P` holds in the runs held to `C`, and
breaks with the first step that `C` does not allow, then `C` tells exactly where it always holds. -/
theorem Inductive.always_iff {P : σ → Prop} (hI : M.Inductive C I) (hgood : ∀ ⦃s⦄, I s → P s)
    (hbad : ∀ ⦃s a s'⦄, I s → ¬C s a → M.step s a = some s' → ¬P s') :
    M.Always P as s ↔ M.Run C as s := by
  constructor
  · rintro ⟨hrun, hs⟩
    induction hrun with
    | init => exact .init
    | step _ hP hstep ih =>
        have hrun := ih hP
        exact hrun.step (Classical.not_not.mp fun hC => hbad (hI.of_run hrun) hC hstep hs) hstep
  · intro hrun
    exact ⟨hrun.mono_of_inductive hI fun _ _ hI _ => hgood hI, hgood (hI.of_run hrun)⟩

variable (M) in
/-- `M.exec s as` takes the steps `as` one by one. -/
def exec : σ → List α → Option σ
  | s, [] => some s
  | s, a :: as => (M.step s a).bind fun s' => exec s' as

/-- Where a replay ends can be computed. -/
theorem exec_ends {p : σ → Prop} [DecidablePred p] (h : (M.exec s as).any (fun t => p t) = true) :
    ∃ t, M.exec s as = some t ∧ p t := by
  obtain ⟨t, ht, hp⟩ := (Option.any_eq_true _ _).mp h
  exact ⟨t, ht, of_decide_eq_true hp⟩

variable (M C) in
/-- Whether `C` allows every step of a replay. -/
def check [∀ s a, Decidable (C s a)] : σ → List α → Bool
  | _, [] => true
  | s, a :: as => C s a && (M.step s a).all fun s' => check s' as

/-- **The descent rule**: if in every state with `I` there is nothing left to do, or a step with a
label in `D` leads to a state with `I` and a smaller `potential`, then such steps lead to a state
with nothing left to do. -/
theorem exec_descends_within {D : α → Prop} {goal : σ → Prop} (potential : σ → ℕ)
    (h : ∀ s, I s → goal s ∨
      ∃ a s', D a ∧ M.step s a = some s' ∧ I s' ∧ potential s' < potential s)
    (hs : I s) : ∃ as t, (∀ a ∈ as, D a) ∧ M.exec s as = some t ∧ I t ∧ goal t := by
  induction hn : potential s using Nat.strong_induction_on generalizing s with
  | _ n ih =>
      obtain hgoal | ⟨a, s', ha, hstep, hI, hlt⟩ := h s hs
      · exact ⟨[], s, by simp, rfl, hs, hgoal⟩
      · obtain ⟨as, t, has, hexec, ht, hgoal⟩ := ih _ (hn ▸ hlt) hI rfl
        exact ⟨a :: as, t, List.forall_mem_cons.mpr ⟨ha, has⟩, by simp [exec, hstep, hexec], ht,
          hgoal⟩

/-- …with whatever labels. -/
theorem exec_descends {goal : σ → Prop} (potential : σ → ℕ)
    (h : ∀ s, I s → goal s ∨ ∃ a s', M.step s a = some s' ∧ I s' ∧ potential s' < potential s)
    (hs : I s) : ∃ as t, M.exec s as = some t ∧ I t ∧ goal t := by
  obtain ⟨as, t, -, hexec, ht⟩ := exec_descends_within (D := fun _ => True) potential
    (fun s hs => (h s hs).imp_right fun ⟨a, s', hstep⟩ => ⟨a, s', trivial, hstep⟩) hs
  exact ⟨as, t, hexec, ht⟩

/-- A replay in two parts. -/
theorem exec_append {as' : List α} :
    M.exec s (as ++ as') = (M.exec s as).bind fun t => M.exec t as' := by
  induction as generalizing s with
  | nil => rfl
  | cons a as ih =>
      simp only [List.cons_append, exec, Option.bind_assoc]
      exact congrArg _ (funext fun s' => ih)

/-- What every step preserves whose label is in `D`, every replay of such labels does. -/
theorem exec_preserves_within {D : α → Prop}
    (hstep : ∀ ⦃s a s'⦄, I s → D a → M.step s a = some s' → I s') (hs : I s)
    (has : ∀ a ∈ as, D a) {t : σ} (hexec : M.exec s as = some t) : I t := by
  induction as generalizing s with
  | nil => exact Option.some.inj hexec ▸ hs
  | cons a as ih =>
      obtain ⟨ha, has⟩ := List.forall_mem_cons.mp has
      obtain ⟨s', hs', hexec⟩ := Option.bind_eq_some_iff.mp hexec
      exact ih (hstep hs ha hs') has hexec

/-- What every step preserves, every replay does. -/
theorem exec_preserves (hstep : ∀ ⦃s a s'⦄, I s → M.step s a = some s' → I s') (hs : I s) {t : σ}
    (hexec : M.exec s as = some t) : I t :=
  exec_preserves_within (D := fun _ => True) (fun _ _ _ hs _ => hstep hs) hs
    (fun _ _ => trivial) hexec

/-- **The abstraction rule**: where `f` takes every step of `M` to one of `N` with the same label,
it takes replays to replays. -/
theorem exec_map {τ : Type*} {N : Machine τ α} {f : σ → τ} {D : α → Prop}
    (hkeep : ∀ ⦃s a s'⦄, I s → D a → M.step s a = some s' → I s')
    (hstep : ∀ ⦃s a⦄, I s → D a → (M.step s a).map f = N.step (f s) a) (hs : I s)
    (has : ∀ a ∈ as, D a) : (M.exec s as).map f = N.exec (f s) as := by
  induction as generalizing s with
  | nil => rfl
  | cons a as ih =>
      obtain ⟨ha, has⟩ := List.forall_mem_cons.mp has
      have hmap := hstep hs ha
      cases hM : M.step s a with
      | none =>
          rw [hM, Option.map_none] at hmap
          simp [exec, hM, ← hmap]
      | some s' =>
          rw [hM, Option.map_some] at hmap
          simpa [exec, hM, ← hmap] using ih (hkeep hs ha hM) has

/-- **The mapping rule**: where `f` takes every step of `M` to one of `N` with the same label, it
takes runs to runs. -/
theorem Run.map {τ : Type*} {N : Machine τ α} (f : σ → τ) (h : M.Run C as s)
    (hinit : f M.init = N.init)
    (hstep : ∀ ⦃s a s'⦄, C s a → M.step s a = some s' → N.step (f s) a = some (f s')) :
    N.Run (fun _ _ => True) as (f s) := by
  induction h with
  | init => exact hinit ▸ .init
  | step _ hC hs ih => exact ih.step trivial (hstep hC hs)

/-- **The simulation rule**: where a step of `N` does what a step of `M` does, or none has to, a run
of `N` does what a run of `M` does. -/
theorem Run.simulate {τ β : Type*} {N : Machine τ β} {R : σ → τ → Prop} (h : M.Run C as s)
    (hinit : R M.init N.init)
    (hstep : ∀ ⦃s a s' t⦄, R s t → C s a → M.step s a = some s' →
      R s' t ∨ ∃ b t', N.step t b = some t' ∧ R s' t') :
    ∃ bs t, N.Run (fun _ _ => True) bs t ∧ R s t := by
  induction h with
  | init => exact ⟨[], N.init, .init, hinit⟩
  | step _ hC hs ih =>
      obtain ⟨bs, t, hrun, hR⟩ := ih
      obtain hR' | ⟨b, t', ht, hR'⟩ := hstep hR hC hs
      · exact ⟨bs, t, hrun, hR'⟩
      · exact ⟨bs ++ [b], t', hrun.step trivial ht, hR'⟩

/-- A replay whose steps `C` allows continues a run. -/
theorem Run.exec [∀ s a, Decidable (C s a)] {as' : List α} {s' : σ} (h : M.Run C as s)
    (hC : M.check C s as' = true) (hexec : M.exec s as' = some s') : M.Run C (as ++ as') s' := by
  induction as' generalizing as s with
  | nil =>
      obtain rfl : s = s' := by simpa [Machine.exec] using hexec
      simpa using h
  | cons a as' ih =>
      obtain ⟨s₁, hs₁, hexec⟩ := Option.bind_eq_some_iff.mp hexec
      simp only [Machine.check, hs₁, Option.all_some, Bool.and_eq_true, decide_eq_true_eq] at hC
      simpa using ih (h.step hC.1 hs₁) hC.2 hexec

theorem Run.of_exec [∀ s a, Decidable (C s a)] (hC : M.check C M.init as = true)
    (hexec : M.exec M.init as = some s) : M.Run C as s :=
  Run.exec .init hC hexec

end Machine

end Machinery
