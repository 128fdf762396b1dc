import SendersReceivers.Chain.Completion

/-!
# Chain/Exclusion — a chain runs on one thread at a time, and its references stay valid

A chain may be all over the place: a task in a pool, references of its `LetValue` functions
anywhere, threads that still drop what they have.  But only one of them is about to call user
functions and receivers, so these share memory without a lock.

    thread t: goes on ──spawn──▸ task ──take──▸ thread t': goes on
        └── only drops what it has left ──▸ …
-/

namespace SendersReceivers

open Machinery

variable {P V E U : Type}

/-- **`q` only drops what it has**: it calls no user function and no receiver, unless a handle turns
out to be the last one of its scope. -/
def Prog.Tidies : Prog P V E U → Prop
  | .ret => True
  | .call f k => f = id ∧ ∀ m, (k m).Tidies
  | .release _ _ k => k.Tidies
  | .reclaim _ _ k => k.Tidies
  | _ => False

/-- What gives back certain handles does nothing else. -/
theorem Prog.Clears.tidies {Γ : Scopes P V E U} {q : Prog P V E U} {held : Multiset ℕ} {cost : ℕ}
    (h : q.Clears Γ held cost) : q.Tidies := by
  induction q generalizing held cost with
  | ret => exact trivial
  | call f k ih =>
      obtain ⟨c, -, hf, hk⟩ := h
      exact ⟨hf, fun m => ih m (hk m)⟩
  | release s drop k _ ih =>
      obtain ⟨c, -, -, -, hk⟩ := h
      exact ih hk
  | reclaim s drop k _ ih =>
      obtain ⟨c, -, -, hk⟩ := h
      exact ih hk
  | enter | lazily | emit | newScope | store | clone | lend | spawn => exact h.elim

namespace Threads

section Books

variable {o : Outcome P V E U} {pinned : Multiset ℕ} {g : Ledger P V E U} {s : State P V E U}
  {th : Thread P V E U} {j : Job} {t : ℕ}

/-- A job without the duty only drops what it has. -/
theorem Books.tidies_of_inactive (h : Books o pinned g s) (hx : g.threads[t]? = some (th, j))
    (hidle : j.active = false) : th.code.Tidies := by
  have hfit := h.fits _ (List.mem_of_getElem? hx)
  simp only [Job.Fits, hidle] at hfit
  exact hfit.tidies

/-- One of two threads has no duty. -/
theorem Books.tidies_or (h : Books o pinned g s) {t' : ℕ} {th' : Thread P V E U}
    (ht : s.threads[t]? = some th) (ht' : s.threads[t']? = some th') (hne : t ≠ t') :
    th.code.Tidies ∨ th'.code.Tidies := by
  obtain ⟨j, hx⟩ := h.job ht
  obtain ⟨j', hx'⟩ := h.job ht'
  cases hactive : j.active with
  | false => exact .inl (h.tidies_of_inactive hx hactive)
  | true =>
      have howing : g.owing ≤ (th, j).2.active.toNat := by
        rw [hactive]
        exact h.owing_le
      have hmem : (th', j') ∈ g.threads.set t (th, ⟨0, 0, false⟩) :=
        List.mem_of_getElem? (by rwa [List.getElem?_set_ne hne])
      refine .inr (h.tidies_of_inactive hx' ?_)
      obtain heq | ⟨-, hidle⟩ := inactive_of_mem_set hx howing hmem
      · rw [(Prod.mk.inj heq).2]
      · exact hidle

/-- A task has the duty all by itself. -/
theorem Books.queue_eq (h : Books o pinned g s) {task : P × Prog P V E U} (htask : task ∈ s.queue) :
    s.queue = [task] ∧ ∀ th ∈ s.threads, th.code.Tidies := by
  have howing := h.owing_le
  have hall : weight (fun x : (P × Prog P V E U) × Job => x.2.active.toNat) g.queue =
      g.queue.length := calc
    _ = weight (fun _ => 1) g.queue := weight_congr _ fun x hx => by rw [(h.tasks x hx).1]; rfl
    _ = g.queue.length := by simp [weight]
  have hlength : s.queue.length = g.queue.length := by rw [← h.queue, List.length_map]
  have hpos : 0 < s.queue.length := List.length_pos_of_mem htask
  rw [Ledger.owing] at howing
  refine ⟨?_, fun th hth => ?_⟩
  · obtain ⟨task', hqueue⟩ := List.length_eq_one_iff.mp (show s.queue.length = 1 by omega)
    rw [hqueue] at htask ⊢
    rw [List.mem_singleton.mp htask]
  · obtain ⟨t, ht⟩ := List.mem_iff_getElem?.mp hth
    obtain ⟨j, hx⟩ := h.job ht
    refine h.tidies_of_inactive hx ?_
    have hle := le_weight (fun x : Thread P V E U × Job => x.2.active.toNat) hx
    cases hactive : j.active with
    | false => rfl
    | true =>
        simp only [hactive, Bool.toNat_true] at hle
        omega

/-- **A reference keeps its scope open**, and the signal back. -/
theorem Books.lent_open (h : Books o pinned g s) {p : ScopePtr P V E U} (hp : p ∈ s.lent) :
    p.id ≠ 0 ∧ 0 < s.world.strong p.id ∧ s.world.log = [] := by
  have hne := (h.lent p hp).1
  have hopen : 0 < s.world.strong p.id := by
    obtain ⟨i, hi⟩ := List.mem_iff_getElem?.mp hp
    have hle := le_weight (fun q : ScopePtr P V E U => if q.id = p.id then 1 else 0) hi
    have hcounts := h.counts p.id
    rw [Ledger.handles] at hcounts
    simp only [if_true] at hle
    omega
  refine ⟨hne, hopen, ?_⟩
  cases h.place with
  | running _ hlog => exact hlog
  | stored _ _ _ _ _ hlog => exact hlog
  | delivered _ _ _ hstack =>
      have hmem := h.live p.id hopen
      rw [hstack] at hmem
      exact absurd (List.mem_singleton.mp hmem) hne

end Books

/-! ## The results -/

section Results

variable [DecidableEq P]

/-- **User functions of one chain never run at the same time**: on every schedule, of any two
threads one only drops what it has, and while a task waits, all of them do. -/
theorem chain_sequential (c : Chain P V E U) (stop_token : Bool) (m : Mem V U) (home : Option P)
    (homes : List (Option P)) (as : List Label) (s : State P V E U)
    (hrun : (machine c stop_token m home homes).Run (fun _ _ => True) as s) :
    (∀ (t t' : ℕ) (th th' : Thread P V E U), s.threads[t]? = some th →
      s.threads[t']? = some th' → t ≠ t' → th.code.Tidies ∨ th'.code.Tidies) ∧
    ∀ task ∈ s.queue, s.queue = [task] ∧ ∀ th ∈ s.threads, th.code.Tidies := by
  obtain ⟨g₀, hinit⟩ := books_machine c stop_token m home homes
  obtain ⟨g, hg, -⟩ := Books.of_run rfl hinit hrun
  exact ⟨fun t t' th th' ht ht' hne => hg.tidies_or ht ht' hne, fun task htask => hg.queue_eq htask⟩

/-- While the first task of `travelling` waits, both threads only drop what they have. -/
theorem travelling_sequential :
    ∃ s task, (machine travelling false ⟨fun _ => [], ()⟩ none [some true, some false]).exec
        (machine travelling false ⟨fun _ => [], ()⟩ none [some true, some false]).init
        (travel.take 7) = some s ∧
      s.queue = [task] ∧ ∀ th ∈ s.threads, th.code.Tidies := by
  obtain ⟨s, hexec, hqueue⟩ : ∃ s,
      (machine travelling false ⟨fun _ => [], ()⟩ none [some true, some false]).exec
        (machine travelling false ⟨fun _ => [], ()⟩ none [some true, some false]).init
        (travel.take 7) = some s ∧ ¬s.queue.isEmpty := Machine.exec_ends (by decide +kernel)
  obtain ⟨task, queue, htask⟩ := List.exists_cons_of_ne_nil (mt List.isEmpty_iff.mpr hqueue)
  obtain ⟨-, htasks⟩ := chain_sequential travelling false ⟨fun _ => [], ()⟩ none
    [some true, some false] (travel.take 7) s (.of_exec (by decide +kernel) hexec)
  exact ⟨s, task, hexec, htasks task (htask ▸ .head _)⟩

/-- **References never dangle**: as long as user code has the `ScopedRefMut` of a `LetValue`, the
scope of that is open, and nothing has been delivered. -/
theorem references_valid (c : Chain P V E U) (stop_token : Bool) (m : Mem V U) (home : Option P)
    (homes : List (Option P)) (as : List Label) (s : State P V E U)
    (hrun : (machine c stop_token m home homes).Run (fun _ _ => True) as s)
    (p : ScopePtr P V E U) (hp : p ∈ s.lent) :
    p.id ≠ 0 ∧ 0 < s.world.strong p.id ∧ s.world.log = [] := by
  obtain ⟨g₀, hinit⟩ := books_machine c stop_token m home homes
  obtain ⟨g, hg, -⟩ := Books.of_run rfl hinit hrun
  exact hg.lent_open hp

theorem travelling_references :
    ∃ s p, (machine travelling false ⟨fun _ => [], ()⟩ none [some true, some false]).exec
        (machine travelling false ⟨fun _ => [], ()⟩ none [some true, some false]).init
        (travel.take 14) = some s ∧
      p ∈ s.lent ∧ 0 < s.world.strong p.id := by
  obtain ⟨s, hexec, hlent⟩ : ∃ s,
      (machine travelling false ⟨fun _ => [], ()⟩ none [some true, some false]).exec
        (machine travelling false ⟨fun _ => [], ()⟩ none [some true, some false]).init
        (travel.take 14) = some s ∧ ¬s.lent.isEmpty := Machine.exec_ends (by decide +kernel)
  obtain ⟨p, lent, hp⟩ := List.exists_cons_of_ne_nil (mt List.isEmpty_iff.mpr hlent)
  have hmem : p ∈ s.lent := hp ▸ .head _
  obtain ⟨-, hopen, -⟩ := references_valid travelling false ⟨fun _ => [], ()⟩ none
    [some true, some false] (travel.take 14) s (.of_exec (by decide +kernel) hexec) p hmem
  exact ⟨s, p, hexec, hmem, hopen⟩

end Results

end Threads

end SendersReceivers
