import SendersReceivers.Chain.Schedules

/-!
# Chain/Completion — every schedule of a chain ends, with its denotation

The books are right at the beginning, and each step leaves less to do.  Where no step is left, the
signal has been delivered, unless a task waits for a pool that has no thread.
-/

namespace SendersReceivers.Threads

open Machinery

variable {P V E U : Type}

/-! ## The beginning -/

/-- The root scope, and no other. -/
def rootScopes : Scopes P V E U := Scopes.insert (fun _ => none) 0 ⟨fun _ => .ret, 0⟩

theorem fresh_rootScopes : (rootScopes : Scopes P V E U).Fresh 1 := by
  intro i hi
  rw [rootScopes, Scopes.insert, Function.update_of_ne (by omega)]

theorem innermost_rootScope : Innermost (rootScopes : Scopes P V E U) rootScope [0] :=
  ⟨rfl, 0, Scopes.insert_self⟩

/-- Thread `0` is about to run `code`, and the others have nothing to do. -/
def begin (code : Prog P V E U) (m : Mem V U) (home : Option P) (homes : List (Option P)) :
    State P V E U where
  threads := ⟨home, code⟩ :: homes.map fun h => ⟨h, .ret⟩
  queue := []
  lent := []
  world := World.root m
  calls := []
  panics := []

/-- The ledger at the beginning. -/
def Ledger.begin (code : Prog P V E U) (home : Option P) (homes : List (Option P)) (j : Job) :
    Ledger P V E U where
  scopes := rootScopes
  stack := [0]
  threads := (⟨home, code⟩, j) :: homes.map fun h => (⟨h, .ret⟩, ⟨0, 0, false⟩)
  queue := []
  pending := 0

/-- Threads that have nothing to do weigh nothing. -/
theorem weight_homes (w : Thread P V E U × Job → ℕ) (homes : List (Option P))
    (hw : ∀ h, w (⟨h, .ret⟩, ⟨0, 0, false⟩) = 0) :
    weight w (homes.map fun h => (⟨h, .ret⟩, ⟨0, 0, false⟩)) = 0 := by
  simp [weight, Function.comp_def, hw]

/-- **The books are right at the beginning**: somebody has the one handle of the root scope. -/
theorem Books.begin {o : Outcome P V E U} {pinned : Multiset ℕ} {code : Prog P V E U} {m : Mem V U}
    (home : Option P) (homes : List (Option P)) {held : Multiset ℕ} {cost : ℕ}
    (hcode : Owes o pinned rootScopes held code ⟨m, 1, [0]⟩ cost) (hone : pinned + held = {0}) :
    Books o pinned (.begin code home homes ⟨held, cost, true⟩)
      (Threads.begin code m home homes) where
  threads := by simp [Ledger.begin, Threads.begin]
  queue := rfl
  fits := by
    intro x hx
    obtain rfl | hx := List.mem_cons.mp hx
    · exact hcode
    · obtain ⟨h, -, rfl⟩ := List.mem_map.mp hx
      rfl
  tasks := by simp [Ledger.begin]
  lent := by simp [Threads.begin]
  nested := rfl
  fresh := fresh_rootScopes
  root := by simp [Ledger.begin, rootScopes]
  counts := by
    intro i
    have hcount := congrArg (Multiset.count i) hone
    rw [Multiset.count_add, Multiset.count_singleton] at hcount
    simp only [Ledger.handles, Ledger.begin, Threads.begin, weight_cons, weight_nil, World.root,
      weight_homes (fun x => x.2.held.count i) homes fun h => Multiset.count_zero i]
    have hinside : inside (rootScopes : Scopes P V E U) i 0 = 0 := by simp [inside, rootScopes]
    rw [Function.update_apply, hinside]
    omega
  live := by
    intro i hi
    by_contra hne
    have hne : i ≠ 0 := by simpa [Ledger.begin] using hne
    simp [Threads.begin, World.root, hne] at hi
  place := by
    refine .running ?_ rfl fun _ => rfl
    simp [Ledger.owing, Ledger.begin, weight_homes]
  panics := rfl

/-! ## The end -/

/-- Whether a run has come to its end. -/
def isRet : Prog P V E U → Bool
  | .ret => true
  | _ => false

@[simp] theorem isRet_iff {q : Prog P V E U} : isRet q = true ↔ q = .ret := by
  cases q <;> simp [isRet]

/-- **Nothing is left to do**: the signal has been delivered, and every handle given back but those
that whoever started the chain keeps. -/
structure Finished (o : Outcome P V E U) (pinned : Multiset ℕ) (s : State P V E U) : Prop where
  log : s.world.log = [o.signal]
  mem : s.world.mem = o.mem
  strong : ∀ i, s.world.strong i = pinned.count i
  shared : ∀ i, s.world.shared i = none
  code : ∀ th ∈ s.threads, th.code = .ret
  queue : s.queue = []
  lent : s.lent = []

section Finished

variable {o : Outcome P V E U} {pinned : Multiset ℕ} {g : Ledger P V E U} {s s' : State P V E U}

/-- A thread that is not done can go on. -/
theorem exec_isSome {t : ℕ} {th : Thread P V E U} (h : th.code ≠ .ret) : (exec s t th).isSome := by
  unfold exec
  split
  next hret => exact absurd hret h
  all_goals first | rfl | split <;> rfl

/-- A thread goes on by itself. -/
theorem exec_threads {t : ℕ} {th : Thread P V E U} (hs : Threads.exec s t th = some s') :
    ∃ code, s'.threads = s.threads.set t { th with code := code } := by
  unfold Threads.exec at hs
  split at hs
  next => cases hs
  all_goals first
    | cases hs; exact ⟨_, rfl⟩
    | split at hs <;> cases hs <;> exact ⟨_, rfl⟩

/-- Threads that are done have no handle, and not the duty. -/
theorem Books.weight_done (h : Books o pinned g s) (hcode : ∀ th ∈ s.threads, th.code = .ret) :
    weight (fun x => x.2.active.toNat) g.threads = 0 ∧
    ∀ i, weight (fun x => x.2.held.count i) g.threads = 0 := by
  have hdone : ∀ x ∈ g.threads, x.2.active = false ∧ x.2.held = 0 := by
    intro x hx
    obtain ⟨t, ht⟩ := List.mem_iff_getElem?.mp hx
    have hth : x.1 ∈ s.threads := h.threads ▸ List.mem_map_of_mem hx
    exact h.idle_of_ret ht (hcode x.1 hth)
  have hzero : ∀ w : Thread P V E U × Job → ℕ, (∀ x ∈ g.threads, w x = 0) →
      weight w g.threads = 0 := by
    intro w hw
    rw [weight_congr w hw]
    simp [weight]
  exact ⟨hzero _ fun x hx => by simp [(hdone x hx).1],
    fun i => hzero _ fun x hx => by simp [(hdone x hx).2]⟩

/-- **With nothing left to do, the signal has been delivered**: nobody has a handle of the innermost
scope, which could keep a stored signal back. -/
theorem Books.finished (h : Books o pinned g s) (hpinned : pinned ≤ {0})
    (hcode : ∀ th ∈ s.threads, th.code = .ret) (hqueue : s.queue = []) (hlent : s.lent = []) :
    Finished o pinned s := by
  obtain ⟨hactive, hheld⟩ := h.weight_done hcode
  have hqueue' : g.queue = [] := by
    rw [← h.queue] at hqueue
    exact List.map_eq_nil_iff.mp hqueue
  have hcounts : ∀ i, s.world.strong i = weight (inside g.scopes i) g.stack + pinned.count i := by
    intro i
    rw [h.counts i, Ledger.handles, hheld, hqueue', hlent]
    simp
  cases h.place with
  | running howing => simp [Ledger.owing, hactive, hqueue'] at howing
  | stored i stack e sig _ _ hstack _ _ hopen hinner =>
      have hnested := h.nested
      rw [hstack] at hnested
      obtain ⟨j, stack, rfl⟩ := List.exists_cons_of_ne_nil hinner
      have hi : i ≠ 0 := by
        have := hnested.lt (.head _)
        omega
      have hnone : pinned.count i = 0 := by
        have := Multiset.count_le_of_le i hpinned
        rw [Multiset.count_singleton, if_neg hi] at this
        omega
      have hpos : 0 < weight (inside g.scopes i) g.stack := by
        have := hcounts i
        omega
      obtain ⟨n, k, hk, hin⟩ := exists_of_weight_pos _ hpos
      have hk : k ∈ g.stack := List.mem_of_getElem? hk
      have hlt := h.nested.inside_lt h.root hk hin
      rw [hstack] at hk
      obtain rfl | hk := List.mem_cons.mp hk
      · exact absurd hlt (lt_irrefl _)
      · exact absurd (hnested.lt hk) (by omega)
  | delivered _ hlog hmem hstack hshared =>
      refine ⟨hlog, hmem, fun i => ?_, hshared, hcode, hqueue, hlent⟩
      rw [hcounts, hstack]
      simp [inside, h.root]

/-- The receiver has got nothing yet, or the denotation. -/
theorem Books.delivers (h : Books o pinned g s) :
    s.panics = [] ∧ (s.world.log = [] ∨ s.world.log = [o.signal] ∧ s.world.mem = o.mem) := by
  refine ⟨h.panics, ?_⟩
  cases h.place with
  | running _ hlog => exact .inl hlog
  | stored _ _ _ _ _ hlog => exact .inl hlog
  | delivered _ hlog hmem => exact .inr ⟨hlog, hmem⟩

/-- Another code does not change the pool a thread works for. -/
theorem map_home_set {threads : List (Thread P V E U)} {t : ℕ} {th : Thread P V E U}
    (code : Prog P V E U) (ht : threads[t]? = some th) :
    (threads.set t { th with code := code }).map Thread.home = threads.map Thread.home := by
  obtain ⟨hlt, rfl⟩ := List.getElem?_eq_some_iff.mp ht
  rw [List.map_set]
  exact List.ext_getElem (by simp) fun i _ _ => by simp [List.getElem_set]; rintro rfl; rfl

variable [DecidableEq P]

/-- A step changes nothing about which thread works for which pool. -/
theorem step_homes {l : Label} (hs : Threads.step s l = some s') :
    s'.threads.map Thread.home = s.threads.map Thread.home := by
  cases l with
  | exec t =>
      obtain ⟨th, ht, hs⟩ := Option.bind_eq_some_iff.mp hs
      obtain ⟨code, hcode⟩ := exec_threads hs
      rw [hcode, map_home_set code ht]
  | take t i =>
      obtain ⟨th, ht, hs⟩ := Option.bind_eq_some_iff.mp hs
      obtain ⟨task, -, hs⟩ := Option.bind_eq_some_iff.mp hs
      unfold Threads.take at hs
      split at hs
      · split_ifs at hs
        cases hs
        exact map_home_set _ ht
      · cases hs
  | dropRef t i =>
      obtain ⟨th, ht, hs⟩ := Option.bind_eq_some_iff.mp hs
      obtain ⟨p, -, rfl⟩ := Option.map_eq_some_iff.mp hs
      exact map_home_set _ ht

/-- **A state in which nothing can happen** is the end, unless a task waits for a pool that has no
thread. -/
theorem Books.stuck (h : Books o pinned g s) (hpinned : pinned ≤ {0}) (hthreads : s.threads ≠ [])
    (hstuck : ∀ l, Threads.step s l = none) :
    (∃ task ∈ s.queue, ∀ th ∈ s.threads, th.home ≠ some task.1) ∨ Finished o pinned s := by
  have hcode : ∀ th ∈ s.threads, th.code = .ret := by
    intro th hth
    by_contra hne
    obtain ⟨t, ht⟩ := List.mem_iff_getElem?.mp hth
    obtain ⟨s', hs'⟩ := Option.isSome_iff_exists.mp (exec_isSome hne : (Threads.exec s t th).isSome)
    have := hstuck (.exec t)
    simp [Threads.step, ht, hs'] at this
  have hlent : s.lent = [] := by
    by_contra hne
    obtain ⟨p, lent, hp⟩ := List.exists_cons_of_ne_nil hne
    obtain ⟨th, threads, hth⟩ := List.exists_cons_of_ne_nil hthreads
    have := hstuck (.dropRef 0 0)
    simp [Threads.step, hp, hth] at this
  by_cases hqueue : s.queue = []
  · exact .inr (h.finished hpinned hcode hqueue hlent)
  · obtain ⟨task, queue, htask⟩ := List.exists_cons_of_ne_nil hqueue
    refine .inl ⟨task, htask ▸ .head _, fun th hth hhome => ?_⟩
    obtain ⟨t, ht⟩ := List.mem_iff_getElem?.mp hth
    have := hstuck (.take t 0)
    simp [Threads.step, Threads.take, ht, htask, hcode th hth, hhome] at this

/-- Where nothing is left to do, nothing can happen. -/
theorem step_eq_none (hcode : ∀ th ∈ s.threads, th.code = .ret) (hqueue : s.queue = [])
    (hlent : s.lent = []) (l : Label) : Threads.step s l = none := by
  cases l with
  | exec t =>
      cases ht : s.threads[t]? with
      | none => simp [Threads.step, ht]
      | some th => simp [Threads.step, ht, Threads.exec, hcode th (List.mem_of_getElem? ht)]
  | take t i => simp [Threads.step, hqueue]
  | dropRef t i => simp [Threads.step, hlent]

end Finished

/-! ## The results -/

section Results

variable [DecidableEq P] {o : Outcome P V E U} {pinned : Multiset ℕ}

/-- **The books are right in every state of a run**, and each step has left less to do. -/
theorem Books.of_run {M : Machine (State P V E U) Label} (hstep : M.step = Threads.step)
    {g₀ : Ledger P V E U} (hinit : Books o pinned g₀ M.init) {as : List Label} {s : State P V E U}
    (hrun : M.Run (fun _ _ => True) as s) :
    ∃ g, Books o pinned g s ∧ as.length + g.potential s ≤ g₀.potential M.init := by
  let J : ℕ → State P V E U → Prop := fun n s => ∃ g, Books o pinned g s ∧ g.potential s = n
  have hcount : ∀ ⦃n s l s'⦄, J n s → True → M.step s l = some s' → ∃ n' < n, J n' s' := by
    rintro n s l s' ⟨g, hg, rfl⟩ - hs
    rw [hstep] at hs
    obtain ⟨g', hg', hlt⟩ := hg.step hs
    exact ⟨g'.potential s', hlt, g', hg', rfl⟩
  obtain ⟨n, ⟨g, hg, rfl⟩, hle⟩ := hrun.length_le (J := J) ⟨g₀, hinit, rfl⟩ hcount
  exact ⟨g, hg, hle⟩

/-- Nor does a run. -/
theorem homes_of_run {M : Machine (State P V E U) Label} (hstep : M.step = Threads.step)
    {as : List Label} {s : State P V E U} (hrun : M.Run (fun _ _ => True) as s) :
    s.threads.map Thread.home = M.init.threads.map Thread.home := by
  refine Machine.Inductive.of_run (M := M) (C := fun _ _ => True)
    (I := fun s => s.threads.map Thread.home = M.init.threads.map Thread.home)
    ⟨rfl, fun s l s' h _ hs => ?_⟩ hrun
  rw [hstep] at hs
  exact (step_homes hs).trans h

/-- The chain has been started, and the books are right. -/
theorem books_machine (c : Chain P V E U) (stop_token : Bool) (m : Mem V U) (home : Option P)
    (homes : List (Option P)) :
    ∃ g, Books (c.denote stop_token m 1) {0} g (machine c stop_token m home homes).init := by
  have hanchor : Anchored [0] ({0} + 0 : Multiset ℕ) := by simp [Anchored]
  obtain ⟨cost, hstart⟩ := delivers_start c stop_token innermost_rootScope fresh_rootScopes hanchor
    (takes_recorder (c.denote stop_token m 1))
  exact ⟨_, Books.begin home homes hstart rfl⟩

section Machine

variable {c : Chain P V E U} {stop_token : Bool} {m : Mem V U} {home : Option P}
  {homes : List (Option P)} {as : List Label} {s : State P V E U}

theorem delivers_of_run (hrun : (machine c stop_token m home homes).Run (fun _ _ => True) as s) :
    s.panics = [] ∧ (s.world.log = [] ∨ s.world.log = [(c.denote stop_token m 1).signal] ∧
      s.world.mem = (c.denote stop_token m 1).mem) := by
  obtain ⟨g₀, hinit⟩ := books_machine c stop_token m home homes
  obtain ⟨g, hg, -⟩ := Books.of_run rfl hinit hrun
  exact hg.delivers

variable (c stop_token m home homes) in
theorem bounded_runs : ∃ bound, ∀ as s,
    (machine c stop_token m home homes).Run (fun _ _ => True) as s → as.length ≤ bound := by
  obtain ⟨g₀, hinit⟩ := books_machine c stop_token m home homes
  refine ⟨g₀.potential (machine c stop_token m home homes).init, fun as s hrun => ?_⟩
  obtain ⟨g, -, hle⟩ := Books.of_run rfl hinit hrun
  omega

theorem finished_of_stuck (hrun : (machine c stop_token m home homes).Run (fun _ _ => True) as s)
    (hstuck : ∀ l, Threads.step s l = none) :
    (∃ task ∈ s.queue, some task.1 ∉ home :: homes) ∨ Finished (c.denote stop_token m 1) {0} s := by
  obtain ⟨g₀, hinit⟩ := books_machine c stop_token m home homes
  obtain ⟨g, hg, -⟩ := Books.of_run rfl hinit hrun
  have hhomes : s.threads.map Thread.home = home :: homes :=
    (homes_of_run rfl hrun).trans (by simp [machine, start, Function.comp_def])
  have hthreads : s.threads ≠ [] := by
    rintro hnil
    simp [hnil] at hhomes
  refine (hg.stuck le_rfl hthreads hstuck).imp (fun ⟨task, htask, hnone⟩ => ?_) id
  refine ⟨task, htask, fun hmem => ?_⟩
  rw [← hhomes] at hmem
  obtain ⟨th, hth, hhome⟩ := List.mem_map.mp hmem
  exact hnone th hth hhome

end Machine

/-- **One signal, the right one, on every schedule**: whichever threads take the tasks of a chain
and in whatever order, no thread panics, and its receiver gets nothing but its denotation, once. -/
theorem chain_delivers (c : Chain P V E U) (stop_token : Bool) (m : Mem V U) (home : Option P)
    (homes : List (Option P)) (as : List Label) (s : State P V E U)
    (hrun : (machine c stop_token m home homes).Run (fun _ _ => True) as s) :
    s.panics = [] ∧ (s.world.log = [] ∨ s.world.log = [(c.denote stop_token m 1).signal] ∧
      s.world.mem = (c.denote stop_token m 1).mem) := delivers_of_run hrun

/-- **Every schedule ends**, after a bounded number of steps; and where it can not go on, the signal
has been delivered and nothing is left over, unless a task waits for a pool that has no thread. -/
theorem chain_completes (c : Chain P V E U) (stop_token : Bool) (m : Mem V U) (home : Option P)
    (homes : List (Option P)) :
    (∃ bound, ∀ as s, (machine c stop_token m home homes).Run (fun _ _ => True) as s →
      as.length ≤ bound) ∧
    ∀ as s, (machine c stop_token m home homes).Run (fun _ _ => True) as s →
      (∀ l, step s l = none) →
      (∃ task ∈ s.queue, some task.1 ∉ home :: homes) ∨
        Finished (c.denote stop_token m 1) {0} s :=
  ⟨bounded_runs c stop_token m home homes, fun _ _ hrun hstuck => finished_of_stuck hrun hstuck⟩

/-- `Just::from((6,))` moved to one pool, a `LetValue` there whose function keeps its reference, and
a sender inside that ends on the other pool. -/
def travelling : Chain Bool ℕ Unit Unit :=
  .letValue (.transfer (.just .immediate [6]) (.pool true)) (fun _ _ m => (.ok (), m))
    (fun _ _ _ => .transfer (.just .immediate [7]) (.pool false)) fun _ _ => true

/-- A thread of each pool, and somebody else drops the reference while the chain goes on. -/
def travel : List Label :=
  List.replicate 7 (.exec 0) ++ .take 1 0 :: List.replicate 6 (.exec 1) ++
    [.dropRef 0 0, .exec 0] ++ List.replicate 10 (.exec 1) ++ .take 2 0 ::
    List.replicate 10 (.exec 2)

theorem travel_ends :
    ∃ s, (machine travelling false ⟨fun _ => [], ()⟩ none [some true, some false]).exec
        (machine travelling false ⟨fun _ => [], ()⟩ none [some true, some false]).init travel =
        some s ∧
      s.world.log ≠ [] ∧ (∀ th ∈ s.threads, isRet th.code) ∧ s.queue.isEmpty ∧ s.lent.isEmpty :=
  Machine.exec_ends (by decide +kernel)

theorem travelling_delivers :
    ∃ s, (machine travelling false ⟨fun _ => [], ()⟩ none [some true, some false]).exec
        (machine travelling false ⟨fun _ => [], ()⟩ none [some true, some false]).init travel =
        some s ∧
      s.panics = [] ∧ s.world.log = [.value (.pool false) [6, 7]] := by
  obtain ⟨s, hexec, hlog, -⟩ := travel_ends
  obtain ⟨hpanics, hnone | ⟨hsignal, -⟩⟩ := chain_delivers travelling false ⟨fun _ => [], ()⟩ none
    [some true, some false] travel s (.of_exec (by decide +kernel) hexec)
  · exact absurd hnone hlog
  · exact ⟨s, hexec, hpanics, hsignal⟩

theorem travelling_completes :
    ∃ s, (machine travelling false ⟨fun _ => [], ()⟩ none [some true, some false]).exec
        (machine travelling false ⟨fun _ => [], ()⟩ none [some true, some false]).init travel =
        some s ∧
      Finished (travelling.denote false ⟨fun _ => [], ()⟩ 1) {0} s := by
  obtain ⟨s, hexec, -, hcode, hqueue, hlent⟩ := travel_ends
  rw [List.isEmpty_iff] at hqueue hlent
  obtain ⟨task, htask, -⟩ | hfinished := (chain_completes travelling false ⟨fun _ => [], ()⟩ none
    [some true, some false]).2 travel s (.of_exec (by decide +kernel) hexec)
    (step_eq_none (fun th hth => isRet_iff.mp (hcode th hth)) hqueue hlent)
  · simp [hqueue] at htask
  · exact ⟨s, hexec, hfinished⟩

end Results

end SendersReceivers.Threads
