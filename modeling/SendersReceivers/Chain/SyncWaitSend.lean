import SendersReceivers.Chain.Completion

/-!
# Chain/SyncWaitSend — waiting for a chain that goes on elsewhere

`sync_wait_send` starts the chain in a scope of its own and receives from the channel that the
outermost receiver sends into.  Then its handle of the scope goes, and it parks until no handle is
left.

    start ──▸ rx.recv() ──the signal──▸ drop(scope) ──▸ park while running ──no handle──▸ return

The caller is a thread of no pool; while it is blocked, the others go on.  User functions do not
panic here.
-/

namespace SendersReceivers

open Machinery

namespace Threads

/-! ## The handle of the caller -/

variable {P V E U : Type} {o : Outcome P V E U} {pinned : Multiset ℕ} {g : Ledger P V E U}
  {s : State P V E U}
  {th : Thread P V E U}

/-- A signal that has been delivered is that of the denotation. -/
theorem Books.log_eq (h : Books o pinned g s) (hlog : s.world.log ≠ []) :
    s.world.log = [o.signal] ∧ s.world.mem = o.mem := by
  cases h.place with
  | running _ hnone => exact absurd hnone hlog
  | stored _ _ _ _ _ hnone => exact absurd hnone hlog
  | delivered _ hlog hmem => exact ⟨hlog, hmem⟩

/-- **The caller's handle becomes one of the handles to drop**, once the signal is there. -/
theorem Books.unpin (h : Books o {0} g s) (ht : s.threads[0]? = some th) (hcode : th.code = .ret)
    (hlog : s.world.log ≠ []) :
    ∃ g', Books o 0 g' (s.goto 0 th (rootScope.release .ret)) ∧
      g'.potential (s.goto 0 th (rootScope.release .ret)) ≤ g.potential s + 1 := by
  obtain ⟨j, hx⟩ := h.job ht
  obtain ⟨hidle, hheld⟩ := h.idle_of_ret hx hcode
  cases h.place with
  | running _ hnone => exact absurd hnone hlog
  | stored _ _ _ _ _ hnone => exact absurd hnone hlog
  | delivered howing hlog hmem hstack hshared =>
      have hquiet : g.owing ≤ (th, j).2.active.toNat := by omega
      have hroot : g.scopes.Drops 0 fun _ => .ret := ⟨0, h.root⟩
      refine ⟨{ g with
        threads := g.threads.set 0 ({ th with code := rootScope.release .ret }, ⟨{0}, 1, false⟩) },
        { h with
          threads := by rw [List.map_set, h.threads]; rfl
          fits := fun y hy => ?_
          tasks := by simp [h.queue_nil hx hquiet]
          counts := fun i => ?_
          place := .delivered ?_ hlog hmem hstack hshared }, ?_⟩
      · obtain rfl | ⟨hmem, hinactive⟩ := inactive_of_mem_set hx hquiet hy
        · exact clears_release hroot
        · have hfit := h.fits y hmem
          simp only [Job.Fits, hinactive] at hfit ⊢
          exact hfit
      · have hset := h.strong_set hx ({ th with code := rootScope.release .ret }, ⟨{0}, 1, false⟩) i
        simp only [Ledger.handles, hheld, Multiset.count_zero] at hset ⊢
        dsimp only [State.goto]
        omega
      · have hset := weight_set (fun x : Thread P V E U × Job => x.2.active.toNat) hx
          ({ th with code := rootScope.release .ret }, ⟨{0}, 1, false⟩)
        simp only [Ledger.owing, hidle] at howing hset ⊢
        omega
      · have hset := weight_set (fun x : Thread P V E U × Job => x.2.cost) hx
          ({ th with code := rootScope.release .ret }, ⟨{0}, 1, false⟩)
        simp only [Ledger.potential] at hset ⊢
        dsimp only [State.goto]
        omega

/-- **When the last handle of the root scope is gone, nothing can come any more**: no task waits, no
reference is left, and no scope is open. -/
theorem Books.over (h : Books o 0 g s) (hlog : s.world.log ≠ []) (hclosed : s.world.strong 0 = 0) :
    s.queue = [] ∧ s.lent = [] ∧ ∀ i, s.world.strong i = 0 := by
  cases h.place with
  | running _ hnone => exact absurd hnone hlog
  | stored _ _ _ _ _ hnone => exact absurd hnone hlog
  | delivered howing _ _ hstack =>
      have hstrong : ∀ i, s.world.strong i = 0 := by
        intro i
        by_contra hne
        obtain rfl : i = 0 := by simpa [hstack] using h.live i (Nat.pos_of_ne_zero hne)
        exact hne hclosed
      refine ⟨?_, ?_, hstrong⟩
      · rw [← h.queue]
        refine List.map_eq_nil_iff.mpr (List.eq_nil_iff_forall_not_mem.mpr fun x hx => ?_)
        obtain ⟨i, hi⟩ := List.mem_iff_getElem?.mp hx
        have hle := le_weight (fun y : (P × Prog P V E U) × Job => y.2.active.toNat) hi
        simp only [(h.tasks x hx).1, Bool.toNat_true, Ledger.owing] at hle howing
        omega
      · refine List.eq_nil_iff_forall_not_mem.mpr fun p hp => ?_
        obtain ⟨i, hi⟩ := List.mem_iff_getElem?.mp hp
        have hle := le_weight (fun q : ScopePtr P V E U => if q.id = p.id then 1 else 0) hi
        have hcounts := h.counts p.id
        rw [hstrong, Ledger.handles] at hcounts
        simp only [if_true] at hle
        omega

end Threads

/-- `SendReceiver` sends what it gets through a channel; `sync_wait_send` receives from it. -/
def Signal.outcome {P V E : Type} : Signal P V E → Except E (Option (List V))
  | .value _ tuple => .ok (some tuple)
  | .error e => .error e
  | .done => .ok none

namespace SyncWaitSend

open Threads

variable {P V E U : Type}

/-- Where `sync_wait_send` is. -/
inductive Caller (V E : Type) where
  /-- in `start`, or in `rx.recv()` when that has returned -/
  | starting
  /-- about to drop the scope, and to wait for the others -/
  | received (outcome : Except E (Option (List V)))
  | returned (outcome : Except E (Option (List V)))
  | panicked (message : String)
  deriving DecidableEq

/-- The chain on its threads, of which thread `0` is the caller. -/
structure State (P V E U : Type) where
  chain : Threads.State P V E U
  caller : Caller V E

/-- What can happen next. -/
inductive Label where
  | chain (l : Threads.Label)
  /-- `rx.recv()` returns -/
  | recv
  /-- `while state.running() { thread::park() }` is over -/
  | unpark
  deriving DecidableEq

/-- The thread a step is made by. -/
def thread : Threads.Label → ℕ
  | .exec t => t
  | .take t _ => t
  | .dropRef t _ => t

/-- Nobody has the sending half of the channel any more: nothing of the chain is left that could own
the receiver. -/
def hungUp (s : Threads.State P V E U) : Bool :=
  s.threads.all (fun th => isRet th.code) && s.queue.isEmpty &&
    (List.range s.world.next).all fun i => i = 0 || s.world.strong i = 0

/-- `rx.recv().expect(..)`, and the drop of `scope` behind it.  It blocks while somebody can still
send. -/
def recv (s : State P V E U) (th : Thread P V E U) : Option (State P V E U) :=
  match s.chain.world.log with
  | sig :: _ =>
      some ⟨s.chain.goto 0 th (rootScope.release .ret), .received sig.outcome⟩
  | [] =>
      if hungUp s.chain then
        some { s with caller := .panicked "a single value must be delivered" }
      else none

/-- **The step function.** -/
def step [DecidableEq P] (s : State P V E U) : Label → Option (State P V E U)
  | .chain l =>
      if thread l = 0 ∧ (s.chain.threads[0]?.all fun th => isRet th.code) then none
      else (Threads.step s.chain l).map fun chain => { s with chain := chain }
  | .recv =>
      match s.caller with
      | .starting =>
          s.chain.threads[0]?.bind fun th => if isRet th.code then recv s th else none
      | _ => none
  | .unpark =>
      match s.caller with
      | .received outcome =>
          s.chain.threads[0]?.bind fun th =>
            if isRet th.code ∧ s.chain.world.strong 0 = 0 then
              some { s with caller := .returned outcome }
            else none
      | _ => none

/-- `SyncWaitSend::sync_wait_send`, among threads that work for `homes`. -/
def machine [DecidableEq P] (c : Chain P V E U) (m : Mem V U) (homes : List (Option P)) :
    Machine (State P V E U) Label where
  init := ⟨start c false m none homes, .starting⟩
  step := step

/-! ## The invariant -/

/-- **The books of the chain, and where the caller's handle is**: it is pinned until the signal has
been received. -/
inductive Inv (o : Outcome P V E U) (s : State P V E U) (left : ℕ) : Prop
  | starting (g : Ledger P V E U) (hcaller : s.caller = .starting) (hg : Books o {0} g s.chain)
      (hleft : left = g.potential s.chain + 3)
  | received (g : Ledger P V E U) (hcaller : s.caller = .received o.signal.outcome)
      (hg : Books o 0 g s.chain) (hlog : s.chain.world.log = [o.signal])
      (hleft : left = g.potential s.chain + 1)
  | returned (g : Ledger P V E U) (hcaller : s.caller = .returned o.signal.outcome)
      (hg : Books o 0 g s.chain) (hlog : s.chain.world.log = [o.signal])
      (hclosed : s.chain.world.strong 0 = 0) (hleft : left = g.potential s.chain)

section Inv

variable {o : Outcome P V E U} {s s' : State P V E U} {left : ℕ}

/-- A thread that only gives back delivers nothing, and opens nothing. -/
theorem exec_clears {Γ : Scopes P V E U} {c c' : Threads.State P V E U} {t : ℕ}
    {th : Thread P V E U} {held : Multiset ℕ} {cost : ℕ} (hfit : th.code.Clears Γ held cost)
    (hs : Threads.exec c t th = some c') :
    c'.world.log = c.world.log ∧ ∀ i, c'.world.strong i ≤ c.world.strong i := by
  unfold Threads.exec at hs
  cases hcode : th.code with
  | ret => simp [hcode] at hs
  | call f k =>
      rw [hcode] at hs
      cases hs
      exact ⟨rfl, fun i => le_rfl⟩
  | release i drop k =>
      have hle : ∀ n ≤ c.world.strong i, ∀ l, Function.update c.world.strong i n l ≤
          c.world.strong l := by
        intro n hn l
        obtain rfl | hne := eq_or_ne l i
        · simpa using hn
        · simp [hne]
      simp only [hcode] at hs
      split at hs
      · cases hs
        exact ⟨rfl, fun i => le_rfl⟩
      · cases hs
        exact ⟨rfl, hle 0 (Nat.zero_le _)⟩
      next n hn =>
        cases hs
        exact ⟨rfl, hle (n + 1) (by omega)⟩
  | reclaim i drop k =>
      simp only [hcode] at hs
      split at hs
      · cases hs
        exact ⟨rfl, fun i => le_rfl⟩
      · cases hs
        exact ⟨rfl, fun i => le_rfl⟩
  | enter | lazily | emit | newScope | store | clone | lend | spawn =>
      rw [hcode] at hfit
      exact hfit.elim

/-- **While the caller waits for it, the signal comes**: whoever has the duty has the sending half
of the channel, too. -/
theorem not_hungUp {g : Ledger P V E U} {c : Threads.State P V E U} (hg : Books o {0} g c)
    (hlog : c.world.log = []) : hungUp c = false := by
  by_contra hup
  simp only [hungUp, Bool.not_eq_false, Bool.and_eq_true, List.all_eq_true, isRet_iff,
    List.isEmpty_iff] at hup
  obtain ⟨⟨hcode, hqueue⟩, hclosed⟩ := hup
  cases hg.place with
  | running howing =>
      have hqueue' : g.queue = [] := List.map_eq_nil_iff.mp (hg.queue.trans hqueue)
      simp [Ledger.owing, (hg.weight_done hcode).1, hqueue'] at howing
  | stored i stack e sig _ _ hstack _ _ hopen hinner =>
      have hnested := hg.nested
      rw [hstack] at hnested
      obtain ⟨j, stack, rfl⟩ := List.exists_cons_of_ne_nil hinner
      have hlt : j < i := hnested.lt (.head _)
      have hnext : i < c.world.next := hg.lt_next (hstack ▸ .head _)
      have := hclosed i (List.mem_range.mpr hnext)
      simp only [Bool.or_eq_true, decide_eq_true_eq] at this
      omega
  | delivered _ hlog' => simp [hlog'] at hlog

variable [DecidableEq P]

/-- **After the delivery**, nothing more is delivered, and no scope is opened again. -/
theorem step_delivered {g : Ledger P V E U} {pinned : Multiset ℕ} {c c' : Threads.State P V E U}
    (hg : Books o pinned g c) (hlog : c.world.log = [o.signal]) {l : Threads.Label}
    (hs : Threads.step c l = some c') :
    c'.world.log = [o.signal] ∧ ∀ i, c'.world.strong i ≤ c.world.strong i := by
  have howing : g.owing = 0 := by
    cases hg.place with
    | running _ hnone => simp [hnone] at hlog
    | stored _ _ _ _ _ hnone => simp [hnone] at hlog
    | delivered howing => exact howing
  cases l with
  | exec t =>
      obtain ⟨th, ht, hs⟩ := Option.bind_eq_some_iff.mp hs
      obtain ⟨j, hx⟩ := hg.job ht
      have hidle : j.active = false := by
        have := active_le_owing hx
        simpa [howing] using this
      have hfit := hg.fits _ (List.mem_of_getElem? hx)
      simp only [Job.Fits, hidle] at hfit
      rw [← hlog]
      exact exec_clears hfit hs
  | take t i =>
      obtain ⟨th, -, hs⟩ := Option.bind_eq_some_iff.mp hs
      obtain ⟨task, -, hs⟩ := Option.bind_eq_some_iff.mp hs
      unfold Threads.take at hs
      split at hs
      · split_ifs at hs
        cases hs
        exact ⟨hlog, fun i => le_rfl⟩
      · cases hs
  | dropRef t i =>
      obtain ⟨th, -, hs⟩ := Option.bind_eq_some_iff.mp hs
      obtain ⟨p, -, rfl⟩ := Option.map_eq_some_iff.mp hs
      exact ⟨hlog, fun i => le_rfl⟩

theorem Inv.step (h : Inv o s left) {l : Label} (hs : SyncWaitSend.step s l = some s') :
    ∃ left' < left, Inv o s' left' := by
  cases l with
  | chain l =>
      simp only [SyncWaitSend.step] at hs
      split_ifs at hs
      obtain ⟨c, hc, rfl⟩ := Option.map_eq_some_iff.mp hs
      cases h with
      | starting g hcaller hg hleft =>
          obtain ⟨g', hg', hlt⟩ := hg.step hc
          exact ⟨g'.potential c + 3, by omega, .starting g' hcaller hg' rfl⟩
      | received g hcaller hg hlog hleft =>
          obtain ⟨g', hg', hlt⟩ := hg.step hc
          exact ⟨g'.potential c + 1, by omega,
            .received g' hcaller hg' (step_delivered hg hlog hc).1 rfl⟩
      | returned g hcaller hg hlog hclosed hleft =>
          obtain ⟨g', hg', hlt⟩ := hg.step hc
          obtain ⟨hlog', hstrong⟩ := step_delivered hg hlog hc
          have := hstrong 0
          exact ⟨g'.potential c, by omega,
            .returned g' hcaller hg' hlog' (by dsimp only; omega) rfl⟩
  | recv =>
      cases h with
      | starting g hcaller hg hleft =>
          simp only [SyncWaitSend.step, hcaller] at hs
          obtain ⟨th, ht, hs⟩ := Option.bind_eq_some_iff.mp hs
          split_ifs at hs with hret
          unfold recv at hs
          split at hs
          next sig log hlog =>
            obtain ⟨g', hg', hle⟩ := hg.unpin ht (isRet_iff.mp hret) (by simp [hlog])
            have hlog' : s.chain.world.log = [o.signal] := (hg.log_eq (by simp [hlog])).1
            obtain rfl : sig = o.signal := by simp_all
            cases hs
            refine ⟨g'.potential (s.chain.goto 0 th (rootScope.release .ret)) + 1, ?_,
              .received g' rfl hg' hlog' rfl⟩
            omega
          next hlog =>
            rw [if_neg (by simp [not_hungUp hg hlog])] at hs
            cases hs
      | received g hcaller => simp [SyncWaitSend.step, hcaller] at hs
      | returned g hcaller => simp [SyncWaitSend.step, hcaller] at hs
  | unpark =>
      cases h with
      | starting g hcaller => simp [SyncWaitSend.step, hcaller] at hs
      | received g hcaller hg hlog hleft =>
          simp only [SyncWaitSend.step, hcaller] at hs
          obtain ⟨th, -, hs⟩ := Option.bind_eq_some_iff.mp hs
          split_ifs at hs with hend
          cases hs
          exact ⟨g.potential s.chain, by omega, .returned g rfl hg hlog hend.2 rfl⟩
      | returned g hcaller => simp [SyncWaitSend.step, hcaller] at hs

end Inv

/-! ## Where nothing can go on -/

section Stuck

variable {s : State P V E U}

/-- A thread that is not the caller. -/
theorem exists_thread {homes : List (Option P)} {home : Option P}
    (hhomes : s.chain.threads.map Thread.home = none :: homes) (hhome : home ∈ homes) :
    ∃ t th, s.chain.threads[t + 1]? = some th ∧ th.home = home := by
  obtain ⟨t, ht⟩ := List.mem_iff_getElem?.mp hhome
  have hget : (s.chain.threads.map Thread.home)[t + 1]? = some home := by rw [hhomes]; exact ht
  rw [List.getElem?_map, Option.map_eq_some_iff] at hget
  obtain ⟨th, hth, rfl⟩ := hget
  exact ⟨t, th, hth, rfl⟩

variable [DecidableEq P]

/-- Every thread is done, … -/
theorem code_of_stuck (hstuck : ∀ l, step s l = none) : ∀ th ∈ s.chain.threads, th.code = .ret := by
  intro th hth
  by_contra hne
  obtain ⟨t, ht⟩ := List.mem_iff_getElem?.mp hth
  obtain ⟨chain, hchain⟩ := Option.isSome_iff_exists.mp
    (exec_isSome hne : (Threads.exec s.chain t th).isSome)
  have hlabel := hstuck (.chain (.exec t))
  simp only [step] at hlabel
  rw [if_neg, Threads.step, ht, Option.bind_some, hchain] at hlabel
  · cases hlabel
  · rintro ⟨rfl, hret⟩
    rw [ht] at hret
    exact hne (isRet_iff.mp hret)

/-- …a thread of the pool would take a task that waits, … -/
theorem queue_of_stuck (hstuck : ∀ l, step s l = none) {homes : List (Option P)}
    (hhomes : s.chain.threads.map Thread.home = none :: homes) (task : P × Prog P V E U)
    (htask : task ∈ s.chain.queue) : some task.1 ∉ homes := by
  intro hhome
  obtain ⟨t, th, ht, hth⟩ := exists_thread hhomes hhome
  obtain ⟨i, hi⟩ := List.mem_iff_getElem?.mp htask
  have hret := code_of_stuck hstuck th (List.mem_of_getElem? ht)
  have hlabel := hstuck (.chain (.take (t + 1) i))
  simp [step, thread, Threads.step, Threads.take, ht, hi, hret, hth] at hlabel

/-- …and any other thread might drop a reference. -/
theorem lent_of_stuck (hstuck : ∀ l, step s l = none) {homes : List (Option P)}
    (hhomes : s.chain.threads.map Thread.home = none :: homes) (hne : homes ≠ []) :
    s.chain.lent = [] := by
  by_contra hlent
  obtain ⟨p, lent, hp⟩ := List.exists_cons_of_ne_nil hlent
  obtain ⟨home, homes, rfl⟩ := List.exists_cons_of_ne_nil hne
  obtain ⟨t, th, ht, -⟩ := exists_thread hhomes (.head _)
  have hlabel := hstuck (.chain (.dropRef (t + 1) 0))
  simp [step, thread, Threads.step, ht, hp] at hlabel

/-- **A caller that is stuck has returned**, if neither a task nor a reference is left. -/
theorem Inv.returned_of_stuck {o : Outcome P V E U} {left : ℕ} (h : Inv o s left)
    (hstuck : ∀ l, SyncWaitSend.step s l = none) {th : Thread P V E U}
    (hth : s.chain.threads[0]? = some th)
    (hqueue : s.chain.queue = []) (hlent : s.chain.lent = []) :
    s.caller = .returned o.signal.outcome := by
  have hcode := code_of_stuck hstuck
  have hret : isRet th.code := isRet_iff.mpr (hcode th (List.mem_of_getElem? hth))
  cases h with
  | starting g hcaller hg =>
      have hlog := (hg.finished le_rfl hcode hqueue hlent).log
      have hlabel := hstuck .recv
      simp [SyncWaitSend.step, hcaller, hth, hret, recv, hlog] at hlabel
  | received g hcaller hg =>
      have hclosed := (hg.finished (Multiset.zero_le _) hcode hqueue hlent).strong 0
      have hlabel := hstuck .unpark
      simp_all [SyncWaitSend.step]
  | returned g hcaller => exact hcaller

end Stuck

/-! ## The results -/

section Results

variable [DecidableEq P]

/-- **The invariant holds in every state of a run**, and each step has left less to do. -/
theorem Inv.of_run (c : Chain P V E U) (m : Mem V U) (homes : List (Option P)) :
    ∃ bound, ∀ as s, (machine c m homes).Run (fun _ _ => True) as s →
      ∃ left, Inv (c.denote false m 1) s left ∧ as.length + left ≤ bound := by
  obtain ⟨g, hg⟩ := books_machine c false m none homes
  exact ⟨_, fun as s hrun => hrun.length_le (J := fun n s => Inv (c.denote false m 1) s n)
    (.starting g rfl hg rfl) fun n s l s' h _ hs => h.step hs⟩

theorem step_homes {l : Label} {s s' : State P V E U} (hs : SyncWaitSend.step s l = some s') :
    s'.chain.threads.map Thread.home = s.chain.threads.map Thread.home := by
  cases l with
  | chain l =>
      simp only [SyncWaitSend.step] at hs
      split_ifs at hs
      obtain ⟨chain, hchain, rfl⟩ := Option.map_eq_some_iff.mp hs
      exact Threads.step_homes hchain
  | recv =>
      simp only [SyncWaitSend.step] at hs
      split at hs
      · obtain ⟨th, ht, hs⟩ := Option.bind_eq_some_iff.mp hs
        split_ifs at hs
        unfold recv at hs
        split at hs
        · cases hs
          exact map_home_set _ ht
        · split_ifs at hs
          cases hs
          rfl
      · cases hs
  | unpark =>
      simp only [SyncWaitSend.step] at hs
      split at hs
      · obtain ⟨th, -, hs⟩ := Option.bind_eq_some_iff.mp hs
        split_ifs at hs
        cases hs
        rfl
      · cases hs

/-- A thread works for the same pool all the time. -/
theorem homes_of_run {c : Chain P V E U} {m : Mem V U} {homes : List (Option P)} {as : List Label}
    {s : State P V E U} (hrun : (machine c m homes).Run (fun _ _ => True) as s) :
    s.chain.threads.map Thread.home = none :: homes := by
  refine Machine.Inductive.of_run (M := machine c m homes) (C := fun _ _ => True)
    (I := fun s => s.chain.threads.map Thread.home = none :: homes) ⟨?_, ?_⟩ hrun
  · simp [machine, start, Function.comp_def]
  · intro s l s' h _ hs
    exact (step_homes hs).trans h

/-- **`sync_wait_send` returns what the chain stands for, and nothing runs on behind its back**: on
every schedule it does not panic, and by the time it returns no task waits, no reference is left,
and every scope is closed. -/
theorem sync_wait_send_returns (c : Chain P V E U) (m : Mem V U) (homes : List (Option P))
    (as : List Label) (s : State P V E U)
    (hrun : (machine c m homes).Run (fun _ _ => True) as s) :
    (∀ message, s.caller ≠ .panicked message) ∧ s.chain.panics = [] ∧
    ∀ outcome, s.caller = .returned outcome →
      outcome = (c.denote false m 1).signal.outcome ∧ s.chain.world.mem = (c.denote false m 1).mem ∧
      s.chain.queue = [] ∧ s.chain.lent = [] ∧ ∀ i, s.chain.world.strong i = 0 := by
  obtain ⟨bound, hbound⟩ := Inv.of_run c m homes
  obtain ⟨left, hinv, -⟩ := hbound as s hrun
  cases hinv with
  | starting g hcaller hg => simp [hcaller, hg.panics]
  | received g hcaller hg => simp [hcaller, hg.panics]
  | returned g hcaller hg hlog hclosed =>
      refine ⟨by simp [hcaller], hg.panics, fun outcome houtcome => ?_⟩
      have hout : outcome = (c.denote false m 1).signal.outcome := by
        rw [hcaller] at houtcome
        cases houtcome
        rfl
      exact ⟨hout, (hg.log_eq (by simp [hlog])).2, hg.over (by simp [hlog]) hclosed⟩

/-- The caller waits for a chain that ends on another thread, which also drops the reference. -/
def waiting : List Label :=
  let chain : List Threads.Label := List.replicate 7 (.exec 0) ++ .take 1 0 ::
    List.replicate 6 (.exec 1) ++ [.dropRef 2 0, .exec 2] ++ List.replicate 10 (.exec 1) ++
    .take 2 0 :: List.replicate 10 (.exec 2)
  chain.map .chain ++ [.recv, .chain (.exec 0), .unpark]

theorem waiting_returns :
    ∃ s, (machine travelling ⟨fun _ => [], ()⟩ [some true, some false]).exec
        (machine travelling ⟨fun _ => [], ()⟩ [some true, some false]).init waiting = some s ∧
      s.caller = .returned (.ok (some [6, 7])) ∧ ∀ i, s.chain.world.strong i = 0 := by
  obtain ⟨s, hexec, hcaller⟩ : ∃ s,
      (machine travelling ⟨fun _ => [], ()⟩ [some true, some false]).exec
        (machine travelling ⟨fun _ => [], ()⟩ [some true, some false]).init waiting = some s ∧
      s.caller = .returned (.ok (some [6, 7])) := Machine.exec_ends (by decide +kernel)
  obtain ⟨-, -, hreturns⟩ := sync_wait_send_returns travelling ⟨fun _ => [], ()⟩
    [some true, some false] waiting s (.of_exec (by decide +kernel) hexec)
  obtain ⟨-, -, -, -, hclosed⟩ := hreturns _ hcaller
  exact ⟨s, hexec, hcaller, hclosed⟩

/-- **`sync_wait_send` comes back**: every run ends, and where nothing can go on it has returned,
unless a task waits for a pool without threads, or the caller is the only thread and user code keeps
a reference. -/
theorem sync_wait_send_completes (c : Chain P V E U) (m : Mem V U) (homes : List (Option P)) :
    (∃ bound, ∀ as s, (machine c m homes).Run (fun _ _ => True) as s → as.length ≤ bound) ∧
    ∀ as s, (machine c m homes).Run (fun _ _ => True) as s → (∀ l, step s l = none) →
      s.caller = .returned (c.denote false m 1).signal.outcome ∨
      (∃ task ∈ s.chain.queue, some task.1 ∉ homes) ∨ homes = [] ∧ s.chain.lent ≠ [] := by
  obtain ⟨bound, hbound⟩ := Inv.of_run c m homes
  refine ⟨⟨bound, fun as s hrun => ?_⟩, fun as s hrun hstuck => ?_⟩
  · obtain ⟨left, -, hle⟩ := hbound as s hrun
    omega
  · obtain ⟨left, hinv, -⟩ := hbound as s hrun
    have hhomes := homes_of_run hrun
    obtain ⟨th₀, hth₀⟩ : ∃ th, s.chain.threads[0]? = some th := by
      cases hthreads : s.chain.threads with
      | nil => simp [hthreads] at hhomes
      | cons th threads => exact ⟨th, rfl⟩
    have hwaits := queue_of_stuck hstuck hhomes
    by_cases hqueue : s.chain.queue = []
    · by_cases hlent : s.chain.lent = []
      · exact .inl (hinv.returned_of_stuck hstuck hth₀ hqueue hlent)
      · refine .inr (.inr ⟨?_, hlent⟩)
        by_contra hne
        exact hlent (lent_of_stuck hstuck hhomes hne)
    · obtain ⟨task, queue, htask⟩ := List.exists_cons_of_ne_nil hqueue
      have hmem : task ∈ s.chain.queue := htask ▸ .head _
      exact .inr (.inl ⟨task, hmem, hwaits task hmem⟩)

theorem waiting_completes :
    ∃ s, (machine travelling ⟨fun _ => [], ()⟩ [some true, some false]).exec
        (machine travelling ⟨fun _ => [], ()⟩ [some true, some false]).init waiting = some s ∧
      (∀ l, step s l = none) ∧
      s.caller = .returned (travelling.denote false ⟨fun _ => [], ()⟩ 1).signal.outcome := by
  obtain ⟨s, hexec, hcode, hqueue, hlent, hcaller⟩ : ∃ s,
      (machine travelling ⟨fun _ => [], ()⟩ [some true, some false]).exec
        (machine travelling ⟨fun _ => [], ()⟩ [some true, some false]).init waiting = some s ∧
      (∀ th ∈ s.chain.threads, isRet th.code) ∧ s.chain.queue.isEmpty ∧ s.chain.lent.isEmpty ∧
      s.caller = .returned (.ok (some [6, 7])) := Machine.exec_ends (by decide +kernel)
  rw [List.isEmpty_iff] at hqueue hlent
  have hnone := Threads.step_eq_none (fun th hth => isRet_iff.mp (hcode th hth)) hqueue hlent
  have hstuck : ∀ l, step s l = none := by
    intro l
    cases l with
    | chain l => simp [step, hnone l]
    | recv | unpark => simp [step, hcaller]
  obtain hreturned | ⟨task, htask, -⟩ | ⟨hhomes, -⟩ :=
    (sync_wait_send_completes travelling ⟨fun _ => [], ()⟩ [some true, some false]).2 waiting s
      (.of_exec (by decide +kernel) hexec) hstuck
  · exact ⟨s, hexec, hstuck, hreturned⟩
  · simp [hqueue] at htask
  · cases hhomes

end Results

end SyncWaitSend

end SendersReceivers
