import SendersReceivers.WhenAll.Nested

/-!
# WhenAll/EarlyStop — who is stopped by whom

A source is linked to the token that its sender was connected with, so it is stopped with the
sources of all senders around it, and a source is asked to stop by its own children only.  Which of
them have failed is what the splits have heard.

    child fails ──Wrap──▸ request_stop ──returns──▸ recorded ──last child──▸ Wrap of the outer one
-/

namespace SendersReceivers.Nested

open Machinery Relation

variable {P V E : Type} {T : Tree P} {stopPossible : Bool} {s t : State P V E} {g i : ℕ}
  {sig : Signal P V E}

/-! ## One sender -/

namespace Group

variable {x : Sender P} {group group' : Group P V E}

/-- The invariant of the sender. -/
def Ok (x : Sender P) : Group P V E → Prop
  | .whenAll s => WhenAll.Inv x.sender id s ∧ s.tasks = []
  | .transferWhenAll target s => WhenAll.Inv x.sender (fun _ => target.localScheduler) s

theorem ok_connect (x : Sender P) : (connect x : Group P V E).Ok x := by
  unfold connect
  split
  · exact ⟨WhenAll.Inv.fresh _ _, rfl⟩
  · exact WhenAll.Inv.fresh _ _

/-- No child has delivered yet. -/
theorem signals_connect {S : Type} (ts : WhenAll.NoSchedulerSender) :
    ∀ c ∈ (ts.connect : WhenAll.Connected S V E).signals, c = none := by
  induction ts with
  | impl => simp [WhenAll.NoSchedulerSender.connect, WhenAll.Connected.signals]
  | pairwise x y ihx ihy =>
      intro c hc
      exact (List.mem_append.mp hc).elim (ihx c) (ihy c)

theorem heard_connect (x : Sender P) : ∀ b ∈ (connect x : Group P V E).heard, b = none := by
  intro b hb
  unfold connect at hb
  split at hb
  · obtain ⟨c, hc, rfl⟩ := List.mem_map.mp hb
    rw [signals_connect _ c hc, Option.map_none]
  · obtain ⟨c, hc, rfl⟩ := List.mem_map.mp hb
    rw [signals_connect _ c hc, Option.map_none]

/-- What a delivery changes in a tree of splits. -/
theorem signals_deliver {S : Type} {F : WhenAll.Completion S V E}
    {R : WhenAll.SchedulerReceiver P S V E} {sch : S → Local P} {ts : WhenAll.NoSchedulerSender}
    {s : WhenAll.State P S V E} (hF : F.Lawful) (hR : WhenAll.Receives R sch)
    (h : WhenAll.Inv ts sch s) (hi : s.tree.signals[i]? = some none) (c : WhenAll.Call S V E) :
    (s.deliver F R i c).tree.signals = s.tree.signals.set i (some c) := by
  obtain ⟨t', out, hdeliver, -, hsignals, hsent, -⟩ := h.tree.deliver hF hi c
  obtain ⟨hrcv, -⟩ := h.waiting hsent
  unfold WhenAll.State.deliver
  rw [hdeliver]
  cases out with
  | none => exact hsignals
  | some out =>
      obtain ⟨htree, -⟩ := hR.frame { s with tree := t', last := some c } out hrcv
      exact (congrArg WhenAll.Connected.signals htree).trans hsignals

@[simp] theorem callFails_call (sig : Signal P V E) : callFails (Nested.call sig) = fails sig := by
  cases sig <;> rfl

@[simp] theorem callFails_transferCall (sig : Signal P V E) :
    callFails (transferCall sig) = fails sig := by
  cases sig <;> rfl

/-- **A child delivers**: it had not before, and the sender notes whether it has failed. -/
theorem Ok.deliver (h : group.Ok x) (hs : group.deliver i sig = some group') :
    group'.Ok x ∧ group.heard[i]? = some none ∧
      group'.heard = group.heard.set i (some (fails sig)) := by
  cases group with
  | whenAll s =>
      obtain ⟨s', hs', rfl⟩ := Option.map_eq_some_iff.mp hs
      simp only [WhenAll.step] at hs'
      split at hs'
      next hi =>
        obtain rfl := Option.some.inj hs'
        refine ⟨⟨h.1.deliver WhenAll.lawful_whenAll WhenAll.receives_whenAll hi _,
          (WhenAll.deliver_tasks _ _ _).trans h.2⟩, by simp [heard, hi], ?_⟩
        simp only [heard, signals_deliver WhenAll.lawful_whenAll WhenAll.receives_whenAll h.1 hi,
          List.map_set, Option.map_some, callFails_call]
      next => cases hs'
  | transferWhenAll target s =>
      obtain ⟨s', hs', rfl⟩ := Option.map_eq_some_iff.mp hs
      simp only [WhenAll.step] at hs'
      split at hs'
      next hi =>
        obtain rfl := Option.some.inj hs'
        refine ⟨WhenAll.Inv.deliver WhenAll.lawful_transferWhenAll
          (WhenAll.receives_transfer target) h hi _, by simp [heard, hi], ?_⟩
        simp only [heard, signals_deliver WhenAll.lawful_transferWhenAll
          (WhenAll.receives_transfer target) h hi, List.map_set, Option.map_some,
          callFails_transferCall]
      next => cases hs'

/-- The task of the target changes nothing of that. -/
theorem Ok.run (h : group.Ok x) (hs : group.run = some group') :
    group'.Ok x ∧ group'.heard = group.heard := by
  cases group with
  | whenAll s => cases hs
  | transferWhenAll target s =>
      obtain ⟨s', hs', rfl⟩ := Option.map_eq_some_iff.mp hs
      refine ⟨WhenAll.Inv.runTask h hs', ?_⟩
      unfold WhenAll.runTask at hs'
      split at hs'
      next => exact Option.some.inj hs' ▸ rfl
      next => cases hs'

/-- The call of a whole tree fails only if that of a child has. -/
theorem fails_of_calls {S : Type} {sch : S → Local P} {ts : WhenAll.NoSchedulerSender}
    {s : WhenAll.State P S V E} (h : WhenAll.Inv ts sch s) (hsig : sig ∈ s.calls)
    (hfails : fails sig = true) : some true ∈ s.tree.signals.map (Option.map callFails) := by
  cases hsent : s.tree.sent with
  | none => simp [(h.waiting hsent).2.1] at hsig
  | some c =>
      obtain ⟨hcalls, -⟩ | ⟨hcalls, -⟩ := h.received c hsent
      · rw [hcalls] at hsig
        obtain rfl := List.mem_singleton.mp hsig
        obtain ⟨ds, hds, hcombines⟩ := h.tree.combines hsent
        obtain ⟨d, hd, hfail⟩ : ∃ d ∈ ds, callFails d = true := by
          cases c with
          | setValue a v => cases hfails
          | setError e => exact ⟨_, hcombines, rfl⟩
          | setDone => exact ⟨_, hcombines.1, rfl⟩
        rw [hds, List.map_map]
        exact List.mem_map.mpr ⟨d, hd, by simp [hfail]⟩
      · simp [hcalls] at hsig

theorem Ok.fails_of_calls (h : group.Ok x) (hsig : sig ∈ group.calls) (hfails : fails sig = true) :
    some true ∈ group.heard := by
  cases group with
  | whenAll s => exact Group.fails_of_calls h.1 hsig hfails
  | transferWhenAll target s => exact Group.fails_of_calls h hsig hfails

end Group

/-! ## The stop sources -/

/-- Child `i` of sender `g` has completed with an error or done. -/
def State.Failed (s : State P V E) (g i : ℕ) : Prop :=
  (s.groups[g]?.bind fun x => x.heard[i]?) = some (some true)

/-- A child of sender `g` has failed, or is about to. -/
def State.Failing (s : State P V E) (g : ℕ) : Prop :=
  (∃ i, s.Failed g i) ∨ ∃ d ∈ s.deliveries, d.group = g ∧ fails d.signal = true

/-- The links of the first `n` senders. -/
def Tree.Linked (T : Tree P) (stopPossible : Bool) (n p c : ℕ) : Prop :=
  ∃ g x, g < n ∧ T.senders[g]? = some x ∧ x.token stopPossible = some p ∧ c = g + 1

/-- A `Wrap` whose signal fails is in its `request_stop`, or is done with it. -/
def State.Stopping (s : State P V E) (d : Delivery P V E) : Prop :=
  fails d.signal = true → ∃ n, d.thread = some n ∧ n < s.tokens.threads.length ∧
    (s.tokens.threads[n]? = some [.op (.requestStop (d.group + 1))] ∨
      (s.tokens.sources (d.group + 1)).stopped = true)

/-- **The invariant.** -/
structure Inv (T : Tree P) (stopPossible : Bool) (s : State P V E) : Prop where
  run : ∃ ls, StopToken.machine.Run StopToken.Grows ls s.tokens
  length : s.groups.length = T.senders.length
  ok (g : ℕ) (x : Sender P) (group : Group P V E) :
    T.senders[g]? = some x → s.groups[g]? = some group → group.Ok x
  connected : s.connected ≤ T.senders.length
  links : ∀ p c, StopToken.Links s.tokens p c ↔ T.Linked stopPossible s.connected p c
  root : .requestStop 0 ∈ s.tokens.called → stopPossible = true
  asked : ∀ g, .requestStop (g + 1) ∈ s.tokens.called ↔ s.Failing g
  stopping : ∀ d ∈ s.deliveries, s.Stopping d
  recorded : ∀ g i, s.Failed g i → (s.tokens.sources (g + 1)).stopped = true

/-- What the source of a sender is linked to. -/
theorem Tree.linked_iff {n : ℕ} (hg : g < n) {x : Sender P} (hx : T.senders[g]? = some x) (p : ℕ) :
    T.Linked stopPossible n p (g + 1) ↔ x.token stopPossible = some p := by
  refine ⟨?_, fun htoken => ⟨g, x, hg, hx, htoken, rfl⟩⟩
  rintro ⟨g', y, -, hy, htoken, hc⟩
  obtain rfl : g = g' := Nat.succ_injective hc
  obtain rfl := Option.some.inj (hx.symm.trans hy)
  exact htoken

/-- The source of the root token is linked to nothing. -/
theorem Tree.path_zero {n q : ℕ} : ReflTransGen (T.Linked stopPossible n) q 0 ↔ q = 0 := by
  refine ⟨fun hpath => ?_, fun hq => hq ▸ .refl⟩
  obtain hq | ⟨b, -, g, x, -, -, -, hc⟩ := ReflTransGen.cases_tail hpath
  · exact hq.symm
  · cases hc

theorem Tree.child_iff {x : Sender P} (hx : T.senders[g]? = some x) (a : ℕ) :
    T.Child a g ↔ ∃ i, x.outer = some (a, i) := by
  refine ⟨?_, fun ⟨i, houter⟩ => ⟨x, i, hx, houter⟩⟩
  rintro ⟨y, i, hy, houter⟩
  obtain rfl := Option.some.inj (hx.symm.trans hy)
  exact ⟨i, houter⟩

/-- **Sources are linked along the tree**: source `q` is above that of a connected sender if it is
that of the root, or of a sender on the path to it. -/
theorem Tree.path_iff (T : Tree P) (stopPossible : Bool) {n : ℕ} (hn : n ≤ T.senders.length) {g : ℕ}
    (hg : g < n) (q : ℕ) : ReflTransGen (T.Linked stopPossible n) q (g + 1) ↔
      q = 0 ∧ stopPossible = true ∨ ∃ a, q = a + 1 ∧ T.Encloses a g := by
  induction g using Nat.strong_induction_on with
  | _ g ih =>
    obtain ⟨x, hx⟩ : ∃ x, T.senders[g]? = some x := ⟨_, List.getElem?_eq_getElem (hg.trans_le hn)⟩
    have hself : (g + 1 = q) ↔ ∃ a, q = a + 1 ∧ g = a := by simp [eq_comm]
    simp only [Tree.Encloses] at ih ⊢
    simp only [ReflTransGen.cases_tail_iff _ _ (g + 1), ReflTransGen.cases_tail_iff T.Child _ g,
      T.linked_iff hg hx, T.child_iff hx, and_or_left, exists_or, ← hself]
    rcases houter : x.outer with _ | ⟨a, i⟩
    · -- the sender of the whole
      simp only [Sender.token, houter, Option.ite_none_right_eq_some, Option.some.injEq]
      have hroot : (∃ b, ReflTransGen (T.Linked stopPossible n) q b ∧ stopPossible = true ∧ 0 = b) ↔
          q = 0 ∧ stopPossible = true := by
        refine ⟨?_, fun ⟨hq, hpossible⟩ => ⟨0, hq ▸ .refl, hpossible, rfl⟩⟩
        rintro ⟨b, hpath, hpossible, rfl⟩
        exact ⟨path_zero.mp hpath, hpossible⟩
      rw [hroot]
      simp [or_comm]
    · -- a child of sender `a`
      obtain ⟨hlt, -⟩ := T.nested g x a i hx houter
      simp only [Sender.token, houter, Option.some.injEq, Prod.mk.injEq, exists_eq_right',
        ih a hlt (hlt.trans hg)]
      rw [or_left_comm]

/-- **What a step of a thread leaves**: the calls there were, the flags that are set, and a thread
that is about to set a flag, unless it has done so. -/
structure TokenStep (k k' : StopToken.State) : Prop where
  called : k'.called = k.called
  stays : ∀ q, (k.sources q).stopped = true → (k'.sources q).stopped = true
  length : k'.threads.length = k.threads.length
  stopping : ∀ (n q : ℕ), k.threads[n]? = some [.op (.requestStop q)] →
    k'.threads[n]? = some [.op (.requestStop q)] ∨ (k'.sources q).stopped = true

theorem tokenStep {k k' : StopToken.State} {ls : List StopToken.Label}
    (hrun : StopToken.machine.Run StopToken.Grows ls k)
    (hs : StopToken.step k (.run i) = some k') : TokenStep k k' := by
  obtain ⟨hsteady, -⟩ := StopToken.forest_inductive.of_run hrun
  obtain ⟨o, hcall, -⟩ | ⟨j, x, code, hl, hi, hturn⟩ :=
    hsteady.peace.calm.step_cases hsteady.peace.inv (by exact trivial) hs
  · cases hcall
  · obtain ⟨c, hthreads⟩ := hturn.threads
    refine ⟨hturn.called, hturn.stopped, ?_, fun n q hn => ?_⟩
    · simp [hthreads, StopToken.State.goto]
    · by_cases hij : j = n
      · subst hij
        obtain ⟨rfl, -⟩ := List.cons.inj (Option.some.inj (hi.symm.trans hn))
        exact .inr ((hturn.stopped_iff q).mpr (.inr rfl))
      · rw [hthreads]
        exact .inl (by simpa [StopToken.State.goto, hij] using hn)

/-! ## Every step -/

theorem mem_called_call (o o' : StopToken.Op) :
    o' ∈ (s.call o).tokens.called ↔ o' ∈ s.tokens.called ∨ o' = o := by
  simp [State.call]

theorem run_call {ls : List StopToken.Label}
    (hrun : StopToken.machine.Run StopToken.Grows ls s.tokens)
    {o : StopToken.Op} (ho : StopToken.Grows s.tokens (.call o)) :
    StopToken.machine.Run StopToken.Grows (ls ++ [.call o]) (s.call o).tokens :=
  hrun.step ho rfl

theorem State.Stopping.call {d : Delivery P V E} (h : s.Stopping d) (o : StopToken.Op) :
    (s.call o).Stopping d := by
  intro hfails
  obtain ⟨n, hthread, hlt, hn⟩ := h hfails
  refine ⟨n, hthread, ?_, ?_⟩
  · simp only [State.call, List.length_append]
    omega
  · simpa only [State.call, List.getElem?_append_left hlt] using hn

/-- One signal more is on its way. -/
theorem failing_concat {d : Delivery P V E} (hgroups : t.groups = s.groups)
    (hdeliveries : t.deliveries = s.deliveries ++ [d]) :
    t.Failing g ↔ s.Failing g ∨ d.group = g ∧ fails d.signal = true := by
  unfold State.Failing State.Failed
  rw [hgroups, hdeliveries]
  simp only [List.mem_append, List.mem_singleton, or_and_right, exists_or, exists_eq_left, or_assoc]

/-- A signal arrives at a `Wrap`. -/
theorem Inv.wrap (h : Inv T stopPossible s) (g i : ℕ) (sig : Signal P V E) :
    Inv T stopPossible (s.wrap g i sig) := by
  obtain ⟨ls, hrun⟩ := h.run
  unfold State.wrap
  split_ifs with hfails
  · exact {
      run := ⟨_, run_call hrun (Or.inl ⟨g + 1, rfl⟩)⟩
      length := h.length
      ok := h.ok
      connected := h.connected
      links := fun p c => by
        refine Iff.trans ?_ (h.links p c)
        exact (mem_called_call _ _).trans (or_iff_left (by simp [StopToken.link]))
      root := fun hroot => h.root (((mem_called_call _ _).mp hroot).resolve_right (by simp))
      asked := fun g' => by
        refine Iff.trans ?_ (failing_concat (s := s) (by rfl) (by rfl)).symm
        refine (mem_called_call _ _).trans (or_congr (h.asked g') ?_)
        simp [hfails, eq_comm]
      stopping := fun d hd => by
        obtain hd | hd := List.mem_append.mp hd
        · exact (h.stopping d hd).call _
        · obtain rfl := List.mem_singleton.mp hd
          exact fun _ => ⟨_, rfl, by simp [State.call], .inl (by simp [State.call])⟩
      recorded := h.recorded }
  · exact { h with
      asked := fun g' => by
        refine (h.asked g').trans (Iff.trans ?_ (failing_concat (s := s) (by rfl) (by rfl)).symm)
        simp [hfails]
      stopping := fun d hd => by
        obtain hd | hd := List.mem_append.mp hd
        · exact h.stopping d hd
        · obtain rfl := List.mem_singleton.mp hd
          exact fun hd => absurd hd hfails }

/-- The receiver of a sender is called. -/
theorem Inv.emit (h : Inv T stopPossible s) (g : ℕ) (sig : Option (Signal P V E)) :
    Inv T stopPossible (s.emit T g sig) := by
  unfold State.emit
  split
  · exact h
  · split
    · exact h.wrap _ _ _
    · exact { h with }

/-- A sender changes: `C` are those of its children that have failed now. -/
theorem failed_set {before after : Group P V E} {C : ℕ → Prop} (hg : s.groups[g]? = some before)
    (ht : t.groups = s.groups.set g after)
    (hheard : ∀ i : ℕ, after.heard[i]? = some (some true) ↔
      before.heard[i]? = some (some true) ∨ C i) (g' i : ℕ) :
    t.Failed g' i ↔ s.Failed g' i ∨ g' = g ∧ C i := by
  unfold State.Failed
  rw [ht]
  by_cases hne : g' = g
  · subst hne
    have hlt := (List.getElem?_eq_some_iff.mp hg).1
    rw [List.getElem?_set_self hlt, hg]
    simp [hheard]
  · simp [List.getElem?_set_ne (Ne.symm hne), hne]

/-- Whose `ok` it is after a sender has changed. -/
theorem Inv.ok_set (h : Inv T stopPossible s) {before after : Group P V E}
    (hg : s.groups[g]? = some before)
    (hok : ∀ x, T.senders[g]? = some x → before.Ok x → after.Ok x) (g' : ℕ) (x : Sender P)
    (group : Group P V E) (hx : T.senders[g']? = some x)
    (hgroup : (s.groups.set g after)[g']? = some group) : group.Ok x := by
  rw [List.getElem?_set] at hgroup
  split_ifs at hgroup with heq hlt
  · obtain rfl := heq
    obtain rfl := Option.some.inj hgroup
    exact hok x hx (h.ok g x before hx hg)
  · exact h.ok g' x group hx hgroup

/-- A delivery is recorded. -/
theorem Inv.record (h : Inv T stopPossible s) {n : ℕ} {d : Delivery P V E}
    (hd : s.deliveries[n]? = some d) (hret : s.Returned d.thread) {before after : Group P V E}
    (hg : s.groups[d.group]? = some before)
    (hafter : before.deliver d.child d.signal = some after) :
    Inv T stopPossible { s with
      deliveries := s.deliveries.eraseIdx n, groups := s.groups.set d.group after } := by
  obtain ⟨x, hx⟩ : ∃ x, T.senders[d.group]? = some x :=
    ⟨_, List.getElem?_eq_getElem (h.length ▸ (List.getElem?_eq_some_iff.mp hg).1)⟩
  obtain ⟨-, hnone, hheard⟩ := (h.ok _ _ _ hx hg).deliver hafter
  obtain ⟨hn, rfl⟩ := List.getElem?_eq_some_iff.mp hd
  set d := s.deliveries[n] with hdef
  have hmem : ∀ d', d' ∈ s.deliveries ↔ d' = d ∨ d' ∈ s.deliveries.eraseIdx n := fun d' => by
    rw [← (List.getElem_cons_eraseIdx_perm hn).mem_iff, List.mem_cons]
  have hfailed := failed_set (t := { s with
      deliveries := s.deliveries.eraseIdx n, groups := s.groups.set d.group after })
      (C := fun i => i = d.child ∧ fails d.signal = true) hg rfl fun i => by
        rw [hheard, List.getElem?_set]
        grind
  exact {
    run := h.run
    length := by simpa using h.length
    ok := h.ok_set hg fun y hy hbefore => (hbefore.deliver hafter).1
    connected := h.connected
    links := h.links
    root := h.root
    asked := fun g' => by
      rw [h.asked]
      simp only [State.Failing, hfailed, hmem]
      grind
    stopping := fun d' hd' => h.stopping d' ((hmem d').mpr (.inr hd'))
    recorded := fun g' i hfail => by
      obtain hfail | ⟨rfl, -, hfail⟩ := (hfailed g' i).mp hfail
      · exact h.recorded g' i hfail
      · obtain ⟨m, hthread, hlt, hm⟩ := h.stopping d ((hmem d).mpr (.inl rfl)) hfail
        refine hm.resolve_left fun hop => ?_
        have := hret m hthread
        simp [hop] at this }

/-- The target runs the task of a sender. -/
theorem Inv.runTask (h : Inv T stopPossible s) {before after : Group P V E}
    (hg : s.groups[g]? = some before) (hafter : before.run = some after) :
    Inv T stopPossible { s with groups := s.groups.set g after } := by
  obtain ⟨x, hx⟩ : ∃ x, T.senders[g]? = some x :=
    ⟨_, List.getElem?_eq_getElem (h.length ▸ (List.getElem?_eq_some_iff.mp hg).1)⟩
  have hheard := ((h.ok _ _ _ hx hg).run hafter).2
  have hfailed := failed_set (t := { s with groups := s.groups.set g after })
      (C := fun _ => False) hg rfl fun i => by rw [hheard, or_false]
  simp only [and_false, or_false] at hfailed
  exact {
    run := h.run
    length := by simpa using h.length
    ok := h.ok_set hg fun y hy hbefore => (hbefore.run hafter).1
    connected := h.connected
    links := h.links
    root := h.root
    asked := fun g' => by
      rw [h.asked]
      simp only [State.Failing, hfailed]
    stopping := h.stopping
    recorded := fun g' i hfail => h.recorded g' i ((hfailed g' i).mp hfail) }

/-- Something happens in a sender, and then its receiver may be called. -/
theorem update_eq {f : Group P V E → Option (Group P V E)} (hs : s.update T g f = some t) :
    ∃ before after, s.groups[g]? = some before ∧ f before = some after ∧
      t = { s with groups := s.groups.set g after }.emit T g after.calls[before.calls.length]? := by
  obtain ⟨before, hbefore, hs⟩ := Option.bind_eq_some_iff.mp hs
  obtain ⟨after, hafter, hs⟩ := Option.bind_eq_some_iff.mp hs
  exact ⟨before, after, hbefore, hafter, (Option.some.inj hs).symm⟩

/-- Links lead inwards. -/
theorem Tree.linked_lt {n p c : ℕ} (h : T.Linked stopPossible n p c) : p < c := by
  obtain ⟨g, x, -, hx, htoken, rfl⟩ := h
  rcases houter : x.outer with _ | ⟨a, i⟩
  · simp only [Sender.token, houter, Option.ite_none_right_eq_some, Option.some.injEq] at htoken
    omega
  · simp only [Sender.token, houter, Option.some.injEq] at htoken
    have hlt := (T.nested g x a i hx houter).1
    omega

theorem Tree.linked_succ {n : ℕ} {x : Sender P} (hx : T.senders[n]? = some x) (p c : ℕ) :
    T.Linked stopPossible (n + 1) p c ↔
      T.Linked stopPossible n p c ∨ x.token stopPossible = some p ∧ c = n + 1 := by
  constructor
  · rintro ⟨g, y, hg, hy, htoken, hc⟩
    obtain hg | rfl := Nat.lt_succ_iff_lt_or_eq.mp hg
    · exact .inl ⟨g, y, hg, hy, htoken, hc⟩
    · obtain rfl := Option.some.inj (hx.symm.trans hy)
      exact .inr ⟨htoken, hc⟩
  · rintro (⟨g, y, hg, hrest⟩ | ⟨htoken, hc⟩)
    · exact ⟨g, y, hg.trans (Nat.lt_succ_self n), hrest⟩
    · exact ⟨n, x, Nat.lt_succ_self n, hx, htoken, hc⟩

/-- A call that does not stop the source of a sender. -/
theorem Inv.call (h : Inv T stopPossible s) {o : StopToken.Op} {n : ℕ}
    (hgrows : StopToken.Grows s.tokens (.call o)) (hn : n ≤ T.senders.length)
    (hlinks : ∀ p c, o = StopToken.link p c ∨ T.Linked stopPossible s.connected p c ↔
      T.Linked stopPossible n p c)
    (hroot : o = .requestStop 0 → stopPossible = true) (ho : ∀ g, o ≠ .requestStop (g + 1))
    (thread : Option ℕ) :
    Inv T stopPossible { s.call o with connected := n, connecting := thread } := by
  obtain ⟨ls, hrun⟩ := h.run
  exact {
    run := ⟨_, run_call hrun hgrows⟩
    length := h.length
    ok := h.ok
    connected := hn
    links := fun p c => by
      rw [← hlinks p c, ← h.links p c, or_comm, eq_comm]
      exact mem_called_call _ _
    root := fun hmem => ((mem_called_call _ _).mp hmem).elim h.root fun heq => hroot heq.symm
    asked := fun g =>
      ((mem_called_call _ _).trans (or_iff_left (ho g).symm)).trans (h.asked g)
    stopping := fun d hd => (h.stopping d hd).call o
    recorded := h.recorded }

theorem Inv.path_le (h : Inv T stopPossible s) {p c : ℕ}
    (hpath : ReflTransGen (StopToken.Links s.tokens) p c) : p ≤ c := by
  induction hpath with
  | refl => exact le_rfl
  | tail _ hl ih => exact ih.trans (Tree.linked_lt ((h.links _ _).mp hl)).le

/-- The next sender is linked to its token. -/
theorem Inv.link (h : Inv T stopPossible s) {x : Sender P} (hx : T.senders[s.connected]? = some x)
    {p : ℕ} (hp : x.token stopPossible = some p) (thread : Option ℕ) :
    Inv T stopPossible { s.call (StopToken.WhenAllFin.connect p (s.connected + 1)) with
      connected := s.connected + 1, connecting := thread } := by
  have hlt := (List.getElem?_eq_some_iff.mp hx).1
  have hnew : T.Linked stopPossible (s.connected + 1) p (s.connected + 1) :=
    (T.linked_iff (Nat.lt_succ_self _) hx p).mpr hp
  refine h.call (Or.inr ⟨p, s.connected + 1, fun hpath => ?_, .inr (.inr rfl)⟩) hlt (fun q c => ?_)
    (by simp [StopToken.WhenAllFin.connect, StopToken.link])
    (by simp [StopToken.WhenAllFin.connect, StopToken.link]) thread
  · -- links lead inwards, and this one would lead back
    exact absurd (Tree.linked_lt hnew) (Nat.not_lt.mpr (h.path_le hpath))
  · rw [Tree.linked_succ hx, or_comm, hp]
    refine or_congr .rfl ?_
    simp only [StopToken.WhenAllFin.connect, StopToken.link, StopToken.Op.callback.injEq,
      List.cons.injEq, StopToken.Op.requestStop.injEq, Option.some.injEq, and_true, true_and]
    exact and_congr_right fun _ => eq_comm

/-- A thread goes on. -/
theorem Inv.token (h : Inv T stopPossible s) {k : StopToken.State}
    (hk : StopToken.step s.tokens (.run i) = some k) :
    Inv T stopPossible { s with tokens := k } := by
  obtain ⟨ls, hrun⟩ := h.run
  have htoken := tokenStep hrun hk
  have hnext : StopToken.machine.Run StopToken.Grows (ls ++ [.run i]) k := .step hrun trivial hk
  exact {
    run := ⟨_, hnext⟩
    length := h.length
    ok := h.ok
    connected := h.connected
    links := fun p c => by
      rw [← h.links p c, StopToken.Links, StopToken.Links, htoken.called]
    root := fun hroot => h.root (htoken.called ▸ hroot)
    asked := fun g => by
      rw [htoken.called]
      exact h.asked g
    stopping := fun d hd hfails => by
      obtain ⟨n, hthread, hlt, hn⟩ := h.stopping d hd hfails
      exact ⟨n, hthread, htoken.length ▸ hlt,
        hn.elim (htoken.stopping n _) fun hstopped => .inr (htoken.stays _ hstopped)⟩
    recorded := fun g i hfail => htoken.stays _ (h.recorded g i hfail) }

/-- **A step keeps the invariant.** -/
theorem Inv.step (h : Inv T stopPossible s) {l : Label P V E}
    (hs : Nested.step T stopPossible s l = some t) : Inv T stopPossible t := by
  cases l with
  | connect =>
      simp only [Nested.step] at hs
      split at hs
      next x hx =>
        split_ifs at hs
        split at hs <;> obtain rfl := Option.some.inj hs
        next p hp => exact h.link hx hp _
        next hnone =>
          exact { h with
            connected := (List.getElem?_eq_some_iff.mp hx).1
            links := fun p c => by simp [h.links, Tree.linked_succ hx, hnone] }
      next => cases hs
  | stopRoot =>
      simp only [Nested.step, Option.ite_none_right_eq_some, Option.some.injEq] at hs
      obtain ⟨hpossible, rfl⟩ := hs
      exact h.call (Or.inl ⟨0, rfl⟩) h.connected (by simp [StopToken.link]) (fun _ => hpossible)
        (by simp) _
  | token i =>
      obtain ⟨k, hk, rfl⟩ := Option.map_eq_some_iff.mp hs
      exact h.token hk
  | deliver g i sig =>
      simp only [Nested.step, Option.ite_none_right_eq_some, Option.some.injEq] at hs
      obtain ⟨-, rfl⟩ := hs
      exact h.wrap g i sig
  | record n =>
      simp only [Nested.step] at hs
      split at hs
      next d hd =>
        split_ifs at hs with hret
        obtain ⟨before, after, hg, hafter, rfl⟩ := update_eq hs
        exact (h.record hd hret hg hafter).emit _ _
      next => cases hs
  | run g =>
      obtain ⟨before, after, hg, hafter, rfl⟩ := update_eq hs
      exact (h.runTask hg hafter).emit _ _

theorem not_failed_fresh (T : Tree P) (g i : ℕ) : ¬(fresh T : State P V E).Failed g i := by
  intro hfail
  obtain ⟨group, hgroup, hheard⟩ := Option.bind_eq_some_iff.mp hfail
  obtain ⟨x, -, rfl⟩ := List.mem_map.mp (List.mem_of_getElem? hgroup)
  cases Group.heard_connect x _ (List.mem_of_getElem? hheard)

theorem Inv.fresh (T : Tree P) (stopPossible : Bool) :
    Inv T stopPossible (fresh T : State P V E) where
  run := ⟨_, .init⟩
  length := List.length_map _
  ok g x group hx hgroup := by
    obtain rfl : Group.connect x = group := by simpa [Nested.fresh, hx] using hgroup
    exact Group.ok_connect x
  connected := Nat.zero_le _
  links p c := by simp [StopToken.Links, Nested.fresh, StopToken.fresh, Tree.Linked]
  root h := by cases h
  asked g := by
    refine ⟨fun hmem => (List.not_mem_nil hmem).elim, ?_⟩
    rintro (⟨i, hfail⟩ | ⟨d, hd, -⟩)
    · exact absurd hfail (not_failed_fresh T g i)
    · cases hd
  stopping d hd := by cases hd
  recorded g i h := absurd h (not_failed_fresh T g i)

theorem Inv.inductive (T : Tree P) (stopPossible : Bool) :
    (machine V E T stopPossible).Inductive (fun _ _ => True) (Inv T stopPossible) where
  init := Inv.fresh T stopPossible
  step _ _ _ h _ hs := h.step hs

/-! ## Every run -/

/-- **Between deliveries**: no signal is on its way, and every call has returned. -/
def State.Between (s : State P V E) : Prop := s.deliveries = [] ∧ StopToken.Quiet s.tokens

/-- A stop of the source of a connected sender is due to the root token, or to a sender around it.
-/
theorem Inv.demanded_iff (h : Inv T stopPossible s) (hg : g < s.connected) :
    StopToken.Demanded s.tokens (g + 1) ↔
      .requestStop 0 ∈ s.tokens.called ∨ ∃ a, T.Encloses a g ∧ s.Failing a := by
  have hlinks : StopToken.Links s.tokens = T.Linked stopPossible s.connected :=
    funext₂ fun p c => propext (h.links p c)
  unfold StopToken.Demanded
  simp only [hlinks, T.path_iff stopPossible h.connected hg]
  constructor
  · rintro ⟨q, hq, ⟨rfl, -⟩ | ⟨a, rfl, ha⟩⟩
    · exact .inl hq
    · exact .inr ⟨a, ha, (h.asked a).mp hq⟩
  · rintro (hroot | ⟨a, ha, hfailing⟩)
    · exact ⟨0, hroot, .inl ⟨rfl, h.root hroot⟩⟩
    · exact ⟨a + 1, (h.asked a).mpr hfailing, .inr ⟨a, rfl, ha⟩⟩

/-- The source of the root token is stopped by nobody else. -/
theorem Inv.demanded_zero (h : Inv T stopPossible s) :
    StopToken.Demanded s.tokens 0 ↔ .requestStop 0 ∈ s.tokens.called := by
  have hlinks : StopToken.Links s.tokens = T.Linked stopPossible s.connected :=
    funext₂ fun p c => propext (h.links p c)
  unfold StopToken.Demanded
  simp only [hlinks, T.path_zero]
  exact ⟨fun ⟨q, hq, hzero⟩ => hzero ▸ hq, fun hq => ⟨0, hq, rfl⟩⟩

/-- **Who is stopped**: the leaves of sender `g` have tokens of source `g + 1`. -/
structure EarlyStop (T : Tree P) (s : State P V E) : Prop where
  between : s.Between → ∀ g < s.connected, (s.tokens.sources (g + 1)).stopped = true ↔
    (s.tokens.sources 0).stopped = true ∨ ∃ a i, T.Encloses a g ∧ s.Failed a i
  /-- also while signals are on their way -/
  sound : ∀ g < s.connected, (s.tokens.sources (g + 1)).stopped = true →
    .requestStop 0 ∈ s.tokens.called ∨ ∃ a, T.Encloses a g ∧ s.Failing a
  /-- a failure is recorded once the stop was requested -/
  first : ∀ g i, s.Failed g i → (s.tokens.sources (g + 1)).stopped = true

theorem Inv.earlyStop (h : Inv T stopPossible s) : EarlyStop T s := by
  obtain ⟨ls, hrun⟩ := h.run
  have hprop := StopToken.stops_propagate ls s.tokens hrun
  refine {
    between := fun ⟨hnone, hquiet⟩ g hg => ?_
    sound := fun g hg hstopped => (h.demanded_iff hg).mp (hprop.sound _ hstopped)
    first := h.recorded }
  rw [hprop.complete hquiet, hprop.complete hquiet, h.demanded_iff hg, h.demanded_zero]
  simp only [State.Failing, hnone, List.not_mem_nil, false_and, exists_false, or_false,
    exists_and_left]

/-! ## Runs without failures -/

/-- A leaf delivers a value, and nobody stops the root token. -/
def Label.Valued : Label P V E → Prop
  | .deliver _ _ sig => fails sig = false
  | .stopRoot => False
  | _ => True

/-- No stop was requested of any source. -/
def State.Unstopped (s : State P V E) : Prop := ∀ q, .requestStop q ∉ s.tokens.called

theorem State.Unstopped.wrap (h : s.Unstopped) (g i : ℕ) (hsig : fails sig = false) :
    (s.wrap g i sig).Unstopped := by
  unfold State.wrap
  rw [hsig]
  exact h

/-- **What comes of values is a value.** -/
theorem Inv.unstopped_emit (h : Inv T stopPossible s) (hun : s.Unstopped) {group : Group P V E}
    (hgroup : s.groups[g]? = some group) (n : ℕ) : (s.emit T g group.calls[n]?).Unstopped := by
  obtain ⟨x, hx⟩ : ∃ x, T.senders[g]? = some x :=
    ⟨_, List.getElem?_eq_getElem (h.length ▸ (List.getElem?_eq_some_iff.mp hgroup).1)⟩
  have hvalue : ∀ sig ∈ group.calls, fails sig = false := fun sig hsig => by
    refine Bool.eq_false_iff.mpr fun hfails => ?_
    obtain ⟨i, hi⟩ :=
      List.mem_iff_getElem?.mp ((h.ok g x group hx hgroup).fails_of_calls hsig hfails)
    have hfailed : s.Failed g i := Option.bind_eq_some_iff.mpr ⟨group, hgroup, hi⟩
    exact hun (g + 1) ((h.asked g).mpr (.inl ⟨i, hfailed⟩))
  unfold State.emit
  split
  next => exact hun
  next sig hsig =>
    split
    · exact hun.wrap _ _ (hvalue sig (List.mem_of_getElem? hsig))
    · exact hun

theorem Inv.unstopped_step (h : Inv T stopPossible s) (hun : s.Unstopped) {l : Label P V E}
    (hl : l.Valued) (hs : Nested.step T stopPossible s l = some t) : t.Unstopped := by
  cases l with
  | connect =>
      simp only [Nested.step] at hs
      split at hs
      next x hx =>
        split_ifs at hs
        split at hs <;> obtain rfl := Option.some.inj hs
        next p hp =>
          intro q hq
          refine hun q (((mem_called_call _ _).mp hq).resolve_right ?_)
          simp [StopToken.WhenAllFin.connect, StopToken.link]
        next => exact hun
      next => cases hs
  | stopRoot => exact hl.elim
  | token i =>
      obtain ⟨k, hk, rfl⟩ := Option.map_eq_some_iff.mp hs
      obtain ⟨ls, hrun⟩ := h.run
      intro q hq
      exact hun q ((tokenStep hrun hk).called ▸ hq)
  | deliver g i sig =>
      simp only [Nested.step, Option.ite_none_right_eq_some, Option.some.injEq] at hs
      obtain ⟨-, rfl⟩ := hs
      exact hun.wrap g i hl
  | record n =>
      simp only [Nested.step] at hs
      split at hs
      next d hd =>
        split_ifs at hs with hret
        obtain ⟨before, after, hg, hafter, rfl⟩ := update_eq hs
        refine (h.record hd hret hg hafter).unstopped_emit hun ?_ _
        exact List.getElem?_set_self (List.getElem?_eq_some_iff.mp hg).1
      next => cases hs
  | run g =>
      obtain ⟨before, after, hg, hafter, rfl⟩ := update_eq hs
      refine (h.runTask hg hafter).unstopped_emit hun ?_ _
      exact List.getElem?_set_self (List.getElem?_eq_some_iff.mp hg).1

theorem unstopped_inductive (T : Tree P) (stopPossible : Bool) :
    (machine V E T stopPossible).Inductive (fun _ l => True ∧ l.Valued)
      fun s => Inv T stopPossible s ∧ s.Unstopped where
  init := ⟨Inv.fresh T stopPossible, fun q hq => by cases hq⟩
  step _ _ _ h hl hs := ⟨h.1.step hs, h.1.unstopped_step h.2 hl.2 hs⟩

/-- **The early stop of nested senders**, in every run of a tree of them, with any token at the root
and with leaves that complete in any order: between deliveries the token of a leaf is stopped if and
only if the root token was, or a sender on the path to the root has a child that has failed; a stop
is requested before the failure is recorded; and if all leaves deliver values, and nobody stops the
root, then nobody is stopped. -/
theorem nested_early_stop (T : Tree P) (stopPossible : Bool) (ls : List (Label P V E))
    (s : State P V E) (h : (machine V E T stopPossible).Run (fun _ _ => True) ls s) :
    EarlyStop T s ∧ ((∀ l ∈ ls, l.Valued) → ∀ q, (s.tokens.sources q).stopped = false) := by
  refine ⟨((Inv.inductive T stopPossible).of_run h).earlyStop, fun hvalued q => ?_⟩
  obtain ⟨hinv, hun⟩ := (unstopped_inductive T stopPossible).of_run (h.of_labels hvalued)
  obtain ⟨ks, hrun⟩ := hinv.run
  refine Bool.eq_false_iff.mpr fun hstopped => ?_
  obtain ⟨a, ha, -⟩ := (StopToken.stops_propagate ks s.tokens hrun).sound q hstopped
  exact hun a ha

/-- A `transfer_when_all`, as the second child of a `when_all`. -/
def siblings : Tree Unit where
  senders :=
    [⟨none, .pairwise .impl .impl, none⟩, ⟨some (.pool ()), .pairwise .impl .impl, some (0, 1)⟩]
  root g x hx := by
    obtain _ | _ | g := g
    · obtain rfl := Option.some.inj hx
      exact iff_of_true rfl rfl
    · obtain rfl := Option.some.inj hx
      exact iff_of_false nofun nofun
    · cases hx
  nested g x a i hx hi := by
    obtain _ | _ | g := g
    · obtain rfl := Option.some.inj hx
      cases hi
    · obtain rfl := Option.some.inj hx
      cases hi
      exact ⟨Nat.zero_lt_one, _, rfl, by decide⟩
    · cases hx
  distinct g g' x x' hx hx' h := by
    obtain _ | _ | g := g <;> obtain _ | _ | g' := g' <;> cases hx <;> cases hx'
    · rfl
    · cases h
    · cases h
    · rfl

/-- Both are connected, the first child of the outer one fails, and its `request_stop` also runs the
callback of the inner one. -/
def firstFails : List (Label Unit ℕ ℕ) :=
  .connect :: List.replicate 3 (.token 0) ++ .connect :: List.replicate 3 (.token 1) ++
    .deliver 0 0 (.error 7) :: List.replicate 7 (.token 2) ++ [.record 0]

/-- All three leaves deliver values. -/
def allValues : List (Label Unit ℕ ℕ) :=
  .connect :: List.replicate 3 (.token 0) ++ .connect :: List.replicate 3 (.token 1) ++
    [.deliver 1 0 (.value .immediate [1]), .deliver 0 0 (.value .immediate [2]),
      .deliver 1 1 (.value .immediate [3]), .record 0, .record 0, .record 0, .run 1, .record 0]

theorem firstFails_stops :
    (∃ s, (machine ℕ ℕ siblings true).exec (fresh siblings) firstFails = some s ∧
      s.Between ∧ (s.tokens.sources 2).stopped = true) ∧
    ∃ s, (machine ℕ ℕ siblings true).exec (fresh siblings) allValues = some s ∧
      s.calls.length = 1 ∧ ∀ q, (s.tokens.sources q).stopped = false := by
  obtain ⟨s, hs, hdeliveries, hquiet, hconnected, hfailed⟩ :
      ∃ s, (machine ℕ ℕ siblings true).exec (fresh siblings) firstFails = some s ∧
        s.deliveries.length = 0 ∧ (∀ c ∈ s.tokens.threads, c.isEmpty) ∧ 1 < s.connected ∧
        (s.groups[0]?.bind fun x => x.heard[0]?) = some (some true) :=
    Machine.exec_ends (by decide +kernel)
  obtain ⟨t, ht, hcalls⟩ :
      ∃ t, (machine ℕ ℕ siblings true).exec (fresh siblings) allValues = some t ∧
      t.calls.length = 1 := Machine.exec_ends (by decide +kernel)
  have hbetween : s.Between :=
    ⟨List.length_eq_zero_iff.mp hdeliveries, fun c hc => List.isEmpty_iff.mp (hquiet c hc)⟩
  have hchild : siblings.Child 0 1 := ⟨_, 1, rfl, rfl⟩
  refine ⟨⟨s, hs, hbetween, ?_⟩, t, ht, hcalls, ?_⟩
  · have hstop := (nested_early_stop siblings true firstFails s (.of_exec (by decide +kernel) hs)).1
    exact (hstop.between hbetween 1 hconnected).mpr (.inr ⟨0, 0, .single hchild, hfailed⟩)
  · refine (nested_early_stop siblings true allValues t (.of_exec (by decide +kernel) ht)).2 ?_
    simp [allValues, Label.Valued, fails]

end SendersReceivers.Nested
