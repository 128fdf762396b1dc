import SendersReceivers.Machinery.Locks
import SendersReceivers.StopToken.Sweep

/-!
# StopToken/Reentrancy — callbacks that use stop sources

`request_stop` holds the mutex of its source while a callback is run, and `deregister` while one is
destroyed, with the handles that it owns.  So a callback that comes back to that source waits for
ever, and so do two threads whose callbacks wait for each other.

    request_stop a ──lock a──▸ callback of a  ──lock b──▸ callback of b ──lock a──▸ ✗
    deregister a   ──lock a──▸ drop of a handle of a ────────────────────lock a──▸ ✗

Everything completes as long as what the running callbacks are still going to use, and what their
threads have locked, can be ordered (`Orderly`).
-/

namespace SendersReceivers.StopToken

open Machinery

/-! ## The mutexes -/

section Uses

variable (handles : List (ℕ × StoppableCallback))

/-- The mutex that the operation takes; the drop of a handle that is detached takes none. -/
def Op.uses : Op → Option ℕ
  | .requestStop q | .callback q _ _ _ => some q
  | .drop q name => if Live handles q name then some q else none
  | .detach _ _ => none

def Instr.uses : Instr → Option ℕ
  | .op o => o.uses handles
  | .lockStop q | .invoke q _ | .load q _ _ | .push q _ _ | .lockClear q _ _ | .clear q _ _
  | .cleared q _ => some q

/-- The mutex that the instruction cannot do without now. -/
def Instr.awaits (x : Instr) : Option ℕ := x.enters.map Prod.fst

/-- The mutexes of the sources. -/
def mutexes : Locks Instr ℕ where
  uses := Instr.uses handles
  awaits := Instr.awaits
  holds := Instr.holds
  uses_of_awaits := fun {x r} h => by
    unfold Instr.awaits Instr.enters at h
    split at h <;> first | exact h | cases h
  holds_of_awaits := fun {x r} h => by
    unfold Instr.awaits Instr.enters at h
    split at h <;> first | rfl | cases h

/-- All threads keep to the order. -/
def InOrder (lt : ℕ → ℕ → Prop) (threads : List (List Instr)) : Prop :=
  ∀ c ∈ threads, (mutexes handles).Ordered lt c

/-- What the function uses is below what is locked around it. -/
def Under (lt : ℕ → ℕ → Prop) (f : List Op) (k : List Instr) : Prop :=
  ∀ y ∈ code f, ∀ z ∈ k, (mutexes handles).Inside lt y z

end Uses

/-- What the next turn of thread `i` runs, or destroys, and the code around it. -/
def State.entering (s : State) (i : ℕ) : Option (List Op × List Instr) :=
  match s.threads[i]? with
  | some (.invoke q j :: k) =>
      match (s.sources q).callbacks[j]?.bind (s.functions[·]?) with
      | some (some f) => some (f.body, .invoke q j :: k)
      | _ => none
  | some (.clear q callback_slot id :: k) =>
      match (s.sources q).callbacks[callback_slot]?.bind (s.functions[·]?) with
      | some (some f) => some (f.drops, .clear q callback_slot id :: k)
      | _ => none
  | some (.load q caller f :: k) =>
      if (s.sources q).stopped then some (if caller.runsErr then f.body else f.drops, k) else none
  | _ => none

/-- No function panics, and when one is about to be run or destroyed, each thread, the one with that
function included, only uses sources below those it has locked. -/
def Respects (lt : ℕ → ℕ → Prop) (s : State) : Label → Prop
  | .call _ => True
  | .panic _ => False
  | .run i => ∀ fk ∈ s.entering i,
      InOrder s.handles lt s.threads ∧ Under s.handles lt fk.1 fk.2

/-- **The condition under which every `request_stop` completes**: at each step, the sources can be
put in an order that it respects. -/
def Orderly (s : State) (l : Label) : Prop :=
  ∃ lt : ℕ → ℕ → Prop, IsStrictOrder ℕ lt ∧ Respects lt s l

instance (lt : ℕ → ℕ → Prop) [DecidableRel lt] (s : State) : ∀ l, Decidable (Respects lt s l)
  | .call _ => isTrue trivial
  | .panic _ => isFalse id
  | .run i => inferInstanceAs (Decidable (∀ fk ∈ s.entering i,
      (∀ c ∈ s.threads, (mutexes s.handles).Ordered lt c) ∧
        ∀ y ∈ code fk.1, ∀ z ∈ fk.2, (mutexes s.handles).Inside lt y z))

section

variable {s t : State} {i : ℕ} {c k : List Instr} {x : Instr} {l : Label} {lt : ℕ → ℕ → Prop}
  {handles : List (ℕ × StoppableCallback)}

theorem Orderly.peaceful (h : Orderly s l) : Peaceful s l := by
  obtain ⟨lt, -, hl⟩ := h
  cases l with
  | panic i => exact hl
  | _ => trivial

theorem InOrder.goto (h : InOrder handles lt s.threads)
    (hc : (mutexes handles).Ordered lt (c ++ k)) :
    InOrder handles lt (s.goto i c k).threads := by
  intro d hd
  obtain hd | rfl := List.mem_or_eq_of_mem_set hd
  · exact h d hd
  · exact hc

theorem InOrder.head (h : InOrder handles lt s.threads) (hi : s.threads[i]? = some (x :: k)) :
    (mutexes handles).Ordered lt (x :: k) :=
  h _ (List.mem_of_getElem? hi)

/-- An instruction about the same source comes in place of another. -/
theorem InOrder.next (h : InOrder handles lt s.threads) (hi : s.threads[i]? = some (x :: k))
    {y : Instr} (hy : y.uses handles = x.uses handles) :
    InOrder handles lt (s.goto i [y] k).threads :=
  h.goto ((h.head hi).replace fun _ hr => hy.symm.trans hr)

theorem InOrder.leave (h : InOrder handles lt s.threads) (hi : s.threads[i]? = some (x :: k)) :
    InOrder handles lt (s.goto i [] k).threads :=
  h.goto (h.head hi).tail

theorem ordered_code (f : List Op) : (mutexes handles).Ordered lt (code f) :=
  Locks.Ordered.of_holds_none fun y hy => by
    obtain ⟨o, -, rfl⟩ := List.mem_map.mp hy
    rfl

/-- A function is run, or destroyed, inside of the mutex that `x` has, and `y` after it. -/
theorem InOrder.enter (h : InOrder handles lt s.threads) (hi : s.threads[i]? = some (x :: k))
    {y : Instr} (hy : y.uses handles = x.uses handles ∧ y.holds = x.holds) {f : List Op}
    (hf : Under handles lt f (x :: k)) :
    InOrder handles lt (s.goto i (code f ++ [y]) k).threads := by
  have hnext : (mutexes handles).Ordered lt (y :: k) :=
    (h.head hi).replace fun _ hr => hy.1.symm.trans hr
  refine h.goto ?_
  rw [List.append_assoc, List.singleton_append]
  refine hnext.append (ordered_code f) fun z hz w hw => ?_
  obtain rfl | hw := List.mem_cons.mp hw
  · exact fun r hr q hq => hf z hz x (.head _) r hr q (hy.2.symm.trans hq)
  · exact hf z hz w (.tail _ hw)

/-- A turn keeps to the order, as far as the handles are the same. -/
theorem Turn.inOrder_same (h : Turn s i k x t) (hi : s.threads[i]? = some (x :: k))
    (ho : InOrder s.handles lt s.threads)
    (hf : ∀ fk ∈ s.entering i, Under s.handles lt fk.1 fk.2) :
    InOrder s.handles lt t.threads := by
  cases h with
  | store q => exact InOrder.next (s := s.store q) ho hi rfl
  | @enter _ inside q hx _ =>
      refine ho.next hi ?_
      have huses : x.uses s.handles = some q :=
        (mutexes s.handles).uses_of_awaits
          (show x.awaits = some q by rw [Instr.awaits, hx]; rfl)
      rw [huses]
      unfold Instr.enters at hx
      split at hx <;> cases hx <;> rfl
  | forget q name _ => exact ho.leave hi
  | detach q name id => exact ho.leave hi
  | take q name n id hlive =>
      refine ho.next hi ?_
      simp [Instr.uses, Op.uses, hlive]
  | done q j _ => exact ho.leave hi
  | skip q j id _ _ => exact ho.next hi rfl
  | run q j id f hslot hbox =>
      exact ho.enter hi (y := .invoke q (j + 1)) ⟨rfl, rfl⟩
        (hf (f.body, .invoke q j :: k) (by simp [State.entering, hi, hslot, hbox]))
  | refuse q caller f hstopped =>
      refine ho.goto (k := k) ((ho.head hi).tail.append (ordered_code _) ?_)
      exact hf (if caller.runsErr then f.body else f.drops, k)
        (by simp [State.entering, hi, hstopped])
  | accept q caller f _ => exact ho.next hi rfl
  | push q caller f =>
      rw [push_threads]
      exact ho.leave hi
  | clear q n id hslot =>
      refine ho.enter hi (y := .cleared q id) ⟨rfl, rfl⟩ ?_
      unfold State.boxDrops
      split
      next f hbox =>
        exact hf (f.drops, .clear q n id :: k) (by simp [State.entering, hi, hslot, hbox])
      next => exact fun y hy => nomatch hy
  | cleared q id => exact ho.leave hi

/-- No handle comes into being, unless one is kept. -/
theorem Turn.live (h : Turn s i k x t) (hx : ∀ q caller f, x = .push q caller f → caller.detached)
    {q name : ℕ} (hlive : Live t.handles q name) : Live s.handles q name := by
  obtain ⟨hd, hmem, hname, hstate⟩ := hlive
  cases h with
  | detach q' name' id =>
      obtain ⟨n, hn⟩ := List.mem_iff_getElem?.mp hmem
      simp only [List.getElem?_modify] at hn
      obtain ⟨hd', hhd', heq⟩ := Option.map_eq_some_iff.mp hn
      split at heq
      · rw [← heq] at hstate
        cases hstate
      · exact ⟨hd', List.mem_of_getElem? hhd', heq ▸ hname, heq ▸ hstate⟩
  | take q' name' n id _ => exact ⟨hd, List.mem_of_mem_eraseIdx hmem, hname, hstate⟩
  | push q' caller f =>
      refine ⟨hd, ?_, hname, hstate⟩
      rwa [State.push, if_pos (hx q' caller f rfl)] at hmem
  | _ => exact ⟨hd, hmem, hname, hstate⟩

theorem uses_of_live {handles' : List (ℕ × StoppableCallback)}
    (hlive : ∀ q name, Live handles' q name → Live handles q name) {y : Instr} {r : ℕ}
    (hr : y.uses handles' = some r) : y.uses handles = some r := by
  cases y with
  | op o =>
      cases o with
      | drop q name =>
          obtain ⟨hl, heq⟩ := Option.ite_none_right_eq_some.mp hr
          exact (if_pos (hlive q name hl)).trans heq
      | _ => exact hr
  | _ => exact hr

/-- **A turn keeps to the order**, if the function that it runs or destroys does, and no handle is
kept. -/
theorem Turn.inOrder (h : Turn s i k x t) (hi : s.threads[i]? = some (x :: k))
    (hx : ∀ q caller f, x = .push q caller f → caller.detached)
    (ho : InOrder s.handles lt s.threads)
    (hf : ∀ fk ∈ s.entering i, Under s.handles lt fk.1 fk.2) : InOrder t.handles lt t.threads :=
  fun c hc => (h.inOrder_same hi ho hf c hc).mono
    (fun _ _ _ hr => uses_of_live (fun _ _ => h.live hx) hr) fun _ _ _ hq => hq

/-! ## A handle that is kept -/

/-- A mutex has one holder. -/
def Exclusive (s : State) : Prop := ∀ q, s.holders q ≤ 1

theorem holders_goto (hi : s.threads[i]? = some (x :: k)) (q : ℕ)
    (ht : t.threads = (s.goto i c k).threads) :
    t.holders q + x.held q = s.holders q + weight (Instr.held q) c := by
  unfold State.holders
  rw [ht]
  exact total_goto _ hi c

@[simp] theorem weight_held_code (f : List Op) (q : ℕ) : weight (Instr.held q) (code f) = 0 := by
  refine List.sum_eq_zero fun n hn => ?_
  obtain ⟨y, hy, rfl⟩ := List.mem_map.mp hn
  obtain ⟨o, -, rfl⟩ := List.mem_map.mp hy
  rfl

/-- What a thread that takes a mutex has then. -/
theorem holds_of_enters {inside : Instr} {q : ℕ} (hx : x.enters = some (q, inside)) :
    inside.holds = some q ∧ x.holds = none := by
  unfold Instr.enters at hx
  split at hx <;> cases hx <;> exact ⟨rfl, rfl⟩

/-- A turn in which the thread keeps the mutex it has, or gives it back. -/
theorem Exclusive.goto (h : Exclusive s) (hi : s.threads[i]? = some (x :: k))
    (ht : t.threads = (s.goto i c k).threads) (hc : ∀ q, weight (Instr.held q) c ≤ x.held q) :
    Exclusive t := by
  intro q
  have := holders_goto hi q ht
  have := h q
  have := hc q
  omega

theorem Turn.exclusive (h : Turn s i k x t) (hi : s.threads[i]? = some (x :: k))
    (he : Exclusive s) : Exclusive t := by
  cases h with
  | @enter _ inside q hx hfree =>
      intro q'
      obtain ⟨hinside, hnone⟩ := holds_of_enters hx
      have hgoto := holders_goto (t := s.goto i [inside] k) hi q' rfl
      have hle := he q'
      by_cases heq : q = q'
      · subst heq
        simp only [weight_cons, weight_nil, Instr.held, hinside, if_true] at hgoto
        omega
      · simp only [weight_cons, weight_nil, Instr.held, hinside, Option.some.injEq, heq, if_false]
          at hgoto
        omega
  | forget q name hx => exact he.goto (c := []) hi rfl fun _ => Nat.zero_le _
  | push q caller f => exact he.goto (c := []) hi (push_threads ..) fun _ => Nat.zero_le _
  | store q => exact he.goto (c := [.lockStop q]) hi rfl fun _ => le_rfl
  | take q name n id _ => exact he.goto (c := [.lockClear q n id]) hi rfl fun _ => le_rfl
  | skip q j id _ _ => exact he.goto hi rfl fun _ => le_rfl
  | run q j id f _ _ =>
      refine he.goto hi rfl fun q' => ?_
      rw [weight_append, weight_held_code, Nat.zero_add]
      exact le_rfl
  | refuse q caller f _ => exact he.goto hi rfl fun q' => by simp
  | accept q caller f _ => exact he.goto hi rfl fun _ => le_rfl
  | clear q n id _ =>
      refine he.goto hi rfl fun q' => ?_
      rw [weight_append, weight_held_code, Nat.zero_add]
      exact le_rfl
  | _ => exact he.goto (c := []) hi rfl fun _ => Nat.zero_le _

/-- Some order is kept to. -/
def Ordered (s : State) : Prop :=
  ∃ lt : ℕ → ℕ → Prop, IsStrictOrder ℕ lt ∧ InOrder s.handles lt s.threads

/-- **A handle that is kept may be dropped by anybody**: nobody has the mutex of its source after
the registration. -/
theorem Ordered.push (h : Ordered s) (he : Exclusive s) {q : ℕ} {caller : Caller} {f : Callback}
    (hi : s.threads[i]? = some (.push q caller f :: k)) : Ordered (s.push i k q caller f) := by
  obtain ⟨lt, hlt, ho⟩ := h
  have hfree : (s.push i k q caller f).holders q = 0 := by
    have hgoto := holders_goto (c := []) hi q (push_threads s i k q caller f)
    have := he q
    simp only [Instr.held, Instr.holds, if_true, weight_nil] at hgoto
    omega
  have hlive : ∀ {q' name}, Live (s.push i k q caller f).handles q' name →
      q' = q ∨ Live s.handles q' name := by
    rintro q' name ⟨hd, hmem, hname, hstate⟩
    unfold State.push at hmem
    split at hmem
    · exact .inr ⟨hd, hmem, hname, hstate⟩
    · obtain hmem | hmem := List.mem_append.mp hmem
      · exact .inr ⟨hd, hmem, hname, hstate⟩
      · rw [List.mem_singleton.mp hmem] at hstate
        exact .inl (Option.some.inj hstate).symm
  refine ⟨Locks.Sunk lt q, Locks.isStrictOrder_sunk q, fun c hc => ?_⟩
  have hold : InOrder s.handles lt (s.push i k q caller f).threads := by
    rw [push_threads]
    exact ho.leave hi
  refine (hold c hc).sink (fun y hy => ?_) (fun y hy r hr => ?_) fun _ _ _ hq => hq
  · exact not_holds_of_holders hfree (List.mem_flatten.mpr ⟨c, hc, hy⟩)
  · cases y with
    | op o =>
        cases o with
        | drop q' name =>
            obtain ⟨hl, heq⟩ := Option.ite_none_right_eq_some.mp hr
            obtain rfl := Option.some.inj heq
            exact (hlive hl).imp_right fun hl => if_pos hl
        | _ => exact .inr hr
    | _ => exact .inr hr

theorem Ordered.step (h : Ordered s) (he : Exclusive s) (hp : Peace s) (hl : Orderly s l)
    (hs : StopToken.step s l = some t) : Ordered t := by
  obtain ⟨o, -, rfl⟩ | ⟨i, x, k, rfl, hi, hturn⟩ := hp.calm.step_cases hp.inv hl.peaceful hs
  · obtain ⟨lt, hlt, ho⟩ := h
    refine ⟨lt, hlt, fun d hd => ?_⟩
    obtain hd | hd := List.mem_append.mp hd
    · exact ho d hd
    · rw [List.mem_singleton.mp hd]
      exact List.pairwise_singleton _ _
  · by_cases hpush : ∃ q caller f, x = .push q caller f
    · obtain ⟨q, caller, f, rfl⟩ := hpush
      cases hturn with
      | enter _ hx _ => cases hx
      | forget _ _ hx => simp at hx
      | push => exact h.push he hi
    · have hx : ∀ q caller f, x = .push q caller f → caller.detached := fun q caller f hx =>
        absurd ⟨q, caller, f, hx⟩ hpush
      obtain ⟨lt', hlt', hl⟩ := hl
      by_cases hentering : s.entering i = none
      · obtain ⟨lt, hlt, ho⟩ := h
        refine ⟨lt, hlt, hturn.inOrder hi hx ho fun fk hfk => ?_⟩
        rw [hentering] at hfk
        cases hfk
      · obtain ⟨fk, hfk⟩ := Option.ne_none_iff_exists'.mp hentering
        exact ⟨lt', hlt', hturn.inOrder hi hx (hl fk hfk).1 fun fk hfk => (hl fk hfk).2⟩

theorem Exclusive.step (h : Exclusive s) (hp : Peace s) (hl : Peaceful s l)
    (hs : StopToken.step s l = some t) : Exclusive t := by
  obtain ⟨o, -, rfl⟩ | ⟨i, x, k, -, hi, hturn⟩ := hp.calm.step_cases hp.inv hl hs
  · intro q
    simpa [State.holders, Instr.held, Instr.holds] using h q
  · exact hturn.exclusive hi h

/-! ## Nobody is stuck -/

theorem holders_eq_zero {q : ℕ} (h : (mutexes handles).Free s.threads q) : s.holders q = 0 := by
  rw [State.holders, total_eq_weight_flatten]
  refine List.sum_eq_zero fun n hn => ?_
  obtain ⟨y, hy, rfl⟩ := List.mem_map.mp hn
  obtain ⟨c, hc, hyc⟩ := List.mem_flatten.mp hy
  exact if_neg (h c hc y hyc)

/-- What an instruction that takes a mutex does. -/
theorem exec_of_enters {q : ℕ} {inside : Instr} (hx : x.enters = some (q, inside)) :
    s.exec i k x = s.lock i k q inside := by
  unfold Instr.enters at hx
  split at hx <;> cases hx <;> rfl

/-- An instruction whose mutex is free can be done. -/
theorem exists_exec (hx : ∀ q, x.awaits = some q → s.holders q = 0) :
    ∃ t, s.exec i k x = some t := by
  cases henters : x.enters with
  | some r =>
      have hfree := hx r.1 (by rw [Instr.awaits, henters]; rfl)
      exact ⟨_, (exec_of_enters henters).trans (if_pos hfree)⟩
  | none =>
      cases x with
      | op o =>
          cases o with
          | callback q caller body drops => cases henters
          | _ => exact ⟨_, rfl⟩
      | lockStop q => cases henters
      | lockClear q n id => cases henters
      | _ => exact ⟨_, rfl⟩

/-- **Some thread can go on**, unless all is quiet. -/
theorem Ordered.enabled (h : Ordered s) : Quiet s ∨ ∃ i t, StopToken.step s (.run i) = some t := by
  by_cases hquiet : Quiet s
  · exact .inl hquiet
  · obtain ⟨lt, hlt, ho⟩ := h
    have hne : ∃ c ∈ s.threads, c ≠ [] := by simpa [Quiet] using hquiet
    obtain ⟨x, k, hmem, hfree⟩ := Locks.exists_unblocked ho hne
    obtain ⟨i, hi⟩ := List.mem_iff_getElem?.mp hmem
    obtain ⟨t, ht⟩ := exists_exec (i := i) (k := k) fun q hq => holders_eq_zero (hfree q hq)
    exact .inr ⟨i, t, by simpa [StopToken.step, hi] using ht⟩

/-- No thread waits for a mutex that it holds. -/
def NotOwn (s : State) : Prop :=
  ∀ x k, x :: k ∈ s.threads → ∀ q, x.awaits = some q → ∀ y ∈ x :: k, y.holds ≠ some q

theorem Ordered.notOwn (h : Ordered s) : NotOwn s := by
  intro x k hmem q hq
  obtain ⟨lt, hlt, ho⟩ := h
  exact (ho _ hmem).not_own hq

/-- The invariant of the orderly runs. -/
theorem ordered_inductive :
    machine.Inductive Orderly (fun s => Steady s ∧ Exclusive s ∧ Ordered s) where
  init := by
    refine ⟨Steady.inductive.init, fun q => Nat.zero_le _, (· < ·), inferInstance, fun c hc => ?_⟩
    cases hc
  step s l t h hl hs :=
    ⟨h.1.step hl.peaceful hs, h.2.1.step h.1.peace hl.peaceful hs,
      h.2.2.step h.2.1 h.1.peace hl hs⟩

/-- What re-entrant callers of `request_stop` can rely on. -/
structure Completes (s : State) : Prop where
  notOwn : NotOwn s
  /-- some thread can go on, and not for ever -/
  enabled : Quiet s ∨ ∃ i t, StopToken.step s (.run i) = some t
  bounded : ∃ n, ∀ as t, machine.exec s as = some t → (∀ l ∈ as, ∃ i, l = .run i) → as.length ≤ n
  panics : s.panics = []
  /-- what is run is the function that was registered -/
  runs : ∀ l t, StopToken.step s l = some t → ∀ id f, s.functions[id]? = some (some f) →
    BoxStep s t id f
  once : ∀ q id, s.log.count (.invoked q id) ≤ 1
  /-- a callback that is still registered when its source is stopped -/
  invoked : Quiet s → ∀ q id, .stopRequested q ∈ s.log → .registered q id ∈ s.log →
    .dropped q id ∉ s.log → s.log.count (.invoked q id) = 1
  /-- every drop has returned -/
  dropped : Quiet s → ∀ q id, .registered q id ∈ s.log →
    (∃ h ∈ s.handles, h.2.state = some q ∧ h.2.id = id) ∨ .detached q id ∈ s.log ∨
      .dropReturned q id ∈ s.log

/-- **Every `request_stop` completes** in the orderly runs: no thread waits for itself; as long as
anything is left to do, some thread can go on, and it takes only so many turns until nothing is;
then each callback of a stopped source that is still registered was run exactly once, and each
handle is there, is detached, or was dropped, and that has returned. -/
theorem request_stop_completes (as : List Label) (s : State) (h : machine.Run Orderly as s) :
    Completes s := by
  obtain ⟨hsteady, -, hordered⟩ := ordered_inductive.of_run h
  obtain ⟨-, hhandled⟩ := Handled.inductive.of_run (h.mono fun _ _ _ => trivial)
  refine
    { notOwn := hordered.notOwn
      enabled := hordered.enabled
      bounded := hsteady.peace.bounded
      panics := hsteady.peace.calm.panics
      runs := fun l t hs id f hf => hsteady.peace.inv.box_step hs hf
      once := hsteady.peace.inv.log.count_le
      invoked := fun hquiet q id => hsteady.invoked hquiet
      dropped := fun hquiet q id hreg => ?_ }
  cases hhandled.accounted q id hreg with
  | kept hd hmem hstate hid => exact .inl ⟨hd, hmem, hstate, hid⟩
  | detached hmem => exact .inr (.inl hmem)
  | dropping hdrop =>
      obtain ⟨x, hx, -⟩ := hdrop
      exact absurd hx (hquiet.not_mem x)
  | returned hmem => exact .inr (.inr hmem)
  | poisoned hq =>
      rw [hsteady.peace.calm.poisoned q] at hq
      cases hq

/-- A callback of source 3 stops source 2, and there a callback registers one of source 1, and drops
its handle, which stops source 0. -/
def downwards : List Label :=
  [.call (.callback 3 ⟨0, true, true⟩ [.requestStop 2] []), .run 0, .run 0, .run 0,
    .call (.callback 2 ⟨0, true, true⟩
      [.callback 1 ⟨5, false, true⟩ [] [.requestStop 0], .drop 1 5] []), .run 1, .run 1,
    .run 1, .call (.requestStop 3)] ++ List.replicate 18 (.run 2)

theorem downwards_completes :
    ∃ s, machine.Run Orderly downwards s ∧ s.threads = [[], [], []] ∧
      s.log = [.registered 3 0, .detached 3 0, .registered 2 1, .detached 2 1, .stopRequested 3,
        .invoked 3 0, .stopRequested 2, .invoked 2 1, .registered 1 2, .dropped 1 2,
        .stopRequested 0, .stopReturned 0, .dropReturned 1 2, .stopReturned 2, .stopReturned 3] ∧
      Completes s := by
  obtain ⟨s, hs, hthreads, hlog⟩ : ∃ s, machine.exec fresh downwards = some s ∧
      s.threads = [[], [], []] ∧
      s.log = [.registered 3 0, .detached 3 0, .registered 2 1, .detached 2 1, .stopRequested 3,
        .invoked 3 0, .stopRequested 2, .invoked 2 1, .registered 1 2, .dropped 1 2,
        .stopRequested 0, .stopReturned 0, .dropReturned 1 2, .stopReturned 2, .stopReturned 3] :=
    ⟨_, rfl, rfl, rfl⟩
  have hrun : machine.Run (Respects (· < ·)) downwards s := .of_exec (by decide +kernel) hs
  have hrun' : machine.Run Orderly downwards s := hrun.mono fun _ _ h => ⟨_, inferInstance, h⟩
  exact ⟨s, hrun', hthreads, hlog, request_stop_completes downwards s hrun'⟩

/-- A thread that is about to take a mutex which it has, when all others have returned. -/
theorem blocked_of_own {n q : ℕ} {y inside : Instr}
    (hthreads : s.threads = List.replicate n [] ++ [x :: k]) (hx : x.enters = some (q, inside))
    (hy : y ∈ k) (hq : y.holds = some q) :
    ¬NotOwn s ∧ ∀ i, StopToken.step s (.run i) = none := by
  have hhead : x :: k ∈ s.threads := by simp [hthreads]
  refine ⟨fun hown => ?_, fun i => ?_⟩
  · exact hown x k hhead q (by rw [Instr.awaits, hx]; rfl) y (.tail _ hy) hq
  · have hheld : s.holders q ≠ 0 := fun hzero =>
      not_holds_of_holders hzero (List.mem_flatten.mpr ⟨_, hhead, .tail _ hy⟩) hq
    have hget : s.threads[i]? = some [] ∨ s.threads[i]? = some (x :: k) ∨ s.threads[i]? = none := by
      rcases Nat.lt_trichotomy i n with hlt | rfl | hgt
      · exact .inl (by simp [hthreads, List.getElem?_append_left, hlt])
      · exact .inr (.inl (by simp [hthreads]))
      · exact .inr (.inr (by simp [hthreads]; omega))
    rcases hget with hi | hi | hi
    · simp [StopToken.step, hi]
    · have hlock : s.lock i k q inside = none := if_neg hheld
      simp [StopToken.step, hi, exec_of_enters hx, hlock]
    · simp [StopToken.step, hi]

/-- **A thread waits for ever** for the mutex that it has. -/
def Blocks (as : List Label) (threads : List (List Instr)) : Prop :=
  ∃ s, machine.Run Peaceful as s ∧ s.threads = threads ∧ ¬NotOwn s ∧
    ∀ i, StopToken.step s (.run i) = none

/-- A callback that stops its own source. -/
def selfStop : List Label :=
  [.call (.callback 0 ⟨0, true, true⟩ [.requestStop 0] []), .run 0, .run 0, .run 0,
    .call (.requestStop 0), .run 1, .run 1, .run 1, .run 1]

/-- A callback that owns the handle of another one of the same source, when its own is dropped. -/
def ownedHandle : List Label :=
  [.call (.callback 0 ⟨1, false, true⟩ [] []), .run 0, .run 0, .run 0,
    .call (.callback 0 ⟨0, false, true⟩ [.drop 0 1] [.drop 0 1]), .run 1, .run 1, .run 1,
    .call (.drop 0 0), .run 2, .run 2, .run 2, .run 2]

theorem selfStop_blocks :
    Blocks selfStop [[], [.lockStop 0, .invoke 0 1]] ∧
      Blocks ownedHandle [[], [], [.lockClear 0 0 0, .cleared 0 1]] := by
  constructor
  · obtain ⟨s, hs, hthreads⟩ : ∃ s, machine.exec fresh selfStop = some s ∧
        s.threads = List.replicate 1 [] ++ [[.lockStop 0, .invoke 0 1]] := ⟨_, rfl, rfl⟩
    exact ⟨s, .of_exec (by decide +kernel) hs, hthreads,
      blocked_of_own hthreads rfl (.head _) rfl⟩
  · obtain ⟨s, hs, hthreads⟩ : ∃ s, machine.exec fresh ownedHandle = some s ∧
        s.threads = List.replicate 2 [] ++ [[.lockClear 0 0 0, .cleared 0 1]] := ⟨_, rfl, rfl⟩
    exact ⟨s, .of_exec (by decide +kernel) hs, hthreads,
      blocked_of_own hthreads rfl (.head _) rfl⟩

end

end SendersReceivers.StopToken
