import SendersReceivers.Scope.Root

/-!
# Scope/SameThread — `sync_wait`, whose handles never leave the thread

All that `sync_wait` runs is run by the calling thread, inside of the function that it gives to
`scope`: the chain is connected and started, and then the outcome must be there.  What the chain
does is left open, but for the handles: the stack of the function has some, and others are kept by
values that outlive it.

    stack ──store──▸ a task in the queue of a ThreadLocalPool,
          ◂──take──  a pending ensure_started or Split, …

When the function is over, so is its stack; but a handle that is stored can only be dropped by a
thread that waits for just that.
-/

namespace SendersReceivers.SameThread

open Machinery RootScope

/-- Where the thread is. -/
inductive Phase where
  /-- in the function of `scope`, which has its result once it returns or unwinds -/
  | inside (result : Option Unwind)
  /-- about to look at `state.running()` -/
  | checking (result : Unwind)
  /-- about to park, or parked -/
  | parking (result : Unwind)
  /-- past the loop -/
  | leaving (result : Unwind)
  | done (outcome : RootScope.Outcome)
  deriving DecidableEq

/-- `ScopeDataNoSend`, and the one thread there is.  `stack` counts the handles that the function
owns, and `stored` those of each value that outlives it; `sent` is whether the channel of
`sync_wait` has an outcome. -/
structure State where
  num_running_threads : ℕ
  a_thread_panicked : Bool
  notify : Option Unit
  stack : ℕ
  stored : List ℕ
  sent : Bool
  phase : Phase
  token : Bool
  panics : List String

/-- What can happen next. -/
inductive Label where
  /-- a handle is cloned, or dropped -/
  | clone
  | drop
  /-- a value with `k` handles goes where it outlives the function: a task into the queue of a
  `ThreadLocalPool`, a receiver into a pending `ensure_started` or `Split` -/
  | store (k : ℕ)
  /-- value `i` gets one more handle -/
  | give (i : ℕ)
  /-- value `i` comes back: the task is run, the receiver is called, or it is dropped -/
  | take (i : ℕ)
  /-- the receiver of `sync_wait` gets its signal -/
  | deliver
  /-- `ScopeData::run` catches a panic -/
  | mark
  /-- the function panics, or takes the outcome out of the channel -/
  | unwind
  | recv
  /-- the function is over, and drops `scope` -/
  | close
  | check
  | park
  /-- `park` returns for no reason -/
  | spurious
  /-- another thread unparks this one, or it parks inside of the function -/
  | unpark
  | consume
  | leave
  deriving DecidableEq

namespace State

/-- `decrement_num_running_threads`, with the `notify` of `scope`. -/
def decrement (s : State) : State :=
  match s.num_running_threads with
  | 0 => { s with panics := s.panics ++ ["attempt to subtract with overflow"] }
  | 1 =>
      match s.notify with
      | some () => { s with num_running_threads := 0, notify := none, token := true }
      | none =>
          { s with
            num_running_threads := 0
            panics := s.panics ++ ["has not been notified before"] }
  | n + 2 => { s with num_running_threads := n + 1 }

/-- `increment_num_running_threads`, with its `overflow`. -/
def increment (s : State) : State :=
  if usizeMax / 2 < s.num_running_threads then
    { s.decrement with
      phase := .inside (some .err)
      panics := s.decrement.panics ++ ["too many running threads in thread scope"] }
  else { s with num_running_threads := s.num_running_threads + 1, stack := s.stack + 1 }

/-- The handles that are stored. -/
def kept (s : State) : ℕ := weight id s.stored

end State

/-- **The step function.** -/
def step (s : State) : Label → Option State
  | .clone =>
      match s.phase with
      | .inside _ => some s.increment
      | _ => none
  | .drop =>
      match s.phase with
      | .inside _ => if 0 < s.stack then some { s.decrement with stack := s.stack - 1 } else none
      | _ => none
  | .store k =>
      match s.phase with
      | .inside _ =>
          if k ≤ s.stack then some { s with stack := s.stack - k, stored := s.stored ++ [k] }
          else none
      | _ => none
  | .give i =>
      match s.phase with
      | .inside _ =>
          if 0 < s.stack then
            s.stored[i]?.map fun k =>
              { s with stack := s.stack - 1, stored := s.stored.set i (k + 1) }
          else none
      | _ => none
  | .take i =>
      match s.phase with
      | .inside _ =>
          s.stored[i]?.map fun k => { s with stack := s.stack + k, stored := s.stored.set i 0 }
      | _ => none
  | .deliver => if s.phase = .inside none then some { s with sent := true } else none
  | .mark =>
      match s.phase with
      | .inside _ => some { s with a_thread_panicked := true }
      | _ => none
  | .unwind => if s.phase = .inside none then some { s with phase := .inside (some .err) } else none
  | .recv =>
      if s.phase = .inside none then
        -- `expect("a single value must be delivered")`
        some { s with phase := .inside (some (if s.sent then .ok else .err)) }
      else none
  | .close =>
      match s.phase with
      | .inside (some r) =>
          if s.stack = 0 then some { s.decrement with phase := .checking r } else none
      | _ => none
  | .check =>
      match s.phase with
      | .checking r =>
          some { s with phase := if s.num_running_threads = 0 then .leaving r else .parking r }
      | _ => none
  | .park =>
      match s.phase with
      | .parking r => if s.token then some { s with token := false, phase := .checking r } else none
      | _ => none
  | .spurious =>
      match s.phase with
      | .parking r => some { s with phase := .checking r }
      | _ => none
  | .unpark => some { s with token := true }
  | .consume =>
      match s.phase with
      | .inside _ => some { s with token := false }
      | _ => none
  | .leave =>
      match s.phase with
      | .leaving r => some { s with phase := .done (r.outcome s.a_thread_panicked) }
      | _ => none

/-- `ScopeDataPtr::new`, and the function of `sync_wait` with the handle in `scope`. -/
def fresh : State where
  num_running_threads := 1
  a_thread_panicked := false
  notify := some ()
  stack := 0
  stored := []
  sent := false
  phase := .inside none
  token := false
  panics := []

/-- A call of `sync_wait`. -/
def machine : Machine State Label where
  init := fresh
  step := step

/-! ## The invariant -/

/-- Whether the function is over. -/
def Phase.closed : Phase → Bool
  | .inside _ => false
  | _ => true

/-- Whether the loop is. -/
def Phase.left : Phase → Bool
  | .leaving _ | .done _ => true
  | _ => false

/-- Every handle that is counted is in `scope`, on the stack or stored. -/
structure Inv (s : State) : Prop where
  count : s.num_running_threads = s.stack + s.kept + if s.phase.closed then 0 else 1
  closed : s.phase.closed = true → s.stack = 0
  notify : s.notify = none ↔ s.num_running_threads = 0
  parked : ∀ r, s.phase = .parking r → s.num_running_threads ≠ 0
  left : s.phase.left = true → s.num_running_threads = 0
  panics : s.panics = []

/-- The overflow check is not met. -/
def Bounded (s : State) : Label → Prop
  | .clone => s.num_running_threads ≤ usizeMax / 2
  | _ => True

/-- **The condition under which `sync_wait` ends**: when the function drops `scope`, no value that
outlives it has a handle. -/
def Emptied (s : State) : Label → Prop
  | .close => ∀ k ∈ s.stored, k = 0
  | _ => True

instance (s : State) (l : Label) : Decidable (Bounded s l) := by
  unfold Bounded
  split <;> infer_instance

instance (s : State) (l : Label) : Decidable (Emptied s l) := by
  unfold Emptied
  split <;> infer_instance

section

variable {s t : State} {l : Label} {i k : ℕ}

theorem kept_eq_zero_iff : s.kept = 0 ↔ ∀ k ∈ s.stored, k = 0 := by
  simp [State.kept, weight, List.sum_eq_zero_iff]

theorem Inv.decrement_eq (h : Inv s) (hpos : 0 < s.num_running_threads) :
    s.decrement = { s with
      num_running_threads := s.num_running_threads - 1
      notify := if s.num_running_threads = 1 then none else s.notify
      token := if s.num_running_threads = 1 then true else s.token } := by
  have hsome : s.notify ≠ none := fun hnone => absurd (h.notify.mp hnone) hpos.ne'
  obtain ⟨⟨⟩, hnotify⟩ := Option.ne_none_iff_exists'.mp hsome
  unfold State.decrement
  split
  next hn => omega
  next hn => simp [hn, hnotify]
  next n hn => simp [hn]

/-- What the function of `scope` does with its handles, while it is not over. -/
theorem Inv.inside (h : Inv s) (hphase : s.phase.closed = false) (ht : t.phase.closed = false)
    (hnum : t.num_running_threads = s.num_running_threads) (hnotify : t.notify = s.notify)
    (hpanics : t.panics = s.panics) (hsum : t.stack + t.kept = s.stack + s.kept) : Inv t where
  count := by
    have hcount := h.count
    rw [hphase] at hcount
    rw [ht, hnum, hcount, hsum]
  closed hc := by simp [ht] at hc
  notify := by rw [hnotify, hnum, h.notify]
  parked r hr := by simp [hr, Phase.closed] at ht
  left hl := by
    cases hp : t.phase with
    | inside r => simp [hp, Phase.left] at hl
    | _ => simp [hp, Phase.closed] at ht
  panics := hpanics.trans h.panics

/-- What the thread does once the function is over. -/
theorem Inv.outside (h : Inv s) (hphase : s.phase.closed = true) (p : Phase) (hp : p.closed = true)
    (hparked : ∀ r, p = .parking r → s.num_running_threads ≠ 0)
    (hl : p.left = true → s.num_running_threads = 0) : Inv { s with phase := p } where
  count := by
    have hcount := h.count
    rw [hphase] at hcount
    rw [hp]
    exact hcount
  closed _ := h.closed hphase
  notify := h.notify
  parked := hparked
  left := hl
  panics := h.panics

theorem Inv.withToken (h : Inv s) (b : Bool) : Inv { s with token := b } :=
  ⟨h.count, h.closed, h.notify, h.parked, h.left, h.panics⟩

theorem Inv.drop (h : Inv s) (hphase : s.phase.closed = false) (hpos : 0 < s.stack) :
    Inv { s.decrement with stack := s.stack - 1 } := by
  have hcount := h.count
  rw [hphase] at hcount
  simp only [Bool.false_eq_true, if_false] at hcount
  rw [h.decrement_eq (by omega)]
  have hne : s.num_running_threads ≠ 1 := by omega
  simp only [if_neg hne]
  refine ⟨?_, fun hc => by simp [hphase] at hc, ?_, fun r hr => ?_, fun hl => ?_, h.panics⟩
  · simp only [hphase, Bool.false_eq_true, if_false, State.kept] at hcount ⊢
    omega
  · rw [h.notify]
    simp only
    omega
  · rw [show s.phase = .parking r from hr] at hphase
    cases hphase
  · exact absurd (h.left hl) (by omega)

theorem Inv.close (h : Inv s) {r : Unwind} (hphase : s.phase = .inside (some r))
    (hstack : s.stack = 0) : Inv { s.decrement with phase := .checking r } := by
  have hcount := h.count
  rw [hphase] at hcount
  simp only [Phase.closed, Bool.false_eq_true, if_false] at hcount
  rw [h.decrement_eq (by omega)]
  refine ⟨?_, fun _ => hstack, ?_, fun r hr => (nomatch hr), fun hl => (nomatch hl), h.panics⟩
  · simp only [Phase.closed, if_true, State.kept] at hcount ⊢
    omega
  · by_cases hone : s.num_running_threads = 1
    · simp [hone]
    · simp only [if_neg hone, h.notify]
      omega

theorem Inv.clone (h : Inv s) (hclosed : s.phase.closed = false)
    (hle : s.num_running_threads ≤ usizeMax / 2) : Inv s.increment := by
  have hcount := h.count
  simp only [hclosed, Bool.false_eq_true, if_false] at hcount
  have hinv : Inv { s with
      num_running_threads := s.num_running_threads + 1, stack := s.stack + 1 } := by
    refine ⟨?_, fun hc => absurd hc (ne_true_of_eq_false hclosed), ?_, fun r hr => ?_, fun hl => ?_,
      h.panics⟩
    · simp only [hclosed, Bool.false_eq_true, if_false, State.kept] at hcount ⊢
      omega
    · rw [h.notify]
      simp only
      omega
    · exact Nat.succ_ne_zero _
    · exact absurd (h.left hl) (by omega)
  rwa [State.increment, if_neg (Nat.not_lt.mpr hle)]

/-! ## What a step does -/

/-- Inside of the function handles are cloned, dropped and moved; it is closed; and outside of it
only the thread goes on. -/
inductive Moves (s : State) : Label → State → Prop
  | clone : s.phase.closed = false → Moves s .clone s.increment
  | drop : s.phase.closed = false → 0 < s.stack →
      Moves s .drop { s.decrement with stack := s.stack - 1 }
  | inside {l : Label} {t : State} : s.phase.closed = false → t.phase.closed = false →
      t.num_running_threads = s.num_running_threads → t.notify = s.notify → t.panics = s.panics →
      t.stack + t.kept = s.stack + s.kept → Moves s l t
  | close {r : Unwind} : s.phase = .inside (some r) → s.stack = 0 →
      Moves s .close { s.decrement with phase := .checking r }
  | outside {l : Label} (p : Phase) (token : Bool) : s.phase.closed = true → p.closed = true →
      (∀ r, p = .parking r → s.num_running_threads ≠ 0) →
      (p.left = true → s.num_running_threads = 0 ∨ s.phase.left = true) →
      Moves s l { s with phase := p, token := token }
  | token {l : Label} (token : Bool) : Moves s l { s with token := token }

/-- A step that there is inside of the function only. -/
theorem inside_cases {f : Option State}
    (hs : (match s.phase with | .inside _ => f | _ => none) = some t) :
    s.phase.closed = false ∧ f = some t := by
  split at hs
  next r hphase => exact ⟨by rw [hphase]; rfl, hs⟩
  next => cases hs

/-- A step that there is only before the function has its result. -/
theorem pending_cases {f : State}
    (hs : (if s.phase = .inside none then some f else none) = some t) :
    s.phase.closed = false ∧ f = t := by
  obtain ⟨hphase, heq⟩ := Option.ite_none_right_eq_some.mp hs
  exact ⟨by rw [hphase]; rfl, Option.some.inj heq⟩

/-- Value `i` has `k'` handles afterwards. -/
theorem kept_set (hk : s.stored[i]? = some k) (k' : ℕ) :
    weight id (s.stored.set i k') + k = s.kept + k' :=
  weight_set id hk k'

/-- The thread moves handles about. -/
theorem handles_moves (hs : SameThread.step s l = some t)
    (hl : (∃ k, l = .store k) ∨ ∃ i, l = .give i ∨ l = .take i) : Moves s l t := by
  obtain ⟨k, rfl⟩ | ⟨i, rfl | rfl⟩ := hl
  · obtain ⟨hclosed, hs⟩ := inside_cases hs
    obtain ⟨hle, heq⟩ := Option.ite_none_right_eq_some.mp hs
    obtain rfl := Option.some.inj heq
    refine .inside hclosed hclosed rfl rfl rfl ?_
    simp only [State.kept, weight_append, weight_cons, weight_nil, id_eq]
    omega
  · obtain ⟨hclosed, hs⟩ := inside_cases hs
    obtain ⟨hpos, heq⟩ := Option.ite_none_right_eq_some.mp hs
    obtain ⟨k, hk, rfl⟩ := Option.map_eq_some_iff.mp heq
    have hset := kept_set hk (k + 1)
    refine .inside hclosed hclosed rfl rfl rfl ?_
    simp only [State.kept] at hset ⊢
    omega
  · obtain ⟨hclosed, hs⟩ := inside_cases hs
    obtain ⟨k, hk, rfl⟩ := Option.map_eq_some_iff.mp hs
    have hset := kept_set hk 0
    refine .inside hclosed hclosed rfl rfl rfl ?_
    simp only [State.kept] at hset ⊢
    omega

/-- The loop, and what comes behind. -/
theorem loop_moves (hs : SameThread.step s l = some t)
    (hl : l = .check ∨ l = .park ∨ l = .spurious ∨ l = .leave) : Moves s l t := by
  obtain rfl | rfl | rfl | rfl := hl
  · simp only [SameThread.step] at hs
    split at hs
    next r hphase =>
      obtain rfl := Option.some.inj hs
      have hclosed : s.phase.closed = true := by rw [hphase]; rfl
      by_cases hzero : s.num_running_threads = 0
      · rw [if_pos hzero]
        exact .outside (.leaving r) s.token hclosed rfl (fun _ hr => nomatch hr) fun _ => .inl hzero
      · rw [if_neg hzero]
        exact .outside (.parking r) s.token hclosed rfl (fun _ _ => hzero) fun hl => nomatch hl
    next => cases hs
  · simp only [SameThread.step] at hs
    split at hs
    next r hphase =>
      obtain ⟨-, heq⟩ := Option.ite_none_right_eq_some.mp hs
      obtain rfl := Option.some.inj heq
      exact .outside (.checking r) false (by rw [hphase]; rfl) rfl (fun _ hr => nomatch hr)
        fun hl => nomatch hl
    next => cases hs
  · simp only [SameThread.step] at hs
    split at hs
    next r hphase =>
      obtain rfl := Option.some.inj hs
      exact .outside (.checking r) s.token (by rw [hphase]; rfl) rfl (fun _ hr => nomatch hr)
        fun hl => nomatch hl
    next => cases hs
  · simp only [SameThread.step] at hs
    split at hs
    next r hphase =>
      obtain rfl := Option.some.inj hs
      exact .outside (.done _) s.token (by rw [hphase]; rfl) rfl (fun _ hr => nomatch hr)
        fun _ => .inr (by rw [hphase]; rfl)
    next => cases hs

/-- **Every step is one of these.** -/
theorem step_moves (hs : SameThread.step s l = some t) : Moves s l t := by
  cases l with
  | clone =>
      obtain ⟨hclosed, hs⟩ := inside_cases hs
      exact Option.some.inj hs ▸ .clone hclosed
  | drop =>
      obtain ⟨hclosed, hs⟩ := inside_cases hs
      obtain ⟨hpos, heq⟩ := Option.ite_none_right_eq_some.mp hs
      exact Option.some.inj heq ▸ .drop hclosed hpos
  | store k => exact handles_moves hs (.inl ⟨k, rfl⟩)
  | give i => exact handles_moves hs (.inr ⟨i, .inl rfl⟩)
  | take i => exact handles_moves hs (.inr ⟨i, .inr rfl⟩)
  | deliver =>
      obtain ⟨hclosed, rfl⟩ := pending_cases hs
      exact .inside hclosed hclosed rfl rfl rfl rfl
  | mark =>
      obtain ⟨hclosed, hs⟩ := inside_cases hs
      exact Option.some.inj hs ▸ .inside hclosed hclosed rfl rfl rfl rfl
  | unwind =>
      obtain ⟨hclosed, rfl⟩ := pending_cases hs
      exact .inside hclosed rfl rfl rfl rfl rfl
  | recv =>
      obtain ⟨hclosed, rfl⟩ := pending_cases hs
      exact .inside hclosed rfl rfl rfl rfl rfl
  | close =>
      simp only [SameThread.step] at hs
      split at hs
      next r hphase =>
        obtain ⟨hstack, heq⟩ := Option.ite_none_right_eq_some.mp hs
        exact Option.some.inj heq ▸ .close hphase hstack
      next => cases hs
  | check => exact loop_moves hs (.inl rfl)
  | park => exact loop_moves hs (.inr (.inl rfl))
  | spurious => exact loop_moves hs (.inr (.inr (.inl rfl)))
  | unpark => exact Option.some.inj hs ▸ .token true
  | consume =>
      obtain ⟨-, hs⟩ := inside_cases hs
      exact Option.some.inj hs ▸ .token false
  | leave => exact loop_moves hs (.inr (.inr (.inr rfl)))

theorem Inv.step (h : Inv s) (hb : Bounded s l) (hs : SameThread.step s l = some t) : Inv t := by
  cases step_moves hs with
  | clone hclosed => exact h.clone hclosed hb
  | drop hclosed hpos => exact h.drop hclosed hpos
  | inside hphase ht hnum hnotify hpanics hsum =>
      exact h.inside hphase ht hnum hnotify hpanics hsum
  | close hphase hstack => exact h.close hphase hstack
  | outside p token hphase hp hparked hleft =>
      have hl : p.left = true → s.num_running_threads = 0 := fun hl => (hleft hl).elim id h.left
      exact (h.outside hphase p hp hparked hl).withToken token
  | token token => exact h.withToken token

theorem Inv.inductive : machine.Inductive Bounded Inv where
  init := ⟨rfl, fun hc => (nomatch hc), by simp [machine, fresh], fun _ hr => (nomatch hr),
    fun hl => (nomatch hl), rfl⟩
  step _ _ _ h hb hs := h.step hb hs

/-! ## When `sync_wait` ends -/

/-- The thread is in the park loop, and waits for handles that only it could drop. -/
def Waits (s : State) : Prop :=
  (∃ r, s.phase = .checking r ∨ s.phase = .parking r) ∧ s.num_running_threads ≠ 0

/-- Once its function is over, `sync_wait` returns the outcome or panics. -/
def Ends (s : State) : Prop :=
  s.phase.closed = true → ∃ as t o, machine.exec s as = some t ∧ t.phase = .done o

/-- The function is over, and has left handles behind. -/
def Stranded (s : State) : Prop := s.phase.closed = true ∧ s.kept ≠ 0

theorem Inv.num_of_closed (h : Inv s) (hclosed : s.phase.closed = true) :
    s.num_running_threads = s.kept := by
  have hcount := h.count
  rw [h.closed hclosed, hclosed, Nat.zero_add] at hcount
  exact hcount

theorem Inv.waits_iff (h : Inv s) : Waits s ↔ Stranded s := by
  constructor
  · rintro ⟨⟨r, hphase⟩, hnum⟩
    have hclosed : s.phase.closed = true := by
      rcases hphase with hphase | hphase <;> rw [hphase] <;> rfl
    exact ⟨hclosed, h.num_of_closed hclosed ▸ hnum⟩
  · rintro ⟨hclosed, hkept⟩
    have hnum : s.num_running_threads ≠ 0 := h.num_of_closed hclosed ▸ hkept
    refine ⟨?_, hnum⟩
    cases hphase : s.phase with
    | inside r => simp [hphase, Phase.closed] at hclosed
    | checking r => exact ⟨r, .inl rfl⟩
    | parking r => exact ⟨r, .inr rfl⟩
    | leaving r => exact absurd (h.left (by rw [hphase]; rfl)) hnum
    | done o => exact absurd (h.left (by rw [hphase]; rfl)) hnum

/-- Once the function is over, nobody can get at a handle any more. -/
theorem closed_step (hclosed : s.phase.closed = true) (hs : SameThread.step s l = some t) :
    t.phase.closed = true ∧ t.stored = s.stored := by
  cases step_moves hs with
  | clone hopen | drop hopen _ | inside hopen _ _ _ _ _ =>
      exact absurd hclosed (ne_true_of_eq_false hopen)
  | close hphase _ =>
      rw [hphase] at hclosed
      cases hclosed
  | outside p token _ hp _ _ => exact ⟨hp, rfl⟩
  | token token => exact ⟨hclosed, rfl⟩

theorem decrement_frame (s : State) :
    s.decrement.phase = s.phase ∧ s.decrement.stored = s.stored := by
  unfold State.decrement
  split
  · exact ⟨rfl, rfl⟩
  · split <;> exact ⟨rfl, rfl⟩
  · exact ⟨rfl, rfl⟩

/-- The function is over when it drops `scope`, and at no other step. -/
theorem close_of_step (hopen : s.phase.closed = false) (hs : SameThread.step s l = some t)
    (hclosed : t.phase.closed = true) : l = .close ∧ t.stored = s.stored := by
  have hne : s.phase.closed ≠ true := ne_true_of_eq_false hopen
  cases step_moves hs with
  | clone hphase =>
      unfold State.increment at hclosed
      split at hclosed
      · cases hclosed
      · exact absurd hclosed hne
  | drop hphase _ =>
      rw [← (decrement_frame s).1] at hne
      exact absurd hclosed hne
  | inside _ ht _ _ _ _ =>
      rw [ht] at hclosed
      cases hclosed
  | close hphase _ => exact ⟨rfl, (decrement_frame s).2⟩
  | outside p token hphase _ _ _ => exact absurd hphase hne
  | token token => exact absurd hclosed hne

theorem Stranded.step (h : Stranded s) (hs : SameThread.step s l = some t) : Stranded t := by
  obtain ⟨hclosed, hstored⟩ := closed_step h.1 hs
  exact ⟨hclosed, by rw [State.kept, hstored]; exact h.2⟩

theorem bounded_of_closed (hclosed : s.phase.closed = true) (hs : SameThread.step s l = some t) :
    Bounded s l := by
  cases l with
  | clone =>
      cases hphase : s.phase with
      | inside r => simp [hphase, Phase.closed] at hclosed
      | _ => simp [SameThread.step, hphase] at hs
  | _ => trivial

/-- Nobody is left to drop what was left behind: the thread waits for ever. -/
theorem Stranded.never_done (h : Stranded s) (hinv : Inv s) {as : List Label}
    (hexec : machine.exec s as = some t) (o : RootScope.Outcome) : t.phase ≠ .done o := by
  intro hdone
  obtain ⟨hinv', hstranded⟩ : Inv t ∧ Stranded t := by
    refine Machine.exec_preserves (I := fun s => Inv s ∧ Stranded s) (fun s l t hs hstep => ?_)
      ⟨hinv, h⟩ hexec
    exact ⟨hs.1.step (bounded_of_closed hs.2.1 hstep) hstep, hs.2.step hstep⟩
  have hzero := hinv'.left (by rw [hdone]; rfl)
  rw [hinv'.num_of_closed hstranded.1] at hzero
  exact hstranded.2 hzero

/-- Without a handle, the thread goes on to its end. -/
theorem Inv.ends (h : Inv s) (hkept : s.kept = 0) : Ends s := by
  intro hclosed
  have hzero : s.num_running_threads = 0 := (h.num_of_closed hclosed).trans hkept
  have hleave (s : State) (r : Unwind) (hs : s.phase = .leaving r) :
      machine.exec s [.leave] = some { s with phase := .done (r.outcome s.a_thread_panicked) } := by
    simp [Machine.exec, machine, SameThread.step, hs]
  cases hphase : s.phase with
  | inside r => simp [hphase, Phase.closed] at hclosed
  | checking r =>
      have hcheck : machine.step s .check = some { s with phase := .leaving r } := by
        simp [machine, SameThread.step, hphase, hzero]
      refine ⟨[.check, .leave], { s with phase := .done (r.outcome s.a_thread_panicked) }, _, ?_,
        rfl⟩
      rw [Machine.exec, hcheck]
      exact hleave { s with phase := .leaving r } r rfl
  | parking r => exact absurd hzero (h.parked r hphase)
  | leaving r => exact ⟨[.leave], _, _, hleave s r hphase, rfl⟩
  | done o => exact ⟨[], s, o, rfl, hphase⟩

end

/-- **`sync_wait` ends exactly if its function leaves no handle behind**: in every run, whatever the
chain does with the handles of its scope, the thread never waits for a handle, and ends once the
function is over, if and only if nothing that outlives the function has a handle when it drops
`scope`. -/
theorem sync_wait_ends (as : List Label) (s : State) (h : machine.Run Bounded as s) :
    ¬Waits s ∧ Ends s ↔ machine.Run (fun s l => Bounded s l ∧ Emptied s l) as s := by
  have hinv := Inv.inductive.of_run h
  have hgood : ∀ ⦃as s⦄, machine.Run (fun s l => Bounded s l ∧ Emptied s l) as s →
      Inv s ∧ ¬Stranded s := by
    intro as s hrun
    refine Machine.Inductive.of_run (I := fun s => Inv s ∧ ¬Stranded s)
      ⟨⟨Inv.inductive.init, fun hs => nomatch hs.1⟩, fun s l t hs hC hstep => ?_⟩ hrun
    refine ⟨hs.1.step hC.1 hstep, fun ht => ?_⟩
    cases hclosed : s.phase.closed with
    | true =>
        refine hs.2 ⟨hclosed, ?_⟩
        rw [State.kept, ← (closed_step hclosed hstep).2]
        exact ht.2
    | false =>
        obtain ⟨rfl, hstored⟩ := close_of_step hclosed hstep ht.1
        exact ht.2 (by rw [State.kept, hstored]; exact kept_eq_zero_iff.mpr hC.2)
  have hiff : ¬Stranded s ↔ machine.Run (fun s l => Bounded s l ∧ Emptied s l) as s := by
    refine h.good_iff_within Inv.inductive (fun s l t _ hs _ hstep => hs.step hstep) ?_
      fun as s hrun => (hgood hrun).2
    intro s l t _ _ hC hstep
    cases l <;> first | exact absurd trivial hC | skip
    simp only [machine, SameThread.step] at hstep
    split at hstep
    next r hphase =>
      simp only [Option.ite_none_right_eq_some, Option.some.injEq] at hstep
      obtain ⟨-, rfl⟩ := hstep
      refine ⟨rfl, ?_⟩
      simp only [State.kept, (decrement_frame s).2]
      exact fun hkept => hC (kept_eq_zero_iff.mp hkept)
    next => cases hstep
  rw [hinv.waits_iff]
  refine ⟨fun hs => hiff.mp hs.1, fun hrun => ⟨hiff.mpr hrun, fun hclosed => ?_⟩⟩
  have hkept : s.kept = 0 := by
    by_contra hne
    exact hiff.mpr hrun ⟨hclosed, hne⟩
  exact hinv.ends hkept hclosed

/-- A chain whose receiver waits in the queue of a pool, and is called by a worker that the function
runs. -/
def workerRuns : List Label :=
  [.clone, .store 1, .take 0, .deliver, .drop, .recv, .close, .check, .leave]

theorem workerRuns_ends :
    ∃ s, machine.Run Bounded workerRuns s ∧ s.phase = .done .returned ∧ ¬Waits s ∧ Ends s := by
  obtain ⟨s, hs, hphase⟩ :
      ∃ s, machine.exec fresh workerRuns = some s ∧ s.phase = .done .returned :=
    Machine.exec_ends (by decide +kernel)
  have hrun : machine.Run Bounded workerRuns s := .of_exec (by decide +kernel) hs
  have hrun' : machine.Run (fun s l => Bounded s l ∧ Emptied s l) workerRuns s :=
    .of_exec (by decide +kernel) hs
  exact ⟨s, hrun, hphase, (sync_wait_ends workerRuns s hrun).mpr hrun'⟩

/-- The same chain, and no worker runs: the task with the receiver stays in the queue. -/
def noWorkerRuns : List Label := [.clone, .store 1, .recv, .close, .check]

/-- There is no outcome, the function panics, and the thread waits for the task that only it could
run or drop. -/
theorem noWorkerRuns_waits :
    ∃ s, machine.Run Bounded noWorkerRuns s ∧ s.phase = .parking .err ∧ Waits s ∧
      ∀ as t o, machine.exec s as = some t → t.phase ≠ .done o := by
  obtain ⟨s, hs, hphase, hnum⟩ : ∃ s, machine.exec fresh noWorkerRuns = some s ∧
      s.phase = .parking .err ∧ s.num_running_threads = 1 := Machine.exec_ends (by decide +kernel)
  have hrun : machine.Run Bounded noWorkerRuns s := .of_exec (by decide +kernel) hs
  have hinv := Inv.inductive.of_run hrun
  have hwaits : Waits s := ⟨⟨.err, .inr hphase⟩, by omega⟩
  exact ⟨s, hrun, hphase, hwaits, fun _ _ o hexec =>
    (hinv.waits_iff.mp hwaits).never_done hinv hexec o⟩

end SendersReceivers.SameThread
