import SendersReceivers.Machinery.Runs

/-!
# Scope/Counters — the two counters of a scope, and their guard

`ScopeDataNoSend` and `ScopeDataSend` count the handles of a scope in a word of `w` bits.  Both
refuse a clone when the count is above `usize::MAX / 2`, and both do so through `overflow`, which
takes one off again.  Only one of them has put one on.

    ScopeDataSend     count ──fetch_add──▸ count + 1 ──overflow──▸ count
    ScopeDataNoSend   count ─────────────────────────overflow──▸ count - 1

The two are used in step, by one thread: each operation is one on both.
-/

namespace SendersReceivers.Counters

open Machinery Machine

/-- `usize::MAX`, for words of `w` bits. -/
def wordMax (w : ℕ) : ℕ := 2 ^ w - 1

/-- `ScopeDataNoSend`, and also `ScopeDataSend`, whose `notify` is in a mutex.  The last fields
record the handles that there are, how often `notify` was run, whether one was taken off zero, and
the panics. -/
structure ScopeData where
  num_running_threads : ℕ
  notify : Option Unit
  poisoned : Bool
  live : ℕ
  notified : ℕ
  underflowed : Bool
  panics : List String
  deriving DecidableEq

/-- `ScopeDataPtr::new`, or `ScopeDataSendPtr::new`. -/
def ScopeData.new : ScopeData where
  num_running_threads := 1
  notify := some ()
  poisoned := false
  live := 1
  notified := 0
  underflowed := false
  panics := []

/-- What a handle can be asked to do. -/
inductive Op where
  | clone
  | drop
  deriving DecidableEq

/-- What a function leaves behind, and the panic that it ends in. -/
abbrev Ended := ScopeData × Option String

/-- `panic!("too many running threads in thread scope")`, unless there was a panic before. -/
def Ended.tooMany (r : Ended) : Ended :=
  (r.1, some (r.2.getD "too many running threads in thread scope"))

/-- `Clone::clone`, where `r` is what the increment has left: a clone that panics makes no handle.
-/
def Ended.cloned (r : Ended) : ScopeData :=
  match r.2 with
  | none => { r.1 with live := r.1.live + 1 }
  | some message => { r.1 with panics := r.1.panics ++ [message] }

/-- `Drop::drop`, where `r` is what the decrement has left: the handle is gone in any case. -/
def Ended.dropped (r : Ended) : ScopeData :=
  { r.1 with live := r.1.live - 1, panics := r.1.panics ++ r.2.toList }

namespace NoSend

variable (w : ℕ) (checks : Bool)

/-- `notify.take().expect("has not been notified before")`, and the call. -/
def take (d : ScopeData) : Ended :=
  match d.notify with
  | some () => ({ d with notify := none, notified := d.notified + 1 }, none)
  | none => (d, some "has not been notified before")

/-- `num_running_threads -= 1`, which panics if overflow checks are compiled in, and wraps if
not. -/
def decrement_num_running_threads (d : ScopeData) : Ended :=
  if d.num_running_threads = 0 then
    if checks then ({ d with underflowed := true }, some "attempt to subtract with overflow")
    else ({ d with num_running_threads := wordMax w, underflowed := true }, none)
  else if d.num_running_threads = 1 then take { d with num_running_threads := 0 }
  else ({ d with num_running_threads := d.num_running_threads - 1 }, none)

def overflow (d : ScopeData) : Ended := (decrement_num_running_threads w checks d).tooMany

def increment_num_running_threads (d : ScopeData) : Ended :=
  if wordMax w / 2 < d.num_running_threads then overflow w checks d
  else ({ d with num_running_threads := d.num_running_threads + 1 }, none)

/-- An operation on a `ScopeDataPtr`. -/
def perform (d : ScopeData) : Op → ScopeData
  | .clone => (increment_num_running_threads w checks d).cloned
  | .drop => (decrement_num_running_threads w checks d).dropped

end NoSend

namespace Send

variable (w : ℕ)

/-- `notify.lock().unwrap().take().expect("has not been notified before")`, and the call: a panic
of `expect` comes while the guard is alive. -/
def take (d : ScopeData) : Ended :=
  if d.poisoned then (d, some "called `Result::unwrap()` on an `Err` value: PoisonError { .. }")
  else
    match d.notify with
    | some () => ({ d with notify := none, notified := d.notified + 1 }, none)
    | none => ({ d with poisoned := true }, some "has not been notified before")

/-- `fetch_sub(1)`, which wraps. -/
def decrement_num_running_threads (d : ScopeData) : Ended :=
  if d.num_running_threads = 0 then
    ({ d with num_running_threads := wordMax w, underflowed := true }, none)
  else if d.num_running_threads = 1 then take { d with num_running_threads := 0 }
  else ({ d with num_running_threads := d.num_running_threads - 1 }, none)

def overflow (d : ScopeData) : Ended := (decrement_num_running_threads w d).tooMany

/-- `fetch_add(1)`, which wraps, and the look at what was there before. -/
def increment_num_running_threads (d : ScopeData) : Ended :=
  let d' := { d with num_running_threads := (d.num_running_threads + 1) % 2 ^ w }
  if wordMax w / 2 < d.num_running_threads then overflow w d' else (d', none)

/-- An operation on a `ScopeDataSendPtr`. -/
def perform (d : ScopeData) : Op → ScopeData
  | .clone => (increment_num_running_threads w d).cloned
  | .drop => (decrement_num_running_threads w d).dropped

end Send

/-- The two counters. -/
structure State where
  noSend : ScopeData
  send : ScopeData
  deriving DecidableEq

/-- **The step function**: each operation is one on a handle of either scope. -/
def step (w : ℕ) (checks : Bool) (s : State) (op : Op) : Option State :=
  if 0 < s.noSend.live ∧ 0 < s.send.live then
    some ⟨NoSend.perform w checks s.noSend op, Send.perform w s.send op⟩
  else none

/-- The counters for words of `w` bits, with overflow checks or without. -/
def machine (w : ℕ) (checks : Bool) : Machine State Op where
  init := ⟨.new, .new⟩
  step := step w checks

/-! ## What is asked of them -/

/-- A counter that is right: it counts the handles, was never taken below zero, and has notified
when the last handle went, not before and not again. -/
structure Exact (d : ScopeData) : Prop where
  count : d.num_running_threads = d.live
  underflowed : d.underflowed = false
  notified : d.notified = if d.live = 0 then 1 else 0
  panics : ∀ p ∈ d.panics, p = "too many running threads in thread scope"

/-- Both are right, and the same. -/
structure Agree (s : State) : Prop where
  noSend : Exact s.noSend
  send : Exact s.send
  same : s.noSend.num_running_threads = s.send.num_running_threads

/-- A clone is within the guard where at most `usize::MAX / 2` handles exist. -/
def Within (w : ℕ) (s : State) (op : Op) : Prop := op = .clone → s.noSend.live ≤ wordMax w / 2

instance (w : ℕ) (s : State) (op : Op) : Decidable (Within w s op) :=
  inferInstanceAs (Decidable (_ → _))

/-! ## The guard

Below the guard the word does not wrap, and the two increments do the same. -/

variable {w : ℕ} {checks : Bool} {d : ScopeData}

theorem wordMax_half (hw : 0 < w) : wordMax w / 2 + 1 < 2 ^ w := by
  obtain ⟨v, rfl⟩ : ∃ v, w = v + 1 := ⟨w - 1, by omega⟩
  have : 0 < 2 ^ v := Nat.two_pow_pos v
  simp only [wordMax, Nat.pow_succ]
  omega

/-- What a counter that is right is waiting for. -/
structure Ready (d : ScopeData) : Prop extends Exact d where
  notify : d.notify = if d.live = 0 then none else some ()
  poisoned : d.poisoned = false

theorem Ready.new : Ready .new where
  count := rfl
  underflowed := rfl
  notified := rfl
  panics := by simp [ScopeData.new]
  notify := rfl
  poisoned := rfl

/-- One more handle. -/
theorem Ready.more (hd : Ready d) (hlive : 0 < d.live) :
    Ready { d with num_running_threads := d.num_running_threads + 1, live := d.live + 1 } where
  count := congrArg (· + 1) hd.count
  underflowed := hd.underflowed
  notified := by simpa [hlive.ne'] using hd.notified
  panics := hd.panics
  notify := by simpa [hlive.ne'] using hd.notify
  poisoned := hd.poisoned

/-- One handle less, and not the last one. -/
theorem Ready.less (hd : Ready d) (hlive : 1 < d.live) :
    Ready { d with num_running_threads := d.num_running_threads - 1, live := d.live - 1 } where
  count := congrArg (· - 1) hd.count
  underflowed := hd.underflowed
  notified := by simpa [show d.live ≠ 0 by omega, show d.live - 1 ≠ 0 by omega] using hd.notified
  panics := hd.panics
  notify := by simpa [show d.live ≠ 0 by omega, show d.live - 1 ≠ 0 by omega] using hd.notify
  poisoned := hd.poisoned

/-- The last one. -/
theorem Ready.last (hd : Ready d) (hlive : d.live = 1) :
    Ready { d with
      num_running_threads := 0, live := 0, notify := none, notified := d.notified + 1 } where
  count := rfl
  underflowed := hd.underflowed
  notified := by simpa [hlive] using hd.notified
  panics := hd.panics
  notify := rfl
  poisoned := hd.poisoned

/-- What a clone leaves behind that the guard lets pass. -/
theorem NoSend.clone_of_within (hcount : d.num_running_threads ≤ wordMax w / 2) :
    NoSend.perform w checks d .clone =
      { d with num_running_threads := d.num_running_threads + 1, live := d.live + 1 } := by
  simp [NoSend.perform, NoSend.increment_num_running_threads, Ended.cloned, hcount.not_gt]

theorem Send.clone_of_within (hw : 0 < w) (hcount : d.num_running_threads ≤ wordMax w / 2) :
    Send.perform w d .clone =
      { d with num_running_threads := d.num_running_threads + 1, live := d.live + 1 } := by
  have hmod : (d.num_running_threads + 1) % 2 ^ w = d.num_running_threads + 1 :=
    Nat.mod_eq_of_lt (lt_of_le_of_lt (Nat.succ_le_succ hcount) (wordMax_half hw))
  simp [Send.perform, Send.increment_num_running_threads, Ended.cloned, hcount.not_gt, hmod]

/-- What a drop leaves behind, if the counter is right. -/
def ScopeData.released (d : ScopeData) : ScopeData :=
  if d.live = 1 then
    { d with num_running_threads := 0, live := 0, notify := none, notified := d.notified + 1 }
  else { d with num_running_threads := d.num_running_threads - 1, live := d.live - 1 }

theorem Ready.released (hd : Ready d) (hlive : 0 < d.live) : Ready d.released := by
  unfold ScopeData.released
  split_ifs with hone
  · exact hd.last hone
  · exact hd.less (by omega)

theorem NoSend.drop_of_ready (hd : Ready d) (hlive : 0 < d.live) :
    NoSend.perform w checks d .drop = d.released := by
  have hcount := hd.count
  have hnotify := hd.notify
  rw [if_neg hlive.ne'] at hnotify
  by_cases hone : d.live = 1
  · simp [NoSend.perform, NoSend.decrement_num_running_threads, Ended.dropped, NoSend.take,
      ScopeData.released, hcount, hnotify, hone]
  · simp [NoSend.perform, NoSend.decrement_num_running_threads, Ended.dropped,
      ScopeData.released, hcount, hone, hlive.ne']

theorem Send.drop_of_ready (hd : Ready d) (hlive : 0 < d.live) :
    Send.perform w d .drop = d.released := by
  have hcount := hd.count
  have hnotify := hd.notify
  rw [if_neg hlive.ne'] at hnotify
  by_cases hone : d.live = 1
  · simp [Send.perform, Send.decrement_num_running_threads, Ended.dropped, Send.take,
      ScopeData.released, hcount, hnotify, hone, hd.poisoned]
  · simp [Send.perform, Send.decrement_num_running_threads, Ended.dropped,
      ScopeData.released, hcount, hone, hlive.ne']

/-- **Beyond the guard `ScopeDataNoSend` loses one**: the clone is refused and makes no handle, but
one is taken off the count. -/
theorem NoSend.refused (hd : Ready d) (hlive : 0 < d.live) (hfull : wordMax w / 2 < d.live) :
    (NoSend.perform w checks d .clone).num_running_threads = d.live - 1 ∧
      (NoSend.perform w checks d .clone).live = d.live := by
  have hcount := hd.count
  have hnotify := hd.notify
  rw [if_neg hlive.ne'] at hnotify
  have hclone : NoSend.perform w checks d .clone =
      (NoSend.overflow w checks d).cloned := by
    simp [NoSend.perform, NoSend.increment_num_running_threads, hcount, hfull]
  rw [hclone]
  by_cases hone : d.live = 1
  · simp [NoSend.overflow, NoSend.decrement_num_running_threads, Ended.tooMany, Ended.cloned,
      NoSend.take, hcount, hnotify, hone]
  · simp [NoSend.overflow, NoSend.decrement_num_running_threads, Ended.tooMany, Ended.cloned,
      hcount, hone, hlive.ne']

/-- **Beyond the guard `ScopeDataSend` keeps its count**: what was put on is taken off again. -/
theorem Send.refused (hd : Ready d) (hlive : 0 < d.live) (hfull : wordMax w / 2 < d.live)
    (hroom : d.live + 1 < 2 ^ w) :
    Send.perform w d .clone =
      { d with panics := d.panics ++ ["too many running threads in thread scope"] } := by
  have hcount := hd.count
  have hmod : (d.live + 1) % 2 ^ w = d.live + 1 := Nat.mod_eq_of_lt hroom
  simp [Send.perform, Send.increment_num_running_threads, hcount, hfull, hmod, Send.overflow,
    Send.decrement_num_running_threads, Ended.tooMany, Ended.cloned, hlive.ne']

/-! ## The two in step -/

/-- Both counters are right, and say the same. -/
structure Inv (s : State) : Prop where
  noSend : Ready s.noSend
  send : Ready s.send
  same : s.noSend.live = s.send.live

theorem Inv.agree {s : State} (hs : Inv s) : Agree s where
  noSend := hs.noSend.toExact
  send := hs.send.toExact
  same := by rw [hs.noSend.count, hs.send.count, hs.same]

theorem Inv.perform (hw : 0 < w) {s : State} (hs : Inv s) (hlive : 0 < s.noSend.live) {op : Op}
    (hop : Within w s op) :
    Inv ⟨NoSend.perform w checks s.noSend op, Send.perform w s.send op⟩ := by
  have hlive' : 0 < s.send.live := hs.same ▸ hlive
  cases op with
  | clone =>
      have hfit := hop rfl
      have hfit' : s.send.live ≤ wordMax w / 2 := hs.same ▸ hfit
      rw [NoSend.clone_of_within (hs.noSend.count ▸ hfit),
        Send.clone_of_within hw (hs.send.count ▸ hfit')]
      exact ⟨hs.noSend.more hlive, hs.send.more hlive', congrArg (· + 1) hs.same⟩
  | drop =>
      rw [NoSend.drop_of_ready hs.noSend hlive, Send.drop_of_ready hs.send hlive']
      refine ⟨hs.noSend.released hlive, hs.send.released hlive', ?_⟩
      simp only [ScopeData.released, hs.same, apply_ite ScopeData.live]

/-- What a step does to the two, and that both have a handle for it. -/
theorem step_eq {s s' : State} {op : Op} (h : (machine w checks).step s op = some s') :
    (0 < s.noSend.live ∧ 0 < s.send.live) ∧
      s' = ⟨NoSend.perform w checks s.noSend op, Send.perform w s.send op⟩ := by
  simp only [machine, step, Option.ite_none_right_eq_some, Option.some.injEq] at h
  exact ⟨h.1, h.2.symm⟩

theorem step_of_live {s : State} {op : Op} (hnoSend : 0 < s.noSend.live)
    (hsend : 0 < s.send.live) : (machine w checks).step s op =
      some ⟨NoSend.perform w checks s.noSend op, Send.perform w s.send op⟩ :=
  if_pos ⟨hnoSend, hsend⟩

theorem inductive_inv (hw : 0 < w) : (machine w checks).Inductive (Within w) Inv where
  init := ⟨.new, .new, rfl⟩
  step s op s' hs hop hstep := by
    obtain ⟨⟨hlive, -⟩, rfl⟩ := step_eq hstep
    exact hs.perform hw hlive hop

/-- **`ScopeDataSend` alone is always right**, in words of at least two bits. -/
theorem send_exact (hw : 1 < w) {ops : List Op} {s : State}
    (h : (machine w checks).Run (fun _ _ => True) ops s) : Exact s.send := by
  have hroom : wordMax w / 2 + 2 < 2 ^ w := by
    obtain ⟨v, rfl⟩ : ∃ v, w = v + 2 := ⟨w - 2, by omega⟩
    have : 0 < 2 ^ v := Nat.two_pow_pos v
    simp only [wordMax, Nat.pow_succ]
    omega
  have hI : (machine w checks).Inductive (fun _ _ => True)
      fun s => Ready s.send ∧ s.send.live ≤ wordMax w / 2 + 1 := by
    refine ⟨⟨.new, Nat.succ_le_succ (Nat.zero_le _)⟩, ?_⟩
    intro s op s' ⟨hs, hle⟩ _ hstep
    obtain ⟨⟨-, hlive⟩, rfl⟩ := step_eq hstep
    cases op with
    | clone =>
        rcases Nat.lt_or_ge (wordMax w / 2) s.send.live with hfull | hfit
        · rw [Send.refused hs hlive hfull (by omega)]
          refine ⟨⟨⟨hs.count, hs.underflowed, hs.notified, ?_⟩, hs.notify, hs.poisoned⟩, hle⟩
          intro p hp
          exact (List.mem_append.mp hp).elim (hs.panics p) List.mem_singleton.mp
        · rw [Send.clone_of_within (by omega) (hs.count ▸ hfit)]
          exact ⟨hs.more hlive, Nat.succ_le_succ hfit⟩
    | drop =>
        rw [Send.drop_of_ready hs hlive]
        refine ⟨hs.released hlive, ?_⟩
        simp only [ScopeData.released, apply_ite ScopeData.live]
        split_ifs <;> omega
  exact (hI.of_run h).1.toExact

/-- **The counters agree exactly up to the guard**: both count the handles after each operation, and
notify with the last drop only, in those runs in which no clone is asked of a scope with more than
`usize::MAX / 2` handles. -/
theorem counters_agree_iff (hw : 0 < w) (checks : Bool) (ops : List Op) (s : State) :
    (machine w checks).Always Agree ops s ↔ (machine w checks).Run (Within w) ops s := by
  refine (inductive_inv hw).always_iff (fun _ hs => hs.agree) fun s op s' hs hop hstep hagree => ?_
  obtain ⟨rfl, hfull⟩ := Classical.not_imp.mp hop
  obtain ⟨⟨hlive, -⟩, rfl⟩ := step_eq hstep
  obtain ⟨hcount, hsame⟩ :
      (NoSend.perform w checks s.noSend .clone).num_running_threads = s.noSend.live - 1 ∧
        (NoSend.perform w checks s.noSend .clone).live = s.noSend.live :=
    NoSend.refused hs.noSend hlive (not_le.mp hfull)
  have := hagree.noSend.count
  simp only [hcount, hsame] at this
  omega

theorem counters_agree_iff_clone_drop :
    ∃ s, (machine 64 true).Always Agree [.clone, .drop, .drop] s ∧ s.noSend.notified = 1 := by
  obtain ⟨s, hexec, hs⟩ : ∃ s,
      (machine 64 true).exec (machine 64 true).init [.clone, .drop, .drop] = some s ∧
      s.noSend.notified = 1 := exec_ends (by decide)
  exact ⟨s, (counters_agree_iff (by decide) true _ s).mpr (.of_exec (by decide) hexec), hs⟩

/-! ## Past the guard -/

/-- A scope with `n + 1` handles, none of which was refused. -/
def cloned (n : ℕ) : ScopeData :=
  { ScopeData.new with num_running_threads := n + 1, live := n + 1 }

theorem run_clones (hw : 0 < w) {n : ℕ} (hn : n ≤ wordMax w / 2) :
    (machine w checks).Run (Within w) (List.replicate n .clone) ⟨cloned n, cloned n⟩ := by
  induction n with
  | zero => exact .init
  | succ n ih =>
      have hstep : (machine w checks).step ⟨cloned n, cloned n⟩ .clone =
          some ⟨cloned (n + 1), cloned (n + 1)⟩ := by
        rw [step_of_live (s := ⟨cloned n, cloned n⟩) (Nat.succ_pos n) (Nat.succ_pos n),
          NoSend.clone_of_within (d := cloned n) hn, Send.clone_of_within hw (d := cloned n) hn]
        rfl
      rw [List.replicate_succ']
      exact (ih (by omega)).step (fun _ => hn) hstep

/-- The clone after that: `ScopeDataNoSend` has `n + 1` handles and counts `n`. -/
theorem step_refused {n : ℕ} (hn : 0 < n) (hfull : wordMax w / 2 = n) (hroom : n + 2 < 2 ^ w) :
    (machine w checks).step ⟨cloned n, cloned n⟩ .clone = some
      ⟨{ cloned n with
          num_running_threads := n, panics := ["too many running threads in thread scope"] },
        { cloned n with panics := ["too many running threads in thread scope"] }⟩ := by
  have hmod : (n + 1 + 1) % 2 ^ w = n + 1 + 1 := Nat.mod_eq_of_lt hroom
  simp [machine, step, cloned, ScopeData.new, NoSend.perform, NoSend.increment_num_running_threads,
    NoSend.overflow, NoSend.decrement_num_running_threads, Send.perform,
    Send.increment_num_running_threads, Send.overflow, Send.decrement_num_running_threads,
    Ended.tooMany, Ended.cloned, hfull, hmod, hn.ne']

/-- `2 ^ 63 - 1` clones give `2 ^ 63` handles, and the next clone is refused.  `ScopeDataSend`
counts `2 ^ 63` handles after that, and `ScopeDataNoSend` one less than there are. -/
theorem refused_clone_is_taken_off :
    ∃ s, (machine 64 true).Run (fun _ _ => True)
        (List.replicate (2 ^ 63 - 1) .clone ++ [.clone]) s ∧
      s.noSend.live = 2 ^ 63 ∧ s.noSend.num_running_threads = 2 ^ 63 - 1 ∧
      s.send.live = 2 ^ 63 ∧ s.send.num_running_threads = 2 ^ 63 ∧ ¬Agree s := by
  have hrun : (machine 64 true).Run (Within 64) (List.replicate (2 ^ 63 - 1) .clone)
      ⟨cloned (2 ^ 63 - 1), cloned (2 ^ 63 - 1)⟩ := run_clones (by decide) (by decide)
  refine ⟨_, hrun.any.step trivial (step_refused (by decide) (by decide) (by decide)), rfl, rfl,
    rfl, rfl, fun hagree => ?_⟩
  exact absurd hagree.noSend.count (by decide)

/-- What comes of it, in words of three bits: there are four handles when the clone is refused, and
the drop of the third one notifies. -/
example : ((machine 3 true).exec (machine 3 true).init
      (List.replicate 4 .clone ++ List.replicate 3 .drop)).any
    (fun s => s.noSend.notified = 1 ∧ s.noSend.live = 1 ∧ s.send.notified = 0) = true := by
  decide

end SendersReceivers.Counters
