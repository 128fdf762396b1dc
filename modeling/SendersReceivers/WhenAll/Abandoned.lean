import SendersReceivers.WhenAll.Outcome

/-!
# WhenAll/Abandoned — children that end without a signal

Each child owns its side of a split in a `Wrap`, and drops it in the end, whether it has delivered
or not: a chain whose function panics never does.  A split goes with the last of its two sides, and
with it goes the side that it has of the split above; at the top is the receiver downstream.

    child 0 ── Wrap ──▸ x ─┐
                           ├─ split ──▸ x ─┐
    child 1 ── Wrap ──▸ y ─┘               ├─ split ──▸ SchedulerReceiver ──▸ rcv
    child 2 ── Wrap ──────────────────▸ y ─┘
-/

namespace SendersReceivers.WhenAll

open Machinery

variable {P S V E : Type}

/-- Who owns the receivers of a connected sender: `strong` counts the handles of the
`Arc<Mutex<SplitReceiver>>` of a split. -/
inductive Owned where
  | impl (wrap : Bool)
  | pairwise (strong : ℕ) (x y : Owned)
  deriving DecidableEq

/-- `connect`: both sides get a handle. -/
def NoSchedulerSender.owned : NoSchedulerSender → Owned
  | .impl => .impl true
  | .pairwise x y => .pairwise 2 x.owned y.owned

namespace Owned

/-- Which children have their `Wrap`. -/
def wraps : Owned → List Bool
  | impl wrap => [wrap]
  | pairwise _ x y => x.wraps ++ y.wraps

/-- Whether the receiver above is still there. -/
def live : Owned → Bool
  | impl wrap => wrap
  | pairwise strong _ _ => 0 < strong

/-- One handle of a split is dropped, if the receiver that has it was; `true` if it was the last. -/
def release (strong : ℕ) : Bool → ℕ × Bool
  | true => (strong - 1, strong = 1)
  | false => (strong, false)

/-- `Wrap` of child `i` is dropped.  The answer tells whether the receiver above goes with it. -/
def drop : Owned → ℕ → Option (Owned × Bool)
  | impl wrap, _ => if wrap then some (impl false, true) else none
  | pairwise strong x y, i =>
      if i < x.wraps.length then
        (x.drop i).map fun (x, gone) =>
          (pairwise (release strong gone).1 x y, (release strong gone).2)
      else
        (y.drop (i - x.wraps.length)).map fun (y, gone) =>
          (pairwise (release strong gone).1 x y, (release strong gone).2)

/-- Every count is right. -/
def Ok : Owned → Prop
  | impl _ => True
  | pairwise strong x y => x.Ok ∧ y.Ok ∧ strong = x.live.toNat + y.live.toNat

variable {t : Owned}

/-- A receiver is there as long as a child below has its `Wrap`. -/
theorem Ok.live_iff (h : t.Ok) : t.live = true ↔ true ∈ t.wraps := by
  induction t with
  | impl wrap => simp [live, wraps, eq_comm]
  | pairwise strong x y ihx ihy =>
      obtain ⟨hx, hy, rfl⟩ := h
      rw [wraps, List.mem_append, ← ihx hx, ← ihy hy, live]
      cases x.live <;> cases y.live <;> simp

/-- What a split has left after the side `a` has dropped something. -/
theorem release_spec {strong : ℕ} {a a' b gone : Bool} (hstrong : strong = a.toNat + b.toNat)
    (ha : a = true) (hgone : gone = !a') :
    (release strong gone).1 = a'.toNat + b.toNat ∧ (release strong gone).2 = !(a' || b) := by
  subst hstrong ha hgone
  cases a' <;> cases b <;> simp [release]

/-- **A child drops its `Wrap`**, and takes along exactly what nobody else has below it. -/
theorem Ok.drop {i : ℕ} (h : t.Ok) (hi : t.wraps[i]? = some true) :
    ∃ t' gone, t.drop i = some (t', gone) ∧ t'.Ok ∧ t'.wraps = t.wraps.set i false ∧
      gone = !t'.live := by
  induction t generalizing i with
  | impl wrap =>
      obtain ⟨rfl, rfl⟩ : i = 0 ∧ wrap = true := by
        simpa [wraps, List.getElem?_singleton] using hi
      exact ⟨.impl false, true, rfl, trivial, rfl, rfl⟩
  | pairwise strong x y ihx ihy =>
      obtain ⟨hx, hy, hstrong⟩ := h
      simp only [wraps] at hi
      by_cases hlt : i < x.wraps.length
      · rw [List.getElem?_append_left hlt] at hi
        obtain ⟨x', gone, hdrop, hok, hwraps, hgone⟩ := ihx hx hi
        obtain ⟨hleft, hlast⟩ :=
          release_spec hstrong (hx.live_iff.mpr (List.mem_of_getElem? hi)) hgone
        refine ⟨.pairwise (release strong gone).1 x' y, (release strong gone).2, ?_,
          ⟨hok, hy, hleft⟩, ?_, ?_⟩
        · simp only [Owned.drop, if_pos hlt, hdrop, Option.map_some]
        · rw [wraps, wraps, hwraps, List.set_append_left _ _ hlt]
        · rw [hlast, live, hleft]
          cases x'.live <;> cases y.live <;> rfl
      · have hle := Nat.not_lt.mp hlt
        rw [List.getElem?_append_right hle] at hi
        obtain ⟨y', gone, hdrop, hok, hwraps, hgone⟩ := ihy hy hi
        obtain ⟨hleft, hlast⟩ := release_spec (hstrong.trans (Nat.add_comm _ _))
          (hy.live_iff.mpr (List.mem_of_getElem? hi)) hgone
        refine ⟨.pairwise (release strong gone).1 x y', (release strong gone).2, ?_,
          ⟨hx, hok, hleft.trans (Nat.add_comm _ _)⟩, ?_, ?_⟩
        · simp only [Owned.drop, if_neg hlt, hdrop, Option.map_some]
        · rw [wraps, wraps, hwraps, List.set_append_right _ _ hle]
        · rw [hlast, live, hleft]
          cases x.live <;> cases y'.live <;> rfl

end Owned

/-! ## The receiver downstream -/

/-- A connected sender, and who owns its receivers; `destroyed` counts how often the receiver
downstream has gone without a call.  What goes with the last `Wrap` stays in `whenAll` as it was. -/
structure Holding (P S V E : Type) where
  whenAll : State P S V E
  owned : Owned
  destroyed : ℕ

/-- What can happen next. -/
inductive Event (S V E : Type) where
  /-- child `i` delivers its signal -/
  | deliver (i : ℕ) (c : Call S V E)
  /-- the `Wrap` of child `i` is dropped, after it has delivered or because it never will -/
  | drop (i : ℕ)
  /-- the target scheduler runs the task -/
  | run
  deriving DecidableEq

/-- `Wrap` of child `i` goes out of scope; the `SchedulerReceiver` may go with it, and takes along
the receiver that nobody has taken out of it. -/
def Holding.drop (s : Holding P S V E) (i : ℕ) : Option (Holding P S V E) :=
  (s.owned.drop i).map fun (owned, gone) =>
    { s with
      owned := owned
      destroyed := s.destroyed + (gone && s.whenAll.rcv.isSome).toNat }

/-- **The step function**: only a child that has its `Wrap` can deliver, or drop it. -/
def holdingStep (F : Completion S V E) (R : SchedulerReceiver P S V E)
    (T : State P S V E → Option (State P S V E)) (s : Holding P S V E) :
    Event S V E → Option (Holding P S V E)
  | .deliver i c =>
      if s.owned.wraps[i]? = some true then
        (step F R T s.whenAll (.deliver i c)).map fun w => { s with whenAll := w }
      else none
  | .drop i => if s.owned.wraps[i]? = some true then s.drop i else none
  | .run => (step F R T s.whenAll .run).map fun w => { s with whenAll := w }

/-- Every child has its `Wrap`. -/
def held (ts : NoSchedulerSender) : Holding P S V E := ⟨fresh ts, ts.owned, 0⟩

/-- `when_all`. -/
def heldWhenAll (P V E : Type) (ts : NoSchedulerSender) :
    Machine (Holding P (Local P) V E) (Event (Local P) V E) where
  init := held ts
  step := holdingStep .whenAll whenAllReceiver fun _ => none

/-- `transfer_when_all`. -/
def heldTransferWhenAll (V E : Type) (target : Scheduler P) (ts : NoSchedulerSender) :
    Machine (Holding P Unit V E) (Event Unit V E) where
  init := held ts
  step := holdingStep .transferWhenAll transferReceiver (runTask target)

variable {ts : NoSchedulerSender} {sch : S → Local P} {F : Completion S V E}
  {R : SchedulerReceiver P S V E} {T : State P S V E → Option (State P S V E)}
  {s s' : Holding P S V E}

theorem owned_ok (ts : NoSchedulerSender) :
    ts.owned.Ok ∧ ts.owned.live = true ∧ ts.owned.wraps.length = ts.children := by
  induction ts with
  | impl => exact ⟨trivial, rfl, rfl⟩
  | pairwise x y ihx ihy =>
      refine ⟨⟨ihx.1, ihy.1, by simp [ihx.2.1, ihy.2.1]⟩, rfl, ?_⟩
      simp [NoSchedulerSender.owned, Owned.wraps, NoSchedulerSender.children, ihx.2.2, ihy.2.2]

/-- The invariant: the receiver downstream goes when the `SchedulerReceiver` does, if it is still
there. -/
structure Kept (ts : NoSchedulerSender) (sch : S → Local P) (s : Holding P S V E) : Prop where
  inv : Inv ts sch s.whenAll
  ok : s.owned.Ok
  taken : s.whenAll.tree.sent ≠ none → s.whenAll.rcv = none
  destroyed : s.destroyed = (!s.owned.live && s.whenAll.rcv.isSome).toNat

/-- What is asked of the task, and of the receiver. -/
structure Keeps (ts : NoSchedulerSender) (sch : S → Local P) (R : SchedulerReceiver P S V E)
    (T : State P S V E → Option (State P S V E)) : Prop where
  receives : Receives R sch
  taken (s : State P S V E) (c : Call S V E) : s.rcv = some () → (R s c).rcv = none
  task (s s' : State P S V E) : Inv ts sch s → T s = some s' →
    Inv ts sch s' ∧ s'.tree = s.tree ∧ s'.rcv = s.rcv

theorem keeps_whenAll (ts : NoSchedulerSender) :
    Keeps ts id (whenAllReceiver : SchedulerReceiver P (Local P) V E) fun _ => none where
  receives := receives_whenAll
  taken s c hs := by cases c <;> simp [whenAllReceiver, State.takeRcv, State.signal, hs]
  task s s' _ hs := by simp at hs

theorem keeps_transfer (ts : NoSchedulerSender) (target : Scheduler P) :
    Keeps ts (fun _ => target.localScheduler) (transferReceiver : SchedulerReceiver P Unit V E)
      (runTask target) where
  receives := receives_transfer target
  taken s c hs := by cases c <;> simp [transferReceiver, State.takeRcv, State.signal, hs]
  task s s' h hs := by
    refine ⟨h.runTask hs, ?_⟩
    unfold runTask at hs
    split at hs
    · cases hs
      exact ⟨rfl, rfl⟩
    · cases hs

/-- A delivery takes the receiver exactly if it is the last one. -/
theorem taken_deliver (hF : F.Lawful) (hR : Keeps ts sch R T) {w : State P S V E}
    (h : Inv ts sch w) {i : ℕ} (hi : w.tree.signals[i]? = some none) (c : Call S V E) :
    (w.deliver F R i c).tree.sent ≠ none → (w.deliver F R i c).rcv = none := by
  obtain ⟨t', out, hdeliver, -, -, hsent, hsent', -⟩ := h.tree.deliver hF hi c
  obtain ⟨hrcv, -, -⟩ := h.waiting hsent
  unfold State.deliver
  rw [hdeliver]
  cases out with
  | none => exact fun hne => absurd hsent' hne
  | some out => exact fun _ => hR.taken _ _ hrcv

/-- **Every step keeps it.** -/
theorem Kept.step (hF : F.Lawful) (hR : Keeps ts sch R T) (h : Kept ts sch s) {l : Event S V E}
    (hs : holdingStep F R T s l = some s') : Kept ts sch s' := by
  cases l with
  | deliver i c =>
      simp only [holdingStep, Option.ite_none_right_eq_some] at hs
      obtain ⟨hwrap, hs⟩ := hs
      obtain ⟨w, hw, rfl⟩ := Option.map_eq_some_iff.mp hs
      have hlive : s.owned.live = true := h.ok.live_iff.mpr (List.mem_of_getElem? hwrap)
      have hzero := h.destroyed
      simp only [WhenAll.step] at hw
      split at hw
      · next hi =>
          cases hw
          refine ⟨h.inv.deliver hF hR.receives hi c, h.ok, taken_deliver hF hR h.inv hi c, ?_⟩
          simpa [hlive] using hzero
      · cases hw
  | drop i =>
      simp only [holdingStep, Option.ite_none_right_eq_some] at hs
      obtain ⟨hwrap, hs⟩ := hs
      obtain ⟨owned, gone, hdrop, hok, -, hgone⟩ := h.ok.drop hwrap
      have hlive : s.owned.live = true := h.ok.live_iff.mpr (List.mem_of_getElem? hwrap)
      have hzero : s.destroyed = 0 := by simpa [hlive] using h.destroyed
      simp only [Holding.drop, hdrop, Option.map_some, Option.some.injEq] at hs
      subst hs
      refine ⟨h.inv, hok, h.taken, ?_⟩
      rw [hzero, Nat.zero_add, hgone]
  | run =>
      obtain ⟨w, hw, rfl⟩ := Option.map_eq_some_iff.mp hs
      obtain ⟨hinv, htree, hrcv⟩ := hR.task _ _ h.inv hw
      exact ⟨hinv, h.ok, fun hne => hrcv.trans (h.taken (htree ▸ hne)),
        h.destroyed.trans (by rw [hrcv])⟩

theorem Kept.held (ts : NoSchedulerSender) (sch : S → Local P) :
    Kept ts sch (held ts : Holding P S V E) where
  inv := Inv.fresh ts sch
  ok := (owned_ok ts).1
  taken hne := absurd (connect_sent ts) hne
  destroyed := by simp [WhenAll.held, (owned_ok ts).2.1]

/-- **What becomes of the receiver downstream.** -/
structure Settles (sch : S → Local P) (s : Holding P S V E) : Prop where
  noPanic : s.whenAll.panics = []
  pending : true ∈ s.owned.wraps → s.destroyed = 0
  delivered : ∀ ds, s.whenAll.tree.signals = ds.map some →
    s.destroyed = 0 ∧ ∃ c, Outcome ds s.whenAll.last c ∧ Received sch s.whenAll c
  abandoned : none ∈ s.whenAll.tree.signals → s.whenAll.calls = [] ∧ s.whenAll.tasks = [] ∧
    (true ∉ s.owned.wraps → s.destroyed = 1)

theorem Kept.settles (h : Kept ts sch s) : Settles sch s where
  noPanic := h.inv.panics
  pending hwrap := by simpa [h.ok.live_iff.mpr hwrap] using h.destroyed
  delivered ds hds := by
    have hsent : s.whenAll.tree.sent ≠ none := fun hnone => by
      simpa [hds] using h.inv.tree.sent_eq_none.mp hnone
    exact ⟨by simpa [h.taken hsent] using h.destroyed, h.inv.completes.outcome ds hds⟩
  abandoned hnone := by
    obtain ⟨hrcv, hcalls, htasks⟩ := h.inv.waiting (h.inv.tree.sent_eq_none.mpr hnone)
    refine ⟨hcalls, htasks, fun hwraps => ?_⟩
    have hlive : s.owned.live = false := by simpa [← h.ok.live_iff] using hwraps
    simpa [hlive, hrcv] using h.destroyed

/-- The middle one of three children goes without a signal, and is not the last to go. -/
def middleGone : List (Event Unit ℕ Unit) :=
  [.deliver 0 (.setValue () [1]), .drop 1, .deliver 2 (.setValue () [3]), .drop 2, .drop 0]

end SendersReceivers.WhenAll
