import SendersReceivers.Chain.Denotation

/-!
# Chain/Delivery — starting an inline chain delivers its denotation, once

The receivers call each other in continuation-passing style, and the outer receiver of a `LetValue`
is only called from the destructor of its scope.  What makes the destructor run at the right moment
is counting: while a chain runs, clones of its scope come and go, but a handle held further down the
stack stays.

    w ──start──▸ w₁ ──rcv.deliver──▸ w₂ ──drop the clones──▸ w'

`Lifts w w₁` says that only counts went up before the receiver is called,
`Settled w w₁.strong w₂ w'` that exactly those are given back after it; it reads `w₁` only through
its counts.
-/

namespace SendersReceivers

variable {P V E U : Type}

/-! ## Clones on the way to the receiver, and back -/

/-- `w₁` differs from `w`, on the scopes `w` has, by further handles only. -/
structure Lifts (w w₁ : World P V E U) : Prop where
  next : w.next ≤ w₁.next
  log : w₁.log = w.log
  shared : ∀ i < w.next, w₁.shared i = w.shared i
  strong : ∀ i < w.next, w.strong i ≤ w₁.strong i

/-- `w'` is `w₂` after the handles that `counts` has over `w` are dropped. -/
structure Settled (w : World P V E U) (counts : ℕ → ℕ) (w₂ w' : World P V E U) : Prop where
  mem : w'.mem = w₂.mem
  next : w'.next = w₂.next
  log : w'.log = w₂.log
  shared : ∀ i < w.next, w'.shared i = w₂.shared i
  strong : ∀ i < w.next, w'.strong i + counts i = w₂.strong i + w.strong i

/-- What has to hold of `w₂` when the receiver returns: a handle of `scope` is left besides the
clones, and `Q` holds once the clones are gone. -/
def Post (scope : ScopePtr P V E U) (w : World P V E U) (counts : ℕ → ℕ)
    (Q : World P V E U → Prop) (w₂ : World P V E U) : Prop :=
  counts scope.id < w₂.strong scope.id + w.strong scope.id ∧
    ∀ w', Settled w counts w₂ w' → Q w'

/-- **`rcv` takes the outcome `o` of a chain started at `w`**, whatever clones exist by then. -/
def Accepts (rcv : Receiver P V E U) (scope : ScopePtr P V E U) (w : World P V E U)
    (o : Outcome P V E U) (Q : World P V E U → Prop) : Prop :=
  ∀ w₁, Lifts w w₁ → w₁.mem = o.mem → w₁.next = o.next →
    Lands (rcv.deliver o.signal) w₁ (Post scope w w₁.strong Q)

theorem Lifts.refl (w : World P V E U) : Lifts w w :=
  ⟨le_rfl, rfl, fun _ _ => rfl, fun _ _ => le_rfl⟩

theorem Lifts.trans {w w₁ w₂ : World P V E U} (h : Lifts w w₁) (h' : Lifts w₁ w₂) :
    Lifts w w₂ where
  next := h.next.trans h'.next
  log := h'.log.trans h.log
  shared i hi := (h'.shared i (hi.trans_le h.next)).trans (h.shared i hi)
  strong i hi := (h.strong i hi).trans (h'.strong i (hi.trans_le h.next))

/-- One more clone. -/
theorem Lifts.clone (w : World P V E U) (s : ℕ) :
    Lifts w (w.setStrong s (w.strong s + 1)) where
  next := le_rfl
  log := rfl
  shared _ _ := rfl
  strong i _ := by
    by_cases h : i = s
    · subst h; simp [World.setStrong]
    · simp [World.setStrong, h]

/-- User functions touch no count. -/
theorem Lifts.withMem {w w₁ : World P V E U} (h : Lifts w w₁) (m : Mem V U) :
    Lifts w { w₁ with mem := m } :=
  ⟨h.next, h.log, h.shared, h.strong⟩

/-- With no clone over `w`, nothing is left to give back. -/
theorem Post.self {scope : ScopePtr P V E U} {w w₂ : World P V E U} {Q : World P V E U → Prop}
    (h : Post scope w w.strong Q w₂) : Q w₂ :=
  h.2 w₂ ⟨rfl, rfl, rfl, fun _ _ => rfl, fun _ _ => rfl⟩

/-- A receiver that takes an outcome takes it right away. -/
theorem Accepts.self {rcv : Receiver P V E U} {scope : ScopePtr P V E U} {w : World P V E U}
    {o : Outcome P V E U} {Q : World P V E U → Prop} (h : Accepts rcv scope w o Q)
    (hm : w.mem = o.mem) (hn : w.next = o.next) : Lands (rcv.deliver o.signal) w Q :=
  (h w (Lifts.refl w) hm hn).mono fun _ hpost => hpost.self

/-- A receiver that takes the outcome from `w` takes it from any lift of `w`. -/
theorem Accepts.trans {rcv : Receiver P V E U} {scope : ScopePtr P V E U} {w w₁ : World P V E U}
    {o : Outcome P V E U} {Q : World P V E U → Prop} (hs : scope.id < w.next) (hL : Lifts w w₁)
    (h : Accepts rcv scope w o Q) : Accepts rcv scope w₁ o (Post scope w w₁.strong Q) := by
  intro w₂ hL₂ hm hn
  refine (h w₂ (hL.trans hL₂) hm hn).mono fun w₃ hpost => ?_
  have hle := hL.strong _ hs
  have hle₂ := hL₂.strong _ (hs.trans_le hL.next)
  refine ⟨by have := hpost.1; omega, fun w' hw' => ⟨?_, fun w'' hw'' => hpost.2 w'' ?_⟩⟩
  · have := hw'.strong _ (hs.trans_le hL.next)
    have := hpost.1
    omega
  · refine ⟨hw''.mem.trans hw'.mem, hw''.next.trans hw'.next, hw''.log.trans hw'.log,
      fun i hi => (hw''.shared i hi).trans (hw'.shared i (hi.trans_le hL.next)), fun i hi => ?_⟩
    have := hw'.strong i (hi.trans_le hL.next)
    have := hw''.strong i hi
    omega

/-- **Giving one clone back**: the drop is not the last one, and what was owed at `w` is owed at
`w` with the clone. -/
theorem lands_release_clone {scope : ScopePtr P V E U} {w w₁ w₂ : World P V E U}
    {Q : World P V E U → Prop} (hs : scope.id < w.next)
    (hL : Lifts (w.setStrong scope.id (w.strong scope.id + 1)) w₁)
    (h : Post scope w w₁.strong Q w₂) :
    Lands (scope.release .ret) w₂
      (Post scope (w.setStrong scope.id (w.strong scope.id + 1)) w₁.strong Q) := by
  have hle : w.strong scope.id + 1 ≤ w₁.strong scope.id := by
    simpa [World.setStrong] using hL.strong _ hs
  have hlt := h.1
  rw [ScopePtr.release, lands_release (by omega), lands_ret]
  refine ⟨by simp [World.setStrong]; omega, fun w' hw' => h.2 w' ?_⟩
  refine ⟨hw'.mem, hw'.next, hw'.log, hw'.shared, fun i hi => ?_⟩
  have := hw'.strong i hi
  by_cases hi' : i = scope.id
  · subst hi'
    simp only [World.setStrong, Function.update_self] at this
    omega
  · simpa [World.setStrong, hi'] using this

/-- The same, after the method whose end the drop is. -/
theorem lands_seq_release {scope : ScopePtr P V E U} {w w₁ : World P V E U}
    {Q : World P V E U → Prop} {q : Prog P V E U} (hs : scope.id < w.next)
    (hL : Lifts (w.setStrong scope.id (w.strong scope.id + 1)) w₁)
    (h : Lands q w₁ (Post scope w w₁.strong Q)) :
    Lands (q.seq (scope.release .ret)) w₁
      (Post scope (w.setStrong scope.id (w.strong scope.id + 1)) w₁.strong Q) :=
  lands_seq.mpr (h.mono fun _ h₂ => lands_release_clone hs hL h₂)

/-- An inline scheduler calls the receiver. -/
theorem lands_schedule {sch : Scheduler P} (h : sch.Inline) {scope : ScopePtr P V E U}
    {rcv : Receiver P V E U} {w : World P V E U} {Q : World P V E U → Prop} :
    Lands (sch.start scope rcv) w Q ↔ Lands (rcv.setValue sch.localScheduler []) w Q := by
  cases sch with
  | immediate => exact Iff.rfl
  | lazy sch => exact Iff.rfl
  | pool p => exact h.elim

/-! ## The scope of a `LetValue` -/

/-- An inner receiver stores the signal and drops its handle, whichever signal it is. -/
theorem lands_innerScopeReceiver {q : ScopePtr P V E U} {sig : Signal P V E}
    {w : World P V E U} {Q : World P V E U → Prop} (hnone : w.shared q.id = none)
    (hs : 1 < w.strong q.id) :
    Lands ((InnerScopeReceiver q).deliver sig) w Q ↔
      Q ((w.store q.id sig).setStrong q.id (w.strong q.id - 1)) := by
  have key : Lands (.store q.id sig (q.release .ret)) w Q ↔
      Q ((w.store q.id sig).setStrong q.id (w.strong q.id - 1)) := by
    rw [lands_store hnone, ScopePtr.release, lands_release (by simpa [World.store] using hs),
      lands_ret]
    rfl
  cases sig <;> exact key

/-- `forward` on the stored signal calls the outer receiver with `withStored`. -/
theorem lands_forward_localReceiver {s : ℕ} {rcv : Receiver P V E U} {o : Outcome P V E U}
    {w : World P V E U} {Q : World P V E U → Prop} (hm : w.mem = o.mem) :
    Lands (forward (LocalReceiverWithValue s rcv) (some o.signal)) w Q ↔
      Lands (rcv.deliver (o.withStored s).signal) w Q := by
  obtain ⟨sig, m, n⟩ := o
  obtain rfl : w.mem = m := hm
  cases sig <;> rfl

theorem withStored_mem (o : Outcome P V E U) (s : ℕ) :
    (o.withStored s).mem = o.mem ∧ (o.withStored s).next = o.next := by
  obtain ⟨sig, m, n⟩ := o
  cases sig <;> exact ⟨rfl, rfl⟩

/-- **The end of `LetValueReceiver::set_value`**: dropping the reference and `local_scope` runs the
destructor, which calls the outer receiver with the stored signal. -/
theorem lands_drop_local_scope {rcv : Receiver P V E U} {scope : ScopePtr P V E U} {s : ℕ}
    {w w₁ w' : World P V E U} {o : Outcome P V E U} {Q : World P V E U → Prop}
    (hs : scope.id < w.next) (hsw : w.next ≤ s)
    (hL : Lifts (w.setStrong scope.id (w.strong scope.id + 1)) w₁)
    (hrcv : Accepts rcv scope w (o.withStored s) Q)
    (hstrong : w'.strong s = 2) (hshared : w'.shared s = some o.signal) (hm : w'.mem = o.mem)
    (hn : w'.next = o.next) (hL' : Lifts w₁ w')
    (hcount : ∀ i < w.next, w'.strong i = if i = scope.id then w₁.strong i + 1 else w₁.strong i) :
    Lands ((innerScope scope s (LocalReceiverWithValue s rcv)).reclaim
        ((innerScope scope s (LocalReceiverWithValue s rcv)).release (scope.release .ret))) w'
      (Post scope (w.setStrong scope.id (w.strong scope.id + 1)) w₁.strong Q) := by
  have hne : ∀ i < w.next, i ≠ s := fun i hi => by omega
  have hscope : w.strong scope.id + 1 ≤ w₁.strong scope.id := by
    simpa [World.setStrong] using hL.strong _ hs
  rw [ScopePtr.reclaim, lands_reclaim, ScopePtr.release,
    lands_release (by simp [innerScope, hstrong]),
    lands_release_last (by simp [innerScope, World.setStrong, hstrong])]
  simp only [innerScope, World.setStrong, hshared, lands_seq]
  rw [lands_forward_localReceiver (by simpa [World.free] using hm)]
  -- the destructor calls the outer receiver while its handle of the outer scope is still there
  have hLw : Lifts w ((w'.setStrong s (w'.strong s - 1)).free s) := by
    have hLw' : Lifts w w' := (Lifts.clone w scope.id).trans (hL.trans hL')
    refine ⟨hLw'.next, hLw'.log, fun i hi => ?_, fun i hi => ?_⟩
    · simpa [World.free, World.setStrong, hne i hi] using hLw'.shared i hi
    · simpa [World.free, World.setStrong, hne i hi] using hLw'.strong i hi
  refine (hrcv _ hLw (by simpa [World.free, World.setStrong, (withStored_mem o s).1] using hm)
    (by simpa [World.free, World.setStrong, (withStored_mem o s).2] using hn)).mono
    fun w₃ hpost => ?_
  have hgt : w₁.strong scope.id + 1 < w₃.strong scope.id + w.strong scope.id := by
    have := hpost.1
    simpa [World.free, World.setStrong, hne _ hs, hcount _ hs] using this
  rw [ScopePtr.release, lands_release (by omega), lands_ret,
    lands_release (by simp [World.setStrong]; omega), lands_ret]
  refine ⟨by simp [World.setStrong]; omega, fun w'' hw'' => hpost.2 w'' ?_⟩
  refine ⟨hw''.mem, hw''.next, hw''.log, hw''.shared, fun i hi => ?_⟩
  have hi₁ := hw''.strong i hi
  have hi₂ := hcount i hi
  by_cases hi' : i = scope.id
  · subst hi'
    simp only [World.setStrong, World.free, Function.update_self, Function.update_of_ne (hne _ hs),
      if_true] at hi₁ hi₂ ⊢
    omega
  · simp only [World.setStrong, World.free, Function.update_of_ne hi',
      Function.update_of_ne (hne i hi), hi', if_false] at hi₁ hi₂ ⊢
    omega

/-! ## What each wrapper makes of an outcome

A wrapper takes `o` when the receiver it wraps takes what the stage makes of `o`. -/

section Wrappers

variable {rcv : Receiver P V E U} {scope : ScopePtr P V E U} {w : World P V E U}
  {o : Outcome P V E U} {Q : World P V E U → Prop}

theorem ofResult_mem (sch : Local P) (r : Except E (List V) × Mem V U) (n : ℕ) :
    (Outcome.ofResult sch r n).mem = r.2 ∧ (Outcome.ofResult sch r n).next = n := by
  obtain ⟨r | r, m⟩ := r <;> exact ⟨rfl, rfl⟩

/-- Passing on the result of a function is delivering its outcome. -/
theorem lands_ofResult {w₁ : World P V E U} {Q₁ : World P V E U → Prop} {sch : Local P}
    {r : Except E (List V) × Mem V U} {n : ℕ}
    (h : Lands (rcv.deliver (Outcome.ofResult sch r n).signal) w₁ Q₁) :
    Lands (match r.1 with
      | .ok v => rcv.setValue sch v
      | .error e => rcv.setError e) w₁ Q₁ := by
  obtain ⟨r | r, m⟩ := r <;> exact h

/-- Running the sender a function returns, or passing on its `Err`: either way the receiver takes
the outcome. -/
theorem lands_ofSender {w₁ : World P V E U} {r : Except E Unit × Mem V U} {start : Prog P V E U}
    {n : ℕ} {run : Mem V U → ℕ → Outcome P V E U} (hs : scope.id < w.next) (hL : Lifts w w₁)
    (hm : w₁.mem = r.2) (hn : w₁.next = n)
    (hstart : ∀ Q', Accepts rcv scope w₁ (run w₁.mem w₁.next) Q' → Lands start w₁ Q')
    (h : Accepts rcv scope w (Outcome.ofSender r n run) Q) :
    Lands (match r.1 with
      | .ok _ => start
      | .error e => rcv.setError e) w₁ (Post scope w w₁.strong Q) := by
  obtain ⟨r | r, m⟩ := r
  · exact h w₁ hL hm hn
  · refine hstart _ (Accepts.trans hs hL ?_)
    rw [hm, hn]
    exact h

theorem Accepts.just {sch : Local P} {values : List V} {m : Mem V U} {n : ℕ}
    (h : Accepts rcv scope w ⟨.value sch values, m, n⟩ Q) :
    Accepts (JustReceiverWrapper rcv values) scope w ⟨.value sch [], m, n⟩ Q := h

theorem Accepts.then_ {fn : List V → UserFn V E U (List V)}
    (h : Accepts rcv scope w
      (o.onValue fun sch values m n => .ofResult sch (fn values m) n) Q) :
    Accepts (ThenWrappedReceiver rcv fn) scope w o Q := by
  obtain ⟨sig, m, n⟩ := o
  intro w₁ hL hm hn
  cases sig with
  | value sch values =>
      obtain rfl : w₁.mem = m := hm
      obtain rfl : w₁.next = n := hn
      obtain ⟨hm', hn'⟩ := ofResult_mem sch (fn values w₁.mem) w₁.next
      exact lands_ofResult (h _ (hL.withMem _) hm'.symm hn'.symm)
  | error e => exact h w₁ hL hm hn
  | done => exact h w₁ hL hm hn

theorem Accepts.stopIfRequested {stop_token : Bool}
    (h : Accepts rcv scope w
      (o.onValue fun sch values m n =>
        if stop_token then ⟨.done, m, n⟩ else ⟨.value sch values, m, n⟩) Q) :
    Accepts (StopIfRequestedReceiverWrapper stop_token rcv) scope w o Q := by
  obtain ⟨sig, m, n⟩ := o
  intro w₁ hL hm hn
  cases sig with
  | value sch values => cases stop_token <;> exact h w₁ hL hm hn
  | error e => exact h w₁ hL hm hn
  | done => exact h w₁ hL hm hn

theorem Accepts.upon {sch : Local P} (fn : UserFn V E U (List V)) {m : Mem V U} {n : ℕ}
    (h : Accepts rcv scope w (.ofResult sch (fn m) n) Q) :
    Accepts (UponReceiver rcv fn) scope w ⟨.value sch [], m, n⟩ Q := by
  intro w₁ hL hm hn
  obtain rfl : w₁.mem = m := hm
  obtain rfl : w₁.next = n := hn
  obtain ⟨hm', hn'⟩ := ofResult_mem sch (fn w₁.mem) w₁.next
  exact lands_ofResult (h _ (hL.withMem _) hm'.symm hn'.symm)

/-! The wrappers below hold a clone of the scope: they take `o` at `w` with that clone. -/

/-- `w` with one more handle of `scope`. -/
abbrev World.cloned (w : World P V E U) (scope : ScopePtr P V E U) : World P V E U :=
  w.setStrong scope.id (w.strong scope.id + 1)

theorem Lifts.of_cloned {w₁ : World P V E U} (h : Lifts (w.cloned scope) w₁) : Lifts w w₁ :=
  (Lifts.clone w scope.id).trans h

/-- A method that hands the signal on unchanged, then drops its clone. -/
theorem Accepts.passes {w₁ : World P V E U} (hs : scope.id < w.next)
    (h : Accepts rcv scope w o Q) (hL : Lifts (w.cloned scope) w₁) (hm : w₁.mem = o.mem)
    (hn : w₁.next = o.next) :
    Lands ((rcv.deliver o.signal).seq (scope.release .ret)) w₁
      (Post scope (w.cloned scope) w₁.strong Q) :=
  lands_seq_release hs hL (h w₁ hL.of_cloned hm hn)

theorem Accepts.letError {fn : E → UserFn V E U Unit} {start : E → Mem V U → Prog P V E U}
    {run : E → Mem V U → Mem V U → ℕ → Outcome P V E U} (hs : scope.id < w.next)
    (hstart : ∀ e m w' Q', scope.id < w'.next →
      Accepts rcv scope w' (run e m w'.mem w'.next) Q' → Lands (start e m) w' Q')
    (h : Accepts rcv scope w (o.onError fun e m n => .ofSender (fn e m) n (run e m)) Q) :
    Accepts (LetErrorReceiverWrapper rcv scope fn start) scope (w.cloned scope) o Q := by
  obtain ⟨sig, m, n⟩ := o
  intro w₁ hL hm hn
  cases sig with
  | value sch values => exact h.passes hs hL hm hn
  | error e =>
      obtain rfl : w₁.mem = m := hm
      obtain rfl : w₁.next = n := hn
      have hL' := hL.of_cloned.withMem (fn e w₁.mem).2
      exact lands_seq_release hs (hL.withMem _)
        (lands_ofSender hs hL' rfl rfl (fun Q' => hstart e _ _ Q' (hs.trans_le hL'.next)) h)
  | done => exact h.passes hs hL hm hn

theorem Accepts.letDone {fn : UserFn V E U Unit} {start : Mem V U → Prog P V E U}
    {run : Mem V U → Mem V U → ℕ → Outcome P V E U} (hs : scope.id < w.next)
    (hstart : ∀ m w' Q', scope.id < w'.next →
      Accepts rcv scope w' (run m w'.mem w'.next) Q' → Lands (start m) w' Q')
    (h : Accepts rcv scope w (o.onDone fun m n => .ofSender (fn m) n (run m)) Q) :
    Accepts (LetDoneReceiverWrapper rcv scope fn start) scope (w.cloned scope) o Q := by
  obtain ⟨sig, m, n⟩ := o
  intro w₁ hL hm hn
  cases sig with
  | value sch values => exact h.passes hs hL hm hn
  | error e => exact h.passes hs hL hm hn
  | done =>
      obtain rfl : w₁.mem = m := hm
      obtain rfl : w₁.next = n := hn
      have hL' := hL.of_cloned.withMem (fn w₁.mem).2
      exact lands_seq_release hs (hL.withMem _)
        (lands_ofSender hs hL' rfl rfl (fun Q' => hstart _ _ Q' (hs.trans_le hL'.next)) h)

theorem Accepts.uponError {sch : Scheduler P} {fn : E → UserFn V E U (List V)}
    (hs : scope.id < w.next) (hsch : sch.Inline)
    (h : Accepts rcv scope w
      (o.onError fun e m n => .ofResult sch.localScheduler (fn e m) n) Q) :
    Accepts (UponErrorReceiverWrapper rcv scope fn sch) scope (w.cloned scope) o Q := by
  obtain ⟨sig, m, n⟩ := o
  intro w₁ hL hm hn
  cases sig with
  | value sch' values => exact h.passes hs hL hm hn
  | error e =>
      exact lands_seq_release hs hL ((lands_schedule hsch).mpr
        (Accepts.upon (fn e) h w₁ hL.of_cloned hm hn))
  | done => exact h.passes hs hL hm hn

theorem Accepts.uponDone {sch : Scheduler P} {fn : UserFn V E U (List V)}
    (hs : scope.id < w.next) (hsch : sch.Inline)
    (h : Accepts rcv scope w (o.onDone fun m n => .ofResult sch.localScheduler (fn m) n) Q) :
    Accepts (UponDoneReceiverWrapper rcv scope fn sch) scope (w.cloned scope) o Q := by
  obtain ⟨sig, m, n⟩ := o
  intro w₁ hL hm hn
  cases sig with
  | value sch' values => exact h.passes hs hL hm hn
  | error e => exact h.passes hs hL hm hn
  | done =>
      exact lands_seq_release hs hL ((lands_schedule hsch).mpr
        (Accepts.upon fn h w₁ hL.of_cloned hm hn))

theorem Accepts.transfer {sch : Scheduler P} (hs : scope.id < w.next) (hsch : sch.Inline)
    (h : Accepts rcv scope w
      (o.onValue fun _ values m n => ⟨.value sch.localScheduler values, m, n⟩) Q) :
    Accepts (TransferReceiverWrapper rcv scope sch) scope (w.cloned scope) o Q := by
  obtain ⟨sig, m, n⟩ := o
  intro w₁ hL hm hn
  cases sig with
  | value sch' values =>
      exact lands_seq_release hs hL ((lands_schedule hsch).mpr
        (Accepts.just h w₁ hL.of_cloned hm hn))
  | error e => exact h.passes hs hL hm hn
  | done => exact h.passes hs hL hm hn

/-- `w₁` as `fn` leaves it in `LetValueReceiver::set_value`: the outer scope cloned, and the inner
scope open with its three handles. -/
def World.opened (w₁ : World P V E U) (scope : ScopePtr P V E U) (value : List V) (m : Mem V U) :
    World P V E U :=
  { (w₁.cloned scope).newScope value with mem := m }

section Opened

variable (w₁ : World P V E U) (scope : ScopePtr P V E U) (value : List V) (m : Mem V U)

@[simp] theorem opened_shared_self : (w₁.opened scope value m).shared w₁.next = none := by
  simp [World.opened, World.newScope, World.setStrong]

@[simp] theorem opened_strong_self : (w₁.opened scope value m).strong w₁.next = 3 := by
  simp [World.opened, World.newScope, World.setStrong]

theorem opened_shared {i : ℕ} (hi : i < w₁.next) :
    (w₁.opened scope value m).shared i = w₁.shared i := by
  simp [World.opened, World.newScope, World.setStrong, hi.ne]

theorem opened_strong {i : ℕ} (hi : i < w₁.next) :
    (w₁.opened scope value m).strong i =
      if i = scope.id then w₁.strong i + 1 else w₁.strong i := by
  simp only [World.opened, World.newScope, World.setStrong, Function.update_of_ne hi.ne]
  split
  · next h => simp [h]
  · next h => simp [h]

end Opened

/-- What the run of the inner sender leaves of the scope made at `w₁`: the reference and
`local_scope`, with the outcome `o` stored; outside of it, one more handle of `scope`. -/
structure InnerDone (scope : ScopePtr P V E U) (w₁ : World P V E U) (o : Outcome P V E U)
    (w' : World P V E U) : Prop where
  strong : w'.strong w₁.next = 2
  shared : w'.shared w₁.next = some o.signal
  mem : w'.mem = o.mem
  next : w'.next = o.next
  lifts : Lifts w₁ w'
  count : ∀ i < w₁.next, w'.strong i = if i = scope.id then w₁.strong i + 1 else w₁.strong i

/-- **The inner receiver takes any outcome**, and leaves the scope with that outcome stored. -/
theorem accepts_innerScopeReceiver {q : ScopePtr P V E U} {w₁ : World P V E U} {m : Mem V U}
    {value : List V} (hq : q.id = w₁.next) :
    Accepts (InnerScopeReceiver q) q (w₁.opened scope value m) o (InnerDone scope w₁ o) := by
  intro w₂ hL hm hn
  have hlt : w₁.next < (w₁.opened scope value m).next := Nat.lt_succ_self _
  have hnone : w₂.shared w₁.next = none := by rw [hL.shared _ hlt, opened_shared_self]
  have hstrong : 3 ≤ w₂.strong w₁.next := by simpa using hL.strong _ hlt
  rw [lands_innerScopeReceiver (by rw [hq, hnone]) (by rw [hq]; omega)]
  refine ⟨by simp [World.setStrong, hq]; omega, fun w' hw' => ?_⟩
  have hcount : ∀ i < w₁.next,
      w'.strong i = if i = scope.id then w₁.strong i + 1 else w₁.strong i := by
    intro i hi
    have h := hw'.strong i (hi.trans hlt)
    rw [opened_strong _ _ _ _ hi] at h
    simp only [World.setStrong, World.store, hq, Function.update_of_ne hi.ne] at h
    omega
  have hlifts : Lifts w₁ w' := by
    refine ⟨?_, hw'.log.trans hL.log, fun i hi => ?_, fun i hi => ?_⟩
    · have : w₁.next + 1 ≤ w₂.next := hL.next
      have : w'.next = w₂.next := hw'.next
      omega
    · rw [hw'.shared i (hi.trans hlt)]
      simp only [World.setStrong, World.store, hq, Function.update_of_ne hi.ne]
      rw [hL.shared i (hi.trans hlt), opened_shared _ _ _ _ hi]
    · rw [hcount i hi]
      split <;> omega
  refine ⟨?_, ?_, hw'.mem.trans hm, hw'.next.trans hn, hlifts, hcount⟩
  · have h := hw'.strong _ hlt
    simp only [World.setStrong, hq, Function.update_self, opened_strong_self] at h
    omega
  · rw [hw'.shared _ hlt]
    simp [World.setStrong, World.store, hq]

theorem Accepts.letValue {fn : Local P → ℕ → UserFn V E U Unit} {keep : ℕ → Mem V U → Bool}
    {start : Local P → ℕ → Mem V U → ScopePtr P V E U → Receiver P V E U → Prog P V E U}
    (run : Local P → ℕ → Mem V U → Mem V U → ℕ → Outcome P V E U) (hs : scope.id < w.next)
    (hkeep : ∀ s m, keep s m = false)
    (hstart : ∀ sch s m (q : ScopePtr P V E U) r w' Q', q.id < w'.next →
      Accepts r q w' (run sch s m w'.mem w'.next) Q' → Lands (start sch s m q r) w' Q')
    (h : Accepts rcv scope w (o.onValue fun sch value m s =>
      (Outcome.ofSender (fn sch s (m.setCell s value)) (s + 1)
        (run sch s (m.setCell s value))).withStored s) Q) :
    Accepts (LetValueReceiver rcv scope fn keep start) scope (w.cloned scope) o Q := by
  obtain ⟨sig, m, n⟩ := o
  intro w₁ hL hm hn
  cases sig with
  | value sch value =>
      obtain rfl : w₁.mem = m := hm
      obtain rfl : w₁.next = n := hn
      have hnext : w.next ≤ w₁.next := hL.next
      simp only [Receiver.deliver, LetValueReceiver, ScopePtr.clone, ScopePtr.lend, lands_enter,
        lands_clone, lands_newScope, lands_call, lands_lend, lands_seq]
      -- the inner sender runs with the stored tuple in the fresh cell
      have inner : Lands _ (w₁.opened scope value (fn sch w₁.next (w₁.mem.setCell w₁.next value)).2)
          (Post (innerScope scope w₁.next (LocalReceiverWithValue w₁.next rcv)) _ _
            (InnerDone scope w₁ _)) :=
        lands_ofSender (Nat.lt_succ_self _) (Lifts.refl _) rfl rfl
          (fun Q' => hstart sch w₁.next (w₁.mem.setCell w₁.next value) _ _ _ Q'
            (Nat.lt_succ_self _))
          (accepts_innerScopeReceiver rfl)
      refine inner.mono fun w' hpost => ?_
      obtain ⟨hstrong, hshared, hm', hn', hL', hcount⟩ := hpost.self
      simp only [hkeep]
      exact lands_drop_local_scope hs hnext hL h hstrong hshared hm' hn' hL'
        fun i hi => hcount i (hi.trans_le hnext)
  | error e => exact h.passes hs hL hm hn
  | done => exact h.passes hs hL hm hn

end Wrappers

/-! ## The chain

Going through a stage, the receiver is replaced by the wrapper and the outcome by the one of the
stage before; the senders that functions return are smaller chains, started where their function
ran. -/

/-- **Starting a chain** lands wherever its receiver, called with the denotation, lands. -/
theorem lands_start (c : Chain P V E U) (hi : c.Inline) (hr : c.Releases) (stop_token : Bool)
    {scope : ScopePtr P V E U} {rcv : Receiver P V E U} {w : World P V E U}
    {Q : World P V E U → Prop} (hs : scope.id < w.next)
    (h : Accepts rcv scope w (c.denote stop_token w.mem w.next) Q) :
    Lands (c.start scope stop_token rcv) w Q := by
  induction c generalizing scope rcv w Q with
  | just sch values => exact (lands_schedule hi).mpr ((Accepts.just h).self rfl rfl)
  | justError error => exact h.self rfl rfl
  | justDone => exact h.self rfl rfl
  | then_ nested fn ih => exact ih hi hr hs h.then_
  | letValue nested fn sender keep ih ihs =>
      obtain ⟨hr, hrs, hkeep⟩ := hr
      refine lands_clone.mpr (ih hi.1 hr hs (Accepts.letValue
        (fun sch s m m' n' => (sender sch s m).denote stop_token m' n') hs hkeep ?_ h))
      exact fun sch s m q r w' Q' hq h' => ihs sch s m (hi.2 sch s m) (hrs sch s m) hq h'
  | letError nested fn sender ih ihs =>
      refine lands_clone.mpr (ih hi.1 hr.1 hs (Accepts.letError hs ?_ h))
      exact fun e m w' Q' hs' h' => ihs e m (hi.2 e m) (hr.2 e m) hs' h'
  | letDone nested fn sender ih ihs =>
      refine lands_clone.mpr (ih hi.1 hr.1 hs (Accepts.letDone hs ?_ h))
      exact fun m w' Q' hs' h' => ihs m (hi.2 m) (hr.2 m) hs' h'
  | uponError nested sch fn ih => exact lands_clone.mpr (ih hi.1 hr hs (h.uponError hs hi.2))
  | uponDone nested sch fn ih => exact lands_clone.mpr (ih hi.1 hr hs (h.uponDone hs hi.2))
  | transfer nested target_scheduler ih =>
      exact lands_clone.mpr (ih hi.1 hr hs (h.transfer hs hi.2))
  | stopIfRequested nested ih => exact ih hi hr hs h.stopIfRequested

end SendersReceivers
