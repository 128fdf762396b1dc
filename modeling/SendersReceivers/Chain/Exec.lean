import SendersReceivers.Chain.Sender

/-!
# Chain/Exec — running a `Prog` on one thread

The state of a run is the memory of the user functions, the `strong` count and the `shared_value`
of every nested scope, and the signals the outermost receiver got.  A panic of the library ends the
run with its message.
-/

namespace SendersReceivers

variable {P V E U : Type}

/-- The state a `Prog` runs on.  Scope `0` is the root scope; `next` is the next fresh scope. -/
structure World (P V E U : Type) where
  mem : Mem V U
  next : ℕ
  strong : ℕ → ℕ
  shared : ℕ → Option (Signal P V E)
  log : List (Signal P V E)

namespace World

/-- `ScopeDataSendPtr::new` with its two further handles: `wrapper` and `rcv_ref`. -/
def newScope (w : World P V E U) (value : List V) : World P V E U :=
  { w with
    mem := w.mem.setCell w.next value
    next := w.next + 1
    strong := Function.update w.strong w.next 3
    shared := Function.update w.shared w.next none }

/-- `*shared_value = Some(sig)`. -/
def store (w : World P V E U) (s : ℕ) (sig : Signal P V E) : World P V E U :=
  { w with shared := Function.update w.shared s (some sig) }

/-- `strong` of scope `s` set to `n`. -/
def setStrong (w : World P V E U) (s n : ℕ) : World P V E U :=
  { w with strong := Function.update w.strong s n }

/-- The last handle is gone: the destructor has taken the signal. -/
def free (w : World P V E U) (s : ℕ) : World P V E U :=
  { w with strong := Function.update w.strong s 0, shared := Function.update w.shared s none }

end World

/-- **The sequential run of a `Prog`**, to its end or to a panic. -/
def Prog.exec : Prog P V E U → World P V E U → Except String (World P V E U)
  | .ret, w => .ok w
  | .call f k, w => (k w.mem).exec { w with mem := f w.mem }
  | .enter _ k, w => k.exec w
  | .lazily _ k, w => k.exec w
  | .emit sig k, w => k.exec { w with log := w.log ++ [sig] }
  | .newScope value k, w => (k w.next).exec (w.newScope value)
  | .store s sig k, w =>
      match w.shared s with
      | none => k.exec (w.store s sig)
      | some _ => .error "signal double assigned"
  | .clone s k, w => k.exec (w.setStrong s (w.strong s + 1))
  | .lend _ _ k, w => k.exec w
  | .release s drop k, w
  | .reclaim s drop k, w =>
      match w.strong s with
      | 0 => .error "drop of a freed scope"
      | 1 => ((drop (w.shared s)).exec (w.free s)).bind k.exec
      | n + 2 => k.exec (w.setStrong s (n + 1))
  | .spawn _ _ _, _ => .error "leaves the thread"

/-! ## Runs that end in a state with a property -/

/-- **The run from `w` ends without a panic, in a state that has `Q`.** -/
def Lands (q : Prog P V E U) (w : World P V E U) (Q : World P V E U → Prop) : Prop :=
  ∃ w', q.exec w = .ok w' ∧ Q w'

section Lands

variable {w : World P V E U} {Q : World P V E U → Prop}

@[simp] theorem lands_ret : Lands .ret w Q ↔ Q w := by simp [Lands, Prog.exec]

@[simp] theorem lands_call {f : Mem V U → Mem V U} {k : Mem V U → Prog P V E U} :
    Lands (.call f k) w Q ↔ Lands (k w.mem) { w with mem := f w.mem } Q := Iff.rfl

@[simp] theorem lands_enter {sch : Local P} {k : Prog P V E U} :
    Lands (.enter sch k) w Q ↔ Lands k w Q := Iff.rfl

@[simp] theorem lands_lazily {sch : Local P} {k : Prog P V E U} :
    Lands (.lazily sch k) w Q ↔ Lands k w Q := Iff.rfl

@[simp] theorem lands_emit {sig : Signal P V E} {k : Prog P V E U} :
    Lands (.emit sig k) w Q ↔ Lands k { w with log := w.log ++ [sig] } Q := Iff.rfl

@[simp] theorem lands_newScope {value : List V} {k : ℕ → Prog P V E U} :
    Lands (.newScope value k) w Q ↔ Lands (k w.next) (w.newScope value) Q := Iff.rfl

@[simp] theorem lands_clone {s : ℕ} {k : Prog P V E U} :
    Lands (.clone s k) w Q ↔ Lands k (w.setStrong s (w.strong s + 1)) Q := Iff.rfl

@[simp] theorem lands_lend {s : ℕ} {drop : Option (Signal P V E) → Prog P V E U}
    {k : Prog P V E U} : Lands (.lend s drop k) w Q ↔ Lands k w Q := Iff.rfl

/-- On one thread, nobody else drops the reference. -/
@[simp] theorem lands_reclaim {s : ℕ} {drop : Option (Signal P V E) → Prog P V E U}
    {k : Prog P V E U} : Lands (.reclaim s drop k) w Q ↔ Lands (.release s drop k) w Q := Iff.rfl

theorem lands_store {s : ℕ} {sig : Signal P V E} {k : Prog P V E U} (h : w.shared s = none) :
    Lands (.store s sig k) w Q ↔ Lands k (w.store s sig) Q := by
  simp only [Lands, Prog.exec, h]

/-- A drop that is not the last one only counts down. -/
theorem lands_release {s : ℕ} {drop : Option (Signal P V E) → Prog P V E U} {k : Prog P V E U}
    (h : 1 < w.strong s) :
    Lands (.release s drop k) w Q ↔ Lands k (w.setStrong s (w.strong s - 1)) Q := by
  obtain ⟨n, hn⟩ : ∃ n, w.strong s = n + 2 := ⟨w.strong s - 2, by omega⟩
  simp only [Lands, Prog.exec, hn]
  rfl

/-- The last drop runs the destructor. -/
theorem lands_release_last {s : ℕ} {drop : Option (Signal P V E) → Prog P V E U}
    {k : Prog P V E U} (h : w.strong s = 1) :
    Lands (.release s drop k) w Q ↔
      Lands (drop (w.shared s)) (w.free s) fun w' => Lands k w' Q := by
  simp only [Lands, Prog.exec, h]
  cases (drop (w.shared s)).exec (w.free s) <;> simp [Except.bind]

theorem Lands.mono {q : Prog P V E U} {Q' : World P V E U → Prop} (h : Lands q w Q)
    (hQ : ∀ w', Q w' → Q' w') : Lands q w Q' :=
  h.imp fun w' hw' => ⟨hw'.1, hQ w' hw'.2⟩

/-- **Sequencing**: the second run starts where the first one landed. -/
theorem lands_seq {p q : Prog P V E U} :
    Lands (p.seq q) w Q ↔ Lands p w fun w' => Lands q w' Q := by
  induction p generalizing w with
  | ret => simp [Prog.seq]
  | call f k ih => simp only [Prog.seq, lands_call, ih]
  | enter sch k ih => simp only [Prog.seq, lands_enter, ih]
  | lazily sch k ih => simp only [Prog.seq, lands_lazily, ih]
  | emit sig k ih => simp only [Prog.seq, lands_emit, ih]
  | newScope value k ih => simp only [Prog.seq, lands_newScope, ih]
  | clone s k ih => simp only [Prog.seq, lands_clone, ih]
  | store s sig k ih =>
      cases hs : w.shared s with
      | none => simp only [Prog.seq, lands_store hs, ih]
      | some _ => simp [Prog.seq, Lands, Prog.exec, hs]
  | release s drop k _ ih =>
      rcases Nat.lt_trichotomy (w.strong s) 1 with h | h | h
      · simp [Prog.seq, Lands, Prog.exec, Nat.lt_one_iff.mp h]
      · simp only [Prog.seq, lands_release_last h, ih]
      · simp only [Prog.seq, lands_release h, ih]
  | lend s drop k _ ih => simp only [Prog.seq, lands_lend, ih]
  | reclaim s drop k _ ih =>
      rcases Nat.lt_trichotomy (w.strong s) 1 with h | h | h
      · simp [Prog.seq, Lands, Prog.exec, Nat.lt_one_iff.mp h]
      · simp only [Prog.seq, lands_reclaim, lands_release_last h, ih]
      · simp only [Prog.seq, lands_reclaim, lands_release h, ih]
  | spawn p task k _ _ => simp [Prog.seq, Lands, Prog.exec]

end Lands

end SendersReceivers
