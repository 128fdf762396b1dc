import SendersReceivers.EnsureStarted.Machine

/-!
# EnsureStarted/Handover — the signal and the receiver meet once

Each of the two parties brings one thing to the cell, and each thing is in one place at any moment:
the receiver in a frame, in the cell or called; the signal in a frame, in the cell, taken, or not
there yet.  Whoever comes second takes the signal; so neither `Option` is found empty, and when
every thread is done an attached receiver has been called with the signal the chain completed with.
-/

namespace SendersReceivers.EnsureStarted

open Machinery

variable {P V E : Type} {s t : State P V E} {i : ℕ} {ins : Instr P V E} {k : List (Instr P V E)}
  {ls : List (Label P V E)}

/-! ## The lock -/

/-- **`Fits g code`**: a thread that has `code` left to run holds the lock of the cell if `g`, and
`code` gives it back. -/
def Fits : Bool → List (Instr P V E) → Prop
  | g, [] => g = false
  | g, .lockSignal :: k => g = false ∧ Fits true k
  | g, .unlockSignal :: k => g = true ∧ Fits false k
  | g, .assign _ :: k => g = true ∧ Fits false k
  | g, .attach :: k => g = true ∧ Fits false k
  | g, .resume :: k => g = true ∧ Fits true k
  | g, .setSignal _ :: k => Fits g k
  | g, .inside :: k => Fits g k
  | g, .setDone :: k => g = false ∧ Fits false k
  | g, .dropHandle :: k => g = false ∧ Fits false k

/-- Every thread holds the lock exactly if its place in the source says so. -/
def Fitted (s : State P V E) : Prop :=
  ∀ i, Fits (decide (s.lock = some i)) (codeAt s.threads i)

theorem Fitted.head (h : Fitted s) (hi : s.threads[i]? = some (ins :: k)) :
    Fits (decide (s.lock = some i)) (ins :: k) :=
  codeAt_eq hi ▸ h i

/-- Thread `i` takes or gives back the lock, and goes on with code that fits. -/
theorem Fitted.goto (h : Fitted s) (hi : s.threads[i]? = some (ins :: k)) {t : State P V E}
    (code : List (Instr P V E)) (spawned : List (List (Instr P V E)))
    (ht : t.threads = s.threads.set i code ++ spawned)
    (hlock : ∀ j ≠ i, (t.lock = some j ↔ s.lock = some j))
    (hcode : Fits (decide (t.lock = some i)) code) (hspawned : ∀ c ∈ spawned, Fits false c) :
    Fitted t := by
  intro j
  rw [ht]
  refine codeAt_goto (fun j => Fits (decide (s.lock = some j)))
    (fun j => Fits (decide (t.lock = some j))) h hi hcode (fun j hj c hc => ?_)
    (fun c hc j hnil => ?_) j
  · simpa only [hlock j hj] using hc
  · rw [show decide (t.lock = some j) = false from hnil]
    exact hspawned c hc

/-- Thread `i` only moves on. -/
theorem Fitted.move (h : Fitted s) (hi : s.threads[i]? = some (ins :: k)) {t : State P V E}
    (code : List (Instr P V E)) (spawned : List (List (Instr P V E)))
    (ht : t.threads = s.threads.set i code ++ spawned) (hlock : t.lock = s.lock)
    (hcode : ∀ g, Fits g (ins :: k) → Fits g code) (hspawned : ∀ c ∈ spawned, Fits false c) :
    Fitted t :=
  h.goto hi code spawned ht (fun _ _ => by rw [hlock]) (hlock ▸ hcode _ (h.head hi)) hspawned

/-- New threads that hold nothing. -/
theorem Fitted.spawn (h : Fitted s) {t : State P V E} (spawned : List (List (Instr P V E)))
    (ht : t.threads = s.threads ++ spawned) (hlock : t.lock = s.lock)
    (hspawned : ∀ c ∈ spawned, Fits false c) : Fitted t := by
  intro j
  rw [ht, hlock]
  refine codeAt_append (fun j => Fits (decide (s.lock = some j))) h (fun c hc j hnil => ?_) j
  rw [show decide (s.lock = some j) = false from hnil]
  exact hspawned c hc

@[simp] theorem release_threads : s.release.threads = s.threads := by
  unfold State.release; split <;> rfl

@[simp] theorem release_lock : s.release.lock = s.lock := by
  unfold State.release; split <;> rfl

/-! ## The two parties -/

/-- One for an instruction that owns the attached receiver, and has no signal for it yet. -/
def offers : Instr P V E → ℕ
  | .attach => 1
  | .resume => 1
  | _ => 0

/-- One for `assign`. -/
def assigns : Instr P V E → ℕ
  | .assign _ => 1
  | _ => 0

/-- One for an instruction that owns the receiver and the signal it has taken for it. -/
def takes : Instr P V E → ℕ
  | .setSignal _ => 1
  | _ => 0

/-- One for the call of the terminal receiver. -/
def dones : Instr P V E → ℕ
  | .setDone => 1
  | _ => 0

/-- One for the drop of a handle. -/
def drops : Instr P V E → ℕ
  | .dropHandle => 1
  | _ => 0

/-- One for a cell that got its signal. -/
def StateEnum.assigned : StateEnum P V E → ℕ
  | .signal _ => 1
  | _ => 0

/-- One for a cell whose signal was taken. -/
def StateEnum.taken : StateEnum P V E → ℕ
  | .signal none => 1
  | _ => 0

/-- One for a chain whose `StateReceiver` was called. -/
def Early.calls : Early P V E → ℕ
  | .delivered _ => 1
  | _ => 0

/-- One for a chain that has its `StateReceiver`. -/
def Early.handles : Early P V E → ℕ
  | .running => 1
  | _ => 0

/-- What the next instruction takes for granted. -/
def Instr.Known (cell : StateEnum P V E) (early : Early P V E) : Instr P V E → Prop
  | .assign sig => early = .delivered sig
  | .setSignal sig => early = .delivered sig
  | .resume => cell.assigned = 1
  | _ => True

/-- **What is where.** -/
structure Counted (s : State P V E) : Prop where
  owned : total offers s.threads + total takes s.threads + s.cell.owns.toNat + s.calls.length =
    s.attached.toNat
  sender : s.sender = true → s.attached = false
  assigned : total assigns s.threads + s.cell.assigned = s.early.calls
  taken : total takes s.threads + s.calls.length = s.cell.taken
  done : total dones s.threads + s.done = s.early.calls
  strong : s.strong = s.sender.toNat + total drops s.threads + s.cell.owns.toNat + s.early.handles
  known : ∀ ins ∈ s.threads.flatten, ins.Known s.cell s.early
  cell : ∀ sig, s.cell = .signal (some sig) → s.early = .delivered sig
  called : ∀ sig ∈ s.calls, s.early = .delivered sig
  present : s.cell ≠ .attached none
  intact : s.destroyed = false ∧ s.panics = []

/-- **What a step may do**: a thread replaces the instructions `gone` by `code`, the threads
`spawned` start, and the rest of the state turns from `s` into `t`. -/
structure Moves (s t : State P V E) (gone code : List (Instr P V E))
    (spawned : List (List (Instr P V E))) : Prop where
  owned : weight offers code + total offers spawned + weight takes code + total takes spawned +
    t.cell.owns.toNat + t.calls.length + s.attached.toNat = weight offers gone + weight takes gone +
      s.cell.owns.toNat + s.calls.length + t.attached.toNat
  assigned : weight assigns code + total assigns spawned + t.cell.assigned + s.early.calls =
    weight assigns gone + s.cell.assigned + t.early.calls
  taken : weight takes code + total takes spawned + t.calls.length + s.cell.taken =
    weight takes gone + s.calls.length + t.cell.taken
  done : weight dones code + total dones spawned + t.done + s.early.calls =
    weight dones gone + s.done + t.early.calls
  strong : t.strong + weight drops gone + s.sender.toNat + s.cell.owns.toNat + s.early.handles =
    s.strong + weight drops code + total drops spawned + t.sender.toNat + t.cell.owns.toNat +
      t.early.handles
  known : ∀ x ∈ code ++ spawned.flatten, x.Known t.cell t.early
  early : ∀ sig, s.early = .delivered sig → t.early = .delivered sig := by exact fun _ => id
  resumable : s.cell.assigned = 1 → t.cell.assigned = 1 := by exact id
  sender : (s.sender = true → s.attached = false) → t.sender = true → t.attached = false := by
    exact id
  cell : ∀ sig, t.cell = .signal (some sig) → s.cell = .signal (some sig) ∨
    t.early = .delivered sig := by exact fun _ => .inl
  called : ∀ sig ∈ t.calls, sig ∈ s.calls ∨ t.early = .delivered sig := by exact fun _ => .inl
  present : t.cell = .attached none → s.cell = .attached none := by exact id
  intact : t.destroyed = s.destroyed ∧ t.panics = s.panics := by exact ⟨rfl, rfl⟩

/-- **Such a step keeps the counts.** -/
theorem Counted.of_moves (h : Counted s) {t t' : State P V E} {gone code : List (Instr P V E)}
    {spawned : List (List (Instr P V E))} (hm : Moves s t gone code spawned)
    (ht : t' = { t with threads := t'.threads })
    (htotal : ∀ w : Instr P V E → ℕ, total w t'.threads + weight w gone =
      total w s.threads + weight w code + total w spawned)
    (hmem : ∀ x ∈ t'.threads.flatten, x ∈ code ∨ x ∈ spawned.flatten ∨ x ∈ s.threads.flatten) :
    Counted t' := by
  rw [ht]
  refine ⟨?_, hm.sender h.sender, ?_, ?_, ?_, ?_, fun x hx => ?_, fun sig hsig => ?_,
    fun sig hsig => ?_, fun hnone => h.present (hm.present hnone), ?_⟩
  · have := h.owned
    have := hm.owned
    have := htotal offers
    have := htotal takes
    simp only at *
    omega
  · have := h.assigned
    have := hm.assigned
    have := htotal assigns
    simp only at *
    omega
  · have := h.taken
    have := hm.taken
    have := htotal takes
    simp only at *
    omega
  · have := h.done
    have := hm.done
    have := htotal dones
    simp only at *
    omega
  · have := h.strong
    have := hm.strong
    have := htotal drops
    simp only at *
    omega
  · rcases hmem x hx with hx | hx | hx
    · exact hm.known x (List.mem_append_left _ hx)
    · exact hm.known x (List.mem_append_right _ hx)
    · have hk := h.known x hx
      cases x <;> first | trivial | exact hm.early _ hk | exact hm.resumable hk
  · exact (hm.cell sig hsig).elim (fun hs => hm.early sig (h.cell sig hs)) id
  · exact (hm.called sig hsig).elim (fun hs => hm.early sig (h.called sig hs)) id
  · exact ⟨hm.intact.1.trans h.intact.1, hm.intact.2.trans h.intact.2⟩

/-- A step of thread `i`. -/
theorem Counted.goto (h : Counted s) (hi : s.threads[i]? = some (ins :: k)) {t : State P V E}
    (code : List (Instr P V E)) (spawned : List (List (Instr P V E)))
    (ht : t.threads = s.threads) (hm : Moves s t [ins] code spawned) :
    Counted (t.goto i (code ++ k) spawned) := by
  refine h.of_moves hm rfl (fun w => ?_) (fun x hx => ?_)
  · simpa only [State.goto, ht, weight_cons, weight_nil, Nat.add_zero] using
      total_goto w hi code spawned
  · exact mem_goto hi (by simpa only [State.goto, ht] using hx)

/-- A step outside of the threads, which may start a new one. -/
theorem Counted.spawn (h : Counted s) {t : State P V E} (spawned : List (List (Instr P V E)))
    (ht : t.threads = s.threads ++ spawned) (hm : Moves s t [] [] spawned) : Counted t := by
  refine h.of_moves hm rfl (fun w => by simp [ht]) (fun x hx => ?_)
  rw [ht, List.flatten_append] at hx
  exact .inr (List.mem_append.mp hx).symm

/-- The drop of a handle, by somebody else than the cell, leaves the cell alone. -/
theorem Counted.release_eq (h : Counted s)
    (hpos : 0 < s.sender.toNat + total drops s.threads + s.early.handles) :
    s.release = { s with strong := s.strong - 1 } := by
  have hstrong := h.strong
  unfold State.release
  rw [if_neg]
  rintro ⟨h1, howns⟩
  simp only [howns, Bool.toNat_true] at hstrong
  omega

/-! ### What the cell is found to be -/

theorem Counted.head (h : Counted s) (hi : s.threads[i]? = some (ins :: k)) :
    ins.Known s.cell s.early :=
  h.known ins (List.mem_flatten.mpr ⟨_, List.mem_of_getElem? hi, .head k⟩)

theorem Early.calls_le (e : Early P V E) : e.calls ≤ 1 := by cases e <;> simp [Early.calls]

/-- 'already completed' and 'signal is delivered for the first time' are not reached. -/
theorem Counted.assign_cell (h : Counted s) {sig : Signal P V E}
    (hi : s.threads[i]? = some (.assign sig :: k)) :
    s.cell = .pending ∨ s.cell = .attached (some ()) := by
  have hassigned := h.assigned
  have hle := weight_le_total assigns hi
  have hcalls := s.early.calls_le
  simp only [weight_cons, assigns] at hle
  rcases hc : s.cell with _ | sig' | _ | _
  · exact .inl rfl
  · simp only [hc, StateEnum.assigned] at hassigned
    omega
  · exact absurd hc h.present
  · exact .inr rfl

/-- 'already completed' and 'signal is not consumed twice' are not reached: there is one receiver,
and its thread has it still. -/
theorem Counted.attach_cell (h : Counted s) (hi : s.threads[i]? = some (.attach :: k)) :
    s.cell = .pending ∨ ∃ sig, s.cell = .signal (some sig) := by
  have howned := h.owned
  have htaken := h.taken
  have hle := weight_le_total offers hi
  have hattached : s.attached.toNat ≤ 1 := Bool.toNat_le _
  simp only [weight_cons, offers] at hle
  rcases hc : s.cell with _ | (_ | sig) | _ | _
  · exact .inl rfl
  · simp only [hc, StateEnum.taken] at htaken
    omega
  · exact .inr ⟨sig, rfl⟩
  · exact absurd hc h.present
  · simp only [hc, StateEnum.owns, Bool.toNat_true] at howned
    omega

/-- 'signal has not been consumed' and 'expected state to have a signal' are not reached. -/
theorem Counted.resume_cell (h : Counted s) (hi : s.threads[i]? = some (.resume :: k)) :
    ∃ sig, s.cell = .signal (some sig) := by
  have hknown : s.cell.assigned = 1 := h.head hi
  have howned := h.owned
  have htaken := h.taken
  have hle := weight_le_total offers hi
  have hattached : s.attached.toNat ≤ 1 := Bool.toNat_le _
  simp only [weight_cons, offers] at hle
  rcases hc : s.cell with _ | (_ | sig) | _
  · simp [hc, StateEnum.assigned] at hknown
  · simp only [hc, StateEnum.taken] at htaken
    omega
  · exact ⟨sig, rfl⟩
  · simp [hc, StateEnum.assigned] at hknown

/-! ### Every step -/

/-- The invariant of `ensure_started`. -/
structure Inv (s : State P V E) : Prop where
  fitted : Fitted s
  counted : Counted s

/-- A thread that takes or gives back the lock, or does nothing. -/
theorem Counted.next (h : Counted s) (hi : s.threads[i]? = some (ins :: k)) (a : Option ℕ)
    (hw : offers ins = 0 ∧ takes ins = 0 ∧ assigns ins = 0 ∧ dones ins = 0 ∧ drops ins = 0) :
    Counted ({ s with lock := a }.goto i k []) := by
  obtain ⟨ho, ht, ha, hd, hdr⟩ := hw
  exact h.goto hi [] [] rfl {
    owned := by simp [ho, ht]
    assigned := by simp [ha]
    taken := by simp [ht]
    done := by simp [hd]
    strong := by simp [hdr]
    known := by simp }

/-- The signal is taken out of the cell, by a frame that calls the receiver or by a task. -/
theorem Counted.take (h : Counted s) {sig : Signal P V E} (hi : s.threads[i]? = some (ins :: k))
    (hcell : s.cell = .signal (some sig)) (code : List (Instr P V E))
    (spawned : List (List (Instr P V E))) (hins : ins = .attach ∨ ins = .resume)
    (hcode : code ++ spawned.flatten = [.setSignal sig, .unlockSignal] ∨
      code ++ spawned.flatten = [.unlockSignal, .setSignal sig] ∨
      code ++ spawned.flatten = [.setSignal sig]) :
    Counted ({ s with cell := .signal none }.goto i (code ++ k) spawned) := by
  have hweight (w : Instr P V E → ℕ) (hw : w .unlockSignal = 0) :
      weight w code + total w spawned = w (.setSignal sig) := by
    rw [total_eq_weight_flatten, ← weight_append]
    rcases hcode with hcode | hcode | hcode <;> simp [hcode, hw]
  have hearly := h.cell sig hcell
  have ho := hweight offers rfl
  have ht := hweight takes rfl
  have ha := hweight assigns rfl
  have hd := hweight dones rfl
  have hdr := hweight drops rfl
  have hoffer : offers ins = 1 ∧ takes ins = 0 ∧ assigns ins = 0 ∧ dones ins = 0 ∧
      drops ins = 0 := by
    rcases hins with rfl | rfl <;> exact ⟨rfl, rfl, rfl, rfl, rfl⟩
  simp only [offers, takes, assigns, dones, drops] at ho ht ha hd hdr
  exact h.goto hi code spawned rfl {
    owned := by simp [hoffer, hcell, StateEnum.owns]; omega
    assigned := by simp [hoffer, hcell, StateEnum.assigned]; omega
    taken := by simp [hoffer, hcell, StateEnum.taken]; omega
    done := by simp [hoffer]; omega
    strong := by simp [hoffer, hcell, StateEnum.owns]; omega
    known := by
      intro x hx
      have hx' : x = .setSignal sig ∨ x = .unlockSignal := by
        rcases hcode with hcode | hcode | hcode <;> rw [hcode] at hx
        · simpa using hx
        · simpa [or_comm] using hx
        · exact .inl (by simpa using hx)
      rcases hx' with rfl | rfl
      · exact hearly
      · trivial
    resumable := fun _ => rfl
    cell := by simp
    present := by simp }

/-- The completion of the upstream chain is stored, or handed to the receiver that waits for it. -/
theorem Inv.assign (h : Inv s) {sig : Signal P V E} (hi : s.threads[i]? = some (.assign sig :: k))
    (hs : EnsureStarted.exec s i k (.assign sig) = some t) : Inv t := by
  obtain ⟨hf, hc⟩ := h
  have hknown := hc.head hi
  rcases hc.assign_cell hi with hcell | hcell
  · simp only [EnsureStarted.exec, hcell] at hs
    obtain rfl := Option.some.inj hs
    refine ⟨hf.move hi (.unlockSignal :: k) [] rfl rfl (fun g hg => hg) (by simp), ?_⟩
    exact hc.goto hi [.unlockSignal] [] rfl {
      owned := by simp [offers, takes, hcell, StateEnum.owns]
      assigned := by simp [assigns, hcell, StateEnum.assigned]
      taken := by simp [takes, hcell, StateEnum.taken]
      done := by simp [dones]
      strong := by simp [drops, hcell, StateEnum.owns]
      known := by simp [Instr.Known]
      resumable := fun _ => rfl
      cell := fun sig' hsig => .inr (by
        obtain rfl : sig = sig' := by simpa using hsig
        exact hknown)
      present := by simp }
  · simp only [EnsureStarted.exec, hcell] at hs
    obtain rfl := Option.some.inj hs
    refine ⟨hf.move hi _ [] rfl rfl (fun g hg => ⟨hg.1, rfl, rfl, rfl, rfl, hg.2⟩) (by simp), ?_⟩
    exact hc.goto hi (.unlockSignal :: StateReceiverWrapper.setValue) [] rfl {
      owned := by simp [StateReceiverWrapper.setValue, offers, takes, hcell, StateEnum.owns]
      assigned := by
        simp [StateReceiverWrapper.setValue, assigns, hcell, StateEnum.assigned]
      taken := by simp [StateReceiverWrapper.setValue, takes, hcell, StateEnum.taken]
      done := by simp [StateReceiverWrapper.setValue, dones]
      strong := by
        simp [StateReceiverWrapper.setValue, drops, hcell, StateEnum.owns]
        omega
      known := by simp [StateReceiverWrapper.setValue, Instr.Known, StateEnum.assigned]
      resumable := fun _ => rfl
      cell := fun sig' hsig => .inr (by
        obtain rfl : sig = sig' := by simpa using hsig
        exact hknown)
      present := by simp }

/-- A receiver is attached: it waits in the cell, or it gets the signal that is there. -/
theorem Inv.attach (h : Inv s) (hi : s.threads[i]? = some (.attach :: k))
    (hs : EnsureStarted.exec s i k .attach = some t) : Inv t := by
  obtain ⟨hf, hc⟩ := h
  rcases hc.attach_cell hi with hcell | ⟨sig, hcell⟩
  · simp only [EnsureStarted.exec, hcell] at hs
    obtain rfl := Option.some.inj hs
    refine ⟨hf.move hi (.unlockSignal :: k) [] rfl rfl (fun g hg => hg) (by simp), ?_⟩
    exact hc.goto hi [.unlockSignal] [] rfl {
      owned := by simp [offers, takes, hcell, StateEnum.owns]
      assigned := by simp [assigns, hcell, StateEnum.assigned]
      taken := by simp [takes, hcell, StateEnum.taken]
      done := by simp [dones]
      strong := by
        simp [drops, hcell, StateEnum.owns]
        omega
      known := by simp [Instr.Known]
      resumable := fun h1 => by simp [hcell, StateEnum.assigned] at h1
      cell := by simp
      present := by simp }
  · simp only [EnsureStarted.exec, hcell] at hs
    obtain rfl := Option.some.inj hs
    unfold callAttached
    split
    · exact ⟨hf.move hi _ _ rfl rfl (fun g hg => hg) (by simp [Fits]),
        hc.take hi hcell [.unlockSignal] _ (.inl rfl) (.inr (.inl rfl))⟩
    · exact ⟨hf.move hi _ [] rfl rfl (fun g hg => hg) (by simp),
        hc.take hi hcell [.setSignal sig, .unlockSignal] [] (.inl rfl) (.inl rfl)⟩

/-- The receiver is called, and its code runs. -/
theorem Counted.setSignal (h : Counted s) {sig : Signal P V E}
    (hi : s.threads[i]? = some (.setSignal sig :: k)) :
    Counted ({ s with calls := s.calls ++ [sig] }.goto i (.inside :: k) []) :=
  h.goto hi [.inside] [] rfl {
    owned := by
      simp [offers, takes]
      omega
    assigned := by simp [assigns]
    taken := by
      simp [takes]
      omega
    done := by simp [dones]
    strong := by simp [drops]
    known := by simp [Instr.Known]
    called := fun sig' hsig => (List.mem_append.mp hsig).imp_right fun hsig => by
      obtain rfl := List.mem_singleton.mp hsig
      exact h.head hi }

/-- One step of one thread keeps the invariant. -/
theorem Inv.exec (h : Inv s) (hi : s.threads[i]? = some (ins :: k)) (hs : exec s i k ins = some t) :
    Inv t := by
  obtain ⟨hf, hc⟩ := h
  have hhead := hf.head hi
  cases ins with
  | lockSignal =>
      simp only [EnsureStarted.exec, Option.ite_none_right_eq_some, Option.some.injEq] at hs
      obtain ⟨hfree, rfl⟩ := hs
      refine ⟨hf.goto hi k [] rfl (fun j hj => by simp [State.goto, hfree, hj.symm]) ?_ (by simp),
        hc.next hi _ ⟨rfl, rfl, rfl, rfl, rfl⟩⟩
      simpa [State.goto] using hhead.2
  | unlockSignal =>
      obtain rfl := Option.some.inj hs
      have hown : s.lock = some i := by simpa using hhead.1
      refine ⟨hf.goto hi k [] rfl (fun j hj => by simp [State.goto, hown, hj.symm]) ?_ (by simp),
        hc.next hi _ ⟨rfl, rfl, rfl, rfl, rfl⟩⟩
      simpa [State.goto] using hhead.2
  | inside =>
      obtain rfl := Option.some.inj hs
      exact ⟨hf.move hi k [] rfl rfl (fun g hg => hg) (by simp),
        hc.next hi _ ⟨rfl, rfl, rfl, rfl, rfl⟩⟩
  | assign sig => exact Inv.assign ⟨hf, hc⟩ hi hs
  | attach => exact Inv.attach ⟨hf, hc⟩ hi hs
  | resume =>
      obtain ⟨sig, hcell⟩ := hc.resume_cell hi
      simp only [EnsureStarted.exec, hcell] at hs
      obtain rfl := Option.some.inj hs
      exact ⟨hf.move hi _ [] rfl rfl (fun g hg => hg.1 ▸ hg.2) (by simp),
        hc.take hi hcell [.setSignal sig] [] (.inr rfl) (.inr (.inr rfl))⟩
  | setSignal sig =>
      obtain rfl := Option.some.inj hs
      exact ⟨hf.move hi _ [] rfl rfl (fun g hg => hg) (by simp), hc.setSignal hi⟩
  | setDone =>
      obtain rfl := Option.some.inj hs
      refine ⟨hf.move hi k [] rfl rfl (fun g hg => hg.1 ▸ hg.2) (by simp), ?_⟩
      exact hc.goto hi [] [] rfl {
        owned := by simp [offers, takes]
        assigned := by simp [assigns]
        taken := by simp [takes]
        done := by
          simp [dones]
          omega
        strong := by simp [drops]
        known := by simp }
  | dropHandle =>
      obtain rfl := Option.some.inj hs
      have hstrong := hc.strong
      have hle := weight_le_total drops hi
      simp only [weight_cons, drops] at hle
      refine ⟨hf.move hi k [] (by simp [State.goto]) (by simp [State.goto])
        (fun g hg => hg.1 ▸ hg.2) (by simp), ?_⟩
      rw [hc.release_eq (by omega)]
      exact hc.goto hi [] [] rfl {
        owned := by simp [offers, takes]
        assigned := by simp [assigns]
        taken := by simp [takes]
        done := by simp [dones]
        strong := by
          simp [drops]
          omega
        known := by simp }

/-- **Every step keeps the invariant.** -/
theorem Inv.step {l : Label P V E} (h : Inv s) (hs : step s l = some t) : Inv t := by
  obtain ⟨hf, hc⟩ := h
  have hstrong := hc.strong
  cases l with
  | run i =>
      simp only [EnsureStarted.step] at hs
      split at hs
      · next ins k hi => exact Inv.exec ⟨hf, hc⟩ hi hs
      · simp at hs
  | attach =>
      simp only [EnsureStarted.step, Option.ite_none_right_eq_some, Option.some.injEq] at hs
      obtain ⟨hsender, rfl⟩ := hs
      refine ⟨hf.spawn [EnsureStartedOpstate.start] rfl rfl ?_,
        hc.spawn [EnsureStartedOpstate.start] rfl {
          owned := by
            simp [EnsureStartedOpstate.start, offers, takes, hc.sender hsender]
            omega
          assigned := by simp [EnsureStartedOpstate.start, assigns]
          taken := by simp [EnsureStartedOpstate.start, takes]
          done := by simp [EnsureStartedOpstate.start, dones]
          strong := by simp [EnsureStartedOpstate.start, drops, hsender]
          known := by simp [EnsureStartedOpstate.start, Instr.Known]
          sender := by simp }⟩
      simp [EnsureStartedOpstate.start, Fits]
  | drop =>
      simp only [EnsureStarted.step, Option.ite_none_right_eq_some, Option.some.injEq] at hs
      obtain ⟨hsender, rfl⟩ := hs
      rw [hc.release_eq (by simp [hsender])]
      refine ⟨hf.spawn [] (by simp) rfl (by simp), hc.spawn [] (by simp) {
        owned := by simp
        assigned := by simp
        taken := by simp
        done := by simp
        strong := by
          simp [hsender] at hstrong ⊢
          omega
        known := by simp
        sender := by simp }⟩
  | signal sig =>
      simp only [EnsureStarted.step] at hs
      split at hs
      · next hearly =>
          obtain rfl := Option.some.inj hs
          refine ⟨hf.spawn [StateReceiver.complete sig] rfl rfl ?_,
            hc.spawn [StateReceiver.complete sig] rfl {
              owned := by simp [StateReceiver.complete, offers, takes]
              assigned := by
                simp [StateReceiver.complete, assigns, hearly, Early.calls]
                omega
              taken := by simp [StateReceiver.complete, takes]
              done := by
                simp [StateReceiver.complete, dones, hearly, Early.calls]
                omega
              strong := by
                simp [StateReceiver.complete, drops, hearly, Early.handles]
                omega
              known := by simp [StateReceiver.complete, Instr.Known]
              early := fun sig' hsig => by simp [hearly] at hsig }⟩
          simp [StateReceiver.complete, Fits]
      · simp at hs
  | die =>
      simp only [EnsureStarted.step] at hs
      split at hs
      · next hearly =>
          obtain rfl := Option.some.inj hs
          rw [hc.release_eq (by simp [hearly, Early.handles])]
          refine ⟨hf.spawn [] (by simp) rfl (by simp), hc.spawn [] (by simp) {
            owned := by simp
            assigned := by simp [hearly, Early.calls]
            taken := by simp
            done := by simp [hearly, Early.calls]
            strong := by
              simp [hearly, Early.handles] at hstrong ⊢
              omega
            known := by simp
            early := fun sig' hsig => by simp [hearly] at hsig }⟩
      · simp at hs

/-- **The invariant of every run.** -/
theorem Inv.inductive : (machine P V E).Inductive (fun _ _ => True) (Inv : State P V E → Prop) where
  init :=
    { fitted := fun i => by simp [machine, codeAt, fresh, Fits]
      counted := by
        constructor <;>
          simp [machine, fresh, StateEnum.owns, StateEnum.assigned, StateEnum.taken, Early.calls,
            Early.handles] }
  step _ _ _ h _ hs := h.step hs

end SendersReceivers.EnsureStarted
