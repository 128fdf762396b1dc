import SendersReceivers.EnsureStarted.Handover

/-!
# EnsureStarted/Delivery — an attached receiver is called once, with the signal

There is one lock, and whoever holds it can go on, so a state in which no thread can go on is one in
which every thread is done.  Such a state is reached: every instruction uses up some of the work
that the completion and the attaching have brought in.  What the counts of the cell say there is the
theorem of this file.
-/

namespace SendersReceivers.EnsureStarted

open Machinery

variable {P V E : Type} {s t : State P V E} {i : ℕ} {ins : Instr P V E} {k : List (Instr P V E)}
  {ls : List (Label P V E)}

/-! ## Quiet states -/

/-- Only the lock can be waited for. -/
theorem exec_isSome (hins : ins ≠ .lockSignal) : exec s i k ins ≠ none := by
  cases ins with
  | lockSignal => exact absurd rfl hins
  | assign sig => simp only [exec]; split <;> simp
  | attach => simp only [exec]; split <;> simp
  | resume => simp only [exec]; split <;> simp
  | _ => simp [exec]

theorem Quiet.blocked (hq : Quiet s) (hi : s.threads[i]? = some (ins :: k)) :
    exec s i k ins = none := by
  simpa [step, hi] using hq i

/-- In a quiet state nobody holds the lock. -/
theorem Quiet.lock (hq : Quiet s) (hf : Fitted s) : s.lock = none := by
  by_contra hne
  obtain ⟨j, hj⟩ := Option.ne_none_iff_exists'.mp hne
  have hfit := hf j
  cases hcode : codeAt s.threads j with
  | nil => simp [hcode, hj, Fits] at hfit
  | cons ins k =>
      rw [hcode] at hfit
      refine exec_isSome ?_ (hq.blocked (getElem?_of_codeAt hcode))
      rintro rfl
      simp [Fits, hj] at hfit

/-- **A quiet state is one in which every thread is done.** -/
theorem Quiet.done (hq : Quiet s) (hf : Fitted s) : ∀ code ∈ s.threads, code = [] := by
  intro code hcode
  obtain ⟨j, hj⟩ := List.mem_iff_getElem?.mp hcode
  cases code with
  | nil => rfl
  | cons ins k =>
      refine (exec_isSome ?_ (hq.blocked hj)).elim
      rintro rfl
      have hfree := hq.blocked hj
      rw [exec, if_pos (hq.lock hf)] at hfree
      exact Option.some_ne_none _ hfree

/-- And the other way round. -/
theorem quiet_of_done (hdone : ∀ code ∈ s.threads, code = []) : Quiet s := by
  intro i
  cases hi : s.threads[i]? with
  | none => simp [step, hi]
  | some code =>
      obtain rfl := hdone code (List.mem_of_getElem? hi)
      simp [step, hi]

/-! ## Work -/

/-- The work an instruction stands for, that of what it puts in place included. -/
def work : Instr P V E → ℕ
  | .assign _ => 8
  | .attach => 4
  | .resume => 3
  | .setSignal _ => 2
  | _ => 1

/-- The work that was ever brought in. -/
def State.brought (s : State P V E) : ℕ := 11 * s.early.calls + 6 * s.attached.toNat

/-- One for a label that is an instruction of a thread. -/
def Label.isRun : Label P V E → ℕ
  | .run _ => 1
  | _ => 0

/-- Moving on uses up the difference. -/
theorem work_move (hi : s.threads[i]? = some (ins :: k)) (t : State P V E)
    (code : List (Instr P V E)) (spawned : List (List (Instr P V E))) (ht : t.threads = s.threads)
    (hlt : weight work code + total work spawned < work ins) :
    total work (t.goto i (code ++ k) spawned).threads + 1 ≤ total work s.threads := by
  have hgoto := total_goto work hi code spawned
  simp only [State.goto, ht]
  omega

/-- **An instruction uses up work, and brings in none.** -/
theorem work_exec (h : Inv s) (hi : s.threads[i]? = some (ins :: k))
    (hs : exec s i k ins = some t) :
    total work t.threads + 1 ≤ total work s.threads ∧ t.brought = s.brought := by
  cases ins with
  | lockSignal =>
      simp only [exec, Option.ite_none_right_eq_some, Option.some.injEq] at hs
      obtain ⟨-, rfl⟩ := hs
      exact ⟨work_move hi _ [] [] rfl (by simp [work]), rfl⟩
  | assign sig =>
      rcases h.counted.assign_cell hi with hcell | hcell <;> simp only [exec, hcell] at hs <;>
        obtain rfl := Option.some.inj hs
      · exact ⟨work_move hi _ [.unlockSignal] [] rfl (by simp [work]), rfl⟩
      · exact ⟨work_move hi _ (.unlockSignal :: StateReceiverWrapper.setValue) [] rfl
          (by simp [StateReceiverWrapper.setValue, work]), rfl⟩
  | attach =>
      rcases h.counted.attach_cell hi with hcell | ⟨sig, hcell⟩ <;>
        simp only [exec, hcell] at hs <;> obtain rfl := Option.some.inj hs
      · exact ⟨work_move hi _ [.unlockSignal] [] rfl (by simp [work]), rfl⟩
      · unfold callAttached
        split
        · exact ⟨work_move hi _ [.unlockSignal] _ rfl (by simp [work]), rfl⟩
        · exact ⟨work_move hi _ [.setSignal sig, .unlockSignal] [] rfl (by simp [work]), rfl⟩
  | resume =>
      obtain ⟨sig, hcell⟩ := h.counted.resume_cell hi
      simp only [exec, hcell] at hs
      obtain rfl := Option.some.inj hs
      exact ⟨work_move hi _ [.setSignal sig] [] rfl (by simp [work]), rfl⟩
  | setSignal sig =>
      obtain rfl := Option.some.inj hs
      exact ⟨work_move hi _ [.inside] [] rfl (by simp [work]), rfl⟩
  | dropHandle =>
      obtain rfl := Option.some.inj hs
      refine ⟨work_move hi _ [] [] release_threads (by simp [work]), ?_⟩
      simp only [State.brought, State.goto, State.release]
      split <;> rfl
  | unlockSignal =>
      obtain rfl := Option.some.inj hs
      exact ⟨work_move hi _ [] [] rfl (by simp [work]), rfl⟩
  | inside =>
      obtain rfl := Option.some.inj hs
      exact ⟨work_move hi _ [] [] rfl (by simp [work]), rfl⟩
  | setDone =>
      obtain rfl := Option.some.inj hs
      exact ⟨work_move hi _ [] [] rfl (by simp [work]), rfl⟩

/-- **No label brings in more work than it is allowed.** -/
theorem work_step {l : Label P V E} (h : Inv s) (hs : step s l = some t) :
    l.isRun + total work t.threads + s.brought ≤ total work s.threads + t.brought := by
  cases l with
  | run i =>
      simp only [step] at hs
      split at hs
      · next ins k hi =>
          obtain ⟨hwork, hbrought⟩ := work_exec h hi hs
          simp only [Label.isRun]
          omega
      · simp at hs
  | attach =>
      simp only [step, Option.ite_none_right_eq_some, Option.some.injEq] at hs
      obtain ⟨hsender, rfl⟩ := hs
      simp [State.brought, Label.isRun, EnsureStartedOpstate.start, work, h.counted.sender hsender]
      omega
  | drop =>
      simp only [step, Option.ite_none_right_eq_some, Option.some.injEq] at hs
      obtain ⟨hsender, rfl⟩ := hs
      rw [h.counted.release_eq (by simp [hsender])]
      simp [State.brought, Label.isRun]
  | signal sig =>
      simp only [step] at hs
      split at hs
      · next hearly =>
          obtain rfl := Option.some.inj hs
          simp [State.brought, Label.isRun, StateReceiver.complete, work, hearly, Early.calls]
          omega
      · simp at hs
  | die =>
      simp only [step] at hs
      split at hs
      · next hearly =>
          obtain rfl := Option.some.inj hs
          rw [h.counted.release_eq (by simp [hearly, Early.handles])]
          simp [State.brought, Label.isRun, hearly, Early.calls]
      · simp at hs

/-- **A run makes no more instructions than one completion and one attaching account for.** -/
theorem run_le (h : (machine P V E).Run (fun _ _ => True) ls s) :
    (ls.map Label.isRun).sum ≤ 17 := by
  have hle := h.cost_le Label.isRun (fun s => total work s.threads) State.brought Inv.inductive
    (by simp [machine, fresh]) (fun s l t hI _ hs => work_step hI hs)
  have hcalls := s.early.calls_le
  have hattached : s.attached.toNat ≤ 1 := Bool.toNat_le _
  simp only [State.brought] at hle
  omega

/-! ## Delivery -/

/-- **A thread is about to acquire the lock, and holds it already.** -/
def Reacquires (s : State P V E) (i : ℕ) : Prop :=
  (codeAt s.threads i).head? = some .lockSignal ∧ s.lock = some i

/-- What is true at every moment of a run. -/
structure Sound (s : State P V E) : Prop where
  noPanic : s.panics = []
  noReacquire : ∀ i, ¬Reacquires s i
  calledOnce : s.calls.length ≤ s.attached.toNat
  sameSignal : ∀ sig ∈ s.calls, s.early = .delivered sig
  doneOnce : s.done ≤ s.early.calls

/-- The receiver, if one was attached, was called with the signal of the early chain and with
nothing else, and the terminal receiver of that chain is done. -/
structure HandedOver (s : State P V E) (sig : Signal P V E) : Prop where
  calls : s.calls = if s.attached then [sig] else []
  done : s.done = 1

theorem Inv.sound (h : Inv s) : Sound s where
  noPanic := h.counted.intact.2
  noReacquire i hre := by
    obtain ⟨hhead, hlock⟩ := hre
    have hfit := h.fitted i
    obtain ⟨k, hk⟩ := List.head?_eq_some_iff.mp hhead
    simp [hk, hlock, Fits] at hfit
  calledOnce := by
    have howned := h.counted.owned
    omega
  sameSignal := h.counted.called
  doneOnce := by
    have hdone := h.counted.done
    omega

/-- **When every thread is done, the signal has been handed over.** -/
theorem Inv.handedOver (h : Inv s) (hq : Quiet s) {sig : Signal P V E}
    (hearly : s.early = .delivered sig) : HandedOver s sig := by
  have hzero (w : Instr P V E → ℕ) : total w s.threads = 0 := total_eq_zero w (hq.done h.fitted)
  have hassigned := h.counted.assigned
  have howned := h.counted.owned
  have hdone := h.counted.done
  simp only [hzero, hearly, Early.calls, Nat.zero_add] at hassigned howned hdone
  have hcell : s.cell.owns = false := by
    rcases hc : s.cell with _ | _ | _ <;> simp [hc, StateEnum.assigned] at hassigned ⊢
    rfl
  simp only [hcell, Bool.toNat_false, Nat.zero_add] at howned
  refine ⟨?_, hdone⟩
  cases hattached : s.attached with
  | false => simpa [hattached] using howned
  | true =>
      obtain ⟨sig', hsig'⟩ := List.length_eq_one_iff.mp (by simpa [hattached] using howned)
      have hsame := h.counted.called sig' (by simp [hsig'])
      obtain rfl : sig = sig' := by simpa [hearly] using hsame
      simp [hsig']

/-- **`ensure_started` hands over exactly once**, in whatever order the completion of the early
chain, the attaching of a receiver and their lock operations come.  A run makes only so many
instructions, so one that goes on as long as it can ends in a quiet state. -/
theorem ensure_started_hands_over (ls : List (Label P V E)) (s : State P V E)
    (h : (machine P V E).Run (fun _ _ => True) ls s) :
    Sound s ∧ (ls.map Label.isRun).sum ≤ 17 ∧
      (Quiet s → ∀ sig, s.early = .delivered sig → HandedOver s sig) :=
  have hinv := Inv.inductive.of_run h
  ⟨hinv.sound, run_le h, fun hq _ hearly => hinv.handedOver hq hearly⟩

/-- The receiver is attached while the completion waits for the lock, which the completion then
takes twice. -/
def race : List (Label Unit ℕ Unit) :=
  [[.signal (.value (.pool ()) [7]), .attach], List.replicate 3 (.run 1),
    List.replicate 11 (.run 0), [.run 1]].flatten

theorem race_handed_over :
    ∃ s, (machine Unit ℕ Unit).exec fresh race = some s ∧
      HandedOver s (.value (.pool ()) [7]) := by
  obtain ⟨s, hs, hearly, hdone⟩ : ∃ s, (machine Unit ℕ Unit).exec fresh race = some s ∧
      s.early = .delivered (.value (.pool ()) [7]) ∧ ∀ code ∈ s.threads, code = [] :=
    Machine.exec_ends (by decide +kernel)
  have hrun : (machine Unit ℕ Unit).Run (fun _ _ => True) race s := .of_exec (by decide +kernel) hs
  exact ⟨s, hs, (ensure_started_hands_over race s hrun).2.2 (quiet_of_done hdone) _ hearly⟩

end SendersReceivers.EnsureStarted
