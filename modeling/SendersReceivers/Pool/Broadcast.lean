import SendersReceivers.Pool.Audit

/-!
# Pool/Broadcast — `execute_all` sends one task to each worker

The loop of `execute_all` runs under the mutex of the pool.  Workers go on meanwhile, and threads
that have handles of them send them tasks, but none of these is from the pool, and nobody changes
`threads`.  After iteration `i` the first `i` workers have got a task each. -/

namespace SendersReceivers.Resizing

open Machinery Pool

/-- What a call of `execute_all` has done before its iteration `i`: it was made in state `s`. -/
structure Sending (s : State) (i : ℕ) (t : State) : Prop where
  holder : t.holder = .executingAll i
  join : t.pool.join = .idle
  bound : i ≤ s.pool.threads.length
  threads : t.pool.threads = s.pool.threads
  next : s.next ≤ t.next
  sent : ∀ (v : ℕ) b, s.books[v]? = some b → ∃ b' new, t.books[v]? = some b' ∧
    b'.fromPool = b.fromPool ++ new ∧ new.length = (s.pool.threads.take i).count v ∧
    ∀ n ∈ new, s.next ≤ n

variable {s t t' : State} {i : ℕ} {a : Action}

theorem noted_next (l : Pool.Label) : t.next ≤ (t.noted l).next := by
  cases l <;> first | exact le_rfl | exact Nat.le_succ _

/-- What the others send is not from the pool. -/
theorem noted_fromPool (l : Pool.Label) {v : ℕ} {b : Book} (hb : t.books[v]? = some b) :
    ∃ b', (t.noted l).books[v]? = some b' ∧ b'.fromPool = b.fromPool := by
  have hmodify : ∀ (u : ℕ) (f : Book → Book), (∀ b, (f b).fromPool = b.fromPool) →
      ∃ b', (t.books.modify u f)[v]? = some b' ∧ b'.fromPool = b.fromPool := by
    intro u f hf
    rw [List.getElem?_modify, hb]
    refine ⟨_, rfl, ?_⟩
    by_cases huv : u = v
    · simp [huv, hf]
    · simp [huv]
  cases l with
  | outsideExecute | executeCross => exact hmodify _ _ fun b => rfl
  | executeLocal => exact hmodify _ _ fun b => rfl
  | tryRecv | runOneTask | finish => exact hmodify _ _ fun b => rfl
  | shrink | grow | schedule | outsideClone | outsideDrop | poll | clone | drop | convert | give
  | join => exact ⟨b, hb, rfl⟩

/-- Somebody else does something. -/
theorem Sending.other (h : Sending s i t) (l : Pool.Label) {pool : Pool.State}
    (hcore : core pool = core t.pool) : Sending s i { t.noted l with pool := pool } := by
  refine ⟨(noted_holder t l).trans h.holder, (congrArg Core.join hcore).trans h.join, h.bound,
    (congrArg Core.threads hcore).trans h.threads, h.next.trans (noted_next l), fun v b hb => ?_⟩
  obtain ⟨b', new, hb', hfrom, hlength, hnew⟩ := h.sent v b hb
  obtain ⟨b'', hb'', hsame⟩ := noted_fromPool l hb'
  exact ⟨b'', new, hb'', hsame.trans hfrom, hlength, hnew⟩

/-- **One iteration**: the next worker gets a task. -/
theorem Sending.next_iteration (h : Sending s i t) {u : ℕ} {pool : Pool.State}
    (hu : t.pool.threads[i]? = some u) (hcore : core pool = core t.pool) :
    Sending s (i + 1)
      { t.note u Book.sendFromPool with pool := pool, holder := .executingAll (i + 1) } := by
  rw [h.threads] at hu
  have hlt := (List.getElem?_eq_some_iff.mp hu).1
  refine ⟨rfl, (congrArg Core.join hcore).trans h.join, hlt,
    (congrArg Core.threads hcore).trans h.threads, h.next.trans (Nat.le_succ _), fun v b hb => ?_⟩
  obtain ⟨b', new, hb', hfrom, hlength, hnew⟩ := h.sent v b hb
  have htake : s.pool.threads.take (i + 1) = s.pool.threads.take i ++ [u] := by
    rw [List.take_add_one, hu]
    rfl
  have hbooks : (t.note u Book.sendFromPool).books[v]? =
      some (if u = v then b'.sendFromPool t.next else b') := by
    simp only [State.note, List.getElem?_modify, hb']
    split_ifs <;> rfl
  rw [htake, List.count_append, List.count_singleton]
  by_cases huv : u = v
  · rw [if_pos huv] at hbooks
    refine ⟨_, new ++ [t.next], hbooks, ?_, by simp [hlength, huv], fun n hn => ?_⟩
    · simp [Book.sendFromPool, Book.send, hfrom]
    · obtain hn | hn := List.mem_append.mp hn
      · exact hnew n hn
      · exact List.mem_singleton.mp hn ▸ h.next
  · rw [if_neg huv] at hbooks
    exact ⟨b', new, hbooks, hfrom, by simp [hlength, huv], hnew⟩

/-- **A step in the middle of the call** is an iteration of it, or somebody else's. -/
theorem Sending.step (h : Sending s i t) (ha : a.wakes = true ∧ a ≠ .allDone)
    (hstep : machine.step t a = some t') : ∃ j, Sending s j t' := by
  have hnot : ∀ {holder : Holder}, t.holder = holder → holder = .executingAll i :=
    fun heq => heq.symm.trans h.holder
  obtain ⟨-, -, hmoves⟩ := step_moves hstep
  cases hmoves with
  | new hholder => cases hnot hholder
  | pop hholder | grow hholder | ioError hholder | spawnCreating hholder | spawn hholder
  | ret hholder => cases hnot hholder
  | resize hfree | start hfree | startEmpty hfree | executeAll hfree => cases hnot hfree.1
  | next hholder hv hpool =>
      obtain rfl := Holder.executingAll.inj (hholder.symm.trans h.holder)
      exact ⟨_, h.next_iteration hv (core_schedule hpool hv)⟩
  | allDone => exact absurd rfl ha.2
  | join hholder => cases hnot hholder
  | pool hl hjoin hpool => exact ⟨i, h.other _ (core_step hpool hl hjoin)⟩
  | popUnheard | startUnheard | nextUnheard => cases ha.1

/-- What is sent in a call is with the worker it was sent to: one of the tasks that this has queued,
runs or has run. -/
theorem with_worker (h : (Pool.Inv [] [] t.pool ∧ Booked t.pool t.books) ∧ Kept t ∧ Audited t)
    {v : ℕ} {b : Book} (hb : t.books[v]? = some b) :
    (∃ w, t.pool.workers[v]? = some w ∧ Fits w b) ∧ ∀ n ∈ b.fromPool, b.all.count n = 1 := by
  obtain ⟨⟨-, hbooked⟩, -, haudit⟩ := h
  have hlt : v < t.pool.workers.length :=
    hbooked.length_eq ▸ (List.getElem?_eq_some_iff.mp hb).1
  have hw := List.getElem?_eq_getElem hlt
  have hsound := (haudit v b hb).1
  exact ⟨⟨_, hw, hbooked.fits hw hb⟩,
    fun n hn => List.count_eq_one_of_mem hsound.nodup (hsound.sent n hn)⟩

/-- **`execute_all` sends exactly one task to each worker of the pool**, whatever the workers do
while it runs: when it is over, each worker that was in the pool has got one new task from it, the
others have got none, and the pool is the same.  The books are those of the workers, and have each
of these tasks once. -/
theorem execute_all_sends {as as' : List Action} {s s₁ t t' : State} (h : machine.Run Heard as s)
    (hcall : machine.step s .executeAll = some s₁) (hexec : machine.exec s₁ as' = some t)
    (has : ∀ a ∈ as', a.wakes = true ∧ a ≠ .allDone) (hdone : machine.step t .allDone = some t') :
    t'.Free ∧ t'.pool.threads = s.pool.threads ∧
      ∀ (v : ℕ) b, s.books[v]? = some b → ∃ b' new, t'.books[v]? = some b' ∧
        b'.fromPool = b.fromPool ++ new ∧ new.length = (if v ∈ s.pool.threads then 1 else 0) ∧
        (∀ n ∈ new, s.next ≤ n ∧ b'.all.count n = 1) ∧
        ∃ w, t'.pool.workers[v]? = some w ∧ Fits w b' := by
  have hheard : Heard s .executeAll := trivial
  have hheard' : Heard t .allDone := trivial
  have haudited := inductive_audited.step (Machine.exec_preserves_within
    (fun _ _ _ hI ha hstep => inductive_audited.step hI (heard_of_wakes ha.1) hstep)
    (inductive_audited.step (inductive_audited.of_run h) hheard hcall) has hexec) hheard' hdone
  have hnodup : s.pool.threads.Nodup := (inductive_kept.of_run h).nodup_threads
  have hbegin : Sending s 0 s₁ := by
    obtain ⟨-, -, hmoves⟩ := step_moves hcall
    cases hmoves with
    | executeAll hfree =>
        exact ⟨rfl, hfree.2, Nat.zero_le _, rfl, le_rfl, fun v b hb => ⟨b, [], hb, by simp⟩⟩
  obtain ⟨i, hsending⟩ := Machine.exec_preserves_within (I := fun t => ∃ i, Sending s i t)
    (fun t a t' ⟨i, h⟩ ha hstep => h.step ha hstep) ⟨0, hbegin⟩ has hexec
  obtain ⟨-, -, hmoves⟩ := step_moves hdone
  cases hmoves with
  | allDone hholder hle =>
      obtain rfl := Holder.executingAll.inj (hholder.symm.trans hsending.holder)
      rw [hsending.threads] at hle
      refine ⟨⟨rfl, hsending.join⟩, hsending.threads, fun v b hb => ?_⟩
      obtain ⟨b', new, hb', hfrom, hlength, hnew⟩ := hsending.sent v b hb
      rw [List.take_of_length_le hle, hnodup.count] at hlength
      obtain ⟨hworker, honce⟩ := with_worker haudited hb'
      refine ⟨b', new, hb', hfrom, hlength, fun n hn => ⟨hnew n hn, honce n ?_⟩, hworker⟩
      exact hfrom ▸ List.mem_append_right _ hn

/-- Two workers, and the first runs its task before the second has got one. -/
def sendingAll : List Action :=
  [.next [] true, .pool (.poll 0), .pool (.tryRecv 0), .pool (.tryRecv 0), .pool (.runOneTask 0),
    .pool (.executeLocal 0 []), .pool (.drop 0 (tlp 0)), .pool (.finish 0), .next [] true]

theorem execute_all_sends_two :
    ∃ s s₁ t', machine.exec machine.init [.new 2, .push .ok, .push .ok, .ret] = some s ∧
      machine.step s .executeAll = some s₁ ∧
      machine.exec s₁ (sendingAll ++ [.allDone]) = some t' ∧ t'.Free ∧
      ∀ (v : ℕ) b, s.books[v]? = some b → ∃ b' new, t'.books[v]? = some b' ∧
        b'.fromPool = b.fromPool ++ new ∧ new.length = (if v ∈ s.pool.threads then 1 else 0) ∧
        (∀ n ∈ new, s.next ≤ n ∧ b'.all.count n = 1) ∧
        ∃ w, t'.pool.workers[v]? = some w ∧ Fits w b' := by
  obtain ⟨s, hexec, hrest⟩ : ∃ s,
      machine.exec machine.init [.new 2, .push .ok, .push .ok, .ret] = some s ∧
        (machine.exec s (.executeAll :: (sendingAll ++ [.allDone]))).isSome :=
    Machine.exec_ends (by decide +kernel)
  obtain ⟨t', hrest⟩ := Option.isSome_iff_exists.mp hrest
  obtain ⟨s₁, hcall, hrest⟩ := Option.bind_eq_some_iff.mp hrest
  obtain ⟨t, hsend, hend⟩ := Option.bind_eq_some_iff.mp (Machine.exec_append.symm.trans hrest)
  obtain ⟨t'', hdone, hlast⟩ := Option.bind_eq_some_iff.mp hend
  obtain rfl := Option.some.inj hlast
  obtain ⟨hfree, -, hbooks⟩ := execute_all_sends (.of_exec (by decide +kernel) hexec) hcall hsend
    (by simp [sendingAll, Action.wakes]) hdone
  exact ⟨s, s₁, t'', hexec, hcall, hrest, hfree, hbooks⟩

end SendersReceivers.Resizing
