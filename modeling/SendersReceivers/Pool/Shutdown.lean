import SendersReceivers.Pool.Audit

/-!
# Pool/Shutdown — what is left of a pool that was joined

Every task that anybody has sent is in the book of one worker, in one place.  A worker returns when
it has nothing left and no handle of it is left anywhere, and it does not come back; `join` is
through when it has seen all of them return.

    threads = []  ──▸  pending_joins = []  ──▸  every worker joined  ──▸  every task has been run
-/

namespace SendersReceivers.Resizing

open Machinery Pool

/-! ## A worker that has returned -/

/-- Worker `v` has returned. -/
def Gone (p : Pool.State) (v : ℕ) : Prop := ∃ w, p.workers[v]? = some w ∧ w.phase = .exited

section Gone

variable {p p' : Pool.State} {u v : ℕ} {w w' : Worker} {l : Pool.Label}

/-- No worker that has returned is changed into one that has not. -/
theorem Gone.put (h : Gone p v) (hw : p.workers[u]? = some w)
    (hkeep : w.phase = .exited → w'.phase = .exited) : Gone (p.put u w') v := by
  obtain ⟨c, hc, hphase⟩ := h
  obtain rfl | hne := eq_or_ne v u
  · obtain rfl := Option.some.inj (hw.symm.trans hc)
    exact ⟨w', Pool.State.workers_put_self hw, hkeep hphase⟩
  · exact ⟨c, by simpa [Pool.State.put, List.getElem?_set_ne hne.symm] using hc, hphase⟩

theorem Gone.withChannel (h : Gone p v) (message : String)
    (f : Channel Task → Except ChannelError (Channel Task)) :
    Gone (p.withChannel u message f) v := by
  unfold Pool.State.withChannel
  split
  next w hw =>
    split
    · exact h.put hw id
    · exact h
  · exact h

theorem Gone.execute (h : Gone p v) (captured : List ℕ) : Gone (p.execute u captured) v :=
  (h.withChannel _ _).withChannel _ _

/-- **A worker that has returned does not come back.** -/
theorem Gone.step (h : Gone p v) (hs : Pool.step p l = some p') : Gone p' v := by
  cases l with
  | shrink =>
      obtain ⟨-, hs⟩ := Pool.State.withPool_eq hs
      obtain ⟨w, -, rfl⟩ := Option.map_eq_some_iff.mp hs
      refine Gone.withChannel ?_ _ _
      exact h
  | grow =>
      obtain ⟨-, hs⟩ := Pool.State.withPool_eq hs
      obtain rfl := Option.some.inj hs
      obtain ⟨w, hw, hphase⟩ := h
      exact ⟨w, List.getElem?_append_left (List.getElem?_eq_some_iff.mp hw).1 ▸ hw, hphase⟩
  | schedule k captured =>
      obtain ⟨-, hs⟩ := Pool.State.withPool_eq hs
      rw [Pool.schedule] at hs
      split_ifs at hs
      · exact Option.some.inj hs ▸ h
      · obtain ⟨u, -, rfl⟩ := Option.map_eq_some_iff.mp hs
        refine Gone.execute ?_ captured
        exact h
  | outsideClone | outsideDrop =>
      simp only [Pool.step, Option.ite_none_right_eq_some, Option.some.injEq] at hs
      obtain ⟨-, rfl⟩ := hs
      refine Gone.withChannel ?_ _ _
      exact h
  | outsideExecute u captured =>
      simp only [Pool.step, Option.ite_none_right_eq_some, Option.some.injEq] at hs
      obtain ⟨-, rfl⟩ := hs
      refine Gone.execute ?_ captured
      exact h
  | poll u =>
      obtain ⟨w, hw, hphase, hs⟩ := Pool.State.withWorker_eq hs
      rw [Pool.poll] at hs
      split_ifs at hs <;> exact Option.some.inj hs ▸ h.put hw (by simp [hphase])
  | tryRecv u =>
      obtain ⟨w, hw, hphase, hs⟩ := Pool.State.withWorker_eq hs
      obtain rfl := Option.some.inj hs
      have hkeep : ∀ w' : Worker, w.phase = .exited → w'.phase = .exited := by simp [hphase]
      rw [Pool.tryRecv]
      split
      · exact h.put hw (hkeep _)
      · split_ifs
        · split <;> exact h.put hw (hkeep _)
        · exact h.put hw (hkeep _)
  | runOneTask u =>
      obtain ⟨w, hw, hphase, hs⟩ := Pool.State.withWorker_eq hs
      obtain rfl := Option.some.inj hs
      rw [Pool.runOneTask]
      split
      · exact h.put hw (by simp [hphase])
      · exact h
  | clone u h' | drop u h' =>
      obtain ⟨w, frame, hw, hphase, -, rfl⟩ := Pool.State.withFrame_eq hs
      exact (h.put hw (by simp [hphase])).withChannel _ _
  | convert u =>
      obtain ⟨w, frame, hw, hphase, -, rfl⟩ := Pool.State.withFrame_eq hs
      exact h.put hw (by simp [hphase])
  | executeLocal u captured =>
      obtain ⟨w, frame, hw, hphase, -, rfl⟩ := Pool.State.withFrame_eq hs
      exact (h.put hw (by simp [hphase])).withChannel _ _
  | executeCross u i captured =>
      obtain ⟨w, frame, hw, hphase, -, rfl⟩ := Pool.State.withFrame_eq hs
      exact (h.put hw (by simp [hphase])).execute captured
  | give u i =>
      obtain ⟨w, frame, hw, hphase, -, rfl⟩ := Pool.State.withFrame_eq hs
      have hput : Gone (p.putFrame u w (frame.erase (cross i))) v := h.put hw (by simp [hphase])
      exact hput
  | finish u =>
      obtain ⟨w, hw, hphase, hs⟩ := Pool.State.withWorker_eq hs
      exact Option.some.inj hs ▸ h.put hw (by simp [hphase])
  | join =>
      cases Pool.joins_of_step hs with
      | leave =>
          refine Gone.withChannel ?_ _ _
          exact h
      | _ => exact h

end Gone

/-! ## Where the tasks are -/

variable {s s' : State} {a : Action} {n : ℕ} {b : Book}

/-- How often task `n` is in the books. -/
def State.entries (s : State) (n : ℕ) : ℕ := weight (fun b => b.all.count n) s.books

/-- **Every task that was sent is in one book, in one place.** -/
def Tallied (s : State) : Prop := ∀ n, s.entries n = if n < s.next then 1 else 0

@[simp] theorem Book.count_all_send (m : ℕ) :
    (b.send m).all.count n = b.all.count n + if m = n then 1 else 0 := by
  simp only [Book.all, Book.send, List.count_append, List.count_singleton, beq_iff_eq]
  omega

@[simp] theorem Book.count_all_sendFromPool (m : ℕ) :
    (b.sendFromPool m).all.count n = b.all.count n + if m = n then 1 else 0 :=
  Book.count_all_send m

@[simp] theorem Book.count_all_executeLocal (m : ℕ) :
    (b.executeLocal m).all.count n = b.all.count n + if m = n then 1 else 0 := by
  simp only [Book.all, Book.executeLocal, List.count_append, List.count_singleton, beq_iff_eq]
  omega

@[simp] theorem Book.count_all_move : b.move.all.count n = b.all.count n := by
  obtain ⟨queue, tasks, running, ran, fromPool, retired⟩ := b
  cases queue with
  | nil => simp [Book.move, Book.all]
  | cons m queue =>
      simp only [Book.move, Book.all, List.tail_cons, List.head?_cons, Option.toList_some,
        List.count_append, List.count_cons, List.count_nil]
      omega

theorem Book.count_all_begin (hb : b.running = none) : b.begin.all.count n = b.all.count n := by
  obtain ⟨queue, tasks, running, ran, fromPool, retired⟩ := b
  obtain rfl : running = none := hb
  cases tasks with
  | nil => simp [Book.begin, Book.all]
  | cons m tasks =>
      simp only [Book.begin, Book.all, List.tail_cons, List.head?_cons, Option.toList_some,
        Option.toList_none, List.count_append, List.count_cons, List.count_nil]
      omega

@[simp] theorem Book.count_all_finish : b.finish.all.count n = b.all.count n := by
  simp only [Book.finish, Book.all, Option.toList_none, List.count_append, List.count_nil]
  omega

/-- Tasks change places in one book. -/
theorem Tallied.modify (h : Tallied s) {v : ℕ} {f : Book → Book}
    (hbooks : s'.books = s.books.modify v f) (hnext : s'.next = s.next)
    (hf : ∀ b, s.books[v]? = some b → ∀ n, (f b).all.count n = b.all.count n) : Tallied s' := by
  intro n
  rw [hnext, ← h n, State.entries, State.entries, hbooks]
  cases hb : s.books[v]? with
  | none => rw [List.modify_eq_self (List.getElem?_eq_none_iff.mp hb)]
  | some b =>
      have hmodify := weight_modify (fun b : Book => b.all.count n) hb f
      rw [hf b hb] at hmodify
      omega

/-- A task comes into the book of a worker that there is. -/
theorem Tallied.note (h : Tallied s) {v : ℕ} {f : ℕ → Book → Book} (hv : v < s.books.length)
    (hf : ∀ b n, (f s.next b).all.count n = b.all.count n + if s.next = n then 1 else 0) :
    Tallied (s.note v f) := by
  intro n
  have hmodify := weight_modify (fun b : Book => b.all.count n) (List.getElem?_eq_getElem hv)
    (f s.next)
  have hnext : (if n < s.next + 1 then 1 else 0) =
      (if n < s.next then 1 else 0) + if s.next = n then 1 else 0 := by
    split_ifs <;> omega
  have hn : weight (fun b : Book => b.all.count n) s.books = if n < s.next then 1 else 0 := h n
  change weight (fun b : Book => b.all.count n) (s.books.modify v (f s.next)) =
    if n < s.next + 1 then 1 else 0
  rw [hf] at hmodify
  rw [hnext]
  omega

theorem Tallied.same (h : Tallied s) (hbooks : s'.books = s.books) (hnext : s'.next = s.next) :
    Tallied s' := fun n => by rw [State.entries, hbooks, hnext]; exact h n

/-- **Workers, and threads that have handles, send tasks to workers that there are.** -/
theorem Tallied.pool (h : Tallied s) (hinv : Pool.Inv [] [] s.pool)
    (hbooked : Booked s.pool s.books) {l : Pool.Label} {pool : Pool.State}
    (hs : Pool.step s.pool l = some pool) (hl : ¬Locks l) :
    Tallied { s.noted l with pool := pool } := by
  have hlength : s.books.length = s.pool.workers.length := hbooked.length_eq.symm
  have hheld : ∀ u, 0 < s.pool.held u → u < s.books.length := by
    intro u hu
    obtain ⟨w, hw, -⟩ := hinv.live (v := u) (Nat.add_pos_left hu _)
    exact hlength ▸ (List.getElem?_eq_some_iff.mp hw).1
  cases l with
  | shrink | grow | schedule => exact absurd trivial hl
  | outsideExecute v captured =>
      simp only [Pool.step, Option.ite_none_right_eq_some] at hs
      have hmem := List.diff_subset _ _ hs.1.2
      refine (h.note (hheld v (Pool.State.held_pos_of_outside hmem)) ?_).same rfl rfl
      exact fun b n => b.count_all_send _
  | executeCross v u captured =>
      obtain ⟨w, frame, hw, hphase, hmem, -⟩ := Pool.State.withFrame_eq hs
      have hmem := Worker.mem_handles_of_frame hphase (List.diff_subset _ _ hmem.2)
      refine (h.note (hheld u (Pool.State.held_pos hw hmem)) ?_).same rfl rfl
      exact fun b n => b.count_all_send _
  | executeLocal v captured =>
      obtain ⟨w, frame, hw, -⟩ := Pool.State.withFrame_eq hs
      have hv : v < s.books.length := hlength ▸ (List.getElem?_eq_some_iff.mp hw).1
      refine (h.note hv ?_).same rfl rfl
      exact fun b n => b.count_all_executeLocal _
  | tryRecv => exact h.modify rfl rfl fun b _ n => b.count_all_move
  | runOneTask v =>
      obtain ⟨w, hw, hphase, -⟩ := Pool.State.withWorker_eq hs
      refine h.modify rfl rfl fun b hb n => Book.count_all_begin ?_
      have hrunning := (hbooked.fits hw hb).running
      simpa [hphase, busy] using hrunning
  | finish => exact h.modify rfl rfl fun b _ n => b.count_all_finish
  | outsideClone | outsideDrop | poll | clone | drop | convert | give | join =>
      exact h.same rfl rfl

/-- A task of the pool goes to a worker that is in it. -/
theorem Tallied.dispatch (h : Tallied s) (hinv : Pool.Inv [] [] s.pool)
    (hbooked : Booked s.pool s.books) {k v : ℕ} (hv : s.pool.threads[k]? = some v) :
    Tallied (s.note v Book.sendFromPool) := by
  have hlt := hinv.lt_of_mem_threads (List.mem_of_getElem? hv)
  exact h.note (hbooked.length_eq ▸ hlt) fun b n => b.count_all_sendFromPool _

/-! ## What `join` has seen -/

/-- `join` has left the loop over `threads`. -/
def leftThreads : Join → Bool
  | .pendingJoins | .waitingPending _ | .done => true
  | _ => false

/-- **Whom `join` has joined is gone**, and what it has emptied stays empty. -/
structure Down (s : State) : Prop where
  joined : ∀ v ∈ s.joined, Gone s.pool v
  threads : leftThreads s.pool.join = true → s.pool.threads = []
  pending : s.pool.join = .done → s.pool.pending_joins = []

theorem Down.before (hjoined : ∀ v ∈ s.joined, Gone s.pool v)
    (hbefore : leftThreads s.pool.join = false) : Down s := by
  refine ⟨hjoined, fun hleft => ?_, fun hdone => ?_⟩
  · simp [hbefore] at hleft
  · simp [hdone, leftThreads] at hbefore

theorem Down.of_core (h : Down s) {l : Pool.Label} (hs : Pool.step s.pool l = some s'.pool)
    (hcore : core s'.pool = core s.pool) (hjoined : s'.joined = s.joined) : Down s' := by
  have hjoin : s'.pool.join = s.pool.join := congrArg Core.join hcore
  have hthreads : s'.pool.threads = s.pool.threads := congrArg Core.threads hcore
  have hpending : s'.pool.pending_joins = s.pool.pending_joins := congrArg Core.pending_joins hcore
  refine ⟨fun v hv => (h.joined v (hjoined ▸ hv)).step hs, ?_, ?_⟩
  · rw [hjoin, hthreads]
    exact h.threads
  · rw [hjoin, hpending]
    exact h.pending

/-- Threads come and go only before `join` is called. -/
theorem Down.of_idle (h : Down s) {l : Pool.Label} (hs : Pool.step s.pool l = some s'.pool)
    (hidle : s'.pool.join = .idle) (hjoined : s'.joined = s.joined) : Down s' :=
  .before (fun v hv => (h.joined v (hjoined ▸ hv)).step hs) (by rw [hidle]; rfl)

theorem Down.join (h : Down s) {pool : Pool.State} (hs : Pool.step s.pool .join = some pool) :
    Down { s.noted .join with pool := pool } := by
  have hgone : ∀ v ∈ s.joined, Gone pool v := fun v hv => (h.joined v hv).step hs
  have hjoined : s.pool.join.waitsFor = [] → ∀ v ∈ (s.noted .join).joined, Gone pool v := by
    intro hnobody v hv
    rw [State.noted, hnobody, List.append_nil] at hv
    exact hgone v hv
  have hwaited : ∀ w c, s.pool.join.waitsFor = [w] → s.pool.workers[w]? = some c →
      c.phase = .exited → ∀ v ∈ (s.noted .join).joined, Gone pool v := by
    intro w c hwaits hc hphase v hv
    rw [State.noted, hwaits] at hv
    obtain hv | hv := List.mem_append.mp hv
    · exact hgone v hv
    · exact Gone.step ⟨c, List.mem_singleton.mp hv ▸ hc, hphase⟩ hs
  cases Pool.joins_of_step hs with
  | lock hjoin | pop hjoin => exact .before (hjoined (by simp [hjoin, Join.waitsFor])) rfl
  | popped hjoin hlast =>
      have hempty : s.pool.threads = [] := List.getLast?_eq_none_iff.mp hlast
      exact ⟨hjoined (by simp [hjoin, Join.waitsFor]), fun _ => hempty, by simp⟩
  | joined hjoin hc hphase =>
      exact .before (hwaited _ _ (by simp [hjoin, Join.waitsFor]) hc hphase) rfl
  | @leave w hjoin =>
      have hback : (Pool.State.dropSender { s.pool with join := .threads } w).join = .threads :=
        congrArg Core.join core_dropSender
      exact .before (hjoined (by simp [hjoin, Join.waitsFor])) (congrArg leftThreads hback)
  | popPending hjoin =>
      have hempty : s.pool.threads = [] := h.threads (by rw [hjoin]; rfl)
      exact ⟨hjoined (by simp [hjoin, Join.waitsFor]), fun _ => hempty, by simp⟩
  | done hjoin hlast =>
      have hempty : s.pool.threads = [] := h.threads (by rw [hjoin]; rfl)
      have hpending : s.pool.pending_joins = [] := List.getLast?_eq_none_iff.mp hlast
      exact ⟨hjoined (by simp [hjoin, Join.waitsFor]), fun _ => hempty, fun _ => hpending⟩
  | joinedPending hjoin hc hphase =>
      have hempty : s.pool.threads = [] := h.threads (by rw [hjoin]; rfl)
      exact ⟨hwaited _ _ (by simp [hjoin, Join.waitsFor]) hc hphase, fun _ => hempty, by simp⟩

theorem inductive_down : machine.Inductive Heard fun s =>
    ((Pool.Inv [] [] s.pool ∧ Booked s.pool s.books) ∧ Kept s) ∧ Tallied s ∧ Down s where
  init := by
    refine ⟨⟨inductive_booked.init, inductive_kept.init⟩, fun n => rfl, .before ?_ rfl⟩
    exact fun v hv => absurd hv List.not_mem_nil
  step s a s' := by
    rintro ⟨⟨hbooked, hkept⟩, htally, h⟩ ha hstep
    refine ⟨⟨inductive_booked.step hbooked ha hstep, inductive_kept.step hkept ha hstep⟩, ?_⟩
    obtain ⟨-, -, hmoves⟩ := step_moves hstep
    cases hmoves with
    | new | resize | ioError | spawnCreating | ret | executeAll | allDone =>
        exact ⟨htally, h.joined, h.threads, h.pending⟩
    | spawn | startEmpty => exact ⟨htally, h.joined, h.threads, h.pending⟩
    | pop _ _ hv _ hpool =>
        obtain ⟨hidle, -⟩ := Pool.State.withPool_eq hpool
        refine ⟨htally.modify rfl rfl fun b _ n => rfl, h.of_idle hpool ?_ rfl⟩
        exact (congrArg Core.join (core_shrink hpool hv)).trans hidle
    | grow _ _ hpool =>
        obtain ⟨hidle, -⟩ := Pool.State.withPool_eq hpool
        refine ⟨fun n => ?_,
          h.of_idle hpool ((congrArg Core.join (core_grow hpool)).trans hidle) rfl⟩
        simpa [State.entries, Book.all, Book.new] using htally n
    | start _ hv hpool | next _ hv hpool =>
        exact ⟨(htally.dispatch hbooked.1 hbooked.2 hv).same rfl rfl,
          h.of_core hpool (core_schedule hpool hv) rfl⟩
    | join _ hpool => exact ⟨htally.pool hbooked.1 hbooked.2 hpool id, h.join hpool⟩
    | pool hl hjoin hpool =>
        exact ⟨htally.pool hbooked.1 hbooked.2 hpool hl,
          h.of_core hpool (core_step hpool hl hjoin) (noted_joined hjoin)⟩
    | popUnheard hv hlast => exact absurd hlast (by simp [ha.not_last hv])
    | startUnheard _ hne => simp [Heard, hne] at ha
    | nextUnheard => cases ha

/-- **A pool that was joined has come to its end**: every worker that was ever started has returned
and was joined once, nothing is queued, nobody has a handle of a worker, and every task that was
ever sent, by the pool, by a task or from outside, has been run, once. -/
theorem join_shuts_down {as : List Action} {s : State} (h : machine.Run Heard as s)
    (hdone : s.pool.join = .done) :
    s.joined.Perm (List.range s.pool.workers.length) ∧
    (∀ w ∈ s.pool.workers, w.phase = .exited ∧ w.channel.cnt_sender = 0 ∧ w.channel.queue = [] ∧
      w.tasks = []) ∧
    s.pool.outside = [] ∧
    (s.books.flatMap Book.ran).Perm (List.range s.next) := by
  obtain ⟨⟨hbooked, hkept⟩, htally, hdown⟩ := inductive_down.of_run h
  have hthreads := hdown.threads (by rw [hdone]; rfl)
  have hjoined : s.joined.Perm (List.range s.pool.workers.length) := by
    simpa [Kept, Core.handles, core, hthreads, hdown.pending hdone, hdone, Join.waitsFor] using
      hkept
  have hexited : ∀ (v : ℕ) w, s.pool.workers[v]? = some w → w.phase = .exited := by
    intro v w hw
    have hv := (List.getElem?_eq_some_iff.mp hw).1
    obtain ⟨c, hc, hphase⟩ := hdown.joined v (hjoined.mem_iff.mpr (List.mem_range.mpr hv))
    obtain rfl := Option.some.inj (hw.symm.trans hc)
    exact hphase
  have hran : ∀ b ∈ s.books, b.ran = b.all := by
    intro b hb
    obtain ⟨v, hb⟩ := List.mem_iff_getElem?.mp hb
    have hv := (List.getElem?_eq_some_iff.mp hb).1
    have hw := List.getElem?_eq_getElem (hbooked.2.length_eq ▸ hv)
    exact ran_of_exited hbooked hw hb (hexited v _ hw)
  refine ⟨hjoined, fun w hw => ?_, List.eq_nil_iff_forall_not_mem.mpr fun v hv => ?_,
    List.perm_iff_count.mpr fun n => ?_⟩
  · obtain ⟨v, hw⟩ := List.mem_iff_getElem?.mp hw
    exact ⟨hexited v w hw, (hbooked.1.ok v w hw).exited (hexited v w hw)⟩
  · obtain ⟨w, hw, -, hphase⟩ :=
      hbooked.1.live (Nat.add_pos_left (Pool.State.held_pos_of_outside hv) _)
    exact hphase (hexited v w hw)
  · have hcount : s.entries n = (s.books.flatMap Book.ran).count n := by
      rw [State.entries, weight_congr _ fun b hb => by rw [← hran b hb], List.count_flatMap]
      rfl
    rw [← hcount, htally n, List.count_range]

/-- One task, and the pool is emptied before it is joined. -/
def shuttingDown : List Action :=
  [.new 1, .push .ok, .ret, .start 0 [] true, .resize 0, .pop true, .ret,
    .pool (.poll 0), .pool (.tryRecv 0), .pool (.tryRecv 0), .pool (.runOneTask 0),
    .pool (.drop 0 (tlp 0)), .pool (.finish 0), .pool .join, .pool .join, .pool .join,
    .pool (.poll 0), .pool (.tryRecv 0), .pool .join, .pool .join]

theorem shutting_down_ends :
    ∃ s, machine.Run Heard shuttingDown s ∧ s.books.length = 1 ∧ s.next = 1 ∧
      (s.books.flatMap Book.ran).Perm (List.range s.next) := by
  obtain ⟨s, hexec, hdone, hlength, hnext⟩ : ∃ s,
      machine.exec machine.init shuttingDown = some s ∧ s.pool.join = .done ∧
        s.books.length = 1 ∧ s.next = 1 := Machine.exec_ends (by decide +kernel)
  have hrun : machine.Run Heard shuttingDown s := .of_exec (by decide +kernel) hexec
  exact ⟨s, hrun, hlength, hnext, (join_shuts_down hrun hdone).2.2.2⟩

end SendersReceivers.Resizing
