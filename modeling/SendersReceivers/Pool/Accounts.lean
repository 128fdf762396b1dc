import SendersReceivers.Pool.Resize

/-!
# Pool/Accounts — resizing keeps its workers, and their books

A worker that was started is in `threads`, in `pending_joins`, or joined, and what is written down
of it is what it does.

    threads ──pop──▸ pending_joins ──join──▸ joined
-/

namespace SendersReceivers.Resizing

open Machinery Pool

/-! ## What a step of the pool leaves alone -/

/-- What the mutex of the pool is for, and how many workers were started. -/
structure Core where
  threads : List ℕ
  pending_joins : List ℕ
  join : Join
  poisoned : Bool
  started : ℕ

/-- The core of a pool. -/
def core (p : Pool.State) : Core :=
  ⟨p.threads, p.pending_joins, p.join, p.poisoned, p.workers.length⟩

section Frame

variable {p p' : Pool.State} {v : ℕ} {l : Pool.Label}

@[simp] theorem core_outside (outside : List ℕ) : core { p with outside := outside } = core p := rfl

@[simp] theorem core_put (w : Worker) : core (p.put v w) = core p := by
  simp [core, Pool.State.put]

@[simp] theorem core_putFrame (w : Worker) (frame : List Handle) :
    core (p.putFrame v w frame) = core p := core_put _

@[simp] theorem core_withChannel (message : String) (f) :
    core (p.withChannel v message f) = core p := by
  unfold Pool.State.withChannel
  split
  · split
    · exact core_put _
    · rfl
  · rfl

@[simp] theorem core_cloneSender : core (p.cloneSender v) = core p := core_withChannel _ _

@[simp] theorem core_dropSender : core (p.dropSender v) = core p := core_withChannel _ _

@[simp] theorem core_execute (captured : List ℕ) : core (p.execute v captured) = core p :=
  (core_withChannel _ _).trans core_cloneSender

/-- **Workers, and threads that have handles, leave the core alone.** -/
theorem core_step (hs : Pool.step p l = some p') (hl : ¬Locks l) (hjoin : l ≠ .join) :
    core p' = core p := by
  cases l with
  | shrink | grow | schedule => exact absurd trivial hl
  | outsideClone | outsideDrop | outsideExecute =>
      simp only [Pool.step, Option.ite_none_right_eq_some, Option.some.injEq] at hs
      obtain ⟨-, rfl⟩ := hs
      simp
  | poll v =>
      obtain ⟨w, -, -, hs⟩ := Pool.State.withWorker_eq hs
      rw [Pool.poll] at hs
      split_ifs at hs <;> exact Option.some.inj hs ▸ core_put _
  | tryRecv v =>
      obtain ⟨w, -, -, hs⟩ := Pool.State.withWorker_eq hs
      obtain rfl := Option.some.inj hs
      rw [Pool.tryRecv]
      split
      · exact core_put _
      · split_ifs
        · split <;> exact core_put _
        · exact core_put _
  | runOneTask v =>
      obtain ⟨w, -, -, hs⟩ := Pool.State.withWorker_eq hs
      obtain rfl := Option.some.inj hs
      rw [Pool.runOneTask]
      split
      · exact core_put _
      · rfl
  | clone | drop | convert | executeLocal | executeCross =>
      obtain ⟨w, frame, -, -, -, rfl⟩ := Pool.State.withFrame_eq hs
      simp
  | give v i =>
      obtain ⟨w, frame, -, -, -, rfl⟩ := Pool.State.withFrame_eq hs
      exact (core_outside _).trans (core_putFrame w _)
  | finish v =>
      obtain ⟨w, -, -, hs⟩ := Pool.State.withWorker_eq hs
      exact Option.some.inj hs ▸ core_put _
  | join => exact absurd rfl hjoin

theorem core_shrink (hs : Pool.step p .shrink = some p') (hv : p.threads.getLast? = some v) :
    core p' = { core p with
      threads := p.threads.dropLast, pending_joins := p.pending_joins ++ [v] } := by
  obtain ⟨-, hs⟩ := Pool.State.withPool_eq hs
  rw [hv, Option.map_some, Option.some.injEq] at hs
  exact hs ▸ core_dropSender

theorem core_grow (hs : Pool.step p .grow = some p') :
    core p' = { core p with
      threads := p.threads ++ [p.workers.length], started := p.workers.length + 1 } := by
  obtain ⟨-, hs⟩ := Pool.State.withPool_eq hs
  obtain rfl := Option.some.inj hs
  simp [core, Pool.State.start]

/-- What a task becomes that the pool sends to its worker `v`. -/
theorem schedule_eq {k : ℕ} {captured : List ℕ}
    (hs : Pool.step p (.schedule k captured) = some p') (hv : p.threads[k]? = some v) :
    captured.Subperm p.outside ∧
      p' = { p with outside := p.outside.diff captured }.execute v captured := by
  obtain ⟨-, hs⟩ := Pool.State.withPool_eq hs
  have hne : p.threads ≠ [] := fun hnil => by simp [hnil] at hv
  simp only [Pool.schedule, if_neg hne, hv, Option.map_some, Option.ite_none_right_eq_some,
    Option.some.injEq] at hs
  exact ⟨hs.1, hs.2.symm⟩

theorem core_schedule {k : ℕ} {captured : List ℕ}
    (hs : Pool.step p (.schedule k captured) = some p') (hv : p.threads[k]? = some v) :
    core p' = core p := by
  obtain ⟨-, rfl⟩ := schedule_eq hs hv
  exact core_execute _

/-- `join` takes handles out of the pool, and leaves the rest alone. -/
theorem core_join (hs : Pool.step p .join = some p') :
    p'.join ≠ .idle ∧ p'.threads ⊆ p.threads ∧ p'.poisoned = p.poisoned := by
  cases Pool.joins_of_step hs with
  | lock | popped | joined | popPending | done | joinedPending =>
      exact ⟨by simp, List.Subset.refl _, rfl⟩
  | pop => exact ⟨by simp, (List.dropLast_sublist _).subset, rfl⟩
  | @leave w hjoin =>
      have hcore := core_dropSender (p := { p with join := .threads }) (v := w)
      simp only [core, Core.mk.injEq] at hcore
      obtain ⟨hthreads, -, hjoin, hpoisoned, -⟩ := hcore
      exact ⟨by rw [hjoin]; simp, fun u hu => hthreads ▸ hu, hpoisoned⟩

end Frame

variable {s s' : State} {a : Action}

/-! ## The handles of the workers are counted -/

/-- No wake fails.  There is one if a task is sent, or if the last handle of a worker is dropped. -/
def Heard (s : State) : Action → Prop
  | .pop wakes => wakes = true ∨ ∀ v ∈ s.pool.threads.getLast?, s.hasLast v = false
  | .start _ _ wakes => wakes = true ∨ s.pool.threads = []
  | .next _ wakes => wakes = true
  | _ => True

theorem Heard.not_last {v : ℕ} (ha : Heard s (.pop false)) (hv : s.pool.threads.getLast? = some v) :
    s.hasLast v = false := by
  obtain ha | ha := ha
  · cases ha
  · exact ha v hv

/-- A panic under the mutex leaves the handles where they are. -/
theorem inv_poison {message : String} (h : Pool.Inv [] [] s.pool) :
    Pool.Inv [] [] (s.poison message).pool :=
  h.move rfl (fun _ => rfl) h.joinable

/-- **The invariant of `Pool/Invariant` stays.** -/
theorem inductive_inv : machine.Inductive Heard fun s => Pool.Inv [] [] s.pool where
  init := Pool.Inv.inductive.init
  step s a s' := by
    intro h ha hstep
    obtain ⟨-, -, hmoves⟩ := step_moves hstep
    cases hmoves with
    | new | resize | ioError | spawnCreating | ret | executeAll | allDone => exact h
    | spawn | startEmpty => exact inv_poison h
    | pop _ _ _ _ hpool | grow _ _ hpool | start _ _ hpool | next _ _ hpool | join _ hpool
    | pool _ _ hpool => exact h.step hpool
    | popUnheard hv hlast => exact absurd hlast (by simp [ha.not_last hv])
    | startUnheard _ hne => simp [Heard, hne] at ha
    | nextUnheard => cases ha

/-! ## The threads -/

/-- The join handles that there are, in the pool or with `join`. -/
def Core.handles (c : Core) : List ℕ := c.threads ++ c.pending_joins ++ c.join.waitsFor

/-- **Every worker that was started has its join handle in one place**, until it is joined. -/
def Kept (s : State) : Prop :=
  ((core s.pool).handles ++ s.joined).Perm (List.range (core s.pool).started)

/-- Handles move, and no worker is started. -/
theorem Kept.of_count (h : Kept s) (hstarted : (core s'.pool).started = (core s.pool).started)
    (hcount : ∀ u, ((core s'.pool).handles ++ s'.joined).count u =
      ((core s.pool).handles ++ s.joined).count u) : Kept s' := by
  refine .trans (List.perm_iff_count.mpr hcount) ?_
  rw [hstarted]
  exact h

theorem Kept.of_core (h : Kept s) (hcore : core s'.pool = core s.pool)
    (hjoined : s'.joined = s.joined) : Kept s' :=
  h.of_count (by rw [hcore]) fun u => by rw [hcore, hjoined]

/-- A worker is in `threads` once. -/
theorem Kept.nodup_threads (h : Kept s) : s.pool.threads.Nodup := by
  have hnodup := h.nodup_iff.mpr List.nodup_range
  simp only [Core.handles, List.append_assoc] at hnodup
  exact (List.nodup_append.mp hnodup).1

theorem Kept.shrink (h : Kept s) {v : ℕ} (hv : s.pool.threads.getLast? = some v)
    (hcore : core s'.pool = { core s.pool with
      threads := s.pool.threads.dropLast, pending_joins := s.pool.pending_joins ++ [v] })
    (hjoined : s'.joined = s.joined) : Kept s' := by
  refine h.of_count (by rw [hcore]) fun u => ?_
  have := count_dropLast hv u
  rw [hcore]
  simp only [hjoined, Core.handles, core, List.count_append] at this ⊢
  omega

theorem Kept.grow (h : Kept s)
    (hcore : core s'.pool = { core s.pool with
      threads := s.pool.threads ++ [s.pool.workers.length]
      started := s.pool.workers.length + 1 })
    (hjoined : s'.joined = s.joined) : Kept s' := by
  unfold Kept at h ⊢
  rw [hcore, List.range_succ]
  refine .trans (List.perm_iff_count.mpr fun u => ?_) (h.append_right [s.pool.workers.length])
  simp only [hjoined, Core.handles, core, List.count_append]
  omega

/-- What `join` takes from the pool it waits for, and what it has waited for is joined. -/
theorem Kept.join (h : Kept s) {pool : Pool.State} (hs : Pool.step s.pool .join = some pool) :
    Kept { s.noted .join with pool := pool } := by
  cases Pool.joins_of_step hs with
  | lock hjoin | popped hjoin | done hjoin =>
      exact h.of_count rfl fun u => by simp [Core.handles, core, State.noted, hjoin, Join.waitsFor]
  | pop hjoin hlast | popPending hjoin hlast =>
      refine h.of_count rfl fun u => ?_
      have := count_dropLast hlast u
      simp only [Core.handles, core, State.noted, hjoin, Join.waitsFor, List.count_append,
        List.count_nil] at this ⊢
      omega
  | joined hjoin | joinedPending hjoin =>
      refine h.of_count rfl fun u => ?_
      simp only [Core.handles, core, State.noted, hjoin, Join.waitsFor, List.count_append,
        List.count_nil]
      omega
  | @leave w hjoin =>
      have hcore := core_dropSender (p := { s.pool with join := .threads }) (v := w)
      refine h.of_count (by rw [hcore]; rfl) fun u => ?_
      simp only [hcore]
      simp [Core.handles, core, State.noted, hjoin, Join.waitsFor]

theorem noted_joined {l : Pool.Label} (hjoin : l ≠ .join) : (s.noted l).joined = s.joined := by
  cases l with
  | join => exact absurd rfl hjoin
  | _ => rfl

theorem inductive_kept : machine.Inductive Heard Kept where
  init := .refl _
  step s a s' := by
    intro h ha hstep
    obtain ⟨-, -, hmoves⟩ := step_moves hstep
    cases hmoves with
    | new | resize | ioError | spawnCreating | ret | executeAll | allDone => exact h
    | spawn | startEmpty => exact h
    | pop _ _ hv _ hpool => exact h.shrink hv (core_shrink hpool hv) rfl
    | grow _ _ hpool => exact h.grow (core_grow hpool) rfl
    | start _ hv hpool | next _ hv hpool => exact h.of_core (core_schedule hpool hv) rfl
    | join _ hpool => exact h.join hpool
    | pool hl hjoin hpool => exact h.of_core (core_step hpool hl hjoin) (noted_joined hjoin)
    | popUnheard hv hlast => exact absurd hlast (by simp [ha.not_last hv])
    | startUnheard _ hne => simp [Heard, hne] at ha
    | nextUnheard => cases ha

/-! ## The books are those of the workers -/

/-- Whether a worker runs a task. -/
def busy : Phase → Bool
  | .running _ => true
  | _ => false

/-- The book of a worker. -/
structure Fits (w : Worker) (b : Book) : Prop where
  queue : b.queue.length = w.channel.queue.length
  tasks : b.tasks.length = w.tasks.length
  running : b.running.isSome = busy w.phase

/-- Each worker has its book. -/
def Booked (p : Pool.State) (books : List Book) : Prop := List.Forall₂ Fits p.workers books

theorem forall₂_set_modify {α β : Type} {R : α → β → Prop} {l : List α} {k : List β} {i : ℕ}
    {x x' : α} {f : β → β} (h : List.Forall₂ R l k) (hx : l[i]? = some x)
    (hf : ∀ y, R x y → R x' (f y)) : List.Forall₂ R (l.set i x') (k.modify i f) := by
  induction h generalizing i with
  | nil => simp at hx
  | cons hxy h ih =>
      cases i with
      | zero =>
          obtain rfl := Option.some.inj hx
          exact .cons (hf _ hxy) h
      | succ i => exact .cons hxy (ih hx)

theorem forall₂_modify {α β : Type} {R : α → β → Prop} {l : List α} {k : List β} (i : ℕ)
    {f : β → β} (h : List.Forall₂ R l k) (hf : ∀ x y, R x y → R x (f y)) :
    List.Forall₂ R l (k.modify i f) := by
  induction h generalizing i with
  | nil => simp
  | cons hxy h ih =>
      cases i with
      | zero => exact .cons (hf _ _ hxy) h
      | succ i => exact .cons hxy (ih i)

section Booked

variable {p p' : Pool.State} {books : List Book} {v : ℕ} {w w' : Worker} {f : Book → Book}

theorem Booked.put (h : Booked p books) (hw : p.workers[v]? = some w)
    (hf : ∀ b, Fits w b → Fits w' (f b)) : Booked (p.put v w') (books.modify v f) :=
  forall₂_set_modify h hw hf

/-- A worker changes, but not what its book is about. -/
theorem Booked.keep (h : Booked p books) (hw : p.workers[v]? = some w)
    (hf : ∀ b, Fits w b → Fits w' b) : Booked (p.put v w') books := by
  have hput : Booked (p.put v w') (books.modify v id) := h.put hw hf
  rwa [List.modify_id] at hput

theorem Booked.withChannel (h : Booked p books) (message : String)
    {g : Channel Task → Except ChannelError (Channel Task)}
    (hg : ∀ c c', g c = .ok c' → c'.queue = c.queue) :
    Booked (p.withChannel v message g) books := by
  unfold Pool.State.withChannel
  split
  next w hw =>
    split
    next c hc => exact h.keep hw fun b hb => ⟨by rw [hb.queue, hg _ _ hc], hb.tasks, hb.running⟩
    next => exact h
  next => exact h

theorem Booked.cloneSender (h : Booked p books) : Booked (p.cloneSender v) books :=
  h.withChannel _ fun _ _ hc => by rw [← Except.ok.inj hc]; rfl

theorem Booked.dropSender (h : Booked p books) : Booked (p.dropSender v) books :=
  h.withChannel _ fun c c' hc => by
    rw [Channel.dropSender] at hc
    split_ifs at hc
    obtain rfl := Except.ok.inj hc
    split_ifs <;> rfl

theorem Booked.execute {captured hand : List ℕ} (h : Booked p books)
    (hinv : Pool.Inv [] (captured ++ hand) p) (hv : 0 < p.held v + (captured ++ hand).count v)
    (hf : ∀ b : Book, (f b).queue.length = b.queue.length + 1 ∧ (f b).tasks = b.tasks ∧
      (f b).running = b.running) : Booked (p.execute v captured) (books.modify v f) := by
  obtain ⟨w, hw, heq⟩ := hinv.execute_eq hv
  rw [heq]
  refine h.put hw fun b hb => ?_
  obtain ⟨hqueue, htasks, hrunning⟩ := hf b
  exact ⟨by simp [hqueue, hb.queue], by simp [htasks, hb.tasks], by simp [hrunning, hb.running]⟩

theorem Booked.poll (h : Booked p books) (hw : p.workers[v]? = some w)
    (hphase : w.phase = .polling) (hs : Pool.poll p v w = some p') : Booked p' books := by
  rw [Pool.poll] at hs
  split_ifs at hs <;> obtain rfl := Option.some.inj hs <;>
    exact h.keep hw fun b hb => ⟨hb.queue, hb.tasks, by simpa [busy, hphase] using hb.running⟩

theorem Booked.tryRecv (h : Booked p books) (hw : p.workers[v]? = some w)
    (hphase : w.phase = .draining) : Booked (Pool.tryRecv p v w) (books.modify v Book.move) := by
  have hmove : ∀ b : Book, b.queue = [] → b.move = b := by
    rintro ⟨_, tasks, running, ran, fromPool, retired⟩ rfl
    simp [Book.move]
  rw [Pool.tryRecv, Channel.tryPop]
  rcases hqueue : w.channel.queue with _ | ⟨task, queue⟩
  · have hf : ∀ (w' : Worker), w'.channel.queue = [] → w'.tasks = w.tasks → busy w'.phase = false →
        ∀ b, Fits w b → Fits w' b.move := by
      intro w' hq ht hp b hb
      rw [hmove b (List.length_eq_zero_iff.mp (by simp [hb.queue, hqueue]))]
      exact ⟨by rw [hb.queue, hq, hqueue], by rw [hb.tasks, ht],
        by rw [hb.running, hp, hphase]; rfl⟩
    split_ifs
    · exact h.put hw (hf _ hqueue rfl rfl)
    · exact h.put hw (hf _ hqueue rfl rfl)
    · exact h.put hw (hf _ hqueue rfl rfl)
    · exact h.put hw (hf _ hqueue rfl rfl)
  · refine h.put hw fun b hb => ?_
    obtain ⟨n, ns, hb'⟩ : ∃ n ns, b.queue = n :: ns :=
      List.exists_cons_of_length_pos (by simp [hb.queue, hqueue])
    have hlength := hb.queue
    rw [hb', hqueue] at hlength
    exact ⟨by simpa [Book.move, hb'] using hlength, by simp [Book.move, hb', hb.tasks], hb.running⟩

theorem Booked.runOneTask (h : Booked p books) (hw : p.workers[v]? = some w)
    (hready : w.tasks ≠ []) :
    Booked (Pool.runOneTask p v w) (books.modify v Book.begin) := by
  obtain ⟨task, tasks, htasks⟩ := List.exists_cons_of_ne_nil hready
  simp only [Pool.runOneTask, htasks]
  refine h.put hw fun b hb => ?_
  obtain ⟨n, ns, hb'⟩ : ∃ n ns, b.tasks = n :: ns :=
    List.exists_cons_of_length_pos (by simp [hb.tasks, htasks])
  have hlength := hb.tasks
  rw [hb', htasks] at hlength
  exact ⟨hb.queue, by simpa [Book.begin, hb'] using hlength, by simp [Book.begin, hb', busy]⟩

theorem Booked.joinStep (h : Booked p books) (hs : Pool.joinStep p = some p') :
    Booked p' books := by
  cases Pool.joins_of_step hs with
  | leave => exact Booked.dropSender h
  | _ => exact h

end Booked

/-- A task that is sent, by whomever. -/
theorem Book.send_eq (n : ℕ) (b : Book) : (b.send n).queue.length = b.queue.length + 1 ∧
    (b.send n).tasks = b.tasks ∧ (b.send n).running = b.running :=
  ⟨by simp [Book.send], rfl, rfl⟩

/-- **What is written down of a step is what the workers did.** -/
theorem Booked.step {l : Pool.Label} {pool : Pool.State} (h : Booked s.pool s.books)
    (hinv : Pool.Inv [] [] s.pool) (hs : Pool.step s.pool l = some pool) (hl : ¬Locks l) :
    Booked pool (s.noted l).books := by
  cases l with
  | shrink | grow | schedule => exact absurd trivial hl
  | outsideClone v =>
      simp only [Pool.step, Option.ite_none_right_eq_some, Option.some.injEq] at hs
      obtain ⟨-, rfl⟩ := hs
      exact Booked.cloneSender h
  | outsideDrop v =>
      simp only [Pool.step, Option.ite_none_right_eq_some, Option.some.injEq] at hs
      obtain ⟨-, rfl⟩ := hs
      exact Booked.dropSender h
  | outsideExecute v captured =>
      simp only [Pool.step, Option.ite_none_right_eq_some, Option.some.injEq] at hs
      obtain ⟨⟨hsub, hmem⟩, rfl⟩ := hs
      exact Booked.execute (p := { s.pool with outside := s.pool.outside.diff captured }) h
        (hinv.take hsub) (Nat.add_pos_left (Pool.State.held_pos_of_outside hmem) _)
        (Book.send_eq s.next)
  | poll v =>
      obtain ⟨w, hw, hphase, hs⟩ := Pool.State.withWorker_eq hs
      exact h.poll hw hphase hs
  | tryRecv v =>
      obtain ⟨w, hw, hphase, hs⟩ := Pool.State.withWorker_eq hs
      exact Option.some.inj hs ▸ h.tryRecv hw hphase
  | runOneTask v =>
      obtain ⟨w, hw, hphase, hs⟩ := Pool.State.withWorker_eq hs
      exact Option.some.inj hs ▸ h.runOneTask hw ((hinv.ok v w hw).ready hphase)
  | clone v h' =>
      obtain ⟨w, frame, hw, hphase, -, rfl⟩ := Pool.State.withFrame_eq hs
      refine Booked.cloneSender (h.keep hw fun b hb => ⟨hb.queue, hb.tasks, ?_⟩)
      rw [hb.running, hphase, busy, busy]
  | drop v h' =>
      obtain ⟨w, frame, hw, hphase, -, rfl⟩ := Pool.State.withFrame_eq hs
      refine Booked.dropSender (h.keep hw fun b hb => ⟨hb.queue, hb.tasks, ?_⟩)
      rw [hb.running, hphase, busy, busy]
  | convert v =>
      obtain ⟨w, frame, hw, hphase, -, rfl⟩ := Pool.State.withFrame_eq hs
      refine h.keep hw fun b hb => ⟨hb.queue, hb.tasks, ?_⟩
      rw [hb.running, hphase, busy, busy]
  | executeLocal v captured =>
      obtain ⟨w, frame, hw, hphase, -, rfl⟩ := Pool.State.withFrame_eq hs
      refine Booked.cloneSender (h.put hw fun b hb => ⟨hb.queue, ?_, ?_⟩)
      · simp [Book.executeLocal, hb.tasks]
      · rw [Book.executeLocal, hb.running, hphase, busy, busy]
  | executeCross v u captured =>
      obtain ⟨w, frame, hw, hphase, ⟨hsub, hmem⟩, rfl⟩ := Pool.State.withFrame_eq hs
      have hkeep : Booked (s.pool.putFrame v w (frame.diff (captured.map cross))) s.books := by
        refine h.keep hw fun b hb => ⟨hb.queue, hb.tasks, ?_⟩
        rw [hb.running, hphase, busy, busy]
      exact hkeep.execute (hinv.takeFrame hw hphase hsub)
        (Nat.add_pos_left (Pool.State.held_pos_of_frame hw hmem) _) (Book.send_eq s.next)
  | give v u =>
      obtain ⟨w, frame, hw, hphase, -, rfl⟩ := Pool.State.withFrame_eq hs
      refine h.keep hw fun b hb => ⟨hb.queue, hb.tasks, ?_⟩
      rw [hb.running, hphase, busy, busy]
  | finish v =>
      obtain ⟨w, hw, hphase, hs⟩ := Pool.State.withWorker_eq hs
      refine Option.some.inj hs ▸ h.put hw fun b hb => ⟨hb.queue, hb.tasks, rfl⟩
  | join => exact h.joinStep hs

/-- The task that the pool sends is written down too. -/
theorem Booked.schedule {k v : ℕ} {captured : List ℕ} {pool : Pool.State}
    (h : Booked s.pool s.books) (hinv : Pool.Inv [] [] s.pool)
    (hs : Pool.step s.pool (.schedule k captured) = some pool)
    (hv : s.pool.threads[k]? = some v) :
    Booked pool (s.note v Book.sendFromPool).books := by
  obtain ⟨hsub, rfl⟩ := schedule_eq hs hv
  refine Booked.execute (p := { s.pool with outside := s.pool.outside.diff captured }) h
    (hinv.take hsub) ?_ (Book.send_eq s.next)
  have := List.count_pos_iff.mpr (List.mem_of_getElem? hv)
  simp only [Pool.State.held]
  omega

theorem inductive_booked : machine.Inductive Heard fun s =>
    Pool.Inv [] [] s.pool ∧ Booked s.pool s.books where
  init := ⟨Pool.Inv.inductive.init, .nil⟩
  step s a s' := by
    rintro ⟨hinv, h⟩ ha hstep
    refine ⟨inductive_inv.step hinv ha hstep, ?_⟩
    obtain ⟨-, -, hmoves⟩ := step_moves hstep
    cases hmoves with
    | new | resize | ioError | spawnCreating | ret | executeAll | allDone => exact h
    | spawn | startEmpty => exact h
    | pop _ _ hv _ hpool =>
        obtain ⟨-, hs⟩ := Pool.State.withPool_eq hpool
        rw [hv, Option.map_some, Option.some.injEq] at hs
        refine forall₂_modify _ ?_ fun w b hb => ⟨hb.queue, hb.tasks, hb.running⟩
        exact hs ▸ Booked.dropSender h
    | grow _ _ hpool =>
        obtain ⟨-, hs⟩ := Pool.State.withPool_eq hpool
        obtain rfl := Option.some.inj hs
        exact List.rel_append h (.cons ⟨rfl, rfl, rfl⟩ .nil)
    | start _ hv hpool | next _ hv hpool => exact h.schedule hinv hpool hv
    | join _ hpool => exact h.step hinv hpool id
    | pool hl _ hpool => exact h.step hinv hpool hl
    | popUnheard hv hlast => exact absurd hlast (by simp [ha.not_last hv])
    | startUnheard _ hne => simp [Heard, hne] at ha
    | nextUnheard => cases ha

end SendersReceivers.Resizing
