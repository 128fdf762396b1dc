import Mathlib.Data.List.Nodup
import SendersReceivers.Pool.Accounts

/-!
# Pool/Audit — what resizing loses: neither threads nor tasks

A task that was sent to a worker goes from its channel to its own queue and is run; the worker
returns when both are empty.  The pool sends nothing to a worker that it has retired, and when
nobody else has a handle of that worker it never sleeps again.

    fromPool  ⊆   queue  ++  tasks  ++  running  ++  ran
-/

namespace SendersReceivers.Resizing

open Machinery Pool

/-! ## No task is lost, and none is run twice -/

/-- The tasks a worker was given, wherever they are. -/
def Book.all (b : Book) : List ℕ := b.queue ++ b.tasks ++ b.running.toList ++ b.ran

/-- A book that is right, where `next` is the number of the next task: each task is in one place,
and the pool has sent nothing since the worker was retired. -/
structure Book.Sound (next : ℕ) (b : Book) : Prop where
  nodup : b.all.Nodup
  fresh : ∀ n ∈ b.all, n < next
  sent : ∀ n ∈ b.fromPool, n ∈ b.all
  retired : ∀ l, b.retired = some l → l = b.fromPool

variable {s s' : State} {a : Action} {next : ℕ} {b b' : Book}

theorem Book.Sound.new : Book.new.Sound next where
  nodup := by simp [Book.new, Book.all]
  fresh := by simp [Book.new, Book.all]
  sent := by simp [Book.new]
  retired := by simp [Book.new]

/-- Tasks change places. -/
theorem Book.Sound.of_perm (h : b.Sound next) (hperm : b'.all.Perm b.all)
    (hfrom : b'.fromPool = b.fromPool) (hretired : b'.retired = b.retired) : b'.Sound next where
  nodup := hperm.nodup_iff.mpr h.nodup
  fresh n hn := h.fresh n (hperm.mem_iff.mp hn)
  sent n hn := hperm.mem_iff.mpr (h.sent n (hfrom ▸ hn))
  retired l hl := hfrom ▸ h.retired l (hretired ▸ hl)

/-- A new task comes in. -/
theorem Book.Sound.add (h : b.Sound next) (hperm : b'.all.Perm (next :: b.all))
    (hfrom : ∀ n ∈ b'.fromPool, n = next ∨ n ∈ b.fromPool)
    (hretired : ∀ l, b'.retired = some l → l = b'.fromPool) : b'.Sound (next + 1) where
  nodup := hperm.nodup_iff.mpr
    (List.nodup_cons.mpr ⟨fun hmem => lt_irrefl _ (h.fresh next hmem), h.nodup⟩)
  fresh n hn := by
    obtain rfl | hn := List.mem_cons.mp (hperm.mem_iff.mp hn)
    · exact Nat.lt_succ_self n
    · exact Nat.lt_succ_of_lt (h.fresh n hn)
  sent n hn := by
    refine hperm.mem_iff.mpr (List.mem_cons.mpr ?_)
    exact (hfrom n hn).imp_right (h.sent n)
  retired := hretired

theorem Book.Sound.mono (h : b.Sound next) {next' : ℕ} (hle : next ≤ next') : b.Sound next' :=
  { h with fresh := fun n hn => (h.fresh n hn).trans_le hle }

theorem Book.Sound.send (h : b.Sound next) : (b.send next).Sound (next + 1) := by
  refine h.add ?_ (fun n hn => .inr hn) h.retired
  simp only [Book.all, Book.send, List.append_assoc]
  exact List.perm_middle

theorem Book.Sound.sendFromPool (h : b.Sound next) (hb : b.retired = none) :
    (b.sendFromPool next).Sound (next + 1) := by
  refine h.add ?_ (fun n hn => ?_) fun l hl => ?_
  · simp only [Book.all, Book.sendFromPool, Book.send, List.append_assoc]
    exact List.perm_middle
  · exact (List.mem_append.mp hn).symm.imp_left List.mem_singleton.mp
  · exact absurd (hb.symm.trans hl) (by simp)

theorem Book.Sound.executeLocal (h : b.Sound next) : (b.executeLocal next).Sound (next + 1) := by
  refine h.add ?_ (fun n hn => .inr hn) h.retired
  simp only [Book.all, Book.executeLocal, List.append_assoc]
  exact (List.perm_middle.append_left b.queue).trans List.perm_middle

theorem Book.Sound.move (h : b.Sound next) : b.move.Sound next := by
  refine h.of_perm ?_ rfl rfl
  obtain ⟨queue, tasks, running, ran, fromPool, retired⟩ := b
  cases queue with
  | nil => simp [Book.move, Book.all]
  | cons n queue =>
      simp only [Book.move, Book.all, List.tail_cons, List.head?_cons, Option.toList_some,
        List.append_assoc, List.cons_append, List.nil_append]
      exact (List.perm_middle.append_left queue).trans List.perm_middle

/-- …unless a task is running already. -/
theorem Book.Sound.begin (h : b.Sound next) (hb : b.running = none) : b.begin.Sound next := by
  refine h.of_perm ?_ rfl rfl
  obtain ⟨queue, tasks, running, ran, fromPool, retired⟩ := b
  obtain rfl : running = none := hb
  cases tasks with
  | nil => simp [Book.begin, Book.all]
  | cons n tasks =>
      simp only [Book.begin, Book.all, List.tail_cons, List.head?_cons, Option.toList_some,
        Option.toList_none, List.append_assoc, List.cons_append, List.nil_append]
      exact List.perm_middle.append_left queue

theorem Book.Sound.finish (h : b.Sound next) : b.finish.Sound next := by
  refine h.of_perm ?_ rfl rfl
  simp only [Book.finish, Book.all, Option.toList_none, List.append_nil]
  refine (List.perm_append_comm.append_left _).trans ?_
  simp

theorem Book.Sound.retire (h : b.Sound next) : b.retire.Sound next :=
  { h with retired := fun _ hl => (Option.some.inj hl).symm }

/-- Every book is right, and a worker that is retired is in the pool no more. -/
def Audited (s : State) : Prop :=
  ∀ v b, s.books[v]? = some b → b.Sound s.next ∧ (b.retired ≠ none → v ∉ s.pool.threads)

/-- One book changes. -/
theorem Audited.modify (h : Audited s) {v : ℕ} {f : Book → Book}
    (hbooks : s'.books = s.books.modify v f) (hthreads : s'.pool.threads ⊆ s.pool.threads)
    (hnext : s.next ≤ s'.next)
    (hf : ∀ b, s.books[v]? = some b → b.Sound s.next →
      (f b).Sound s'.next ∧ ((f b).retired ≠ none → b.retired ≠ none ∨ v ∉ s'.pool.threads)) :
    Audited s' := by
  intro u b hb
  rw [hbooks, List.getElem?_modify] at hb
  obtain ⟨c, hc, rfl⟩ := Option.map_eq_some_iff.mp hb
  obtain ⟨hsound, hretired⟩ := h u c hc
  by_cases huv : v = u
  · subst huv
    obtain ⟨hsound, hf⟩ := hf c hc hsound
    rw [if_pos rfl]
    refine ⟨hsound, fun hne hmem => ?_⟩
    obtain hne | hnot := hf hne
    · exact hretired hne (hthreads hmem)
    · exact hnot hmem
  · rw [if_neg huv]
    exact ⟨hsound.mono hnext, fun hne hmem => hretired hne (hthreads hmem)⟩

/-- The new worker's book is empty. -/
theorem Audited.grow (h : Audited s) {pool : Pool.State}
    (hlength : s.books.length = s.pool.workers.length)
    (hthreads : pool.threads = s.pool.threads ++ [s.pool.workers.length]) :
    Audited { s with pool := pool, books := s.books ++ [.new] } := by
  intro u b hb
  simp only [List.getElem?_append] at hb
  split_ifs at hb with hlt
  · refine ⟨(h u b hb).1, fun hne hmem => ?_⟩
    rw [hthreads] at hmem
    obtain hmem | hmem := List.mem_append.mp hmem
    · exact (h u b hb).2 hne hmem
    · rw [List.mem_singleton] at hmem
      omega
  · rw [List.getElem?_singleton] at hb
    split_ifs at hb
    obtain rfl := Option.some.inj hb
    exact ⟨.new, fun hne => absurd rfl hne⟩

/-- A worker that is in the pool gets a task from it. -/
theorem Audited.dispatch (h : Audited s) {k v : ℕ} {pool : Pool.State}
    (hv : s.pool.threads[k]? = some v) (hcore : core pool = core s.pool) :
    Audited { s.note v Book.sendFromPool with pool := pool } := by
  have hthreads : pool.threads = s.pool.threads := congrArg Core.threads hcore
  have hnone : ∀ b, s.books[v]? = some b → b.retired = none := by
    intro b hb
    by_contra hne
    exact (h v b hb).2 hne (List.mem_of_getElem? hv)
  refine h.modify rfl (fun u hu => hthreads ▸ hu) (Nat.le_succ _) fun b hb hsound => ?_
  exact ⟨hsound.sendFromPool (hnone b hb), fun hne => absurd (hnone b hb) hne⟩

/-- Nothing is written down. -/
theorem Audited.same (h : Audited s) (hbooks : s'.books = s.books) (hnext : s'.next = s.next)
    (hthreads : s'.pool.threads ⊆ s.pool.threads) : Audited s' := by
  intro u b hb
  rw [hbooks] at hb
  rw [hnext]
  exact ⟨(h u b hb).1, fun hne hmem => (h u b hb).2 hne (hthreads hmem)⟩

/-- A worker that is about to run a task runs none. -/
theorem Booked.fits {p : Pool.State} {books : List Book} (h : Booked p books) {v : ℕ} {w : Worker}
    (hw : p.workers[v]? = some w) (hb : books[v]? = some b) : Fits w b := by
  obtain ⟨hi, rfl⟩ := List.getElem?_eq_some_iff.mp hw
  obtain ⟨hj, rfl⟩ := List.getElem?_eq_some_iff.mp hb
  exact h.get hi hj

theorem Audited.pool (h : Audited s) (hbooked : Booked s.pool s.books) {l : Pool.Label}
    {pool : Pool.State} (hs : Pool.step s.pool l = some pool) (hl : ¬Locks l)
    (hthreads : pool.threads ⊆ s.pool.threads) : Audited { s.noted l with pool := pool } := by
  cases l with
  | shrink | grow | schedule => exact absurd trivial hl
  | outsideExecute | executeCross =>
      exact h.modify rfl hthreads (Nat.le_succ _) fun b _ hsound => ⟨hsound.send, .inl⟩
  | executeLocal =>
      exact h.modify rfl hthreads (Nat.le_succ _) fun b _ hsound => ⟨hsound.executeLocal, .inl⟩
  | tryRecv => exact h.modify rfl hthreads le_rfl fun b _ hsound => ⟨hsound.move, .inl⟩
  | runOneTask v =>
      obtain ⟨w, hw, hphase, -⟩ := Pool.State.withWorker_eq hs
      refine h.modify rfl hthreads le_rfl fun b hb hsound => ⟨hsound.begin ?_, .inl⟩
      have hrunning := (hbooked.fits hw hb).running
      simpa [hphase, busy] using hrunning
  | finish => exact h.modify rfl hthreads le_rfl fun b _ hsound => ⟨hsound.finish, .inl⟩
  | outsideClone | outsideDrop | poll | clone | drop | convert | give | join =>
      exact h.same rfl rfl hthreads

theorem inductive_audited : machine.Inductive Heard fun s =>
    (Pool.Inv [] [] s.pool ∧ Booked s.pool s.books) ∧ Kept s ∧ Audited s where
  init := ⟨inductive_booked.init, inductive_kept.init, fun _ _ hb => by simp [machine] at hb⟩
  step s a s' := by
    rintro ⟨hbooked, hkept, h⟩ ha hstep
    refine ⟨inductive_booked.step hbooked ha hstep, inductive_kept.step hkept ha hstep, ?_⟩
    obtain ⟨-, -, hmoves⟩ := step_moves hstep
    cases hmoves with
    | new | resize | ioError | spawnCreating | ret | executeAll | allDone => exact h
    | spawn | startEmpty => exact h
    | @pop _ _ _ v _ pool _ _ hv _ hpool =>
        have hthreads : pool.threads = s.pool.threads.dropLast :=
          congrArg Core.threads (core_shrink hpool hv)
        have hlast := hkept.nodup_threads
        rw [← List.dropLast_append_getLast? v hv] at hlast
        refine h.modify rfl ?_ le_rfl fun b _ hsound => ⟨hsound.retire, fun _ => .inr ?_⟩
        · exact fun u hu => (List.dropLast_sublist _).subset (hthreads ▸ hu)
        · intro hmem
          change v ∈ pool.threads at hmem
          rw [hthreads] at hmem
          exact (List.nodup_append.mp hlast).2.2 v hmem v (List.mem_singleton_self v) rfl
    | grow _ _ hpool =>
        exact h.grow hbooked.2.length_eq.symm (congrArg Core.threads (core_grow hpool))
    | start _ hv hpool => exact h.dispatch hv (core_schedule hpool hv)
    | next _ hv hpool => exact h.dispatch hv (core_schedule hpool hv)
    | join _ hpool => exact h.pool hbooked.2 hpool id (core_join hpool).2.1
    | @pool _ pool hl hjoin hpool =>
        have hthreads : pool.threads = s.pool.threads :=
          congrArg Core.threads (core_step hpool hl hjoin)
        exact h.pool hbooked.2 hpool hl fun u hu => hthreads ▸ hu
    | popUnheard hv hlast => exact absurd hlast (by simp [ha.not_last hv])
    | startUnheard _ hne => simp [Heard, hne] at ha
    | nextUnheard => cases ha

/-! ## How many threads there are -/

/-- What the calls of `set_thread_count` have returned and left. -/
structure Sized (s : State) : Prop where
  join : s.holder ≠ .free → s.pool.join = .idle
  old_size : ∀ creating old_size m, s.holder = .resizing creating old_size m → old_size = s.size
  size : (∀ creating old_size m, s.holder ≠ .resizing creating old_size m) → s.holder ≠ .failed →
    s.pool.join = .idle → s.pool.threads.length = s.size
  calls : ∀ c ∈ s.calls, ∀ n, c.returned = some n → n = c.before ∧ c.after = c.thread_count

theorem State.size_resized (s : State) (m : ℕ) (returned : Option ℕ) (holder : Holder) :
    { s.resized m returned with holder := holder }.size = s.pool.threads.length := by
  simp [State.size, State.resized]

/-- The holder goes on, and the threads stay. -/
theorem Sized.hold (h : Sized s) {holder : Holder} (hfree : s.holder ≠ .free ∨ s.Free)
    (hold : ∀ creating old_size m, holder = .resizing creating old_size m →
      old_size = s.pool.threads.length)
    (hne : ∀ creating old_size m, s.holder ≠ .resizing creating old_size m)
    (hok : s.holder ≠ .failed) : Sized { s with holder := holder } := by
  have hidle : s.pool.join = .idle := hfree.elim h.join fun hfree => hfree.2
  refine ⟨fun _ => hidle, fun c o m hc => ?_, fun _ _ _ => h.size hne hok hidle, h.calls⟩
  exact (hold c o m hc).trans (h.size hne hok hidle)

/-- The pool changes, but not its threads. -/
theorem Sized.of_core (h : Sized s) (hcore : core s'.pool = core s.pool)
    (hholder : s'.holder = s.holder) (hcalls : s'.calls = s.calls) : Sized s' := by
  have hjoin : s'.pool.join = s.pool.join := congrArg Core.join hcore
  have hthreads : s'.pool.threads = s.pool.threads := congrArg Core.threads hcore
  have hsize : s'.size = s.size := by rw [State.size, State.size, hcalls]
  exact {
    join := by rw [hholder, hjoin]; exact h.join
    old_size := by rw [hholder, hsize]; exact h.old_size
    size := by rw [hholder, hjoin, hthreads, hsize]; exact h.size
    calls := by rw [hcalls]; exact h.calls }

/-- One iteration of either loop. -/
theorem Sized.resizing (h : Sized s) {creating : Bool} {old_size m : ℕ}
    (hholder : s.holder = .resizing creating old_size m) (hholder' : s'.holder = s.holder)
    (hjoin : s'.pool.join = s.pool.join) (hcalls : s'.calls = s.calls) : Sized s' := by
  have hsize : s'.size = s.size := by rw [State.size, State.size, hcalls]
  exact {
    join := by rw [hholder', hjoin]; exact h.join
    old_size := by rw [hholder', hsize]; exact h.old_size
    size := fun hne _ _ => absurd (hholder'.trans hholder) (hne creating old_size m)
    calls := by rw [hcalls]; exact h.calls }

/-- `set_thread_count` is over. -/
theorem Sized.resized (h : Sized s) {creating : Bool} {old_size m : ℕ} {returned : Option ℕ}
    {holder : Holder} (hholder : s.holder = .resizing creating old_size m)
    (hreturned : ∀ n, returned = some n → n = old_size ∧ s.pool.threads.length = m)
    (hfree : ∀ c o m, holder ≠ .resizing c o m) :
    Sized { s.resized m returned with holder := holder } := by
  refine ⟨fun _ => h.join (by simp [hholder]), fun c o m hc => absurd hc (hfree c o m),
    fun _ _ _ => (State.size_resized s m returned holder).symm, fun c hc n hn => ?_⟩
  obtain hc | hc := List.mem_append.mp hc
  · exact h.calls c hc n hn
  · obtain rfl := List.mem_singleton.mp hc
    obtain ⟨rfl, hlength⟩ := hreturned n hn
    exact ⟨h.old_size _ _ _ hholder, hlength⟩

theorem noted_holder (s : State) (l : Pool.Label) : (s.noted l).holder = s.holder := by
  cases l <;> rfl

theorem noted_calls (s : State) (l : Pool.Label) : (s.noted l).calls = s.calls := by
  cases l <;> rfl

theorem inductive_sized : machine.Inductive Heard Sized where
  init := by
    refine ⟨fun _ => rfl, fun _ _ _ h => ?_, fun _ _ _ => rfl, fun _ hc => ?_⟩
    · cases h
    · cases hc
  step s a s' := by
    intro h ha hstep
    obtain ⟨-, hok, hmoves⟩ := step_moves hstep
    cases hmoves with
    | new hholder =>
        refine h.hold (.inl (by simp [hholder])) ?_ (by simp [hholder]) hok
        rintro _ _ _ ⟨⟩
        rfl
    | resize hfree =>
        refine h.hold (.inr hfree) ?_ (by simp [hfree.1]) hok
        rintro _ _ _ ⟨⟩
        rfl
    | pop hholder _ hv _ hpool =>
        exact h.resizing hholder rfl (congrArg Core.join (core_shrink hpool hv)) rfl
    | grow hholder _ hpool =>
        exact h.resizing hholder rfl (congrArg Core.join (core_grow hpool)) rfl
    | @ioError creating _ _ hholder =>
        refine h.resized hholder (by simp) ?_
        cases creating <;> simp
    | spawnCreating hholder =>
        refine ⟨fun _ => h.join (by simp [hholder]), ?_, fun _ hne => absurd rfl hne, h.calls⟩
        rintro _ _ _ ⟨⟩
    | spawn hholder => exact h.resizing hholder rfl rfl rfl
    | ret hholder hlength =>
        exact h.resized hholder (fun n hn => ⟨(Option.some.inj hn).symm, hlength⟩) (by simp)
    | start _ hv hpool => exact h.of_core (core_schedule hpool hv) rfl rfl
    | startEmpty => exact ⟨h.join, h.old_size, h.size, h.calls⟩
    | executeAll hfree => exact h.hold (.inr hfree) (by simp) (by simp [hfree.1]) hok
    | @next i _ _ _ hholder hv hpool =>
        have hnext : Sized { s with holder := .executingAll (i + 1) } :=
          h.hold (.inl (by simp [hholder])) (by simp) (by simp [hholder]) hok
        exact hnext.of_core (core_schedule hpool hv) rfl rfl
    | allDone hholder =>
        exact h.hold (.inl (by simp [hholder])) (by simp) (by simp [hholder]) hok
    | join hholder hpool =>
        exact {
          join := fun hne => absurd (hholder : s.holder = .free) hne
          old_size := by simp [noted_holder, hholder]
          size := fun _ _ hidle => absurd hidle (core_join hpool).1
          calls := h.calls }
    | @pool l _ hl hjoin hpool =>
        exact h.of_core (core_step hpool hl hjoin) (noted_holder s l) (noted_calls s l)
    | popUnheard hv hlast => exact absurd hlast (by simp [ha.not_last hv])
    | startUnheard _ hne => simp [Heard, hne] at ha
    | nextUnheard => cases ha

/-! ## A worker that nobody else has a handle of -/

/-- Worker `v` is blocked in its `poll`. -/
def Blocked (p : Pool.State) (v : ℕ) : Prop :=
  ∃ w, p.workers[v]? = some w ∧ w.phase = .polling ∧ Pool.poll p v w = none

/-- A handle of worker `v` is not with its own tasks: the pool, `join`, a thread outside or another
worker has it. -/
def Elsewhere (p : Pool.State) (v : ℕ) : Prop :=
  v ∈ p.threads ∨ v ∈ p.join.held ∨ v ∈ p.outside ∨
    ∃ (u : ℕ) (w : Worker), u ≠ v ∧ p.workers[u]? = some w ∧ v ∈ w.handles

section Sleep

variable {p p' : Pool.State} {u v : ℕ} {l : Pool.Label}

/-- A worker that is blocked has no handles, and there is one of it. -/
theorem Blocked.held (h : Blocked p v) (hinv : Pool.Inv [] [] p) :
    ∃ w, p.workers[v]? = some w ∧ w.handles = [] ∧ 0 < p.senders v := by
  obtain ⟨w, hw, hphase, hpoll⟩ := h
  have hok := hinv.ok v w hw
  simp only [Pool.poll] at hpoll
  split_ifs at hpoll with hwaker htasks
  have hsleep : ¬(w.channel.queue ≠ [] ∨ w.channel.cnt_sender = 0) := fun hready =>
    hwaker (hok.awake (by simp [hphase]) (by simp [hphase]) hready)
  obtain ⟨hqueue, hcount⟩ := not_or.mp hsleep
  refine ⟨w, hw, ?_, ?_⟩
  · simp [Worker.handles, not_not.mp hqueue, htasks, hphase, Phase.frame]
  · rw [Pool.State.senders_eq hw]
    omega

/-- **It is blocked only where somebody else has a handle of it.** -/
theorem Blocked.elsewhere (h : Blocked p v) (hinv : Pool.Inv [] [] p) : Elsewhere p v := by
  obtain ⟨w, hw, hhandles, hsenders⟩ := h.held hinv
  have hcounted := hinv.counted v
  simp only [List.count_nil, Nat.add_zero, Pool.State.held] at hcounted
  by_contra hnone
  simp only [Elsewhere, not_or, not_exists, not_and] at hnone
  obtain ⟨hthreads, hjoin, houtside, hothers⟩ := hnone
  rw [List.count_eq_zero_of_not_mem hthreads, List.count_eq_zero_of_not_mem hjoin,
    List.count_eq_zero_of_not_mem houtside] at hcounted
  obtain ⟨u, c, hc, hpos⟩ := exists_of_weight_pos (fun w : Worker => w.handles.count v)
    (show 0 < weight _ p.workers by omega)
  have hmem := List.count_pos_iff.mp hpos
  by_cases huv : u = v
  · subst huv
    obtain rfl : w = c := Option.some.inj (hw.symm.trans hc)
    simp [hhandles] at hmem
  · exact hothers u c huv hc hmem

/-- Nothing happens to the count of another worker. -/
theorem senders_withChannel_ne (huv : u ≠ v) (message : String) (f) :
    (p.withChannel u message f).senders v = p.senders v := by
  unfold Pool.State.withChannel
  split
  next w hw =>
    split
    next => rw [Pool.State.senders_put hw, if_neg (Ne.symm huv)]
    next => rfl
  next => rfl

theorem senders_dropSender_le : (p.dropSender u).senders v ≤ p.senders v := by
  by_cases huv : u = v
  · subst huv
    unfold Pool.State.dropSender Pool.State.withChannel
    split
    next w hw =>
      split
      next c hc =>
        rw [Pool.State.senders_put hw, if_pos rfl, Pool.State.senders_eq hw]
        rw [Channel.dropSender] at hc
        split_ifs at hc
        obtain rfl := Except.ok.inj hc
        split_ifs <;> simp [Channel.wake]
      next => exact le_rfl
    next => exact le_rfl
  · exact (senders_withChannel_ne huv _ _).le

theorem senders_execute_ne (huv : u ≠ v) (captured : List ℕ) :
    (p.execute u captured).senders v = p.senders v :=
  (senders_withChannel_ne huv _ _).trans (senders_withChannel_ne huv _ _)

/-- A worker of which there is a handle is not one without. -/
theorem ne_of_held (hinv : Pool.Inv [] [] p) (hgone : p.senders v = 0) (hu : 0 < p.held u) :
    u ≠ v := by
  rintro rfl
  exact absurd (hinv.senders_pos hu) (by omega)

/-- **What nobody has a handle of, nobody gets one of.** -/
theorem gone_step (hinv : Pool.Inv [] [] p) (hgone : p.senders v = 0) (hv : v < p.workers.length)
    (hs : Pool.step p l = some p') : p'.senders v = 0 := by
  have hthread : ∀ u ∈ p.threads, u ≠ v := fun u hu => ne_of_held hinv hgone <| by
    have := List.count_pos_iff.mpr hu
    rw [Pool.State.held]
    omega
  have houtside : ∀ u ∈ p.outside, u ≠ v := fun u hu =>
    ne_of_held hinv hgone (Pool.State.held_pos_of_outside hu)
  have hframe : ∀ {i : ℕ} {w : Worker} {frame : List Handle} {h : Handle},
      p.workers[i]? = some w → w.phase = .running frame → h ∈ frame → h.worker ≠ v :=
    fun hw hphase hmem => ne_of_held hinv hgone
      (Pool.State.held_pos hw (Worker.mem_handles_of_frame hphase hmem))
  have hput : ∀ {i : ℕ} {w w' : Worker}, p.workers[i]? = some w →
      w'.channel.cnt_sender = w.channel.cnt_sender → (p.put i w').senders v = 0 :=
    fun hw hcount => (Pool.State.senders_put_eq hw hcount).trans hgone
  cases l with
  | shrink =>
      obtain ⟨-, hs⟩ := Pool.State.withPool_eq hs
      obtain ⟨w, -, rfl⟩ := Option.map_eq_some_iff.mp hs
      exact Nat.le_zero.mp (senders_dropSender_le.trans_eq hgone)
  | grow =>
      obtain ⟨-, hs⟩ := Pool.State.withPool_eq hs
      obtain rfl := Option.some.inj hs
      rw [Pool.State.senders_start, hgone, List.count_singleton]
      simp [hv.ne']
  | schedule k captured =>
      obtain ⟨-, hs⟩ := Pool.State.withPool_eq hs
      rw [Pool.schedule] at hs
      split_ifs at hs
      · exact Option.some.inj hs ▸ hgone
      · obtain ⟨u, hu, rfl⟩ := Option.map_eq_some_iff.mp hs
        exact (senders_execute_ne (hthread u (List.mem_of_getElem? hu)) _).trans hgone
  | outsideClone u =>
      simp only [Pool.step, Option.ite_none_right_eq_some, Option.some.injEq] at hs
      obtain ⟨hmem, rfl⟩ := hs
      exact (senders_withChannel_ne (houtside u hmem) _ _).trans hgone
  | outsideDrop u =>
      simp only [Pool.step, Option.ite_none_right_eq_some, Option.some.injEq] at hs
      obtain ⟨-, rfl⟩ := hs
      exact Nat.le_zero.mp (senders_dropSender_le.trans_eq hgone)
  | outsideExecute u captured =>
      simp only [Pool.step, Option.ite_none_right_eq_some, Option.some.injEq] at hs
      obtain ⟨⟨-, hmem⟩, rfl⟩ := hs
      exact (senders_execute_ne (houtside u (List.diff_subset _ _ hmem)) _).trans hgone
  | poll u =>
      obtain ⟨w, hw, -, hs⟩ := Pool.State.withWorker_eq hs
      rw [Pool.poll] at hs
      split_ifs at hs <;> exact Option.some.inj hs ▸ hput hw rfl
  | tryRecv u =>
      obtain ⟨w, hw, -, hs⟩ := Pool.State.withWorker_eq hs
      obtain rfl := Option.some.inj hs
      rw [Pool.tryRecv, Channel.tryPop]
      rcases w.channel.queue with _ | ⟨task, queue⟩
      · split_ifs <;> exact hput hw rfl
      · exact hput hw rfl
  | runOneTask u =>
      obtain ⟨w, hw, -, hs⟩ := Pool.State.withWorker_eq hs
      obtain rfl := Option.some.inj hs
      rw [Pool.runOneTask]
      split
      · exact hput hw rfl
      · exact hgone
  | clone u h' =>
      obtain ⟨w, frame, hw, hphase, hmem, rfl⟩ := Pool.State.withFrame_eq hs
      exact (senders_withChannel_ne (hframe hw hphase hmem) _ _).trans (hput hw rfl)
  | drop u h' =>
      obtain ⟨w, frame, hw, -, -, rfl⟩ := Pool.State.withFrame_eq hs
      exact Nat.le_zero.mp (senders_dropSender_le.trans_eq (hput hw rfl))
  | convert u =>
      obtain ⟨w, frame, hw, -, -, rfl⟩ := Pool.State.withFrame_eq hs
      exact hput hw rfl
  | executeLocal u captured =>
      obtain ⟨w, frame, hw, hphase, ⟨-, hmem⟩, rfl⟩ := Pool.State.withFrame_eq hs
      have hne : u ≠ v := hframe (h := tlp u) hw hphase (List.diff_subset _ _ hmem)
      exact (senders_withChannel_ne hne _ _).trans (hput hw rfl)
  | executeCross u i captured =>
      obtain ⟨w, frame, hw, hphase, ⟨-, hmem⟩, rfl⟩ := Pool.State.withFrame_eq hs
      have hne : i ≠ v := hframe (h := cross i) hw hphase (List.diff_subset _ _ hmem)
      exact (senders_execute_ne hne _).trans (hput hw rfl)
  | give u i =>
      obtain ⟨w, frame, hw, -, -, rfl⟩ := Pool.State.withFrame_eq hs
      have hsame : (p.putFrame u w (frame.erase (cross i))).senders v = 0 := hput hw rfl
      exact hsame
  | finish u =>
      obtain ⟨w, hw, -, hs⟩ := Pool.State.withWorker_eq hs
      exact Option.some.inj hs ▸ hput hw rfl
  | join =>
      cases Pool.joins_of_step hs with
      | leave => exact Nat.le_zero.mp (senders_dropSender_le.trans_eq hgone)
      | _ => exact hgone

end Sleep

/-- Whether the wake of an action succeeds, if there is one. -/
def Action.wakes : Action → Bool
  | .pop wakes | .start _ _ wakes | .next _ wakes => wakes
  | _ => true

theorem heard_of_wakes (ha : a.wakes = true) : Heard s a := by
  cases a with
  | pop | start => exact .inl ha
  | next => exact ha
  | _ => trivial

/-- A worker that has no handles left gets none. -/
theorem gone_act {v : ℕ} (hs : Pool.Inv [] [] s.pool ∧ Booked s.pool s.books)
    (hv : v < s.books.length) (hgone : s.pool.senders v = 0) (ha : a.wakes = true)
    (hstep : step s a = some s') : v < s'.books.length ∧ s'.pool.senders v = 0 := by
  have hlength : v < s.pool.workers.length := hs.2.length_eq ▸ hv
  obtain ⟨-, -, hmoves⟩ := step_moves hstep
  cases hmoves with
  | new | resize | ioError | spawnCreating | ret | executeAll | allDone => exact ⟨hv, hgone⟩
  | spawn | startEmpty => exact ⟨hv, hgone⟩
  | pop _ _ _ _ hpool => exact ⟨by simpa using hv, gone_step hs.1 hgone hlength hpool⟩
  | grow _ _ hpool =>
      refine ⟨?_, gone_step hs.1 hgone hlength hpool⟩
      simp only [List.length_append]
      omega
  | start _ _ hpool | next _ _ hpool =>
      exact ⟨by simpa [State.note] using hv, gone_step hs.1 hgone hlength hpool⟩
  | join _ hpool => exact ⟨hv, gone_step hs.1 hgone hlength hpool⟩
  | @pool l _ _ _ hpool =>
      refine ⟨?_, gone_step hs.1 hgone hlength hpool⟩
      cases l <;> simpa [State.noted, State.note] using hv
  | popUnheard | startUnheard | nextUnheard => cases ha

/-- **A worker that has no handles left never sleeps again.** -/
theorem gone_awake {v : ℕ} (hs : Pool.Inv [] [] s.pool ∧ Booked s.pool s.books)
    (hv : v < s.books.length) (hgone : s.pool.senders v = 0) {as : List Action} {t : State}
    (has : ∀ a ∈ as, a.wakes = true) (hexec : machine.exec s as = some t) : ¬Blocked t.pool v := by
  have ht := Machine.exec_preserves_within
    (I := fun s : State => (Pool.Inv [] [] s.pool ∧ Booked s.pool s.books) ∧
      v < s.books.length ∧ s.pool.senders v = 0)
    (fun s a s' hs ha hstep => ⟨inductive_booked.step hs.1 (heard_of_wakes ha) hstep,
      gone_act hs.1 hs.2.1 hs.2.2 ha hstep⟩) ⟨hs, hv, hgone⟩ has hexec
  intro hblocked
  obtain ⟨w, -, -, hsenders⟩ := hblocked.held ht.1.1
  omega

/-- A worker that has returned has run what it was given. -/
theorem ran_of_exited (hs : Pool.Inv [] [] s.pool ∧ Booked s.pool s.books) {v : ℕ}
    {w : Worker} {b : Book} (hw : s.pool.workers[v]? = some w)
    (hb : s.books[v]? = some b) (hphase : w.phase = .exited) : b.ran = b.all := by
  have hfits := hs.2.fits hw hb
  obtain ⟨-, hqueue, htasks⟩ := (hs.1.ok v w hw).exited hphase
  have hq : b.queue = [] := List.length_eq_zero_iff.mp (by simp [hfits.queue, hqueue])
  have ht : b.tasks = [] := List.length_eq_zero_iff.mp (by simp [hfits.tasks, htasks])
  have hr : b.running = none := by simpa [hphase, busy] using hfits.running
  simp [Book.all, hq, ht, hr]

/-- **Resizing loses neither threads nor tasks.**  A call of `set_thread_count` that succeeds leaves
the number it was asked for, and returns the one before; every worker that was started is in the
pool, pending, or joined; a retired worker gets nothing more from the pool; a worker that has
returned has run every task of the pool once; and a worker sleeps only while somebody else has a
handle of it, never again when there is none. -/
theorem resizing_keeps {as : List Action} {s : State} (h : machine.Run Heard as s) :
    (∀ c ∈ s.calls, ∀ n, c.returned = some n → n = c.before ∧ c.after = c.thread_count) ∧
    (s.pool.threads ++ s.pool.pending_joins ++ s.pool.join.waitsFor ++ s.joined).Perm
      (List.range s.pool.workers.length) ∧
    (∀ (v : ℕ) (b : Book) l, s.books[v]? = some b → b.retired = some l →
      v ∉ s.pool.threads ∧ l = b.fromPool) ∧
    (∀ (v : ℕ) (w : Worker) (b : Book), s.pool.workers[v]? = some w → s.books[v]? = some b →
      w.phase = .exited →
      ∀ n ∈ b.fromPool, b.ran.count n = 1) ∧
    ∀ v, (Blocked s.pool v → Elsewhere s.pool v) ∧
      (v < s.pool.workers.length → s.pool.senders v = 0 → ∀ as' t,
        (∀ a ∈ as', a.wakes = true) → machine.exec s as' = some t → ¬Blocked t.pool v) := by
  obtain ⟨hs, hkept, haudit⟩ := inductive_audited.of_run h
  refine ⟨(inductive_sized.of_run h).calls, hkept, fun v b l hb hl => ?_,
    fun v w b hw hb hphase n hn => ?_, fun v => ⟨fun hblocked => hblocked.elsewhere hs.1, ?_⟩⟩
  · obtain ⟨hsound, hretired⟩ := haudit v b hb
    exact ⟨hretired (by simp [hl]), hsound.retired l hl⟩
  · have hsound := (haudit v b hb).1
    have hran := ran_of_exited hs hw hb hphase
    exact List.count_eq_one_of_mem (hran ▸ hsound.nodup) (hran ▸ hsound.sent n hn)
  · intro hv hgone as' t has hexec
    exact gone_awake hs (hs.2.length_eq ▸ hv) hgone has hexec

/-- A task is sent to one of two workers, and the worker is retired before it has run it. -/
def retiring : List Action :=
  [.new 2, .push .ok, .push .ok, .ret, .start 1 [] true, .resize 1, .pop true, .ret,
    .pool (.poll 1), .pool (.tryRecv 1), .pool (.tryRecv 1), .pool (.runOneTask 1),
    .pool (.drop 1 (tlp 1)), .pool (.finish 1), .pool (.poll 1), .pool (.tryRecv 1)]

instance (s : State) : DecidablePred (Heard s)
  | .pop wakes =>
      inferInstanceAs <| Decidable
        (wakes = true ∨ ∀ v ∈ s.pool.threads.getLast?, s.hasLast v = false)
  | .start _ _ wakes => inferInstanceAs (Decidable (wakes = true ∨ s.pool.threads = []))
  | .next _ wakes => inferInstanceAs (Decidable (wakes = true))
  | .new _ | .resize _ | .push _ | .ret | .executeAll | .allDone | .pool _ => isTrue trivial

theorem resizing_keeps_retiring :
    ∃ s, machine.Run Heard retiring s ∧ s.pool.threads = [0] ∧ s.pool.pending_joins = [1] ∧
      s.books.map Book.ran = [[], [0]] ∧
      (∀ c ∈ s.calls, ∀ n, c.returned = some n → n = c.before ∧ c.after = c.thread_count) := by
  obtain ⟨s, hexec, hthreads, hpending, hran⟩ : ∃ s, machine.exec machine.init retiring = some s ∧
      s.pool.threads = [0] ∧ s.pool.pending_joins = [1] ∧ s.books.map Book.ran = [[], [0]] :=
    Machine.exec_ends (by decide +kernel)
  have hrun : machine.Run Heard retiring s := .of_exec (by decide +kernel) hexec
  exact ⟨s, hrun, hthreads, hpending, hran, (resizing_keeps hrun).1⟩

end SendersReceivers.Resizing
