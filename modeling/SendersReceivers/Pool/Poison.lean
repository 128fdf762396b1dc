import SendersReceivers.Pool.Accounts
import SendersReceivers.Pool.Failing

/-!
# Pool/Poison — what must not happen under the mutex of the pool

An operation that is started draws the index of a thread while it holds the mutex.  A pool may have
no threads, after `ThreadPool::new(0)` or `set_thread_count(0)`, and then the draw panics.

    threads = []  ──start──▸ gen_range(0..0) ──▸ poisoned: no operation can be started any more

It may also draw a worker that has ended, which takes no task.  The other panics under the mutex are
that of `f.clone()` in `execute_all`, and those of the system: a wake that fails, or a thread that
cannot be had.
-/

namespace SendersReceivers.Resizing

open Machinery Pool

variable {s s' : State} {a : Action}

/-- Whether `set_thread_count` runs before there is a mutex. -/
def Holder.creating : Holder → Bool
  | .resizing creating _ _ => creating
  | _ => false

/-- No operation is started while there are no threads, and the system does what it is asked for
under the mutex. -/
def Safe (s : State) : Action → Prop
  | .start _ _ wakes => s.pool.threads ≠ [] ∧ wakes = true
  | .next _ wakes => wakes = true
  | .pop wakes => wakes = true ∨ ∀ v ∈ s.pool.threads.getLast?, s.hasLast v = false
  | .push outcome => outcome = .panicked → s.holder.creating = true
  | _ => True

/-- The task is in the channel of worker `v`, and nowhere else. -/
def Enqueued (p p' : Pool.State) (v : ℕ) (captured : List ℕ) : Prop :=
  ∀ (u : ℕ) (w : Worker), p.workers[u]? = some w → ∃ w', p'.workers[u]? = some w' ∧
    w'.tasks = w.tasks ∧ w'.channel.queue =
      if u = v then w.channel.queue ++ [⟨v, captured.map cross⟩] else w.channel.queue

/-- What is safe is heard. -/
theorem heard_of_safe (ha : Safe s a) : Heard s a := by
  cases a with
  | pop => exact ha
  | start => exact .inl ha.2
  | next => exact ha
  | _ => trivial

/-! ## A step that is not safe -/

/-- …poisons the mutex. -/
theorem poisoned_of_not_safe (ha : ¬Safe s a) (hstep : machine.step s a = some s') :
    s'.pool.poisoned = true := by
  obtain ⟨-, -, hmoves⟩ := step_moves hstep
  cases hmoves with
  | new | resize | ret | executeAll | allDone | join | pool => exact absurd trivial ha
  | pop _ _ hv hheard =>
      refine absurd (hheard.imp_right fun hlast v hmem => ?_) ha
      obtain rfl := Option.some.inj (hv.symm.trans hmem)
      exact hlast
  | grow | ioError => exact absurd (fun h => by cases h) ha
  | spawnCreating hholder => exact absurd (fun _ => congrArg Holder.creating hholder) ha
  | start _ hv =>
      refine absurd ⟨fun hnil => ?_, rfl⟩ ha
      simp [hnil] at hv
  | next => exact absurd rfl ha
  | popUnheard _ _ hpoisoned => exact hpoisoned
  | spawn | startEmpty | startUnheard | nextUnheard => rfl

/-- …and nothing else does. -/
theorem inductive_sound : machine.Inductive Safe fun s => s.pool.poisoned = false where
  init := rfl
  step s a s' := by
    intro h ha hstep
    obtain ⟨-, -, hmoves⟩ := step_moves hstep
    cases hmoves with
    | new | resize | ioError | spawnCreating | ret | executeAll | allDone => exact h
    | pop _ _ hv _ hpool => exact (congrArg Core.poisoned (core_shrink hpool hv)).trans h
    | grow _ _ hpool => exact (congrArg Core.poisoned (core_grow hpool)).trans h
    | start _ hv hpool | next _ hv hpool =>
        exact (congrArg Core.poisoned (core_schedule hpool hv)).trans h
    | join _ hpool => exact (core_join hpool).2.2.trans h
    | pool hl hjoin hpool => exact (congrArg Core.poisoned (core_step hpool hl hjoin)).trans h
    | popUnheard hv hlast => exact absurd hlast (by simp [(heard_of_safe ha).not_last hv])
    | spawn hholder => cases (congrArg Holder.creating hholder).symm.trans (ha rfl)
    | startEmpty _ hempty => exact absurd hempty ha.1
    | startUnheard => cases ha.2
    | nextUnheard => cases ha

/-! ## Starting an operation -/

/-- What the pool sends goes to one worker. -/
theorem enqueued_of_schedule {k v : ℕ} {captured : List ℕ} {pool : Pool.State}
    (hinv : Pool.Inv [] [] s.pool) (hs : Pool.step s.pool (.schedule k captured) = some pool)
    (hv : s.pool.threads[k]? = some v) : Enqueued s.pool pool v captured := by
  obtain ⟨hsub, rfl⟩ := schedule_eq hs hv
  have hheld : 0 < { s.pool with outside := s.pool.outside.diff captured }.held v := by
    have := List.count_pos_iff.mpr (List.mem_of_getElem? hv)
    simp only [Pool.State.held]
    omega
  obtain ⟨c, hc, heq⟩ := (hinv.take hsub).execute_eq (v := v) (Nat.add_pos_left hheld _)
  replace hc : s.pool.workers[v]? = some c := hc
  rw [heq]
  intro u w hw
  by_cases huv : u = v
  · subst huv
    obtain rfl : c = w := Option.some.inj (hc.symm.trans hw)
    exact ⟨_, Pool.State.workers_put_self hc, rfl, by simp⟩
  · refine ⟨w, ?_, rfl, by simp [huv]⟩
    simpa [Pool.State.put, List.getElem?_set_ne (Ne.symm huv)] using hw

theorem enqueued_of_start (hinv : Pool.Inv [] [] s.pool) {k : ℕ} {captured : List ℕ}
    (hne : s.pool.threads ≠ []) (hstep : machine.step s (.start k captured true) = some s') :
    ∃ v ∈ s.pool.threads, Enqueued s.pool s'.pool v captured := by
  obtain ⟨-, -, hmoves⟩ := step_moves hstep
  cases hmoves with
  | start _ hv hpool => exact ⟨_, List.mem_of_getElem? hv, enqueued_of_schedule hinv hpool hv⟩
  | startEmpty _ hempty => exact absurd hempty hne

theorem enqueued_of_next (hinv : Pool.Inv [] [] s.pool) {captured : List ℕ}
    (hstep : machine.step s (.next captured true) = some s') :
    ∃ v ∈ s.pool.threads, Enqueued s.pool s'.pool v captured := by
  obtain ⟨-, -, hmoves⟩ := step_moves hstep
  cases hmoves with
  | next _ hv hpool => exact ⟨_, List.mem_of_getElem? hv, enqueued_of_schedule hinv hpool hv⟩

/-- Nobody has the mutex, it is not poisoned, and there are threads: any of them may be drawn. -/
theorem exists_start (hfree : s.Free) (hsound : s.pool.poisoned = false) {k : ℕ}
    (hk : k < s.pool.threads.length) : ∃ s', machine.step s (.start k [] true) = some s' := by
  have hne : s.pool.threads ≠ [] := List.ne_nil_of_length_pos (Nat.zero_lt_of_lt hk)
  have hv : s.pool.threads[k]? = some s.pool.threads[k] := List.getElem?_eq_getElem hk
  have hsub : ([] : List ℕ).Subperm s.pool.outside := List.nil_subperm
  simp [machine, step, hsound, hfree.1, act, hfree, State.dispatch, Pool.step,
    Pool.State.withPool, hfree.2, Pool.schedule, hne, hv, hsub]

/-! ## `set_thread_count` goes on -/

/-- In a call of `set_thread_count k`, on a pool that is there already. -/
structure Resizes (k : ℕ) (s : State) : Prop where
  holder : ∃ old_size, s.holder = .resizing false old_size k
  join : s.pool.join = .idle
  sound : s.pool.poisoned = false

theorem Resizes.of_core {k : ℕ} (h : Resizes k s) (hholder : s'.holder = s.holder)
    (hjoin : s'.pool.join = s.pool.join) (hpoisoned : s'.pool.poisoned = s.pool.poisoned) :
    Resizes k s' :=
  ⟨h.holder.imp fun _ hold => hholder.trans hold, hjoin.trans h.join, hpoisoned.trans h.sound⟩

theorem Resizes.pop {k : ℕ} (h : Resizes k s) (hlt : k < s.pool.threads.length) :
    ∃ s', machine.step s (.pop true) = some s' ∧ Resizes k s' ∧
      s'.pool.threads = s.pool.threads.dropLast ∧
      s'.pool.workers.length = s.pool.workers.length := by
  obtain ⟨old_size, hholder⟩ := h.holder
  have hne : s.pool.threads ≠ [] := List.ne_nil_of_length_pos (Nat.zero_lt_of_lt hlt)
  obtain ⟨v, hv⟩ : ∃ v, s.pool.threads.getLast? = some v :=
    ⟨_, List.getLast?_eq_some_getLast hne⟩
  obtain ⟨pool, hpool⟩ : ∃ pool, Pool.step s.pool .shrink = some pool := by
    simp [Pool.step, Pool.State.withPool, h.join, h.sound, hv]
  have hcore := core_shrink hpool hv
  refine ⟨{ s with pool := pool, books := s.books.modify v Book.retire }, ?_,
    h.of_core rfl (congrArg Core.join hcore) (congrArg Core.poisoned hcore),
    congrArg Core.threads hcore, congrArg Core.started hcore⟩
  simp [machine, step, act, hholder, h.sound, hlt, State.retire, hv, hpool]

theorem Resizes.push {k : ℕ} (h : Resizes k s) (hlt : s.pool.threads.length < k) :
    ∃ s', machine.step s (.push .ok) = some s' ∧ Resizes k s' ∧
      s'.pool.threads = s.pool.threads ++ [s.pool.workers.length] ∧
      s'.pool.workers.length = s.pool.workers.length + 1 := by
  obtain ⟨old_size, hholder⟩ := h.holder
  obtain ⟨pool, hpool⟩ : ∃ pool, Pool.step s.pool .grow = some pool := by
    simp [Pool.step, Pool.State.withPool, h.join, h.sound]
  have hcore := core_grow hpool
  refine ⟨{ s with pool := pool, books := s.books ++ [.new] }, ?_,
    h.of_core rfl (congrArg Core.join hcore) (congrArg Core.poisoned hcore),
    congrArg Core.threads hcore, congrArg Core.started hcore⟩
  simp [machine, step, act, hholder, h.sound, hlt, hpool]

/-- Workers are never forgotten. -/
theorem workers_of_step {p p' : Pool.State} {l : Pool.Label} (hs : Pool.step p l = some p') :
    p.workers.length ≤ p'.workers.length := by
  cases l with
  | shrink =>
      obtain ⟨v, hv, -⟩ := Option.map_eq_some_iff.mp (Pool.State.withPool_eq hs).2
      exact (congrArg Core.started (core_shrink hs hv)).ge
  | grow => exact (congrArg Core.started (core_grow hs)).ge.trans' (Nat.le_succ _)
  | schedule k captured =>
      obtain ⟨-, h⟩ := Pool.State.withPool_eq hs
      rw [Pool.schedule] at h
      split_ifs at h
      · exact Option.some.inj h ▸ le_rfl
      · obtain ⟨v, hv, -⟩ := Option.map_eq_some_iff.mp h
        exact (congrArg Core.started (core_schedule hs hv)).ge
  | join =>
      cases Pool.joins_of_step hs with
      | @leave w =>
          have hcore := core_dropSender (p := { p with join := .threads }) (v := w)
          exact (congrArg Core.started hcore).ge
      | _ => exact le_rfl
  | _ => exact (congrArg Core.started (core_step hs id (by simp))).ge

theorem workers_of_moves (ha : Safe s a) (hstep : machine.step s a = some s') :
    s.pool.workers.length ≤ s'.pool.workers.length := by
  obtain ⟨-, -, hmoves⟩ := step_moves hstep
  cases hmoves with
  | pop _ _ _ _ hpool | grow _ _ hpool | start _ _ hpool | next _ _ hpool | join _ hpool
  | pool _ _ hpool => exact workers_of_step hpool
  | popUnheard hv hlast => exact absurd hlast (by simp [(heard_of_safe ha).not_last hv])
  | _ => exact le_rfl

end SendersReceivers.Resizing

namespace SendersReceivers.Failing

open Machinery Pool
open Resizing (Enqueued)

variable {s s' : State} {a : Action}

/-! ## The condition, and what it is for -/

/-- **The condition on a step**: no operation is started while there are no threads, whoever has the
mutex deals with no worker that has ended, and neither `f.clone()` nor the system fails under the
mutex. -/
def Safe (s : State) : Action → Prop
  | .act a => Resizing.Safe s.base a ∧ ∀ v ∈ s.deals a, v ∉ s.ended
  | .clonePanics _ => False
  | .fail _ | .discard _ => True

/-- The workers that can be sent a task now: by an operation that is started, or by the next
iteration of `execute_all`. -/
def State.Drawn (s : State) (v : ℕ) : Prop :=
  s.base.Free ∧ v ∈ s.base.pool.threads ∨
    ∃ i, s.base.holder = .executingAll i ∧ s.base.pool.threads[i]? = some v

/-- **The condition on the state**: none of these has ended. -/
def Staffed (s : State) : Prop := ∀ v, s.Drawn v → v ∉ s.ended

/-- Operations can be started: there are threads, and each may be drawn. -/
def Startable (s : State) : Prop :=
  s.base.pool.threads ≠ [] ∧ ∀ k < s.base.pool.threads.length, ∃ s',
    machine.step s (.act (.start k [] true)) = some s' ∧ s'.base.pool.poisoned = false

/-- What is asked of a pool: its mutex is not poisoned, what is started is enqueued on one worker
that is in the pool, and `set_thread_count` to at least one makes a pool that operations can be
started on. -/
structure Usable (s : State) : Prop where
  sound : s.base.pool.poisoned = false
  starts : ∀ k captured s', s.base.pool.threads ≠ [] →
    machine.step s (.act (.start k captured true)) = some s' →
    s'.base.pool.poisoned = false ∧
      ∃ v ∈ s.base.pool.threads, Enqueued s.base.pool s'.base.pool v captured
  each : ∀ captured s', machine.step s (.act (.next captured true)) = some s' →
    s'.base.pool.poisoned = false ∧
      ∃ v ∈ s.base.pool.threads, Enqueued s.base.pool s'.base.pool v captured
  restarts : ∀ k, 0 < k → s.base.Free → ∃ as t, machine.exec s (.act (.resize k) :: as) = some t ∧
    t.base.Free ∧ t.base.pool.poisoned = false ∧ t.base.pool.threads.length = k ∧ Startable t

/-! ## What a step preserves -/

/-- A worker ends, and its handles go outside. -/
theorem inv_of_fails {v : ℕ} {w : Worker} (h : Pool.Inv [] [] s.base.pool) (hs : Fails s v w s') :
    Pool.Inv [] [] s'.base.pool := by
  have hok := h.ok v w hs.worker
  have hphase : w.phase ≠ .draining ∧ w.phase ≠ .exited := by
    constructor <;> intro heq <;> simpa [heq, fails] using hs.phase
  have hput : Pool.Inv [] (w.phase.frame.map Handle.worker)
      (s.base.pool.put v { w with phase := .polling }) := by
    refine h.put hs.worker
      { receiver := by simpa [hphase.2] using hok.receiver
        awake := fun _ _ => hok.awake hphase.1 hphase.2
        exited := by simp
        ready := by simp
        own := hok.own } fun u => ?_
    simp only [Worker.handles, Phase.frame, List.map_nil, List.append_nil, List.count_append,
      List.count_nil]
    omega
  rw [hs.pool]
  refine hput.move rfl (fun u => ?_) fun w hw => ?_
  · simp only [Pool.State.put, List.count_append, List.count_nil]
    omega
  · simpa [Pool.State.put] using h.joinable w hw

/-- A task is destroyed. -/
theorem inv_discard {v : ℕ} {w : Worker} {task : Task} {tasks : List Task} {p : Pool.State}
    (h : Pool.Inv [] [] p) (hw : p.workers[v]? = some w) (htasks : w.tasks = task :: tasks)
    (hphase : w.phase = .polling) :
    Pool.Inv [] [] ({ p.put v { w with tasks := tasks } with
      outside := p.outside ++ task.captured.map Handle.worker }.dropSender v) := by
  have hok := h.ok v w hw
  have hown : task.xtc_sender = v := hok.own task (by simp [htasks])
  have hput : Pool.Inv [] task.senders (p.put v { w with tasks := tasks }) := by
    refine h.put hw
      { receiver := hok.receiver
        awake := hok.awake
        exited := fun hexited => ?_
        ready := by simp [hphase]
        own := fun t ht => hok.own t ?_ } fun u => ?_
    · simpa [htasks] using (hok.exited hexited).2.2
    · simp only [List.mem_append, htasks, List.mem_cons] at ht ⊢
      tauto
    · simp only [Worker.handles, htasks, List.flatMap_append, List.flatMap_cons, List.count_append,
        List.count_nil]
      omega
  refine Pool.Inv.dropSender (hput.move rfl (fun u => ?_) fun w hw => ?_)
  · simp only [Pool.State.put, Task.senders, hown, List.count_append, List.count_cons,
      List.count_nil]
    omega
  · simpa [Pool.State.put] using h.joinable w hw

/-- The mutex is not poisoned, the handles are counted, and only workers end. -/
structure Sound (s : State) : Prop where
  sound : s.base.pool.poisoned = false
  inv : Pool.Inv [] [] s.base.pool
  ended : ∀ v ∈ s.ended, v < s.base.pool.workers.length

theorem Sound.fails {v : ℕ} {w : Worker} (h : Sound s) (hs : Fails s v w s') : Sound s' where
  sound := by
    rw [hs.pool]
    exact h.sound
  inv := inv_of_fails h.inv hs
  ended u hu := by
    have hlength : s'.base.pool.workers.length = s.base.pool.workers.length := by
      rw [hs.pool]
      simp [Pool.State.put]
    rw [hlength]
    rw [hs.ended] at hu
    obtain hu | hu := List.mem_append.mp hu
    · exact h.ended u hu
    · obtain rfl := List.mem_singleton.mp hu
      exact (List.getElem?_eq_some_iff.mp hs.worker).1

/-- **A safe step keeps the pool sound.** -/
theorem Sound.step (h : Sound s) (ha : Safe s a) (hstep : Failing.step s a = some s') :
    Sound s' := by
  cases step_moves hstep with
  | lift hdeals hbase =>
      exact ⟨Resizing.inductive_sound.step h.sound ha.1 hbase,
        Resizing.inductive_inv.step h.inv (Resizing.heard_of_safe ha.1) hbase,
        fun v hv => (h.ended v hv).trans_le (Resizing.workers_of_moves ha.1 hbase)⟩
  | meet hv hended => exact absurd hended (ha.2 _ hv)
  | refused => exact ⟨h.sound, h.inv.move rfl (fun _ => rfl) h.inv.joinable, h.ended⟩
  | unwinds hs | fail hs => exact h.fails hs
  | @discard v w task tasks hw hphase htasks =>
      have hcore : Resizing.core ({ s.base.pool.put v { w with tasks := tasks } with
          outside := s.base.pool.outside ++ task.captured.map Handle.worker }.dropSender v) =
          Resizing.core s.base.pool := by
        rw [Resizing.core_dropSender, Resizing.core_outside, Resizing.core_put]
      refine ⟨(congrArg Resizing.Core.poisoned hcore).trans h.sound,
        inv_discard h.inv hw htasks hphase, fun u hu => (h.ended u hu).trans_eq ?_⟩
      exact (congrArg Resizing.Core.started hcore).symm
  | clonePanics => exact absurd ha id

theorem inductive_sound : machine.Inductive Safe Sound where
  init := ⟨rfl, Pool.Inv.inductive.init, fun _ hv => absurd hv List.not_mem_nil⟩
  step _ _ _ h ha hstep := h.step ha hstep

/-- **A step that is not safe poisons the mutex.** -/
theorem poisoned_of_not_safe (ha : ¬Safe s a) (hstep : machine.step s a = some s') :
    s'.base.pool.poisoned = true := by
  cases step_moves hstep with
  | lift hdeals hbase =>
      exact Resizing.poisoned_of_not_safe (fun hsafe => ha ⟨hsafe, hdeals⟩) hbase
  | meet _ _ hpoisoned => exact hpoisoned
  | refused | unwinds => exact absurd ⟨trivial, fun v hv => by cases hv⟩ ha
  | fail | discard => exact absurd trivial ha
  | clonePanics => rfl

/-! ## Starting an operation -/

theorem starts_of_sound (h : Sound s) (hstaffed : Staffed s) {k : ℕ} {captured : List ℕ}
    (hne : s.base.pool.threads ≠ [])
    (hstep : machine.step s (.act (.start k captured true)) = some s') :
    s'.base.pool.poisoned = false ∧
      ∃ v ∈ s.base.pool.threads, Enqueued s.base.pool s'.base.pool v captured := by
  have hmoves : Moves s (.act (.start k captured true)) s' := step_moves hstep
  cases hmoves with
  | lift hdeals hbase =>
      have hsafe : Resizing.Safe s.base (.start k captured true) := ⟨hne, rfl⟩
      exact ⟨Resizing.inductive_sound.step h.sound hsafe hbase,
        Resizing.enqueued_of_start h.inv hne hbase⟩
  | @meet _ v _ hv hended =>
      obtain ⟨hfree, hv⟩ := Option.ite_none_right_eq_some.mp hv
      exact absurd hended (hstaffed v (.inl ⟨hfree, List.mem_of_getElem? hv⟩))

theorem each_of_sound (h : Sound s) (hstaffed : Staffed s) {captured : List ℕ}
    (hstep : machine.step s (.act (.next captured true)) = some s') :
    s'.base.pool.poisoned = false ∧
      ∃ v ∈ s.base.pool.threads, Enqueued s.base.pool s'.base.pool v captured := by
  have hmoves : Moves s (.act (.next captured true)) s' := step_moves hstep
  cases hmoves with
  | lift hdeals hbase =>
      have hsafe : Resizing.Safe s.base (.next captured true) := rfl
      exact ⟨Resizing.inductive_sound.step h.sound hsafe hbase,
        Resizing.enqueued_of_next h.inv hbase⟩
  | @meet _ v _ hv hended =>
      simp only [State.deals] at hv
      split at hv
      next i hholder => exact absurd hended (hstaffed v (.inr ⟨i, hholder, hv⟩))
      next => cases hv

/-- What the pool does is done here as well, where it meets no worker that has ended. -/
theorem step_lift {a : Resizing.Action} {base : Resizing.State}
    (hbase : Resizing.step s.base a = some base) (hdeals : ∀ v ∈ s.deals a, v ∉ s.ended)
    (hpool : ∀ l, a ≠ .pool l) : machine.step s (.act a) = some { s with base := base } := by
  obtain ⟨hok, hbase⟩ := Option.ite_none_left_eq_some.mp hbase
  have hany : ¬(s.deals a).any (· ∈ s.ended) = true := fun hany => by
    obtain ⟨v, hv, hended⟩ := (Option.any_eq_true _ _).mp hany
    exact hdeals v hv (by simpa using hended)
  have hlift : s.lift a = some { s with base := base } := by rw [State.lift, hbase]; rfl
  refine (if_neg hok).trans ((if_neg hany).trans ?_)
  cases a with
  | pool l => exact absurd rfl (hpool l)
  | _ => exact hlift

theorem startable_of_free (h : Sound s) (hfree : s.base.Free)
    (hstaffed : ∀ v ∈ s.base.pool.threads, v ∉ s.ended) (hne : s.base.pool.threads ≠ []) :
    Startable s := by
  refine ⟨hne, fun k hk => ?_⟩
  obtain ⟨base, hbase⟩ := Resizing.exists_start hfree h.sound hk
  have hsafe : Resizing.Safe s.base (.start k [] true) := ⟨hne, rfl⟩
  refine ⟨{ s with base := base }, step_lift hbase (fun v hv => ?_) (by simp),
    Resizing.inductive_sound.step h.sound hsafe hbase⟩
  exact hstaffed v (List.mem_of_getElem? (Option.ite_none_right_eq_some.mp hv).2)

/-! ## `set_thread_count` comes to an end -/

/-- In a call of `set_thread_count k`, with no worker in the pool that has ended. -/
structure Resizes (k : ℕ) (s : State) : Prop where
  base : Resizing.Resizes k s.base
  sound : Sound s
  staffed : ∀ v ∈ s.base.pool.threads, v ∉ s.ended

theorem Resizes.pop {k : ℕ} (h : Resizes k s) (hlt : k < s.base.pool.threads.length) :
    ∃ s', machine.step s (.act (.pop true)) = some s' ∧ Resizes k s' ∧
      s'.base.pool.threads.length + 1 = s.base.pool.threads.length := by
  obtain ⟨base, hbase, hresizes, hthreads, -⟩ := h.base.pop hlt
  have hsafe : Safe s (.act (.pop true)) := ⟨.inl rfl, fun v hv => by cases hv⟩
  have hstep := step_lift (s := s) hbase hsafe.2 (by simp)
  refine ⟨_, hstep, ⟨hresizes, h.sound.step hsafe hstep, fun v hv => ?_⟩, ?_⟩
  · rw [hthreads] at hv
    exact h.staffed v ((List.dropLast_sublist _).subset hv)
  · rw [hthreads, List.length_dropLast]
    omega

theorem Resizes.push {k : ℕ} (h : Resizes k s) (hlt : s.base.pool.threads.length < k) :
    ∃ s', machine.step s (.act (.push .ok)) = some s' ∧ Resizes k s' ∧
      s'.base.pool.threads.length = s.base.pool.threads.length + 1 := by
  obtain ⟨base, hbase, hresizes, hthreads, -⟩ := h.base.push hlt
  have hok : Resizing.Safe s.base (.push .ok) := fun hpanicked => by cases hpanicked
  have hsafe : Safe s (.act (.push .ok)) := ⟨hok, fun v hv => by cases hv⟩
  have hstep := step_lift (s := s) hbase hsafe.2 (by simp)
  refine ⟨_, hstep, ⟨hresizes, h.sound.step hsafe hstep, fun v hv hended => ?_⟩, by simp [hthreads]⟩
  rw [hthreads] at hv
  obtain hv | hv := List.mem_append.mp hv
  · exact h.staffed v hv hended
  · -- a worker that was just started is a new one
    exact (h.sound.ended v hended).ne (List.mem_singleton.mp hv)

/-- **If no thread is refused, `set_thread_count` returns**, and has made the threads. -/
theorem restarts_of_free (h : Sound s) (hfree : s.base.Free)
    (hstaffed : ∀ v ∈ s.base.pool.threads, v ∉ s.ended) {k : ℕ} (hk : 0 < k) :
    ∃ as t, machine.exec s (.act (.resize k) :: as) = some t ∧ t.base.Free ∧
      t.base.pool.poisoned = false ∧ t.base.pool.threads.length = k ∧ Startable t := by
  let s₁ : State := { s with
    base := { s.base with holder := .resizing false s.base.pool.threads.length k } }
  have hsafe : Safe s (.act (.resize k)) := ⟨trivial, fun v hv => by cases hv⟩
  have hresize : machine.step s (.act (.resize k)) = some s₁ := by
    refine step_lift ?_ hsafe.2 (by simp)
    simp [Resizing.step, Resizing.act, hfree, hfree.1, h.sound]
  have hs₁ : Resizes k s₁ :=
    ⟨⟨⟨_, rfl⟩, hfree.2, h.sound⟩, h.step hsafe hresize, hstaffed⟩
  obtain ⟨as, t, hexec, ht, hlength⟩ : ∃ as t, machine.exec s₁ as = some t ∧ Resizes k t ∧
      t.base.pool.threads.length = k := by
    refine Machine.exec_descends
      (fun t => (t.base.pool.threads.length - k) + (k - t.base.pool.threads.length))
      (fun t ht => ?_) hs₁
    rcases Nat.lt_trichotomy t.base.pool.threads.length k with hlt | heq | hgt
    · obtain ⟨t', hstep, ht', hlength⟩ := ht.push hlt
      exact .inr ⟨_, t', hstep, ht', by omega⟩
    · exact .inl heq
    · obtain ⟨t', hstep, ht', hlength⟩ := ht.pop hgt
      exact .inr ⟨_, t', hstep, ht', by omega⟩
  obtain ⟨old_size, hholder⟩ := ht.base.holder
  let t' : State := { t with
    base := { t.base.resized k (some old_size) with holder := .free } }
  have hsafe' : Safe t (.act .ret) := ⟨trivial, fun v hv => by cases hv⟩
  have hret : machine.step t (.act .ret) = some t' := by
    refine step_lift ?_ hsafe'.2 (by simp)
    simp [Resizing.step, Resizing.act, hholder, ht.sound.sound, hlength]
  have hsound : Sound t' := ht.sound.step hsafe' hret
  have hne : t'.base.pool.threads ≠ [] := List.ne_nil_of_length_pos (hlength.symm ▸ hk)
  refine ⟨as ++ [.act .ret], t', ?_, ⟨rfl, ht.base.join⟩, hsound.sound, hlength,
    startable_of_free hsound ⟨rfl, ht.base.join⟩ ht.staffed hne⟩
  change (machine.step s (.act (.resize k))).bind _ = _
  rw [hresize, Option.bind_some, Machine.exec_append, hexec]
  simp [Machine.exec, hret]

/-! ## Exactly when a pool is usable -/

/-- The mutex is poisoned when a worker that has ended is met. -/
theorem step_meet {a : Resizing.Action} {v : ℕ} (hsound : s.base.pool.poisoned = false)
    (hholder : s.base.holder ≠ .failed) (hv : v ∈ s.deals a) (hended : v ∈ s.ended) :
    machine.step s (.act a) = s.meet a := by
  have hok : ¬(s.base.pool.poisoned = true ∨ s.base.holder = .failed) := by simp [hsound, hholder]
  have hany : (s.deals a).any (· ∈ s.ended) = true :=
    (Option.any_eq_true _ _).mpr ⟨v, hv, by simpa using hended⟩
  exact (if_neg hok).trans (if_pos hany)

/-- A worker that has ended, and can be drawn, makes a pool unusable. -/
theorem staffed_of_usable (h : Usable s) : Staffed s := by
  have hsub : ([] : List ℕ).Subperm s.base.pool.outside := List.nil_subperm
  rintro v (⟨hfree, hmem⟩ | ⟨i, hholder, hv⟩) hended
  · obtain ⟨k, hv⟩ := List.mem_iff_getElem?.mp hmem
    have hk := (List.getElem?_eq_some_iff.mp hv).1
    have hne : s.base.pool.threads ≠ [] := List.ne_nil_of_mem hmem
    have hstep := step_meet (a := .start k [] true) h.sound (by simp [hfree.1])
      (by simpa [State.deals, hfree] using hv) hended
    simp only [State.meet, State.lift, Resizing.act, hfree, if_true, Resizing.State.dispatch, hne,
      hsub, hk, ne_eq, not_false_eq_true, and_self, Option.map_some] at hstep
    simpa [Resizing.State.poison] using (h.starts k [] _ hne hstep).1
  · have hi := (List.getElem?_eq_some_iff.mp hv).1
    have hne : s.base.pool.threads ≠ [] := List.ne_nil_of_mem (List.mem_of_getElem? hv)
    have hstep := step_meet (a := .next [] true) h.sound (by simp [hholder])
      (by simpa [State.deals, hholder] using hv) hended
    simp only [State.meet, State.lift, Resizing.act, hholder, if_true, Resizing.State.dispatch, hne,
      hsub, hi, ne_eq, not_false_eq_true, and_self, Option.map_some] at hstep
    simpa [Resizing.State.poison] using (h.each [] _ hstep).1

/-- **The pool stays usable exactly as long as** no operation is started while it has no threads,
nobody turns to a worker that has ended while having the mutex, and neither `f.clone()` nor the
system fails there — and none of the workers has ended that can be drawn now. -/
theorem usable_iff {as : List Action} {s : State} (h : machine.Run (fun _ _ => True) as s) :
    Usable s ↔ machine.Run Safe as s ∧ Staffed s := by
  have hiff : ¬s.base.pool.poisoned = true ↔ machine.Run Safe as s :=
    h.good_iff (I := fun _ => True) ⟨trivial, fun _ _ _ _ _ _ => trivial⟩
      (fun s a s' _ hs hstep => by simp [machine, step, hs] at hstep)
      (fun s a s' _ ha hstep => poisoned_of_not_safe ha hstep)
      fun as s hrun => by simp [(inductive_sound.of_run hrun).sound]
  constructor
  · intro hs
    exact ⟨hiff.mp (by simp [hs.sound]), staffed_of_usable hs⟩
  · rintro ⟨hrun, hstaffed⟩
    have hsound := inductive_sound.of_run hrun
    exact ⟨hsound.sound, fun k captured s' => starts_of_sound hsound hstaffed,
      fun captured s' => each_of_sound hsound hstaffed,
      fun k hk hfree => restarts_of_free hsound hfree
        (fun v hv => hstaffed v (.inl ⟨hfree, hv⟩)) hk⟩

instance (s : Resizing.State) : DecidablePred (Resizing.Safe s)
  | .start _ _ wakes => inferInstanceAs (Decidable (s.pool.threads ≠ [] ∧ wakes = true))
  | .next _ wakes => inferInstanceAs (Decidable (wakes = true))
  | .pop wakes =>
      inferInstanceAs <|
        Decidable (wakes = true ∨ ∀ v ∈ s.pool.threads.getLast?, s.hasLast v = false)
  | .push outcome =>
      inferInstanceAs (Decidable (outcome = .panicked → s.holder.creating = true))
  | .new _ | .resize _ | .ret | .executeAll | .allDone | .pool _ => isTrue trivial

instance (s : State) : DecidablePred (Safe s)
  | .act a =>
      inferInstanceAs (Decidable (Resizing.Safe s.base a ∧ ∀ v ∈ s.deals a, v ∉ s.ended))
  | .clonePanics _ => isFalse id
  | .fail _ | .discard _ => isTrue trivial

/-- A pool of two threads.  The `poll` of the second one fails, and a task is destroyed that it has
sent itself; the pool gives it up, and is made one of none, and then of two. -/
def restarting : List Action :=
  [.act (.new 2), .act (.push .ok), .act (.push .ok), .act .ret, .act (.start 1 [] true),
    .act (.pool (.poll 1)), .act (.pool (.tryRecv 1)), .act (.pool (.tryRecv 1)),
    .act (.pool (.runOneTask 1)), .act (.pool (.executeLocal 1 [])),
    .act (.pool (.drop 1 (tlp 1))), .act (.pool (.finish 1)), .fail 1, .discard 1,
    .act (.resize 1), .act (.pop true), .act .ret, .act (.start 0 [] true), .act (.resize 0),
    .act (.pop true), .act .ret, .act (.resize 2), .act (.push .ok), .act (.push .ioError),
    .act (.resize 2), .act (.push .ok), .act .ret]

theorem usable_restarting :
    ∃ s, machine.Run (fun _ _ => True) restarting s ∧ s.base.pool.threads.length = 2 ∧
      s.ended = [1] ∧ Usable s := by
  obtain ⟨s, hexec, hthreads, hended, hpool, hholder⟩ : ∃ s,
      machine.exec machine.init restarting = some s ∧ s.base.pool.threads.length = 2 ∧
      s.ended = [1] ∧ 1 ∉ s.base.pool.threads ∧ s.base.holder = .free :=
    Machine.exec_ends (by decide +kernel)
  have hsafe : machine.Run Safe restarting s := .of_exec (by decide +kernel) hexec
  have hstaffed : Staffed s := by
    rintro v (⟨-, hv⟩ | ⟨i, hexecuting, -⟩)
    · rw [hended]
      exact fun hmem => hpool (List.mem_singleton.mp hmem ▸ hv)
    · cases hholder.symm.trans hexecuting
  exact ⟨s, hsafe.any, hthreads, hended, (usable_iff hsafe.any).mpr ⟨hsafe, hstaffed⟩⟩

/-- After these steps the mutex is poisoned, by a panic with this message. -/
def Poisons (as : List Action) (message : String) : Prop :=
  ∃ s, machine.Run (fun _ _ => True) as s ∧ s.base.pool.panics = [message] ∧
    s.base.pool.poisoned = true ∧ ¬Usable s

theorem poisons_of_exec {as : List Action} {message : String}
    (h : (machine.exec machine.init as).any (fun s =>
      s.base.pool.panics = [message] ∧ s.base.pool.poisoned = true) = true)
    (hrun : machine.check (fun _ _ => True) machine.init as = true) : Poisons as message := by
  obtain ⟨s, hexec, hpanics, hpoisoned⟩ := Machine.exec_ends h
  refine ⟨s, .of_exec hrun hexec, hpanics, hpoisoned, fun hs => ?_⟩
  exact absurd (hs.sound.symm.trans hpoisoned) (by simp)

/-- A pool is made without threads, or the `poll` of its only worker fails, or `f.clone()` panics in
`execute_all`. -/
theorem panics_poison :
    Poisons [.act (.new 0), .act .ret, .act (.start 0 [] true)] "cannot sample empty range" ∧
      Poisons [.act (.new 1), .act (.push .ok), .act .ret, .fail 0, .act (.start 0 [] true)]
        "receiver remains active" ∧
      Poisons [.act (.new 1), .act (.push .ok), .act .ret, .act .executeAll, .clonePanics "clone"]
        "clone" :=
  ⟨poisons_of_exec (by decide +kernel) (by decide +kernel),
    poisons_of_exec (by decide +kernel) (by decide +kernel),
    poisons_of_exec (by decide +kernel) (by decide +kernel)⟩

end SendersReceivers.Failing
