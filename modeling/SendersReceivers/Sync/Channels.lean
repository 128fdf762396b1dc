import SendersReceivers.Machinery.Fifo
import SendersReceivers.Pool.Channel

/-!
# Sync/Channels — the two channels, as one queue

The channel of one thread is a queue in a `RefCell`, and the channel between threads one in a mutex,
with a waker.  A wake may fail: a send gives the value back then, but the drop of the last sender
has nobody to tell, and panics while it holds the mutex.

    last Sender dropped ──wake──▸ disconnected
                        ──wake fails──▸ poisoned: whatever locks the mutex panics
-/

namespace SendersReceivers.Sync

open Machinery Machinery.Fifo Pool

variable {α : Type}

/-! ## Between threads -/

/-- `std::sync::Mutex`. -/
structure Mutex (χ : Type) where
  data : χ
  poisoned : Bool

namespace CrossThread

/-- `lock().expect("mutex should lock just fine")`, and what is done under the guard: a panic
there poisons the mutex. -/
def lock {χ : Type} (m : Mutex χ) (f : χ → Answer α × χ) : Answer α × Mutex χ :=
  if m.poisoned then (.panicked "mutex should lock just fine", m)
  else
    let r := f m.data
    (r.1, ⟨r.2, match r.1 with | .panicked _ => true | _ => false⟩)

/-- `Channel::push`, where `wakes` is whether the wake succeeds. -/
def push (wakes : Bool) (v : α) (c : Channel α) : Answer α × Channel α :=
  if wakes then
    match c.push v with
    | .ok c' => (.ok, c')
    | .error .noSender => (.panicked "assertion failed: self.cnt_sender > 0", c.wake)
    | .error .noReceiver => (.refused v, c.wake)
  else (.refused v, c)

/-- `Channel::try_pop`. -/
def try_pop (c : Channel α) : Answer α × Channel α :=
  if c.has_receiver then
    match c.tryPop with
    | .ok (v, c') => (.received v, c')
    | .error .disconnected => (.disconnected, c)
    | .error .empty => (.empty, c)
  else (.panicked "assertion failed: self.has_receiver", c)

/-- `Drop for Sender`: the count is down already when the wake fails. -/
def dropSender (wakes : Bool) (c : Channel α) : Answer α × Channel α :=
  match c.countDown with
  | .error _ => (.panicked "assertion failed: channel.cnt_sender > 0", c)
  | .ok c' =>
      if c'.cnt_sender = 0 then
        if wakes then (.ok, c'.wake) else (.panicked "wakeup should succeed", c')
      else (.ok, c')

/-- `Drop for Receiver`. -/
def dropReceiver (c : Channel α) : Answer α × Channel α :=
  if c.has_receiver then (.ok, c.dropReceiver)
  else (.panicked "assertion failed: channel.has_receiver", c)

/-- What a handle does. -/
def perform (m : Mutex (Channel α)) (c : Call α) : Answer α × Mutex (Channel α) :=
  match c.op with
  | .send v => lock m (push c.wakes v)
  | .cloneSender => lock m fun c => (.ok, c.cloneSender)
  | .dropSender => lock m (dropSender c.wakes)
  | .tryRecv => lock m try_pop
  | .dropReceiver => lock m dropReceiver

/-- The queue in the channel. -/
def view (m : Mutex (Channel α)) : Queue α := ⟨m.data.queue, m.data.cnt_sender, m.data.has_receiver⟩

end CrossThread

/-- The channel between threads: `channel`, and then one operation after the other, as the mutex
lets them in. -/
def crossThread (α : Type) : Machine (Session (Mutex (Channel α)) α) (Call α) :=
  sessions CrossThread.perform ⟨.new, false⟩

/-! ## In one thread -/

namespace SameThread

/-- `Channel<T>`. -/
structure Channel (α : Type) where
  has_receiver : Bool
  cnt_sender : ℕ
  queue : List α

/-- `Channel::new`. -/
def Channel.new : Channel α := ⟨true, 1, []⟩

/-- `Channel::push`. -/
def push (v : α) (c : Channel α) : Answer α × Channel α :=
  if c.cnt_sender = 0 then (.panicked "assertion failed: self.cnt_sender > 0", c)
  else if c.has_receiver then (.ok, { c with queue := c.queue ++ [v] })
  else (.refused v, c)

/-- `Channel::try_pop`. -/
def try_pop (c : Channel α) : Answer α × Channel α :=
  if c.has_receiver then
    match c.queue with
    | v :: queue => (.received v, { c with queue := queue })
    | [] => (if c.cnt_sender = 0 then .disconnected else .empty, c)
  else (.panicked "assertion failed: self.has_receiver", c)

/-- `Drop for Sender`. -/
def dropSender (c : Channel α) : Answer α × Channel α :=
  if c.cnt_sender = 0 then (.panicked "assertion failed: channel.cnt_sender > 0", c)
  else (.ok, { c with cnt_sender := c.cnt_sender - 1 })

/-- `Drop for Receiver`. -/
def dropReceiver (c : Channel α) : Answer α × Channel α :=
  if c.has_receiver then (.ok, { c with has_receiver := false })
  else (.panicked "assertion failed: channel.has_receiver", c)

/-- What a handle does: there is nobody to wake. -/
def perform (c : Channel α) (call : Call α) : Answer α × Channel α :=
  match call.op with
  | .send v => push v c
  | .cloneSender => (.ok, { c with cnt_sender := c.cnt_sender + 1 })
  | .dropSender => dropSender c
  | .tryRecv => try_pop c
  | .dropReceiver => dropReceiver c

/-- The queue in the channel. -/
def view (c : Channel α) : Queue α := ⟨c.queue, c.cnt_sender, c.has_receiver⟩

end SameThread

/-- The channel of one thread. -/
def sameThread (α : Type) : Machine (Session (SameThread.Channel α) α) (Call α) :=
  sessions SameThread.perform .new

/-! ## Each answers like the queue -/

/-- The drop of the last sender needs its wake. -/
def WakesLast {χ : Type} (s : Session χ α) (c : Call α) : Prop :=
  match c.op with
  | .dropSender => s.senders = 1 → c.wakes = true
  | _ => True

/-- Nothing is wrong under the guard, and the guard goes. -/
theorem CrossThread.lock_eq {χ : Type} {m : Mutex χ} {f : χ → Answer α × χ}
    (hm : m.poisoned = false) (hf : ∀ message, (f m.data).1 ≠ .panicked message) :
    CrossThread.lock m f = ((f m.data).1, ⟨(f m.data).2, false⟩) := by
  rw [CrossThread.lock, if_neg (by simp [hm])]
  cases hr : (f m.data).1 with
  | panicked message => exact absurd hr (hf message)
  | _ => simp [hr]

/-- **The channel between threads answers like the queue**, as long as it can say that the last
sender is gone. -/
theorem CrossThread.perform_eq {s : Session (Mutex (Channel α)) α}
    (hs : Sound (s.map CrossThread.view)) (hm : s.object.poisoned = false) {c : Call α}
    (hc : s.Holds c.op) (hwakes : WakesLast s c) :
    (CrossThread.perform s.object c).2.poisoned = false ∧
      ((CrossThread.perform s.object c).1, CrossThread.view (CrossThread.perform s.object c).2) =
        (CrossThread.view s.object).perform c := by
  have hsenders : s.object.data.cnt_sender = s.senders := hs.senders
  have hreceiver : s.object.data.has_receiver = s.receiver := hs.receiver
  obtain ⟨op, wakes⟩ := c
  cases op with
  | send v =>
      have hpos : s.object.data.cnt_sender ≠ 0 := hsenders ▸ Nat.ne_of_gt hc
      simp only [CrossThread.perform]
      rw [CrossThread.lock_eq hm]
      all_goals
        cases wakes <;> cases hr : s.object.data.has_receiver <;>
          simp [CrossThread.push, Channel.push, Channel.wake, CrossThread.view, Queue.perform, hpos,
            hr]
  | cloneSender =>
      simp only [CrossThread.perform]
      rw [CrossThread.lock_eq hm] <;>
        simp [CrossThread.view, Queue.perform, Channel.cloneSender]
  | dropSender =>
      have hpos : s.object.data.cnt_sender ≠ 0 := hsenders ▸ Nat.ne_of_gt hc
      have hlast : s.object.data.cnt_sender - 1 = 0 → wakes = true := fun h =>
        hwakes (hsenders ▸ by omega)
      simp only [CrossThread.perform]
      rw [CrossThread.lock_eq hm]
      all_goals
        by_cases hzero : s.object.data.cnt_sender - 1 = 0 <;>
          simp [CrossThread.dropSender, Channel.countDown, Channel.wake, CrossThread.view,
            Queue.perform, hpos, hzero, hlast]
  | tryRecv =>
      have hr : s.object.data.has_receiver = true := hreceiver.trans hc
      simp only [CrossThread.perform]
      rw [CrossThread.lock_eq hm]
      all_goals
        cases hqueue : s.object.data.queue <;> by_cases hzero : s.object.data.cnt_sender = 0 <;>
          simp [CrossThread.try_pop, Channel.tryPop, CrossThread.view, Queue.perform, hr, hqueue,
            hzero]
  | dropReceiver =>
      have hr : s.object.data.has_receiver = true := hreceiver.trans hc
      simp only [CrossThread.perform]
      rw [CrossThread.lock_eq hm] <;>
        simp [CrossThread.dropReceiver, CrossThread.view, Queue.perform, Channel.dropReceiver, hr]

/-- **So does the channel of one thread.** -/
theorem SameThread.perform_eq {s : Session (SameThread.Channel α) α}
    (hs : Sound (s.map SameThread.view)) {c : Call α} (hc : s.Holds c.op)
    (hwakes : c.wakes = true) :
    ((SameThread.perform s.object c).1, SameThread.view (SameThread.perform s.object c).2) =
      (SameThread.view s.object).perform c := by
  have hsenders : s.object.cnt_sender = s.senders := hs.senders
  have hreceiver : s.object.has_receiver = s.receiver := hs.receiver
  obtain ⟨op, wakes⟩ := c
  obtain rfl : wakes = true := hwakes
  cases op with
  | send v =>
      have hpos : s.object.cnt_sender ≠ 0 := hsenders ▸ Nat.ne_of_gt hc
      cases hr : s.object.has_receiver <;>
        simp [SameThread.perform, SameThread.push, SameThread.view, Queue.perform, hpos, hr]
  | cloneSender => rfl
  | dropSender =>
      have hpos : s.object.cnt_sender ≠ 0 := hsenders ▸ Nat.ne_of_gt hc
      simp [SameThread.perform, SameThread.dropSender, SameThread.view, Queue.perform, hpos]
  | tryRecv =>
      have hr : s.object.has_receiver = true := hreceiver.trans hc
      cases hqueue : s.object.queue <;>
        simp [SameThread.perform, SameThread.try_pop, SameThread.view, Queue.perform, hr, hqueue]
  | dropReceiver =>
      have hr : s.object.has_receiver = true := hreceiver.trans hc
      simp [SameThread.perform, SameThread.dropReceiver, SameThread.view, Queue.perform, hr]

/-! ## Every history -/

theorem CrossThread.inductive_sound : (crossThread α).Inductive WakesLast fun s =>
    Sound (s.map CrossThread.view) ∧ s.object.poisoned = false where
  init := ⟨⟨rfl, rfl, rfl⟩, rfl⟩
  step s c s' := by
    rintro ⟨hs, hm⟩ hwakes hstep
    obtain ⟨hc, rfl⟩ := sessions_step hstep
    obtain ⟨hm', heq⟩ := CrossThread.perform_eq hs hm hc hwakes
    refine ⟨?_, hm'⟩
    rw [Session.map_after, heq]
    exact hs.after c

theorem SameThread.inductive_sound : (sameThread α).Inductive (fun _ _ => True) fun s =>
    Sound (s.map SameThread.view) where
  init := ⟨rfl, rfl, rfl⟩
  step s c s' := by
    rintro hs - hstep
    obtain ⟨hc, rfl⟩ := sessions_step hstep
    have heq := SameThread.perform_eq hs (c := ⟨c.op, true⟩) hc rfl
    rw [Session.map_after]
    exact heq ▸ hs.after ⟨c.op, true⟩

/-- Where every wake succeeds, there is nothing to ask of the last sender. -/
theorem wakesLast_of_wakes {χ : Type} {s : Session χ α} {c : Call α} (hc : c.wakes = true) :
    WakesLast s c := by
  obtain ⟨op, wakes⟩ := c
  cases op with
  | dropSender => exact fun _ => hc
  | _ => trivial

/-- A replay of the channel between threads is one of the queue, if every wake succeeds. -/
theorem CrossThread.exec_queue {calls : List (Call α)} (hcalls : ∀ c ∈ calls, c.wakes = true) :
    ((crossThread α).exec (crossThread α).init calls).map (Session.map CrossThread.view) =
      (queues α).exec (queues α).init calls := by
  refine Machine.exec_map (I := fun s => Sound (s.map CrossThread.view) ∧ s.object.poisoned = false)
    (fun s c s' hs hc hstep => CrossThread.inductive_sound.step hs (wakesLast_of_wakes hc) hstep)
    ?_ CrossThread.inductive_sound.init hcalls
  rintro s c ⟨hs, hm⟩ hc
  exact sessions_step_map fun hold =>
    (CrossThread.perform_eq hs hm hold (wakesLast_of_wakes hc)).2

/-- A replay of the channel of one thread always is. -/
theorem SameThread.exec_queue {calls : List (Call α)} (hcalls : ∀ c ∈ calls, c.wakes = true) :
    ((sameThread α).exec (sameThread α).init calls).map (Session.map SameThread.view) =
      (queues α).exec (queues α).init calls := by
  refine Machine.exec_map (I := fun s => Sound (s.map SameThread.view))
    (fun s c s' hs _ hstep => SameThread.inductive_sound.step hs trivial hstep)
    ?_ SameThread.inductive_sound.init hcalls
  intro s c hs hc
  exact sessions_step_map fun hold => SameThread.perform_eq hs hold hc

/-- **The two give the same answers**, if every wake succeeds. -/
theorem answers_eq {calls : List (Call α)} (hcalls : ∀ c ∈ calls, c.wakes = true) :
    ((crossThread α).exec (crossThread α).init calls).map Session.answers =
      ((sameThread α).exec (sameThread α).init calls).map Session.answers := by
  have hcross := congrArg (Option.map Session.answers) (CrossThread.exec_queue hcalls)
  have hsame := congrArg (Option.map Session.answers) (SameThread.exec_queue hcalls)
  simp only [Option.map_map] at hcross hsame
  exact hcross.trans hsame.symm

/-! ## Nobody to tell -/

/-- Whatever locks a mutex that is poisoned panics, and changes nothing. -/
theorem CrossThread.perform_poisoned {m : Mutex (Channel α)} (hm : m.poisoned = true) (c : Call α) :
    CrossThread.perform m c = (.panicked "mutex should lock just fine", m) := by
  obtain ⟨op, wakes⟩ := c
  cases op <;> exact if_pos hm

/-- The drop of the last sender whose wake fails: it is counted out, but the mutex is poisoned. -/
theorem CrossThread.perform_unheard {s : Session (Mutex (Channel α)) α}
    (hs : Sound (s.map CrossThread.view)) (hm : s.object.poisoned = false) {c : Call α}
    (hwakes : ¬WakesLast s c) :
    c.op = .dropSender ∧ s.senders = 1 ∧ CrossThread.perform s.object c =
      (.panicked "wakeup should succeed", ⟨{ s.object.data with cnt_sender := 0 }, true⟩) := by
  have hsenders : s.object.data.cnt_sender = s.senders := hs.senders
  obtain ⟨op, wakes⟩ := c
  cases op with
  | dropSender =>
      obtain ⟨hone, hfail⟩ := Classical.not_imp.mp hwakes
      obtain rfl : wakes = false := by simpa using hfail
      refine ⟨rfl, hone, ?_⟩
      simp [CrossThread.perform, CrossThread.lock, CrossThread.dropSender, Channel.countDown, hm,
        hsenders, hone]
  | _ => exact absurd trivial hwakes

/-- …and it stays poisoned. -/
theorem CrossThread.exec_poisoned {s t : Session (Mutex (Channel α)) α} {calls : List (Call α)}
    (hs : s.object.poisoned = true) (hexec : (crossThread α).exec s calls = some t) :
    t.object = s.object := by
  refine Machine.exec_preserves (I := fun t => t.object = s.object) ?_ rfl hexec
  intro t c t' ht hstep
  obtain ⟨-, rfl⟩ := sessions_step hstep
  have hpoisoned : t.object.poisoned = true := ht ▸ hs
  exact (congrArg Prod.snd (CrossThread.perform_poisoned hpoisoned c)).trans ht

/-- **Both channels are one queue**, in every history: they count the senders, what was sent has
come out in this order or is still there, and each answer tells which.  The channel between threads
is so until the last sender cannot wake the receiver; that drop panics, with the sender counted out,
and every later operation panics at the mutex and changes nothing. -/
theorem channels_are_queues (α : Type) (calls : List (Call α)) :
    (∀ s, (crossThread α).Run WakesLast calls s →
      Sound (s.map CrossThread.view) ∧ ∀ c, s.Holds c.op → WakesLast s c →
        Tells CrossThread.view s c (CrossThread.perform s.object c)) ∧
    (∀ s, (sameThread α).Run (fun _ _ => True) calls s →
      Sound (s.map SameThread.view) ∧ ∀ op, s.Holds op →
        Tells SameThread.view s ⟨op, true⟩ (SameThread.perform s.object ⟨op, true⟩)) ∧
    ((∀ c ∈ calls, c.wakes = true) →
      ((crossThread α).exec (crossThread α).init calls).map Session.answers =
        ((sameThread α).exec (sameThread α).init calls).map Session.answers) ∧
    ∀ s c s', (crossThread α).Run WakesLast calls s → ¬WakesLast s c →
      (crossThread α).step s c = some s' →
      s'.answers = s.answers ++ [.panicked "wakeup should succeed"] ∧ s'.senders = 0 ∧
        CrossThread.view s'.object = { CrossThread.view s.object with senders := 0 } ∧
        ∀ calls' t, (crossThread α).exec s' calls' = some t →
          t.object = s'.object ∧ ∀ c, CrossThread.perform t.object c =
            (.panicked "mutex should lock just fine", t.object) := by
  refine ⟨fun s hrun => ?_, fun s hrun => ?_, answers_eq, fun s c s' hrun hwakes hstep => ?_⟩
  · obtain ⟨hs, hm⟩ := CrossThread.inductive_sound.of_run hrun
    refine ⟨hs, fun c hc hwakes => .of_view ?_⟩
    exact (CrossThread.perform_eq hs hm hc hwakes).2 ▸ hs.tells c
  · have hs := SameThread.inductive_sound.of_run hrun
    refine ⟨hs, fun op hop => .of_view ?_⟩
    exact SameThread.perform_eq hs (c := ⟨op, true⟩) hop rfl ▸ hs.tells ⟨op, true⟩
  · obtain ⟨hs, hm⟩ := CrossThread.inductive_sound.of_run hrun
    obtain ⟨-, rfl⟩ := sessions_step hstep
    obtain ⟨hop, hone, hperform⟩ := CrossThread.perform_unheard hs hm hwakes
    have hpoisoned : (s.after c.op (CrossThread.perform s.object c)).object.poisoned = true := by
      simp [Session.after, hperform]
    refine ⟨by simp [Session.after, hperform], by simp [Session.after, hop, hone],
      by simp [Session.after, hperform, CrossThread.view], fun calls' t hexec => ?_⟩
    have hobject := CrossThread.exec_poisoned hpoisoned hexec
    exact ⟨hobject, CrossThread.perform_poisoned (hobject ▸ hpoisoned)⟩

theorem channels_are_queues_two_senders :
    ∃ s, (crossThread ℕ).Run WakesLast
        [⟨.cloneSender, true⟩, ⟨.send 1, true⟩, ⟨.dropSender, false⟩, ⟨.tryRecv, true⟩] s ∧
      Sound (s.map CrossThread.view) ∧ s.received = [1] := by
  have hrun : (crossThread ℕ).Run WakesLast
      ([] ++ [⟨.cloneSender, true⟩] ++ [⟨.send 1, true⟩] ++ [⟨.dropSender, false⟩] ++
        [⟨.tryRecv, true⟩]) _ :=
    (((Machine.Run.init.step (by exact trivial) rfl).step (by exact trivial) rfl).step
      (fun h => absurd h (by decide)) rfl).step (by exact trivial) rfl
  exact ⟨_, hrun, ((channels_are_queues ℕ _).1 _ hrun).1, rfl⟩

/-- The only sender is dropped, and its wake fails: nothing is queued and no sender is left, but
`try_recv` panics. -/
theorem disconnect_unheard :
    ∃ s, (crossThread ℕ).Run (fun _ _ => True) [⟨.dropSender, false⟩] s ∧
      (CrossThread.view s.object).values = [] ∧ s.senders = 0 ∧ s.Holds .tryRecv ∧
      (CrossThread.perform s.object ⟨.tryRecv, true⟩).1 = .panicked "mutex should lock just fine" ∧
      ¬Tells CrossThread.view s ⟨.tryRecv, true⟩
        (CrossThread.perform s.object ⟨.tryRecv, true⟩) := by
  have hrun : (crossThread ℕ).Run (fun _ _ => True) ([] ++ [⟨.dropSender, false⟩]) _ :=
    Machine.Run.init.step trivial rfl
  refine ⟨_, hrun, rfl, rfl, rfl, rfl, fun htells => ?_⟩
  exact htells.calm _ rfl

end SendersReceivers.Sync
