import SendersReceivers.StopToken.Contract

/-!
# StopToken/Progress — what one turn of a thread does, and that there are not many

While no function panics, no mutex is ever poisoned, and each turn of a thread is one of a few
(`Turn`).  Each of them does a part of what the threads were told to do: an operation is done once,
be it in a thread or in a box, and a loop of `request_stop` visits no more slots than there can be.
-/

namespace SendersReceivers.StopToken

open Machinery

/-! ## Turns -/

/-- What the instructions that take a mutex take, and where that leads. -/
def Instr.enters : Instr → Option (ℕ × Instr)
  | .op (.callback q caller body drops) => some (q, .load q caller ⟨body, drops⟩)
  | .lockStop q => some (q, .invoke q 0)
  | .lockClear q callback_slot id => some (q, .clear q callback_slot id)
  | _ => none

/-- There is a handle of source `q` with that name, which is not detached. -/
def Live (handles : List (ℕ × StoppableCallback)) (q name : ℕ) : Prop :=
  ∃ h ∈ handles, h.1 = name ∧ h.2.state = some q

instance (handles : List (ℕ × StoppableCallback)) (q name : ℕ) : Decidable (Live handles q name) :=
  inferInstanceAs (Decidable (∃ h ∈ handles, h.1 = name ∧ h.2.state = some q))

/-- **One turn of thread `i`**, which is at `x`, with `k` behind it. -/
inductive Turn (s : State) (i : ℕ) (k : List Instr) : Instr → State → Prop
  | store (q : ℕ) : Turn s i k (.op (.requestStop q)) ((s.store q).goto i [.lockStop q] k)
  | enter {x inside : Instr} (q : ℕ) : x.enters = some (q, inside) → s.holders q = 0 →
      Turn s i k x (s.goto i [inside] k)
  | forget {x : Instr} (q name : ℕ) : x = .op (.drop q name) ∨ x = .op (.detach q name) →
      Turn s i k x (s.goto i [] k)
  | detach (q name id : ℕ) :
      Turn s i k (.op (.detach q name))
        { (s.goto i [] k).record (.detached q id) with
          handles := s.handles.modify (s.findHandle q name) fun h => (h.1, h.2.detach) }
  | take (q name n id : ℕ) : Live s.handles q name →
      Turn s i k (.op (.drop q name))
        { s.goto i [.lockClear q n id] k with
          handles := s.handles.eraseIdx (s.findHandle q name) }
  | done (q j : ℕ) : (s.sources q).callbacks[j]? = none →
      Turn s i k (.invoke q j) ((s.goto i [] k).record (.stopReturned q))
  | skip (q j id : ℕ) : (s.sources q).callbacks[j]? = some id → s.functions[id]? = some none →
      Turn s i k (.invoke q j) (s.goto i [.invoke q (j + 1)] k)
  | run (q j id : ℕ) (f : Callback) : (s.sources q).callbacks[j]? = some id →
      s.functions[id]? = some (some f) →
      Turn s i k (.invoke q j)
        { (s.goto i (code f.body ++ [.invoke q (j + 1)]) k).record (.invoked q id) with
          functions := s.functions.set id none }
  | refuse (q : ℕ) (caller : Caller) (f : Callback) : (s.sources q).stopped = true →
      Turn s i k (.load q caller f) (s.refuse i k q caller f)
  | accept (q : ℕ) (caller : Caller) (f : Callback) : (s.sources q).stopped = false →
      Turn s i k (.load q caller f) (s.goto i [.push q caller f] k)
  | push (q : ℕ) (caller : Caller) (f : Callback) :
      Turn s i k (.push q caller f) (s.push i k q caller f)
  | clear (q n id : ℕ) : (s.sources q).callbacks[n]? = some id →
      Turn s i k (.clear q n id)
        { (s.goto i (code (s.boxDrops id) ++ [.cleared q id]) k).record (.dropped q id) with
          functions := s.functions.set id none }
  | cleared (q id : ℕ) :
      Turn s i k (.cleared q id) ((s.goto i [] k).record (.dropReturned q id))

/-- No mutex is poisoned, and the code has not panicked. -/
structure Calm (s : State) : Prop where
  poisoned : ∀ q, (s.sources q).poisoned = false
  panics : s.panics = []

/-- No function panics. -/
def Peaceful (_ : State) : Label → Prop
  | .panic _ => False
  | _ => True

instance (s : State) (l : Label) : Decidable (Peaceful s l) := by
  unfold Peaceful
  split <;> infer_instance

section

variable {s t : State} {i : ℕ} {k : List Instr} {x : Instr} {l : Label}

theorem Calm.lock (h : Calm s) {q : ℕ} {inside : Instr} (hx : x.enters = some (q, inside))
    (hs : s.lock i k q inside = some t) : Turn s i k x t := by
  obtain ⟨hfree, ⟨hpoisoned, -⟩ | ⟨-, rfl⟩⟩ := lock_cases hs
  · rw [h.poisoned q] at hpoisoned
    cases hpoisoned
  · exact .enter q hx hfree

/-- **Each step of a thread is a turn.** -/
theorem Calm.turn (h : Calm s) (hinv : Inv s) (hi : s.threads[i]? = some (x :: k))
    (hs : s.exec i k x = some t) : Turn s i k x t := by
  cases x with
  | op o =>
      cases o with
      | requestStop q => exact Option.some.inj hs ▸ .store q
      | callback q caller body drops => exact h.lock rfl hs
      | drop q name =>
          obtain rfl := Option.some.inj hs
          simp only [State.drop]
          split
          · exact .forget q name (.inl rfl)
          next name' cb hfind =>
            refine .take q name cb.callback_slot cb.id
              ⟨_, List.mem_of_getElem? hfind, ?_, findHandle_state hfind⟩
            have := List.findIdx_of_getElem?_eq_some hfind
            simp only [decide_eq_true_eq] at this
            exact this.1
      | detach q name =>
          obtain rfl := Option.some.inj hs
          simp only [State.detach]
          split
          · exact .forget q name (.inr rfl)
          next name' cb hfind => exact .detach q name cb.id
  | lockStop q => exact h.lock rfl hs
  | invoke q j =>
      obtain rfl := Option.some.inj hs
      simp only [State.invoke]
      split
      next hslot => exact .done q j hslot
      next id hslot =>
        have hlt := (hinv.slot hslot).2
        split
        next f hf => exact .run q j id f hslot hf
        next hf =>
          refine .skip q j id hslot ?_
          have hsome : s.functions[id]?.isSome := by simpa using hlt
          obtain ⟨f, hbox⟩ := Option.isSome_iff_exists.mp hsome
          cases f with
          | none => exact hbox
          | some f => exact absurd hbox (hf f)
  | load q caller f =>
      obtain rfl := Option.some.inj hs
      split
      next hstopped => exact .refuse q caller f hstopped
      next hstopped => exact .accept q caller f (by simpa using hstopped)
  | push q caller f => exact Option.some.inj hs ▸ .push q caller f
  | lockClear q n id => exact h.lock rfl hs
  | clear q n id =>
      have hslot : (s.sources q).callbacks[n]? = some id := hinv.code _ (mem_flatten_head hi)
      obtain rfl := Option.some.inj hs
      simp only [State.clear, hslot]
      exact .clear q n id hslot
  | cleared q id => exact Option.some.inj hs ▸ .cleared q id

theorem Turn.calm (h : Turn s i k x t) (hs : Calm s) : Calm t := by
  cases h with
  | store q => exact ⟨fun q' => by simpa [State.goto, store_source] using hs.poisoned q', hs.panics⟩
  | push q caller f =>
      exact ⟨fun q' => by simpa [push_source] using hs.poisoned q',
        (push_panics s i k q caller f).trans hs.panics⟩
  | _ => exact ⟨hs.poisoned, hs.panics⟩

/-- A step of a run without panics: a call, or a turn. -/
theorem Calm.step_cases (h : Calm s) (hinv : Inv s) (hl : Peaceful s l)
    (hs : StopToken.step s l = some t) :
    (∃ o, l = .call o ∧
      t = { s with threads := s.threads ++ [[.op o]], called := s.called ++ [o] }) ∨
      ∃ i x k, l = .run i ∧ s.threads[i]? = some (x :: k) ∧ Turn s i k x t := by
  obtain ⟨o, rfl, rfl⟩ | ⟨i, x, k, rfl, hi, hs⟩ | ⟨i, x, k, rfl, -⟩ :=
    StopToken.step_cases hs
  · exact .inl ⟨o, rfl, rfl⟩
  · exact .inr ⟨i, x, k, rfl, hi, h.turn hinv hi hs⟩
  · exact hl.elim

theorem Calm.step (h : Calm s) (hinv : Inv s) (hl : Peaceful s l)
    (hs : StopToken.step s l = some t) : Calm t := by
  obtain ⟨o, -, rfl⟩ | ⟨i, x, k, -, -, hturn⟩ := h.step_cases hinv hl hs
  · exact ⟨h.poisoned, h.panics⟩
  · exact hturn.calm h

end

/-! ## How much there is to do -/

mutual

/-- The weights of an operation and of all those in its function, added up. -/
def Op.sum (w : Op → ℕ) : Op → ℕ
  | .callback q caller body drops =>
      w (.callback q caller body drops) + (Op.sums w body + Op.sums w drops)
  | .requestStop q => w (.requestStop q)
  | .drop q name => w (.drop q name)
  | .detach q name => w (.detach q name)

def Op.sums (w : Op → ℕ) : List Op → ℕ
  | [] => 0
  | o :: body => o.sum w + Op.sums w body

end

/-- The weights of all that the function may do. -/
def Callback.sum (w : Op → ℕ) (f : Callback) : ℕ := Op.sums w f.body + Op.sums w f.drops

/-- How many registrations there are. -/
def Op.registrations : Op → ℕ
  | .callback .. => 1
  | _ => 0

/-- How many turns an operation takes, if no vector is longer than `n`. -/
def Op.turns (n : ℕ) : Op → ℕ
  | .requestStop _ => n + 3
  | .callback .. => 3
  | .drop .. => 4
  | .detach .. => 1

def Instr.registrations : Instr → ℕ
  | .op o => o.sum Op.registrations
  | .load _ _ f | .push _ _ f => 1 + f.sum Op.registrations
  | _ => 0

def Instr.turns (n : ℕ) : Instr → ℕ
  | .op o => o.sum (Op.turns n)
  | .lockStop _ => n + 2
  | .invoke _ j => n - j + 1
  | .load _ _ f => 2 + f.sum (Op.turns n)
  | .push _ _ f => 1 + f.sum (Op.turns n)
  | .lockClear .. => 3
  | .clear .. => 2
  | .cleared .. => 1

/-- Each function counts once, and what is in its box besides. -/
def boxRegistrations : Option Callback → ℕ
  | some f => 1 + f.sum Op.registrations
  | none => 1

def boxTurns (n : ℕ) : Option Callback → ℕ
  | some f => f.sum (Op.turns n)
  | none => 0

/-- The weights of all instructions and of all boxes, added up. -/
def State.sum (s : State) (wi : Instr → ℕ) (wb : Option Callback → ℕ) : ℕ :=
  total wi s.threads + weight wb s.functions

/-- **A turn costs `d`**: what it puts in place of an instruction weighs so much less, if no vector
is longer than `n`. -/
structure Priced (n d : ℕ) (wi : Instr → ℕ) (wb : Option Callback → ℕ) : Prop where
  store : ∀ q, wi (.lockStop q) + d ≤ wi (.op (.requestStop q))
  enter : ∀ x q inside, x.enters = some (q, inside) → wi inside + d ≤ wi x
  detach : ∀ q name, d ≤ wi (.op (.detach q name))
  take : ∀ q name m id, wi (.lockClear q m id) + d ≤ wi (.op (.drop q name))
  done : ∀ q j, d ≤ wi (.invoke q j)
  skip : ∀ q, ∀ j < n, wi (.invoke q (j + 1)) + d ≤ wi (.invoke q j)
  box : ∀ f : Callback, weight wi (code f.body) + weight wi (code f.drops) + wb none ≤ wb (some f)
  refuse : ∀ q caller f, weight wi (code f.body) + weight wi (code f.drops) + wb none + d ≤
    wi (.load q caller f)
  accept : ∀ q caller f, wi (.push q caller f) + d ≤ wi (.load q caller f)
  push : ∀ q caller f, wb (some f) + d ≤ wi (.push q caller f)
  clear : ∀ q m id, wi (.cleared q id) + d ≤ wi (.clear q m id)
  cleared : ∀ q id, d ≤ wi (.cleared q id)

theorem weight_code {w : Op → ℕ} {wi : Instr → ℕ} (hw : ∀ o, wi (.op o) = o.sum w) (f : List Op) :
    weight wi (code f) = Op.sums w f := by
  induction f with
  | nil => rfl
  | cons o f ih =>
      simp only [code, List.map_cons, weight_cons, Op.sums, hw] at ih ⊢
      rw [ih]

/-- Registrations are not made up. -/
theorem priced_registrations (n : ℕ) : Priced n 0 Instr.registrations boxRegistrations where
  store _ := Nat.zero_le _
  enter x q inside hx := by
    unfold Instr.enters at hx
    split at hx <;> cases hx <;>
      simp [Instr.registrations, Op.sum, Callback.sum, Op.registrations]
  detach _ _ := Nat.zero_le _
  take _ _ _ _ := Nat.zero_le _
  done _ _ := Nat.zero_le _
  skip _ _ _ := Nat.zero_le _
  box f := by
    rw [weight_code (fun _ => rfl), weight_code (fun _ => rfl)]
    exact (Nat.add_comm _ _).le
  refuse q caller f := by
    rw [weight_code (fun _ => rfl), weight_code (fun _ => rfl)]
    exact (Nat.add_comm (f.sum Op.registrations) 1).le
  accept _ _ _ := le_rfl
  push _ _ _ := le_rfl
  clear _ _ _ := Nat.zero_le _
  cleared _ _ := Nat.zero_le _

/-- Turns are used up. -/
theorem priced_turns (n : ℕ) : Priced n 1 (Instr.turns n) (boxTurns n) where
  store _ := le_rfl
  enter x q inside hx := by
    unfold Instr.enters at hx
    split at hx <;> cases hx <;> simp only [Instr.turns, Op.sum, Callback.sum, Op.turns] <;> omega
  detach _ _ := le_rfl
  take _ _ _ _ := le_rfl
  done _ _ := Nat.le_add_left _ _
  skip _ j hj := by
    simp only [Instr.turns]
    omega
  box f := by
    rw [weight_code (fun _ => rfl), weight_code (fun _ => rfl)]
    exact le_rfl
  refuse q caller f := by
    rw [weight_code (fun _ => rfl), weight_code (fun _ => rfl)]
    simp only [boxTurns, Instr.turns, Callback.sum]
    omega
  accept q caller f := by
    simp only [Instr.turns]
    omega
  push q caller f := by
    simp only [boxTurns, Instr.turns]
    omega
  clear _ _ _ := le_rfl
  cleared _ _ := le_rfl

section

variable {s t : State} {i n d : ℕ} {k c : List Instr} {x : Instr} {wi : Instr → ℕ}
  {wb : Option Callback → ℕ}

/-- What a turn does to a sum over threads. -/
theorem total_goto (wi : Instr → ℕ) (hi : s.threads[i]? = some (x :: k)) (c : List Instr) :
    total wi (s.goto i c k).threads + wi x = total wi s.threads + weight wi c := by
  have := Machinery.total_goto wi hi c []
  rwa [List.append_nil, total_nil, Nat.add_zero] at this

/-- A box is emptied, and what was in it is destroyed. -/
theorem Priced.destroy_le (hp : Priced n d wi wb) (s : State) (id : ℕ) :
    weight wi (code (s.boxDrops id)) + weight wb (s.functions.set id none) ≤
      weight wb s.functions := by
  unfold State.boxDrops
  split
  next f hf =>
    have hset := weight_set wb hf none
    have hbox := hp.box f
    omega
  next hne =>
    cases hbox : s.functions[id]? with
    | none => rw [List.set_eq_of_length_le (List.getElem?_eq_none_iff.mp hbox)]; simp [code]
    | some b =>
        cases b with
        | none =>
            have hset := weight_set wb hbox none
            simp only [code, List.map_nil, weight_nil]
            omega
        | some f => exact absurd hbox (hne f)

theorem sum_goto (hi : s.threads[i]? = some (x :: k)) (c : List Instr)
    (ht : t.threads = (s.goto i c k).threads)
    (hle : weight wi c + weight wb t.functions + d ≤ wi x + weight wb s.functions) :
    t.sum wi wb + d ≤ s.sum wi wb := by
  have hgoto := total_goto wi hi c
  rw [← ht] at hgoto
  simp only [State.sum]
  omega

/-- **Every turn pays.** -/
theorem Turn.pays (h : Turn s i k x t) (hp : Priced n d wi wb)
    (hi : s.threads[i]? = some (x :: k)) (hn : ∀ q, (s.sources q).callbacks.length ≤ n) :
    t.sum wi wb + d ≤ s.sum wi wb := by
  have hlt : ∀ {q j id : ℕ}, (s.sources q).callbacks[j]? = some id → j < n := fun {q j id} hslot =>
    (List.getElem?_eq_some_iff.mp hslot).1.trans_le (hn q)
  cases h with
  | store q =>
      refine sum_goto hi [.lockStop q] rfl ?_
      have := hp.store q
      simp only [weight_cons, weight_nil, State.goto, State.store, State.setSource, State.record]
      omega
  | @enter _ inside q hx _ =>
      refine sum_goto hi [inside] rfl ?_
      have := hp.enter x q inside hx
      simp only [weight_cons, weight_nil, State.goto]
      omega
  | forget q name hx =>
      refine sum_goto hi [] rfl ?_
      have hdrop := hp.take q name 0 0
      have hdetach := hp.detach q name
      simp only [weight_nil, State.goto]
      obtain rfl | rfl := hx <;> omega
  | detach q name id =>
      refine sum_goto hi [] rfl ?_
      have := hp.detach q name
      simp only [weight_nil, State.goto, State.record]
      omega
  | take q name m id _ =>
      refine sum_goto hi [.lockClear q m id] rfl ?_
      have := hp.take q name m id
      simp only [weight_cons, weight_nil, State.goto]
      omega
  | done q j _ =>
      refine sum_goto hi [] rfl ?_
      have := hp.done q j
      simp only [weight_nil, State.goto, State.record]
      omega
  | skip q j id hslot _ =>
      refine sum_goto hi [.invoke q (j + 1)] rfl ?_
      have := hp.skip q j (hlt hslot)
      simp only [weight_cons, weight_nil, State.goto]
      omega
  | run q j id f hslot hf =>
      refine sum_goto hi (code f.body ++ [.invoke q (j + 1)]) rfl ?_
      have hskip := hp.skip q j (hlt hslot)
      have hbox := hp.box f
      have hset := weight_set wb hf none
      simp only [weight_append, weight_cons, weight_nil]
      omega
  | refuse q caller f _ =>
      refine sum_goto hi (code (if caller.runsErr then f.body else f.drops)) rfl ?_
      have := hp.refuse q caller f
      simp only [State.refuse, weight_append, weight_cons, weight_nil]
      split <;> omega
  | accept q caller f _ =>
      refine sum_goto hi [.push q caller f] rfl ?_
      have := hp.accept q caller f
      simp only [weight_cons, weight_nil, State.goto]
      omega
  | push q caller f =>
      refine sum_goto hi [] (push_threads ..) ?_
      have := hp.push q caller f
      simp only [push_functions, weight_append, weight_cons, weight_nil]
      omega
  | clear q m id _ =>
      refine sum_goto hi (code (s.boxDrops id) ++ [.cleared q id]) rfl ?_
      have hclear := hp.clear q m id
      have hset := hp.destroy_le s id
      simp only [weight_append, weight_cons, weight_nil]
      omega
  | cleared q id =>
      refine sum_goto hi [] rfl ?_
      have := hp.cleared q id
      simp only [weight_nil, State.goto, State.record]
      omega

end

/-! ## The bound -/

/-- Each slot has a box of its own. -/
def Slots (s : State) : Prop := ∀ q, (s.sources q).callbacks.length ≤ s.functions.length

/-- What holds in every run without panics. -/
structure Peace (s : State) : Prop where
  inv : Inv s
  calm : Calm s
  slots : Slots s

/-- No vector is longer than `n`, or will be. -/
def Fits (s : State) (n : ℕ) : Prop := s.sum Instr.registrations boxRegistrations ≤ n

section

variable {s t : State} {i n : ℕ} {k : List Instr} {x : Instr} {l : Label}

theorem Turn.slots (h : Turn s i k x t) (hs : Slots s) : Slots t := by
  intro q'
  cases h with
  | store q =>
      show ((s.store q).sources q').callbacks.length ≤ s.functions.length
      rw [store_source]
      exact hs q'
  | push q caller f =>
      have hle := hs q'
      rw [push_source, push_functions]
      simp only [List.length_append, List.length_singleton]
      split
      · exact Nat.add_le_add_right hle 1
      · exact hle.trans (Nat.le_add_right _ _)
  | refuse q caller f _ =>
      simp only [State.refuse, List.length_append]
      exact (hs q').trans (Nat.le_add_right _ _)
  | run q j id f _ _ => exact (hs q').trans_eq List.length_set.symm
  | clear q m id _ => exact (hs q').trans_eq List.length_set.symm
  | _ => exact hs q'

theorem Peace.step (h : Peace s) (hl : Peaceful s l) (hs : StopToken.step s l = some t) :
    Peace t := by
  refine ⟨h.inv.step hs, h.calm.step h.inv hl hs, ?_⟩
  obtain ⟨o, -, rfl⟩ | ⟨i, x, k, -, -, hturn⟩ := h.calm.step_cases h.inv hl hs
  · exact h.slots
  · exact hturn.slots h.slots

theorem Peace.inductive : machine.Inductive Peaceful Peace where
  init := ⟨Inv.inductive.init, ⟨fun _ => rfl, rfl⟩, fun _ => le_rfl⟩
  step _ _ _ h hl hs := h.step hl hs

/-- A registration that is still to come has no box yet. -/
theorem length_le_weight (boxes : List (Option Callback)) :
    boxes.length ≤ weight boxRegistrations boxes := by
  induction boxes with
  | nil => exact le_rfl
  | cons b boxes ih =>
      have hone : 1 ≤ boxRegistrations b := by
        cases b with
        | none => exact le_rfl
        | some f => exact Nat.le_add_right 1 _
      rw [List.length_cons, weight_cons]
      omega

theorem Fits.callbacks_le (h : Fits s n) (hs : Slots s) (q : ℕ) :
    (s.sources q).callbacks.length ≤ n := by
  have hlength := length_le_weight s.functions
  have hslots := hs q
  simp only [Fits, State.sum] at h
  omega

/-- The threads take only so many turns. -/
theorem Peace.exec_le (h : Peace s) (hfits : Fits s n) (as : List Label)
    (has : ∀ l ∈ as, ∃ i, l = .run i) (hexec : machine.exec s as = some t) :
    as.length + t.sum (Instr.turns n) (boxTurns n) ≤ s.sum (Instr.turns n) (boxTurns n) := by
  induction as generalizing s with
  | nil =>
      obtain rfl := Option.some.inj hexec
      rw [List.length_nil, Nat.zero_add]
  | cons l as ih =>
      obtain ⟨s', hs', hexec'⟩ := Option.bind_eq_some_iff.mp hexec
      obtain ⟨i, rfl⟩ := has l (.head _)
      obtain ⟨o, hl, -⟩ | ⟨i', x, k, -, hi, hturn⟩ :=
        h.calm.step_cases (l := .run i) h.inv trivial hs'
      · cases hl
      · have hn := hfits.callbacks_le h.slots
        have hpaid := hturn.pays (priced_turns n) hi hn
        have hfits' : Fits s' n := (hturn.pays (priced_registrations n) hi hn).trans hfits
        have hrest := ih (h.step (l := .run i) trivial hs') hfits'
          (fun l hl => has l (.tail _ hl)) hexec'
        rw [List.length_cons]
        omega

/-- **Every call ends, or waits**: without new calls, there is a bound on the turns. -/
theorem Peace.bounded (h : Peace s) : ∃ n, ∀ as t, machine.exec s as = some t →
    (∀ l ∈ as, ∃ i, l = .run i) → as.length ≤ n :=
  ⟨_, fun as _ hexec has =>
    (Nat.le_add_right _ _).trans (h.exec_le (n := s.sum Instr.registrations boxRegistrations) le_rfl
      as has hexec)⟩

end

end SendersReceivers.StopToken
