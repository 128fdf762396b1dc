import SendersReceivers.Chain.Ledger
import SendersReceivers.Chain.Threads
import SendersReceivers.Machinery.Threads

/-!
# Chain/Schedules — a chain delivers its denotation on every schedule

A ledger beside the state says what each thread, and each task that waits, has: its handles, how
many effects it has left, and whether the signal is its duty.  Every handle is in the books once,

    strong i  =  threads + tasks + references + inside of the open scopes + `pinned`

so the last handle of a scope goes where the signal is, and nowhere else.  `pinned` are the handles
that whoever started the chain keeps.
-/

namespace SendersReceivers.Threads

open Machinery

variable {P V E U : Type}

/-- What a thread, or a task, has. -/
structure Job where
  held : Multiset ℕ
  cost : ℕ
  active : Bool

/-- The job is what the code does: it delivers the signal, or only gives back. -/
def Job.Fits (o : Outcome P V E U) (pinned : Multiset ℕ) (Γ : Scopes P V E U) (t : Token V U)
    (code : Prog P V E U) (j : Job) : Prop :=
  match j.active with
  | true => Owes o pinned Γ j.held code t j.cost
  | false => code.Clears Γ j.held j.cost

/-- The scopes, the stack of the open ones, the job of each thread and of each task that waits, and
the effects left in the destructor that a stored signal waits for. -/
structure Ledger (P V E U : Type) where
  scopes : Scopes P V E U
  stack : List ℕ
  threads : List (Thread P V E U × Job)
  queue : List ((P × Prog P V E U) × Job)
  pending : ℕ

/-- How many handles of scope `i` the data of scope `k` owns. -/
def inside (Γ : Scopes P V E U) (i k : ℕ) : ℕ := ((Γ k).elim 0 ScopeEntry.inside).count i

namespace Ledger

variable (g : Ledger P V E U)

/-- The handles of scope `i` that are in the books. -/
def handles (s : State P V E U) (pinned : Multiset ℕ) (i : ℕ) : ℕ :=
  weight (fun x => x.2.held.count i) g.threads + weight (fun x => x.2.held.count i) g.queue +
    weight (fun p => if p.id = i then 1 else 0) s.lent + weight (inside g.scopes i) g.stack +
    pinned.count i

/-- How many jobs have the signal to deliver. -/
def owing : ℕ :=
  weight (fun x => x.2.active.toNat) g.threads + weight (fun x => x.2.active.toNat) g.queue

/-- The steps that are left at most.  A reference takes two: the user drops it, and the drop runs.
-/
def potential (s : State P V E U) : ℕ :=
  weight (fun x => x.2.cost) g.threads + weight (fun x => x.2.cost + 1) g.queue +
    2 * s.lent.length + g.pending

end Ledger

/-- Where the duty starts from in state `s`. -/
def State.token (s : State P V E U) (stack : List ℕ) : Token V U :=
  ⟨s.world.mem, s.world.next, stack⟩

/-- The open scopes, each with a handle of the next one inside. -/
def Nested (Γ : Scopes P V E U) : List ℕ → Prop
  | [] => False
  | [i] => i = 0
  | i :: j :: stack =>
      (∃ e, Γ i = some e ∧ j ∈ e.inside ∧ ∀ k ∈ e.inside, k < i) ∧ Nested Γ (j :: stack)

/-- **Where the signal is**: a job has to deliver it, it is stored in the innermost scope, or it has
been delivered. -/
inductive Place (o : Outcome P V E U) (g : Ledger P V E U) (s : State P V E U) : Prop
  | running (howing : g.owing = 1) (hlog : s.world.log = [])
    (hshared : ∀ i, s.world.shared i = none)
  | stored (i : ℕ) (stack : List ℕ) (e : ScopeEntry P V E U) (sig : Signal P V E)
      (howing : g.owing = 0) (hlog : s.world.log = []) (hstack : g.stack = i :: stack)
      (he : g.scopes i = some e)
      (hshared : ∀ k, s.world.shared k = if k = i then some sig else none)
      (hopen : 0 < s.world.strong i) (hinner : stack ≠ [])
      (hdrop : Owes o 0 g.scopes e.inside (e.drop (some sig)) (s.token stack) g.pending)
  | delivered (howing : g.owing = 0) (hlog : s.world.log = [o.signal]) (hmem : s.world.mem = o.mem)
      (hstack : g.stack = [0]) (hshared : ∀ i, s.world.shared i = none)

/-- **The invariant**: the books are right. -/
structure Books (o : Outcome P V E U) (pinned : Multiset ℕ) (g : Ledger P V E U)
    (s : State P V E U) : Prop where
  threads : g.threads.map Prod.fst = s.threads
  queue : g.queue.map Prod.fst = s.queue
  fits : ∀ x ∈ g.threads, x.2.Fits o pinned g.scopes (s.token g.stack) x.1.code
  tasks : ∀ x ∈ g.queue,
    x.2.active = true ∧ x.2.Fits o pinned g.scopes (s.token g.stack) x.1.2
  lent : ∀ p ∈ s.lent, p.id ≠ 0 ∧ g.scopes.Drops p.id p.drop
  nested : Nested g.scopes g.stack
  fresh : g.scopes.Fresh s.world.next
  root : g.scopes 0 = some ⟨fun _ => .ret, 0⟩
  counts : ∀ i, s.world.strong i = g.handles s pinned i
  live : ∀ i, 0 < s.world.strong i → i ∈ g.stack
  place : Place o g s
  panics : s.panics = []

/-! ## The stack of open scopes -/

section Nested

variable {Γ Γ' : Scopes P V E U} {i k : ℕ} {stack : List ℕ}

theorem Nested.mono (h : Nested Γ stack) (hΓ : Γ.Extends Γ') : Nested Γ' stack := by
  induction stack with
  | nil => exact h
  | cons i stack ih =>
      cases stack with
      | nil => exact h
      | cons j stack =>
          obtain ⟨⟨e, he, hin⟩, hrest⟩ := h
          exact ⟨⟨e, hΓ i e he, hin⟩, ih hrest⟩

theorem Nested.entry (h : Nested Γ stack) (hroot : (Γ 0).isSome) (hi : i ∈ stack) :
    (Γ i).isSome := by
  induction stack with
  | nil => cases hi
  | cons j stack ih =>
      cases stack with
      | nil =>
          obtain rfl : j = 0 := h
          obtain rfl : i = 0 := by simpa using hi
          exact hroot
      | cons k stack =>
          obtain ⟨⟨e, he, -⟩, hrest⟩ := h
          obtain rfl | hi := List.mem_cons.mp hi
          · simp [he]
          · exact ih hrest hi

/-- What is inside of a scope was opened before it. -/
theorem Nested.inside_lt (h : Nested Γ stack) (hroot : Γ 0 = some ⟨fun _ => .ret, 0⟩)
    (hk : k ∈ stack)
    (hi : 0 < inside Γ i k) : i < k := by
  induction stack with
  | nil => cases hk
  | cons j stack ih =>
      cases stack with
      | nil =>
          obtain rfl : j = 0 := h
          obtain rfl : k = 0 := by simpa using hk
          simp [inside, hroot] at hi
      | cons l stack =>
          obtain ⟨⟨e, he, -, hlt⟩, hrest⟩ := h
          obtain rfl | hk := List.mem_cons.mp hk
          · simp only [inside, he, Option.elim_some, Multiset.count_pos] at hi
            exact hlt i hi
          · exact ih hrest hk

theorem Nested.tail (h : Nested Γ (i :: stack)) (hne : stack ≠ []) : Nested Γ stack := by
  cases stack with
  | nil => exact absurd rfl hne
  | cons j stack => exact h.2

/-- The scopes were opened one after the other. -/
theorem Nested.lt (h : Nested Γ (i :: stack)) (hk : k ∈ stack) : k < i := by
  induction stack generalizing i with
  | nil => cases hk
  | cons j stack ih =>
      obtain ⟨⟨e, -, hj, hlt⟩, hrest⟩ := h
      obtain rfl | hk := List.mem_cons.mp hk
      · exact hlt k hj
      · exact (ih hrest hk).trans (hlt j hj)

/-- Every scope but the innermost one has a handle inside of another. -/
theorem Nested.inside_pos (h : Nested Γ (i :: stack)) (hk : k ∈ stack) :
    0 < weight (inside Γ k) (i :: stack) := by
  induction stack generalizing i with
  | nil => cases hk
  | cons j stack ih =>
      obtain ⟨⟨e, he, hj, -⟩, hrest⟩ := h
      rw [weight_cons]
      obtain rfl | hk := List.mem_cons.mp hk
      · have hpos : 0 < inside Γ k i := by simpa [inside, he, Multiset.count_pos] using hj
        omega
      · have := ih hrest hk
        omega

end Nested

/-! ## One job changes -/

section Jobs

variable {o : Outcome P V E U} {pinned : Multiset ℕ} {g g' : Ledger P V E U} {s s' : State P V E U}
  {t : ℕ} {x x' y : Thread P V E U × Job}

theorem Books.job (h : Books o pinned g s) {th : Thread P V E U} (ht : s.threads[t]? = some th) :
    ∃ j, g.threads[t]? = some (th, j) := by
  rw [← h.threads, List.getElem?_map, Option.map_eq_some_iff] at ht
  obtain ⟨⟨th', j⟩, hj, rfl⟩ := ht
  exact ⟨j, hj⟩

theorem active_le_owing (hx : g.threads[t]? = some x) : x.2.active.toNat ≤ g.owing :=
  (le_weight (fun x : Thread P V E U × Job => x.2.active.toNat) hx).trans (Nat.le_add_right _ _)

theorem Books.owing_le (h : Books o pinned g s) : g.owing ≤ 1 := by
  cases h.place with
  | running howing => omega
  | stored _ _ _ _ howing => omega
  | delivered howing => omega

/-- Where a thread has the duty, no task waits: each task has one. -/
theorem Books.queue_nil (h : Books o pinned g s) (hx : g.threads[t]? = some x)
    (hall : g.owing ≤ x.2.active.toNat) : g.queue = [] := by
  by_contra hne
  obtain ⟨y, queue, hy⟩ := List.exists_cons_of_ne_nil hne
  have hactive := (h.tasks y (hy ▸ .head _)).1
  have hle := le_weight (fun x : Thread P V E U × Job => x.2.active.toNat) hx
  simp only [Ledger.owing, hy, weight_cons, hactive, Bool.toNat_true] at hall
  omega

/-- …and no other thread has one. -/
theorem inactive_of_mem_set (hx : g.threads[t]? = some x) (hall : g.owing ≤ x.2.active.toNat)
    (hy : y ∈ g.threads.set t x') : y = x' ∨ y ∈ g.threads ∧ y.2.active = false := by
  refine (add_le_weight_of_mem_set (fun x => x.2.active.toNat) hx hy).imp id fun ⟨hmem, hle⟩ => ?_
  refine ⟨hmem, ?_⟩
  cases hactive : y.2.active with
  | false => rfl
  | true =>
      simp only [Ledger.owing, hactive, Bool.toNat_true] at hall hle
      omega

/-- A job that only gives back minds neither the token nor new scopes. -/
theorem Job.Fits.mono {j : Job} {Γ Γ' : Scopes P V E U} {tok tok' : Token V U}
    {code : Prog P V E U} (h : j.Fits o pinned Γ tok code) (hj : j.active = false)
    (hΓ : Γ.Extends Γ') : j.Fits o pinned Γ' tok' code := by
  unfold Job.Fits at h ⊢
  simp only [hj] at h ⊢
  exact h.mono hΓ

/-- **The other jobs stay**: they only give back, or there is nothing new for them. -/
theorem Books.fits_set (h : Books o pinned g s) (hx : g.threads[t]? = some x)
    {Γ' : Scopes P V E U} {tok' : Token V U} (hΓ : g.scopes.Extends Γ')
    (hquiet : g.owing ≤ x.2.active.toNat ∨ Γ' = g.scopes ∧ tok' = s.token g.stack)
    (hfit : x'.2.Fits o pinned Γ' tok' x'.1.code) :
    ∀ y ∈ g.threads.set t x', y.2.Fits o pinned Γ' tok' y.1.code := by
  intro y hy
  obtain hall | ⟨rfl, rfl⟩ := hquiet
  · obtain rfl | ⟨hmem, hinactive⟩ := inactive_of_mem_set hx hall hy
    · exact hfit
    · exact (h.fits y hmem).mono hinactive hΓ
  · obtain hmem | rfl := List.mem_or_eq_of_mem_set hy
    · exact h.fits y hmem
    · exact hfit

/-- The signal stays where it is. -/
theorem Place.keep (h : Place o g s) (howing : g'.owing = g.owing) (hscopes : g'.scopes = g.scopes)
    (hstack : g'.stack = g.stack) (hpending : g'.pending = g.pending)
    (hlog : s'.world.log = s.world.log) (hmem : s'.world.mem = s.world.mem)
    (hnext : s'.world.next = s.world.next) (hshared : s'.world.shared = s.world.shared)
    (hopen : ∀ i sig, s.world.shared i = some sig → 0 < s'.world.strong i) : Place o g' s' := by
  cases h with
  | running howing' hlog' hshared' =>
      exact .running (howing.trans howing') (hlog.trans hlog') (hshared ▸ hshared')
  | stored i stack e sig howing' hlog' hstack' he hshared' _ hinner hdrop =>
      refine .stored i stack e sig (howing.trans howing') (hlog.trans hlog') (hstack.trans hstack')
        (hscopes ▸ he) (hshared ▸ hshared') (hopen i sig (by rw [hshared', if_pos rfl])) hinner ?_
      rw [hscopes, hpending, State.token, hmem, hnext]
      exact hdrop
  | delivered howing' hlog' hmem' hstack' hshared' =>
      exact .delivered (howing.trans howing') (hlog.trans hlog') (hmem.trans hmem')
        (hstack.trans hstack') (hshared ▸ hshared')

/-- Only an open scope has a signal stored. -/
theorem Books.open_of_shared (h : Books o pinned g s) {i : ℕ} {sig : Signal P V E}
    (hi : s.world.shared i = some sig) : 0 < s.world.strong i := by
  cases h.place with
  | running _ _ hshared => simp [hshared] at hi
  | stored k stack e sig' _ _ _ _ hshared hopen =>
      rw [hshared] at hi
      split at hi
      next hik => exact hik ▸ hopen
      next => cases hi
  | delivered _ _ _ _ hshared => simp [hshared] at hi

/-- The head of the stack, or further down. -/
theorem Books.top_or_inside (h : Books o pinned g s) {i : ℕ} (hi : i ∈ g.stack) :
    g.stack.head? = some i ∨ 0 < weight (inside g.scopes i) g.stack := by
  have hnested := h.nested
  cases hstack : g.stack with
  | nil => simp [hstack] at hi
  | cons k stack =>
      rw [hstack] at hi hnested
      obtain rfl | hi := List.mem_cons.mp hi
      · exact .inl rfl
      · exact .inr (hnested.inside_pos hi)

/-- What a thread has of the handles of scope `i`, and what the others have. -/
theorem Books.strong_set (h : Books o pinned g s) (hx : g.threads[t]? = some x) (x' : _) (i : ℕ) :
    s.world.strong i + x'.2.held.count i =
      weight (fun y => y.2.held.count i) (g.threads.set t x') + x.2.held.count i +
        weight (fun y => y.2.held.count i) g.queue +
        weight (fun p => if p.id = i then 1 else 0) s.lent + weight (inside g.scopes i) g.stack +
        pinned.count i := by
  have hset := weight_set (fun y : Thread P V E U × Job => y.2.held.count i) hx x'
  have hcount := h.counts i
  simp only [Ledger.handles] at hcount
  omega

/-- A thread's handles, those inside of the open scopes, and the pinned ones are some of them. -/
theorem Books.held_le (h : Books o pinned g s) {th : Thread P V E U} {j : Job}
    (hx : g.threads[t]? = some (th, j)) (i : ℕ) :
    j.held.count i + weight (inside g.scopes i) g.stack + pinned.count i ≤ s.world.strong i := by
  have hcount := h.counts i
  have hle : j.held.count i ≤ weight (fun y => y.2.held.count i) g.threads :=
    le_weight (fun y : Thread P V E U × Job => y.2.held.count i) hx
  rw [Ledger.handles] at hcount
  omega

/-- **While the signal is on its way, no last handle is dropped** by a thread that only gives
back. -/
theorem Books.not_last (h : Books o pinned g s) (hx : g.threads[t]? = some x)
    (hidle : x.2.active = false) (howing : g.owing = 1) {i : ℕ} (hi : i ∈ x.2.held) :
    1 < s.world.strong i := by
  have hcount := h.counts i
  have hone : 1 ≤ x.2.held.count i := Multiset.one_le_count_iff_mem.mpr hi
  have hle := le_weight (fun y : Thread P V E U × Job => y.2.held.count i) hx
  have hmem : i ∈ g.stack := h.live i (by rw [hcount, Ledger.handles]; omega)
  rw [hcount, Ledger.handles]
  obtain htop | hinside := h.top_or_inside hmem
  · -- the job that has the duty keeps the innermost scope open
    have hanchor : ∀ j : Job, ∀ code, j.active = true →
        j.Fits o pinned g.scopes (s.token g.stack) code → 1 ≤ pinned.count i + j.held.count i := by
      intro j code hj hfit
      unfold Job.Fits at hfit
      simp only [hj] at hfit
      rw [← Multiset.count_add, Multiset.one_le_count_iff_mem]
      exact hfit.anchored i htop
    obtain hpos | hpos : 0 < weight (fun y : Thread P V E U × Job => y.2.active.toNat) g.threads ∨
        0 < weight (fun y : (P × Prog P V E U) × Job => y.2.active.toNat) g.queue := by
      rw [Ledger.owing] at howing
      omega
    · obtain ⟨k, y, hy, hactive⟩ := exists_of_weight_pos _ hpos
      have hactive : y.2.active = true := by simpa [Nat.pos_iff_ne_zero] using hactive
      have := hanchor y.2 y.1.code hactive (h.fits y (List.mem_of_getElem? hy))
      have hmem : y ∈ g.threads.set t x := by
        obtain ⟨ht, hself⟩ := List.getElem?_eq_some_iff.mp hx
        rw [← hself, List.set_getElem_self]
        exact List.mem_of_getElem? hy
      obtain rfl | ⟨-, hle⟩ := add_le_weight_of_mem_set (fun y => y.2.held.count i) hx hmem
      · simp [hidle] at hactive
      · omega
    · obtain ⟨k, y, hy, -⟩ := exists_of_weight_pos _ hpos
      obtain ⟨hactive, hfit⟩ := h.tasks y (List.mem_of_getElem? hy)
      have := hanchor y.2 y.1.2 hactive hfit
      have := le_weight (fun y : (P × Prog P V E U) × Job => y.2.held.count i) hy
      omega
  · omega

/-- **A thread gives back**: it goes on with `code`, which only gives back, too; counts and
references change with what it has. -/
theorem Books.tidy (h : Books o pinned g s) {th : Thread P V E U} {j : Job}
    (hx : g.threads[t]? = some (th, j)) (hidle : j.active = false) {code : Prog P V E U}
    {held : Multiset ℕ} {cost : ℕ} {lent : List (ScopePtr P V E U)} {strong : ℕ → ℕ}
    (hfit : code.Clears g.scopes held cost)
    (hlent : ∀ p ∈ lent, p.id ≠ 0 ∧ g.scopes.Drops p.id p.drop)
    (hcounts : ∀ i, strong i + j.held.count i + weight (fun p => if p.id = i then 1 else 0) s.lent =
      s.world.strong i + held.count i + weight (fun p => if p.id = i then 1 else 0) lent)
    (hlive : ∀ i, 0 < strong i → i ∈ g.stack)
    (hopen : ∀ i sig, s.world.shared i = some sig → 0 < strong i) :
    Books o pinned { g with
      threads := g.threads.set t ({ th with code := code }, ⟨held, cost, false⟩) }
      { s.goto t th code with lent := lent, world := { s.world with strong := strong } } := by
  refine { h with
    threads := by rw [List.map_set, h.threads]; rfl
    fits := h.fits_set hx (.refl _) (.inr ⟨rfl, rfl⟩) hfit
    lent := hlent
    counts := fun i => ?_
    live := hlive
    place := h.place.keep ?_ rfl rfl rfl rfl rfl rfl rfl hopen }
  · have hset := h.strong_set hx ({ th with code := code }, ⟨held, cost, false⟩) i
    have := hcounts i
    simp only [Ledger.handles] at hset this ⊢
    omega
  · have := weight_set (fun x : Thread P V E U × Job => x.2.active.toNat) hx
      ({ th with code := code }, ⟨held, cost, false⟩)
    simp only [Ledger.owing, hidle] at this ⊢
    omega

/-- Giving back shortens what is left. -/
theorem potential_tidy {th : Thread P V E U} {j : Job} (hx : g.threads[t]? = some (th, j))
    {code : Prog P V E U} {j' : Job}
    (hcost : j'.cost + 2 * s'.lent.length < j.cost + 2 * s.lent.length) :
    ({ g with threads := g.threads.set t ({ th with code := code }, j') } :
      Ledger P V E U).potential s' <
      g.potential s := by
  have := weight_set (fun x : Thread P V E U × Job => x.2.cost) hx ({ th with code := code }, j')
  simp only [Ledger.potential] at this ⊢
  omega

/-- One handle less, in the count and with its owner. -/
theorem count_release {strong : ℕ → ℕ} {held : Multiset ℕ} {i n : ℕ} (hi : i ∈ held)
    (hn : strong i = n + 1) (l : ℕ) :
    Function.update strong i n l + held.count l = strong l + (held.erase i).count l := by
  obtain rfl | hne := eq_or_ne l i
  · have := Multiset.one_le_count_iff_mem.mpr hi
    rw [Function.update_self, Multiset.count_erase_self]
    omega
  · rw [Function.update_of_ne hne, Multiset.count_erase_of_ne hne]

/-- Less than one handle less leaves what is open. -/
theorem open_of_release {strong : ℕ → ℕ} {i n l : ℕ} (hn : strong i = n + 1)
    (hl : 0 < Function.update strong i n l) : 0 < strong l := by
  obtain rfl | hne := eq_or_ne l i
  · omega
  · rwa [Function.update_of_ne hne] at hl

/-- The reference of scope `i` is dropped by the function it was lent to. -/
theorem weight_lent_eraseP {lent : List (ScopePtr P V E U)} {i : ℕ}
    (hany : lent.any (fun p => p.id = i)) :
    (lent.eraseP fun p => p.id = i).length + 1 = lent.length ∧
    ∀ l, weight (fun p => if p.id = l then 1 else 0) (lent.eraseP fun p => p.id = i) +
      (if i = l then 1 else 0) = weight (fun p => if p.id = l then 1 else 0) lent := by
  obtain ⟨k, hk⟩ : ∃ k, lent.findIdx? (fun p => p.id = i) = some k := by
    rw [← Option.isSome_iff_exists, List.findIdx?_isSome]
    exact hany
  obtain ⟨hlt, hp, -⟩ := List.findIdx?_eq_some_iff_getElem.mp hk
  have hid : lent[k].id = i := of_decide_eq_true hp
  rw [List.eraseP_eq_eraseIdx, hk]
  refine ⟨by simp [List.length_eraseIdx, hlt]; omega, fun l => ?_⟩
  rw [← weight_eraseIdx _ (List.getElem?_eq_getElem hlt), hid]

/-- **A step of a thread that only gives back**, unless it drops a handle. -/
theorem Books.exec_idle (h : Books o pinned g s) {th : Thread P V E U} {j : Job}
    (hx : g.threads[t]? = some (th, j)) (hidle : j.active = false)
    (hnot : ∀ i drop k, th.code = .release i drop k → 1 < s.world.strong i)
    (hs : exec s t th = some s') :
    ∃ g', Books o pinned g' s' ∧ g'.potential s' < g.potential s := by
  have hfit : th.code.Clears g.scopes j.held j.cost := by
    have := h.fits _ (List.mem_of_getElem? hx)
    simpa only [Job.Fits, hidle] using this
  unfold exec at hs
  cases hcode : th.code with
  | ret => simp [hcode] at hs
  | call f k =>
      rw [hcode] at hfit hs
      obtain ⟨c, hc, rfl, hk⟩ := hfit
      cases hs
      exact ⟨_, h.tidy hx hidle (hk s.world.mem) h.lent (fun _ => rfl) h.live
        fun i sig => h.open_of_shared, potential_tidy hx (by simp [hc, State.goto])⟩
  | release i drop k =>
      have hmany := hnot i drop k hcode
      rw [hcode] at hfit hs
      obtain ⟨c, hc, hdrop, hi, hk⟩ := hfit
      obtain ⟨n, hn⟩ : ∃ n, s.world.strong i = n + 2 := ⟨s.world.strong i - 2, by omega⟩
      simp only [hn] at hs
      cases hs
      refine ⟨_, h.tidy hx hidle hk h.lent (fun l => ?_)
        (fun l hl => h.live l (open_of_release hn hl))
        (fun l sig hl => ?_), potential_tidy hx (by simp [hc, State.goto])⟩
      · have := count_release hi hn l
        dsimp only [State.goto]
        omega
      · have := h.open_of_shared hl
        obtain rfl | hne := eq_or_ne l i
        · simp
        · rwa [Function.update_of_ne hne]
  | reclaim i drop k =>
      rw [hcode] at hfit hs
      obtain ⟨c, hc, hdrop, hk⟩ := hfit
      dsimp only at hs
      split at hs
      next hany =>
        obtain ⟨hlength, hweight⟩ := weight_lent_eraseP hany
        have hrelease : (Prog.release i drop k).Clears g.scopes (i ::ₘ j.held) (c + 1) :=
          ⟨c, rfl, hdrop, Multiset.mem_cons_self _ _, by rwa [Multiset.erase_cons_head]⟩
        cases hs
        refine ⟨_, h.tidy hx hidle hrelease (fun p hp => h.lent p (List.mem_of_mem_eraseP hp))
          (fun l => ?_) h.live fun i sig => h.open_of_shared, potential_tidy hx ?_⟩
        · have := hweight l
          have hcons := Multiset.count_cons l i j.held
          rw [if_congr (eq_comm (a := l)) rfl rfl] at hcons
          change s.world.strong l + _ + _ = s.world.strong l + _ + _
          omega
        · change c + 1 + 2 * (s.lent.eraseP fun p => p.id = i).length < j.cost + 2 * s.lent.length
          omega
      next =>
        cases hs
        exact ⟨_, h.tidy hx hidle hk h.lent (fun _ => rfl) h.live fun i sig => h.open_of_shared,
          potential_tidy hx (by simp [hc, State.goto])⟩
  | enter | lazily | emit | newScope | store | clone | lend | spawn =>
      rw [hcode] at hfit
      exact hfit.elim

/-- The root scope has nothing to call. -/
theorem Books.drop_root (h : Books o pinned g s) {drop : Option (Signal P V E) → Prog P V E U}
    (hdrop : g.scopes.Drops 0 drop) (shared : Option (Signal P V E)) : drop shared = .ret := by
  obtain ⟨inside, hinside⟩ := hdrop
  rw [h.root] at hinside
  cases hinside
  rfl

/-- **The last handle of the scope that has the signal**: its destructor runs where it is dropped,
and that thread has the duty now. -/
theorem Books.exec_last (h : Books o pinned g s) {th : Thread P V E U} {j : Job}
    (hx : g.threads[t]? = some (th, j)) (hidle : j.active = false) {i : ℕ}
    {drop : Option (Signal P V E) → Prog P V E U} {k : Prog P V E U}
    (hcode : th.code = .release i drop k) (hlast : s.world.strong i = 1)
    (hs : exec s t th = some s') :
    ∃ g', Books o pinned g' s' ∧ g'.potential s' < g.potential s := by
  have hfit := h.fits _ (List.mem_of_getElem? hx)
  simp only [Job.Fits, hidle, hcode] at hfit
  obtain ⟨c, hc, hdrop, hi, hk⟩ := hfit
  simp only [exec, hcode, hlast] at hs
  cases hs
  have hmem : i ∈ g.stack := h.live i (by omega)
  cases h.place with
  | running howing => exact absurd (h.not_last hx hidle howing hi) (by omega)
  | delivered howing hlog hmem' hstack hshared =>
      obtain rfl : i = 0 := by simpa [hstack] using hmem
      have hfree : s.world.free 0 =
          { s.world with strong := Function.update s.world.strong 0 0 } := by
        rw [World.free, ← hshared 0, Function.update_eq_self]
      rw [h.drop_root hdrop, hfree]
      refine ⟨_, h.tidy hx hidle hk h.lent (fun l => ?_)
        (fun l hl => h.live l (open_of_release hlast hl)) (fun l sig hl => ?_),
        potential_tidy hx (by simp [hc, State.goto])⟩
      · have := count_release hi hlast l
        dsimp only [State.goto]
        omega
      · simp [hshared] at hl
  | stored top stack e sig howing hlog hstack he hshared hopen hinner hduty =>
      have hone : 1 ≤ j.held.count i := Multiset.one_le_count_iff_mem.mpr hi
      have hheld := h.held_le hx i
      obtain rfl : top = i := by
        obtain htop | hinside := h.top_or_inside hmem
        · simpa [hstack] using htop
        · omega
      obtain ⟨inside', hinside'⟩ := hdrop
      rw [he] at hinside'
      cases hinside'
      rw [show s.world.shared top = some sig by rw [hshared, if_pos rfl]]
      have hquiet : g.owing ≤ (th, j).2.active.toNat := by omega
      have hduty' := (hduty.mono (Multiset.zero_le (pinned + j.held.erase top))).seq rfl hk
      refine ⟨{ g with
        stack := stack
        threads := g.threads.set t ({ th with code := (drop (some sig)).seq k },
          ⟨inside' + j.held.erase top, g.pending + c, true⟩)
        pending := 0 }, { h with
        threads := by rw [List.map_set, h.threads]; rfl
        fits := h.fits_set hx (.refl _) (.inl hquiet) hduty'
        tasks := by simp [h.queue_nil hx hquiet]
        nested := (hstack ▸ h.nested).tail hinner
        counts := fun l => ?_
        live := fun l hl => ?_
        place := .running ?_ hlog fun l => ?_ }, ?_⟩
      · have := count_release hi hlast l
        have hset := h.strong_set hx ({ th with code := (drop (some sig)).seq k },
          ⟨inside' + j.held.erase top, g.pending + c, true⟩) l
        rw [hstack, weight_cons] at hset
        have hinside : inside g.scopes l top = inside'.count l := by simp [inside, he]
        simp only [Ledger.handles, Multiset.count_add, hinside] at hset ⊢
        change Function.update s.world.strong top 0 l = _
        dsimp only [State.goto]
        omega
      · have hl' := h.live l (open_of_release hlast hl)
        rw [hstack] at hl'
        refine (List.mem_cons.mp hl').resolve_left ?_
        rintro rfl
        simp [World.free] at hl
      · have := weight_set (fun x : Thread P V E U × Job => x.2.active.toNat) hx
          ({ th with code := (drop (some sig)).seq k },
            ⟨inside' + j.held.erase top, g.pending + c, true⟩)
        simp only [Ledger.owing, hidle, Bool.toNat_true, Bool.toNat_false] at this howing ⊢
        omega
      · obtain rfl | hne := eq_or_ne l top
        · simp [World.free]
        · simp [World.free, hne, hshared]
      · have := weight_set (fun x : Thread P V E U × Job => x.2.cost) hx
          ({ th with code := (drop (some sig)).seq k },
            ⟨inside' + j.held.erase top, g.pending + c, true⟩)
        simp only [Ledger.potential, hc] at this ⊢
        dsimp only [State.goto]
        omega

theorem Books.lt_next (h : Books o pinned g s) {i : ℕ} (hi : i ∈ g.stack) : i < s.world.next := by
  by_contra hge
  have hnone := h.fresh i (by omega)
  have hsome := h.nested.entry (by simp [h.root]) hi
  simp [hnone] at hsome

/-- Handles are of open scopes. -/
theorem Books.mem_stack (h : Books o pinned g s) {th : Thread P V E U} {j : Job}
    (hx : g.threads[t]? = some (th, j)) {i : ℕ} (hi : i ∈ j.held) : i ∈ g.stack := by
  have hone : 1 ≤ j.held.count i := Multiset.one_le_count_iff_mem.mpr hi
  have hheld := h.held_le hx i
  exact h.live i (by omega)

/-! ## The job that has the signal to deliver -/

theorem Books.running (h : Books o pinned g s) {th : Thread P V E U} {j : Job}
    (hx : g.threads[t]? = some (th, j)) (hactive : j.active = true) :
    g.owing = 1 ∧ s.world.log = [] ∧ ∀ i, s.world.shared i = none := by
  have hle := active_le_owing hx
  simp only [hactive, Bool.toNat_true] at hle
  cases h.place with
  | running howing hlog hshared => exact ⟨howing, hlog, hshared⟩
  | stored _ _ _ _ howing => omega
  | delivered howing => omega

/-- **The thread with the duty goes on**, in the same scopes. -/
theorem Books.go (h : Books o pinned g s) {th : Thread P V E U} {j : Job}
    (hx : g.threads[t]? = some (th, j)) (hactive : j.active = true) {code : Prog P V E U}
    {held : Multiset ℕ} {cost : ℕ} {lent : List (ScopePtr P V E U)} {strong : ℕ → ℕ} {mem : Mem V U}
    {calls : List (Local P × Option P)}
    (hfit : Owes o pinned g.scopes held code ⟨mem, s.world.next, g.stack⟩ cost)
    (hlent : ∀ p ∈ lent, p.id ≠ 0 ∧ g.scopes.Drops p.id p.drop)
    (hcounts : ∀ i, strong i + j.held.count i + weight (fun p => if p.id = i then 1 else 0) s.lent =
      s.world.strong i + held.count i + weight (fun p => if p.id = i then 1 else 0) lent)
    (hlive : ∀ i, 0 < strong i → i ∈ g.stack) :
    Books o pinned { g with
      threads := g.threads.set t ({ th with code := code }, ⟨held, cost, true⟩) }
      { s.goto t th code with
        lent := lent
        calls := calls
        world := { s.world with strong := strong, mem := mem } } := by
  obtain ⟨howing, hlog, hshared⟩ := h.running hx hactive
  have hquiet : g.owing ≤ (th, j).2.active.toNat := by rw [howing, hactive]; rfl
  refine { h with
    threads := by rw [List.map_set, h.threads]; rfl
    fits := h.fits_set hx (.refl _) (.inl hquiet) hfit
    tasks := by simp [h.queue_nil hx hquiet]
    lent := hlent
    counts := fun i => ?_
    live := hlive
    place := .running ?_ hlog hshared }
  · have hset := h.strong_set hx ({ th with code := code }, ⟨held, cost, true⟩) i
    have := hcounts i
    simp only [Ledger.handles] at hset this ⊢
    omega
  · have := weight_set (fun x : Thread P V E U × Job => x.2.active.toNat) hx
      ({ th with code := code }, ⟨held, cost, true⟩)
    simp only [Ledger.owing, hactive] at this howing ⊢
    omega

/-- One handle more, in the count and with its owner. -/
theorem count_clone (strong : ℕ → ℕ) (held : Multiset ℕ) (i l : ℕ) :
    Function.update strong i (strong i + 1) l + held.count l = strong l + (i ::ₘ held).count l := by
  obtain rfl | hne := eq_or_ne l i
  · rw [Function.update_self, Multiset.count_cons_self]
    omega
  · rw [Function.update_of_ne hne, Multiset.count_cons_of_ne hne]

/-- **The thread hands the duty on**, to the receiver, to a scope or to a task, and only gives back
from now on. -/
theorem Books.yield (h : Books o pinned g s) {th : Thread P V E U} {j : Job}
    (hx : g.threads[t]? = some (th, j)) (hactive : j.active = true) {code : Prog P V E U}
    {held : Multiset ℕ} {cost : ℕ} (pending : ℕ) (queue : List ((P × Prog P V E U) × Job))
    (world : World P V E U) (hfit : code.Clears g.scopes held cost)
    (htasks : ∀ x ∈ queue, x.2.active = true ∧
      x.2.Fits o pinned g.scopes ⟨world.mem, world.next, g.stack⟩ x.1.2)
    (hheld : ∀ i, j.held.count i = held.count i + weight (fun x => x.2.held.count i) queue)
    (hnext : world.next = s.world.next) (hstrong : world.strong = s.world.strong)
    (hs : s' = { s.goto t th code with queue := queue.map Prod.fst, world := world })
    (hplace : ∀ g' : Ledger P V E U, g'.scopes = g.scopes → g'.stack = g.stack →
      g'.pending = pending → g'.owing = queue.length → Place o g' s')
    (hcost : cost + weight (fun x => x.2.cost + 1) queue + pending < j.cost + g.pending) :
    ∃ g', Books o pinned g' s' ∧ g'.potential s' < g.potential s := by
  obtain ⟨howing, -, -⟩ := h.running hx hactive
  have hquiet : g.owing ≤ (th, j).2.active.toNat := by rw [howing, hactive]; rfl
  have hqueue : g.queue = [] := h.queue_nil hx hquiet
  subst hs
  refine ⟨{ g with
    threads := g.threads.set t ({ th with code := code }, ⟨held, cost, false⟩)
    queue := queue
    pending := pending }, { h with
    threads := by rw [List.map_set, h.threads]; rfl
    queue := rfl
    fits := h.fits_set hx (.refl _) (.inl hquiet) hfit
    tasks := htasks
    fresh := hnext ▸ h.fresh
    counts := fun i => ?_
    live := fun i hi => h.live i (hstrong ▸ hi)
    place := hplace _ rfl rfl rfl ?_ }, ?_⟩
  · have hset := h.strong_set hx ({ th with code := code }, ⟨held, cost, false⟩) i
    have := hheld i
    simp only [hqueue, weight_nil, Ledger.handles] at hset ⊢
    rw [hstrong]
    dsimp only [State.goto]
    omega
  · have hset := weight_set (fun x : Thread P V E U × Job => x.2.active.toNat) hx
      ({ th with code := code }, ⟨held, cost, false⟩)
    have hlength : weight (fun x => x.2.active.toNat) queue = queue.length := calc
      weight (fun x => x.2.active.toNat) queue = weight (fun _ => 1) queue :=
        weight_congr _ fun x hx => by rw [(htasks x hx).1]; rfl
      _ = queue.length := by simp [weight]
    simp only [Ledger.owing, hqueue, weight_nil, hactive, Bool.toNat_true, Bool.toNat_false]
      at howing hset ⊢
    omega
  · have hset := weight_set (fun x : Thread P V E U × Job => x.2.cost) hx
      ({ th with code := code }, ⟨held, cost, false⟩)
    simp only [Ledger.potential, hqueue, weight_nil] at hset ⊢
    dsimp only [State.goto]
    omega

/-- A scope that is opened adds what is inside of it. -/
theorem weight_inside_insert (Γ : Scopes P V E U) (e : ScopeEntry P V E U) (l : ℕ) {n : ℕ}
    {stack : List ℕ} (hn : n ∉ stack) : weight (inside (Γ.insert n e) l) (n :: stack) =
      e.inside.count l + weight (inside Γ l) stack := by
  have hothers : weight (inside (Γ.insert n e) l) stack = weight (inside Γ l) stack := by
    refine weight_congr _ fun i hi => ?_
    have hne : i ≠ n := fun hin => hn (hin ▸ hi)
    simp [inside, Scopes.insert, hne]
  rw [weight_cons, hothers]
  simp [inside]

/-- **A `LetValue` opens its scope.** -/
theorem Books.exec_newScope (h : Books o pinned g s) {home : Option P} {value : List V}
    {k : ℕ → Prog P V E U} {held : Multiset ℕ} {c : ℕ} (e : ScopeEntry P V E U)
    (hx : g.threads[t]? = some (⟨home, .newScope value k⟩, ⟨e.inside + held, c + 1, true⟩))
    (hfresh : g.scopes s.world.next = none) (hanchor : Anchored g.stack e.inside)
    (hk : Owes o pinned (g.scopes.insert s.world.next e)
      (s.world.next ::ₘ s.world.next ::ₘ s.world.next ::ₘ held) (k s.world.next)
      ⟨s.world.mem.setCell s.world.next value, s.world.next + 1, s.world.next :: g.stack⟩ c) :
    ∃ g', Books o pinned g' { s.goto t ⟨home, .newScope value k⟩ (k s.world.next) with
      world := s.world.newScope value } ∧
      g'.potential { s.goto t ⟨home, .newScope value k⟩ (k s.world.next) with
        world := s.world.newScope value } < g.potential s := by
  obtain ⟨howing, hlog, hshared⟩ := h.running hx rfl
  have hΓ : g.scopes.Extends (g.scopes.insert s.world.next e) := Scopes.extends_insert hfresh
  have hclosed : s.world.strong s.world.next = 0 := by
    by_contra hopen
    exact (h.lt_next (h.live s.world.next (by omega))).false
  refine ⟨{ g with
    scopes := g.scopes.insert s.world.next e
    stack := s.world.next :: g.stack
    threads := g.threads.set t (⟨home, k s.world.next⟩,
      ⟨s.world.next ::ₘ s.world.next ::ₘ s.world.next ::ₘ held, c, true⟩) }, { h with
    threads := by rw [List.map_set, h.threads]; rfl
    fits := h.fits_set hx hΓ (.inl (by rw [howing]; rfl)) hk
    tasks := by simp [h.queue_nil hx (by rw [howing]; rfl)]
    lent := fun p hp => (h.lent p hp).imp id fun hdrop => hdrop.mono hΓ
    nested := ?_
    fresh := h.fresh.insert
    root := hΓ 0 _ h.root
    counts := fun l => ?_
    live := fun l hl => ?_
    place := .running ?_ hlog fun l => ?_ }, ?_⟩
  · obtain ⟨top, stack, hstack⟩ : ∃ top stack, g.stack = top :: stack := by
      refine List.exists_cons_of_ne_nil fun hnil => ?_
      have hnested := h.nested
      rwa [hnil] at hnested
    have hnested := h.nested.mono hΓ
    rw [hstack] at hnested hanchor ⊢
    refine ⟨⟨e, Scopes.insert_self, hanchor top rfl, fun l hl => ?_⟩, hnested⟩
    exact h.lt_next (h.mem_stack hx (Multiset.mem_add.mpr (.inl hl)))
  · have hset := h.strong_set hx (⟨home, k s.world.next⟩,
      ⟨s.world.next ::ₘ s.world.next ::ₘ s.world.next ::ₘ held, c, true⟩) l
    have hstack := weight_inside_insert g.scopes e l fun hn => (h.lt_next hn).false
    simp only [Ledger.handles, hstack, Multiset.count_add, Multiset.count_cons] at hset ⊢
    change (s.world.newScope value).strong l = _
    dsimp only [State.goto]
    obtain rfl | hl := eq_or_ne l s.world.next
    · simp only [World.newScope, Function.update_self, if_true] at hset ⊢
      omega
    · simp only [World.newScope, Function.update_of_ne hl, hl, if_false] at hset ⊢
      omega
  · obtain rfl | hne := eq_or_ne l s.world.next
    · exact .head _
    · have hl' : 0 < s.world.strong l := by simpa [World.newScope, hne] using hl
      exact .tail _ (h.live l hl')
  · have hset := weight_set (fun x : Thread P V E U × Job => x.2.active.toNat) hx
      (⟨home, k s.world.next⟩, ⟨s.world.next ::ₘ s.world.next ::ₘ s.world.next ::ₘ held, c, true⟩)
    simp only [Ledger.owing] at howing hset ⊢
    omega
  · obtain rfl | hne := eq_or_ne l s.world.next
    · simp [World.newScope]
    · simpa [World.newScope, hne] using hshared l
  · have hset := weight_set (fun x : Thread P V E U × Job => x.2.cost) hx
      (⟨home, k s.world.next⟩, ⟨s.world.next ::ₘ s.world.next ::ₘ s.world.next ::ₘ held, c, true⟩)
    simp only [Ledger.potential] at hset ⊢
    dsimp only [State.goto]
    omega

/-- **A step of the thread that has the duty.** -/
theorem Books.exec_active (h : Books o pinned g s) {th : Thread P V E U} {j : Job}
    (hx : g.threads[t]? = some (th, j)) (hactive : j.active = true)
    (hs : exec s t th = some s') :
    ∃ g', Books o pinned g' s' ∧ g'.potential s' < g.potential s := by
  have hfit := h.fits _ (List.mem_of_getElem? hx)
  obtain ⟨howing, hlog, hshared⟩ := h.running hx hactive
  have hquiet : g.owing ≤ (th, j).2.active.toNat := by rw [howing, hactive]; rfl
  have hqueue : s.queue = [] := by rw [← h.queue, h.queue_nil hx hquiet]; rfl
  obtain ⟨home, code⟩ := th
  obtain ⟨held, cost, active⟩ := j
  obtain rfl : active = true := hactive
  simp only [Job.Fits] at hfit
  cases hfit with
  | call hk =>
      cases hs
      exact ⟨_, h.go hx rfl hk h.lent (fun _ => rfl) h.live,
        potential_tidy hx (by simp [State.goto])⟩
  | enter hk =>
      cases hs
      exact ⟨_, h.go hx rfl hk h.lent (fun _ => rfl) h.live,
        potential_tidy hx (by simp [State.goto])⟩
  | lazily hk =>
      cases hs
      exact ⟨_, h.go hx rfl hk h.lent (fun _ => rfl) h.live,
        potential_tidy hx (by simp [State.goto])⟩
  | emit hanchor hstack hmem hk =>
      cases hs
      refine h.yield hx rfl g.pending [] { s.world with log := s.world.log ++ [o.signal] } hk
        (by simp) (by simp) rfl rfl (by simp [State.goto, hqueue])
        (fun g' _ hstack' _ howing' => ?_)
        (by simp)
      exact .delivered howing' (by simp [hlog]) hmem (hstack'.trans hstack) hshared
  | @newScope _ _ held value k _ c e hfresh hanchor hk =>
      cases hs
      exact h.exec_newScope e hx hfresh hanchor hk
  | @store _ _ _ i sig k _ c c' e stack hstack he hi hk hdrop =>
      simp only [exec, hshared] at hs
      cases hs
      refine h.yield hx rfl c' [] (s.world.store i sig) hk (by simp) (by simp) rfl rfl
        (by simp [State.goto, hqueue]) (fun g' hscopes hstack' hpending howing' => ?_)
        (by simp; omega)
      refine .stored i stack e sig howing' hlog (hstack'.trans hstack) (hscopes ▸ he) (fun l => ?_)
        ?_ ?_ ?_
      · obtain rfl | hne := eq_or_ne l i
        · simp [World.store]
        · simp [World.store, hne, hshared]
      · have hone : 1 ≤ held.count i := Multiset.one_le_count_iff_mem.mpr hi
        have hheld := h.held_le hx i
        change 0 < s.world.strong i
        dsimp only at hheld
        omega
      · rintro rfl
        have hnested := h.nested
        rw [show g.stack = [i] from hstack] at hnested
        obtain rfl : i = 0 := hnested
        rw [h.drop_root ⟨_, he⟩] at hdrop
        exact not_owes_ret hdrop
      · rw [hscopes, hpending]
        exact hdrop
  | @clone _ _ _ i k _ c hi hanchor hk =>
      cases hs
      refine ⟨_, h.go hx rfl hk h.lent (fun l => ?_) (fun l hl => ?_),
        potential_tidy hx (by simp [State.goto])⟩
      · have := count_clone s.world.strong held i l
        dsimp only [State.goto]
        omega
      · obtain rfl | hne := eq_or_ne l i
        · exact hi
        · rw [Function.update_of_ne hne] at hl
          exact h.live l hl
  | @release _ _ _ i drop k _ c hdrop hi hk =>
      -- what is left of its handles still holds the innermost scope
      have hmany : 1 < s.world.strong i := by
        have hone : 1 ≤ held.count i := Multiset.one_le_count_iff_mem.mpr hi
        have hheld := h.held_le hx i
        dsimp only at hheld
        obtain htop | hinside := h.top_or_inside (h.mem_stack hx hi)
        · have hanchor := Multiset.one_le_count_iff_mem.mpr (hk.anchored i htop)
          rw [Multiset.count_add, Multiset.count_erase_self] at hanchor
          omega
        · omega
      obtain ⟨n, hn⟩ : ∃ n, s.world.strong i = n + 2 := ⟨s.world.strong i - 2, by omega⟩
      simp only [exec, hn] at hs
      cases hs
      refine ⟨_, h.go hx rfl hk h.lent (fun l => ?_) (fun l hl => h.live l (open_of_release hn hl)),
        potential_tidy hx (by simp [State.goto])⟩
      have := count_release hi hn l
      dsimp only [State.goto]
      omega
  | @lend _ _ _ i drop k _ c hne hdrop hi hk =>
      cases hs
      have hlent : ∀ p ∈ s.lent ++ [⟨i, drop⟩], p.id ≠ 0 ∧ g.scopes.Drops p.id p.drop :=
        List.forall_mem_append.mpr ⟨h.lent, List.forall_mem_singleton.mpr ⟨hne, hdrop⟩⟩
      refine ⟨_, h.go hx rfl hk hlent (fun l => ?_) h.live, potential_tidy hx (by simp; omega)⟩
      have hcons := Multiset.count_cons l i (held.erase i)
      rw [Multiset.cons_erase hi, if_congr (eq_comm (a := l)) rfl rfl] at hcons
      rw [weight_append, weight_cons, weight_nil]
      change s.world.strong l + held.count l + weight _ s.lent =
        s.world.strong l + (held.erase i).count l +
          (weight _ s.lent + ((if i = l then 1 else 0) + 0))
      omega
  | @spawn _ _ held held' p task k _ c c' hk htask =>
      cases hs
      have hduty := htask.mono (Multiset.zero_le pinned)
      refine h.yield hx rfl g.pending [((p, task), ⟨held, c, true⟩)] s.world hk
        (List.forall_mem_singleton.mpr ⟨rfl, hduty⟩) (fun l => by simp [Nat.add_comm]) rfl rfl
        (by simp [State.goto, hqueue]) (fun g' _ hstack' _ howing' => ?_) (by simp; omega)
      exact .running howing' hlog hshared

/-! ## Every step -/

theorem Books.exec (h : Books o pinned g s) {th : Thread P V E U} (ht : s.threads[t]? = some th)
    (hs : Threads.exec s t th = some s') :
    ∃ g', Books o pinned g' s' ∧ g'.potential s' < g.potential s := by
  obtain ⟨j, hx⟩ := h.job ht
  cases hactive : j.active with
  | true => exact h.exec_active hx hactive hs
  | false =>
      by_cases hlast : ∃ i drop k, th.code = .release i drop k ∧ s.world.strong i = 1
      · obtain ⟨i, drop, k, hcode, hone⟩ := hlast
        exact h.exec_last hx hactive hcode hone hs
      · refine h.exec_idle hx hactive (fun i drop k hcode => ?_) hs
        have hfit := h.fits _ (List.mem_of_getElem? hx)
        simp only [Job.Fits, hactive, hcode] at hfit
        obtain ⟨c, -, -, hi, -⟩ := hfit
        have hone : 1 ≤ j.held.count i := Multiset.one_le_count_iff_mem.mpr hi
        have hheld := h.held_le hx i
        have hne : s.world.strong i ≠ 1 := fun hone => hlast ⟨i, drop, k, hcode, hone⟩
        omega

/-- A thread that is done has nothing. -/
theorem Books.idle_of_ret (h : Books o pinned g s) {th : Thread P V E U} {j : Job}
    (hx : g.threads[t]? = some (th, j)) (hcode : th.code = .ret) :
    j.active = false ∧ j.held = 0 := by
  have hfit := h.fits _ (List.mem_of_getElem? hx)
  cases hactive : j.active with
  | true =>
      simp only [Job.Fits, hactive, hcode] at hfit
      exact (not_owes_ret hfit).elim
  | false =>
      simp only [Job.Fits, hactive, hcode] at hfit
      exact ⟨rfl, hfit⟩

theorem Books.take [DecidableEq P] (h : Books o pinned g s) {th : Thread P V E U} {i : ℕ}
    {task : P × Prog P V E U} (ht : s.threads[t]? = some th) (hi : s.queue[i]? = some task)
    (hs : Threads.take s t th i task = some s') :
    ∃ g', Books o pinned g' s' ∧ g'.potential s' < g.potential s := by
  obtain ⟨j, hx⟩ := h.job ht
  obtain ⟨j', hy⟩ : ∃ j', g.queue[i]? = some (task, j') := by
    rw [← h.queue, List.getElem?_map, Option.map_eq_some_iff] at hi
    obtain ⟨⟨task', j'⟩, hj, rfl⟩ := hi
    exact ⟨j', hj⟩
  unfold Threads.take at hs
  split at hs
  next hcode =>
    split_ifs at hs
    cases hs
    obtain ⟨hidle, hheld⟩ := h.idle_of_ret hx hcode
    obtain ⟨hactive, hfit⟩ := h.tasks _ (List.mem_of_getElem? hy)
    refine ⟨{ g with
      threads := g.threads.set t ({ th with code := task.2 }, j')
      queue := g.queue.eraseIdx i }, { h with
      threads := by rw [List.map_set, h.threads]; rfl
      queue := by rw [← List.eraseIdx_map, h.queue]
      fits := h.fits_set hx (.refl _) (.inr ⟨rfl, rfl⟩) hfit
      tasks := fun y hy' => h.tasks y (List.mem_of_mem_eraseIdx hy')
      counts := fun l => ?_
      place := h.place.keep ?_ rfl rfl rfl rfl rfl rfl rfl fun l sig => h.open_of_shared }, ?_⟩
    · have hset := h.strong_set hx ({ th with code := task.2 }, j') l
      have herase := weight_eraseIdx (fun x : (P × Prog P V E U) × Job => x.2.held.count l) hy
      simp only [Ledger.handles, hheld, Multiset.count_zero] at hset herase ⊢
      dsimp only [State.goto]
      omega
    · have hset := weight_set (fun x : Thread P V E U × Job => x.2.active.toNat) hx
        ({ th with code := task.2 }, j')
      have herase := weight_eraseIdx (fun x : (P × Prog P V E U) × Job => x.2.active.toNat) hy
      simp only [Ledger.owing, hidle, Bool.toNat_false] at hset herase ⊢
      omega
    · have hset := weight_set (fun x : Thread P V E U × Job => x.2.cost) hx
        ({ th with code := task.2 }, j')
      have herase := weight_eraseIdx (fun x : (P × Prog P V E U) × Job => x.2.cost + 1) hy
      simp only [Ledger.potential] at hset herase ⊢
      dsimp only [State.goto]
      omega
  next => cases hs

theorem Books.dropRef (h : Books o pinned g s) {th : Thread P V E U} {i : ℕ}
    {p : ScopePtr P V E U} (ht : s.threads[t]? = some th) (hi : s.lent[i]? = some p) :
    ∃ g', Books o pinned g' { s.goto t th (p.release th.code) with lent := s.lent.eraseIdx i } ∧
      g'.potential { s.goto t th (p.release th.code) with lent := s.lent.eraseIdx i } <
        g.potential s := by
  obtain ⟨j, hx⟩ := h.job ht
  have hdrop := (h.lent p (List.mem_of_getElem? hi)).2
  have hfit := h.fits _ (List.mem_of_getElem? hx)
  have hfit' : Job.Fits o pinned g.scopes (s.token g.stack) (p.release th.code)
      ⟨p.id ::ₘ j.held, j.cost + 1, j.active⟩ := by
    have hmem : p.id ∈ p.id ::ₘ j.held := Multiset.mem_cons_self _ _
    cases hactive : j.active with
    | true =>
        simp only [Job.Fits, hactive] at hfit ⊢
        exact .release hdrop hmem (by rwa [Multiset.erase_cons_head])
    | false =>
        simp only [Job.Fits, hactive] at hfit ⊢
        exact ⟨j.cost, rfl, hdrop, hmem, by rwa [Multiset.erase_cons_head]⟩
  refine ⟨{ g with
    threads := g.threads.set t ({ th with code := p.release th.code },
      ⟨p.id ::ₘ j.held, j.cost + 1, j.active⟩) }, { h with
    threads := by rw [List.map_set, h.threads]; rfl
    fits := h.fits_set hx (.refl _) (.inr ⟨rfl, rfl⟩) hfit'
    lent := fun q hq => h.lent q (List.mem_of_mem_eraseIdx hq)
    counts := fun l => ?_
    place := h.place.keep ?_ rfl rfl rfl rfl rfl rfl rfl fun l sig => h.open_of_shared }, ?_⟩
  · have hset := h.strong_set hx ({ th with code := p.release th.code },
      ⟨p.id ::ₘ j.held, j.cost + 1, j.active⟩) l
    have herase := weight_eraseIdx (fun p : ScopePtr P V E U => if p.id = l then 1 else 0) hi
    have hcons := Multiset.count_cons l p.id j.held
    rw [if_congr (eq_comm (a := l)) rfl rfl] at hcons
    simp only [Ledger.handles] at hset herase ⊢
    dsimp only [State.goto]
    omega
  · have hset := weight_set (fun x : Thread P V E U × Job => x.2.active.toNat) hx
      ({ th with code := p.release th.code }, ⟨p.id ::ₘ j.held, j.cost + 1, j.active⟩)
    simp only [Ledger.owing] at hset ⊢
    omega
  · have hset := weight_set (fun x : Thread P V E U × Job => x.2.cost) hx
      ({ th with code := p.release th.code }, ⟨p.id ::ₘ j.held, j.cost + 1, j.active⟩)
    have hlength := List.length_eraseIdx_add_one (List.getElem?_eq_some_iff.mp hi).1
    simp only [Ledger.potential] at hset ⊢
    omega

/-- **Every step keeps the books right, and there is less left to do.** -/
theorem Books.step [DecidableEq P] (h : Books o pinned g s) {l : Label}
    (hs : Threads.step s l = some s') :
    ∃ g', Books o pinned g' s' ∧ g'.potential s' < g.potential s := by
  cases l with
  | exec t =>
      obtain ⟨th, ht, hs⟩ := Option.bind_eq_some_iff.mp hs
      exact h.exec ht hs
  | take t i =>
      obtain ⟨th, ht, hs⟩ := Option.bind_eq_some_iff.mp hs
      obtain ⟨task, htask, hs⟩ := Option.bind_eq_some_iff.mp hs
      exact h.take ht htask hs
  | dropRef t i =>
      obtain ⟨th, ht, hs⟩ := Option.bind_eq_some_iff.mp hs
      obtain ⟨p, hp, rfl⟩ := Option.map_eq_some_iff.mp hs
      exact h.dropRef ht hp

end Jobs

end SendersReceivers.Threads
