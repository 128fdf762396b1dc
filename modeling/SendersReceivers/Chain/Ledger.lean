import Mathlib.Algebra.Order.Group.Multiset
import SendersReceivers.Chain.SyncWait

/-!
# Chain/Ledger — who owes which handles, and who owes the signal

While a chain runs on several threads, one program at a time still owes a signal: it stores it in
the scope on top of the stack of open scopes, emits it if there is none left, or hands the duty to a
task.  All the others only give handles back.

    newScope ──push──▸ stack ──store──▸ the scope owes it ──last handle dropped──▸ its destructor

`Prog.Clears` is said of a program that gives back, `Owes` of the one that has a signal to deliver.
Both count the effects that are left, so a run of them ends.
-/

namespace SendersReceivers

variable {P V E U : Type}

/-- What is settled when a scope is opened: its destructor, and the handles that its data owns. -/
structure ScopeEntry (P V E U : Type) where
  drop : Option (Signal P V E) → Prog P V E U
  inside : Multiset ℕ

/-- The scopes opened so far. -/
abbrev Scopes (P V E U : Type) := ℕ → Option (ScopeEntry P V E U)

namespace Scopes

/-- Scope `s` is opened. -/
def insert (Γ : Scopes P V E U) (s : ℕ) (e : ScopeEntry P V E U) : Scopes P V E U :=
  Function.update Γ s (some e)

/-- Every entry of `Γ` is one of `Γ'`. -/
def Extends (Γ Γ' : Scopes P V E U) : Prop := ∀ s e, Γ s = some e → Γ' s = some e

/-- No scope has a number from `n` on. -/
def Fresh (Γ : Scopes P V E U) (n : ℕ) : Prop := ∀ s, n ≤ s → Γ s = none

/-- The destructor of scope `s` is `drop`. -/
def Drops (Γ : Scopes P V E U) (s : ℕ) (drop : Option (Signal P V E) → Prog P V E U) : Prop :=
  ∃ inside, Γ s = some ⟨drop, inside⟩

variable {Γ Γ' Γ'' : Scopes P V E U} {s n : ℕ} {e : ScopeEntry P V E U}
  {drop : Option (Signal P V E) → Prog P V E U}

theorem Extends.refl (Γ : Scopes P V E U) : Γ.Extends Γ := fun _ _ h => h

theorem Extends.trans (h : Γ.Extends Γ') (h' : Γ'.Extends Γ'') : Γ.Extends Γ'' :=
  fun s e hs => h' s e (h s e hs)

@[simp] theorem insert_self : Γ.insert s e s = some e := Function.update_self ..

theorem extends_insert (h : Γ s = none) : Γ.Extends (Γ.insert s e) := by
  intro i e' hi
  have hne : i ≠ s := by
    rintro rfl
    simp [h] at hi
  rwa [insert, Function.update_of_ne hne]

theorem Fresh.insert (h : Γ.Fresh n) : (Γ.insert n e).Fresh (n + 1) := by
  intro i hi
  rw [Scopes.insert, Function.update_of_ne (by omega)]
  exact h i (by omega)

theorem Drops.mono (h : Γ.Drops s drop) (hΓ : Γ.Extends Γ') : Γ'.Drops s drop :=
  h.imp fun _ hs => hΓ _ _ hs

end Scopes

/-! ## Programs that give back -/

/-- **`q` gives back exactly the handles `held`**, in at most `cost` effects, and drops its
reference if that is still there.  It changes no memory. -/
def Prog.Clears (Γ : Scopes P V E U) : Prog P V E U → Multiset ℕ → ℕ → Prop
  | .ret, held, _ => held = 0
  | .call f k, held, cost => ∃ c, cost = c + 1 ∧ f = id ∧ ∀ m, (k m).Clears Γ held c
  | .release s drop k, held, cost =>
      ∃ c, cost = c + 1 ∧ Γ.Drops s drop ∧ s ∈ held ∧ k.Clears Γ (held.erase s) c
  | .reclaim s drop k, held, cost => ∃ c, cost = c + 1 ∧ Γ.Drops s drop ∧ k.Clears Γ held c
  | _, _, _ => False

section Clears

variable {Γ Γ' : Scopes P V E U} {p q : Prog P V E U} {held held' : Multiset ℕ} {c c' : ℕ}

theorem Prog.Clears.mono (hq : q.Clears Γ held c) (hΓ : Γ.Extends Γ') : q.Clears Γ' held c := by
  induction q generalizing held c with
  | ret => exact hq
  | call f k ih =>
      obtain ⟨c, rfl, hf, hk⟩ := hq
      exact ⟨c, rfl, hf, fun m => ih m (hk m)⟩
  | release s drop k _ ih =>
      obtain ⟨c, rfl, hdrop, hs, hk⟩ := hq
      exact ⟨c, rfl, hdrop.mono hΓ, hs, ih hk⟩
  | reclaim s drop k _ ih =>
      obtain ⟨c, rfl, hdrop, hk⟩ := hq
      exact ⟨c, rfl, hdrop.mono hΓ, ih hk⟩
  | enter | lazily | emit | newScope | store | clone | lend | spawn => exact hq.elim

theorem Prog.Clears.weaken (hq : q.Clears Γ held c) (hc : c ≤ c') : q.Clears Γ held c' := by
  induction q generalizing held c c' with
  | ret => exact hq
  | call f k ih =>
      obtain ⟨c, rfl, hf, hk⟩ := hq
      exact ⟨c' - 1, by omega, hf, fun m => ih m (hk m) (by omega)⟩
  | release s drop k _ ih =>
      obtain ⟨c, rfl, hdrop, hs, hk⟩ := hq
      exact ⟨c' - 1, by omega, hdrop, hs, ih hk (by omega)⟩
  | reclaim s drop k _ ih =>
      obtain ⟨c, rfl, hdrop, hk⟩ := hq
      exact ⟨c' - 1, by omega, hdrop, ih hk (by omega)⟩
  | enter | lazily | emit | newScope | store | clone | lend | spawn => exact hq.elim

/-- One after another, they give back what both have. -/
theorem Prog.Clears.seq (hp : p.Clears Γ held c) (hq : q.Clears Γ held' c') :
    (p.seq q).Clears Γ (held + held') (c + c') := by
  induction p generalizing held c with
  | ret =>
      obtain rfl : held = 0 := hp
      rw [zero_add]
      exact hq.weaken (Nat.le_add_left c' c)
  | call f k ih =>
      obtain ⟨c, rfl, hf, hk⟩ := hp
      exact ⟨c + c', by omega, hf, fun m => ih m (hk m)⟩
  | release s drop k _ ih =>
      obtain ⟨c, rfl, hdrop, hs, hk⟩ := hp
      refine ⟨c + c', by omega, hdrop, Multiset.mem_add.mpr (.inl hs), ?_⟩
      rw [Multiset.erase_add_left_pos _ hs]
      exact ih hk
  | reclaim s drop k _ ih =>
      obtain ⟨c, rfl, hdrop, hk⟩ := hp
      exact ⟨c + c', by omega, hdrop, ih hk⟩
  | enter | lazily | emit | newScope | store | clone | lend | spawn => exact hp.elim

end Clears

/-! ## The program that owes the signal -/

/-- What the program that owes the signal goes on from: the memory, the next fresh scope, and the
scopes that wait for a signal, the innermost first. -/
structure Token (V U : Type) where
  mem : Mem V U
  next : ℕ
  stack : List ℕ

/-- Somebody has a handle of the innermost scope. -/
def Anchored (stack : List ℕ) (handles : Multiset ℕ) : Prop := ∀ s ∈ stack.head?, s ∈ handles

/-- **`q` delivers the signal of `o`**, and leaves the memory of `o`: starting from `t`, with the
handles `held`, and `around` held around it until it ends.  Whatever follows is counted in `cost`:
the destructor that takes the signal out of a scope, and the task that the duty is handed to. -/
inductive Owes (o : Outcome P V E U) : Multiset ℕ → Scopes P V E U → Multiset ℕ →
    Prog P V E U → Token V U → ℕ → Prop
  | call {around Γ held f k t cost}
    (hk : Owes o around Γ held (k t.mem) { t with mem := f t.mem } cost) :
      Owes o around Γ held (.call f k) t (cost + 1)
  | enter {around Γ held sch k t cost} (hk : Owes o around Γ held k t cost) :
      Owes o around Γ held (.enter sch k) t (cost + 1)
  | lazily {around Γ held sch k t cost} (hk : Owes o around Γ held k t cost) :
      Owes o around Γ held (.lazily sch k) t (cost + 1)
  | emit {around Γ held k t cost} (hanchor : Anchored t.stack (around + held))
    (hstack : t.stack = [0])
      (hmem : t.mem = o.mem) (hk : k.Clears Γ held cost) :
      Owes o around Γ held (.emit o.signal k) t (cost + 1)
  | newScope {around Γ held value k t cost} (e : ScopeEntry P V E U) (hfresh : Γ t.next = none)
      (hanchor : Anchored t.stack e.inside)
      (hk : Owes o around (Γ.insert t.next e) (t.next ::ₘ t.next ::ₘ t.next ::ₘ held) (k t.next)
        ⟨t.mem.setCell t.next value, t.next + 1, t.next :: t.stack⟩ cost) :
      Owes o around Γ (e.inside + held) (.newScope value k) t (cost + 1)
  | store {around Γ held s sig k t cost cost'} (e : ScopeEntry P V E U) (stack : List ℕ)
      (hstack : t.stack = s :: stack) (he : Γ s = some e) (hs : s ∈ held)
      (hk : k.Clears Γ held cost)
      (hdrop : Owes o 0 Γ e.inside (e.drop (some sig)) { t with stack := stack } cost') :
      Owes o around Γ held (.store s sig k) t (cost + cost' + 1)
  | clone {around Γ held s k t cost} (hs : s ∈ t.stack) (hanchor : Anchored t.stack (around + held))
      (hk : Owes o around Γ (s ::ₘ held) k t cost) : Owes o around Γ held (.clone s k) t (cost + 1)
  | release {around Γ held s drop k t cost} (hdrop : Γ.Drops s drop) (hs : s ∈ held)
      (hk : Owes o around Γ (held.erase s) k t cost) :
      Owes o around Γ held (.release s drop k) t (cost + 1)
  | lend {around Γ held s drop k t cost} (hne : s ≠ 0) (hdrop : Γ.Drops s drop) (hs : s ∈ held)
      (hk : Owes o around Γ (held.erase s) k t cost) :
      Owes o around Γ held (.lend s drop k) t (cost + 3)
  | spawn {around Γ held held' p task k t cost cost'} (hk : k.Clears Γ held' cost')
      (htask : Owes o 0 Γ held task t cost) :
      Owes o around Γ (held + held') (.spawn p task k) t (cost + cost' + 2)

section Owes

variable {o : Outcome P V E U} {around around' held held' : Multiset ℕ} {Γ : Scopes P V E U}
  {p q : Prog P V E U} {t : Token V U} {c c' : ℕ}

theorem Anchored.mono {stack : List ℕ} (h : Anchored stack held) (hle : held ≤ held') :
    Anchored stack held' :=
  fun s hs => Multiset.mem_of_le hle (h s hs)

/-- **The innermost scope stays open**: the program has a handle of it, or one is held around it. -/
theorem Owes.anchored (h : Owes o around Γ held p t c) : Anchored t.stack (around + held) := by
  induction h with
  | call _ ih => exact ih
  | enter _ ih => exact ih
  | lazily _ ih => exact ih
  | emit hanchor => exact hanchor
  | newScope e _ hanchor =>
      exact hanchor.mono ((Multiset.le_add_right _ _).trans (Multiset.le_add_left _ _))
  | store e stack hstack _ hs =>
      intro i hi
      obtain rfl : _ = i := by simpa [hstack] using hi
      exact Multiset.mem_add.mpr (.inr hs)
  | clone _ hanchor => exact hanchor
  | release _ _ _ ih | lend _ _ _ _ ih =>
      exact ih.mono (add_le_add_right (Multiset.erase_le _ _) _)
  | spawn _ _ ih =>
      exact ih.mono ((add_le_add_right (Multiset.le_add_right _ _) _).trans
        (add_le_add_left (Multiset.zero_le _) _))

theorem Owes.cost_eq (h : Owes o around Γ held p t c) (hc : c = c') :
    Owes o around Γ held p t c' := hc ▸ h

/-- Whoever has the duty is not done. -/
theorem not_owes_ret : ¬Owes o around Γ held .ret t c := nofun

/-- More may be held around it. -/
theorem Owes.mono (h : Owes o around Γ held p t c) (hle : around ≤ around') :
    Owes o around' Γ held p t c := by
  induction h with
  | call _ ih => exact .call (ih hle)
  | enter _ ih => exact .enter (ih hle)
  | lazily _ ih => exact .lazily (ih hle)
  | emit hanchor hstack hmem hk =>
      exact .emit (hanchor.mono (add_le_add_left hle _)) hstack hmem hk
  | newScope e hfresh hanchor _ ih => exact .newScope e hfresh hanchor (ih hle)
  | store e stack hstack he hs hk hdrop => exact .store e stack hstack he hs hk hdrop
  | clone hs hanchor _ ih => exact .clone hs (hanchor.mono (add_le_add_left hle _)) (ih hle)
  | release hdrop hs _ ih => exact .release hdrop hs (ih hle)
  | lend hne hdrop hs _ ih => exact .lend hne hdrop hs (ih hle)
  | spawn hk htask => exact .spawn hk htask

/-- **The signal is delivered before what follows**, and that gives its own handles back. -/
theorem Owes.seq {A : Multiset ℕ} (h : Owes o A Γ held p t c) (hA : A = around + held')
    (hq : q.Clears Γ held' c') : Owes o around Γ (held + held') (p.seq q) t (c + c') := by
  induction h with
  | call _ ih => exact (Owes.call (ih hA hq)).cost_eq (by omega)
  | enter _ ih => exact (Owes.enter (ih hA hq)).cost_eq (by omega)
  | lazily _ ih => exact (Owes.lazily (ih hA hq)).cost_eq (by omega)
  | emit hanchor hstack hmem hk =>
      subst hA
      refine (Owes.emit ?_ hstack hmem (hk.seq hq)).cost_eq (by omega)
      exact hanchor.mono (by rw [add_assoc, add_comm held'])
  | newScope e hfresh hanchor _ ih =>
      have hk := ih hA (hq.mono (Scopes.extends_insert hfresh))
      rw [Multiset.cons_add, Multiset.cons_add, Multiset.cons_add] at hk
      rw [add_assoc]
      exact (Owes.newScope e hfresh hanchor hk).cost_eq (by omega)
  | store e stack hstack he hs hk hdrop =>
      exact (Owes.store e stack hstack he (Multiset.mem_add.mpr (.inl hs)) (hk.seq hq)
        hdrop).cost_eq (by omega)
  | clone hs hanchor _ ih =>
      subst hA
      have hk := ih rfl hq
      rw [Multiset.cons_add] at hk
      refine (Owes.clone hs (hanchor.mono ?_) hk).cost_eq (by omega)
      rw [add_assoc, add_comm held']
  | release hdrop hs _ ih =>
      have hk := ih hA hq
      rw [← Multiset.erase_add_left_pos _ hs] at hk
      exact (Owes.release hdrop (Multiset.mem_add.mpr (.inl hs)) hk).cost_eq (by omega)
  | lend hne hdrop hs _ ih =>
      have hk := ih hA hq
      rw [← Multiset.erase_add_left_pos _ hs] at hk
      exact (Owes.lend hne hdrop (Multiset.mem_add.mpr (.inl hs)) hk).cost_eq (by omega)
  | spawn hk htask =>
      rw [add_assoc]
      exact (Owes.spawn (hk.seq hq) htask).cost_eq (by omega)

end Owes

/-- `q` delivers the signal of `o`, sooner or later. -/
def Delivers (o : Outcome P V E U) (around : Multiset ℕ) (Γ : Scopes P V E U) (held : Multiset ℕ)
    (q : Prog P V E U) (t : Token V U) : Prop := ∃ c, Owes o around Γ held q t c

section Delivers

variable {o : Outcome P V E U} {around held : Multiset ℕ} {Γ : Scopes P V E U} {q : Prog P V E U}
  {t : Token V U} {scope : ScopePtr P V E U}

theorem Delivers.call {f : Mem V U → Mem V U} {k : Mem V U → Prog P V E U}
    (h : Delivers o around Γ held (k t.mem) { t with mem := f t.mem }) :
    Delivers o around Γ held (.call f k) t :=
  h.elim fun _ hk => ⟨_, .call hk⟩

theorem Delivers.enter {sch : Local P} (h : Delivers o around Γ held q t) :
    Delivers o around Γ held (.enter sch q) t :=
  h.elim fun _ hk => ⟨_, .enter hk⟩

/-- The drop of a handle of `scope` is all that is left to do. -/
theorem clears_release (hscope : Γ.Drops scope.id scope.drop) :
    (scope.release .ret).Clears Γ {scope.id} 1 :=
  ⟨0, rfl, hscope, Multiset.mem_singleton_self _, by simp [Prog.Clears]⟩

/-- A call, and then the drop of the handle of `scope` that its receiver has. -/
theorem Delivers.seq_release (hscope : Γ.Drops scope.id scope.drop)
    (h : Delivers o (around + {scope.id}) Γ held q t) :
    Delivers o around Γ (scope.id ::ₘ held) (q.seq (scope.release .ret)) t := by
  obtain ⟨c, hc⟩ := h
  rw [← Multiset.singleton_add, add_comm]
  exact ⟨_, hc.seq rfl (clears_release hscope)⟩

end Delivers

/-! ## Receivers that take a signal

The receivers of a chain are built from the outside in, and each is asked about the outcome of the
stage before it. -/

/-- **`rcv` takes the outcome `out`** on top of `stack`, and owns the handles `held`: whoever calls
it, and whatever scopes there are by then, the call delivers the signal of `o`. -/
def Takes (o : Outcome P V E U) (Γ : Scopes P V E U) (held : Multiset ℕ) (rcv : Receiver P V E U)
    (stack : List ℕ) (out : Outcome P V E U) : Prop :=
  ∀ Γ' around, Γ.Extends Γ' → Γ'.Fresh out.next → Anchored stack (around + held) →
    Delivers o around Γ' held (rcv.deliver out.signal) ⟨out.mem, out.next, stack⟩

/-- A chain may be started in `scope`: it is the innermost one. -/
structure Innermost (Γ : Scopes P V E U) (scope : ScopePtr P V E U) (stack : List ℕ) : Prop where
  top : stack.head? = some scope.id
  drops : Γ.Drops scope.id scope.drop

section Takes

variable {o out : Outcome P V E U} {Γ Γ' : Scopes P V E U} {around held : Multiset ℕ}
  {rcv : Receiver P V E U} {scope : ScopePtr P V E U} {stack : List ℕ} {m : Mem V U} {n : ℕ}

/-- The scopes that are opened from here on are not the root scope. -/
theorem Innermost.ne_zero (h : Innermost Γ scope stack) (hfresh : Γ.Fresh n) : n ≠ 0 := by
  rintro rfl
  obtain ⟨inside, hinside⟩ := h.drops
  simp [hfresh scope.id (Nat.zero_le _)] at hinside

theorem Innermost.mono (h : Innermost Γ scope stack) (hΓ : Γ.Extends Γ') :
    Innermost Γ' scope stack := ⟨h.top, h.drops.mono hΓ⟩

/-- Whoever holds the innermost scope around a call anchors it. -/
theorem Innermost.anchored (h : Innermost Γ scope stack) :
    Anchored stack (around + {scope.id} + held) := by
  intro s hs
  obtain rfl : scope.id = s := by simpa [h.top] using hs
  simp

theorem Innermost.mem (h : Innermost Γ scope stack) : scope.id ∈ stack :=
  List.mem_of_head? h.top

theorem Takes.mono (h : Takes o Γ held rcv stack out) (hΓ : Γ.Extends Γ') :
    Takes o Γ' held rcv stack out :=
  fun Γ'' around hΓ' hfresh hanchor => h Γ'' around (hΓ.trans hΓ') hfresh hanchor

/-- A method that hands the signal on, then drops the handle of its scope. -/
theorem Takes.passes (hs : Innermost Γ scope stack) (h : Takes o Γ held rcv stack out)
    (hΓ : Γ.Extends Γ') (hfresh : Γ'.Fresh out.next) :
    Delivers o around Γ' (scope.id ::ₘ held) ((rcv.deliver out.signal).seq (scope.release .ret))
      ⟨out.mem, out.next, stack⟩ :=
  .seq_release (hs.mono hΓ).drops (h Γ' _ hΓ hfresh hs.anchored)

/-- Passing on the result of a function is delivering its outcome. -/
theorem Takes.ofResult {sch : Local P} {r : Except E (List V) × Mem V U}
    (h : Takes o Γ held rcv stack (.ofResult sch r n)) (hfresh : Γ.Fresh n)
    (hanchor : Anchored stack (around + held)) :
    Delivers o around Γ held (match r.1 with
      | .ok v => rcv.setValue sch v
      | .error e => rcv.setError e) ⟨r.2, n, stack⟩ := by
  obtain ⟨r | r, m⟩ := r <;> exact h Γ around (.refl Γ) hfresh hanchor

/-- Starting the sender that a function returns, or passing on its `Err`. -/
theorem Takes.ofSender {r : Except E Unit × Mem V U} {start : Prog P V E U}
    {run : Mem V U → ℕ → Outcome P V E U}
    (hstart : Takes o Γ held rcv stack (run r.2 n) → Delivers o around Γ held start ⟨r.2, n, stack⟩)
    (h : Takes o Γ held rcv stack (.ofSender r n run)) (hfresh : Γ.Fresh n)
    (hanchor : Anchored stack (around + held)) :
    Delivers o around Γ held (match r.1 with
      | .ok _ => start
      | .error e => rcv.setError e) ⟨r.2, n, stack⟩ := by
  obtain ⟨r | r, m⟩ := r
  · exact h Γ around (.refl Γ) hfresh hanchor
  · exact hstart h

/-- **Scheduling**: an inline scheduler calls the receiver, and a pool gets a task that has a handle
of the scope. -/
theorem delivers_schedule (hs : Innermost Γ scope stack) {sch : Scheduler P}
    (h : Takes o Γ held rcv stack ⟨.value sch.localScheduler [], m, n⟩) (hfresh : Γ.Fresh n)
    (hanchor : Anchored stack (around + held)) :
    Delivers o around Γ held (sch.start scope rcv) ⟨m, n, stack⟩ := by
  cases sch with
  | immediate => exact h Γ around (.refl Γ) hfresh hanchor
  | lazy sch => exact (h Γ around (.refl Γ) hfresh hanchor).elim fun _ hk => ⟨_, .lazily hk⟩
  | pool p =>
      have hcall := h Γ (0 + {scope.id}) (.refl Γ) hfresh hs.anchored
      obtain ⟨c, htask⟩ := Delivers.seq_release hs.drops hcall
      have hspawn : Owes o around Γ (scope.id ::ₘ held + 0) (.spawn p _ .ret) ⟨m, n, stack⟩ _ :=
        .spawn (show Prog.ret.Clears Γ 0 0 from rfl) htask
      rw [add_zero] at hspawn
      exact ⟨_, .clone hs.mem hanchor hspawn⟩

/-! ### What each wrapper makes of an outcome -/

theorem Takes.just {sch : Local P} {values : List V}
    (h : Takes o Γ held rcv stack ⟨.value sch values, m, n⟩) :
    Takes o Γ held (JustReceiverWrapper rcv values) stack ⟨.value sch [], m, n⟩ :=
  fun Γ' around hΓ hfresh hanchor => (h Γ' around hΓ hfresh hanchor).enter

theorem Takes.then_ {fn : List V → UserFn V E U (List V)}
    (h : Takes o Γ held rcv stack
      (out.onValue fun sch values m n => .ofResult sch (fn values m) n)) :
    Takes o Γ held (ThenWrappedReceiver rcv fn) stack out := by
  obtain ⟨sig, m, n⟩ := out
  intro Γ' around hΓ hfresh hanchor
  cases sig with
  | value sch values => exact .enter (.call (Takes.ofResult (h.mono hΓ) hfresh hanchor))
  | error e => exact h Γ' around hΓ hfresh hanchor
  | done => exact h Γ' around hΓ hfresh hanchor

theorem Takes.upon {sch : Local P} {fn : UserFn V E U (List V)}
    (h : Takes o Γ held rcv stack (.ofResult sch (fn m) n)) :
    Takes o Γ held (UponReceiver rcv fn) stack ⟨.value sch [], m, n⟩ :=
  fun _ _ hΓ hfresh hanchor => .enter (.call (Takes.ofResult (h.mono hΓ) hfresh hanchor))

theorem Takes.stopIfRequested {stop_token : Bool}
    (h : Takes o Γ held rcv stack (out.onValue fun sch values m n =>
      if stop_token then ⟨.done, m, n⟩ else ⟨.value sch values, m, n⟩)) :
    Takes o Γ held (StopIfRequestedReceiverWrapper stop_token rcv) stack out := by
  obtain ⟨sig, m, n⟩ := out
  intro Γ' around hΓ hfresh hanchor
  cases sig with
  | value sch values => cases stop_token <;> exact (h Γ' around hΓ hfresh hanchor).enter
  | error e => exact h Γ' around hΓ hfresh hanchor
  | done => exact h Γ' around hΓ hfresh hanchor

/-! The wrappers below have a handle of the innermost scope. -/

theorem Takes.letError {fn : E → UserFn V E U Unit} {start : E → Mem V U → Prog P V E U}
    {run : E → Mem V U → Mem V U → ℕ → Outcome P V E U} (hs : Innermost Γ scope stack)
    (hstart : ∀ e m Γ' around m' n', Γ.Extends Γ' → Γ'.Fresh n' → Anchored stack (around + held) →
      Takes o Γ' held rcv stack (run e m m' n') →
      Delivers o around Γ' held (start e m) ⟨m', n', stack⟩)
    (h : Takes o Γ held rcv stack (out.onError fun e m n => .ofSender (fn e m) n (run e m))) :
    Takes o Γ (scope.id ::ₘ held) (LetErrorReceiverWrapper rcv scope fn start) stack out := by
  obtain ⟨sig, m, n⟩ := out
  intro Γ' around hΓ hfresh _
  cases sig with
  | value sch values => exact .enter (h.passes hs hΓ hfresh)
  | error e =>
      refine .call (.seq_release (hs.mono hΓ).drops ?_)
      exact Takes.ofSender (hstart e m Γ' _ _ n hΓ hfresh hs.anchored) (h.mono hΓ) hfresh
        hs.anchored
  | done => exact h.passes hs hΓ hfresh

theorem Takes.letDone {fn : UserFn V E U Unit} {start : Mem V U → Prog P V E U}
    {run : Mem V U → Mem V U → ℕ → Outcome P V E U} (hs : Innermost Γ scope stack)
    (hstart : ∀ m Γ' around m' n', Γ.Extends Γ' → Γ'.Fresh n' → Anchored stack (around + held) →
      Takes o Γ' held rcv stack (run m m' n') →
      Delivers o around Γ' held (start m) ⟨m', n', stack⟩)
    (h : Takes o Γ held rcv stack (out.onDone fun m n => .ofSender (fn m) n (run m))) :
    Takes o Γ (scope.id ::ₘ held) (LetDoneReceiverWrapper rcv scope fn start) stack out := by
  obtain ⟨sig, m, n⟩ := out
  intro Γ' around hΓ hfresh _
  cases sig with
  | value sch values => exact .enter (h.passes hs hΓ hfresh)
  | error e => exact h.passes hs hΓ hfresh
  | done =>
      refine .call (.seq_release (hs.mono hΓ).drops ?_)
      exact Takes.ofSender (hstart m Γ' _ _ n hΓ hfresh hs.anchored) (h.mono hΓ) hfresh hs.anchored

theorem Takes.uponError {fn : E → UserFn V E U (List V)} {sch : Scheduler P}
    (hs : Innermost Γ scope stack) (h : Takes o Γ held rcv stack
      (out.onError fun e m n => .ofResult sch.localScheduler (fn e m) n)) :
    Takes o Γ (scope.id ::ₘ held) (UponErrorReceiverWrapper rcv scope fn sch) stack out := by
  obtain ⟨sig, m, n⟩ := out
  intro Γ' around hΓ hfresh _
  have hs' := hs.mono hΓ
  cases sig with
  | value sch' values => exact .enter (h.passes hs hΓ hfresh)
  | error e =>
      exact .seq_release hs'.drops
        (delivers_schedule hs' (Takes.upon (h.mono hΓ)) hfresh hs.anchored)
  | done => exact h.passes hs hΓ hfresh

theorem Takes.uponDone {fn : UserFn V E U (List V)} {sch : Scheduler P}
    (hs : Innermost Γ scope stack) (h : Takes o Γ held rcv stack
      (out.onDone fun m n => .ofResult sch.localScheduler (fn m) n)) :
    Takes o Γ (scope.id ::ₘ held) (UponDoneReceiverWrapper rcv scope fn sch) stack out := by
  obtain ⟨sig, m, n⟩ := out
  intro Γ' around hΓ hfresh _
  have hs' := hs.mono hΓ
  cases sig with
  | value sch' values => exact .enter (h.passes hs hΓ hfresh)
  | error e => exact h.passes hs hΓ hfresh
  | done =>
      exact .seq_release hs'.drops
        (delivers_schedule hs' (Takes.upon (h.mono hΓ)) hfresh hs.anchored)

theorem Takes.transfer {sch : Scheduler P} (hs : Innermost Γ scope stack)
    (h : Takes o Γ held rcv stack
      (out.onValue fun _ values m n => ⟨.value sch.localScheduler values, m, n⟩)) :
    Takes o Γ (scope.id ::ₘ held) (TransferReceiverWrapper rcv scope sch) stack out := by
  obtain ⟨sig, m, n⟩ := out
  intro Γ' around hΓ hfresh _
  have hs' := hs.mono hΓ
  cases sig with
  | value sch' values =>
      exact .enter (.seq_release hs'.drops
        (delivers_schedule hs' (Takes.just (h.mono hΓ)) hfresh hs.anchored))
  | error e => exact h.passes hs hΓ hfresh
  | done => exact h.passes hs hΓ hfresh

/-! ### The scope of a `LetValue` -/

/-- The entry of the scope that a `LetValue` opens: what it owns goes to the outer receiver and the
outer scope. -/
def letValueEntry (scope : ScopePtr P V E U) (s : ℕ) (rcv : Receiver P V E U) (held : Multiset ℕ) :
    ScopeEntry P V E U :=
  ⟨(innerScope scope s (LocalReceiverWithValue s rcv)).drop, scope.id ::ₘ held⟩

/-- **The destructor** delivers: it calls the outer receiver with the stored signal. -/
theorem Takes.destructor {s : ℕ} (hs : Innermost Γ scope stack)
    (h : Takes o Γ held rcv stack (out.withStored s)) (hΓ : Γ.Extends Γ')
    (hfresh : Γ'.Fresh out.next) :
    Delivers o 0 Γ' (scope.id ::ₘ held)
      ((innerScope scope s (LocalReceiverWithValue s rcv)).drop (some out.signal))
      ⟨out.mem, out.next, stack⟩ := by
  obtain ⟨sig, m, n⟩ := out
  refine .seq_release (hs.mono hΓ).drops ?_
  have hrcv := h Γ' (0 + {scope.id}) hΓ
  cases sig with
  | value sch values => exact .enter (.call (hrcv hfresh hs.anchored))
  | error e => exact hrcv hfresh hs.anchored
  | done => exact hrcv hfresh hs.anchored

/-- **The inner receiver takes any outcome** that the destructor can deliver. -/
theorem Takes.innerScopeReceiver {s : ℕ} (hs : Innermost Γ scope stack)
    (h : Takes o Γ held rcv stack (out.withStored s)) (hnone : Γ s = none) :
    Takes o (Γ.insert s (letValueEntry scope s rcv held)) {s}
      (InnerScopeReceiver (innerScope scope s (LocalReceiverWithValue s rcv)))
      (s :: stack) out := by
  intro Γ' around hΓ hfresh _
  have he : Γ' s = some (letValueEntry scope s rcv held) := hΓ s _ Scopes.insert_self
  obtain ⟨c, hdrop⟩ :=
    Takes.destructor hs h ((Scopes.extends_insert hnone).trans hΓ) hfresh
  have hk :
      Prog.Clears Γ' ((innerScope scope s (LocalReceiverWithValue s rcv)).release .ret) {s} 1 :=
    clears_release ⟨_, he⟩
  have hstore : Owes o around Γ' {s} _ ⟨out.mem, out.next, s :: stack⟩ _ :=
    .store _ stack rfl he (Multiset.mem_singleton_self s) hk hdrop
  obtain ⟨sig, m, n⟩ := out
  cases sig with
  | value sch values => exact .enter ⟨_, hstore⟩
  | error e => exact ⟨_, hstore⟩
  | done => exact ⟨_, hstore⟩

/-- A `LetValue` opens its scope with a clone of the outer one and all that its receiver owns. -/
theorem delivers_open {e : ScopeEntry P V E U} {value : List V} {k : ℕ → Prog P V E U}
    (hs : Innermost Γ scope stack) (he : e.inside = scope.id ::ₘ held) (hnone : Γ n = none)
    (hanchor : Anchored stack (around + scope.id ::ₘ held))
    (h : Delivers o around (Γ.insert n e) (n ::ₘ n ::ₘ n ::ₘ {scope.id}) (k n)
      ⟨m.setCell n value, n + 1, n :: stack⟩) :
    Delivers o around Γ (scope.id ::ₘ held) (scope.clone (.newScope value k)) ⟨m, n, stack⟩ := by
  obtain ⟨c, h⟩ := h
  have htop : Anchored stack e.inside := by
    rw [he, ← Multiset.singleton_add]
    have hanchored : Anchored stack (0 + {scope.id} + held) := hs.anchored
    rwa [zero_add] at hanchored
  have hheld : scope.id ::ₘ scope.id ::ₘ held = e.inside + {scope.id} := by
    rw [he, add_comm, Multiset.singleton_add]
  refine ⟨c + 2, .clone hs.mem hanchor ?_⟩
  rw [hheld]
  exact .newScope e hnone htop h

/-- **The end of `LetValueReceiver::set_value`** gives back `local_scope` and the outer scope, and
the reference if it is still there. -/
theorem clears_local_scope {q : ScopePtr P V E U} (hq : Γ.Drops q.id q.drop)
    (hscope : Γ.Drops scope.id scope.drop) (kept : Mem V U → Bool) :
    Prog.Clears Γ (.call id fun m =>
      if kept m then q.release (scope.release .ret)
      else q.reclaim (q.release (scope.release .ret))) (q.id ::ₘ {scope.id}) 4 := by
  have hboth : ∀ c, (q.release (scope.release .ret)).Clears Γ (q.id ::ₘ {scope.id}) (c + 2) := by
    intro c
    refine ⟨c + 1, rfl, hq, Multiset.mem_cons_self _ _, ?_⟩
    rw [Multiset.erase_cons_head]
    exact (clears_release hscope).weaken (by omega)
  refine ⟨3, rfl, rfl, fun m => ?_⟩
  dsimp only
  split
  · exact hboth 1
  · exact ⟨2, rfl, hq, hboth 0⟩

theorem Takes.letValue {fn : Local P → ℕ → UserFn V E U Unit} {keep : ℕ → Mem V U → Bool}
    {start : Local P → ℕ → Mem V U → ScopePtr P V E U → Receiver P V E U → Prog P V E U}
    (run : Local P → ℕ → Mem V U → Mem V U → ℕ → Outcome P V E U) (hs : Innermost Γ scope stack)
    (hstart : ∀ sch s m (q : ScopePtr P V E U) r Γ' around held' stack' m' n',
      Innermost Γ' q stack' → Γ'.Fresh n' → Anchored stack' (around + held') →
      Takes o Γ' held' r stack' (run sch s m m' n') →
      Delivers o around Γ' held' (start sch s m q r) ⟨m', n', stack'⟩)
    (h : Takes o Γ held rcv stack (out.onValue fun sch value m s =>
      (Outcome.ofSender (fn sch s (m.setCell s value)) (s + 1)
        (run sch s (m.setCell s value))).withStored s)) :
    Takes o Γ (scope.id ::ₘ held) (LetValueReceiver rcv scope fn keep start) stack out := by
  obtain ⟨sig, m, n⟩ := out
  intro Γ' around hΓ hfresh hanchor
  have hs' := hs.mono hΓ
  cases sig with
  | value sch value =>
      have hnone := hfresh n le_rfl
      set e := letValueEntry scope n rcv held
      set q := innerScope scope n (LocalReceiverWithValue n rcv)
      have hq : Innermost (Γ'.insert n e) q (n :: stack) := ⟨rfl, _, Scopes.insert_self⟩
      have hfresh' : (Γ'.insert n e).Fresh (n + 1) := hfresh.insert
      have hanchor' : Anchored (n :: stack) (around + (n ::ₘ {scope.id}) + {n}) := by
        simp [Anchored]
      -- the inner sender runs with `local_scope`, whose destructor will call `rcv`
      have hinner : Delivers o (around + (n ::ₘ {scope.id})) (Γ'.insert n e) {n} _
          ⟨(fn sch n (m.setCell n value)).2, n + 1, n :: stack⟩ :=
        Takes.ofSender (hstart sch n (m.setCell n value) q _ _ _ _ _ _ _ hq hfresh' hanchor')
          (Takes.innerScopeReceiver hs' (h.mono hΓ) hnone) hfresh' hanchor'
      obtain ⟨c, hinner⟩ := hinner
      have htail := clears_local_scope hq.drops (hs'.mono (Scopes.extends_insert hnone)).drops
        (keep n)
      have hlend : Owes o around (Γ'.insert n e) (n ::ₘ n ::ₘ n ::ₘ {scope.id}) (q.lend _)
          ⟨(fn sch n (m.setCell n value)).2, n + 1, n :: stack⟩ _ :=
        .lend (hs'.ne_zero hfresh) hq.drops (Multiset.mem_cons_self _ _) (by
          rw [show q.id = n from rfl, Multiset.erase_cons_head, ← Multiset.singleton_add]
          exact hinner.seq rfl htail)
      exact .enter (delivers_open hs' rfl hnone hanchor ⟨_, .call hlend⟩)
  | error e => exact h.passes hs hΓ hfresh
  | done => exact h.passes hs hΓ hfresh

/-! ## The chain -/

theorem Delivers.clone (hs : Innermost Γ scope stack) {k : Prog P V E U}
    (hanchor : Anchored stack (around + held))
    (h : Delivers o around Γ (scope.id ::ₘ held) k ⟨m, n, stack⟩) :
    Delivers o around Γ held (scope.clone k) ⟨m, n, stack⟩ :=
  h.elim fun _ hk => ⟨_, .clone hs.mem hanchor hk⟩

theorem anchored_cons {s : ℕ} (h : Anchored stack (around + held)) :
    Anchored stack (around + s ::ₘ held) :=
  h.mono (add_le_add_right (Multiset.le_cons_self _ _) _)

/-- **Starting a chain delivers what its receiver makes of the denotation**, on whatever threads the
chain goes on. -/
theorem delivers_start (c : Chain P V E U) (stop_token : Bool) (hs : Innermost Γ scope stack)
    (hfresh : Γ.Fresh n) (hanchor : Anchored stack (around + held))
    (h : Takes o Γ held rcv stack (c.denote stop_token m n)) :
    Delivers o around Γ held (c.start scope stop_token rcv) ⟨m, n, stack⟩ := by
  induction c generalizing scope rcv Γ held around stack m n with
  | just sch values => exact delivers_schedule hs h.just hfresh hanchor
  | justError error => exact h Γ around (.refl Γ) hfresh hanchor
  | justDone => exact h Γ around (.refl Γ) hfresh hanchor
  | then_ nested fn ih => exact ih hs hfresh hanchor h.then_
  | letValue nested fn sender keep ih ihs =>
      refine .clone hs hanchor (ih hs hfresh (anchored_cons hanchor) (Takes.letValue
        (fun sch s m m' n' => (sender sch s m).denote stop_token m' n') hs ?_ h))
      exact fun sch s m q r Γ' around held' stack' m' n' hq hfresh' hanchor' h' =>
        ihs sch s m hq hfresh' hanchor' h'
  | letError nested fn sender ih ihs =>
      refine .clone hs hanchor (ih hs hfresh (anchored_cons hanchor) (Takes.letError hs ?_ h))
      exact fun e m Γ' around m' n' hΓ hfresh' hanchor' h' =>
        ihs e m (hs.mono hΓ) hfresh' hanchor' h'
  | letDone nested fn sender ih ihs =>
      refine .clone hs hanchor (ih hs hfresh (anchored_cons hanchor) (Takes.letDone hs ?_ h))
      exact fun m Γ' around m' n' hΓ hfresh' hanchor' h' =>
        ihs m (hs.mono hΓ) hfresh' hanchor' h'
  | uponError nested sch fn ih =>
      exact .clone hs hanchor (ih hs hfresh (anchored_cons hanchor) (h.uponError hs))
  | uponDone nested sch fn ih =>
      exact .clone hs hanchor (ih hs hfresh (anchored_cons hanchor) (h.uponDone hs))
  | transfer nested target_scheduler ih =>
      exact .clone hs hanchor (ih hs hfresh (anchored_cons hanchor) (h.transfer hs))
  | stopIfRequested nested ih => exact ih hs hfresh hanchor h.stopIfRequested

/-- The receiver the chain is connected to takes the outcome it waits for. -/
theorem takes_recorder (o : Outcome P V E U) : Takes o Γ 0 recorder [0] o := by
  intro Γ' around _ _ hanchor
  have hemit : Delivers o around Γ' 0 (.emit o.signal .ret) ⟨o.mem, o.next, [0]⟩ :=
    ⟨1, .emit hanchor rfl rfl rfl⟩
  obtain ⟨sig, m, n⟩ := o
  cases sig with
  | value sch values => exact hemit.enter
  | error e => exact hemit
  | done => exact hemit

end Takes

end SendersReceivers
