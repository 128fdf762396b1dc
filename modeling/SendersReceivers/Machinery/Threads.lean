import Mathlib.Algebra.Order.BigOperators.Group.List
import Mathlib.Algebra.Order.Ring.Nat
import Mathlib.Data.List.InsertIdx

/-!
# Machinery/Threads — threads as lists of instructions

Threads are numbered; each has the list of instructions it still has to run.  A step takes the head
of one thread, puts other instructions in its place and may start new threads.  What the steps of a
machine preserve is mostly a sum over all instructions of all threads, and such a sum changes in one
place only.
-/

namespace Machinery

variable {ι : Type*}

/-- The weights of the instructions of one thread, added up. -/
def weight (w : ι → ℕ) (code : List ι) : ℕ := (code.map w).sum

/-- The weights of all instructions of all threads, added up. -/
def total (w : ι → ℕ) (threads : List (List ι)) : ℕ := (threads.map (weight w)).sum

section

variable (w : ι → ℕ)

@[simp] theorem weight_nil : weight w [] = 0 := rfl

@[simp] theorem weight_cons (x : ι) (code : List ι) :
    weight w (x :: code) = w x + weight w code := by
  simp [weight]

@[simp] theorem weight_append (code code' : List ι) :
    weight w (code ++ code') = weight w code + weight w code' := by
  simp [weight]

@[simp] theorem total_nil : total w [] = 0 := rfl

@[simp] theorem total_cons (code : List ι) (threads : List (List ι)) :
    total w (code :: threads) = weight w code + total w threads := by
  simp [total]

@[simp] theorem total_append (threads threads' : List (List ι)) :
    total w (threads ++ threads') = total w threads + total w threads' := by
  simp [total]

/-- **One element of a list goes**: the sum goes down by what `f` says of it. -/
theorem sum_map_eraseIdx {M : Type*} [AddCommMonoid M] (f : ι → M) {code : List ι} {i : ℕ} {x : ι}
    (h : code[i]? = some x) : f x + ((code.eraseIdx i).map f).sum = (code.map f).sum := by
  obtain ⟨hlt, rfl⟩ := List.getElem?_eq_some_iff.mp h
  have hmap : i < (code.map f).length := by simpa using hlt
  rw [← List.eraseIdx_map, ← List.CommMonoid.add_sum_eraseIdx hmap, List.getElem_map]

/-- **One element changes**: the sum changes by what the new one has more or less. -/
theorem sum_map_set {M : Type*} [AddCommMonoid M] (f : ι → M) {code : List ι} {i : ℕ} {x : ι}
    (h : code[i]? = some x) (x' : ι) :
    ((code.set i x').map f).sum + f x = (code.map f).sum + f x' := by
  have hset : (code.set i x')[i]? = some x' := by simp [(List.getElem?_eq_some_iff.mp h).1]
  rw [← sum_map_eraseIdx f h, ← sum_map_eraseIdx f hset, List.eraseIdx_set_eq]
  rw [add_right_comm, add_comm (f x'), add_right_comm]

/-- The same for weights. -/
theorem weight_set {code : List ι} {i : ℕ} {x : ι} (h : code[i]? = some x) (x' : ι) :
    weight w (code.set i x') + w x = weight w code + w x' :=
  sum_map_set w h x'

theorem le_weight {code : List ι} {i : ℕ} {x : ι} (h : code[i]? = some x) :
    w x ≤ weight w code := by
  obtain ⟨hi, rfl⟩ := List.getElem?_eq_some_iff.mp h
  exact List.le_sum_of_mem (List.mem_map_of_mem (List.getElem_mem hi))

theorem weight_modify {code : List ι} {i : ℕ} {x : ι} (h : code[i]? = some x) (f : ι → ι) :
    weight w (code.modify i f) + w x = weight w code + w (f x) := by
  have hset : code.modify i f = code.set i (f x) := by
    ext j : 1
    rw [List.getElem?_modify, List.getElem?_set]
    by_cases hij : i = j
    · subst hij
      rw [if_pos rfl, if_pos (List.getElem?_eq_some_iff.mp h).1, h, Option.map_eq_map,
        Option.map_some, if_pos rfl]
    · simp [hij]
  rw [hset, weight_set w h]

theorem weight_eraseIdx {code : List ι} {i : ℕ} {x : ι} (h : code[i]? = some x) :
    weight w (code.eraseIdx i) + w x = weight w code :=
  (Nat.add_comm _ _).trans (sum_map_eraseIdx w h)

/-- Two elements in different places weigh no more than the whole list. -/
theorem add_le_weight_of_mem_set {code : List ι} {i : ℕ} {x x' y : ι} (h : code[i]? = some x)
    (hy : y ∈ code.set i x') : y = x' ∨ y ∈ code ∧ w y + w x ≤ weight w code := by
  induction code generalizing i with
  | nil => simp at h
  | cons head code ih =>
      cases i with
      | zero =>
          obtain rfl : head = x := by simpa using h
          obtain rfl | hy := List.mem_cons.mp hy
          · exact .inl rfl
          · obtain ⟨j, hj⟩ := List.mem_iff_getElem?.mp hy
            have := le_weight w hj
            exact .inr ⟨.tail _ hy, by rw [weight_cons]; omega⟩
      | succ i =>
          have hx : code[i]? = some x := by simpa using h
          rw [List.set_cons_succ] at hy
          obtain rfl | hy := List.mem_cons.mp hy
          · have := le_weight w hx
            exact .inr ⟨.head _, by rw [weight_cons]; omega⟩
          · refine (ih hx hy).imp id fun ⟨hmem, hle⟩ => ⟨.tail _ hmem, ?_⟩
            rw [weight_cons]
            omega

/-- Weights that agree on a list add up to the same. -/
theorem weight_congr {w' : ι → ℕ} {code : List ι} (h : ∀ x ∈ code, w x = w' x) :
    weight w code = weight w' code := by
  rw [weight, weight, List.map_congr_left h]

/-- What adds up to something is somewhere. -/
theorem exists_of_weight_pos {code : List ι} (h : 0 < weight w code) :
    ∃ (i : ℕ) (x : ι), code[i]? = some x ∧ 0 < w x := by
  by_contra hnone
  push Not at hnone
  have hzero : weight w code = 0 := List.sum_eq_zero fun n hn => by
    obtain ⟨x, hx, rfl⟩ := List.mem_map.mp hn
    obtain ⟨i, hi⟩ := List.mem_iff_getElem?.mp hx
    exact Nat.le_zero.mp (hnone i x hi)
  omega

/-- **One thread changes**: the sum changes by what that thread has more or less. -/
theorem total_set {threads : List (List ι)} {i : ℕ} {code : List ι} (h : threads[i]? = some code)
    (code' : List ι) :
    total w (threads.set i code') + weight w code = total w threads + weight w code' :=
  weight_set (weight w) h code'

theorem weight_le_total {threads : List (List ι)} {i : ℕ} {code : List ι}
    (h : threads[i]? = some code) : weight w code ≤ total w threads :=
  le_weight (weight w) h

/-- It does not matter which thread an instruction is in. -/
theorem total_eq_weight_flatten (threads : List (List ι)) :
    total w threads = weight w threads.flatten := by
  induction threads with
  | nil => rfl
  | cons code threads ih => simp only [total_cons, List.flatten_cons, weight_append, ih]

/-- Threads that are done add up to nothing. -/
theorem total_eq_zero {threads : List (List ι)} (h : ∀ code ∈ threads, code = []) :
    total w threads = 0 := by
  induction threads with
  | nil => rfl
  | cons code threads ih =>
      obtain rfl := h code (.head _)
      simpa using ih fun code hcode => h code (.tail _ hcode)

/-! ## One step of one thread

Thread `i` replaces its head `x` by `code`, and starts the threads `spawned`. -/

variable {threads : List (List ι)} {i : ℕ} {x : ι} {k : List ι}

/-- The code of thread `i`; a thread that does not exist has none. -/
def codeAt (threads : List (List ι)) (i : ℕ) : List ι := threads.getD i []

theorem codeAt_eq {code : List ι} (h : threads[i]? = some code) : codeAt threads i = code := by
  simp [codeAt, h]

theorem getElem?_of_codeAt (h : codeAt threads i = x :: k) : threads[i]? = some (x :: k) := by
  simpa [codeAt, List.getD_eq_getElem?_getD, Option.getD_eq_iff] using h

/-- **What a step does to a sum.** -/
theorem total_goto (h : threads[i]? = some (x :: k)) (code : List ι) (spawned : List (List ι)) :
    total w (threads.set i (code ++ k) ++ spawned) + w x =
      total w threads + weight w code + total w spawned := by
  have := total_set w h (code ++ k)
  simp only [weight_cons, weight_append, total_append] at this ⊢
  omega

/-- What a step does to the instructions there are. -/
theorem mem_goto (h : threads[i]? = some (x :: k)) {code : List ι} {spawned : List (List ι)} {y : ι}
    (hy : y ∈ (threads.set i (code ++ k) ++ spawned).flatten) :
    y ∈ code ∨ y ∈ spawned.flatten ∨ y ∈ threads.flatten := by
  simp only [List.flatten_append, List.mem_append, List.mem_flatten] at hy ⊢
  obtain ⟨c, hc, hyc⟩ | hy := hy
  · obtain hc | rfl := List.mem_or_eq_of_mem_set hc
    · exact .inr (.inr ⟨c, hc, hyc⟩)
    · obtain hyc | hyk := List.mem_append.mp hyc
      · exact .inl hyc
      · exact .inr (.inr ⟨x :: k, List.mem_of_getElem? h, .tail x hyk⟩)
  · exact .inr (.inl hy)

/-- New threads get a property that a thread with no code has. -/
theorem codeAt_append (F : ℕ → List ι → Prop) (hF : ∀ j, F j (codeAt threads j))
    {spawned : List (List ι)} (hspawned : ∀ c ∈ spawned, ∀ j, F j [] → F j c) (j : ℕ) :
    F j (codeAt (threads ++ spawned) j) := by
  rcases Nat.lt_or_ge j threads.length with hj | hj
  · have : codeAt (threads ++ spawned) j = codeAt threads j := by
      simp [codeAt, List.getElem?_append, hj]
    exact this ▸ hF j
  · have hnil : F j [] := by simpa [codeAt, hj] using hF j
    have : codeAt (threads ++ spawned) j = codeAt spawned (j - threads.length) := by
      simp [codeAt, List.getElem?_append, Nat.not_lt.mpr hj]
    rw [this, codeAt, List.getD_eq_getElem?_getD]
    cases hs : spawned[j - threads.length]? with
    | none => exact hnil
    | some c => exact hspawned c (List.mem_of_getElem? hs) j hnil

/-- **What a step does to a property of every thread**: the others keep it, and thread `i` and the
new threads have to get it. -/
theorem codeAt_goto (F F' : ℕ → List ι → Prop) (hF : ∀ j, F j (codeAt threads j))
    (h : threads[i]? = some (x :: k)) {code : List ι} {spawned : List (List ι)} (hi : F' i code)
    (hne : ∀ j ≠ i, ∀ c, F j c → F' j c) (hspawned : ∀ c ∈ spawned, ∀ j, F' j [] → F' j c) (j : ℕ) :
    F' j (codeAt (threads.set i code ++ spawned) j) := by
  refine codeAt_append F' (fun j => ?_) hspawned j
  have hlt : i < threads.length := (List.getElem?_eq_some_iff.mp h).1
  by_cases hij : i = j
  · subst hij
    simpa [codeAt, hlt] using hi
  · have : codeAt (threads.set i code) j = codeAt threads j := by simp [codeAt, hij]
    exact this ▸ hne j (Ne.symm hij) _ (hF j)

end

end Machinery
