import SendersReceivers.Machinery.Places
import SendersReceivers.Machinery.Runs

/-!
# Refs/Machine — the scoped references to the tuple of a `LetValue`

`LetValueReceiver::set_value` hands its function one `ScopedRefMut` to the stored tuple.  The
function makes references to parts of it, splits these, turns them into shared ones, and may keep
any of them. Each of them has a `State` that keeps the scope open: a handle of the scope, or a clone
of a closure in an `Rc` or `Arc` that owns such a handle.

    ScopedRefMut ──map_split──▸ ScopedRefMut ──┐
         │                      ScopedRefMut ──┴──▸ closure ──▸ scope ◂── local_scope
         └─map_no_mut─▸ ScopedRef                                 ▴────── local_receiver

What the borrow checker sees to is assumed here: the two `&mut` that a function returns to
`map_split` are apart, and what is returned to `map` is part of what was given to it. -/

namespace SendersReceivers.Refs

open Machinery

/-- The `State` of a reference. -/
inductive Ptr where
  /-- a handle of the scope -/
  | scope
  /-- `SendState` or `NoSendState`: a clone of closure `b`, which owns `inner` -/
  | boxed (b : ℕ) (inner : Ptr)
  deriving DecidableEq

/-- `ScopedRef`, and `ScopedRefMut` if it `isMut`. -/
structure Reference where
  place : Place
  isMut : Bool
  state : Ptr
  deriving DecidableEq

/-- The stored tuple, the references, the strong counts, the closures that are allocated, the next
one, the handles of the scope that no reference has, what the destructor of the scope has found in
the tuple, and how often a count went below zero. -/
structure State (V : Type) where
  mem : Place → V
  refs : List Reference
  counts : Ptr → ℕ
  boxes : List Ptr
  next : ℕ
  others : ℕ
  forwarded : List (Place → V)
  faults : ℕ

/-- What user code does next, mostly with the `i`-th reference. -/
inductive Label (V : Type) where
  /-- `DerefMut`, and what the function does with it that is given to `map` and its like -/
  | write (i : ℕ) (part : Place) (v : V)
  | map (i : ℕ) (part : Place)
  | map_no_mut (i : ℕ) (part : Place)
  | filter_map (i : ℕ) (part : Option Place)
  | map_split (i : ℕ) (u v : Place)
  /-- `ScopedRef::clone`, which takes its argument along -/
  | clone (i : ℕ)
  /-- `DistributeRefTuple::distribute`, of a tuple with `n` elements -/
  | distribute (i n : ℕ)
  | sr_from (i : ℕ)
  /-- `From<ScopedRefMut>` -/
  | into (i : ℕ)
  | drop (i : ℕ)
  /-- another handle of the scope is cloned, or dropped -/
  | cloneOther
  | dropOther

variable {V : Type}

/-! ## The functions of the source -/

namespace Reference

/-- `map`, of either kind of reference. -/
def map (r : Reference) (part : Place) : Reference := { r with place := r.place ++ part }

/-- `ScopedRefMut::map_no_mut`. -/
def map_no_mut (r : Reference) (part : Place) : Reference := { r.map part with isMut := false }

/-- `filter_map`, of either kind: the function finds a part, or the reference is returned. -/
def filter_map (r : Reference) : Option Place → Reference
  | some part => r.map part
  | none => r

/-- `From<ScopedRefMut>` of `ScopedRef`. -/
def into (r : Reference) : Reference := { r with isMut := false }

end Reference

namespace State

variable (s : State V)

/-- `Clone` of the state of a reference. -/
def cloneState (p : Ptr) : State V :=
  { s with counts := Function.update s.counts p (s.counts p + 1) }

/-- The state of a reference is dropped: the last clone of a closure drops what that owns, and the
last handle of the scope runs its destructor. -/
def dropState : Ptr → State V → State V
  | .scope, s =>
      match s.counts .scope with
      | 0 => { s with faults := s.faults + 1 }
      | 1 =>
          { s with
            counts := Function.update s.counts .scope 0
            forwarded := s.forwarded ++ [s.mem] }
      | n + 2 => { s with counts := Function.update s.counts .scope (n + 1) }
  | .boxed b inner, s =>
      match s.counts (.boxed b inner) with
      | 0 => { s with faults := s.faults + 1 }
      | 1 =>
          dropState inner
            { s with
              counts := Function.update s.counts (.boxed b inner) 0
              boxes := s.boxes.erase (.boxed b inner) }
      | n + 2 => { s with counts := Function.update s.counts (.boxed b inner) (n + 1) }

/-- The `i`-th reference is moved, and `new` come out of it. -/
def replace (i : ℕ) (new : List Reference) : State V := { s with refs := s.refs.eraseIdx i ++ new }

/-- `map_split`, of either kind: one more clone of the state. -/
def map_split (i : ℕ) (r : Reference) (u v : Place) : State V :=
  (s.cloneState r.state).replace i [r.map u, r.map v]

/-- `ScopedRef::clone`: the argument is dropped. -/
def clone (i : ℕ) (r : Reference) : State V :=
  ((s.cloneState r.state).replace i [r]).dropState r.state

/-- The references to the `n` elements of a tuple. -/
def elements (r : Reference) (n : ℕ) : List Reference := (List.range n).map fun k => r.map [k]

/-- `distribute`: a tuple of one is mapped; else the elements get clones, and the argument is
dropped. -/
def distribute (i : ℕ) (r : Reference) : ℕ → State V
  | 1 => s.replace i [r.map [0]]
  | n =>
      (((fun s : State V => s.cloneState r.state)^[n] s).replace i (elements r n)).dropState
        r.state

/-- `sr_from`: the state goes into a closure. -/
def sr_from (i : ℕ) (r : Reference) : State V :=
  let box : Ptr := .boxed s.next r.state
  { s with
    counts := Function.update s.counts box 1
    boxes := s.boxes ++ [box]
    next := s.next + 1 }.replace i [{ r with state := box }]

end State

/-- **The step function.** -/
def step (s : State V) : Label V → Option (State V)
  | .write i part v =>
      s.refs[i]?.bind fun r =>
        if r.isMut then some { s with mem := Function.update s.mem (r.place ++ part) v } else none
  | .map i part => s.refs[i]?.map fun r => s.replace i [r.map part]
  | .map_no_mut i part =>
      s.refs[i]?.bind fun r => if r.isMut then some (s.replace i [r.map_no_mut part]) else none
  | .filter_map i part => s.refs[i]?.map fun r => s.replace i [r.filter_map part]
  | .map_split i u v =>
      s.refs[i]?.bind fun r =>
        if r.isMut ∧ Place.Overlap u v then none else some (s.map_split i r u v)
  | .clone i => s.refs[i]?.bind fun r => if r.isMut then none else some (s.clone i r)
  | .distribute i n => s.refs[i]?.map fun r => s.distribute i r n
  | .sr_from i => s.refs[i]?.map fun r => s.sr_from i r
  | .into i => s.refs[i]?.bind fun r => if r.isMut then some (s.replace i [r.into]) else none
  | .drop i => s.refs[i]?.map fun r => (s.replace i []).dropState r.state
  | .cloneOther =>
      if s.others = 0 then none else some { s.cloneState .scope with others := s.others + 1 }
  | .dropOther =>
      if s.others = 0 then none
      else some ({ s with others := s.others - 1 }.dropState .scope)

/-- `new_scope` with a tuple: a reference, `local_scope` and `local_receiver`. -/
def newScope (value : Place → V) : State V where
  mem := value
  refs := [⟨[], true, .scope⟩]
  counts := Function.update (fun _ => 0) .scope 3
  boxes := []
  next := 0
  others := 2
  forwarded := []
  faults := 0

/-- A `LetValue` that has got `value`, and calls its function. -/
def machine (value : Place → V) : Machine (State V) (Label V) where
  init := (newScope value).sr_from 0 ⟨[], true, .scope⟩
  step := step

end SendersReceivers.Refs
