import SendersReceivers.Machinery.Acyclic
import SendersReceivers.StopToken.Reentrancy

/-!
# StopToken/Propagation — sources that are stopped with others

A source is linked to a token by a detached callback that stops it; if the token is stopped already,
that is done at once.  The callback is run where the mutex of its own source is held, and takes the
one of the next.

    request_stop a ──▸ callback: request_stop b ──▸ callback: request_stop c ──▸ ⋯

Links may be made in any order, at any time, and on any thread, as long as they do not close a
cycle. -/

namespace SendersReceivers.StopToken

open Machinery Relation

/-! ## The three ways to link -/

/-- `stop_token.detached_callback(move || stop_source.request_stop())`, with its `if let Err(f)`.
The function owns nothing but a `StopSource`. -/
def link (stop_token stop_source : ℕ) : Op :=
  .callback stop_token ⟨0, true, true⟩ [.requestStop stop_source] []

/-- `From<StopToken> for StopSource`. -/
def StopSource.fromToken (stop_token new_stop_source : ℕ) : Op := link stop_token new_stop_source

def EnsureStartedSendTS.connect (stop_token stop_source : ℕ) : Op := link stop_token stop_source

def WhenAllFin.connect (stop_token stop_source : ℕ) : Op := link stop_token stop_source

/-- Source `c` was linked to a token of `p`. -/
def Links (s : State) (p c : ℕ) : Prop := link p c ∈ s.called

/-- `request_stop` was called on `q`, or on a source above. -/
def Demanded (s : State) (q : ℕ) : Prop :=
  ∃ a, .requestStop a ∈ s.called ∧ ReflTransGen (Links s) a q

/-- **What the threads call**: they stop sources, and they link sources, without closing a cycle. -/
def Grows (s : State) : Label → Prop
  | .call o => (∃ q, o = .requestStop q) ∨ ∃ p c, ¬ReflTransGen (Links s) c p ∧
      (o = StopSource.fromToken p c ∨ o = EnsureStartedSendTS.connect p c ∨
        o = WhenAllFin.connect p c)
  | .run _ => True
  | .panic _ => False

theorem Grows.peaceful {s : State} {l : Label} (h : Grows s l) : Peaceful s l := by
  cases l with
  | panic i => exact h
  | _ => trivial

/-- A call is a stop, or a link. -/
theorem Grows.call {s : State} {o : Op} (h : Grows s (.call o)) : (∃ q, o = .requestStop q) ∨
    ∃ p c, ¬ReflTransGen (Links s) c p ∧ o = link p c := by
  refine h.imp_right fun ⟨p, c, hnew, ho⟩ => ⟨p, c, hnew, ?_⟩
  obtain rfl | rfl | rfl := ho <;> rfl

/-! ## The invariant -/

/-- Where an instruction comes from. -/
def Instr.Derived (s : State) : Instr → Prop
  | .op (.requestStop q) => Demanded s q
  | .op (.callback p caller body drops) | .load p caller ⟨body, drops⟩
  | .push p caller ⟨body, drops⟩ => ∃ c, Op.callback p caller body drops = link p c ∧ Links s p c
  | .lockStop q | .invoke q _ => (s.sources q).stopped = true
  | .op (.drop ..) | .op (.detach ..) | .lockClear .. | .clear .. | .cleared .. => False

/-- The link is being made, or is there, or has done its work. -/
inductive Linked (s : State) (p c : ℕ) : Prop
  | making (x : Instr) : x ∈ s.threads.flatten →
      x = .op (link p c) ∨ x = .load p ⟨0, true, true⟩ ⟨[.requestStop c], []⟩ ∨
        x = .push p ⟨0, true, true⟩ ⟨[.requestStop c], []⟩ → Linked s p c
  | made (id : ℕ) : id ∈ (s.sources p).callbacks →
      s.functions[id]? = some (some ⟨[.requestStop c], []⟩) → Linked s p c
  | stopping : .op (.requestStop c) ∈ s.threads.flatten → Linked s p c
  | stopped : (s.sources c).stopped = true → Linked s p c

/-- The sources against the calls there were. -/
structure Forest (s : State) : Prop where
  acyclic : Acyclic (Links s)
  ordered : InOrder s.handles (Beneath (Links s)) s.threads
  origin : ∀ x ∈ s.threads.flatten, x.Derived s
  boxes : ∀ q, ∀ id ∈ (s.sources q).callbacks, ∀ f, s.functions[id]? = some (some f) →
    ∃ c, f = ⟨[.requestStop c], []⟩ ∧ Links s q c
  sound : ∀ q, (s.sources q).stopped = true → Demanded s q
  linked : ∀ p c, Links s p c → Linked s p c
  asked : ∀ q, .requestStop q ∈ s.called →
    .op (.requestStop q) ∈ s.threads.flatten ∨ (s.sources q).stopped = true

section

variable {s t : State} {i : ℕ} {k c : List Instr} {x : Instr} {l : Label}

theorem Demanded.mono {q : ℕ} (h : Demanded s q) (hcalled : s.called ⊆ t.called) :
    Demanded t q := by
  obtain ⟨a, ha, hpath⟩ := h
  exact ⟨a, hcalled ha, ReflTransGen.mono (fun _ _ hl => hcalled hl) _ _ hpath⟩

theorem Demanded.link {p q : ℕ} (h : Demanded s p) (hl : Links s p q) : Demanded s q := by
  obtain ⟨a, ha, hpath⟩ := h
  exact ⟨a, ha, hpath.tail hl⟩

theorem Instr.Derived.mono (h : x.Derived s) (hcalled : s.called ⊆ t.called)
    (hstopped : ∀ q, (s.sources q).stopped = true → (t.sources q).stopped = true) :
    x.Derived t := by
  have hlink : ∀ {p caller body drops},
      (∃ c, Op.callback p caller body drops = StopToken.link p c ∧ Links s p c) →
      ∃ c, Op.callback p caller body drops = StopToken.link p c ∧ Links t p c :=
    fun ⟨c, hc, hl⟩ => ⟨c, hc, hcalled hl⟩
  cases x with
  | op o =>
      cases o with
      | requestStop q => exact Demanded.mono h hcalled
      | callback p caller body drops => exact hlink h
      | drop q name => exact h
      | detach q name => exact h
  | lockStop q => exact hstopped q h
  | invoke q j => exact hstopped q h
  | load p caller f => exact hlink h
  | push p caller f => exact hlink h
  | lockClear q n id => exact h
  | clear q n id => exact h
  | cleared q id => exact h

/-! ## What a turn does, seen from here -/

theorem Turn.called (h : Turn s i k x t) : t.called = s.called := by
  cases h with
  | push q caller f => exact push_called ..
  | _ => rfl

theorem Turn.threads (h : Turn s i k x t) : ∃ c, t.threads = (s.goto i c k).threads := by
  cases h with
  | push q caller f => exact ⟨[], push_threads ..⟩
  | _ => exact ⟨_, rfl⟩

/-- The flags that are set: there is one more after the store. -/
theorem Turn.stopped_iff (h : Turn s i k x t) (q : ℕ) : (t.sources q).stopped = true ↔
    (s.sources q).stopped = true ∨ x = .op (.requestStop q) := by
  cases h with
  | store q' =>
      simp only [State.goto, store_source, Bool.or_eq_true, decide_eq_true_eq, Instr.op.injEq,
        Op.requestStop.injEq, @eq_comm _ q q']
  | @enter _ inside q' hx _ =>
      refine ⟨.inl, fun h => h.resolve_right fun heq => ?_⟩
      rw [heq] at hx
      cases hx
  | forget q' name hx =>
      refine ⟨.inl, fun h => h.resolve_right fun heq => ?_⟩
      rw [heq] at hx
      simp at hx
  | push q' caller f => simp [push_source]
  | _ => exact ⟨.inl, fun h => h.resolve_right (by simp)⟩

theorem Turn.stopped (h : Turn s i k x t) (q : ℕ) (hq : (s.sources q).stopped = true) :
    (t.sources q).stopped = true :=
  (h.stopped_iff q).mpr (.inl hq)

theorem Turn.asked (h : Turn s i k x t) (hi : s.threads[i]? = some (x :: k)) {q : ℕ}
    (hq : .op (.requestStop q) ∈ s.threads.flatten ∨ (s.sources q).stopped = true) :
    .op (.requestStop q) ∈ t.threads.flatten ∨ (t.sources q).stopped = true := by
  obtain hmem | hq := hq
  · by_cases hx : .op (.requestStop q) = x
    · exact .inr ((h.stopped_iff q).mpr (.inr hx.symm))
    · obtain ⟨c, hc⟩ := h.threads
      rw [hc]
      exact .inl (mem_goto_of_mem hi c hmem hx)
  · exact .inr (h.stopped q hq)

/-- What the next function does: it stops a source below the one that it was linked to, and so below
all that are locked around it. -/
theorem Forest.under (h : Forest s) (hi : s.threads[i]? = some (x :: k)) :
    ∀ fk ∈ s.entering i, Under s.handles (Beneath (Links s)) fk.1 fk.2 := by
  have hstrict := h.acyclic.isStrictOrder
  have hbelow : ∀ {p q : ℕ}, Links s p q → ∀ y ∈ code [.requestStop q], ∀ r,
      (mutexes s.handles).uses y = some r → Beneath (Links s) r p := fun hl y hy r hr => by
    obtain rfl := List.mem_singleton.mp hy
    obtain rfl := Option.some.inj hr
    exact TransGen.single hl
  have hhead := h.ordered.head hi
  have hmem := mem_flatten_head hi
  intro fk hfk
  rw [State.entering, hi] at hfk
  split at hfk
  next q j k' heq =>
    obtain ⟨rfl, rfl⟩ := List.cons.inj (Option.some.inj heq)
    split at hfk
    next f hf =>
      obtain rfl := Option.some.inj hfk
      obtain ⟨id, hid, hbox⟩ := Option.bind_eq_some_iff.mp hf
      obtain ⟨d, rfl, hl⟩ := h.boxes q id (List.mem_of_getElem? hid) f hbox
      intro y hy z hz
      obtain rfl | hz := List.mem_cons.mp hz
      · intro r hr q' hq'
        obtain rfl := Option.some.inj hq'
        exact hbelow hl y hy r hr
      · exact hhead.nest rfl (hbelow hl) y hy z hz
    next => cases hfk
  next q n id k' heq =>
    obtain ⟨rfl, rfl⟩ := List.cons.inj (Option.some.inj heq)
    exact (h.origin _ hmem).elim
  next q caller f k' heq =>
    obtain ⟨rfl, rfl⟩ := List.cons.inj (Option.some.inj heq)
    split at hfk
    next =>
      obtain rfl := Option.some.inj hfk
      obtain ⟨d, hop, hl⟩ := h.origin _ hmem
      obtain ⟨-, rfl, hbody, -⟩ := Op.callback.inj hop
      refine hhead.nest rfl ?_
      simpa only [if_true, hbody] using hbelow hl
    next => cases hfk
  next => cases hfk

/-- Where the new instructions come from. -/
theorem Turn.origin (hturn : Turn s i k x t) (h : Forest s) (hi : s.threads[i]? = some (x :: k)) :
    ∀ y ∈ t.threads.flatten, y.Derived t := by
  have hx := h.origin x (mem_flatten_head hi)
  have hmono : ∀ y : Instr, y.Derived s → y.Derived t := fun y hy =>
    hy.mono (fun o ho => hturn.called ▸ ho) hturn.stopped
  have hstops : ∀ {p q : ℕ}, Demanded s p → Links s p q →
      ∀ y ∈ StopToken.code [.requestStop q], y.Derived t := fun {p q} hp hl y hy => by
    obtain rfl := List.mem_singleton.mp hy
    exact hmono (.op (.requestStop q)) (hp.link hl)
  suffices hnew : ∃ c, t.threads = (s.goto i c k).threads ∧ ∀ y ∈ c, y.Derived t by
    obtain ⟨c, hc, hnew⟩ := hnew
    intro y hy
    rw [hc] at hy
    exact (mem_goto hi hy).elim (hnew y) fun hold => hmono y (h.origin y hold)
  have hone : ∀ {y : Instr}, y.Derived t → ∀ z ∈ [y], z.Derived t := fun hy z hz =>
    List.mem_singleton.mp hz ▸ hy
  cases hturn with
  | store q => exact ⟨_, rfl, hone (by simp [Instr.Derived, State.goto, store_source])⟩
  | @enter _ inside q henters _ =>
      refine ⟨_, rfl, hone ?_⟩
      unfold Instr.enters at henters
      split at henters <;> cases henters
      · exact hx
      · exact hx
      · exact hx
  | forget q name _ => exact ⟨[], rfl, by simp⟩
  | detach q name id => exact hx.elim
  | take q name n id _ => exact hx.elim
  | done q j _ => exact ⟨[], rfl, by simp⟩
  | skip q j id _ _ => exact ⟨_, rfl, hone hx⟩
  | run q j id f hslot hbox =>
      refine ⟨_, rfl, fun y hy => ?_⟩
      obtain ⟨d, rfl, hl⟩ := h.boxes q id (List.mem_of_getElem? hslot) f hbox
      obtain hy | hy := List.mem_append.mp hy
      · exact hstops (h.sound q hx) hl y hy
      · exact hone (y := .invoke q (j + 1)) hx y hy
  | refuse q caller f hstopped =>
      refine ⟨_, rfl, fun y hy => ?_⟩
      obtain ⟨d, hop, hl⟩ := hx
      obtain ⟨-, rfl, hbody, -⟩ := Op.callback.inj hop
      simp only [if_true, hbody] at hy
      exact hstops (h.sound q hstopped) hl y hy
  | accept q caller f _ => exact ⟨_, rfl, hone hx⟩
  | push q caller f => exact ⟨[], push_threads .., by simp⟩
  | clear q n id _ => exact hx.elim
  | cleared q id => exact hx.elim

/-- What is in the boxes afterwards. -/
theorem Turn.boxes (hturn : Turn s i k x t) (h : Forest s) (hinv : Inv s)
    (hi : s.threads[i]? = some (x :: k)) : ∀ q, ∀ id ∈ (t.sources q).callbacks, ∀ f,
      t.functions[id]? = some (some f) → ∃ c, f = ⟨[.requestStop c], []⟩ ∧ Links t q c := by
  have hx := h.origin x (mem_flatten_head hi)
  have hlinks : Links t = Links s := by
    unfold Links
    rw [hturn.called]
  rw [hlinks]
  intro q' id' hmem f' hf'
  have hset : ∀ {id : ℕ}, (s.functions.set id none)[id']? = some (some f') →
      s.functions[id']? = some (some f') := fun {id} hf => by
    rw [List.getElem?_set] at hf
    split at hf
    · split at hf <;> cases hf
    · exact hf
  cases hturn with
  | store q =>
      refine h.boxes q' id' ?_ f' hf'
      simpa [State.goto, store_source] using hmem
  | run q j id f _ _ => exact h.boxes q' id' hmem f' (hset hf')
  | clear q n id _ => exact h.boxes q' id' hmem f' (hset hf')
  | refuse q caller f _ =>
      have hlt := hinv.below q' id' (.inl ((hinv.listed q' id').mp hmem))
      refine h.boxes q' id' hmem f' ?_
      simpa [State.refuse, List.getElem?_append_left hlt] using hf'
  | push q caller f =>
      simp only [push_source, List.mem_append] at hmem
      rw [push_functions] at hf'
      obtain hmem | hmem := hmem
      · have hlt := hinv.below q' id' (.inl ((hinv.listed q' id').mp hmem))
        refine h.boxes q' id' hmem f' ?_
        simpa [List.getElem?_append_left hlt] using hf'
      · split at hmem
        next heq =>
          subst heq
          obtain rfl := List.mem_singleton.mp hmem
          obtain rfl : f = f' := by simpa using hf'
          obtain ⟨d, hop, hl⟩ := hx
          obtain ⟨-, -, hbody, hdrops⟩ := Op.callback.inj hop
          exact ⟨d, Callback.ext hbody hdrops, hl⟩
        next => cases hmem
  | _ => exact h.boxes q' id' hmem f' hf'

/-- A link stays, if nothing happens to it. -/
theorem Linked.keep {p d : ℕ} (h : Linked s p d) (hi : s.threads[i]? = some (x :: k))
    (ht : t.threads = (s.goto i c k).threads)
    (hcallbacks : ∀ q, (s.sources q).callbacks ⊆ (t.sources q).callbacks)
    (hstopped : ∀ q, (s.sources q).stopped = true → (t.sources q).stopped = true)
    (hboxes : ∀ id : ℕ, s.functions[id]? = some (some ⟨[.requestStop d], []⟩) →
      t.functions[id]? = some (some ⟨[.requestStop d], []⟩) ∨ Linked t p d)
    (hmaking : x = .op (link p d) ∨ x = .load p ⟨0, true, true⟩ ⟨[.requestStop d], []⟩ ∨
      x = .push p ⟨0, true, true⟩ ⟨[.requestStop d], []⟩ → Linked t p d)
    (hstopping : x = .op (.requestStop d) → Linked t p d) : Linked t p d := by
  cases h with
  | making y hmem hy =>
      by_cases hyx : y = x
      · exact hmaking (hyx ▸ hy)
      · exact .making y (ht ▸ mem_goto_of_mem hi c hmem hyx) hy
  | made id hmem hbox => exact (hboxes id hbox).elim (.made id (hcallbacks p hmem)) fun h => h
  | stopping hmem =>
      by_cases hx : .op (.requestStop d) = x
      · exact hstopping hx.symm
      · exact .stopping (ht ▸ mem_goto_of_mem hi c hmem hx)
  | stopped hd => exact .stopped (hstopped d hd)

theorem Turn.linked (hturn : Turn s i k x t) (h : Forest s)
    (hi : s.threads[i]? = some (x :: k)) {p d : ℕ} (hl : Linked s p d) : Linked t p d := by
  have hx := h.origin x (mem_flatten_head hi)
  have hstopped := hturn.stopped
  have hlt : ∀ {id : ℕ}, s.functions[id]? = some (some ⟨[.requestStop d], []⟩) →
      id < s.functions.length := fun hbox => (List.getElem?_eq_some_iff.mp hbox).1
  cases hturn with
  | store q =>
      refine hl.keep hi rfl (fun q' => ?_) hstopped (fun id hbox => .inl hbox) (by simp [link])
        fun heq => ?_
      · show _ ⊆ ((s.store q).sources q').callbacks
        rw [store_source]
        exact List.Subset.refl _
      · obtain rfl : q = d := by simpa using heq
        exact .stopped (by simp [State.goto, store_source])
  | @enter _ inside q henters _ =>
      refine hl.keep hi rfl (fun _ => List.Subset.refl _) hstopped (fun id hbox => .inl hbox)
        (fun heq => ?_) fun heq => ?_
      · obtain rfl | rfl | rfl := heq <;> cases henters
        exact .making _ (mem_goto_code hi (.head _)) (.inr (.inl rfl))
      · rw [heq] at henters
        cases henters
  | forget q name hdrop =>
      obtain rfl | rfl := hdrop
      · exact hx.elim
      · exact hx.elim
  | detach q name id => exact hx.elim
  | take q name n id _ => exact hx.elim
  | done q j _ =>
      exact hl.keep hi rfl (fun _ => List.Subset.refl _) hstopped (fun id hbox => .inl hbox)
        (by simp) (by simp)
  | skip q j id _ _ =>
      exact hl.keep hi rfl (fun _ => List.Subset.refl _) hstopped (fun id hbox => .inl hbox)
        (by simp) (by simp)
  | run q j id f hslot hf =>
      refine hl.keep hi rfl (fun _ => List.Subset.refl _) hstopped (fun id' hbox => ?_)
        (by simp) (by simp)
      by_cases hid : id' = id
      · -- the link is about to do its work
        subst hid
        obtain rfl : f = ⟨[.requestStop d], []⟩ := by simpa [hf] using hbox
        exact .inr (.stopping
          (mem_goto_code (c := StopToken.code [.requestStop d] ++ [_]) hi (.head _)))
      · exact .inl ((List.getElem?_set_ne (Ne.symm hid)).trans hbox)
  | refuse q caller f hrefused =>
      refine hl.keep hi rfl (fun _ => List.Subset.refl _) hstopped
        (fun id hbox => .inl ((List.getElem?_append_left (hlt hbox)).trans hbox))
        (fun heq => ?_) (by simp)
      obtain ⟨rfl, rfl, rfl⟩ : q = p ∧ caller = ⟨0, true, true⟩ ∧ f = ⟨[.requestStop d], []⟩ := by
        simpa [link] using heq
      exact .stopping (mem_goto_code (c := StopToken.code [.requestStop d]) hi (.head _))
  | accept q caller f _ =>
      refine hl.keep hi rfl (fun _ => List.Subset.refl _) hstopped (fun id hbox => .inl hbox)
        (fun heq => ?_) (by simp)
      obtain ⟨rfl, rfl, rfl⟩ : q = p ∧ caller = ⟨0, true, true⟩ ∧ f = ⟨[.requestStop d], []⟩ := by
        simpa [link] using heq
      exact .making _ (mem_goto_code hi (.head _)) (.inr (.inr rfl))
  | push q caller f =>
      refine hl.keep hi (c := []) (push_threads ..) (fun q' => ?_) hstopped
        (fun id hbox => .inl ?_) (fun heq => ?_) (by simp)
      · rw [push_source]
        exact List.subset_append_left _ _
      · rw [push_functions, List.getElem?_append_left (hlt hbox), hbox]
      · obtain ⟨rfl, rfl, rfl⟩ : q = p ∧ caller = ⟨0, true, true⟩ ∧ f = ⟨[.requestStop d], []⟩ := by
          simpa [link] using heq
        refine .made s.functions.length ?_ (by simp)
        rw [push_source]
        simp
  | clear q n id _ => exact hx.elim
  | cleared q id => exact hx.elim

theorem Turn.forest (hturn : Turn s i k x t) (h : Forest s) (hinv : Inv s)
    (hi : s.threads[i]? = some (x :: k)) : Forest t := by
  have hlinks : Links t = Links s := by
    unfold Links
    rw [hturn.called]
  refine
    { acyclic := hlinks ▸ h.acyclic
      ordered := hlinks ▸ hturn.inOrder hi (fun q caller f hx => ?_) h.ordered (h.under hi)
      origin := hturn.origin h hi
      boxes := hturn.boxes h hinv hi
      sound := fun q hq => ?_
      linked := fun p d hl => hturn.linked h hi (h.linked p d (hlinks ▸ hl))
      asked := fun q hq => hturn.asked hi (h.asked q (hturn.called ▸ hq)) }
  · -- the handle of a link is detached
    subst hx
    obtain ⟨d, hop, -⟩ := h.origin _ (mem_flatten_head hi)
    rw [(Op.callback.inj hop).2.1]
  · refine Demanded.mono ?_ fun o ho => hturn.called ▸ ho
    obtain hold | rfl := (hturn.stopped_iff q).mp hq
    · exact h.sound q hold
    · exact h.origin _ (mem_flatten_head hi)

/-- A new call, which is a stop or a link. -/
theorem Forest.call (h : Forest s) {o : Op} (ho : Grows s (.call o))
    (ht : t = { s with threads := s.threads ++ [[.op o]], called := s.called ++ [o] }) :
    Forest t := by
  subst ht
  have hcalled : s.called ⊆ s.called ++ [o] := List.subset_append_left _ _
  have hold : ∀ y ∈ s.threads.flatten, y ∈ (s.threads ++ [[Instr.op o]]).flatten := fun y hy => by
    rw [List.flatten_append]
    exact List.mem_append_left _ hy
  have hnew : .op o ∈ (s.threads ++ [[Instr.op o]]).flatten := by simp
  have hlink : ∀ a b, link a b ∈ s.called ++ [o] → Links s a b ∨ o = link a b := fun a b hl =>
    (List.mem_append.mp hl).imp_right fun hl => (List.mem_singleton.mp hl).symm
  refine
    { acyclic := ?_
      ordered := fun c hc => ?_
      origin := fun y hy => ?_
      boxes := fun q id hid f hf => ?_
      sound := fun q hq => (h.sound q hq).mono hcalled
      linked := fun p d hl => ?_
      asked := fun q hq => ?_ }
  · obtain ⟨q, rfl⟩ | ⟨p, d, hcycle, rfl⟩ := ho.call
    · exact h.acyclic.anti fun a b hl => (hlink a b hl).resolve_right (by simp [link])
    · refine h.acyclic.insert (fun a b hl => ?_) hcycle
      refine (hlink a b hl).imp_right fun heq => ?_
      obtain ⟨rfl, rfl⟩ : p = a ∧ d = b := by simpa [link] using heq
      exact ⟨rfl, rfl⟩
  · obtain hc | hc := List.mem_append.mp hc
    · refine List.Pairwise.imp (fun hin r hr q hq => ?_) (h.ordered c hc)
      exact (hin r hr q hq).mono fun a b hl => hcalled hl
    · rw [List.mem_singleton.mp hc]
      exact List.pairwise_singleton _ _
  · rw [List.flatten_append, List.mem_append] at hy
    obtain hy | hy := hy
    · exact (h.origin y hy).mono hcalled fun _ hq => hq
    · obtain rfl : y = .op o := by simpa using hy
      obtain ⟨q, rfl⟩ | ⟨p, d, -, rfl⟩ := ho.call
      · exact ⟨q, by simp, .refl⟩
      · exact ⟨d, rfl, by simp [Links]⟩
  · obtain ⟨d, hf', hl⟩ := h.boxes q id hid f hf
    exact ⟨d, hf', hcalled hl⟩
  · obtain hl | rfl := hlink p d hl
    · cases h.linked p d hl with
      | making y hmem hy => exact .making y (hold y hmem) hy
      | made id hmem hbox => exact .made id hmem hbox
      | stopping hmem => exact .stopping (hold _ hmem)
      | stopped hd => exact .stopped hd
    · exact .making _ hnew (.inl rfl)
  · obtain hq | hq := List.mem_append.mp hq
    · exact (h.asked q hq).imp_left (hold _)
    · rw [← List.mem_singleton.mp hq] at hnew
      exact .inl (List.mem_singleton.mp hq ▸ hnew)

theorem Forest.step (h : Forest s) (hs : Steady s) (hl : Grows s l)
    (hstep : StopToken.step s l = some t) : Forest t := by
  obtain ⟨o, rfl, ht⟩ | ⟨i, x, k, -, hi, hturn⟩ :=
    hs.peace.calm.step_cases hs.peace.inv hl.peaceful hstep
  · exact h.call hl ht
  · exact hturn.forest h hs.peace.inv hi

/-! ## Whole runs -/

theorem forest_inductive : machine.Inductive Grows (fun s => Steady s ∧ Forest s) where
  init :=
    { left := Steady.inductive.init
      right :=
        { acyclic := fun a ha => by
            obtain hl | ⟨-, hl⟩ := ha
            · cases hl
            · cases hl
          ordered := fun c hc => by cases hc
          origin := by simp [machine, fresh]
          boxes := by simp [machine, fresh]
          sound := by simp [machine, fresh]
          linked := fun p d hl => by cases hl
          asked := by simp [machine, fresh] } }
  step s l t h hl hs := ⟨h.1.step hl.peaceful hs, h.2.step h.1 hl hs⟩

theorem Forest.toOrdered (h : Forest s) : Ordered s :=
  ⟨Beneath (Links s), h.acyclic.isStrictOrder, h.ordered⟩

/-- **No stop is missed.** -/
theorem Forest.stopped (h : Forest s) (hs : Steady s) (hquiet : Quiet s) {q : ℕ}
    (hq : Demanded s q) : (s.sources q).stopped = true := by
  obtain ⟨a, ha, hpath⟩ := hq
  induction hpath with
  | refl => exact (h.asked a ha).resolve_left (hquiet.not_mem _)
  | @tail p d _ hl ih =>
      cases h.linked p d hl with
      | making y hmem _ => exact absurd hmem (hquiet.not_mem y)
      | made id hmem hbox => exact absurd ⟨_, hbox⟩ (hs.not_boxed hquiet ih hmem)
      | stopping hmem => exact absurd hmem (hquiet.not_mem _)
      | stopped hd => exact hd

theorem unwind_stopped {q : ℕ} (i : ℕ) (k : List Instr) (hq : (s.sources q).stopped = true) :
    ((s.unwind i k).sources q).stopped = true := by
  rw [unwind_source]
  exact hq

theorem exec_stopped {q : ℕ} (hq : (s.sources q).stopped = true) (hs : s.exec i k x = some t) :
    (t.sources q).stopped = true := by
  have hlock : ∀ {q' inside}, s.lock i k q' inside = some t → (t.sources q).stopped = true :=
    fun hs => by
      obtain ⟨-, ⟨-, rfl⟩ | ⟨-, rfl⟩⟩ := lock_cases hs
      · exact unwind_stopped i k hq
      · exact hq
  cases x with
  | op o =>
      cases o with
      | requestStop q' =>
          obtain rfl := Option.some.inj hs
          simp [State.goto, store_source, hq]
      | callback q' caller body drops => exact hlock hs
      | drop q' name =>
          obtain rfl := Option.some.inj hs
          simp only [State.drop]
          split <;> exact hq
      | detach q' name =>
          obtain rfl := Option.some.inj hs
          simp only [State.detach]
          split <;> exact hq
  | lockStop q' => exact hlock hs
  | invoke q' j =>
      obtain rfl := Option.some.inj hs
      simp only [State.invoke]
      split
      · exact hq
      · split <;> exact hq
  | load q' caller f =>
      obtain rfl := Option.some.inj hs
      split <;> exact hq
  | push q' caller f =>
      obtain rfl := Option.some.inj hs
      rw [push_source]
      exact hq
  | lockClear q' n id => exact hlock hs
  | clear q' n id =>
      obtain rfl := Option.some.inj hs
      simp only [State.clear]
      split
      · exact unwind_stopped i _ hq
      · exact hq
  | cleared q' id => exact Option.some.inj hs ▸ hq

/-- **A flag stays set**, in every run. -/
theorem step_stopped {q : ℕ} (hq : (s.sources q).stopped = true)
    (hs : StopToken.step s l = some t) : (t.sources q).stopped = true := by
  obtain ⟨o, -, rfl⟩ | ⟨i, x, k, -, -, hs⟩ | ⟨i, x, k, -, -, -, rfl⟩ := step_cases hs
  · exact hq
  · exact exec_stopped hq hs
  · exact unwind_stopped i (x :: k) hq

/-- What holds of the sources in every state. -/
structure Propagates (s : State) : Prop where
  /-- no source is stopped without reason… -/
  sound : ∀ q, (s.sources q).stopped = true → Demanded s q
  /-- …and none is missed -/
  complete : Quiet s → ∀ q, (s.sources q).stopped = true ↔ Demanded s q
  stays : ∀ as t, machine.exec s as = some t →
    ∀ q, (s.sources q).stopped = true → (t.sources q).stopped = true
  /-- no thread waits for itself, some thread can go on, and not for ever -/
  notOwn : NotOwn s
  enabled : Quiet s ∨ ∃ i t, StopToken.step s (.run i) = some t
  bounded : ∃ n, ∀ as t, machine.exec s as = some t → (∀ l ∈ as, ∃ i, l = .run i) → as.length ≤ n

/-- **Stops propagate along links.**  In every run in which threads stop and link sources, in any
order, but close no cycle: a source is only stopped if `request_stop` was called on it or on one
that it is linked to, directly or not; once all calls have returned, it is stopped exactly then; it
stays stopped; and the threads never block each other, and run out of things to do. -/
theorem stops_propagate (as : List Label) (s : State) (h : machine.Run Grows as s) :
    Propagates s := by
  obtain ⟨hsteady, hforest⟩ := forest_inductive.of_run h
  exact
    { sound := hforest.sound
      complete := fun hquiet q => ⟨hforest.sound q, hforest.stopped hsteady hquiet⟩
      stays := fun as t hexec q hq =>
        Machine.exec_preserves (M := machine) (I := fun s => (s.sources q).stopped = true)
          (fun _ _ _ hq hs => step_stopped hq hs) hq hexec
      notOwn := hforest.toOrdered.notOwn
      enabled := hforest.toOrdered.enabled
      bounded := hsteady.peace.bounded }

end

/-- A stop, or a link to a token of a source with a greater number. -/
def Op.falls : Op → Bool
  | .requestStop _ => true
  | .callback p caller [.requestStop c] [] => decide (caller = ⟨0, true, true⟩) && decide (c < p)
  | _ => false

/-- The threads stop and link sources, and links lead to greater numbers. -/
def Falls (_ : State) : Label → Prop
  | .call o => o.falls = true
  | .run _ => True
  | .panic _ => False

instance (s : State) : ∀ l, Decidable (Falls s l)
  | .call o => inferInstanceAs (Decidable (o.falls = true))
  | .run _ => isTrue trivial
  | .panic _ => isFalse id

theorem Falls.peaceful {s : State} {l : Label} (h : Falls s l) : Peaceful s l := by
  cases l with
  | panic i => exact h
  | _ => trivial

/-- A call in such a run. -/
theorem falls_cases {o : Op} (h : o.falls = true) :
    (∃ q, o = .requestStop q) ∨ ∃ p c, c < p ∧ o = link p c := by
  unfold Op.falls at h
  split at h
  next q => exact .inl ⟨q, rfl⟩
  next p caller c =>
    rw [Bool.and_eq_true, decide_eq_true_eq, decide_eq_true_eq] at h
    exact .inr ⟨p, c, h.2, by rw [h.1]; rfl⟩
  next => cases h

/-- Such links close no cycle. -/
theorem Falls.grows {as : List Label} {s : State} (h : machine.Run Falls as s) :
    machine.Run Grows as s := by
  refine h.mono_of_inductive
    (I := fun s => Steady s ∧ ∀ p c, Links s p c → c < p) ⟨⟨Steady.inductive.init, ?_⟩, ?_⟩ ?_
  · intro p c hl
    cases hl
  · intro s l t h hl hs
    refine ⟨h.1.step hl.peaceful hs, fun p c hlink => ?_⟩
    obtain ⟨o, rfl, rfl⟩ | ⟨i, x, k, -, -, hturn⟩ :=
      h.1.peace.calm.step_cases h.1.peace.inv hl.peaceful hs
    · obtain hold | hnew := List.mem_append.mp hlink
      · exact h.2 p c hold
      · obtain rfl := List.mem_singleton.mp hnew
        exact of_decide_eq_true hl
    · have hcalled := hturn.called
      unfold Links at hlink
      rw [hcalled] at hlink
      exact h.2 p c hlink
  · intro s l h hl
    have hle : ∀ {a b : ℕ}, ReflTransGen (Links s) a b → b ≤ a := fun hpath => by
      induction hpath with
      | refl => exact le_rfl
      | tail _ hlink ih => exact (h.2 _ _ hlink).le.trans ih
    cases l with
    | call o =>
        exact (falls_cases hl).imp_right fun ⟨p, c, hlt, ho⟩ =>
          ⟨p, c, fun hpath => absurd hlt (Nat.not_lt.mpr (hle hpath)), .inl ho⟩
    | run i => trivial
    | panic i => exact hl

/-- Source 1 is linked to 2 while 2 is being stopped, and source 0 to 1 while 1 is. -/
def cascade : List Label :=
  [.call (EnsureStartedSendTS.connect 2 1), .run 0, .run 0, .call (.requestStop 2), .run 1, .run 0,
    .run 1, .run 1, .run 1, .call (WhenAllFin.connect 1 0), .run 2, .run 2, .run 1, .run 1, .run 1,
    .run 2, .run 2, .run 2]

theorem cascade_stops :
    ∃ s, machine.Run Grows cascade s ∧ s.threads = [[], [], []] ∧
      s.log = [.stopRequested 2, .registered 2 0, .detached 2 0, .invoked 2 0, .stopRequested 1,
        .refused 1 1, .stopReturned 1, .stopReturned 2, .stopRequested 0, .stopReturned 0] ∧
      (s.sources 0).stopped = true ∧ (s.sources 3).stopped = false ∧ Propagates s := by
  obtain ⟨s, hs, hthreads, hlog, hzero, hthree⟩ : ∃ s, machine.exec fresh cascade = some s ∧
      s.threads = [[], [], []] ∧
      s.log = [.stopRequested 2, .registered 2 0, .detached 2 0, .invoked 2 0, .stopRequested 1,
        .refused 1 1, .stopReturned 1, .stopReturned 2, .stopRequested 0, .stopReturned 0] ∧
      (s.sources 0).stopped = true ∧ (s.sources 3).stopped = false :=
    ⟨_, rfl, rfl, rfl, rfl, rfl⟩
  have hrun : machine.Run Grows cascade s := Falls.grows (.of_exec (by decide +kernel) hs)
  exact ⟨s, hrun, hthreads, hlog, hzero, hthree, stops_propagate cascade s hrun⟩

end SendersReceivers.StopToken
