import SendersReceivers.Chain.Calling
import SendersReceivers.Split.Delivery

/-!
# Split/SharedChain — a split of a chain that runs on pools

The operation that is started first starts the chain, under the guard of the operation state.  The
chain goes to the pools it is told to.  If it ends before that `start` has returned, it may call the
`CompletionReceiver` on the thread that holds the guard; otherwise the thread it has got to does.

    start o₁ ──▸ queue ──▸ takeOp ──▸ chain ──▸ pools ──▸ assign ──▸ invoke o₁ · invoke o₂
    start o₂ ──▸ queue ────────────────────────────────────┘
    start o₃ ──▸ check finds the completion

A thread that has called the `CompletionReceiver` may go on with the chain here before that call has
returned; the schedules in which it waits are among these, and a call that can not go on has
returned. -/

namespace SendersReceivers.Split

open Machinery

variable {Op P V E U : Type}

/-- The thread is inside of `opstate.start()`. -/
def inStart : List (Instr Op P V E) → Bool
  | .upstreamStart :: _ => true
  | _ => false

variable (Op) in
/-- The split, and who uses it.  The thread inside of `opstate.start()` is the one the chain was
started on. -/
def callee [DecidableEq Op] (send : Bool) :
    Threads.Callee P V E U (State Op P V E) (Label Op P V E) where
  machine := machine Op P V E send
  call l s sig :=
    match l, s.threads.findIdx? inStart with
    | .exec 0, some i => .signalInline i sig
    | _, _ => .signal sig
  own chain s
    | .run i => !inStart (codeAt s.threads i) || chain.idle 0
    | .start _ => true
    | .clone => true
    | .drop => true
    | .nested _ _ => true
    | .panic _ => false
    | .signal _ => false
    | .signalInline _ _ => false
    | .die => false
    | .dieInline _ => false
  free _ s _ := decide (s.upstream ≠ .idle)

/-- Receivers do not start further operations under the guard of the completion state. -/
def OwnUnguarded (s : Threads.State P V E U × State Op P V E) :
    Threads.Label ⊕ Label Op P V E → Prop
  | .inl _ => True
  | .inr l => Unguarded s.2 l

instance (s : Threads.State P V E U × State Op P V E) : DecidablePred (OwnUnguarded s)
  | .inl _ => .isTrue trivial
  | .inr l => inferInstanceAs (Decidable (Unguarded s.2 l))

/-! ## What an instruction leaves behind -/

variable {s t : State Op P V E} {i : ℕ} {ins : Instr Op P V E} {k : List (Instr Op P V E)}
  {send : Bool}

/-- **What an instruction that does not panic leaves behind**: whoever queues a receiver looks after
the chain. -/
structure Goes (s t : State Op P V E) (i : ℕ) (ins : Instr Op P V E)
    (k code : List (Instr Op P V E))
    (spawned : List (List (Instr Op P V E))) : Prop where
  threads : t.threads = s.threads.set i (code ++ k) ++ spawned
  receivers : t.receivers = [] ∨ .takeOp ∈ code ∨ t.receivers = s.receivers
  opstate : s.opstate = false ∨ ins = .takeOp → t.opstate = false
  start : .upstreamStart ∈ code ++ spawned.flatten → ins = .takeOp

/-- A thread that goes on, and touches none of these. -/
theorem goes_goto {t : State Op P V E} (code : List (Instr Op P V E))
    (spawned : List (List (Instr Op P V E)))
    (ht : t.threads = s.threads ∧ t.receivers = s.receivers ∧ t.opstate = s.opstate)
    (hins : ins ≠ .takeOp) (hstart : .upstreamStart ∉ code ++ spawned.flatten) :
    Goes s (t.goto i (code ++ k) spawned) i ins k code spawned where
  threads := by rw [goto_threads, ht.1]
  receivers := .inr (.inr ht.2.1)
  opstate h := ht.2.2.trans (h.resolve_right hins)
  start h := absurd h hstart

/-- The last handle takes the queue with it, and nothing else. -/
theorem release_frame : s.release.opstate = s.opstate ∧
    (s.release.receivers = [] ∨ s.release.receivers = s.receivers) := by
  unfold State.release
  split
  · exact ⟨rfl, .inl rfl⟩
  · exact ⟨rfl, .inr rfl⟩

theorem exec_goes (hs : exec send s i k ins = some t) (hpanics : t.panics = s.panics) :
    ∃ code spawned, Goes s t i ins k code spawned := by
  cases ins with
  | lockState =>
      simp only [exec] at hs
      split at hs
      · cases hs
        exact ⟨[], [], goes_goto [] [] ⟨rfl, rfl, rfl⟩ (by simp) (by simp)⟩
      · cases hs
      · cases hs
        simp [State.unwind] at hpanics
  | lockOp =>
      simp only [exec] at hs
      split at hs
      · cases hs
        exact ⟨[], [], goes_goto [] [] ⟨rfl, rfl, rfl⟩ (by simp) (by simp)⟩
      · cases hs
      · cases hs
        simp [State.unwind] at hpanics
  | check o =>
      simp only [exec] at hs
      split at hs
      · cases hs
        exact ⟨[.unlockState], _, goes_goto [_] [_] ⟨rfl, rfl, rfl⟩ (by simp) (by simp)⟩
      · next sig _ _ =>
          cases hs
          exact ⟨[.setSignal o sig, .unlockState], [],
            goes_goto [_, _] [] ⟨rfl, rfl, rfl⟩ (by simp) (by simp)⟩
      · cases hs
        refine ⟨.unlockState :: OpStateWrapper.ensureStarted, [], by simp [State.goto],
          .inr (.inl ?_), fun h => h.resolve_right (by simp), ?_⟩
        · simp [OpStateWrapper.ensureStarted]
        · simp [OpStateWrapper.ensureStarted]
  | takeOp =>
      simp only [exec] at hs
      split at hs
      · cases hs
        exact ⟨[.upstreamStart], [], by simp [State.goto], .inr (.inr rfl), fun _ => rfl,
          fun _ => rfl⟩
      · next ho =>
          cases hs
          exact ⟨[], [], by simp [State.goto], .inr (.inr rfl),
            fun _ => by simpa [State.goto] using ho, fun _ => rfl⟩
  | assign sig =>
      simp only [exec] at hs
      split at hs
      · cases hs
        exact ⟨.unlockState :: s.receivers.flatMap ReceiverWrapper.invoke, [], by simp [State.goto],
          .inl rfl, fun h => h.resolve_right (by simp), by simp [ReceiverWrapper.invoke]⟩
      · cases hs
        simp [State.unwind] at hpanics
  | invoke o =>
      simp only [exec] at hs
      split at hs
      · next sig _ =>
          cases hs
          exact ⟨[.setSignal o sig], [], goes_goto [_] [] ⟨rfl, rfl, rfl⟩ (by simp) (by simp)⟩
      · cases hs
        simp [State.unwind] at hpanics
  | setSignal o sig =>
      cases hs
      exact ⟨[.inside], [], goes_goto [_] [] ⟨rfl, rfl, rfl⟩ (by simp) (by simp)⟩
  | dropHandle =>
      cases hs
      obtain ⟨hopstate, hreceivers⟩ := release_frame (s := s)
      exact ⟨[], [], by simp [State.goto], hreceivers.imp_right .inr,
        fun h => hopstate.trans (h.resolve_right (by simp)), by simp⟩
  | unlockState | unlockOp | upstreamStart | inside =>
      cases hs
      exact ⟨[], [], goes_goto [] [] ⟨rfl, rfl, rfl⟩ (by simp) (by simp)⟩

/-! ## What the split has heard -/

/-- One for the instruction that starts the chain. -/
def takes : Instr Op P V E → ℕ
  | .takeOp => 1
  | _ => 0

variable [DecidableEq Op]

/-- **What the split has heard**, and that whoever is in the queue looks after the chain. -/
structure Heard (o : Option (Signal P V E)) (s : State Op P V E) : Prop where
  inv : Inv s
  unharmed : Unharmed s
  upstream : o.elim (s.upstream = .idle ∨ s.upstream = .running) fun sig =>
    s.upstream = .delivered sig
  roused : s.receivers ≠ [] → 0 < total takes s.threads ∨ s.opstate = false
  starting : .upstreamStart ∈ s.threads.flatten → s.opstate = false

theorem Heard.fresh : Heard none (Split.fresh : State Op P V E) where
  inv := Inv.fresh
  unharmed := ⟨rfl, rfl, rfl⟩
  upstream := .inl rfl
  roused := by simp [Split.fresh]
  starting := by simp [Split.fresh]

/-- What is written down has been heard. -/
theorem Heard.said {o : Option (Signal P V E)} {sig : Signal P V E} (h : Heard o s)
    (hsig : s.completion = some sig) : o = some sig := by
  have hdelivered := h.inv.counted.completed sig hsig
  have hupstream := h.upstream
  cases o with
  | none => simp [hdelivered] at hupstream
  | some sig' =>
      rw [Upstream.delivered.inj (hdelivered.symm.trans hupstream)]

/-- An instruction. -/
theorem Heard.run {o : Option (Signal P V E)} (h : Heard o s) (hi : s.threads[i]? = some (ins :: k))
    (hs : exec send s i k ins = some t) : Heard o t := by
  have hstep : step send s (.run i) = some t := by rw [step, hi]; exact hs
  have hinv : Inv t := h.inv.step (l := .run i) trivial hstep
  have hunharmed : Unharmed t := h.unharmed.exec h.inv hi hs
  have hpanics : t.panics = s.panics := by
    rw [(hinv.sound hunharmed).noPanic, (h.inv.sound h.unharmed).noPanic]
  obtain ⟨code, spawned, hgoes⟩ := exec_goes hs hpanics
  refine ⟨hinv, hunharmed, ?_, fun hqueue => ?_, fun hstart => ?_⟩
  · obtain ⟨-, hsame | ⟨hop, hrunning⟩⟩ := exec_frame hs
    · rw [hsame]
      exact h.upstream
    · have hidle : s.upstream = .idle := by
        rcases h.inv.counted.starts with ⟨-, -, hidle⟩ | ⟨hfalse, -, -⟩
        · exact hidle
        · simp [hop] at hfalse
      have hupstream := h.upstream
      cases o with
      | none => exact .inr hrunning
      | some sig => simp [hidle] at hupstream
  · by_cases htake : ins = .takeOp
    · exact .inr (hgoes.opstate (.inr htake))
    · have htotal := total_goto takes hi code spawned
      have hzero : takes ins = 0 := by cases ins <;> first | rfl | exact absurd rfl htake
      rw [← hgoes.threads, hzero] at htotal
      rcases hgoes.receivers with hnil | hcode | hsame
      · exact absurd hnil hqueue
      · obtain ⟨j, hj⟩ := List.mem_iff_getElem?.mp hcode
        have hle : 1 ≤ weight takes code := le_weight takes hj
        exact .inl (by omega)
      · rcases h.roused (hsame ▸ hqueue) with hpos | hop
        · exact .inl (by omega)
        · exact .inr (hgoes.opstate (.inl hop))
  · rw [hgoes.threads] at hstart
    rcases mem_goto hi hstart with hcode | hspawned | hold
    · exact hgoes.opstate (.inr (hgoes.start (List.mem_append_left _ hcode)))
    · exact hgoes.opstate (.inr (hgoes.start (List.mem_append_right _ hspawned)))
    · exact hgoes.opstate (.inl (h.starting hold))

/-! Code that is put in front of where a thread is. -/

omit [DecidableEq Op] in
theorem mem_inline {threads : List (List (Instr Op P V E))} (hi : threads[i]? = some (ins :: k))
    {code : List (Instr Op P V E)} {x : Instr Op P V E}
    (hx : x ∈ (threads.set i (code ++ ins :: k) ++ []).flatten) :
    x ∈ code ∨ x ∈ threads.flatten := by
  have hx' : x ∈ (threads.set i ((code ++ [ins]) ++ k) ++ []).flatten := by simpa using hx
  rcases mem_goto hi hx' with hcode | hnil | hold
  · obtain hcode | hins := List.mem_append.mp hcode
    · exact .inl hcode
    · rw [List.mem_singleton.mp hins]
      exact .inr (List.mem_flatten.mpr ⟨_, List.mem_of_getElem? hi, .head _⟩)
  · simp at hnil
  · exact .inr hold

omit [DecidableEq Op] in
theorem le_total_inline {threads : List (List (Instr Op P V E))} (w : Instr Op P V E → ℕ)
    (hi : threads[i]? = some (ins :: k)) (code : List (Instr Op P V E)) :
    total w threads ≤ total w (threads.set i (code ++ ins :: k) ++ []) := by
  have htotal := total_goto w hi (code ++ [ins]) []
  simp only [List.append_assoc, List.singleton_append, weight_append, weight_cons, weight_nil,
    total_nil] at htotal
  omega

/-- What users do by themselves: new threads, and more or less handles. -/
theorem Heard.use {o : Option (Signal P V E)} (h : Heard o s) {l : Label Op P V E}
    (hl : Calm s l) (hs : step send s l = some t) (hupstream : t.upstream = s.upstream)
    (hreceivers : t.receivers = [] ∨ t.receivers = s.receivers) (hopstate : t.opstate = s.opstate)
    (htakes : total takes s.threads ≤ total takes t.threads)
    (hstart : .upstreamStart ∈ t.threads.flatten → .upstreamStart ∈ s.threads.flatten) :
    Heard o t where
  inv := h.inv.step hl.1 hs
  unharmed := h.unharmed.step h.inv hl.2 hs
  upstream := hupstream ▸ h.upstream
  roused hqueue := by
    rcases hreceivers with hnil | hsame
    · exact absurd hnil hqueue
    · exact (h.roused (hsame ▸ hqueue)).imp (fun hpos => hpos.trans_le htakes) fun hop =>
        hopstate.trans hop
  starting hmem := hopstate.trans (h.starting (hstart hmem))

theorem Heard.own {o : Option (Signal P V E)} {chain : Threads.State P V E U} (h : Heard o s)
    {l : Label Op P V E} (hl : Unguarded s l) (hown : (callee Op send).own chain s l)
    (hs : step send s l = some t) : Heard o t := by
  cases l with
  | run i =>
      simp only [step] at hs
      split at hs
      · next hi => exact h.run hi hs
      · cases hs
  | start o' =>
      have hs' := hs
      simp only [step, Option.ite_none_right_eq_some, Option.some.injEq] at hs'
      obtain ⟨-, rfl⟩ := hs'
      exact h.use ⟨hl, trivial⟩ hs rfl (.inr rfl) rfl (by simp)
        fun hstart => by simpa [SplitOpState.start] using hstart
  | clone =>
      have hs' := hs
      simp only [step, Option.ite_none_right_eq_some, Option.some.injEq] at hs'
      obtain ⟨-, rfl⟩ := hs'
      exact h.use ⟨hl, trivial⟩ hs rfl (.inr rfl) rfl le_rfl id
  | drop =>
      have hs' := hs
      simp only [step, Option.ite_none_right_eq_some, Option.some.injEq] at hs'
      obtain ⟨-, rfl⟩ := hs'
      obtain ⟨hopstate, hreceivers⟩ := release_frame (s := s)
      exact h.use ⟨hl, trivial⟩ hs release_upstream hreceivers hopstate (by simp) (by simp)
  | nested i o' =>
      have hs' := hs
      simp only [step] at hs'
      split at hs'
      · next k hi =>
          simp only [Option.ite_none_right_eq_some, Option.some.injEq] at hs'
          obtain ⟨-, rfl⟩ := hs'
          refine h.use ⟨hl, trivial⟩ hs rfl (.inr rfl) rfl
            (le_total_inline takes hi (SplitOpState.start o')) fun hstart => ?_
          exact (mem_inline hi hstart).resolve_left (by simp [SplitOpState.start])
      · cases hs'
  | panic | signal | signalInline | die | dieInline => simp [callee] at hown

/-- A call starts nothing. -/
theorem unguarded_call (l : Threads.Label) (s : State Op P V E) (sig : Signal P V E) :
    Unguarded s ((callee Op (U := U) send).call l s sig) := by
  simp only [callee]
  split <;> trivial

/-- **The call of the chain.** -/
theorem Heard.call (h : Heard none s) {l : Threads.Label} {sig : Signal P V E}
    (hs : step send s ((callee Op (U := U) send).call l s sig) = some t) : Heard (some sig) t := by
  have hcalm : Calm s ((callee Op (U := U) send).call l s sig) := by
    simp only [callee]
    split <;> exact ⟨trivial, trivial⟩
  have hinv := h.inv.step hcalm.1 hs
  have hunharmed := h.unharmed.step h.inv hcalm.2 hs
  simp only [callee] at hs
  split at hs
  · next i _ =>
      simp only [step] at hs
      split at hs
      · next k hi =>
          simp only [Option.ite_none_right_eq_some, Option.some.injEq] at hs
          obtain ⟨-, rfl⟩ := hs
          refine ⟨hinv, hunharmed, rfl, fun hqueue => ?_, fun hstart => ?_⟩
          · exact (h.roused hqueue).imp_left fun hpos =>
              hpos.trans_le (le_total_inline takes hi (CompletionReceiver.complete sig))
          · refine h.starting ((mem_inline hi hstart).resolve_left ?_)
            simp [CompletionReceiver.complete]
      · cases hs
  · simp only [step, Option.ite_none_right_eq_some, Option.some.injEq] at hs
    obtain ⟨-, rfl⟩ := hs
    refine ⟨hinv, hunharmed, rfl, fun hqueue => ?_, fun hstart => ?_⟩
    · simpa [takes, CompletionReceiver.complete] using h.roused hqueue
    · exact h.starting (by simpa [CompletionReceiver.complete] using hstart)

omit [DecidableEq Op] in
theorem mem_of_inStart {threads : List (List (Instr Op P V E))} {i : ℕ}
    (h : inStart (codeAt threads i) = true) : .upstreamStart ∈ threads.flatten := by
  unfold inStart at h
  split at h
  · next k hcode =>
      exact List.mem_flatten.mpr ⟨_, List.mem_of_getElem? (getElem?_of_codeAt hcode), .head _⟩
  · cases h

/-- The call is answered once the chain has been started. -/
theorem call_ne_none {s : State Op P V E} (hrunning : s.upstream = .running) (l : Threads.Label)
    (sig : Signal P V E) : step send s ((callee Op (U := U) send).call l s sig) ≠ none := by
  simp only [callee]
  split
  · next i hfind =>
      obtain ⟨hi, hstart, -⟩ := List.findIdx?_eq_some_iff_getElem.mp hfind
      have hcode : s.threads[i]? = some s.threads[i] := List.getElem?_eq_getElem hi
      unfold inStart at hstart
      split at hstart
      · next k heq =>
          rw [heq] at hcode
          simp [step, hcode, hrunning]
      · cases hstart
  · simp [step, hrunning]

/-- Where every thread is done, and nobody has started the chain, nobody has started anything. -/
theorem Heard.started_eq_nil {s : State Op P V E} {o : Option (Signal P V E)} (h : Heard o s)
    (hquiet : Quiet send s) (hidle : s.upstream = .idle) : s.started = [] := by
  have hop : s.opstate = true := by
    rcases h.inv.counted.starts with ⟨hop, -, -⟩ | ⟨-, -, hne⟩
    · exact hop
    · exact absurd hidle hne
  have hreceivers : s.receivers = [] := by
    by_contra hne
    have hzero := hquiet.total_eq_zero h.inv.fitted takes
    rcases h.roused hne with hpos | hfalse
    · omega
    · simp [hop] at hfalse
  have hcompletion : s.completion = none := by
    have hassigned := h.inv.counted.assigned
    simp only [hidle, Upstream.calls, Nat.add_eq_zero_iff, List.length_eq_zero_iff] at hassigned
    simpa using hassigned.2
  have hcalls : s.calls = [] := by
    refine List.eq_nil_iff_forall_not_mem.mpr fun call hcall => ?_
    simpa [hcompletion] using h.inv.counted.called call hcall
  refine List.eq_nil_iff_forall_not_mem.mpr fun o ho => ?_
  simpa [hreceivers, hcalls, h.unharmed.destroyed] using h.inv.quiet_places hquiet ho

variable [DecidableEq P] {c : Threads.Child P V E U} {pools : List P}
  {s : Threads.State P V E U × State Op P V E}

theorem heard_inductive (c : Threads.Child P V E U) (pools : List P) (send : Bool) :
    (Threads.calling c false pools (callee Op send)).Inductive OwnUnguarded
      (Threads.Called c pools Heard) :=
  Threads.Called.inductive Heard.fresh (fun _ _ _ _ _ h hl hown hs => h.own hl hown hs)
    fun _ _ _ h hs => h.call hs

/-- What the split has heard is what the chain denotes. -/
theorem denotes_of_heard (h : Threads.Called c pools Heard s) {sig : Signal P V E}
    (hsig : s.2.completion = some sig) : sig = c.denote.signal := by
  obtain ⟨as, hrun⟩ := h.run
  have hsaid := h.callee.said hsig
  obtain ⟨-, hlog | hlog⟩ := Threads.Child.delivers hrun
  · simp [hlog] at hsaid
  · simpa [hlog, eq_comm] using hsaid

/-- **Where no thread can go on**, every call has returned; and the chain can not go on either,
unless nobody has started it. -/
theorem quiet_of_stuck (h : Threads.Called c pools Heard s)
    (hchain : ∀ l, Threads.callingStep (callee Op send) s (.inl l) = none)
    (hthreads : ∀ i, Threads.callingStep (callee Op (U := U) send) s (.inr (.run i)) = none) :
    Quiet send s.2 ∧ (s.2.started = [] ∨ ∀ l, Threads.step s.1 l = none) := by
  have hquiet : (∀ i, inStart (codeAt s.2.threads i) = true → s.1.idle 0 = true) →
      Quiet send s.2 := by
    intro hstart i
    have hi := hthreads i
    have hown : inStart (codeAt s.2.threads i) = false ∨ s.1.idle 0 = true := by
      simpa [or_iff_not_imp_left] using hstart i
    simpa [Threads.callingStep, callee, machine, hown] using hi
  by_cases hidle : s.2.upstream = .idle
  · have hstart : ∀ i, inStart (codeAt s.2.threads i) = false := by
      intro i
      by_contra hstart
      have hop := h.callee.starting (mem_of_inStart (by simpa using hstart))
      rcases h.callee.inv.counted.starts with ⟨htrue, -⟩ | ⟨-, -, hne⟩
      · simp [hop] at htrue
      · exact hne hidle
    have hquiet := hquiet fun i hi => by simp [hstart i] at hi
    exact ⟨hquiet, .inl (h.callee.started_eq_nil hquiet hidle)⟩
  · have hstuck : ∀ l, Threads.step s.1 l = none := by
      refine h.stuck (fun l => by simpa [callee] using hidle) (fun l hnone => ?_) hchain
      exact call_ne_none (hnone.upstream.resolve_left hidle) l _
    have hidle' : s.1.idle 0 = true := by
      by_contra hne
      exact Threads.exec_of_not_idle hne (hstuck _)
    exact ⟨hquiet fun _ _ => hidle', .inr hstuck⟩

/-- One for a step of the chain, and for one of a thread of the split. -/
def isThread : Threads.Label ⊕ Label Op P V E → ℕ
  | .inl _ => 1
  | .inr l => l.isRun

variable (Op) in
/-- **A split of a chain that runs on pools**, whenever its operations are started: nothing panics
and nothing locks what it has locked; a receiver gets nothing but what the chain denotes; the
threads take no more than a bounded number of steps; and where none can go on, every operation that
was started has got its one call and the chain has given back every handle, unless a task waits for
a pool that has no thread. -/
theorem shared_chain_delivers (c : Threads.Child P V E U) (stop_token : Bool) (pools : List P)
    (send : Bool) :
    ∃ bound, ∀ as s,
      (Threads.calling c stop_token pools (callee Op send)).Run OwnUnguarded as s →
      (as.map isThread).sum ≤ bound + 14 * s.2.started.length ∧
      (s.1.panics = [] ∧ Sound s.2 ∧ ∀ call ∈ s.2.calls, call.2 = c.denote.signal) ∧
      ((∀ l, Threads.callingStep (callee Op send) s (.inl l) = none) →
        (∀ i, Threads.callingStep (callee Op send) s (.inr (.run i)) = none) →
        s.2.started = [] ∨ (∃ task ∈ s.1.queue, task.1 ∉ pools) ∨
        Threads.Finished c.denote {0} s.1 ∧ ∀ o ∈ s.2.started,
          s.2.calls.filter (fun call => call.1 = o) = [(o, c.denote.signal)]) := by
  rw [Threads.calling_eq]
  obtain ⟨bound, hbound⟩ := Threads.bounded_runs c.chain false c.mem none (pools.map some)
  refine ⟨bound + 4, fun as s hrun => ?_⟩
  have h := (heard_inductive c pools send).of_run hrun
  obtain ⟨bs, hbs⟩ := h.run
  have hsound := h.callee.inv.sound h.callee.unharmed
  refine ⟨?_, ⟨(Threads.Child.delivers hbs).1, hsound, fun call hcall => ?_⟩,
    fun hchain hthreads => ?_⟩
  · obtain ⟨bs, cs, hbs, hcs, hle⟩ := Threads.parts_of_calling (D := Unguarded) (w := isThread)
      (v := Label.isRun) hrun (fun _ _ _ hl => ⟨hl, le_rfl⟩) unguarded_call fun _ => le_rfl
    have := hbound bs s.1 hbs
    have := run_le hcs
    omega
  · exact denotes_of_heard h (h.callee.inv.counted.called call hcall)
  · obtain ⟨hquiet, hnil | hstuck⟩ := quiet_of_stuck h hchain hthreads
    · exact .inl hnil
    · refine .inr ((Threads.Child.finished_of_stuck hbs hstuck).imp_right fun hfinished => ?_)
      have hupstream := h.callee.upstream
      rw [hfinished.log] at hupstream
      exact ⟨hfinished, (h.callee.inv.delivered h.callee.unharmed hquiet _ hupstream).2⟩

/-- The second operation waits for the guard under which the first one starts the chain. -/
def startBoth : List (Threads.Label ⊕ Label ℕ Bool ℕ Unit) :=
  [[.inr .clone, .inr (.start 0)], List.replicate 5 (.inr (.run 0)), [.inr (.start 1)],
    List.replicate 3 (.inr (.run 1)), (Threads.travel.take 7).map .inl,
    List.replicate 3 (.inr (.run 0)), (Threads.travel.drop 7).map .inl,
    List.replicate 4 (.inr (.run 1)), List.replicate 16 (.inr (.run 2))].flatten

theorem travelling_delivers_both :
    ∃ s, (Threads.calling Threads.traveller false [true, false] (callee ℕ true)).exec
        (Threads.calling Threads.traveller false [true, false] (callee ℕ true)).init startBoth =
        some s ∧
      s.2.started = [0, 1] ∧ ∀ o ∈ s.2.started,
        s.2.calls.filter (fun call => call.1 = o) = [(o, .value (.pool false) [6, 7])] := by
  obtain ⟨s, hexec, hstarted, hdone, hcode, hqueue, hlent⟩ : ∃ s,
      (Threads.calling Threads.traveller false [true, false] (callee ℕ true)).exec
        (Threads.calling Threads.traveller false [true, false] (callee ℕ true)).init startBoth =
        some s ∧
      s.2.started = [0, 1] ∧ (∀ code ∈ s.2.threads, code = []) ∧
      (∀ th ∈ s.1.threads, Threads.isRet th.code) ∧ s.1.queue.isEmpty ∧ s.1.lent.isEmpty :=
    Machine.exec_ends (by decide +kernel)
  rw [List.isEmpty_iff] at hqueue hlent
  have hnone :=
    Threads.step_eq_none (fun th hth => Threads.isRet_iff.mp (hcode th hth)) hqueue hlent
  obtain ⟨bound, hall⟩ := shared_chain_delivers ℕ Threads.traveller false [true, false] true
  obtain ⟨-, -, hends⟩ := hall startBoth s (.of_exec (by decide +kernel) hexec)
  obtain hnil | ⟨task, htask, -⟩ | ⟨-, hdelivered⟩ := hends
    (fun l => by simp [Threads.callingStep, hnone l])
    fun i => by
      have hi : step true s.2 (.run i) = none := quiet_of_done hdone i
      simp [Threads.callingStep, callee, machine, hi]
  · simp [hstarted] at hnil
  · simp [hqueue] at htask
  · exact ⟨s, hexec, hstarted, hdelivered⟩

end SendersReceivers.Split
