import SendersReceivers.Chain.Receivers

/-!
# Chain/Sender — the chains, and `connect(..).start()` on them

A chain is a `TypedSender` built with `|` from `Just`, `JustError` or `JustDone`.  The functions of
`LetValue`, `LetError` and `LetDone` return chains: `sender` is the sender inside the `Ok` that `fn`
returns on the same arguments and memory, and is not looked at when `fn` returns an `Err`.
-/

namespace SendersReceivers

/-- Sender chains over pools `P`, values `V`, errors `E` and user state `U`. -/
inductive Chain (P V E U : Type) where
  | just (sch : Scheduler P) (values : List V)
  | justError (error : E)
  | justDone
  | then_ (nested : Chain P V E U) (fn : List V → UserFn V E U (List V))
  /-- `fn` gets the scheduler and the reference `s` of the stored tuple; `keep` tells whether that
  reference (or a part of it) outlives the sender -/
  | letValue (nested : Chain P V E U) (fn : Local P → ℕ → UserFn V E U Unit)
      (sender : Local P → ℕ → Mem V U → Chain P V E U) (keep : ℕ → Mem V U → Bool)
  | letError (nested : Chain P V E U) (fn : E → UserFn V E U Unit)
      (sender : E → Mem V U → Chain P V E U)
  | letDone (nested : Chain P V E U) (fn : UserFn V E U Unit)
      (sender : Mem V U → Chain P V E U)
  | uponError (nested : Chain P V E U) (sch : Scheduler P) (fn : E → UserFn V E U (List V))
  | uponDone (nested : Chain P V E U) (sch : Scheduler P) (fn : UserFn V E U (List V))
  | transfer (nested : Chain P V E U) (target_scheduler : Scheduler P)
  | stopIfRequested (nested : Chain P V E U)

namespace Chain

variable {P V E U : Type}

/-- `self.connect(scope, stop_token, receiver).start()`. -/
def start : Chain P V E U → ScopePtr P V E U → Bool → Receiver P V E U → Prog P V E U
  | just sch values, scope, _, receiver =>
      sch.start scope (JustReceiverWrapper receiver values)
  | justError error, _, _, receiver => receiver.setError error
  | justDone, _, _, receiver => receiver.setDone
  | then_ nested fn, scope, stop_token, receiver =>
      nested.start scope stop_token (ThenWrappedReceiver receiver fn)
  | letValue nested fn sender keep, scope, stop_token, receiver =>
      scope.clone <| nested.start scope stop_token <|
        LetValueReceiver receiver scope fn keep fun sch s m local_scope local_receiver =>
          (sender sch s m).start local_scope stop_token local_receiver
  | letError nested fn sender, scope, stop_token, receiver =>
      scope.clone <| nested.start scope stop_token <|
        LetErrorReceiverWrapper receiver scope fn fun error m =>
          (sender error m).start scope stop_token receiver
  | letDone nested fn sender, scope, stop_token, receiver =>
      scope.clone <| nested.start scope stop_token <|
        LetDoneReceiverWrapper receiver scope fn fun m =>
          (sender m).start scope stop_token receiver
  | uponError nested sch fn, scope, stop_token, receiver =>
      scope.clone <| nested.start scope stop_token <|
        UponErrorReceiverWrapper receiver scope fn sch
  | uponDone nested sch fn, scope, stop_token, receiver =>
      scope.clone <| nested.start scope stop_token <|
        UponDoneReceiverWrapper receiver scope fn sch
  | transfer nested target_scheduler, scope, stop_token, receiver =>
      scope.clone <| nested.start scope stop_token <|
        TransferReceiverWrapper receiver scope target_scheduler
  | stopIfRequested nested, scope, stop_token, receiver =>
      nested.start scope stop_token (StopIfRequestedReceiverWrapper stop_token receiver)

/-- Every scheduler the chain can come across, also in the senders its functions return, runs its
continuation inline. -/
def Inline : Chain P V E U → Prop
  | just sch _ => sch.Inline
  | justError _ => True
  | justDone => True
  | then_ nested _ => nested.Inline
  | letValue nested _ sender _ => nested.Inline ∧ ∀ sch s m, (sender sch s m).Inline
  | letError nested _ sender => nested.Inline ∧ ∀ error m, (sender error m).Inline
  | letDone nested _ sender => nested.Inline ∧ ∀ m, (sender m).Inline
  | uponError nested sch _ => nested.Inline ∧ sch.Inline
  | uponDone nested sch _ => nested.Inline ∧ sch.Inline
  | transfer nested target_scheduler => nested.Inline ∧ target_scheduler.Inline
  | stopIfRequested nested => nested.Inline

/-- **No `LetValue` function lets its reference outlive the sender it returns.** -/
def Releases : Chain P V E U → Prop
  | just _ _ => True
  | justError _ => True
  | justDone => True
  | then_ nested _ => nested.Releases
  | letValue nested _ sender keep =>
      nested.Releases ∧ (∀ sch s m, (sender sch s m).Releases) ∧ ∀ s m, keep s m = false
  | letError nested _ sender => nested.Releases ∧ ∀ error m, (sender error m).Releases
  | letDone nested _ sender => nested.Releases ∧ ∀ m, (sender m).Releases
  | uponError nested _ _ => nested.Releases
  | uponDone nested _ _ => nested.Releases
  | transfer nested _ => nested.Releases
  | stopIfRequested nested => nested.Releases

end Chain

end SendersReceivers
