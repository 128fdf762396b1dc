import SendersReceivers.Chain.Prog

/-!
# Chain/Receivers — the receivers a chain wraps around the one it is connected to

`connect` builds the wrappers from the outside in, and starting the innermost operation state calls
into them.  Every `set_value` begins with `Prog.enter`, the mark of the call; a wrapper that cloned
the scope at `connect` drops its clone when its method returns.
-/

namespace SendersReceivers

variable {P V E U : Type}

/-- `schedule().connect(scope, .., rcv)`, started: the inline schedulers call the receiver, a pool
gets a task owning the receiver wrapped by `scope.wrap_send`, which holds a clone of the scope until
the continuation has returned. -/
def Scheduler.start (sch : Scheduler P) (scope : ScopePtr P V E U) (rcv : Receiver P V E U) :
    Prog P V E U :=
  match sch with
  | .immediate => rcv.setValue .immediate []
  | .lazy sch => .lazily sch (rcv.setValue sch [])
  | .pool p => scope.clone (.spawn p ((rcv.setValue (.pool p) []).seq (scope.release .ret)) .ret)

/-- `just::ReceiverWrapper`; `transfer::ContinuingReceiverWrapper` is the same receiver. -/
def JustReceiverWrapper (receiver : Receiver P V E U) (values : List V) : Receiver P V E U where
  setValue sch _ := .enter sch (receiver.setValue sch values)
  setError := receiver.setError
  setDone := receiver.setDone
  drop := receiver.drop

/-- `then::ThenWrappedReceiver`. -/
def ThenWrappedReceiver (nested : Receiver P V E U) (fn : List V → UserFn V E U (List V)) :
    Receiver P V E U where
  setValue sch values := .enter sch <|
    .call (fun m => (fn values m).2) fun m =>
      match (fn values m).1 with
      | .ok v => nested.setValue sch v
      | .error e => nested.setError e
  setError := nested.setError
  setDone := nested.setDone
  drop := nested.drop

/-- `let_value::LocalReceiverWithValue`: its boxed tuple is the cell of scope `s`. -/
def LocalReceiverWithValue (s : ℕ) (rcv : Receiver P V E U) : Receiver P V E U where
  setValue sch value := .enter sch <| .call id fun m => rcv.setValue sch (m.cell s ++ value)
  setError := rcv.setError
  setDone := rcv.setDone
  drop := rcv.drop

/-- `scope::InnerScopeReceiver` and `InnerScopeSendReceiver`: store the signal, then drop the
handle. -/
def InnerScopeReceiver (inner_data : ScopePtr P V E U) : Receiver P V E U where
  setValue sch values :=
    .enter sch <| .store inner_data.id (.value sch values) (inner_data.release .ret)
  setError error := .store inner_data.id (.error error) (inner_data.release .ret)
  setDone := .store inner_data.id .done (inner_data.release .ret)
  drop := inner_data.release .ret

/-- The pointer `new_scope` returns: dropping the scope's data forwards the stored signal to `rcv`,
then drops the handle of the outer scope. -/
def innerScope (outer_state : ScopePtr P V E U) (s : ℕ) (rcv : Receiver P V E U) :
    ScopePtr P V E U where
  id := s
  drop shared_value := (forward rcv shared_value).seq (outer_state.release .ret)

/-- `let_value::LetValueReceiver`.  `start` starts the sender an `Ok` of `fn` carries; `keep` tells
whether the `ScopedRefMut` is still owned by someone when that start has returned. -/
def LetValueReceiver (nested : Receiver P V E U) (scope : ScopePtr P V E U)
    (fn : Local P → ℕ → UserFn V E U Unit) (keep : ℕ → Mem V U → Bool)
    (start : Local P → ℕ → Mem V U → ScopePtr P V E U → Receiver P V E U → Prog P V E U) :
    Receiver P V E U where
  setValue sch value := .enter sch <| scope.clone <| .newScope value fun s =>
    let local_scope := innerScope scope s (LocalReceiverWithValue s nested)
    .call (fun m => (fn sch s m).2) fun m => local_scope.lend <|
      (match (fn sch s m).1 with
        | .ok _ => start sch s m local_scope (InnerScopeReceiver local_scope)
        | .error e => (InnerScopeReceiver local_scope).setError e).seq <|
      .call id fun m =>
        if keep s m then local_scope.release (scope.release .ret)
        else local_scope.reclaim (local_scope.release (scope.release .ret))
  setError error := (nested.setError error).seq (scope.release .ret)
  setDone := nested.setDone.seq (scope.release .ret)
  drop := nested.drop.seq (scope.release .ret)

/-- `let_error::ReceiverWrapper`. -/
def LetErrorReceiverWrapper (receiver : Receiver P V E U) (scope : ScopePtr P V E U)
    (fn : E → UserFn V E U Unit) (start : E → Mem V U → Prog P V E U) : Receiver P V E U where
  setValue sch value := .enter sch <| (receiver.setValue sch value).seq (scope.release .ret)
  setError error :=
    .call (fun m => (fn error m).2) fun m =>
      (match (fn error m).1 with
        | .ok _ => start error m
        | .error e => receiver.setError e).seq (scope.release .ret)
  setDone := receiver.setDone.seq (scope.release .ret)
  drop := receiver.drop.seq (scope.release .ret)

/-- `let_done::ReceiverWrapper`. -/
def LetDoneReceiverWrapper (receiver : Receiver P V E U) (scope : ScopePtr P V E U)
    (fn : UserFn V E U Unit) (start : Mem V U → Prog P V E U) : Receiver P V E U where
  setValue sch value := .enter sch <| (receiver.setValue sch value).seq (scope.release .ret)
  setError error := (receiver.setError error).seq (scope.release .ret)
  setDone :=
    .call (fun m => (fn m).2) fun m =>
      (match (fn m).1 with
        | .ok _ => start m
        | .error e => receiver.setError e).seq (scope.release .ret)
  drop := receiver.drop.seq (scope.release .ret)

/-- `upon_error::ErrorReceiver` with the error it holds applied, and `upon_done::DoneReceiver`. -/
def UponReceiver (nested : Receiver P V E U) (fn : UserFn V E U (List V)) : Receiver P V E U where
  setValue sch _ := .enter sch <|
    .call (fun m => (fn m).2) fun m =>
      match (fn m).1 with
      | .ok v => nested.setValue sch v
      | .error e => nested.setError e
  setError := nested.setError
  setDone := nested.setDone
  drop := nested.drop

/-- `upon_error::ErrorReceiver`. -/
def ErrorReceiver (nested : Receiver P V E U) (error : E) (fn : E → UserFn V E U (List V)) :
    Receiver P V E U :=
  UponReceiver nested (fn error)

/-- `upon_done::DoneReceiver`. -/
def DoneReceiver (nested : Receiver P V E U) (fn : UserFn V E U (List V)) : Receiver P V E U :=
  UponReceiver nested fn

/-- `upon_error::ReceiverWrapper`. -/
def UponErrorReceiverWrapper (nested : Receiver P V E U) (scope : ScopePtr P V E U)
    (fn : E → UserFn V E U (List V)) (sch : Scheduler P) : Receiver P V E U where
  setValue sch v := .enter sch <| (nested.setValue sch v).seq (scope.release .ret)
  setError error := (sch.start scope (ErrorReceiver nested error fn)).seq (scope.release .ret)
  setDone := nested.setDone.seq (scope.release .ret)
  drop := nested.drop.seq (scope.release .ret)

/-- `upon_done::ReceiverWrapper`. -/
def UponDoneReceiverWrapper (nested : Receiver P V E U) (scope : ScopePtr P V E U)
    (fn : UserFn V E U (List V)) (sch : Scheduler P) : Receiver P V E U where
  setValue sch v := .enter sch <| (nested.setValue sch v).seq (scope.release .ret)
  setError error := (nested.setError error).seq (scope.release .ret)
  setDone := (sch.start scope (DoneReceiver nested fn)).seq (scope.release .ret)
  drop := nested.drop.seq (scope.release .ret)

/-- `transfer::ContinuingReceiverWrapper`. -/
def ContinuingReceiverWrapper (nested : Receiver P V E U) (values : List V) : Receiver P V E U :=
  JustReceiverWrapper nested values

/-- `transfer::ReceiverWrapper`. -/
def TransferReceiverWrapper (nested : Receiver P V E U) (scope : ScopePtr P V E U)
    (target_scheduler : Scheduler P) : Receiver P V E U where
  setValue sch values := .enter sch <|
    (target_scheduler.start scope (ContinuingReceiverWrapper nested values)).seq
      (scope.release .ret)
  setError error := (nested.setError error).seq (scope.release .ret)
  setDone := nested.setDone.seq (scope.release .ret)
  drop := nested.drop.seq (scope.release .ret)

/-- `stop_if_requested::ReceiverWrapper`; `stop_token` is `stop_token.stop_requested()`. -/
def StopIfRequestedReceiverWrapper (stop_token : Bool) (rcv : Receiver P V E U) :
    Receiver P V E U where
  setValue sch value := .enter sch <| if stop_token then rcv.setDone else rcv.setValue sch value
  setError := rcv.setError
  setDone := rcv.setDone
  drop := rcv.drop

/-- The receiver the chain is connected to: it reports the signal it gets, and owns no handle. -/
def recorder : Receiver P V E U where
  setValue sch values := .enter sch <| .emit (.value sch values) .ret
  setError error := .emit (.error error) .ret
  setDone := .emit .done .ret
  drop := .ret

end SendersReceivers
