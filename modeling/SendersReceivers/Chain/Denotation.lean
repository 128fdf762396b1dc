import SendersReceivers.Chain.Exec

/-!
# Chain/Denotation — the one signal a chain stands for

Direct style: no receivers, no scopes.  A stage looks at the signal of the stage before it and
either acts on it or passes it on; the memory of the user functions is threaded through, and `next`
names the cell the next `LetValue` stores its tuple in.
-/

namespace SendersReceivers

variable {P V E U : Type}

/-- A signal, with the memory the user functions leave behind. -/
structure Outcome (P V E U : Type) where
  signal : Signal P V E
  mem : Mem V U
  next : ℕ

namespace Outcome

/-- Act on a value signal only. -/
def onValue (o : Outcome P V E U) (f : Local P → List V → Mem V U → ℕ → Outcome P V E U) :
    Outcome P V E U :=
  match o.signal with
  | .value sch values => f sch values o.mem o.next
  | _ => o

/-- Act on an error signal only. -/
def onError (o : Outcome P V E U) (f : E → Mem V U → ℕ → Outcome P V E U) : Outcome P V E U :=
  match o.signal with
  | .error error => f error o.mem o.next
  | _ => o

/-- Act on a done signal only. -/
def onDone (o : Outcome P V E U) (f : Mem V U → ℕ → Outcome P V E U) : Outcome P V E U :=
  match o.signal with
  | .done => f o.mem o.next
  | _ => o

/-- A function that returns values: `Ok` is a value signal on `sch`, `Err` an error signal. -/
def ofResult (sch : Local P) (r : Except E (List V) × Mem V U) (n : ℕ) : Outcome P V E U :=
  match r.1 with
  | .ok v => ⟨.value sch v, r.2, n⟩
  | .error e => ⟨.error e, r.2, n⟩

/-- A function that returns a sender: on `Ok` the sender runs, `Err` is an error signal. -/
def ofSender (r : Except E Unit × Mem V U) (n : ℕ) (run : Mem V U → ℕ → Outcome P V E U) :
    Outcome P V E U :=
  match r.1 with
  | .ok _ => run r.2 n
  | .error e => ⟨.error e, r.2, n⟩

/-- `(*self.value, value).cat()`: the tuple stored in cell `s`, as it is now, before the values. -/
def withStored (o : Outcome P V E U) (s : ℕ) : Outcome P V E U :=
  o.onValue fun sch values m n => ⟨.value sch (m.cell s ++ values), m, n⟩

end Outcome

open Outcome in
/-- **The denotation of a chain** under a stop token that answers `stop_token`. -/
def Chain.denote : Chain P V E U → Bool → Mem V U → ℕ → Outcome P V E U
  | just sch values, _, m, n => ⟨.value sch.localScheduler values, m, n⟩
  | justError error, _, m, n => ⟨.error error, m, n⟩
  | justDone, _, m, n => ⟨.done, m, n⟩
  | then_ nested fn, stop_token, m, n =>
      (nested.denote stop_token m n).onValue fun sch values m n => ofResult sch (fn values m) n
  | letValue nested fn sender _, stop_token, m, n =>
      (nested.denote stop_token m n).onValue fun sch value m s =>
        (ofSender (fn sch s (m.setCell s value)) (s + 1) fun m' n' =>
          (sender sch s (m.setCell s value)).denote stop_token m' n').withStored s
  | letError nested fn sender, stop_token, m, n =>
      (nested.denote stop_token m n).onError fun error m n =>
        ofSender (fn error m) n fun m' n' => (sender error m).denote stop_token m' n'
  | letDone nested fn sender, stop_token, m, n =>
      (nested.denote stop_token m n).onDone fun m n =>
        ofSender (fn m) n fun m' n' => (sender m).denote stop_token m' n'
  | uponError nested sch fn, stop_token, m, n =>
      (nested.denote stop_token m n).onError fun error m n =>
        ofResult sch.localScheduler (fn error m) n
  | uponDone nested sch fn, stop_token, m, n =>
      (nested.denote stop_token m n).onDone fun m n => ofResult sch.localScheduler (fn m) n
  | transfer nested target_scheduler, stop_token, m, n =>
      (nested.denote stop_token m n).onValue fun _ values m n =>
        ⟨.value target_scheduler.localScheduler values, m, n⟩
  | stopIfRequested nested, stop_token, m, n =>
      (nested.denote stop_token m n).onValue fun sch values m n =>
        if stop_token then ⟨.done, m, n⟩ else ⟨.value sch values, m, n⟩

end SendersReceivers
