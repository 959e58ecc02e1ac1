import AegisDB.Storage.FlatStore
import AegisDB.Foundation.Fault

/-! # Computations over a storage reader

A request handler asks its `StorageReader` one question at a time and otherwise
only computes. Keeping the questions apart gives one text of each handler two
meanings: a run against a fixed store, and single steps that other handlers can
come between. An iterator shows the column family as it was when the iterator was
created, which is what RocksDB provides. -/

namespace AegisDB.Storage

open Foundation

inductive Reading (α : Type) where
  | done (value : α)
  | fail (fault : Fault)
  | getCf (cf : Cf) (key : Bytes) (next : Option Bytes → Reading α)
  | iterCf (cf : Cf) (next : OrderedMap Bytes Bytes → Reading α)

namespace Reading

def bind (reading : Reading α) (continuation : α → Reading β) : Reading β :=
  match reading with
  | .done value => continuation value
  | .fail fault => .fail fault
  | .getCf cf key next => .getCf cf key fun found => (next found).bind continuation
  | .iterCf cf next => .iterCf cf fun entries => (next entries).bind continuation

instance : Monad Reading where
  pure := .done
  bind := bind

def get (cf : Cf) (key : Bytes) : Reading (Option Bytes) := .getCf cf key .done

def iter (cf : Cf) : Reading (OrderedMap Bytes Bytes) := .iterCf cf .done

def lift : Fallible α → Reading α
  | .ok value => .done value
  | .error fault => .fail fault

def attempt : Reading α → Reading (Except String α)
  | .done value => .done (.ok value)
  | .fail (.error message) => .done (.error message)
  | .fail (.panic message) => .fail (.panic message)
  | .getCf cf key next => .getCf cf key fun found => (next found).attempt
  | .iterCf cf next => .iterCf cf fun entries => (next entries).attempt

def run (store : FlatStore) : Reading α → Fallible α
  | .done value => .ok value
  | .fail fault => .error fault
  | .getCf cf key next => (next ((store cf).get? key)).run store
  | .iterCf cf next => (next (store cf)).run store

variable {store : FlatStore}

@[simp] theorem run_pure (value : α) : (pure value : Reading α).run store = .ok value := rfl

@[simp] theorem run_get (cf : Cf) (key : Bytes) :
    (get cf key).run store = .ok ((store cf).get? key) := rfl

@[simp] theorem run_iter (cf : Cf) : (iter cf).run store = .ok (store cf) := rfl

@[simp] theorem run_lift (outcome : Fallible α) : (lift outcome).run store = outcome := by
  cases outcome <;> rfl

@[simp] theorem run_bind (reading : Reading α) (continuation : α → Reading β) :
    (reading >>= continuation).run store =
      (reading.run store >>= fun value => (continuation value).run store) := by
  change (reading.bind continuation).run store = _
  induction reading with
  | done value => rfl
  | fail fault => rfl
  | getCf cf key next induction => exact induction _
  | iterCf cf next induction => exact induction _

theorem bind_bind (reading : Reading α) (first : α → Reading β) (second : β → Reading γ) :
    reading >>= first >>= second = reading >>= fun value => first value >>= second := by
  change (reading.bind first).bind second = reading.bind fun value => (first value).bind second
  induction reading with
  | done value => rfl
  | fail fault => rfl
  | getCf cf key next induction => simp only [bind, induction]
  | iterCf cf next induction => simp only [bind, induction]

def attempted : Fallible α → Fallible (Except String α)
  | .ok value => .ok (.ok value)
  | .error (.error message) => .ok (.error message)
  | .error (.panic message) => .error (.panic message)

@[simp] theorem run_attempt (reading : Reading α) :
    reading.attempt.run store = attempted (reading.run store) := by
  induction reading with
  | done value => rfl
  | fail fault => cases fault <;> rfl
  | getCf cf key next induction => exact induction _
  | iterCf cf next induction => exact induction _

end Reading

end AegisDB.Storage
