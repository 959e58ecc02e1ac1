import AegisDB.Mvcc.Lookup

/-! # One user key

The purpose of the three column families, told for one user key at a time: a key has
at most one lock, a write record per timestamp and a staged value per transaction.
Requests act on a key by the few actions below. -/

namespace AegisDB.Mvcc

open Foundation Storage Function

structure KeyState where
  lock : Option Lock
  record : UInt64 → Option Write
  value : UInt64 → Option Bytes

inductive KeyAction where
  | stage (lock : Lock) (value : Option Bytes)
  | commit (startTs commitTs : UInt64)
  | abandon (startTs : UInt64)
  | rollback (startTs : UInt64)
  | mark (startTs : UInt64)
  | keep

namespace KeyState

def empty : KeyState := { lock := none, record := fun _ => none, value := fun _ => none }

def HeldOnlyBy (state : KeyState) (startTs : UInt64) : Prop :=
  ∀ lock ∈ state.lock, lock.ts = startTs

def putRecord (state : KeyState) (ts : UInt64) (write : Write) : KeyState :=
  { state with record := update state.record ts (some write) }

def rolledBack (state : KeyState) (startTs : UInt64) : KeyState :=
  { lock := none
    record := update state.record startTs (some { startTs, kind := .rollback })
    value := update state.value startTs none }

def Enabled (state : KeyState) : KeyAction → Prop
  | .stage lock _ => state.HeldOnlyBy lock.ts ∧ lock.kind ≠ .rollback
  | .commit startTs _ => ∃ lock, state.lock = some lock ∧ lock.ts = startTs
  | .abandon startTs => ∃ lock, state.lock = some lock ∧ lock.ts = startTs
  | .rollback startTs => state.HeldOnlyBy startTs
  | .mark _ => state.lock = none
  | .keep => True

def apply (state : KeyState) : KeyAction → KeyState
  | .stage lock value =>
    { state with lock := some lock, value := update state.value lock.ts value }
  | .commit startTs commitTs =>
    match state.lock with
    | some lock =>
      { state.putRecord commitTs { startTs, kind := lock.kind } with lock := none }
    | none => state
  | .abandon startTs => state.rolledBack startTs
  | .rollback startTs => state.rolledBack startTs
  | .mark startTs => state.putRecord startTs { startTs, kind := .rollback }
  | .keep => state

@[simp] theorem lock_putRecord (state : KeyState) (ts : UInt64) (write : Write) :
    (state.putRecord ts write).lock = state.lock := rfl

@[simp] theorem value_putRecord (state : KeyState) (ts : UInt64) (write : Write) :
    (state.putRecord ts write).value = state.value := rfl

@[simp] theorem apply_abandon (state : KeyState) (startTs : UInt64) :
    state.apply (.abandon startTs) = state.rolledBack startTs := rfl

@[simp] theorem apply_rollback (state : KeyState) (startTs : UInt64) :
    state.apply (.rollback startTs) = state.rolledBack startTs := rfl

def Committed (state : KeyState) (startTs commitTs : UInt64) : Prop :=
  ∃ kind, kind ≠ WriteKind.rollback ∧ state.record commitTs = some { startTs, kind }

end KeyState

/-! ## The store as a family of keys -/

structure Represents (store : FlatStore) (states : Bytes → KeyState) : Prop where
  locks : ∀ key, (store .lock).get? key = (states key).lock.map Lock.toBytes
  records : ∀ key ts,
    (store .write).get? (encodeKey key ts) = ((states key).record ts).map Write.toBytes
  values : ∀ key ts, (store .default).get? (encodeKey key ts) = (states key).value ts
  versioned : Versioned (store .write)

theorem represents_empty : Represents FlatStore.empty fun _ => KeyState.empty where
  locks _ := rfl
  records _ _ := rfl
  values _ _ := rfl
  versioned := by
    intro entry member
    simp [FlatStore.empty, OrderedMap.empty] at member

end AegisDB.Mvcc
