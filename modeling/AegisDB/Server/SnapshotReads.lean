import AegisDB.Mvcc.SnapshotRead
import AegisDB.Server.ReadApi
import AegisDB.Server.Refinement
import Mathlib.Data.List.Induction

/-! # Point reads

`get_value` and `kv_get` read a key as of a timestamp. -/

namespace AegisDB.Server

open Foundation Storage Mvcc Function OrderedMap Reading MvccTxn List

/-! ## What the read handlers return -/

def GetRequest.answer (req : GetRequest) (held : Option Lock) (value : Option Bytes) :
    GetResponse :=
  match held with
  | some lock =>
    if lock.ts ≠ req.version then .withKeyError (.ofLocked (lockInfo req.key lock))
    else .ok value
  | none => .ok value

theorem ok_ne_withKeyError {value : Option Bytes} {error : KeyError} :
    GetResponse.ok value ≠ .withKeyError error := by
  intro same
  cases congrArg GetResponse.error same

theorem GetResponse.ok_inj {left right : Option Bytes} :
    GetResponse.ok left = .ok right ↔ left = right := by
  constructor
  · intro same
    exact congrArg GetResponse.value same
  · intro same
    rw [same]

section Reads

variable {store : FlatStore} {key : Bytes} {state : KeyState}

variable {held : Option Lock}

theorem run_getValue {version : UInt64} (locked : lockOn store key = .ok held)
    (own : ∀ lock ∈ held, lock.ts = version) :
    ((MvccTxn.new version).getValue key).run store =
      ((MvccTxn.new version).readCommitted key).run store := by
  rw [getValue, run_bind, run_getLock]
  change (lockOn store key >>= _) = _
  rw [locked]
  cases held with
  | none => rfl
  | some lock =>
    change Reading.run store (if _ then _ else _) = _
    rw [if_neg (by simpa using own lock rfl)]

variable {req : GetRequest} {value : Option Bytes}

theorem run_getUnlocked
    (locked : lockOn store req.key = .ok held) (own : ∀ lock ∈ held, lock.ts = req.version)
    (read : ((MvccTxn.new req.version).readCommitted req.key).run store = .ok value) :
    (getUnlocked req).run store = .ok (.ok value) := by
  rw [getUnlocked, run_bind, run_attempt, run_getValue locked own, read]
  rfl

theorem run_kvGet (read : ((MvccTxn.new req.version).readCommitted req.key).run store = .ok value) :
    (kvGet req).run store = (fun held => req.answer held value) <$> lockOn store req.key := by
  rw [kvGet, run_bind, run_getLock]
  change (lockOn store req.key >>= _) = _
  cases locked : lockOn store req.key with
  | error fault => rfl
  | ok held =>
    cases held with
    | none => exact run_getUnlocked locked (by simp) read
    | some lock =>
      change Reading.run store (if _ then _ else _) = .ok (if _ then _ else _)
      by_cases same : lock.ts = req.version
      · rw [if_neg (by simpa using same), if_neg (by simpa using same)]
        exact run_getUnlocked locked (by simpa using same) read
      · rw [if_pos same, if_pos same]
        rfl

theorem Shows.run_readCommitted (shows_ : Shows store key state)
    (versioned : Versioned (store .write)) (version : UInt64) :
    ((MvccTxn.new version).readCommitted key).run store = .ok (state.readAt version) :=
  run_readCommitted_eq_readAt versioned shows_.record shows_.value version

theorem Shows.run_kvGet (shows_ : Shows store key state) (versioned : Versioned (store .write))
    (version : UInt64) :
    (kvGet { key, version }).run store =
      (fun held => GetRequest.answer { key, version } held (state.readAt version)) <$>
        lockOn store key :=
  Server.run_kvGet (shows_.run_readCommitted versioned version)

end Reads

/-! ## Stores that hold what was put -/

inductive PutCall where
  | putWrite (key : Bytes) (ts : UInt64) (write : Write)
  | putValue (startTs : UInt64) (key value : Bytes)
deriving DecidableEq, Repr

namespace PutCall

def writes : PutCall → List Modify
  | .putWrite key ts write => ((MvccTxn.new 0).putWrite key ts write).writes
  | .putValue startTs key value => ((MvccTxn.new startTs).putValue key value).writes

def key : PutCall → Bytes
  | .putWrite key _ _ => key
  | .putValue _ key _ => key

def change (state : KeyState) : PutCall → KeyState
  | .putWrite _ ts write => state.putRecord ts write
  | .putValue startTs _ value =>
    { state with value := update state.value startTs (some value) }

def apply (states : Bytes → KeyState) (call : PutCall) : Bytes → KeyState :=
  update states call.key (call.change (states call.key))

theorem about_writes (call : PutCall) : About call.key call.writes := by
  cases call with
  | putWrite key ts write =>
    intro modify member
    rcases mem_singleton.mp member with rfl
    exact .record ts
  | putValue startTs key value =>
    intro modify member
    rcases mem_singleton.mp member with rfl
    exact .value startTs

theorem cf_ne_lock_of_mem_writes {call : PutCall} {modify : Modify}
    (member : modify ∈ call.writes) : modify.cf ≠ .lock := by
  cases call with
  | putWrite key ts write =>
    rcases mem_singleton.mp member with rfl
    simp [Modify.cf]
  | putValue startTs key value =>
    rcases mem_singleton.mp member with rfl
    simp [Modify.cf]

variable {store : FlatStore} {key : Bytes}

theorem shows_writes {states : Bytes → KeyState}
    (call : PutCall) (shows_ : Shows store key (states key)) :
    Shows (store.write call.writes) key (call.apply states key) := by
  by_cases same : key = call.key
  · subst same
    rw [apply, update_self]
    cases call with
    | putWrite key ts write => exact shows_.putWrite ts write
    | putValue startTs key value =>
      exact shows_.setValue (.put (encodeKey key startTs) value .default) startTs rfl rfl
  · rw [apply, update_of_ne same]
    exact shows_.write_of_about call.about_writes same

theorem versioned_writes (versioned : Versioned (store .write))
    (call : PutCall) : Versioned (store.write call.writes .write) := by
  intro entry member
  have present := get?_eq_some_iff.mpr member
  rcases FlatStore.get?_write_cases store call.writes .write entry.1 with
    ⟨_, same⟩ | ⟨modify, modifyMember, touches, set⟩
  · exact versioned _ (get?_eq_some_iff.mp (same.symm.trans present))
  · cases call with
    | putWrite key ts write =>
      rcases mem_singleton.mp modifyMember with rfl
      have sameValue := Option.some.inj (set.symm.trans present)
      exact ⟨key, ts, write, Prod.ext touches.2.symm sameValue.symm⟩
    | putValue startTs key value =>
      rcases mem_singleton.mp modifyMember with rfl
      cases touches.1

theorem shows_of_calls (calls : List PutCall) (noRecords : store .write = OrderedMap.empty)
    (noValues : store .default = OrderedMap.empty) (unlocked : (store .lock).get? key = none) :
    Shows (store.write (calls.flatMap writes)) key
        (calls.foldl apply (fun _ => KeyState.empty) key) ∧
      Versioned (store.write (calls.flatMap writes) .write) := by
  induction calls using List.reverseRecOn with
  | nil =>
    refine ⟨⟨unlocked, fun ts => ?_, fun ts => ?_⟩, ?_⟩
    · rw [flatMap_nil, FlatStore.write_nil, noRecords]
      rfl
    · rw [flatMap_nil, FlatStore.write_nil, noValues]
      rfl
    · intro entry member
      rw [flatMap_nil, FlatStore.write_nil, noRecords] at member
      cases member
  | append_singleton past call induction =>
    rw [flatMap_append, FlatStore.write_append, flatMap_singleton, foldl_append]
    exact ⟨call.shows_writes induction.1, versioned_writes induction.2 call⟩

end PutCall

/-- On a store filled by `put_write` and `put_value`, `get_value` returns the value of the
latest version that is not newer than the reader, and nothing if that is no `Put`. -/
theorem getValue_exact (store : FlatStore) (calls : List PutCall) (key : Bytes) (version : UInt64)
    (noRecords : store .write = OrderedMap.empty) (noValues : store .default = OrderedMap.empty)
    (unlocked : (store .lock).get? key = none) :
    ((MvccTxn.new version).getValue key).run (store.write (calls.flatMap PutCall.writes)) =
      .ok ((calls.foldl PutCall.apply (fun _ => KeyState.empty) key).readAt version) := by
  rcases PutCall.shows_of_calls calls noRecords noValues unlocked with ⟨shows_, versioned⟩
  have stillUnlocked : (store.write (calls.flatMap PutCall.writes) .lock).get? key = none := by
    rw [← unlocked]
    apply FlatStore.get?_write_of_untouched
    intro modify member touches
    rcases mem_flatMap.mp member with ⟨call, _, member⟩
    exact PutCall.cf_ne_lock_of_mem_writes member touches.1
  have noLock : lockOn (store.write (calls.flatMap PutCall.writes)) key = .ok none := by
    rw [lockOn, stillUnlocked]
    rfl
  rw [run_getValue noLock (by simp), shows_.run_readCommitted versioned]

theorem getValue_between_versions :
    ((MvccTxn.new 4).getValue [1]).run (FlatStore.empty.write ([.putValue 1 [1] [7],
        .putWrite [1] 2 { startTs := 1, kind := .put },
        .putWrite [1] 5 { startTs := 3, kind := .delete }].flatMap PutCall.writes)) =
      .ok (([.putValue 1 [1] [7], .putWrite [1] 2 { startTs := 1, kind := .put },
        .putWrite [1] 5 { startTs := 3, kind := .delete }].foldl PutCall.apply
          (fun _ => KeyState.empty) [1]).readAt 4) :=
  getValue_exact _ _ _ _ rfl rfl rfl

end AegisDB.Server
