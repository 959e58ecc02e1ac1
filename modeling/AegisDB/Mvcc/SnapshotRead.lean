import AegisDB.Foundation.Versions
import AegisDB.Mvcc.KeyState
import Mathlib.Data.Set.List

/-! # Reading a key as of a timestamp

What a reader at a timestamp is meant to see of a key, and that the walk of
`most_recent_write` over the encoded records arrives at it. -/

namespace AegisDB.Mvcc

open Foundation Storage Function

noncomputable def KeyState.readAt (state : KeyState) (version : UInt64) : Option Bytes :=
  match latest state.record version with
  | some (_, { startTs, kind := .put }) => state.value startTs
  | _ => none

variable {version : UInt64}

theorem KeyState.readAt_congr {left right : KeyState}
    (sameRecord : latest left.record version = latest right.record version)
    (sameValue : ∀ ts startTs, latest right.record version = some (ts, { startTs, kind := .put }) →
      left.value startTs = right.value startTs) :
    left.readAt version = right.readAt version := by
  rw [readAt, readAt, sameRecord]
  cases seen : latest right.record version with
  | none => rfl
  | some entry =>
    rcases entry with ⟨ts, startTs, kind⟩
    cases kind with
    | put => exact sameValue ts startTs seen
    | delete => rfl
    | rollback => rfl

variable {state : KeyState} {startTs : UInt64}

theorem KeyState.readAt_of_rollback {ts : UInt64}
    (seen : latest state.record version = some (ts, { startTs, kind := .rollback })) :
    state.readAt version = none := by
  rw [readAt, seen]

theorem KeyState.readAt_commit (state : KeyState) {commitTs : UInt64}
    (isLater : version < commitTs) :
    (state.apply (.commit startTs commitTs)).readAt version = state.readAt version := by
  cases locked : state.lock with
  | none => simp [KeyState.apply, locked]
  | some lock =>
    apply readAt_congr
    · simp only [KeyState.apply, locked, putRecord]
      exact latest_update_of_hidden (.inl isLater)
    · intro ts otherTs _
      simp [KeyState.apply, locked]

/-! ## Transactions that do not commit -/

def KeyAction.WithoutCommit (startTs : UInt64) : KeyAction → Prop
  | .stage lock _ => lock.ts = startTs
  | .commit _ _ => False
  | .abandon ts => ts = startTs
  | .rollback ts => ts = startTs
  | .mark ts => ts = startTs
  | .keep => True

namespace KeyState

structure Undecided (startTs : UInt64) (before later : KeyState) : Prop where
  lock : later.lock = before.lock ∨ before.HeldOnlyBy startTs ∧ later.HeldOnlyBy startTs
  record : later.record = before.record ∨
    later.record = update before.record startTs (some { startTs, kind := .rollback })
  value : ∀ ts, ts ≠ startTs → later.value ts = before.value ts

variable {startTs version : UInt64} {before later : KeyState}

theorem Undecided.refl (startTs : UInt64) (state : KeyState) : Undecided startTs state state :=
  ⟨.inl rfl, .inl rfl, fun _ _ => rfl⟩

variable (undecided : Undecided startTs before later)

include undecided

theorem Undecided.heldOnlyBy (held : later.HeldOnlyBy startTs) : before.HeldOnlyBy startTs := by
  rcases undecided.lock with same | ⟨both, _⟩
  · rwa [HeldOnlyBy, ← same]
  · exact both

theorem Undecided.record_rollback :
    update later.record startTs (some { startTs, kind := .rollback }) =
      update before.record startTs (some { startTs, kind := .rollback }) := by
  rcases undecided.record with same | updated
  · rw [same]
  · rw [updated, update_idem]

theorem Undecided.rolledBack
    (held : later.HeldOnlyBy startTs) : Undecided startTs before (later.rolledBack startTs) where
  lock := .inr ⟨undecided.heldOnlyBy held, by simp [HeldOnlyBy, KeyState.rolledBack]⟩
  record := .inr undecided.record_rollback
  value ts different := (update_of_ne different _ _).trans (undecided.value ts different)

theorem Undecided.apply {action : KeyAction}
    (enabled : later.Enabled action) (without : action.WithoutCommit startTs) :
    Undecided startTs before (later.apply action) := by
  cases action with
  | stage lock staged =>
    have own : lock.ts = startTs := without
    rw [← own] at undecided ⊢
    exact
      { lock := .inr ⟨undecided.heldOnlyBy enabled.1, by simp [HeldOnlyBy, KeyState.apply]⟩
        record := undecided.record
        value := fun ts different =>
          (update_of_ne different _ _).trans (undecided.value ts different) }
  | commit otherTs commitTs => cases without
  | abandon ts =>
    have own : ts = startTs := without
    subst own
    apply undecided.rolledBack
    rcases enabled with ⟨lock, isLocked, own⟩
    simpa [HeldOnlyBy, isLocked] using own
  | rollback ts =>
    have own : ts = startTs := without
    subst own
    exact undecided.rolledBack enabled
  | mark ts =>
    have own : ts = startTs := without
    subst own
    exact ⟨undecided.lock, .inr undecided.record_rollback, undecided.value⟩
  | keep => exact undecided

omit undecided

def ReadableAt (state : KeyState) (version : UInt64) : Prop :=
  ∀ lock ∈ state.lock, lock.ts = version ∧ lock.primary ≠ []

theorem Undecided.readableAt_iff (undecided : Undecided startTs before later)
    (readable : before.ReadableAt version) :
    later.ReadableAt version ↔
      ¬ ∃ lock ∈ later.lock, lock.ts = startTs ∧ (version ≠ startTs ∨ lock.primary = []) := by
  rcases undecided.lock with same | ⟨_, own⟩
  · rw [ReadableAt, same]
    constructor
    · intro _ left
      rcases left with ⟨lock, held, own, notReader | unnamed⟩
      · exact notReader ((readable lock held).1.symm.trans own)
      · exact (readable lock held).2 unnamed
    · intro _
      exact readable
  · constructor
    · intro readableLater left
      rcases left with ⟨lock, held, isOwn, notReader | unnamed⟩
      · exact notReader ((readableLater lock held).1.symm.trans isOwn)
      · exact (readableLater lock held).2 unnamed
    · intro noneLeft lock held
      have isOwn := own lock held
      constructor
      · by_contra notReader
        exact noneLeft ⟨lock, held, isOwn, .inl fun same => notReader (isOwn.trans same.symm)⟩
      · intro unnamed
        exact noneLeft ⟨lock, held, isOwn, .inr unnamed⟩

theorem Undecided.readAt_eq_iff (undecided : Undecided startTs before later)
    (uncommitted : ∀ commitTs, before.record commitTs ≠ some { startTs, kind := .put }) :
    later.readAt version = before.readAt version ↔
      ¬ (later.record startTs = some { startTs, kind := .rollback } ∧ startTs ≤ version ∧
        (∀ ts, startTs < ts → ts ≤ version → before.record ts = none) ∧
          before.readAt version ≠ none) := by
  have sameIf (sameLatest : latest later.record version = latest before.record version) :
      later.readAt version = before.readAt version := by
    apply readAt_congr sameLatest
    intro ts otherTs seen
    apply undecided.value
    intro own
    have present := (latest_eq_some_iff.mp seen).present
    rw [own] at present
    exact uncommitted ts present
  by_cases recorded : later.record startTs = some { startTs, kind := .rollback }
  · have updated : later.record =
        update before.record startTs (some { startTs, kind := .rollback }) := by
      rw [← undecided.record_rollback, ← recorded, update_eq_self]
    by_cases shown : startTs ≤ version ∧
        ∀ ts, startTs < ts → ts ≤ version → before.record ts = none
    · have seen : latest later.record version =
          some (startTs, { startTs, kind := .rollback }) := by
        rw [updated]
        exact latest_update_of_shown shown.1 shown.2
      rw [readAt_of_rollback seen]
      constructor
      · intro same hidden
        exact hidden.2.2.2 same.symm
      · intro notHidden
        by_contra different
        exact notHidden ⟨recorded, shown.1, shown.2, fun none => different none.symm⟩
    · have same : later.readAt version = before.readAt version := by
        apply sameIf
        rw [updated]
        apply latest_update_of_hidden
        by_contra notHidden
        have neither := not_or.mp notHidden
        refine shown ⟨not_lt.mp neither.1, ?_⟩
        intro ts newer readable
        by_contra present
        exact neither.2 ⟨ts, newer, readable, Option.isSome_iff_ne_none.mpr present⟩
      constructor
      · intro _ hidden
        exact shown ⟨hidden.2.1, hidden.2.2.1⟩
      · intro _
        exact same
  · have sameRecord : later.record = before.record := by
      rcases undecided.record with same | updated
      · exact same
      · exact absurd (by rw [updated, update_self]) recorded
    constructor
    · intro _ hidden
      exact recorded hidden.1
    · intro _
      exact sameIf (by rw [sameRecord])

end KeyState

/-! ## The records of a key as they are stored -/

def storedVersion (key : Bytes) (version : UInt64 × Write) : Bytes × Bytes :=
  (encodeKey key version.1, version.2.toBytes)

variable {iter : OrderedMap Bytes Bytes}

theorem exists_versions (versioned : Versioned iter) (key : Bytes) :
    ∃ versions : List (UInt64 × Write),
      (iter.restrict (IsVersionOf key)).entries = versions.map (storedVersion key) ∧
        versions.Pairwise fun newer older => older.1 < newer.1 := by
  have stored : (iter.restrict (IsVersionOf key)).entries ∈
      Set.range (List.map (storedVersion key)) := by
    rw [Set.range_list_map]
    intro entry member
    rcases List.mem_filter.mp member with ⟨present, isVersion⟩
    rcases versioned entry present with ⟨other, ts, write, rfl⟩
    rcases isVersionOf_encodeKey_iff.mp (by simpa using isVersion) with rfl
    exact ⟨(ts, write), rfl⟩
  rcases stored with ⟨versions, equal⟩
  refine ⟨versions, equal.symm, ?_⟩
  have ascending := (iter.restrict (IsVersionOf key)).ascending
  rw [← equal] at ascending
  refine (List.pairwise_map.mp ascending).imp ?_
  intro newer older less
  rcases (encodeKey_lt_iff key key newer.1 older.1).mp less with impossible | ⟨_, older⟩
  · exact absurd impossible (lt_irrefl key)
  · exact older

theorem mostRecentWriteFrom_versions (startTs : UInt64) (key : Bytes)
    (versions : List (UInt64 × Write)) :
    mostRecentWriteFrom startTs key (versions.map (storedVersion key)) =
      .ok (((versions.find? fun version => version.1 ≤ startTs).map Prod.snd),
        ((versions.find? fun version => version.1 ≤ startTs).map Prod.fst).getD 0) := by
  induction versions with
  | nil => rfl
  | cons version rest induction =>
    rcases version with ⟨ts, write⟩
    by_cases readable : ts ≤ startTs
    · simp [storedVersion, mostRecentWriteFrom, readable]
    · simp [storedVersion, mostRecentWriteFrom, readable, induction]

variable {key : Bytes}

theorem mostRecentWriteIn_eq_latest (versioned : Versioned iter) {record : UInt64 → Option Write}
    (records : ∀ ts, iter.get? (encodeKey key ts) = (record ts).map Write.toBytes)
    (startTs : UInt64) :
    mostRecentWriteIn startTs key iter =
      .ok ((latest record startTs).map Prod.snd,
        ((latest record startTs).map Prod.fst).getD 0) := by
  rcases exists_versions versioned key with ⟨versions, stored, newestFirst⟩
  have lists (ts : UInt64) (write : Write) :
      record ts = some write ↔ (ts, write) ∈ versions := by
    have present : record ts = some write ↔
        iter.get? (encodeKey key ts) = some write.toBytes := by
      rw [records ts, Option.map_eq_some_iff]
      constructor
      · intro recorded
        exact ⟨write, recorded, rfl⟩
      · intro found
        rcases found with ⟨other, recorded, same⟩
        rw [recorded, Write.toBytes_injective same]
    have listed : (encodeKey key ts, write.toBytes) ∈ (iter.restrict (IsVersionOf key)).entries ↔
        (ts, write) ∈ versions := by
      rw [stored, List.mem_map]
      constructor
      · intro found
        rcases found with ⟨version, member, same⟩
        rcases Prod.mk.inj same with ⟨sameKey, sameValue⟩
        have sameTs : version.1 = ts := (encodeKey_inj.mp sameKey).2
        have sameWrite : version.2 = write := Write.toBytes_injective sameValue
        rw [← sameTs, ← sameWrite]
        exact member
      · intro member
        exact ⟨(ts, write), member, rfl⟩
    rw [present, ← listed, ← OrderedMap.get?_eq_some_iff, OrderedMap.get?_restrict,
      if_pos (isVersionOf_encodeKey key ts)]
  rw [mostRecentWriteIn_eq, stored, mostRecentWriteFrom_versions,
    latest_eq_find? newestFirst lists]

theorem run_readCommitted_eq_readAt {store : FlatStore} (versioned : Versioned (store .write))
    (records : ∀ ts, (store .write).get? (encodeKey key ts) = (state.record ts).map Write.toBytes)
    (values : ∀ ts, (store .default).get? (encodeKey key ts) = state.value ts) (version : UInt64) :
    ((MvccTxn.new version).readCommitted key).run store = .ok (state.readAt version) := by
  rw [run_readCommitted, MvccTxn.startTs_new, mostRecentWriteIn_eq_latest versioned records,
    KeyState.readAt]
  cases latest state.record version with
  | none => rfl
  | some seen =>
    rcases seen with ⟨ts, startTs, kind⟩
    cases kind with
    | put => exact congrArg Except.ok (values startTs)
    | delete => rfl
    | rollback => rfl

end AegisDB.Mvcc
