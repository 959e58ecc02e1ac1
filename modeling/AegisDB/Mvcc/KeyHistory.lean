import AegisDB.Mvcc.KeyState

/-! # Invariants of one user key

Stated for any sequence of enabled actions whose timestamps come from transactions
with distinct timestamps. What the actions do not ensure by themselves is a condition
on the action. -/

namespace AegisDB.Mvcc

open Foundation Storage Function

structure Timestamps where
  Start : UInt64 → Prop
  Commit : UInt64 → UInt64 → Prop
  ordered : ∀ {startTs commitTs}, Commit startTs commitTs → startTs < commitTs
  unique : ∀ {startTs commitTs otherStart otherCommit}, Commit startTs commitTs →
    Commit otherStart otherCommit → (startTs = otherStart ↔ commitTs = otherCommit)
  separate : ∀ {startTs commitTs}, Commit startTs commitTs → ¬ Start commitTs

def Timestamps.Stamps (timestamps : Timestamps) : KeyAction → Prop
  | .stage lock _ => timestamps.Start lock.ts
  | .commit startTs commitTs => timestamps.Commit startTs commitTs
  | .abandon startTs => timestamps.Start startTs
  | .rollback startTs => timestamps.Start startTs
  | .mark startTs => timestamps.Start startTs
  | .keep => True

namespace KeyState

/-! ## Where the records of a key come from -/

def added (state : KeyState) : KeyAction → Option (UInt64 × Write)
  | .stage _ _ => none
  | .commit startTs commitTs =>
    state.lock.map fun lock => (commitTs, { startTs, kind := lock.kind })
  | .abandon startTs => some (startTs, { startTs, kind := .rollback })
  | .rollback startTs => some (startTs, { startTs, kind := .rollback })
  | .mark startTs => some (startTs, { startTs, kind := .rollback })
  | .keep => none

variable {state : KeyState} {action : KeyAction}

theorem record_apply (state : KeyState) (action : KeyAction) :
    (state.apply action).record = match state.added action with
      | some (ts, write) => update state.record ts (some write)
      | none => state.record := by
  cases action with
  | commit startTs commitTs =>
    cases locked : state.lock with
    | none => simp [apply, added, locked]
    | some lock => simp [apply, added, locked, putRecord]
  | _ => rfl

def Stamped (timestamps : Timestamps) (state : KeyState) : Prop :=
  (∀ lock ∈ state.lock, lock.kind ≠ .rollback) ∧
    ∀ ts write, state.record ts = some write →
      (write.kind = .rollback ∧ ts = write.startTs ∧ timestamps.Start ts) ∨
        (write.kind ≠ .rollback ∧ timestamps.Commit write.startTs ts)

theorem stamped_empty (timestamps : Timestamps) : empty.Stamped timestamps :=
  ⟨by simp [empty], by simp [empty]⟩

variable {timestamps : Timestamps}

theorem Stamped.apply (stamped : state.Stamped timestamps)
    (enabled : state.Enabled action) (stamps : timestamps.Stamps action) :
    (state.apply action).Stamped timestamps := by
  rcases stamped with ⟨kinds, records⟩
  constructor
  · intro lock locked
    cases action with
    | stage new value =>
      cases locked
      exact enabled.2
    | commit startTs commitTs =>
      rcases enabled with ⟨held, isHeld, _⟩
      simp [KeyState.apply, isHeld] at locked
    | abandon startTs => cases locked
    | rollback startTs => cases locked
    | mark startTs => exact kinds lock locked
    | keep => exact kinds lock locked
  · intro ts write present
    rw [record_apply] at present
    cases new : state.added action with
    | none =>
      rw [new] at present
      exact records ts write present
    | some entry =>
      rcases entry with ⟨newTs, newWrite⟩
      rw [new] at present
      by_cases same : ts = newTs
      · subst same
        simp only [update_self, Option.some.injEq] at present
        subst present
        cases action with
        | stage _ _ => cases new
        | commit startTs commitTs =>
          rcases enabled with ⟨held, isHeld, _⟩
          simp only [added, isHeld, Option.map_some, Option.some.injEq, Prod.mk.injEq] at new
          rcases new with ⟨rfl, rfl⟩
          exact .inr ⟨kinds held isHeld, stamps⟩
        | abandon startTs =>
          cases new
          exact .inl ⟨rfl, rfl, stamps⟩
        | rollback startTs =>
          cases new
          exact .inl ⟨rfl, rfl, stamps⟩
        | mark startTs =>
          cases new
          exact .inl ⟨rfl, rfl, stamps⟩
        | keep => cases new
      · simp only [update_of_ne same] at present
        exact records ts write present

variable {startTs commitTs : UInt64}

theorem Stamped.commit (stamped : state.Stamped timestamps)
    (committed : state.Committed startTs commitTs) :
    timestamps.Commit startTs commitTs := by
  rcases committed with ⟨kind, notRollback, present⟩
  rcases stamped.2 commitTs _ present with ⟨isRollback, _⟩ | ⟨_, commit⟩
  · exact absurd isRollback notRollback
  · exact commit

theorem committed_apply_cases (committed : (state.apply action).Committed startTs commitTs) :
    state.Committed startTs commitTs ∨ action = .commit startTs commitTs := by
  rcases committed with ⟨kind, notRollback, present⟩
  rw [record_apply] at present
  cases new : state.added action with
  | none =>
    rw [new] at present
    exact .inl ⟨kind, notRollback, present⟩
  | some entry =>
    rcases entry with ⟨newTs, newWrite⟩
    rw [new] at present
    by_cases same : commitTs = newTs
    · subst same
      simp only [update_self, Option.some.injEq] at present
      subst present
      cases action with
      | stage _ _ => cases new
      | commit otherStart otherCommit =>
        cases locked : state.lock with
        | none => simp [added, locked] at new
        | some lock =>
          simp only [added, locked, Option.map_some, Option.some.injEq, Prod.mk.injEq,
            Write.mk.injEq] at new
          rcases new with ⟨rfl, rfl, _⟩
          exact .inr rfl
      | abandon _ =>
        cases new
        exact absurd rfl notRollback
      | rollback _ =>
        cases new
        exact absurd rfl notRollback
      | mark _ =>
        cases new
        exact absurd rfl notRollback
      | keep => cases new
    · simp only [update_of_ne same] at present
      exact .inl ⟨kind, notRollback, present⟩

theorem lock_apply_cases {lock : Lock} (enabled : state.Enabled action)
    (locked : (state.apply action).lock = some lock) :
    (state.lock = some lock ∧ action = .keep) ∨ ∃ value, action = .stage lock value := by
  cases action with
  | stage new value =>
    cases locked
    exact .inr ⟨value, rfl⟩
  | commit startTs commitTs =>
    rcases enabled with ⟨held, isHeld, _⟩
    simp [apply, isHeld] at locked
  | abandon startTs => cases locked
  | rollback startTs => cases locked
  | mark startTs =>
    have unlocked : state.lock = none := enabled
    exact absurd (unlocked.symm.trans locked) (by simp)
  | keep => exact .inl ⟨locked, rfl⟩

/-! ## Versions of a key do not overlap -/

def NotOverwritten (state : KeyState) : KeyAction → Prop
  | .stage lock _ => ∀ startTs commitTs, state.Committed startTs commitTs → startTs ≠ lock.ts →
      commitTs ≤ lock.ts
  | _ => True

structure Serial (state : KeyState) : Prop where
  locked : ∀ lock ∈ state.lock, ∀ startTs commitTs, state.Committed startTs commitTs →
    startTs ≠ lock.ts → commitTs < lock.ts
  disjoint : ∀ left leftCommit right rightCommit, state.Committed left leftCommit →
    state.Committed right rightCommit → left ≠ right → leftCommit < right ∨ rightCommit < left

theorem serial_empty : empty.Serial :=
  ⟨by simp [empty], by simp [Committed, empty]⟩

theorem Serial.apply (serial : state.Serial)
    (stamped : state.Stamped timestamps) (enabled : state.Enabled action)
    (stamps : timestamps.Stamps action) (notOverwritten : state.NotOverwritten action) :
    (state.apply action).Serial where
  locked lock isLocked startTs commitTs committed different := by
    rcases lock_apply_cases enabled isLocked with ⟨before, rfl⟩ | ⟨value, rfl⟩
    · exact serial.locked lock before startTs commitTs committed different
    · rcases committed_apply_cases committed with before | impossible
      · have atMost := notOverwritten startTs commitTs before different
        have notEqual : commitTs ≠ lock.ts := by
          rintro rfl
          exact timestamps.separate (stamped.commit before) stamps
        exact lt_of_le_of_ne atMost notEqual
      · cases impossible
  disjoint left leftCommit right rightCommit leftCommitted rightCommitted different := by
    -- whoever has just committed held the lock, so it started after the others
    have fresh {startTs commitTs other otherCommit : UInt64}
        (new : action = .commit startTs commitTs) (before : state.Committed other otherCommit)
        (notSame : other ≠ startTs) : otherCommit < startTs := by
      subst new
      rcases enabled with ⟨lock, isLocked, own⟩
      exact own ▸ serial.locked lock isLocked other otherCommit before (own ▸ notSame)
    rcases committed_apply_cases leftCommitted with leftBefore | leftNew <;>
      rcases committed_apply_cases rightCommitted with rightBefore | rightNew
    · exact serial.disjoint left leftCommit right rightCommit leftBefore rightBefore different
    · exact .inl (fresh rightNew leftBefore different)
    · exact .inr (fresh leftNew rightBefore different.symm)
    · cases leftNew.symm.trans rightNew
      exact absurd rfl different

/-! ## Committed versions stay -/

def NotRepeated (state : KeyState) : KeyAction → Prop
  | .stage lock _ => ∀ commitTs, ¬ state.Committed lock.ts commitTs
  | .rollback startTs => ∀ commitTs, state.record commitTs ≠ some { startTs, kind := .put }
  | _ => True

def Open (state : KeyState) : Prop :=
  ∀ lock ∈ state.lock, ∀ commitTs, ¬ state.Committed lock.ts commitTs

theorem open_empty : empty.Open := by
  intro lock locked
  cases locked

theorem Open.apply (open_ : state.Open) (enabled : state.Enabled action)
    (notRepeated : state.NotRepeated action) : (state.apply action).Open := by
  intro lock locked commitTs committed
  rcases lock_apply_cases enabled locked with ⟨before, rfl⟩ | ⟨value, rfl⟩
  · exact open_ lock before commitTs committed
  · rcases committed_apply_cases committed with before | impossible
    · exact notRepeated commitTs before
    · cases impossible

theorem record_apply_of_committed
    (stamped : state.Stamped timestamps) (open_ : state.Open) (enabled : state.Enabled action)
    (stamps : timestamps.Stamps action) (committed : state.Committed startTs commitTs) :
    (state.apply action).record commitTs = state.record commitTs := by
  have commit := stamped.commit committed
  rw [record_apply]
  have otherTs {newTs : UInt64} {write : Write} (new : state.added action = some (newTs, write)) :
      commitTs ≠ newTs := by
    rintro rfl
    cases action with
    | stage _ _ => cases new
    | commit otherStart otherCommit =>
      rcases enabled with ⟨lock, isLocked, rfl⟩
      simp only [added, isLocked, Option.map_some, Option.some.injEq, Prod.mk.injEq] at new
      rcases new with ⟨rfl, _⟩
      rcases (timestamps.unique commit stamps).mpr rfl with rfl
      exact open_ lock isLocked _ committed
    | abandon _ =>
      cases new
      exact timestamps.separate commit stamps
    | rollback _ =>
      cases new
      exact timestamps.separate commit stamps
    | mark _ =>
      cases new
      exact timestamps.separate commit stamps
    | keep => cases new
  cases new : state.added action with
  | none => rfl
  | some entry => exact update_of_ne (otherTs new) _ _

theorem value_apply_of_put (open_ : state.Open)
    (enabled : state.Enabled action) (notRepeated : state.NotRepeated action)
    (present : state.record commitTs = some { startTs, kind := .put }) :
    (state.apply action).value startTs = state.value startTs := by
  have committed : state.Committed startTs commitTs := ⟨.put, by simp, present⟩
  cases action with
  | stage lock value =>
    refine update_of_ne ?_ _ _
    rintro rfl
    exact notRepeated commitTs committed
  | commit otherStart otherCommit =>
    rcases enabled with ⟨lock, isLocked, _⟩
    simp [apply, isLocked]
  | abandon otherStart =>
    refine update_of_ne ?_ _ _
    rintro rfl
    rcases enabled with ⟨lock, isLocked, rfl⟩
    exact open_ lock isLocked commitTs committed
  | rollback otherStart =>
    refine update_of_ne ?_ _ _
    rintro rfl
    exact notRepeated commitTs present
  | mark _ => rfl
  | keep => rfl

/-! ## Decided transactions -/

def Decided (state : KeyState) (startTs : UInt64) : Prop :=
  ∃ ts write, state.record ts = some write ∧ write.startTs = startTs

theorem decided_apply_cases (enabled : state.Enabled action)
    (decided : (state.apply action).Decided startTs) :
    state.Decided startTs ∨ (state.apply action).lock = none := by
  cases action with
  | stage lock value => exact .inl decided
  | commit _ _ =>
    rcases enabled with ⟨lock, isLocked, _⟩
    exact .inr (by simp [apply, isLocked])
  | abandon _ => exact .inr rfl
  | rollback _ => exact .inr rfl
  | mark _ => exact .inr enabled
  | keep => exact .inl decided

end KeyState

end AegisDB.Mvcc
