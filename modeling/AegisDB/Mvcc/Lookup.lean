import AegisDB.Mvcc.Transaction

/-! # What the lookups see

Both lookups of write records walk an iterator over a whole column family. They
only ever see the versions of the key they look for, and over well-formed records
they have simple values. -/

namespace AegisDB.Mvcc

open Foundation Storage OrderedMap List

/-! ## Locks -/

def readLock : Option Bytes → Fallible (Option Lock)
  | some value => some <$> parseStoredLock value
  | none => .ok none

@[simp] theorem run_getLock (store : FlatStore) (key : Bytes) :
    (getLock key).run store = readLock ((store .lock).get? key) := by
  rw [getLock, Reading.run_bind, Reading.run_get]
  cases (store .lock).get? key with
  | none => rfl
  | some value =>
    change (Reading.bind (Reading.lift (parseStoredLock value)) _).run store = _
    rw [readLock]
    cases parseStoredLock value <;> rfl

/-! ## Records -/

@[simp] theorem run_currentWrite (store : FlatStore) (txn : MvccTxn) (key : Bytes) :
    (txn.currentWrite key).run store = currentWriteIn txn.startTs key (store .write) := by
  rw [MvccTxn.currentWrite, Reading.run_bind, Reading.run_iter]
  exact Reading.run_lift _

@[simp] theorem run_mostRecentWrite (store : FlatStore) (txn : MvccTxn) (key : Bytes) :
    (txn.mostRecentWrite key).run store = mostRecentWriteIn txn.startTs key (store .write) := by
  rw [MvccTxn.mostRecentWrite, Reading.run_bind, Reading.run_iter]
  exact Reading.run_lift _

def recordedValue (values : OrderedMap Bytes Bytes) (key : Bytes) (write : Write) :
    Option Bytes :=
  match write.kind with
  | .put => values.get? (encodeKey key write.startTs)
  | .delete => none
  | .rollback => none

theorem run_readCommitted (store : FlatStore) (txn : MvccTxn) (key : Bytes) :
    (txn.readCommitted key).run store =
      (fun found => found.1.bind (recordedValue (store .default) key)) <$>
        mostRecentWriteIn txn.startTs key (store .write) := by
  rw [MvccTxn.readCommitted, Reading.run_bind, run_mostRecentWrite]
  cases mostRecentWriteIn txn.startTs key (store .write) with
  | error fault => rfl
  | ok found =>
    rcases found with ⟨_ | ⟨startTs, kind⟩, commitTs⟩
    · rfl
    · cases kind <;> rfl

/-! ## The versions of one key -/

def IsVersionOf (key encodedKey : Bytes) : Prop := encodeBytes key <+: encodedKey

instance (key : Bytes) : DecidablePred (IsVersionOf key) :=
  fun encodedKey => inferInstanceAs (Decidable (encodeBytes key <+: encodedKey))

theorem isVersionOf_encodeKey (key : Bytes) (ts : UInt64) :
    IsVersionOf key (encodeKey key ts) :=
  ⟨_, rfl⟩

variable {key : Bytes}

theorem isVersionOf_encodeKey_iff {other : Bytes} {ts : UInt64} :
    IsVersionOf key (encodeKey other ts) ↔ other = key := by
  constructor
  · intro version
    have decoded := decodeUserKey_eq_ok_iff.mpr version
    rw [decodeUserKey_encodeKey] at decoded
    exact Except.ok.inj decoded
  · rintro rfl
    exact isVersionOf_encodeKey other ts

variable {encodedKey : Bytes}

theorem decodeUserKey_of_not_version (notVersion : ¬ IsVersionOf key encodedKey) :
    (∃ message, decodeUserKey encodedKey = .error (.error message)) ∨
      ∃ other, other ≠ key ∧ decodeUserKey encodedKey = .ok other := by
  cases outcome : decodeUserKey encodedKey with
  | error fault =>
    cases fault with
    | error message => exact .inl ⟨message, rfl⟩
    | panic message => exact absurd outcome (decodeUserKey_noPanic encodedKey message)
  | ok other =>
    refine .inr ⟨other, ?_, rfl⟩
    rintro rfl
    exact notVersion (decodeUserKey_eq_ok_iff.mp outcome)

theorem eq_filter_append_filter_not {α : Type} {keep : α → Prop} [DecidablePred keep]
    {list : List α} (ordered : list.Pairwise fun left right => keep right → keep left) :
    list = list.filter (fun element => keep element) ++
      list.filter (fun element => ¬ keep element) := by
  induction list with
  | nil => rfl
  | cons head rest induction =>
    have parts := pairwise_cons.mp ordered
    by_cases kept : keep head
    · have restSplit := induction parts.2
      simpa [kept] using restSplit
    · have none : ∀ element ∈ rest, ¬ keep element :=
        fun element member keeps => kept (parts.1 element member keeps)
      have filtered : rest.filter (fun element => keep element) = [] := by
        simpa using none
      have unfiltered : rest.filter (fun element => ¬ keep element) = rest := by
        simpa using none
      simp only [kept, filtered, filter_cons, decide_false, decide_true, not_false_eq_true,
        Bool.false_eq_true, if_false, if_true, nil_append, unfiltered]

theorem seek_eq_versions_append (iter : OrderedMap Bytes Bytes) {position : Bytes}
    (version : IsVersionOf key position) :
    ∃ beyond, iter.seek position = (iter.restrict (IsVersionOf key)).seek position ++ beyond ∧
      ∀ entry ∈ beyond, ¬ IsVersionOf key entry.1 := by
  have ordered : (iter.seek position).Pairwise fun left right =>
      IsVersionOf key right.1 → IsVersionOf key left.1 := by
    apply (iter.seek_ascending position).imp_of_mem
    intro left right leftMember _ less rightVersion
    exact isPrefix_of_between version rightVersion (mem_seek.mp leftMember).2 less.le
  refine ⟨(iter.seek position).filter fun entry => ¬ IsVersionOf key entry.1, ?_, ?_⟩
  · rw [seek_restrict]
    exact eq_filter_append_filter_not ordered
  · intro entry member
    simpa using (mem_filter.mp member).2

/-! ## `current_write` -/

theorem found_currentWriteIn_restrict (startTs : UInt64) (key : Bytes)
    (iter : OrderedMap Bytes Bytes) :
    found (currentWriteIn startTs key iter) =
      found (currentWriteIn startTs key (iter.restrict (IsVersionOf key))) := by
  rcases seek_eq_versions_append iter (isVersionOf_encodeKey key startTs) with
    ⟨beyond, split, notVersions⟩
  rw [currentWriteIn, split, currentWriteIn]
  cases (iter.restrict (IsVersionOf key)).seek (encodeKey key startTs) with
  | cons head rest => rfl
  | nil =>
    cases beyond with
    | nil => rfl
    | cons head rest =>
      rcases head with ⟨encodedKey, value⟩
      rw [nil_append]
      rcases decodeUserKey_of_not_version (notVersions _ mem_cons_self) with
        ⟨message, failed⟩ | ⟨other, different, decoded⟩
      · simp [failed, found, bind, Except.bind]
      · simp [decoded, different, found, bind, Except.bind, pure, Except.pure]

/-! ## `most_recent_write` -/

def Passed (key : Bytes) (entry : Bytes × Bytes) : Prop :=
  ¬ IsVersionOf key entry.1 ∨ ∃ message, decodeTimestamp entry.1 = .error (.error message)

variable {startTs : UInt64} {entries : List (Bytes × Bytes)}

theorem mostRecentWriteFrom_of_passed (passed : ∀ entry ∈ entries, Passed key entry) :
    mostRecentWriteFrom startTs key entries = .ok (none, 0) := by
  induction entries with
  | nil => rfl
  | cons head rest induction =>
    rcases head with ⟨encodedKey, value⟩
    have restPassed := induction fun entry member => passed entry (mem_cons_of_mem _ member)
    by_cases version : IsVersionOf key encodedKey
    · rcases passed _ mem_cons_self with notVersion | ⟨message, failed⟩
      · exact absurd version notVersion
      · simp [mostRecentWriteFrom, decodeUserKey_eq_ok_iff.mpr version, failed, restPassed]
    · rcases decodeUserKey_of_not_version version with
        ⟨message, failed⟩ | ⟨other, different, decoded⟩
      · simp [mostRecentWriteFrom, failed, restPassed]
      · simp [mostRecentWriteFrom, decoded, different]

theorem mostRecentWriteFrom_append_of_passed
    {beyond : List (Bytes × Bytes)} (passed : ∀ entry ∈ beyond, Passed key entry) :
    mostRecentWriteFrom startTs key (entries ++ beyond) =
      mostRecentWriteFrom startTs key entries := by
  fun_induction mostRecentWriteFrom startTs key entries <;>
    simp_all [mostRecentWriteFrom, mostRecentWriteFrom_of_passed]

theorem mostRecentWriteFrom_passed_append {rest : List (Bytes × Bytes)}
    (versions : ∀ entry ∈ entries, IsVersionOf key entry.1)
    (passed : ∀ entry ∈ entries, Passed key entry) :
    mostRecentWriteFrom startTs key (entries ++ rest) =
      mostRecentWriteFrom startTs key rest := by
  induction entries with
  | nil => rfl
  | cons head tail induction =>
    rcases head with ⟨encodedKey, value⟩
    have version := versions _ mem_cons_self
    rcases passed _ mem_cons_self with notVersion | ⟨message, failed⟩
    · exact absurd version notVersion
    · simp [mostRecentWriteFrom, decodeUserKey_eq_ok_iff.mpr version, failed,
        induction (fun entry member => versions entry (mem_cons_of_mem _ member))
          (fun entry member => passed entry (mem_cons_of_mem _ member))]

theorem length_lt_of_lt_zeros {tail : Bytes} {width : Nat}
    (below : tail < List.replicate width 0) : tail.length < width := by
  induction width generalizing tail with
  | zero => simp at below
  | succ width induction =>
    cases tail with
    | nil => simp
    | cons head rest =>
      rcases cons_lt_cons_iff.mp below with headBelow | ⟨_, restBelow⟩
      · exact absurd (UInt8.lt_iff_toNat_lt.mp headBelow) (by simp)
      · simpa using induction restBelow

theorem passed_of_version_lt {value : Bytes} (version : IsVersionOf key encodedKey)
    (below : encodedKey < encodeKey key maxTimestamp) : Passed key (encodedKey, value) := by
  rcases version with ⟨tail, rfl⟩
  have tailBelow : tail < List.replicate 8 0 := by
    rcases (encodeBytes_append_lt_iff key key tail _).mp below with less | ⟨_, less⟩
    · exact absurd less (lt_irrefl _)
    · exact less
  have short := length_lt_of_lt_zeros tailBelow
  have decodes : decodeBytes (encodeBytes key ++ tail) = .ok (key, (encodeBytes key).length) :=
    decodeBytes_eq_ok_iff.mpr ⟨by simp, rfl⟩
  refine .inr ⟨"insufficient bytes for timestamp", ?_⟩
  rw [decodeTimestamp, decodes]
  simp [bind, Except.bind, short, throw, throwThe, MonadExceptOf.throw]

theorem mostRecentWriteIn_eq (startTs : UInt64) (key : Bytes) (iter : OrderedMap Bytes Bytes) :
    mostRecentWriteIn startTs key iter =
      mostRecentWriteFrom startTs key (iter.restrict (IsVersionOf key)).entries := by
  have versions : ∀ entry ∈ (iter.restrict (IsVersionOf key)).entries,
      IsVersionOf key entry.1 := by
    intro entry member
    simpa using (mem_filter.mp member).2
  rcases seek_eq_versions_append iter (isVersionOf_encodeKey key maxTimestamp) with
    ⟨beyond, split, notVersions⟩
  rw [mostRecentWriteIn]
  split_ifs with nothingLeft
  · have keyItself : IsVersionOf key (encodeBytes key) := prefix_rfl
    rcases seek_eq_versions_append iter keyItself with ⟨beyondKey, splitKey, notVersionsKey⟩
    have all : (iter.restrict (IsVersionOf key)).seek (encodeBytes key) =
        (iter.restrict (IsVersionOf key)).entries := by
      rw [seek_eq_filter, filter_eq_self]
      intro entry member
      simpa using le_of_isPrefix (versions entry member)
    rw [splitKey, all]
    exact mostRecentWriteFrom_append_of_passed fun entry member =>
      .inl (notVersionsKey entry member)
  · have ordered : (iter.restrict (IsVersionOf key)).entries.Pairwise fun left right =>
        right.1 < encodeKey key maxTimestamp → left.1 < encodeKey key maxTimestamp :=
      (iter.restrict (IsVersionOf key)).ascending.imp fun less below => less.trans below
    have parts := eq_filter_append_filter_not ordered
    have later : (iter.restrict (IsVersionOf key)).entries.filter
          (fun entry => ¬ entry.1 < encodeKey key maxTimestamp) =
        (iter.restrict (IsVersionOf key)).seek (encodeKey key maxTimestamp) := by
      rw [seek_eq_filter]
      simp only [not_lt]
    have earlierPassed : ∀ entry ∈ (iter.restrict (IsVersionOf key)).entries.filter
        (fun entry => entry.1 < encodeKey key maxTimestamp),
        IsVersionOf key entry.1 ∧ Passed key entry := by
      intro entry member
      have version := versions entry (mem_of_mem_filter member)
      exact ⟨version, passed_of_version_lt version (by simpa using (mem_filter.mp member).2)⟩
    rw [split, mostRecentWriteFrom_append_of_passed fun entry member =>
      .inl (notVersions entry member), ← later]
    conv_rhs => rw [parts]
    rw [mostRecentWriteFrom_passed_append (fun entry member => (earlierPassed entry member).1)
      (fun entry member => (earlierPassed entry member).2)]

variable {write : Write}

theorem le_of_mostRecentWriteFrom {commitTs : UInt64}
    (stopped : mostRecentWriteFrom startTs key entries = .ok (some write, commitTs)) :
    commitTs ≤ startTs := by
  fun_induction mostRecentWriteFrom startTs key entries <;> simp_all

/-! ## Well-formed write records -/

def Versioned (iter : OrderedMap Bytes Bytes) : Prop :=
  ∀ entry ∈ iter.entries, ∃ key ts write,
    entry = (encodeKey key ts, Write.toBytes write)

@[simp] theorem parseStoredWrite_toBytes (write : Write) :
    parseStoredWrite write.toBytes = .ok (some write) := by
  rw [parseStoredWrite, Write.parse_toBytes]
  rfl

variable {iter : OrderedMap Bytes Bytes}

theorem found_currentWriteIn_of_some
    (present : iter.get? (encodeKey key startTs) = some write.toBytes) :
    found (currentWriteIn startTs key iter) = .ok (some (write, startTs)) := by
  have member := mem_seek.mpr ⟨get?_eq_some_iff.mp present, le_rfl⟩
  rw [currentWriteIn]
  cases shown : iter.seek (encodeKey key startTs) with
  | nil => simp [shown] at member
  | cons head rest =>
    have headAtLeast := (mem_seek.mp (by rw [shown]; exact mem_cons_self)).2
    have headIs : head = (encodeKey key startTs, write.toBytes) := by
      rw [shown] at member
      rcases mem_cons.mp member with same | later
      · exact same.symm
      · have ascending := iter.seek_ascending (encodeKey key startTs)
        rw [shown] at ascending
        exact absurd ((pairwise_cons.mp ascending).1 _ later) (not_lt.mpr headAtLeast)
    subst headIs
    simp [found, bind, Except.bind, pure, Except.pure]

theorem found_currentWriteIn_of_none (versioned : Versioned iter)
    (absent : iter.get? (encodeKey key startTs) = none) :
    found (currentWriteIn startTs key iter) = .ok none := by
  rw [currentWriteIn]
  cases shown : iter.seek (encodeKey key startTs) with
  | nil => rfl
  | cons head rest =>
    have member := (mem_seek.mp
      (shown ▸ mem_cons_self : head ∈ iter.seek (encodeKey key startTs))).1
    rcases versioned head member with ⟨otherKey, otherTs, write, rfl⟩
    by_cases sameKey : otherKey = key
    · have different : otherTs ≠ startTs := by
        rintro rfl
        rw [sameKey] at member
        exact get?_eq_none_iff.mp absent _ member
      simp [sameKey, different, found, bind, Except.bind, pure, Except.pure]
    · simp [sameKey, found, bind, Except.bind, pure, Except.pure]

theorem mostRecentWriteFrom_ok (startTs : UInt64) (key : Bytes)
    (versioned : ∀ entry ∈ entries, ∃ key ts write,
      entry = (encodeKey key ts, Write.toBytes write)) :
    ∃ result, mostRecentWriteFrom startTs key entries = .ok result := by
  induction entries with
  | nil => exact ⟨_, rfl⟩
  | cons head rest induction =>
    rcases induction fun entry member =>
      versioned entry (mem_cons_of_mem _ member) with ⟨restResult, restOk⟩
    rcases versioned head mem_cons_self with ⟨otherKey, ts, write, rfl⟩
    rw [mostRecentWriteFrom, decodeUserKey_encodeKey]
    simp only [decodeTimestamp_encodeKey, parseStoredWrite_toBytes]
    split
    · exact ⟨_, rfl⟩
    · split
      · exact ⟨_, rfl⟩
      · exact ⟨_, restOk⟩

theorem mostRecentWriteIn_ok (versioned : Versioned iter) (startTs : UInt64) (key : Bytes) :
    ∃ result, mostRecentWriteIn startTs key iter = .ok result := by
  rw [mostRecentWriteIn_eq]
  apply mostRecentWriteFrom_ok
  intro entry member
  exact versioned entry (mem_of_mem_filter member)

end AegisDB.Mvcc
