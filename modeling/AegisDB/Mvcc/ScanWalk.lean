import AegisDB.Foundation.GroupedScan
import AegisDB.Mvcc.Lookup
import AegisDB.Mvcc.Scanner

/-! # What a scan shows

The scanner is a pass over the write records in groups of one user key each. What it shows of
a key is decided by the records of that key alone, as for a point read. -/

namespace AegisDB.Mvcc

open Foundation Storage Reading List

def entryKey (entry : Bytes × Bytes) : Option Bytes := (decodeUserKey entry.1).toOption

def judgeEntry (values : OrderedMap Bytes Bytes) (startTs : UInt64) (key : Bytes)
    (entry : Bytes × Bytes) : Judgement (Fallible Bytes) :=
  match Scanner.visibleWrite startTs entry.1 entry.2 with
  | .error fault => .reveal (.error fault)
  | .ok none => .pass
  | .ok (some write) =>
    match write.kind with
    | .put =>
      match values.get? (encodeKey key write.startTs) with
      | some value => .reveal (.ok value)
      | none => .pass
    | .delete => .hide
    | .rollback => .hide

def scanned (store : FlatStore) (startTs : UInt64) :
    Option Bytes → List (Bytes × Bytes) → List (Bytes × Fallible Bytes) :=
  scanGroups entryKey (judgeEntry (store .default) startTs)

def scannedValue (store : FlatStore) (startTs : UInt64) (key : Bytes) :
    Option (Fallible Bytes) :=
  settleGroup entryKey (judgeEntry (store .default) startTs) key (store .write).entries

section Walk

variable {store : FlatStore} {startTs : UInt64} {key : Bytes}

variable {entry : Bytes × Bytes}

theorem entryKey_eq_some_iff :
    entryKey entry = some key ↔ IsVersionOf key entry.1 := by
  rw [entryKey, IsVersionOf, ← decodeUserKey_eq_ok_iff]
  cases decodeUserKey entry.1 with
  | error fault => simp [Except.toOption]
  | ok userKey => simp [Except.toOption]

/-! ## The loop of the scanner -/

def Scanner.follow (store : FlatStore) (scanner : Scanner) (current : Option Bytes) (key : Bytes)
    (entry : Bytes × Bytes) (rest : List (Bytes × Bytes)) :
    Judgement (Fallible Bytes) → Fallible (Option (Bytes × Bytes) × Scanner)
  | .pass => (scanner.nextFrom current rest).run store
  | .hide => (scanner.nextFrom (some key) rest).run store
  | .reveal outcome =>
    (fun value => (some (key, value), { scanner with
      count := scanner.count + 1
      currentKey := some key
      writeIter := entry :: rest })) <$> outcome

variable {rest : List (Bytes × Bytes)}

theorem run_nextFrom_cons {scanner : Scanner} {current : Option Bytes}
    (decoded : decodeUserKey entry.1 = .ok key) (inRange : scanner.pastEnd key = false)
    (notCurrent : current ≠ some key) :
    (scanner.nextFrom current (entry :: rest)).run store =
      scanner.follow store current key entry rest
        (judgeEntry (store .default) scanner.txn.startTs key entry) := by
  rw [Scanner.nextFrom, decoded]
  dsimp only
  rw [inRange, if_neg (by simp), if_neg notCurrent, run_bind, run_lift, judgeEntry]
  cases Scanner.visibleWrite scanner.txn.startTs entry.1 entry.2 with
  | error fault => rfl
  | ok write? =>
    cases write? with
    | none => rfl
    | some write =>
      rcases write with ⟨writeTs, kind⟩
      cases kind with
      | put =>
        change Reading.run store (Reading.get .default _ >>= _) = _
        rw [run_bind, run_get]
        dsimp only
        cases (store .default).get? (encodeKey key writeTs) with
        | none => rfl
        | some value => rfl
      | delete => rfl
      | rollback => rfl

inductive NextEnds (store : FlatStore) (scanner : Scanner) (shown : List (Bytes × Fallible Bytes)) :
    Fallible (Option (Bytes × Bytes) × Scanner) → Prop
  | exhausted {after : Scanner} (nothing : shown = []) :
      NextEnds store scanner shown (.ok (none, after))
  | failed {key : Bytes} {fault : Fault} {more : List (Bytes × Fallible Bytes)}
      (shows_ : shown = (key, .error fault) :: more) :
      NextEnds store scanner shown (.error fault)
  | returned {key value : Bytes} {rest : List (Bytes × Bytes)}
      (shows_ : shown = (key, .ok value) :: scanned store scanner.txn.startTs (some key) rest) :
      NextEnds store scanner shown (.ok (some (key, value), { scanner with
        count := scanner.count + 1
        currentKey := some key
        writeIter := rest }))

theorem nextFrom_ends (scanner : Scanner) (unbounded : scanner.endKey = none)
    (current : Option Bytes) (entries : List (Bytes × Bytes)) :
    NextEnds store scanner (scanned store scanner.txn.startTs current entries)
      ((scanner.nextFrom current entries).run store) := by
  induction entries generalizing current with
  | nil => exact .exhausted rfl
  | cons entry rest induction =>
    cases decoded : decodeUserKey entry.1 with
    | error fault =>
      cases fault with
      | panic message => exact absurd decoded (decodeUserKey_noPanic entry.1 message)
      | error message =>
        have noKey : entryKey entry = none := by
          simp [entryKey, decoded, Except.toOption]
        rw [scanned, scanGroups_of_none noKey, Scanner.nextFrom, decoded]
        exact induction current
    | ok key =>
      have ofKey : entryKey entry = some key := by
        simp [entryKey, decoded, Except.toOption]
      have inRange : scanner.pastEnd key = false := by
        simp [Scanner.pastEnd, unbounded]
      by_cases isCurrent : current = some key
      · rw [isCurrent, scanned, scanGroups_of_current ofKey, Scanner.nextFrom, decoded]
        dsimp only
        rw [inRange, if_neg (by simp), if_pos rfl]
        exact induction (some key)
      · rw [run_nextFrom_cons decoded inRange isCurrent, scanned]
        cases judged : judgeEntry (store .default) scanner.txn.startTs key entry with
        | pass =>
          rw [scanGroups_of_pass ofKey isCurrent judged]
          exact induction current
        | hide =>
          rw [scanGroups_of_hide ofKey isCurrent judged]
          exact induction (some key)
        | reveal outcome =>
          rw [scanGroups_of_reveal ofKey isCurrent judged]
          cases outcome with
          | error fault => exact .failed rfl
          | ok value =>
            rw [← scanGroups_of_current ofKey]
            exact .returned rfl

/-! ## The keys of a scan -/

variable {entries : List (Bytes × Bytes)}

theorem grouped_of_ascending (ascending : Ascending entries) :
    Grouped entryKey entries := by
  refine ascending.imp ?_
  intro left right less key ofLeft later ofRight
  rcases entryKey_eq_some_iff.mp ofLeft with ⟨leftRest, leftIs⟩
  rcases entryKey_eq_some_iff.mp ofRight with ⟨rightRest, rightIs⟩
  rw [← leftIs, ← rightIs] at less
  rcases (encodeBytes_append_lt_iff _ _ _ _).mp less with smaller | ⟨same, _⟩
  · exact smaller.le
  · exact same.le

theorem judgeEntry_of_passed {values : OrderedMap Bytes Bytes}
    {message : String} (untimed : decodeTimestamp entry.1 = .error (.error message)) :
    judgeEntry values startTs key entry = .pass := by
  simp [judgeEntry, Scanner.visibleWrite, untimed]

theorem mem_scanned_iff {startKey : Bytes} {value : Fallible Bytes} :
    (key, value) ∈ scanned store startTs none
        ((store .write).seek (encodeKey startKey maxTimestamp)) ↔
      startKey ≤ key ∧ scannedValue store startTs key = some value := by
  have ascending := (store .write).seek_ascending (encodeKey startKey maxTimestamp)
  have before {entry : Bytes × Bytes} (version : IsVersionOf key entry.1) :
      entry.1 < encodeKey startKey maxTimestamp ↔
        key < startKey ∨ key = startKey ∧ entry.1 < encodeKey key maxTimestamp := by
    rcases version with ⟨rest, isEntry⟩
    rw [← isEntry, encodeKey, encodeBytes_append_lt_iff, encodeKey, encodeBytes_append_lt_iff]
    simp
  rw [scanned, mem_scanGroups_iff (grouped_of_ascending ascending) (by simp [Beyond])]
  rw [OrderedMap.seek_eq_filter, scannedValue]
  by_cases inRange : startKey ≤ key
  · rw [settleGroup_filter]
    · simp [inRange]
    · intro entry _ dropped ofKey
      have version := entryKey_eq_some_iff.mp ofKey
      have less : entry.1 < encodeKey startKey maxTimestamp := by simpa using dropped
      rcases (before version).mp less with smaller | ⟨_, early⟩
      · exact absurd smaller (not_lt.mpr inRange)
      · rcases passed_of_version_lt version early with notVersion | ⟨message, untimed⟩
        · exact absurd version notVersion
        · exact judgeEntry_of_passed untimed
  · rw [settleGroup_of_absent]
    · simp [inRange]
    · intro entry member ofKey
      have version := entryKey_eq_some_iff.mp ofKey
      have notLess : encodeKey startKey maxTimestamp ≤ entry.1 := by
        simpa using (mem_filter.mp member).2
      exact absurd ((before version).mpr (.inl (not_le.mp inRange))) (not_lt.mpr notLess)

theorem scanned_ascending (store : FlatStore) (startTs : UInt64) (position : Bytes) :
    (scanned store startTs none ((store .write).seek position)).Pairwise
      fun left right => left.1 < right.1 :=
  scanGroups_ascending (grouped_of_ascending ((store .write).seek_ascending position))
    (by simp [Beyond])

/-! ## Scans and point reads -/

def PutsPresent (store : FlatStore) : Prop :=
  ∀ entry ∈ (store .write).entries, ∀ key ∈ entryKey entry,
    (decodeTimestamp entry.1).isOk → ∀ write ∈ (Write.parse entry.2).toOption.join,
      write.kind = .put → ((store .default).get? (encodeKey key write.startTs)).isSome

instance (store : FlatStore) : Decidable (PutsPresent store) := by
  unfold PutsPresent
  infer_instance

def versionsOf (store : FlatStore) (key : Bytes) : List (Bytes × Bytes) :=
  ((store .write).restrict (IsVersionOf key)).entries

/-- The record of a version, unless a scan passes over it. -/
def recordOf (startTs : UInt64) (entry : Bytes × Bytes) : Option (Fallible Write) :=
  match Scanner.visibleWrite startTs entry.1 entry.2 with
  | .error fault => some (.error fault)
  | .ok none => none
  | .ok (some write) => some (.ok write)

/-- A version that can be seen but is no write record. A scan passes over it, a point read
fails. -/
def Garbled (startTs : UInt64) (entry : Bytes × Bytes) : Prop :=
  ∃ commitTs message, decodeTimestamp entry.1 = .ok commitTs ∧ commitTs ≤ startTs ∧
    Write.parse entry.2 = .error (.error message)

/-- One of the versions that a scan passes over before it comes to a record is garbled. -/
def PassesGarbled (startTs : UInt64) (versions : List (Bytes × Bytes)) : Prop :=
  ∃ entry ∈ versions.takeWhile fun entry => (recordOf startTs entry).isNone, Garbled startTs entry

/-- The record at which a scan stops, if there is one. -/
def reached (store : FlatStore) (startTs : UInt64) (key : Bytes) : Option (Fallible Write) :=
  (versionsOf store key).findSome? (recordOf startTs)

/-- A scan stops at a put of the key. -/
def ScanFinds (store : FlatStore) (startTs : UInt64) (key : Bytes) : Prop :=
  ∃ write, reached store startTs key = some (.ok write) ∧ write.kind = .put

/-- A scan stops at a version of the key that makes it panic, or at a put below a garbled
version. -/
def ScanMisreads (store : FlatStore) (startTs : UInt64) (key : Bytes) : Prop :=
  (∃ fault, reached store startTs key = some (.error fault)) ∨
    ScanFinds store startTs key ∧ PassesGarbled startTs (versionsOf store key)

theorem mostRecentWriteFrom_cons (version : IsVersionOf key entry.1) :
    match recordOf startTs entry with
    | none =>
      Garbled startTs entry ∧
          (∃ fault, mostRecentWriteFrom startTs key (entry :: rest) = .error fault) ∨
        ¬ Garbled startTs entry ∧ mostRecentWriteFrom startTs key (entry :: rest) =
          mostRecentWriteFrom startTs key rest
    | some (.ok write) => ∃ commitTs,
      mostRecentWriteFrom startTs key (entry :: rest) = .ok (some write, commitTs)
    | some (.error _) =>
      ∃ fault, mostRecentWriteFrom startTs key (entry :: rest) = .error fault := by
  have decoded := decodeUserKey_eq_ok_iff.mpr version
  rw [recordOf, Scanner.visibleWrite]
  cases timed : decodeTimestamp entry.1 with
  | error fault => cases fault <;> simp [mostRecentWriteFrom, decoded, timed, Garbled]
  | ok commitTs =>
    by_cases readable : commitTs ≤ startTs
    · cases parsed : Write.parse entry.2 with
      | error fault =>
        cases fault <;>
          simp [mostRecentWriteFrom, decoded, timed, readable, not_lt.mpr readable,
            parseStoredWrite, parsed, withContext, Garbled]
      | ok write? =>
        cases write? <;>
          simp [mostRecentWriteFrom, decoded, timed, readable, not_lt.mpr readable,
            parseStoredWrite, parsed, withContext, Garbled]
    · simp [mostRecentWriteFrom, decoded, timed, readable, not_le.mp readable, Garbled]

theorem mostRecentWriteFrom_iff {versions : List (Bytes × Bytes)} {write : Write}
    (ofKey : ∀ entry ∈ versions, IsVersionOf key entry.1) :
    (∃ commitTs, mostRecentWriteFrom startTs key versions = .ok (some write, commitTs)) ↔
      versions.findSome? (recordOf startTs) = some (.ok write) ∧
        ¬ PassesGarbled startTs versions := by
  induction versions with
  | nil => simp [mostRecentWriteFrom]
  | cons entry rest induction =>
    rw [forall_mem_cons] at ofKey
    have step := @mostRecentWriteFrom_cons startTs key entry rest ofKey.1
    rw [PassesGarbled, findSome?_cons, takeWhile_cons]
    cases isRecord : recordOf startTs entry with
    | none =>
      rw [isRecord] at step
      simp only [Option.isNone_none, if_true, mem_cons, exists_eq_or_imp]
      rcases step with ⟨garbled, fault, fails⟩ | ⟨clean, goesOn⟩
      · simp [fails, garbled]
      · rw [goesOn, or_iff_right clean]
        exact induction ofKey.2
    | some record =>
      rw [isRecord] at step
      rcases record with fault | found
      · rcases step with ⟨fault', fails⟩
        simp [fails]
      · rcases step with ⟨commitTs, stopped⟩
        simp [stopped]

theorem settleGroup_versions {versions : List (Bytes × Bytes)}
    (ofKey : ∀ entry ∈ versions, IsVersionOf key entry.1)
    (present : ∀ entry ∈ versions, ∀ write, recordOf startTs entry = some (.ok write) →
      write.kind = .put → ((store .default).get? (encodeKey key write.startTs)).isSome) :
    settleGroup entryKey (judgeEntry (store .default) startTs) key versions =
      (versions.findSome? (recordOf startTs)).bind fun record => match record with
        | .error fault => some (.error fault)
        | .ok write => (recordedValue (store .default) key write).map .ok := by
  induction versions with
  | nil => rfl
  | cons entry rest induction =>
    rw [forall_mem_cons] at ofKey present
    have unlocked := present.1
    rw [recordOf] at unlocked
    rw [settleGroup, if_pos (entryKey_eq_some_iff.mpr ofKey.1), judgeEntry, findSome?_cons,
      recordOf]
    rcases seen : Scanner.visibleWrite startTs entry.1 entry.2 with fault | _ | ⟨writeTs, kind⟩
    · rfl
    · exact induction ofKey.2 present.2
    · rw [seen] at unlocked
      cases kind with
      | put =>
        rcases Option.isSome_iff_exists.mp (unlocked _ rfl rfl) with ⟨value, stored⟩
        simp [recordedValue, stored]
      | delete => simp [recordedValue]
      | rollback => simp [recordedValue]

/-! ### One key -/

theorem isVersionOf_of_mem (member : entry ∈ versionsOf store key) :
    entry ∈ (store .write).entries ∧ IsVersionOf key entry.1 := by
  simpa using mem_filter.mp member

theorem readCommitted_iff {value : Bytes} :
    ((MvccTxn.new startTs).readCommitted key).run store = .ok (some value) ↔
      ∃ write, reached store startTs key = some (.ok write) ∧
        ¬ PassesGarbled startTs (versionsOf store key) ∧
          recordedValue (store .default) key write = some value := by
  rw [run_readCommitted, MvccTxn.startTs_new, mostRecentWriteIn_eq]
  simp only [← and_assoc, reached,
    ← mostRecentWriteFrom_iff fun entry member => (isVersionOf_of_mem member).2]
  rw [← versionsOf]
  cases mostRecentWriteFrom startTs key (versionsOf store key) with
  | error fault => simp
  | ok found => rcases found with ⟨_ | write, commitTs⟩ <;> simp

section Present

variable (present : PutsPresent store)

include present

theorem present_of_mem (member : entry ∈ versionsOf store key) {write : Write}
    (isRecord : recordOf startTs entry = some (.ok write)) (put : write.kind = .put) :
    ((store .default).get? (encodeKey key write.startTs)).isSome := by
  rcases isVersionOf_of_mem member with ⟨stored, version⟩
  have seen : (decodeTimestamp entry.1).isOk ∧ Write.parse entry.2 = .ok (some write) := by
    rw [recordOf] at isRecord
    split at isRecord <;> cases isRecord
    rename_i visible
    rw [Scanner.visibleWrite] at visible
    split at visible <;> try cases visible
    rename_i timed
    split at visible <;> try cases visible
    split at visible <;> cases visible
    rename_i parsed
    exact ⟨by rw [timed]; rfl, parsed⟩
  exact present entry stored key (entryKey_eq_some_iff.mpr version) seen.1 write
    (by simp [seen.2, Except.toOption]) put

theorem scannedValue_eq :
    scannedValue store startTs key =
      (reached store startTs key).bind fun record => match record with
        | .error fault => some (.error fault)
        | .ok write => (recordedValue (store .default) key write).map .ok := by
  have versions : scannedValue store startTs key =
      settleGroup entryKey (judgeEntry (store .default) startTs) key (versionsOf store key) := by
    refine (settleGroup_filter ?_).symm
    intro entry _ dropped ofKey
    simp [entryKey_eq_some_iff.mp ofKey] at dropped
  rw [versions, reached, settleGroup_versions (fun _ member => (isVersionOf_of_mem member).2)
    fun _ member _ => present_of_mem present member]

theorem recordedValue_isSome_iff {write : Write}
    (stops : reached store startTs key = some (.ok write)) :
    (recordedValue (store .default) key write).isSome ↔ write.kind = .put := by
  rcases exists_of_findSome?_eq_some stops with ⟨entry, member, isRecord⟩
  have stored := present_of_mem present member isRecord
  rw [recordedValue]
  cases kind : write.kind with
  | put => simpa using stored kind
  | delete => simp
  | rollback => simp

theorem scanFinds_iff :
    ScanFinds store startTs key ↔ ∃ value, scannedValue store startTs key = some (.ok value) := by
  rw [ScanFinds, scannedValue_eq present]
  rcases stops : reached store startTs key with _ | fault | write
  · simp
  · simp
  · simp [← recordedValue_isSome_iff present stops, Option.isSome_iff_exists]

theorem scannedValue_of_misreads (misreads : ScanMisreads store startTs key) :
    (scannedValue store startTs key).isSome := by
  rcases misreads with ⟨fault, stops⟩ | ⟨finds, _⟩
  · simp [scannedValue_eq present, stops]
  · rcases (scanFinds_iff present).mp finds with ⟨value, isValue⟩
    simp [isValue]

theorem misreads_of_fault {fault : Fault}
    (fails : scannedValue store startTs key = some (.error fault)) :
    ScanMisreads store startTs key := by
  rw [scannedValue_eq present] at fails
  rcases stops : reached store startTs key with _ | other | write
  · simp [stops] at fails
  · exact .inl ⟨other, stops⟩
  · simp [stops] at fails

/-- A point read returns what a scan shows, unless the scan misreads the key. -/
theorem readCommitted_iff_scanned {value : Bytes} :
    ((MvccTxn.new startTs).readCommitted key).run store = .ok (some value) ↔
      scannedValue store startTs key = some (.ok value) ∧ ¬ ScanMisreads store startTs key := by
  rw [readCommitted_iff, scannedValue_eq present, ScanMisreads, ScanFinds]
  rcases stops : reached store startTs key with _ | fault | write
  · simp
  · simp
  · have put : recordedValue (store .default) key write = some value → write.kind = .put :=
      fun recorded => (recordedValue_isSome_iff present stops).mp (by simp [recorded])
    simp
    tauto

end Present

end Walk

end AegisDB.Mvcc
