import AegisDB.Foundation.RunningTotal
import AegisDB.Raftstore.Region
import AegisDB.Storage.PrefixIterator

/-! # The split checker

`raftstore/split_checker.rs`. A family is scanned from a start key that went through text, and
has its own running total and its own candidate for the split key; the totals of the families
are added up, and the candidate of the family that takes the sum over the split size is the
split key, even where that family alone has none. Sizes are natural numbers: what an engine
holds is less than a `u64` can count. -/

namespace AegisDB.Raftstore

open Foundation EngineUtil Proto Storage List

/-! ## The checker -/

structure SplitChecker where
  maxSize : Nat
  splitSize : Nat
deriving DecidableEq, Repr

def cfs : List Cf := [.default, .write, .lock]

namespace SplitChecker

def scanFrom (checker : SplitChecker) (cf : Cf) (endKey : Bytes) :
    (currentSize : Nat) → (splitKey : Option Bytes) → List (Bytes × Bytes) → Nat × Option Bytes
  | currentSize, splitKey, [] => (currentSize, splitKey)
  | currentSize, splitKey, (keyBytes, value) :: rest =>
    if !cf.prefixBytes.isPrefixOf keyBytes then
      (currentSize, splitKey)
    else
      let actualKey := keyBytes.drop cf.prefixBytes.length
      if !endKey.isEmpty && exceedEndKey actualKey endKey then
        (currentSize, splitKey)
      else
        let currentSize := currentSize + (actualKey.length + value.length)
        let splitKey :=
          if currentSize > checker.splitSize && splitKey.isNone then some actualKey else splitKey
        if currentSize > checker.maxSize then
          (currentSize, splitKey)
        else
          checker.scanFrom cf endKey currentSize splitKey rest

def seekKey (cf : Cf) (startKey : Bytes) : Bytes :=
  if !startKey.isEmpty then cf.prefixBytes ++ lossyBytes startKey else cf.prefixBytes

def scanCf (checker : SplitChecker) (db : DB) (cf : Cf) (startKey endKey : Bytes) :
    Option (Nat × Bytes) :=
  let (currentSize, splitKey) := checker.scanFrom cf endKey 0 none (db.seek (seekKey cf startKey))
  if currentSize > 0 then some (currentSize, splitKey.getD []) else none

def checkFrom (checker : SplitChecker) (db : DB) (region : Region) :
    (totalSize : Nat) → (splitKey : Option Bytes) → List Cf → Nat × Option Bytes
  | totalSize, splitKey, [] => (totalSize, splitKey)
  | totalSize, splitKey, cf :: rest =>
    match checker.scanCf db cf region.startKey region.endKey with
    | none => checker.checkFrom db region totalSize splitKey rest
    | some (size, key) =>
      let totalSize := totalSize + size
      let splitKey :=
        if totalSize > checker.splitSize && splitKey.isNone then some key else splitKey
      if totalSize > checker.maxSize then
        (totalSize, splitKey)
      else
        checker.checkFrom db region totalSize splitKey rest

def approximateSize (checker : SplitChecker) (db : DB) (region : Region) : Nat :=
  (checker.checkFrom db region 0 none cfs).1

def check (checker : SplitChecker) (db : DB) (region : Region) : Option Bytes :=
  if checker.approximateSize db region < checker.maxSize then none
  else (checker.checkFrom db region 0 none cfs).2

end SplitChecker

/-! ## The data of a region -/

def entrySize (entry : Bytes × Bytes) : Nat := entry.1.length + entry.2.length

def familyEntries (db : DB) (cf : Cf) (range : KeyRange Bytes) : List (Bytes × Bytes) :=
  ((db.entries.filter fun entry => cf.prefixBytes.isPrefixOf entry.1).map cf.strip).filter
    fun entry => range.Contains entry.1

def familySize (db : DB) (region : Region) (cf : Cf) : Nat :=
  totalSize entrySize (familyEntries db cf region.range)

section Families

variable {db : DB} {cf : Cf} {range : KeyRange Bytes} {key value : Bytes}

theorem mem_familyEntries :
    (key, value) ∈ familyEntries db cf range ↔
      getCf db cf.bytes key = some value ∧ range.Contains key := by
  rw [familyEntries, mem_filter, mem_map, decide_eq_true_eq, getCf,
    OrderedMap.get?_eq_some_iff]
  apply and_congr_left
  intro _
  constructor
  · intro ⟨entry, member, same⟩
    rw [mem_filter, isPrefixOf_iff_prefix] at member
    have full := keyWithCf_strip member.2
    rw [same] at full
    change (keyWithCf cf key, value) ∈ _
    rw [full, ← (Prod.mk.inj same).2]
    exact member.1
  · intro present
    refine ⟨_, mem_filter.mpr ⟨present, ?_⟩, strip_keyWithCf cf key value⟩
    rw [ isPrefixOf_iff_prefix]
    exact isPrefix_keyWithCf cf key

theorem ascending_familyEntries : Ascending (familyEntries db cf range) := by
  have stripped : Ascending
      ((db.entries.filter fun entry => cf.prefixBytes.isPrefixOf entry.1).map cf.strip) := by
    rw [Ascending, pairwise_map]
    apply (db.ascending.filter _).imp_of_mem
    intro left right leftMember rightMember smaller
    rw [mem_filter, isPrefixOf_iff_prefix] at leftMember rightMember
    rw [← keyWithCf_strip leftMember.2, ← keyWithCf_strip rightMember.2]
      at smaller
    exact keyWithCf_lt_iff.mp smaller
  exact stripped.filter _

end Families

/-! ## What a scan counts -/

namespace SplitChecker

variable {checker : SplitChecker} {db : DB} {cf : Cf} {startKey endKey : Bytes}

def shown (cf : Cf) (endKey : Bytes) (entries : List (Bytes × Bytes)) :
    List (Bytes × Bytes) :=
  ((entries.takeWhile cf.shows).map cf.strip).takeWhile fun entry =>
    !(!endKey.isEmpty && exceedEndKey entry.1 endKey)

theorem shown_cons (entry : Bytes × Bytes) (rest : List (Bytes × Bytes)) :
    shown cf endKey (entry :: rest) =
      if !cf.prefixBytes.isPrefixOf entry.1 then []
      else if !endKey.isEmpty && exceedEndKey (cf.strip entry).1 endKey then []
      else cf.strip entry :: shown cf endKey rest := by
  have shows : cf.shows entry = cf.prefixBytes.isPrefixOf entry.1 := by
    rw [Bool.eq_iff_iff, Cf.shows_iff, isPrefixOf_iff_prefix]
  rw [shown, takeWhile_cons, shows]
  cases cf.prefixBytes.isPrefixOf entry.1 with
  | false => rfl
  | true =>
    simp only [if_true, map_cons, takeWhile_cons, Bool.not_true, Bool.false_eq_true,
      if_false]
    cases !endKey.isEmpty && exceedEndKey (cf.strip entry).1 endKey with
    | true => rfl
    | false => rfl

theorem candidate_or {α : Type} (keyOf : α → Bytes) (splitKey : Option Bytes) (here : α)
    (later : Option α) (exceeds : Prop) [Decidable exceeds] :
    (if (exceeds && splitKey.isNone) = true then some (keyOf here) else splitKey).or
        (later.map keyOf) =
      splitKey.or ((if exceeds then some here else later).map keyOf) := by
  cases splitKey with
  | some key => simp
  | none =>
    by_cases isHere : exceeds
    · simp [isHere]
    · simp [isHere]

theorem scanFrom_eq (currentSize : Nat) (splitKey : Option Bytes) (entries : List (Bytes × Bytes)) :
    checker.scanFrom cf endKey currentSize splitKey entries =
      (currentSize + totalSize entrySize
          (upToExcess entrySize checker.maxSize currentSize (shown cf endKey entries)),
        splitKey.or ((firstBeyond entrySize checker.splitSize currentSize
          (upToExcess entrySize checker.maxSize currentSize (shown cf endKey entries))).map
            Prod.fst)) := by
  induction entries generalizing currentSize splitKey with
  | nil => simp [scanFrom, shown, upToExcess, firstBeyond]
  | cons entry rest induction =>
    rcases entry with ⟨keyBytes, value⟩
    have stripped : cf.strip (keyBytes, value) =
      (keyBytes.drop cf.prefixBytes.length, value) := rfl
    rw [shown_cons, stripped, scanFrom]
    generalize keyBytes.drop cf.prefixBytes.length = actualKey
    by_cases outside : (!cf.prefixBytes.isPrefixOf keyBytes) = true
    · rw [if_pos outside, if_pos outside]
      simp [upToExcess, firstBeyond]
    · rw [if_neg outside, if_neg outside]
      by_cases ended : (!endKey.isEmpty && exceedEndKey actualKey endKey) = true
      · rw [if_pos ended, if_pos ended]
        simp [upToExcess, firstBeyond]
      · rw [if_neg ended, if_neg ended, upToExcess]
        dsimp only
        have counted : currentSize + (actualKey.length + value.length) =
          currentSize + entrySize (actualKey, value) := rfl
        rw [counted]
        by_cases stops : checker.maxSize < currentSize + entrySize (actualKey, value)
        · rw [if_pos stops, if_pos stops, firstBeyond]
          have only := candidate_or Prod.fst splitKey (actualKey, value) none
            (checker.splitSize < currentSize + entrySize (actualKey, value))
          rw [Option.map_none, Option.or_none] at only
          rw [totalSize_cons, totalSize_nil, Nat.add_zero]
          exact Prod.ext rfl only
        · rw [if_neg stops, if_neg stops, induction, totalSize_cons, firstBeyond, Nat.add_assoc]
          exact Prod.ext rfl (candidate_or Prod.fst splitKey (actualKey, value) _ _)

theorem seekKey_eq (cf : Cf) (startKey : Bytes) :
    seekKey cf startKey = cf.prefixBytes ++ lossyBytes startKey := by
  cases startKey with
  | nil => simp [seekKey, lossyBytes_eq_nil_iff.mpr]
  | cons first rest => rfl

theorem shown_seek (db : DB) (cf : Cf) (startKey endKey : Bytes) :
    shown cf endKey (db.seek (seekKey cf startKey)) =
      familyEntries db cf (keysBetween (lossyBytes startKey) endKey) := by
  rw [seekKey_eq]
  have ascending : Ascending
      ((RocksDBIterator.new db cf).seek (lossyBytes startKey)).items :=
    RocksDBIterator.ascending_items (db.seek_ascending _)
  apply Ascending.eq_of_mem_iff (ascending.sublist (takeWhile_sublist _))
    ascending_familyEntries
  intro ⟨key, value⟩
  rw [mem_familyEntries, contains_keysBetween_iff]
  change (key, value) ∈ List.takeWhile _
    ((RocksDBIterator.new db cf).seek (lossyBytes startKey)).items ↔ _
  rw [mem_takeWhile_below ascending, RocksDBIterator.mem_items_seek, and_assoc]
  exact and_left_comm

def counted (checker : SplitChecker) (db : DB) (cf : Cf) (startKey endKey : Bytes) :
    List (Bytes × Bytes) :=
  upToExcess entrySize checker.maxSize 0
    (familyEntries db cf (keysBetween (lossyBytes startKey) endKey))

theorem scanCf_eq (checker : SplitChecker) (db : DB) (cf : Cf) (startKey endKey : Bytes) :
    checker.scanCf db cf startKey endKey =
      if 0 < totalSize entrySize (checker.counted db cf startKey endKey) then
        some (totalSize entrySize (checker.counted db cf startKey endKey),
          ((firstBeyond entrySize checker.splitSize 0
            (checker.counted db cf startKey endKey)).map Prod.fst).getD [])
      else none := by
  rw [scanCf, scanFrom_eq, shown_seek, Nat.zero_add, Option.none_or]
  rfl

def measured (checker : SplitChecker) (db : DB) (cf : Cf) (startKey endKey : Bytes) : Nat :=
  match checker.scanCf db cf startKey endKey with
  | some (size, _) => size
  | none => 0

theorem measured_eq (checker : SplitChecker) (db : DB) (cf : Cf) (startKey endKey : Bytes) :
    checker.measured db cf startKey endKey =
      totalSize entrySize (checker.counted db cf startKey endKey) := by
  rw [measured, scanCf_eq]
  by_cases nothing : totalSize entrySize (checker.counted db cf startKey endKey) = 0
  · simp [nothing]
  · rw [if_pos (Nat.pos_of_ne_zero nothing)]

theorem familyEntries_congr
    (agree : ∀ key value, getCf db cf.bytes key = some value → (endKey ≠ [] → key < endKey) →
      (startKey ≤ key ↔ lossyBytes startKey ≤ key)) :
    familyEntries db cf (keysBetween (lossyBytes startKey) endKey) =
      familyEntries db cf (keysBetween startKey endKey) := by
  apply ascending_familyEntries.eq_of_mem_iff ascending_familyEntries
  intro ⟨key, value⟩
  rw [mem_familyEntries, mem_familyEntries, contains_keysBetween_iff, contains_keysBetween_iff]
  constructor
  · intro ⟨found, above, below⟩
    exact ⟨found, (agree key value found below).mpr above, below⟩
  · intro ⟨found, above, below⟩
    exact ⟨found, (agree key value found below).mp above, below⟩

theorem familyEntries_eq_filter (start : Bytes) :
    familyEntries db cf (keysBetween start endKey) =
      (familyEntries db cf (keysBetween [] endKey)).filter fun entry => start ≤ entry.1 := by
  apply ascending_familyEntries.eq_of_mem_iff (ascending_familyEntries.filter _)
  intro ⟨key, value⟩
  rw [mem_filter, mem_familyEntries, mem_familyEntries, contains_keysBetween_iff,
    contains_keysBetween_iff, decide_eq_true_eq]
  constructor
  · intro ⟨found, above, below⟩
    exact ⟨⟨found, le_of_isPrefix nil_prefix, below⟩, above⟩
  · intro ⟨⟨found, _, below⟩, above⟩
    exact ⟨found, above, below⟩

theorem le_of_totalSize_eq {first second key value : Bytes} (ordered : first ≤ second)
    (same : totalSize entrySize (familyEntries db cf (keysBetween second endKey)) =
      totalSize entrySize (familyEntries db cf (keysBetween first endKey)))
    (found : getCf db cf.bytes key = some value) (below : endKey ≠ [] → key < endKey)
    (above : first ≤ key) (notEmpty : key ≠ []) : second ≤ key := by
  by_contra before
  rw [familyEntries_eq_filter second, familyEntries_eq_filter first] at same
  have member : (key, value) ∈ familyEntries db cf (keysBetween [] endKey) := by
    rw [mem_familyEntries, contains_keysBetween_iff]
    exact ⟨found, le_of_isPrefix nil_prefix, below⟩
  have nothing : entrySize (key, value) = 0 := by
    apply size_eq_zero_of_filter _ same member
    · exact decide_eq_true above
    · simpa using before
    · intro entry
      simp only [decide_eq_true_eq]
      exact ordered.trans
  rw [entrySize, Nat.add_eq_zero_iff, length_eq_zero_iff] at nothing
  exact notEmpty nothing.1

/-- A scan measures a family in the range, under every configuration, exactly if no key of the
family below the end is on different sides of the start key and of its lossy text. -/
theorem measures_range_iff (db : DB) (cf : Cf) (startKey endKey : Bytes) :
    (∀ checker : SplitChecker, checker.measured db cf startKey endKey =
      totalSize entrySize (upToExcess entrySize checker.maxSize 0
        (familyEntries db cf (keysBetween startKey endKey)))) ↔
      ∀ key value, getCf db cf.bytes key = some value → (endKey ≠ [] → key < endKey) →
        (startKey ≤ key ↔ lossyBytes startKey ≤ key) := by
  constructor
  · intro measures key value found below
    -- With a limit that is not exceeded, all is counted on both sides.
    have measuresAll := measures {
      maxSize := totalSize entrySize
          (familyEntries db cf (keysBetween (lossyBytes startKey) endKey)) +
        totalSize entrySize (familyEntries db cf (keysBetween startKey endKey))
      splitSize := 0 }
    rw [measured_eq, counted, upToExcess_eq_self (by simp), upToExcess_eq_self (by simp)]
      at measuresAll
    have least : ∀ bytes : Bytes, bytes ≤ [] ↔ bytes = [] := by
      intro bytes
      cases bytes <;> simp
    by_cases isEmpty : key = []
    · rw [isEmpty, least, least, lossyBytes_eq_nil_iff]
    · rcases le_total startKey (lossyBytes startKey) with before | after
      · constructor
        · intro above
          exact le_of_totalSize_eq before measuresAll found below above isEmpty
        · exact before.trans
      · constructor
        · exact after.trans
        · intro above
          exact le_of_totalSize_eq after measuresAll.symm found below above isEmpty
  · intro agree checker
    rw [measured_eq, counted, familyEntries_congr agree]

def rawEngine (key : Bytes) : DB := putCf .empty Cf.default.bytes key [0x01]

def smallChecker : SplitChecker := { maxSize := 8, splitSize := 5 }

/-- The text of a start key may come after the key, so that the key is not counted, or before
it, so that a smaller key is counted. -/
theorem measures_other_keys :
    (familyEntries (rawEngine [0x80]) .default (keysBetween [0x80] [])).map Prod.fst = [[0x80]] ∧
    smallChecker.measured (rawEngine [0x80]) .default [0x80] [] = 0 ∧
    familyEntries (rawEngine [0xF5]) .default (keysBetween [0xFF] []) = [] ∧
    smallChecker.measured (rawEngine [0xF5]) .default [0xFF] [] = 2 := by
  decide +kernel

/-! ## Which split keys are usable -/

/-- A split there gives two regions that have keys. -/
structure Usable (region : Region) (key : Bytes) : Prop where
  nonEmpty : key ≠ []
  above : region.startKey < key
  below : region.endKey ≠ [] → key < region.endKey

section Candidates

variable {region : Region}

theorem usable_iff_ne_start {key : Bytes} (inside : region.range.Contains key) :
    Usable region key ↔ ¬ key = region.startKey := by
  have bounds := Region.contains_range_iff.mp inside
  constructor
  · intro usable same
    have above := usable.above
    rw [same] at above
    exact lt_irrefl _ above
  · intro notStart
    have above := lt_of_le_of_ne bounds.1 (Ne.symm notStart)
    refine ⟨fun isEmpty => ?_, above, bounds.2⟩
    rw [isEmpty] at above
    exact not_lt_nil _ above

def candidate (checker : SplitChecker) (db : DB) (region : Region) (cf : Cf) : Bytes :=
  ((firstBeyond entrySize checker.splitSize 0 (familyEntries db cf region.range)).map
    Prod.fst).getD []

theorem not_usable_candidate (small : familySize db region cf ≤ checker.splitSize) :
    ¬ Usable region (checker.candidate db region cf) := by
  intro usable
  have none : firstBeyond entrySize checker.splitSize 0 (familyEntries db cf region.range) =
      .none := by
    rw [firstBeyond_eq_none_iff (Nat.zero_le _), Nat.zero_add]
    exact small
  apply usable.nonEmpty
  rw [candidate, none]
  rfl

theorem firstBeyond_at_start {limit : Nat} {entries : List (Bytes × Bytes)} {start : Bytes}
    {entry : Bytes × Bytes} (ascending : Ascending entries)
    (above : ∀ other ∈ entries, start ≤ other.1)
    (found : firstBeyond entrySize limit 0 entries = some entry) :
    entry.1 = start ↔ ∃ value, (start, value) ∈ entries ∧ limit < entrySize (start, value) := by
  cases entries with
  | nil => cases found
  | cons first rest =>
    rcases pairwise_cons.mp ascending with ⟨later, _⟩
    have behind : ∀ other ∈ rest, start < other.1 :=
      fun other member => (above first mem_cons_self).trans_lt (later other member)
    rw [firstBeyond, Nat.zero_add] at found
    split at found
    · rename_i beyond
      rcases Option.some.inj found with rfl
      constructor
      · intro atStart
        rcases first with ⟨key, value⟩
        cases atStart
        exact ⟨value, mem_cons_self, beyond⟩
      · intro present
        rcases present with ⟨value, member, _⟩
        rcases mem_cons.mp member with isFirst | inRest
        · rw [← isFirst]
        · exact absurd (behind _ inRest) (lt_irrefl start)
    · rename_i notBeyond
      refine iff_of_false ?_ ?_
      · exact (behind entry (mem_of_firstBeyond found)).ne'
      · intro present
        rcases present with ⟨value, member, beyond⟩
        rcases mem_cons.mp member with isFirst | inRest
        · rw [isFirst] at beyond
          exact notBeyond beyond
        · exact absurd (behind _ inRest) (lt_irrefl start)

theorem usable_candidate_iff (beyond : checker.splitSize < familySize db region cf) :
    Usable region (checker.candidate db region cf) ↔
      ∀ value, getCf db cf.bytes region.startKey = some value →
        entrySize (region.startKey, value) ≤ checker.splitSize := by
  cases found : firstBeyond entrySize checker.splitSize 0 (familyEntries db cf region.range) with
  | none =>
    rw [firstBeyond_eq_none_iff (Nat.zero_le _), Nat.zero_add] at found
    exact absurd beyond (Nat.not_lt.mpr found)
  | some entry =>
    have isCandidate : checker.candidate db region cf = entry.1 := by
      rw [candidate, found]
      rfl
    have inRange : ∀ {other : Bytes × Bytes}, other ∈ familyEntries db cf region.range →
        region.range.Contains other.1 := fun member => (mem_familyEntries.mp member).2
    have inside := inRange (mem_of_firstBeyond found)
    have atStart := firstBeyond_at_start ascending_familyEntries
      (fun other member => (inRange member).1) found
    rw [isCandidate, usable_iff_ne_start inside]
    change ¬ entry.1 = region.range.start ↔ _
    rw [atStart]
    constructor
    · intro none value stored
      by_contra large
      have startInside := KeyRange.contains_start_iff.mpr (.of_contains inside)
      exact none ⟨value, mem_familyEntries.mpr ⟨stored, startInside⟩, Nat.not_le.mp large⟩
    · intro small ⟨value, member, large⟩
      exact Nat.not_lt.mpr (small value (mem_familyEntries.mp member).1) large

def countedSize (checker : SplitChecker) (db : DB) (region : Region) (cf : Cf) : Nat :=
  totalSize entrySize
    (upToExcess entrySize checker.maxSize 0 (familyEntries db cf region.range))

theorem scanCf_of_valid (ordered : checker.splitSize ≤ checker.maxSize)
    (text : validUtf8 region.startKey = true) :
    checker.scanCf db cf region.startKey region.endKey =
      if 0 < checker.countedSize db region cf then
        some (checker.countedSize db region cf, checker.candidate db region cf)
      else none := by
  have sameEntries : checker.counted db cf region.startKey region.endKey =
      upToExcess entrySize checker.maxSize 0 (familyEntries db cf region.range) := by
    rw [counted, lossyBytes_of_valid text]
    rfl
  rw [scanCf_eq, sameEntries, firstBeyond_upToExcess ordered]
  rfl

theorem countedSize_cases (checker : SplitChecker) (db : DB) (region : Region) (cf : Cf) :
    checker.countedSize db region cf = familySize db region cf ∨
      checker.maxSize < checker.countedSize db region cf ∧
        checker.maxSize < familySize db region cf := by
  by_cases within : familySize db region cf ≤ checker.maxSize
  · left
    rw [countedSize, upToExcess_eq_self]
    · rfl
    · rw [Nat.zero_add]
      exact within
  · right
    have beyond : checker.maxSize < 0 + familySize db region cf := by omega
    have cut := lt_totalSize_upToExcess beyond
    rw [Nat.zero_add] at beyond cut
    exact ⟨cut, beyond⟩

theorem checkFrom_eq (ordered : checker.splitSize ≤ checker.maxSize)
    (text : validUtf8 region.startKey = true) (families : List Cf) (total : Nat)
    (splitKey : Option Bytes) (within : total ≤ checker.maxSize)
    (noneYet : splitKey = none → total ≤ checker.splitSize) :
    ((checker.checkFrom db region total splitKey families).1 < checker.maxSize ↔
      total + totalSize (familySize db region) families < checker.maxSize) ∧
    (checker.checkFrom db region total splitKey families).2 =
      splitKey.or ((firstBeyond (familySize db region) checker.splitSize total families).map
        (checker.candidate db region)) := by
  induction families generalizing total splitKey with
  | nil => simp [checkFrom, firstBeyond]
  | cons cf rest induction =>
    have sizes := countedSize_cases checker db region cf
    rw [checkFrom, scanCf_of_valid ordered text, totalSize_cons, firstBeyond]
    by_cases nothing : checker.countedSize db region cf = 0
    · have isEmpty : familySize db region cf = 0 := by omega
      have later := induction total splitKey within noneYet
      rw [nothing, if_neg (Nat.lt_irrefl 0), isEmpty, Nat.zero_add, Nat.add_zero]
      refine ⟨later.1, later.2.trans ?_⟩
      cases splitKey with
      | some key => rfl
      | none => rw [if_neg (Nat.not_lt.mpr (noneYet rfl))]
    · rw [if_pos (Nat.pos_of_ne_zero nothing)]
      dsimp only
      by_cases stops : checker.maxSize < total + checker.countedSize db region cf
      · have beyond : checker.splitSize < total + familySize db region cf := by omega
        have exceeds : checker.splitSize < total + checker.countedSize db region cf := by omega
        rw [if_pos stops, if_pos beyond]
        refine ⟨iff_of_false ?_ ?_, ?_⟩
        · dsimp only
          omega
        · omega
        · cases splitKey with
          | some key => simp
          | none => simp [exceeds]
      · have whole : checker.countedSize db region cf = familySize db region cf := by omega
        rw [if_neg stops, whole]
        rw [whole] at stops
        have later := induction (total + familySize db region cf)
          (if (decide (total + familySize db region cf > checker.splitSize) &&
            splitKey.isNone) = true then some (checker.candidate db region cf) else splitKey)
          (Nat.not_lt.mp stops) ?_
        · rw [← Nat.add_assoc]
          exact ⟨later.1, later.2.trans (candidate_or _ splitKey cf _ _)⟩
        · intro isNone
          by_contra large
          cases splitKey with
          | some key => simp at isNone
          | none => simp [Nat.not_le.mp large] at isNone

theorem check_eq (ordered : checker.splitSize ≤ checker.maxSize)
    (text : validUtf8 region.startKey = true) :
    checker.check db region =
      if totalSize (familySize db region) cfs < checker.maxSize then none
      else (firstBeyond (familySize db region) checker.splitSize 0 cfs).map
        (checker.candidate db region) := by
  rcases checkFrom_eq ordered text cfs 0 none (Nat.zero_le _) (fun _ => Nat.zero_le _) with
    ⟨size, key⟩
  rw [Nat.zero_add] at size
  rw [check, approximateSize, key, Option.none_or]
  simp only [size]

end Candidates

def SplitsInside (checker : SplitChecker) (db : DB) (region : Region) : Prop :=
  checker.maxSize ≤ totalSize (familySize db region) cfs →
    ∀ cf, firstBeyond (familySize db region) checker.splitSize 0 cfs = some cf →
      checker.splitSize < familySize db region cf ∧
      ∀ value, getCf db cf.bytes region.startKey = some value →
        entrySize (region.startKey, value) ≤ checker.splitSize

/-- All split keys that the checker proposes are usable exactly if the data of the region is of
this kind. -/
theorem check_usable_iff (checker : SplitChecker) (db : DB) (region : Region)
    (ordered : checker.splitSize ≤ checker.maxSize) (text : validUtf8 region.startKey = true) :
    (∀ key, checker.check db region = some key → Usable region key) ↔
      checker.SplitsInside db region := by
  rw [check_eq ordered text, SplitsInside]
  by_cases enough : checker.maxSize ≤ totalSize (familySize db region) cfs
  · rw [if_neg (Nat.not_lt.mpr enough)]
    cases crossed : firstBeyond (familySize db region) checker.splitSize 0 cfs with
    | none => simp
    | some cf =>
      simp only [Option.map_some, Option.some.injEq, forall_eq', enough, true_imp_iff]
      by_cases beyond : checker.splitSize < familySize db region cf
      · rw [usable_candidate_iff beyond, and_iff_right beyond]
      · exact iff_of_false (not_usable_candidate (Nat.not_lt.mp beyond))
          fun both => beyond both.1
  · rw [if_pos (Nat.not_le.mp enough)]
    simp [enough]

def regionFrom (startKey : Bytes) : Region where
  id := 1
  startKey
  endKey := []
  regionEpoch := none
  peers := []

def twoEntries : DB :=
  putCf (putCf .empty Cf.default.bytes [0x61] [1, 2, 3]) Cf.default.bytes
    [0x62] [1, 2, 3, 4]

theorem check_usable_twoEntries :
    smallChecker.check twoEntries (regionFrom []) = some [0x62] ∧
      ∀ key, smallChecker.check twoEntries (regionFrom []) = some key →
        Usable (regionFrom []) key := by
  have inside : smallChecker.SplitsInside twoEntries (regionFrom []) := by
    intro _ cf crossed
    have isDefault : firstBeyond (familySize twoEntries (regionFrom []))
        smallChecker.splitSize 0 cfs = some .default := by decide +kernel
    rw [isDefault] at crossed
    cases crossed
    refine ⟨by decide +kernel, fun value stored => ?_⟩
    have absent : getCf twoEntries Cf.default.bytes (regionFrom []).startKey = none := by
      decide +kernel
    rw [absent] at stored
    cases stored
  exact ⟨by decide +kernel, (check_usable_iff smallChecker twoEntries (regionFrom [])
    (by decide) validUtf8_nil).mpr inside⟩

def twoFamilies : DB :=
  putCf (putCf .empty Cf.default.bytes [0x61] [1, 2, 3]) Cf.write.bytes
    [0x62] [1, 2, 3]

def largeEntry : DB :=
  putCf .empty Cf.default.bytes [0x6D] [1, 2, 3, 4, 5, 6, 7, 8, 9]

/-- Two families that exceed the split size together have no candidate, and a large entry at
the start key is one. -/
theorem proposes_unusable_keys :
    smallChecker.splitSize ≤ smallChecker.maxSize ∧ validUtf8 [0x6D] = true ∧
    smallChecker.check twoFamilies (regionFrom []) = some [] ∧
    smallChecker.check largeEntry (regionFrom [0x6D]) = some [0x6D] ∧
    ¬ Usable (regionFrom []) [] ∧ ¬ Usable (regionFrom [0x6D]) [0x6D] :=
  ⟨by decide, by decide +kernel, by decide +kernel, by decide +kernel,
    fun usable => usable.nonEmpty rfl, fun usable => lt_irrefl _ usable.above⟩

end SplitChecker

end AegisDB.Raftstore
