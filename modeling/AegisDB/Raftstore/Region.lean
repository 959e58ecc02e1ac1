import AegisDB.EngineUtil
import AegisDB.Foundation.KeyRange
import AegisDB.Proto.Metapb
import Mathlib.Data.Prod.Lex

/-! # Key ranges and epochs of regions

`raftstore/util.rs`. The test for a key is the membership test of a half-open range, and
epochs are compared by version first. -/

namespace AegisDB.Raftstore

open Foundation EngineUtil Proto

def keyInRegion (key : Bytes) (region : Region) : Bool :=
  if !region.startKey.isEmpty && key < region.startKey then
    false
  else if !region.endKey.isEmpty && exceedEndKey key region.endKey then
    false
  else
    true

def keysBetween (startKey endKey : Bytes) : KeyRange Bytes where
  start := startKey
  stop := if endKey = [] then none else some endKey

theorem contains_keysBetween_iff {startKey endKey key : Bytes} :
    (keysBetween startKey endKey).Contains key ↔
      startKey ≤ key ∧ (endKey ≠ [] → key < endKey) := by
  by_cases unbounded : endKey = []
  · simp [keysBetween, KeyRange.Contains, unbounded]
  · simp [keysBetween, KeyRange.Contains, unbounded]

def isEpochStale (epoch other : RegionEpoch) : Bool :=
  epoch.version < other.version || (epoch.version == other.version && epoch.confVer < other.confVer)

end AegisDB.Raftstore

namespace AegisDB.Proto

open Foundation

def Region.range (region : Region) : KeyRange Bytes :=
  Raftstore.keysBetween region.startKey region.endKey

def RegionEpoch.rank (epoch : RegionEpoch) : UInt64 ×ₗ UInt64 :=
  toLex (epoch.version, epoch.confVer)

theorem Region.contains_range_iff {region : Region} {key : Bytes} :
    region.range.Contains key ↔
      region.startKey ≤ key ∧ (region.endKey ≠ [] → key < region.endKey) :=
  Raftstore.contains_keysBetween_iff

end AegisDB.Proto

namespace AegisDB.Raftstore

open Foundation EngineUtil Proto

theorem keyInRegion_iff {key : Bytes} {region : Region} :
    keyInRegion key region = true ↔ region.range.Contains key := by
  rw [Region.contains_range_iff, keyInRegion, exceedEndKey]
  have bottom : region.startKey = [] → region.startKey ≤ key := by
    intro isEmpty
    rw [isEmpty]
    exact le_of_isPrefix List.nil_prefix
  by_cases low : region.startKey ≤ key
  · by_cases unbounded : region.endKey = []
    · simp [low, unbounded]
    · simp [low, unbounded]
  · have notEmpty : region.startKey ≠ [] := fun isEmpty => low (bottom isEmpty)
    simp [low, notEmpty]

theorem mem_takeWhile_below {endKey : Bytes} {entries : List (Bytes × Bytes)}
    (ascending : Ascending entries) {entry : Bytes × Bytes} :
    entry ∈ entries.takeWhile
        (fun entry => !(!endKey.isEmpty && exceedEndKey entry.1 endKey)) ↔
      entry ∈ entries ∧ (endKey ≠ [] → entry.1 < endKey) := by
  have below : ∀ other : Bytes × Bytes,
      (!(!endKey.isEmpty && exceedEndKey other.1 endKey)) = true ↔
        (endKey ≠ [] → other.1 < endKey) := by
    intro other
    simp [exceedEndKey, or_iff_not_imp_left]
  rw [ascending.takeWhile_eq_filter, List.mem_filter, below]
  intro left _ right _ less test
  rw [below] at test ⊢
  exact fun bounded => less.trans (test bounded)

theorem isEpochStale_iff {epoch other : RegionEpoch} :
    isEpochStale epoch other = true ↔ epoch.rank < other.rank := by
  rw [RegionEpoch.rank, RegionEpoch.rank, Prod.Lex.toLex_lt_toLex]
  simp [isEpochStale]

end AegisDB.Raftstore
