import AegisDB.Consensus.Contiguity

/-! # Compacting the log

`RaftLog::maybe_compact` drops the entries up to an index, unless that is the first index,
where it returns at once, or the last one, where its test asks for an entry that stays. -/

namespace AegisDB.Consensus

open Foundation List

theorem Numbered.filter_above {before : Nat} {entries : List Entry}
    (numbered : Numbered before entries) (count : Nat) :
    entries.filter (fun entry => before + count < entry.index) = entries.drop count := by
  have below : ∀ entry ∈ entries.take count, ¬ before + count < entry.index := by
    intro entry member
    rcases mem_iff_getElem?.mp member with ⟨position, found⟩
    have inside := (List.getElem?_eq_some_iff.mp found).1
    rw [length_take] at inside
    rw [getElem?_take_of_lt (by omega)] at found
    have index := numbered position entry found
    omega
  have above : ∀ entry ∈ entries.drop count, before + count < entry.index := by
    intro entry member
    rcases mem_iff_getElem?.mp member with ⟨position, found⟩
    rw [getElem?_drop] at found
    have index := numbered _ entry found
    omega
  calc entries.filter (fun entry => before + count < entry.index)
      = (entries.take count ++ entries.drop count).filter
          (fun entry => before + count < entry.index) := by rw [take_append_drop]
    _ = [] ++ entries.drop count := by
        rw [filter_append]
        congr 1
        · exact filter_eq_nil_iff.mpr (by simpa using below)
        · exact filter_eq_self.mpr (by simpa using above)
    _ = entries.drop count := nil_append _

namespace RaftLog

variable {log : RaftLog} {before index : Nat}

/-! ## What a call comes to -/

theorem maybeCompact_of_le (early : index ≤ log.firstIndex) : log.maybeCompact index = .ok log := by
  rw [maybeCompact, if_pos early]

theorem maybeCompact_of_gt (late : log.firstIndex < index) (beyond : log.lastIndex < index) :
    ∃ message, log.maybeCompact index = .error (.error message) := by
  rw [maybeCompact, if_neg (not_le.mpr late), if_pos beyond]
  exact ⟨_, rfl⟩

theorem Sequential.maybeCompact (sequential : log.Sequential before)
    (noSnapshot : log.snapshotToApply = none) (notEmpty : log.entries ≠ [])
    (late : log.firstIndex < index) (inside : index ≤ log.lastIndex) :
    log.maybeCompact index =
      .ok (if index < log.lastIndex then { log with entries := log.entries.drop (index - before) }
        else log) := by
  have first := sequential.firstIndex_of_ne_nil notEmpty
  have last := sequential.lastIndex noSnapshot
  have small := sequential.small
  have offset : wrap (index - log.firstIndex + 1) = index - before := by
    rw [wrap_of_lt (by omega)]
    omega
  rw [RaftLog.maybeCompact, if_neg (not_le.mpr late), if_neg (not_lt.mpr inside)]
  dsimp only
  rw [offset]
  congr 1
  by_cases stays : index < log.lastIndex
  · rw [if_pos stays, if_pos (by omega)]
  · rw [if_neg stays, if_neg (by omega)]

theorem Sequential.ends_drop (sequential : log.Sequential before)
    (noSnapshot : log.snapshotToApply = none) {count : Nat} (stays : count < log.entries.length) :
    { log with entries := log.entries.drop count }.firstIndex = before + count + 1 ∧
      { log with entries := log.entries.drop count }.lastIndex = log.lastIndex := by
  have present : log.entries[count]? = some log.entries[count] := List.getElem?_eq_getElem stays
  have stillNone : { log with entries := log.entries.drop count }.snapshotToApply = none :=
    noSnapshot
  constructor
  · rw [firstIndex_of_head? stillNone (by rw [head?_drop, present]),
      sequential.numbered count _ present]
  · have notEmpty : log.entries ≠ [] := ne_nil_of_length_pos (by omega)
    have last := getLast?_eq_some_getLast notEmpty
    rw [lastIndex_of_getLast? noSnapshot last]
    apply lastIndex_of_getLast? stillNone
    rw [getLast?_drop, if_neg (by omega), last]

/-! ## Exactly the prefix -/

def CompactsPrefix (log : RaftLog) (index : Nat) : Prop :=
  if index ≤ log.lastIndex then
    ∃ after, log.maybeCompact index = .ok after ∧
      after.entries = log.entries.filter (fun entry => index < entry.index) ∧
      after.firstIndex = index + 1 ∧ after.lastIndex = log.lastIndex
  else ∃ message, log.maybeCompact index = .error (.error message)

def CompactsInside (log : RaftLog) (index : Nat) : Prop :=
  if index ≤ log.lastIndex then
    log.entries ≠ [] ∧ log.firstIndex < index ∧ index < log.lastIndex
  else index ≠ log.firstIndex

theorem not_compactsPrefix_of_same (inside : index ≤ log.lastIndex)
    (atLeast : log.firstIndex ≤ index) (same : log.maybeCompact index = .ok log) :
    ¬ log.CompactsPrefix index := by
  rw [CompactsPrefix, if_pos inside]
  intro ⟨after, compacted, _, first, _⟩
  rw [same] at compacted
  rw [← Except.ok.inj compacted] at first
  omega

theorem maybeCompact_of_nil (isEmpty : log.entries = []) (inside : index ≤ log.lastIndex) :
    log.maybeCompact index = .ok log := by
  rw [maybeCompact]
  split
  · rfl
  · rw [if_neg (not_lt.mpr inside), isEmpty]
    exact congrArg Except.ok (if_neg (Nat.not_lt_zero _))

instance decidableCompactsInside (log : RaftLog) (index : Nat) :
    Decidable (log.CompactsInside index) :=
  inferInstanceAs (Decidable (if index ≤ log.lastIndex then _ ∧ _ else _ ≠ _))

theorem compactsPrefix_iff_of_le (sequential : log.Sequential before)
    (noSnapshot : log.snapshotToApply = none) (atLeast : log.firstIndex ≤ index)
    (inside : index ≤ log.lastIndex) :
    log.CompactsPrefix index ↔
      log.entries ≠ [] ∧ log.firstIndex < index ∧ index < log.lastIndex := by
  have last := sequential.lastIndex noSnapshot
  by_cases isEmpty : log.entries = []
  · refine iff_of_false ?_ fun both => both.1 isEmpty
    exact not_compactsPrefix_of_same inside atLeast (maybeCompact_of_nil isEmpty inside)
  · by_cases between : log.firstIndex < index ∧ index < log.lastIndex
    · have first := sequential.firstIndex_of_ne_nil isEmpty
      have ends := sequential.ends_drop noSnapshot
        (show index - before < log.entries.length by omega)
      have kept := sequential.numbered.filter_above (index - before)
      rw [show before + (index - before) = index by omega] at ends kept
      refine iff_of_true ?_ ⟨isEmpty, between⟩
      rw [CompactsPrefix, if_pos inside]
      refine ⟨_, ?_, kept.symm, ends⟩
      rw [sequential.maybeCompact noSnapshot isEmpty between.1 inside, if_pos between.2]
    · refine iff_of_false (not_compactsPrefix_of_same inside atLeast ?_) fun both =>
        between both.2
      by_cases early : index ≤ log.firstIndex
      · exact maybeCompact_of_le early
      · rw [sequential.maybeCompact noSnapshot isEmpty (not_le.mp early) inside,
          if_neg fun stays => between ⟨not_le.mp early, stays⟩]

theorem compactsPrefix_iff_of_gt (atMost : log.firstIndex ≤ index)
    (beyond : ¬ index ≤ log.lastIndex) :
    log.CompactsPrefix index ↔ index ≠ log.firstIndex := by
  rw [CompactsPrefix, if_neg beyond]
  constructor
  · intro ⟨message, failed⟩ same
    rw [maybeCompact_of_le same.le] at failed
    cases failed
  · intro different
    exact maybeCompact_of_gt (by omega) (by omega)

/-- Compaction removes the prefix, except at the two ends of the log. -/
theorem compactsPrefix_iff (unbroken : log.Unbroken)
    (inDomain : log.firstIndex ≤ index ∨ log.lastIndex < index) :
    log.CompactsPrefix index ↔ log.CompactsInside index := by
  rcases unbroken with ⟨noSnapshot, before, sequential⟩
  rw [CompactsInside]
  split_ifs with inside
  · exact compactsPrefix_iff_of_le sequential noSnapshot
      (inDomain.resolve_right (not_lt.mpr inside)) inside
  · apply compactsPrefix_iff_of_gt _ inside
    have last := sequential.lastIndex noSnapshot
    have first : log.firstIndex ≤ before + 1 := by
      rw [sequential.firstIndex]
      exact Nat.mod_le _ _
    omega

def threeEntries : RaftLog where
  committed := 6
  applied := 6
  stabled := 6
  entries := [4, 5, 6].map fun index =>
    { entryType := .normal, term := 1, index, data := [] }
  pendingSnapshot := none

theorem unbroken_threeEntries : threeEntries.Unbroken :=
  (by decide : threeEntries.Consecutive 3).unbroken

theorem compactsPrefix_middle :
    threeEntries.stabled = threeEntries.lastIndex ∧ threeEntries.CompactsPrefix 5 :=
  ⟨by decide, (compactsPrefix_iff unbroken_threeEntries (.inl (by decide))).mpr (by decide)⟩

/-- At the first index and at the last one the call succeeds and leaves all entries. -/
theorem not_compactsPrefix_ends :
    (threeEntries.maybeCompact 4 = .ok threeEntries ∧ ¬ threeEntries.CompactsPrefix 4) ∧
      (threeEntries.maybeCompact 6 = .ok threeEntries ∧ ¬ threeEntries.CompactsPrefix 6) :=
  ⟨⟨by decide, not_compactsPrefix_of_same (by decide) (by decide) (by decide)⟩,
    by decide, not_compactsPrefix_of_same (by decide) (by decide) (by decide)⟩

end RaftLog

end AegisDB.Consensus
