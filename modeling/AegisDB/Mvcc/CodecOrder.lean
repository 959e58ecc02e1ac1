import AegisDB.Mvcc.CodecRoundTrip

/-! # MVCC keys sort by user key, then by descending timestamp

Readers position iterators by this order, so it is stated for byte strings of
every length, including keys that are prefixes of one another. -/

namespace AegisDB.Mvcc

open Foundation List

theorem encPad_le (byte : UInt8) : encPad ≤ byte := by
  rw [encPad, UInt8.le_iff_toNat_le]
  exact Nat.zero_le _

/-! ## Groups and their markers -/

def groupMarker (count : Nat) : UInt8 := encMarker - UInt8.ofNat (encGroupSize - count)

theorem groupMarker_toNat {count : Nat} (fits : count ≤ encGroupSize) :
    (groupMarker count).toNat = 247 + count := by
  have padding : (UInt8.ofNat (encGroupSize - count)).toNat = encGroupSize - count := by
    rw [UInt8.toNat_ofNat', Nat.mod_eq_of_lt]
    simp only [encGroupSize]
    omega
  have le : UInt8.ofNat (encGroupSize - count) ≤ encMarker := by
    rw [UInt8.le_iff_toNat_le, padding, encMarker]
    simp only [encGroupSize]
    change 8 - count ≤ 255
    omega
  rw [groupMarker, UInt8.toNat_sub_of_le _ _ le, padding, encMarker]
  simp only [encGroupSize] at *
  change 255 - (8 - count) = 247 + count
  omega

theorem groupMarker_lt_iff {left right : Nat} (leftFits : left ≤ encGroupSize)
    (rightFits : right ≤ encGroupSize) :
    groupMarker left < groupMarker right ↔ left < right := by
  rw [UInt8.lt_iff_toNat_lt, groupMarker_toNat leftFits, groupMarker_toNat rightFits]
  omega

theorem groupMarker_inj {left right : Nat} (leftFits : left ≤ encGroupSize)
    (rightFits : right ≤ encGroupSize) :
    groupMarker left = groupMarker right ↔ left = right := by
  rw [← UInt8.toNat_inj, groupMarker_toNat leftFits, groupMarker_toNat rightFits]
  omega

theorem encMarker_eq : encMarker = groupMarker encGroupSize := by decide

theorem group_lt_iff {left right : Bytes} (leftFits : left.length ≤ encGroupSize)
    (rightFits : right.length ≤ encGroupSize) (leftRest rightRest : Bytes) :
    padded encPad encGroupSize left ++ groupMarker left.length :: leftRest <
        padded encPad encGroupSize right ++ groupMarker right.length :: rightRest ↔
      left < right ∨ left = right ∧ leftRest < rightRest := by
  have sameLength : (padded encPad encGroupSize left).length =
      (padded encPad encGroupSize right).length := by
    rw [padded_length leftFits, padded_length rightFits]
  have equalIff : padded encPad encGroupSize left = padded encPad encGroupSize right ∧
      left.length = right.length ↔ left = right := by
    constructor
    · rintro ⟨equal, lengths⟩
      exact (append_inj equal lengths).1
    · rintro rfl
      exact ⟨rfl, rfl⟩
  rw [append_lt_append_iff sameLength, cons_lt_cons_iff,
    groupMarker_lt_iff leftFits rightFits, groupMarker_inj leftFits rightFits,
    lt_iff_padded_lt encPad_le leftFits rightFits, ← equalIff]
  tauto

/-! ## Whole keys -/

theorem encodeBytes_of_short_marker {data : Bytes} (short : data.length < encGroupSize)
    (rest : Bytes) :
    encodeBytes data ++ rest =
      padded encPad encGroupSize data ++ groupMarker data.length :: rest := by
  rw [encodeBytes_of_short short, groupMarker]
  simp

theorem encodeBytes_append_marker {group : Bytes} (full : group.length = encGroupSize)
    (tail rest : Bytes) :
    encodeBytes (group ++ tail) ++ rest =
      padded encPad encGroupSize group ++
        groupMarker group.length :: (encodeBytes tail ++ rest) := by
  rw [encodeBytes_append full, encMarker_eq, ← full, padded_of_length_eq]
  simp

theorem encodeBytes_append_lt_iff (left right leftRest rightRest : Bytes) :
    encodeBytes left ++ leftRest < encodeBytes right ++ rightRest ↔
      left < right ∨ left = right ∧ leftRest < rightRest := by
  induction left using groupInduction generalizing right with
  | short left leftShort =>
    induction right using groupInduction with
    | short right rightShort =>
      rw [encodeBytes_of_short_marker leftShort, encodeBytes_of_short_marker rightShort]
      exact group_lt_iff leftShort.le rightShort.le _ _
    | append group tail full _ =>
      have shorter : left.length < group.length := by omega
      have notGroup : left ≠ group := by
        rintro rfl
        omega
      have notWhole : left ≠ group ++ tail := by
        rintro rfl
        rw [length_append] at leftShort
        omega
      rw [encodeBytes_of_short_marker leftShort, encodeBytes_append_marker full,
        group_lt_iff leftShort.le full.le, lt_append_iff_of_length_lt shorter]
      simp [notGroup, notWhole]
  | append group tail full induction =>
    induction right using groupInduction with
    | short right rightShort =>
      have shorter : right.length < group.length := by omega
      have notGroup : group ≠ right := by
        rintro rfl
        omega
      have notWhole : group ++ tail ≠ right := by
        rintro rfl
        rw [length_append] at rightShort
        omega
      rw [encodeBytes_append_marker full, encodeBytes_of_short_marker rightShort,
        group_lt_iff full.le rightShort.le, append_lt_iff_of_length_lt shorter]
      simp [notGroup, notWhole]
    | append otherGroup otherTail otherFull _ =>
      have sameLength : group.length = otherGroup.length := by omega
      rw [encodeBytes_append_marker full, encodeBytes_append_marker otherFull,
        group_lt_iff full.le otherFull.le, induction,
        append_lt_append_iff sameLength, append_eq_append_iff_of_size_eq_left sameLength]
      tauto

/-! ## Timestamps -/

theorem u64ToBeBytes_lt_iff (left right : UInt64) :
    u64ToBeBytes left < u64ToBeBytes right ↔ left < right := by
  have leftBound : left.toNat < 256 ^ 8 := left.toNat_lt
  have rightBound : right.toNat < 256 ^ 8 := right.toNat_lt
  rw [← fromBeBytes_lt_iff (by simp), u64ToBeBytes, u64ToBeBytes, fromBeBytes_toBeBytes,
    fromBeBytes_toBeBytes, Nat.mod_eq_of_lt leftBound, Nat.mod_eq_of_lt rightBound,
    UInt64.lt_iff_toNat_lt]

theorem complement_lt_iff (left right : UInt64) : ~~~left < ~~~right ↔ right < left := by
  have leftBound := left.toNat_lt
  have rightBound := right.toNat_lt
  rw [UInt64.lt_iff_toNat_lt, UInt64.lt_iff_toNat_lt, UInt64.toNat_not, UInt64.toNat_not]
  simp only [UInt64.size] at *
  omega

theorem encodeKey_lt_iff (leftKey rightKey : Bytes) (leftTs rightTs : UInt64) :
    encodeKey leftKey leftTs < encodeKey rightKey rightTs ↔
      leftKey < rightKey ∨ leftKey = rightKey ∧ rightTs < leftTs := by
  rw [encodeKey, encodeKey, encodeBytes_append_lt_iff, u64ToBeBytes_lt_iff, complement_lt_iff]

theorem encodeKey_inj {leftKey rightKey : Bytes} {leftTs rightTs : UInt64} :
    encodeKey leftKey leftTs = encodeKey rightKey rightTs ↔
      leftKey = rightKey ∧ leftTs = rightTs := by
  constructor
  · intro equal
    have leftDecodes := decodeTimestamp_encodeKey leftKey leftTs
    rw [equal, decodeTimestamp_encodeKey] at leftDecodes
    exact ⟨(encodeBytes_prefix_free equal).1, (Except.ok.inj leftDecodes).symm⟩
  · rintro ⟨rfl, rfl⟩
    rfl

/-- MVCC keys are ordered by user key and, within one user key, from the newest
timestamp to the oldest, so the versions of a key stand together. -/
theorem encodeKey_order (leftKey rightKey : Bytes) (leftTs rightTs : UInt64) :
    (encodeKey leftKey leftTs < encodeKey rightKey rightTs ↔
      leftKey < rightKey ∨ leftKey = rightKey ∧ rightTs < leftTs) ∧
    (encodeKey leftKey leftTs = encodeKey rightKey rightTs ↔
      leftKey = rightKey ∧ leftTs = rightTs) ∧
    (∀ middleKey middleTs, leftKey = rightKey ∧
      encodeKey leftKey leftTs ≤ encodeKey middleKey middleTs ∧
      encodeKey middleKey middleTs ≤ encodeKey rightKey rightTs → middleKey = leftKey) := by
  refine ⟨encodeKey_lt_iff _ _ _ _, encodeKey_inj, ?_⟩
  rintro middleKey middleTs ⟨rfl, lower, upper⟩
  have between := isPrefix_of_between (prefix_append _ _) (prefix_append _ _) lower upper
  have decodes := decodeUserKey_eq_ok_iff.mpr between
  rw [encodeKey, decodeUserKey_encodeBytes] at decodes
  exact Except.ok.inj decodes

end AegisDB.Mvcc
