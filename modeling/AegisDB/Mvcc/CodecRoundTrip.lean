import AegisDB.Mvcc.Codec

/-! # Decoding inverts encoding

`decode_bytes` accepts exactly the byte strings that start with an encoding, and
never indexes out of range. The two loops are first rewritten group by group. -/

namespace AegisDB.Mvcc

open Foundation List

/-! ## The encoder, group by group -/

def encodeGroups (data : Bytes) : Bytes :=
  if data.length < encGroupSize then
    padded encPad encGroupSize data ++
      [encMarker - UInt8.ofNat (encGroupSize - data.length)]
  else
    data.take encGroupSize ++ encMarker :: encodeGroups (data.drop encGroupSize)
termination_by data.length
decreasing_by simp only [length_drop, encGroupSize] at *; omega

theorem encodeBytesFrom_eq (data : Bytes) (idx : Nat) (result : Bytes)
    (within : idx ≤ data.length) :
    encodeBytesFrom data idx result = result ++ encodeGroups (data.drop idx) := by
  fun_induction encodeBytesFrom data idx result with
  | case1 idx result _ remain full induction =>
    have notShort : ¬ (data.drop idx).length < encGroupSize := by
      rw [length_drop]
      omega
    rw [induction (by omega)]
    conv_rhs => rw [encodeGroups, if_neg notShort, drop_drop]
    simp
  | case2 idx result _ remain notFull pad _ =>
    have short : (data.drop idx).length < encGroupSize := by
      rw [length_drop]
      omega
    have outside : ¬ idx + encGroupSize ≤ data.length := by omega
    rw [encodeBytesFrom, if_neg outside, encodeGroups, if_pos short]
    simp [padded, pad, remain]
  | case3 idx result outside => exact absurd within outside

theorem encodeBytes_eq (data : Bytes) : encodeBytes data = encodeGroups data := by
  simpa [encodeBytes] using encodeBytesFrom_eq data 0 [] (Nat.zero_le _)

variable {group : Bytes}

theorem encodeBytes_append (full : group.length = encGroupSize) (rest : Bytes) :
    encodeBytes (group ++ rest) = group ++ encMarker :: encodeBytes rest := by
  have notShort : ¬ (group ++ rest).length < encGroupSize := by
    rw [length_append, full]
    omega
  rw [encodeBytes_eq, encodeGroups, if_neg notShort, ← full, encodeBytes_eq]
  simp

variable {data : Bytes}

theorem encodeBytes_of_short (short : data.length < encGroupSize) :
    encodeBytes data = padded encPad encGroupSize data ++
      [encMarker - UInt8.ofNat (encGroupSize - data.length)] := by
  rw [encodeBytes_eq, encodeGroups, if_pos short]

theorem groupInduction {motive : Bytes → Prop}
    (short : ∀ data : Bytes, data.length < encGroupSize → motive data)
    (append : ∀ group rest : Bytes, group.length = encGroupSize →
      motive rest → motive (group ++ rest)) (data : Bytes) : motive data := by
  induction size : data.length using Nat.strong_induction_on generalizing data with
  | h size induction =>
    subst size
    by_cases fewer : data.length < encGroupSize
    · exact short data fewer
    · have split : data.take encGroupSize ++ data.drop encGroupSize = data :=
        take_append_drop _ _
      rw [← split]
      apply append
      · rw [length_take]
        omega
      · apply induction _ _ _ rfl
        rw [length_drop]
        simp only [encGroupSize] at *
        omega

/-! ## The decoder, group by group -/

variable {b : Bytes} {offset : Nat}

theorem decodeGroup_of_short (within : offset ≤ b.length)
    (short : b.length < offset + (encGroupSize + 1)) :
    decodeGroup b offset = .error (.error "insufficient bytes to decode value") := by
  have few : b.length - offset < encGroupSize + 1 := by omega
  unfold decodeGroup
  rw [checkedSub_eq_ok within]
  simp only [bind, Except.bind, few, if_true]
  rfl

variable {marker : UInt8}

theorem decodeGroup_of_group {rest : Bytes} (within : offset ≤ b.length)
    (present : b.drop offset = group ++ marker :: rest) (full : group.length = encGroupSize) :
    decodeGroup b offset =
      if (encMarker - marker).toNat > encGroupSize then
        .error (.error "invalid marker byte")
      else if (encMarker - marker).toNat ≠ 0 ∧
          ¬ (group.drop (encGroupSize - (encMarker - marker).toNat)).all (· == encPad) then
        .error (.error "invalid padding byte")
      else
        .ok (group.take (encGroupSize - (encMarker - marker).toNat),
          (encMarker - marker).toNat) := by
  have sizes : b.length - offset = encGroupSize + 1 + rest.length := by
    rw [← length_drop, present, length_append, length_cons, full]
    omega
  have enough : ¬ b.length - offset < encGroupSize + 1 := by omega
  have groupBytes : slice b offset (offset + encGroupSize + 1) = .ok (group ++ [marker]) := by
    have width : offset + encGroupSize + 1 - offset = encGroupSize + 1 := by omega
    rw [slice_eq_ok (by omega) (by omega), present, width, ← full,
      take_append, take_of_length_le (by omega)]
    simp
  have wholeGroup : slice (group ++ [marker]) 0 encGroupSize = .ok group := by
    rw [slice_eq_ok (by omega) (by simp [full]), ← full]
    simp
  have markerByte : elementAt (group ++ [marker]) encGroupSize = .ok marker :=
    elementAt_eq_ok (by simp [← full])
  unfold decodeGroup
  rw [checkedSub_eq_ok within]
  simp only [bind, Except.bind, enough, if_false, pure, Except.pure, groupBytes, wholeGroup,
    markerByte]
  generalize (encMarker - marker).toNat = padCount
  by_cases tooLarge : padCount > encGroupSize
  · simp only [tooLarge, if_true]
    rfl
  · have real : slice group 0 (encGroupSize - padCount) =
        .ok (group.take (encGroupSize - padCount)) := by
      rw [slice_eq_ok (by omega) (by omega)]
      simp
    have padding : slice group (encGroupSize - padCount) encGroupSize =
        .ok (group.drop (encGroupSize - padCount)) := by
      rw [slice_eq_ok (by omega) (by omega), take_of_length_le]
      rw [length_drop]
      omega
    simp only [tooLarge, if_false, real, padding]
    split <;> rfl

theorem exists_group (enough : offset + encGroupSize + 1 ≤ b.length) :
    ∃ group marker rest, b.drop offset = group ++ marker :: rest ∧
      group.length = encGroupSize := by
  have inRange : encGroupSize < (b.drop offset).length := by
    rw [length_drop]
    omega
  refine ⟨(b.drop offset).take encGroupSize, (b.drop offset)[encGroupSize],
    (b.drop offset).drop (encGroupSize + 1), ?_, ?_⟩
  · rw [getElem_cons_drop, take_append_drop]
  · rw [length_take]
    omega

theorem marker_complement :
    encMarker - UInt8.ofNat (encMarker - marker).toNat = marker := by
  rw [UInt8.ofNat_toNat, encMarker]
  grind

variable {padCount : Nat}

theorem marker_toNat (small : padCount ≤ encGroupSize) :
    (encMarker - (encMarker - UInt8.ofNat padCount)).toNat = padCount := by
  have bound : padCount < 256 := by
    simp only [encGroupSize] at small
    omega
  have cancel : encMarker - (encMarker - UInt8.ofNat padCount) = UInt8.ofNat padCount := by
    rw [encMarker]
    grind
  rw [cancel, UInt8.toNat_ofNat', Nat.mod_eq_of_lt bound]

theorem decodeGroup_eq_ok_iff {real : Bytes} (within : offset ≤ b.length) :
    decodeGroup b offset = .ok (real, padCount) ↔
      padCount ≤ encGroupSize ∧ real.length = encGroupSize - padCount ∧
        ∃ rest, b.drop offset = padded encPad encGroupSize real ++
          (encMarker - UInt8.ofNat padCount) :: rest := by
  constructor
  · intro decoded
    rcases exists_group (offset_le_of_decodeGroup decoded) with
      ⟨group, marker, rest, present, full⟩
    rw [decodeGroup_of_group within present full] at decoded
    split at decoded
    · cases decoded
    · rename_i small
      split at decoded
      · cases decoded
      · rename_i paddingOk
        simp only [Except.ok.injEq, Prod.mk.injEq] at decoded
        rcases decoded with ⟨rfl, rfl⟩
        have paddingZero : group.drop (encGroupSize - (encMarker - marker).toNat) =
            List.replicate (encMarker - marker).toNat encPad := by
          apply eq_replicate_iff.mpr
          constructor
          · rw [length_drop]
            omega
          · intro byte member
            by_cases unpadded : (encMarker - marker).toNat = 0
            · rw [unpadded, drop_eq_nil_of_le (by omega)] at member
              cases member
            · simp only [not_and, not_not] at paddingOk
              simpa using all_eq_true.mp (paddingOk unpadded) byte member
        have realLength : (group.take (encGroupSize - (encMarker - marker).toNat)).length =
            encGroupSize - (encMarker - marker).toNat := by
          rw [length_take]
          omega
        have groupEq : padded encPad encGroupSize
            (group.take (encGroupSize - (encMarker - marker).toNat)) = group := by
          have padLength : encGroupSize - (encGroupSize - (encMarker - marker).toNat) =
              (encMarker - marker).toNat := by omega
          rw [padded, realLength, padLength, ← paddingZero, take_append_drop]
        exact ⟨by omega, realLength, rest, by rw [groupEq, marker_complement, present]⟩
  · rintro ⟨small, realLength, rest, present⟩
    have full : (padded encPad encGroupSize real).length = encGroupSize :=
      padded_length (by omega)
    have realFirst : (padded encPad encGroupSize real).take (encGroupSize - padCount) = real := by
      rw [padded, ← realLength]
      simp
    have paddingLast : (padded encPad encGroupSize real).drop (encGroupSize - padCount) =
        List.replicate (encGroupSize - real.length) encPad := by
      rw [padded, ← realLength]
      simp
    rw [decodeGroup_of_group within present full, marker_toNat small]
    simp [realFirst, paddingLast, small]

/-! ## Whole byte strings -/

theorem decodeBytesFrom_of_encoded (decoded : Bytes) :
    ∀ (data : Bytes) {b rest : Bytes} {offset : Nat}, offset ≤ b.length →
      b.drop offset = encodeBytes decoded ++ rest →
      decodeBytesFrom b data offset =
        .ok (data ++ decoded, offset + (encodeBytes decoded).length) := by
  induction decoded using groupInduction with
  | short decoded short =>
    intro data b rest offset within present
    have padPositive : encGroupSize - decoded.length ≠ 0 := by omega
    have group : decodeGroup b offset = .ok (decoded, encGroupSize - decoded.length) := by
      apply (decodeGroup_eq_ok_iff within).mpr
      refine ⟨by omega, by omega, rest, ?_⟩
      rw [present, encodeBytes_of_short short]
      simp
    rw [decodeBytesFrom]
    split
    · simp_all
    · rename_i real padCount same
      rw [group] at same
      rcases Prod.mk.inj (Except.ok.inj same) with ⟨rfl, rfl⟩
      rw [if_pos padPositive, encodeBytes_of_short short, length_append,
        padded_length (by omega)]
      simp
  | append group tail full induction =>
    intro data b rest offset within present
    rw [encodeBytes_append full] at present ⊢
    have wholeGroup : padded encPad encGroupSize group = group := by
      rw [← full]
      simp
    have decodedGroup : decodeGroup b offset = .ok (group, 0) := by
      apply (decodeGroup_eq_ok_iff within).mpr
      refine ⟨by omega, by omega, encodeBytes tail ++ rest, ?_⟩
      rw [present, wholeGroup]
      simp
    have bound := offset_le_of_decodeGroup decodedGroup
    have advanced : b.drop (offset + (encGroupSize + 1)) = encodeBytes tail ++ rest := by
      rw [← drop_drop, present, ← full]
      simp
    have later := induction (data ++ group) (by omega) advanced
    rw [decodeBytesFrom]
    split
    · simp_all
    · rename_i real padCount same
      rw [decodedGroup] at same
      rcases Prod.mk.inj (Except.ok.inj same) with ⟨rfl, rfl⟩
      simp only [ne_eq, not_true, if_false, later, append_assoc, length_append,
        length_cons, full]
      congr 2
      omega

variable {consumed : Nat}

theorem encoded_of_decodeBytesFrom {result : Bytes} (within : offset ≤ b.length)
    (decodes : decodeBytesFrom b data offset = .ok (result, consumed)) :
    ∃ decoded rest, result = data ++ decoded ∧
      b.drop offset = encodeBytes decoded ++ rest ∧
      consumed = offset + (encodeBytes decoded).length := by
  fun_induction decodeBytesFrom b data offset with
  | case1 data offset fault failed => cases decodes
  | case2 data offset real padCount group padded =>
    rcases (decodeGroup_eq_ok_iff within).mp group with ⟨small, realLength, rest, present⟩
    have short : real.length < encGroupSize := by omega
    have padLength : encGroupSize - real.length = padCount := by omega
    rcases Prod.mk.inj (Except.ok.inj decodes) with ⟨rfl, rfl⟩
    refine ⟨real, rest, rfl, ?_, ?_⟩
    · rw [present, encodeBytes_of_short short, padLength]
      simp
    · rw [encodeBytes_of_short short, length_append, padded_length (by omega)]
      simp
  | case3 data offset real padCount group unpadded induction =>
    rcases (decodeGroup_eq_ok_iff within).mp group with ⟨small, realLength, rest, present⟩
    have padZero : padCount = 0 := by simpa using unpadded
    subst padZero
    have full : real.length = encGroupSize := by simpa using realLength
    have wholeGroup : padded encPad encGroupSize real = real := by
      rw [← full]
      simp
    have bound := offset_le_of_decodeGroup group
    rcases induction (by omega) decodes with ⟨decoded, tail, rfl, advanced, rfl⟩
    refine ⟨real ++ decoded, tail, by simp, ?_, ?_⟩
    · rw [wholeGroup] at present
      rw [← drop_drop, present, ← full] at advanced
      rw [present, encodeBytes_append full]
      simpa using advanced
    · rw [encodeBytes_append full, length_append, length_cons, full]
      omega

theorem decodeBytes_eq_ok_iff :
    decodeBytes b = .ok (data, consumed) ↔
      b.take consumed = encodeBytes data ∧ consumed = (encodeBytes data).length := by
  constructor
  · intro decodes
    rcases encoded_of_decodeBytesFrom (Nat.zero_le _) decodes with
      ⟨decoded, rest, rfl, present, rfl⟩
    rw [drop_zero] at present
    simp [present]
  · rintro ⟨taken, rfl⟩
    have present : b.drop 0 = encodeBytes data ++ b.drop (encodeBytes data).length := by
      rw [drop_zero]
      conv_lhs => rw [← take_append_drop (encodeBytes data).length b, taken]
    simpa [decodeBytes] using
      decodeBytesFrom_of_encoded data [] (Nat.zero_le _) present

theorem encodeBytes_prefix_free {left right leftRest rightRest : Bytes}
    (equal : encodeBytes left ++ leftRest = encodeBytes right ++ rightRest) :
    left = right ∧ leftRest = rightRest := by
  have leftDecodes : decodeBytes (encodeBytes left ++ leftRest) =
      .ok (left, (encodeBytes left).length) :=
    decodeBytes_eq_ok_iff.mpr ⟨by simp, rfl⟩
  have rightDecodes : decodeBytes (encodeBytes right ++ rightRest) =
      .ok (right, (encodeBytes right).length) :=
    decodeBytes_eq_ok_iff.mpr ⟨by simp, rfl⟩
  rw [equal, rightDecodes] at leftDecodes
  have same : right = left := (Prod.mk.inj (Except.ok.inj leftDecodes)).1
  subst same
  exact ⟨rfl, append_cancel_left equal⟩

theorem decodeUserKey_encodeBytes (key rest : Bytes) :
    decodeUserKey (encodeBytes key ++ rest) = .ok key := by
  have decodes : decodeBytes (encodeBytes key ++ rest) = .ok (key, (encodeBytes key).length) :=
    decodeBytes_eq_ok_iff.mpr ⟨by simp, rfl⟩
  rw [decodeUserKey, decodes]
  rfl

theorem decodeUserKey_eq_ok_iff {key : Bytes} :
    decodeUserKey b = .ok key ↔ encodeBytes key <+: b := by
  constructor
  · intro decodes
    unfold decodeUserKey at decodes
    cases outcome : decodeBytes b with
    | error fault =>
      rw [outcome] at decodes
      cases decodes
    | ok result =>
      rw [outcome] at decodes
      rcases Except.ok.inj decodes with rfl
      rcases decodeBytes_eq_ok_iff.mp outcome with ⟨taken, _⟩
      exact taken ▸ take_prefix _ _
  · rintro ⟨rest, rfl⟩
    exact decodeUserKey_encodeBytes key rest

/-! ## Timestamps -/

@[simp] theorem u64ToBeBytes_length (value : UInt64) : (u64ToBeBytes value).length = 8 :=
  toBeBytes_length _ _

@[simp] theorem u64FromBeBytes_toBeBytes (value : UInt64) :
    u64FromBeBytes (u64ToBeBytes value) = value := by
  have bound : value.toNat < 256 ^ 8 := value.toNat_lt
  rw [u64FromBeBytes, u64ToBeBytes, fromBeBytes_toBeBytes, Nat.mod_eq_of_lt bound,
    UInt64.ofNat_toNat]

theorem u64ToBeBytes_inj {left right : UInt64} (same : u64ToBeBytes left = u64ToBeBytes right) :
    left = right := by
  rw [← u64FromBeBytes_toBeBytes left, same, u64FromBeBytes_toBeBytes]

theorem u64ToBeBytes_fromBeBytes {bytes : Bytes} (length : bytes.length = 8) :
    u64ToBeBytes (u64FromBeBytes bytes) = bytes := by
  have bound : fromBeBytes bytes < 2 ^ 64 := by
    have := fromBeBytes_lt bytes
    rwa [length] at this
  have back := toBeBytes_fromBeBytes bytes
  rw [u64ToBeBytes, u64FromBeBytes, UInt64.toNat_ofNat_of_lt' bound]
  rwa [length] at back

@[simp] theorem decodeUserKey_encodeKey (key : Bytes) (ts : UInt64) :
    decodeUserKey (encodeKey key ts) = .ok key :=
  decodeUserKey_encodeBytes key _

@[simp] theorem decodeTimestamp_encodeKey (key : Bytes) (ts : UInt64) :
    decodeTimestamp (encodeKey key ts) = .ok ts := by
  have decodes : decodeBytes (encodeKey key ts) = .ok (key, (encodeBytes key).length) :=
    decodeBytes_eq_ok_iff.mpr ⟨by simp [encodeKey], rfl⟩
  have enough : ¬ (encodeKey key ts).length < (encodeBytes key).length + 8 := by
    simp [encodeKey]
  have tsBytes : slice (encodeKey key ts) (encodeBytes key).length
      ((encodeBytes key).length + 8) = .ok (u64ToBeBytes (~~~ts)) := by
    rw [slice_eq_ok (by omega) (by omega), encodeKey]
    simp [take_of_length_le]
  unfold decodeTimestamp
  rw [decodes]
  simp only [bind, Except.bind, enough, if_false, pure, Except.pure, tsBytes,
    u64FromBeBytes_toBeBytes]
  simp

/-! ## No input makes the decoders panic -/

theorem decodeGroup_noPanic (within : offset ≤ b.length) :
    (decodeGroup b offset).NoPanic := by
  by_cases short : b.length < offset + (encGroupSize + 1)
  · rw [decodeGroup_of_short within short]
    exact Fallible.noPanic_error _
  · have enough : offset + encGroupSize + 1 ≤ b.length := by omega
    rcases exists_group enough with ⟨group, marker, rest, present, full⟩
    rw [decodeGroup_of_group within present full]
    split
    · exact Fallible.noPanic_error _
    · split
      · exact Fallible.noPanic_error _
      · exact Fallible.noPanic_ok _

theorem decodeBytesFrom_noPanic (within : offset ≤ b.length) :
    (decodeBytesFrom b data offset).NoPanic := by
  fun_induction decodeBytesFrom b data offset with
  | case1 data offset fault failed =>
    intro message panics
    exact decodeGroup_noPanic within message (by rw [failed]; exact panics)
  | case2 data offset real padCount group padded => exact Fallible.noPanic_ok _
  | case3 data offset real padCount group unpadded induction =>
    exact induction (offset_le_of_decodeGroup group)

theorem decodeBytes_noPanic (b : Bytes) : (decodeBytes b).NoPanic :=
  decodeBytesFrom_noPanic (Nat.zero_le _)

theorem decodeUserKey_noPanic (b : Bytes) : (decodeUserKey b).NoPanic :=
  (decodeBytes_noPanic b).bind fun _ => Fallible.noPanic_ok _

theorem decodeTimestamp_noPanic (b : Bytes) : (decodeTimestamp b).NoPanic := by
  refine (decodeBytes_noPanic b).bind fun ⟨_, consumed⟩ => ?_
  by_cases short : b.length < consumed + 8
  · simp only [short, if_true]
    exact Fallible.noPanic_error _
  · simp only [short, if_false, slice_eq_ok (Nat.le_add_right consumed 8) (not_lt.mp short)]
    exact Fallible.noPanic_ok _

/-- `decode_bytes` accepts exactly the encodings, whatever bytes follow them: the
format round-trips in both directions, is unambiguous, and no input takes a decoder
out of range. -/
theorem decodeBytes_exact :
    (∀ (b data : Bytes) (consumed : Nat), decodeBytes b = .ok (data, consumed) ↔
      b.take consumed = encodeBytes data ∧ consumed = (encodeBytes data).length) ∧
    (∀ (key : Bytes) (ts : UInt64), decodeUserKey (encodeKey key ts) = .ok key ∧
      decodeTimestamp (encodeKey key ts) = .ok ts) ∧
    (∀ (b left right : Bytes), encodeBytes left <+: b ∧ encodeBytes right <+: b →
      left = right) ∧
    (∀ b : Bytes, (decodeBytes b).NoPanic ∧ (decodeUserKey b).NoPanic ∧
      (decodeTimestamp b).NoPanic) := by
  refine ⟨fun b data consumed => decodeBytes_eq_ok_iff, fun key ts => ?_, ?_, fun b => ?_⟩
  · exact ⟨decodeUserKey_encodeBytes key _, decodeTimestamp_encodeKey key ts⟩
  · rintro b left right ⟨⟨leftRest, rfl⟩, ⟨rightRest, equal⟩⟩
    exact (encodeBytes_prefix_free equal).1.symm
  · exact ⟨decodeBytes_noPanic b, decodeUserKey_noPanic b, decodeTimestamp_noPanic b⟩

end AegisDB.Mvcc
