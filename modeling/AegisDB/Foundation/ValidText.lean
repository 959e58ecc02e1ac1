import AegisDB.Foundation.LossyText
import Mathlib.Data.List.TakeWhile

/-! # Valid text

Byte strings that are UTF-8 throughout. Their lossy reading loses nothing: encoding the
characters again gives the bytes back. -/

namespace Foundation

open List

def validUtf8 : Bytes → Bool
  | [] => true
  | lead :: rest =>
    let others := takeSequence lead rest
    others.length + 1 == sequenceWidth lead && validUtf8 (rest.drop others.length)
termination_by bytes => bytes.length
decreasing_by simp only [length_cons, length_drop]; omega

theorem validUtf8_nil : validUtf8 [] = true := by
  rw [validUtf8]

def encodeScalar (scalar : Nat) : Bytes :=
  if scalar < 0x80 then
    [UInt8.ofNat scalar]
  else if scalar < 0x800 then
    [UInt8.ofNat (0xC0 + scalar / 64), UInt8.ofNat (0x80 + scalar % 64)]
  else if scalar < 0x10000 then
    [UInt8.ofNat (0xE0 + scalar / 4096), UInt8.ofNat (0x80 + scalar / 64 % 64),
      UInt8.ofNat (0x80 + scalar % 64)]
  else
    [UInt8.ofNat (0xF0 + scalar / 262144), UInt8.ofNat (0x80 + scalar / 4096 % 64),
      UInt8.ofNat (0x80 + scalar / 64 % 64), UInt8.ofNat (0x80 + scalar % 64)]

def lossyBytes (bytes : Bytes) : Bytes :=
  (lossyCharacters bytes).flatMap fun character => encodeScalar character.toNat

/-! ## One sequence -/

theorem takeSequence_isPrefix (lead : UInt8) (rest : Bytes) : takeSequence lead rest <+: rest := by
  rw [takeSequence]
  have taken := take_prefix (sequenceWidth lead - 1) rest
  split
  · exact nil_prefix
  · rename_i second others same
    rw [same] at taken
    split
    · exact (cons_prefix_cons.mpr ⟨rfl, takeWhile_prefix _⟩).trans taken
    · exact nil_prefix

structure IsSequence (lead : UInt8) (others : Bytes) : Prop where
  width : others.length + 1 = sequenceWidth lead
  second : ∀ second ∈ others.head?, isSecond lead second = true
  following : ∀ byte ∈ others.tail, isContinuation byte = true

variable {lead : UInt8} {rest : Bytes}

theorem isSequence_takeSequence (width : (takeSequence lead rest).length + 1 = sequenceWidth lead) :
    IsSequence lead (takeSequence lead rest) := by
  refine ⟨width, ?_, ?_⟩
  · rw [takeSequence]
    split
    · simp
    · split <;> simp_all
  · rw [takeSequence]
    split
    · simp
    · split
      · intro byte member
        exact mem_takeWhile_imp member
      · simp

theorem lead_of_width {width : Nat} (same : sequenceWidth lead = width) :
    (width = 0) ∨ (width = 1 ∧ lead.toNat < 0x80) ∨
      (width = 2 ∧ 0xC2 ≤ lead.toNat ∧ lead.toNat ≤ 0xDF) ∨
      (width = 3 ∧ 0xE0 ≤ lead.toNat ∧ lead.toNat ≤ 0xEF) ∨
      (width = 4 ∧ 0xF0 ≤ lead.toNat ∧ lead.toNat ≤ 0xF4) := by
  rw [sequenceWidth] at same
  simp only [UInt8.lt_iff_toNat_lt, UInt8.le_iff_toNat_le, Bool.and_eq_true, decide_eq_true_eq]
    at same
  simp only [UInt8.reduceToNat] at same
  split at same
  · omega
  · split at same
    · omega
    · split at same
      · omega
      · split at same <;> omega

variable {byte : UInt8}

theorem isContinuation_iff :
    isContinuation byte = true ↔ 0x80 ≤ byte.toNat ∧ byte.toNat ≤ 0xBF := by
  simp [isContinuation, UInt8.le_iff_toNat_le]

theorem second_bounds {second : UInt8} (isSecond : isSecond lead second = true) :
    0x80 ≤ second.toNat ∧ second.toNat ≤ 0xBF ∧
      (lead.toNat = 0xE0 → 0xA0 ≤ second.toNat) ∧ (lead.toNat = 0xED → second.toNat ≤ 0x9F) ∧
      (lead.toNat = 0xF0 → 0x90 ≤ second.toNat) ∧ (lead.toNat = 0xF4 → second.toNat ≤ 0x8F) := by
  have same : ∀ number : UInt8, (lead = number) = (lead.toNat = number.toNat) := fun number =>
    propext UInt8.toNat_inj.symm
  rw [Foundation.isSecond] at isSecond
  simp only [same, UInt8.le_iff_toNat_le, UInt8.reduceToNat, isContinuation] at isSecond
  split_ifs at isSecond <;> simp only [Bool.and_eq_true, decide_eq_true_eq] at isSecond <;> omega

theorem toNat_ofNat {scalar : Nat} (isValid : scalar.isValidChar) :
    (Char.ofNat scalar).toNat = scalar := by
  rw [Char.ofNat, dif_pos isValid]
  rfl

theorem ofNat_eq (byte : UInt8) {number : Nat} (same : number = byte.toNat) :
    UInt8.ofNat number = byte := by
  rw [same, UInt8.ofNat_toNat]

/-! The bytes of a sequence can be read off its scalar value, for each width. -/

section Scalars

variable {lead second third fourth : UInt8}

theorem encodeScalar_one (leadBound : lead.toNat < 0x80) :
    encodeScalar (scalarValue lead []) = [lead] ∧ (scalarValue lead []).isValidChar := by
  have value : scalarValue lead [] = lead.toNat := rfl
  rw [value, encodeScalar, if_pos leadBound, ofNat_eq lead rfl]
  exact ⟨rfl, .inl (by omega)⟩

theorem encodeScalar_two (leadBounds : 0xC2 ≤ lead.toNat ∧ lead.toNat ≤ 0xDF)
    (secondBounds : 0x80 ≤ second.toNat ∧ second.toNat ≤ 0xBF) :
    encodeScalar (scalarValue lead [second]) = [lead, second] ∧
      (scalarValue lead [second]).isValidChar := by
  have value : scalarValue lead [second] = lead.toNat % 32 * 64 + second.toNat % 64 := rfl
  rw [value, encodeScalar, if_neg (by omega), if_pos (by omega), ofNat_eq lead (by omega),
    ofNat_eq second (by omega)]
  exact ⟨rfl, .inl (by omega)⟩

theorem encodeScalar_three (leadBounds : 0xE0 ≤ lead.toNat ∧ lead.toNat ≤ 0xEF)
    (secondBounds : 0x80 ≤ second.toNat ∧ second.toNat ≤ 0xBF)
    (notOverlong : lead.toNat = 0xE0 → 0xA0 ≤ second.toNat)
    (notSurrogate : lead.toNat = 0xED → second.toNat ≤ 0x9F)
    (thirdBounds : 0x80 ≤ third.toNat ∧ third.toNat ≤ 0xBF) :
    encodeScalar (scalarValue lead [second, third]) = [lead, second, third] ∧
      (scalarValue lead [second, third]).isValidChar := by
  have value : scalarValue lead [second, third] =
      (lead.toNat % 16 * 64 + second.toNat % 64) * 64 + third.toNat % 64 := rfl
  rw [value, encodeScalar, if_neg (by omega), if_neg (by omega), if_pos (by omega),
    ofNat_eq lead (by omega), ofNat_eq second (by omega), ofNat_eq third (by omega)]
  refine ⟨rfl, ?_⟩
  unfold Nat.isValidChar
  omega

theorem encodeScalar_four (leadBounds : 0xF0 ≤ lead.toNat ∧ lead.toNat ≤ 0xF4)
    (secondBounds : 0x80 ≤ second.toNat ∧ second.toNat ≤ 0xBF)
    (notOverlong : lead.toNat = 0xF0 → 0x90 ≤ second.toNat)
    (notBeyond : lead.toNat = 0xF4 → second.toNat ≤ 0x8F)
    (thirdBounds : 0x80 ≤ third.toNat ∧ third.toNat ≤ 0xBF)
    (fourthBounds : 0x80 ≤ fourth.toNat ∧ fourth.toNat ≤ 0xBF) :
    encodeScalar (scalarValue lead [second, third, fourth]) = [lead, second, third, fourth] ∧
      (scalarValue lead [second, third, fourth]).isValidChar := by
  have value : scalarValue lead [second, third, fourth] =
      ((lead.toNat % 8 * 64 + second.toNat % 64) * 64 + third.toNat % 64) * 64 +
        fourth.toNat % 64 := rfl
  rw [value, encodeScalar, if_neg (by omega), if_neg (by omega), if_neg (by omega),
    ofNat_eq lead (by omega), ofNat_eq second (by omega), ofNat_eq third (by omega),
    ofNat_eq fourth (by omega)]
  refine ⟨rfl, ?_⟩
  unfold Nat.isValidChar
  omega

end Scalars

theorem encodeScalar_scalarValue {others : Bytes} (isSequence : IsSequence lead others) :
    encodeScalar (scalarValue lead others) = lead :: others ∧
      (scalarValue lead others).isValidChar := by
  have width := lead_of_width isSequence.width.symm
  have isSecond := isSequence.second
  have continues := isSequence.following
  match others with
  | [] =>
    simp only [length_nil] at width
    exact encodeScalar_one (by omega)
  | [second] =>
    have secondBounds := second_bounds (isSecond second rfl)
    simp only [length_cons, length_nil] at width
    exact encodeScalar_two (by omega) ⟨secondBounds.1, secondBounds.2.1⟩
  | [second, third] =>
    rcases second_bounds (isSecond second rfl) with
      ⟨low, high, notOverlong, notSurrogate, _, _⟩
    have thirdBounds := isContinuation_iff.mp (continues third (by simp))
    simp only [length_cons, length_nil] at width
    exact encodeScalar_three (by omega) ⟨low, high⟩ notOverlong notSurrogate thirdBounds
  | [second, third, fourth] =>
    rcases second_bounds (isSecond second rfl) with ⟨low, high, _, _, notOverlong, notBeyond⟩
    have thirdBounds := isContinuation_iff.mp (continues third (by simp))
    have fourthBounds := isContinuation_iff.mp (continues fourth (by simp))
    simp only [length_cons, length_nil] at width
    exact encodeScalar_four (by omega) ⟨low, high⟩ notOverlong notBeyond thirdBounds fourthBounds
  | _ :: _ :: _ :: _ :: _ =>
    simp only [length_cons] at width
    omega

/-! ## Texts -/

variable {bytes : Bytes}

theorem encode_lossyCharacters (valid : validUtf8 bytes = true) :
    (lossyCharacters bytes).flatMap (fun character => encodeScalar character.toNat) = bytes := by
  fun_induction lossyCharacters bytes with
  | case1 => rfl
  | case2 lead rest others character induction =>
    rw [validUtf8, Bool.and_eq_true, beq_iff_eq] at valid
    rcases encodeScalar_scalarValue (isSequence_takeSequence valid.1) with ⟨encoded, isValid⟩
    rw [flatMap_cons, induction valid.2]
    have scalar : character.toNat = scalarValue lead others := by
      rw [show character = Char.ofNat (scalarValue lead others) from if_pos valid.1,
        toNat_ofNat isValid]
    rw [scalar, encoded, cons_append]
    congr 1
    exact prefix_iff_eq_append.mp (takeSequence_isPrefix lead rest)

theorem lossyBytes_of_valid (valid : validUtf8 bytes = true) :
    lossyBytes bytes = bytes :=
  encode_lossyCharacters valid

theorem lossyBytes_eq_nil_iff : lossyBytes bytes = [] ↔ bytes = [] := by
  cases bytes with
  | nil => simp [lossyBytes, lossyCharacters]
  | cons lead rest =>
    have encoded : ∀ scalar, encodeScalar scalar ≠ [] := by
      intro scalar
      rw [encodeScalar]
      split
      · simp
      · split
        · simp
        · split <;> simp
    simp [lossyBytes, lossyCharacters, encoded]

theorem lossyCharacters_injective {left right : Bytes} (leftValid : validUtf8 left = true)
    (rightValid : validUtf8 right = true) (same : lossyCharacters left = lossyCharacters right) :
    left = right := by
  rw [← encode_lossyCharacters leftValid, ← encode_lossyCharacters rightValid, same]

/-! ## Valid text at the front -/

theorem takeSequence_append
    (width : (takeSequence lead rest).length + 1 = sequenceWidth lead) (more : Bytes) :
    takeSequence lead (rest ++ more) = takeSequence lead rest := by
  have long : sequenceWidth lead - 1 ≤ rest.length := by
    have := (takeSequence_isPrefix lead rest).length_le
    omega
  rw [takeSequence, takeSequence, take_append_of_le_length long]

variable {text : Bytes}

theorem lossyCharacters_append (valid : validUtf8 text = true) (more : Bytes) :
    lossyCharacters (text ++ more) = lossyCharacters text ++ lossyCharacters more := by
  fun_induction validUtf8 text with
  | case1 => simp [lossyCharacters]
  | case2 lead rest others induction =>
    rw [Bool.and_eq_true, beq_iff_eq] at valid
    have long := (takeSequence_isPrefix lead rest).length_le
    rw [cons_append, lossyCharacters, takeSequence_append valid.1, lossyCharacters,
      cons_append, drop_append_of_le_length long, induction valid.2]

theorem validUtf8_append (valid : validUtf8 text = true) (more : Bytes) :
    validUtf8 (text ++ more) = validUtf8 more := by
  fun_induction validUtf8 text with
  | case1 => rfl
  | case2 lead rest others induction =>
    rw [Bool.and_eq_true, beq_iff_eq] at valid
    have long := (takeSequence_isPrefix lead rest).length_le
    rw [cons_append, validUtf8, takeSequence_append valid.1,
      drop_append_of_le_length long, induction valid.2]
    simp [show (takeSequence lead rest).length + 1 = sequenceWidth lead from valid.1]

theorem lossyCharacters_isPrefix_iff {short long : Bytes} (shortValid : validUtf8 short = true)
    (longValid : validUtf8 long = true) :
    lossyCharacters short <+: lossyCharacters long ↔ short <+: long := by
  constructor
  · intro isPrefix
    rcases isPrefix with ⟨rest, split⟩
    rw [← encode_lossyCharacters shortValid, ← encode_lossyCharacters longValid, ← split,
      flatMap_append]
    exact prefix_append _ _
  · intro isPrefix
    rcases isPrefix with ⟨rest, rfl⟩
    rw [lossyCharacters_append shortValid]
    exact prefix_append _ _

/-! ## ASCII at the front -/

theorem lossyCharacters_cons_ascii (ascii : byte.toNat < 0x80) (rest : Bytes) :
    lossyCharacters (byte :: rest) = Char.ofNat byte.toNat :: lossyCharacters rest := by
  have width : sequenceWidth byte = 1 := by
    rw [sequenceWidth, if_pos (UInt8.lt_iff_toNat_lt.mpr ascii)]
  have alone : takeSequence byte rest = [] := by
    rw [takeSequence, width]
    rfl
  rw [lossyCharacters, alone, width]
  rfl

variable {character : Char}

theorem not_ascii_of_lossyCharacters {others : List Char} (large : 0x80 ≤ byte.toNat)
    (same : lossyCharacters (byte :: rest) = character :: others) : 0x80 ≤ character.toNat := by
  rw [lossyCharacters] at same
  rw [← (List.cons.inj same).1]
  split_ifs with width
  · rcases encodeScalar_scalarValue (isSequence_takeSequence width) with ⟨encoded, isValid⟩
    rw [toNat_ofNat isValid]
    by_contra small
    rw [encodeScalar, if_pos (by omega)] at encoded
    rw [← (List.cons.inj encoded).1, UInt8.toNat_ofNat'] at large
    omega
  · decide

def asciiByte (character : Char) : UInt8 := UInt8.ofNat character.toNat

theorem toNat_asciiByte (ascii : character.toNat < 0x80) :
    (asciiByte character).toNat = character.toNat := by
  rw [asciiByte, UInt8.toNat_ofNat']
  omega

theorem eq_ofNat_iff (ascii : character.toNat < 0x80) :
    character = Char.ofNat byte.toNat ↔ asciiByte character = byte := by
  constructor
  · intro same
    have bounded := byte.toNat_lt
    rw [same, asciiByte, toNat_ofNat (.inl (by omega)), UInt8.ofNat_toNat]
  · intro same
    rw [← same, toNat_asciiByte ascii, Char.ofNat_toNat]

theorem isPrefix_lossyCharacters_iff {text : List Char}
    (ascii : ∀ character ∈ text, character.toNat < 0x80) :
    text <+: lossyCharacters bytes ↔ text.map asciiByte <+: bytes := by
  induction text generalizing bytes with
  | nil => simp
  | cons character text induction =>
    have small := ascii character mem_cons_self
    cases bytes with
    | nil => simp [lossyCharacters]
    | cons byte rest =>
      rw [map_cons, cons_prefix_cons]
      by_cases byteSmall : byte.toNat < 0x80
      · rw [lossyCharacters_cons_ascii byteSmall, cons_prefix_cons, eq_ofNat_iff small,
          induction fun other member => ascii other (mem_cons_of_mem character member)]
      · constructor
        · intro isPrefix
          rcases isPrefix with ⟨others, same⟩
          have large := not_ascii_of_lossyCharacters (not_lt.mp byteSmall) same.symm
          omega
        · intro both
          rw [← both.1, toNat_asciiByte small] at byteSmall
          exact absurd small byteSmall

end Foundation
