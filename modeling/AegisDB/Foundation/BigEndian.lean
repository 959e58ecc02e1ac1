import AegisDB.Foundation.Lexicographic
import Mathlib.Tactic.Ring
import Mathlib.Tactic.Linarith

/-! # Big-endian byte strings

Fixed-width numbers written most significant byte first, and the fact that makes
the format useful in sorted stores: numeric order is byte order. -/

namespace Foundation

abbrev Bytes := List UInt8

/-! ## Machine words as linear orders -/

instance linearOrderUInt8 : LinearOrder UInt8 where
  le_refl word := UInt8.le_refl word
  le_trans _ _ _ := UInt8.le_trans
  lt_iff_le_not_ge left right := by
    rw [UInt8.not_le]
    exact ⟨fun less => ⟨UInt8.le_of_lt less, less⟩, And.right⟩
  le_antisymm _ _ := UInt8.le_antisymm
  le_total left right := UInt8.le_total left right
  toDecidableLE := inferInstance
  toDecidableLT := inferInstance
  toDecidableEq := inferInstance

instance linearOrderUInt64 : LinearOrder UInt64 where
  le_refl word := UInt64.le_refl word
  le_trans _ _ _ := UInt64.le_trans
  lt_iff_le_not_ge left right := by
    rw [UInt64.not_le]
    exact ⟨fun less => ⟨UInt64.le_of_lt less, less⟩, And.right⟩
  le_antisymm _ _ := UInt64.le_antisymm
  le_total left right := UInt64.le_total left right
  toDecidableLE := inferInstance
  toDecidableLT := inferInstance
  toDecidableEq := inferInstance

-- Membership in a list of words is decided by equality, not through the order.
instance lawfulBEqUInt64 : LawfulBEq UInt64 := instLawfulBEq

/-! ## Writing and reading numbers -/

def toBeBytes : (width : Nat) → (value : Nat) → Bytes
  | 0, _ => []
  | width + 1, value => UInt8.ofNat (value / 256 ^ width) :: toBeBytes width value

def fromBeBytes : Bytes → Nat
  | [] => 0
  | byte :: rest => byte.toNat * 256 ^ rest.length + fromBeBytes rest

example : toBeBytes 4 0x01020304 = [1, 2, 3, 4] := by decide

@[simp] theorem toBeBytes_length (width value : Nat) :
    (toBeBytes width value).length = width := by
  induction width with
  | zero => rfl
  | succ width induction => simp [toBeBytes, induction]

theorem fromBeBytes_lt (bytes : Bytes) : fromBeBytes bytes < 256 ^ bytes.length := by
  induction bytes with
  | nil => simp [fromBeBytes]
  | cons byte rest induction =>
    have byteBound : byte.toNat + 1 ≤ 256 := byte.toNat_lt
    calc fromBeBytes (byte :: rest)
        = byte.toNat * 256 ^ rest.length + fromBeBytes rest := rfl
      _ < byte.toNat * 256 ^ rest.length + 256 ^ rest.length := by omega
      _ = (byte.toNat + 1) * 256 ^ rest.length := by ring
      _ ≤ 256 * 256 ^ rest.length := Nat.mul_le_mul_right _ byteBound
      _ = 256 ^ (byte :: rest).length := by rw [List.length_cons, pow_succ]; ring

theorem fromBeBytes_toBeBytes (width value : Nat) :
    fromBeBytes (toBeBytes width value) = value % 256 ^ width := by
  induction width with
  | zero => simp [toBeBytes, fromBeBytes, Nat.mod_one]
  | succ width induction =>
    have split := Nat.mod_mul (x := value) (a := 256 ^ width) (b := 256)
    rw [toBeBytes, fromBeBytes, induction, toBeBytes_length, UInt8.toNat_ofNat',
      pow_succ 256 width, split]
    ring

theorem fromBeBytes_lt_iff {left right : Bytes} (sameLength : left.length = right.length) :
    fromBeBytes left < fromBeBytes right ↔ left < right := by
  induction left generalizing right with
  | nil =>
    have rightNil : right = [] := List.length_eq_zero_iff.mp sameLength.symm
    subst rightNil
    simp
  | cons byte rest induction =>
    cases right with
    | nil => simp at sameLength
    | cons other others =>
      have restLength : rest.length = others.length := by simpa using sameLength
      have restBound := fromBeBytes_lt rest
      have othersBound := fromBeBytes_lt others
      rw [List.cons_lt_cons_iff, ← induction restLength]
      simp only [fromBeBytes, restLength, UInt8.lt_iff_toNat_lt, ← UInt8.toNat_inj]
      rw [restLength] at restBound
      generalize 256 ^ others.length = place at *
      constructor
      · intro less
        rcases Nat.lt_trichotomy byte.toNat other.toNat with smaller | equal | greater
        · exact .inl smaller
        · rw [equal] at less
          exact .inr ⟨equal, by omega⟩
        · have := Nat.mul_le_mul_right place (Nat.succ_le_of_lt greater)
          rw [Nat.succ_mul] at this
          omega
      · rintro (smaller | ⟨equal, restLess⟩)
        · have := Nat.mul_le_mul_right place (Nat.succ_le_of_lt smaller)
          rw [Nat.succ_mul] at this
          omega
        · rw [equal]
          omega

theorem fromBeBytes_injective {left right : Bytes} (sameLength : left.length = right.length)
    (equal : fromBeBytes left = fromBeBytes right) : left = right := by
  have notLess : ¬ left < right := by
    rw [← fromBeBytes_lt_iff sameLength, equal]
    exact lt_irrefl _
  have notGreater : ¬ right < left := by
    rw [← fromBeBytes_lt_iff sameLength.symm, equal]
    exact lt_irrefl _
  exact le_antisymm (not_lt.mp notGreater) (not_lt.mp notLess)

theorem toBeBytes_fromBeBytes (bytes : Bytes) :
    toBeBytes bytes.length (fromBeBytes bytes) = bytes := by
  apply fromBeBytes_injective (toBeBytes_length _ _)
  rw [fromBeBytes_toBeBytes, Nat.mod_eq_of_lt (fromBeBytes_lt bytes)]

end Foundation
