import AegisDB.Foundation.BigEndian
import AegisDB.Foundation.Fault

/-! # Keys in two levels

`util/multi_level_key.rs`: a primary and a secondary key in one byte string. The length
of the primary key comes first, in four bytes, and a separator stands between the keys. -/

namespace AegisDB.Util

open Foundation List

def separator : UInt8 := 0xFF

def encodeMultiLevelKey (primaryKey secondaryKey : Bytes) : Bytes :=
  toBeBytes 4 primaryKey.length ++ (primaryKey ++ separator :: secondaryKey)

def decodeMultiLevelKey (encodedKey : Bytes) : Fallible (Bytes × Bytes) :=
  if encodedKey.length < 5 then .error (.error "Encoded key too short")
  else
    let pkLen := fromBeBytes (encodedKey.take 4)
    if encodedKey.length < 5 + pkLen then .error (.error "Invalid encoded key format")
    else do
      let primaryKey ← slice encodedKey 4 (4 + pkLen)
      if encodedKey.length < 5 + pkLen + 1 then
        .error (.error "Invalid separator in encoded key")
      else do
        let mark ← elementAt encodedKey (4 + pkLen)
        if mark ≠ separator then .error (.error "Invalid separator in encoded key")
        else do
          let secondaryKey ← slice encodedKey (5 + pkLen) encodedKey.length
          .ok (primaryKey, secondaryKey)

def primaryKeyFromRegionId (regionId : UInt64) : Bytes := toBeBytes 8 regionId.toNat

def regionIdFromPrimaryKey (primaryKey : Bytes) : Fallible UInt64 :=
  if primaryKey.length ≠ 8 then .error (.error "Invalid primary key length for region_id")
  else .ok (UInt64.ofNat (fromBeBytes primaryKey))

/-! ## The parts of an encoded key -/

@[simp] theorem length_encodeMultiLevelKey (primaryKey secondaryKey : Bytes) :
    (encodeMultiLevelKey primaryKey secondaryKey).length =
      5 + primaryKey.length + secondaryKey.length := by
  simp only [encodeMultiLevelKey, length_append, toBeBytes_length, length_cons]
  omega

theorem exists_parts {encodedKey : Bytes} {pkLen : Nat} (long : 5 + pkLen ≤ encodedKey.length) :
    ∃ (length primaryKey : Bytes) (mark : UInt8) (rest : Bytes),
      encodedKey = length ++ (primaryKey ++ mark :: rest) ∧ length.length = 4 ∧
        primaryKey.length = pkLen := by
  have lengthFits : (encodedKey.take 4).length = 4 := by
    rw [length_take]
    omega
  have primaryFits : ((encodedKey.drop 4).take pkLen).length = pkLen := by
    rw [length_take, length_drop]
    omega
  have more : ((encodedKey.drop 4).drop pkLen).length ≠ 0 := by
    rw [length_drop, length_drop]
    omega
  cases split : (encodedKey.drop 4).drop pkLen with
  | nil =>
    rw [split] at more
    exact absurd rfl more
  | cons mark rest =>
    refine ⟨encodedKey.take 4, (encodedKey.drop 4).take pkLen, mark, rest, ?_, lengthFits,
      primaryFits⟩
    rw [← split, take_append_drop, take_append_drop]

theorem decode_parts {length primaryKey rest : Bytes} {mark : UInt8}
    (fourBytes : length.length = 4) (counts : fromBeBytes length = primaryKey.length) :
    decodeMultiLevelKey (length ++ (primaryKey ++ mark :: rest)) =
      if rest ≠ [] ∧ mark = separator then .ok (primaryKey, rest)
      else .error (.error "Invalid separator in encoded key") := by
  have total : (length ++ (primaryKey ++ mark :: rest)).length =
      5 + primaryKey.length + rest.length := by
    simp only [length_append, length_cons, fourBytes]
    omega
  have upToPrimary : (length ++ primaryKey).length = 4 + primaryKey.length := by
    rw [length_append, fourBytes]
  have first : slice (length ++ (primaryKey ++ mark :: rest)) 4 (4 + primaryKey.length) =
      .ok primaryKey := by
    rw [slice_eq_ok (by omega) (by omega), drop_left' fourBytes, Nat.add_sub_cancel_left,
      take_left' rfl]
  have middle : elementAt (length ++ (primaryKey ++ mark :: rest)) (4 + primaryKey.length) =
      .ok mark := by
    apply elementAt_eq_ok
    rw [← append_assoc, getElem?_append_right upToPrimary.le, upToPrimary,
      Nat.sub_self, getElem?_cons_zero]
  have last : slice (length ++ (primaryKey ++ mark :: rest)) (5 + primaryKey.length)
      (5 + primaryKey.length + rest.length) = .ok rest := by
    have upToMark : (length ++ primaryKey ++ [mark]).length = 5 + primaryKey.length := by
      rw [length_append, upToPrimary, length_singleton]
      omega
    rw [slice_eq_ok (by omega) (by omega), Nat.add_sub_cancel_left, ← append_assoc,
      append_cons, drop_left' upToMark, take_length]
  rw [decodeMultiLevelKey, take_left' fourBytes, counts, total, if_neg (by omega)]
  dsimp only
  rw [if_neg (by omega), first, last, middle]
  cases rest with
  | nil =>
    simp [bind, Except.bind]
  | cons head tail =>
    simp [bind, Except.bind]

theorem decodeMultiLevelKey_eq_ok_iff {encodedKey primaryKey secondaryKey : Bytes} :
    decodeMultiLevelKey encodedKey = .ok (primaryKey, secondaryKey) ↔
      encodedKey = encodeMultiLevelKey primaryKey secondaryKey ∧
        primaryKey.length < 2 ^ 32 ∧ secondaryKey ≠ [] := by
  constructor
  · intro accepted
    have long : 5 + fromBeBytes (encodedKey.take 4) ≤ encodedKey.length := by
      by_contra short
      rw [decodeMultiLevelKey] at accepted
      split at accepted
      · cases accepted
      · dsimp only at accepted
        rw [if_pos (by omega)] at accepted
        cases accepted
    rcases exists_parts long with ⟨length, primary, mark, rest, rfl, fourBytes, fits⟩
    rw [take_left' fourBytes] at fits
    rw [decode_parts fourBytes fits.symm] at accepted
    split at accepted
    · rename_i separated
      rcases separated with ⟨more, rfl⟩
      rcases Prod.mk.inj (Except.ok.inj accepted) with ⟨rfl, rfl⟩
      have bound := fromBeBytes_lt length
      rw [fourBytes, ← fits] at bound
      refine ⟨?_, bound, more⟩
      rw [encodeMultiLevelKey, fits, ← fourBytes, toBeBytes_fromBeBytes]
    · cases accepted
  · intro ⟨isEncoded, small, more⟩
    subst isEncoded
    have counts : fromBeBytes (toBeBytes 4 primaryKey.length) = primaryKey.length := by
      rw [fromBeBytes_toBeBytes]
      exact Nat.mod_eq_of_lt small
    rw [encodeMultiLevelKey, decode_parts (toBeBytes_length _ _) counts, if_pos ⟨more, rfl⟩]

/-- A key comes back if something is behind the separator, and nothing else than an encoded
key is taken for one. -/
theorem decode_encode_iff (primaryKey secondaryKey : Bytes) (small : primaryKey.length < 2 ^ 32) :
    (decodeMultiLevelKey (encodeMultiLevelKey primaryKey secondaryKey) =
        .ok (primaryKey, secondaryKey) ↔ secondaryKey ≠ []) ∧
      ∀ encodedKey primary secondary, decodeMultiLevelKey encodedKey = .ok (primary, secondary) →
        encodedKey = encodeMultiLevelKey primary secondary := by
  constructor
  · constructor
    · intro accepted
      exact (decodeMultiLevelKey_eq_ok_iff.mp accepted).2.2
    · intro more
      exact decodeMultiLevelKey_eq_ok_iff.mpr ⟨rfl, small, more⟩
  · intro encodedKey primary secondary accepted
    exact (decodeMultiLevelKey_eq_ok_iff.mp accepted).1

theorem decode_encode_one_byte :
    decodeMultiLevelKey (encodeMultiLevelKey [1, 2] [3]) = .ok ([1, 2], [3]) :=
  (decode_encode_iff [1, 2] [3] (by decide)).1.mpr (by decide)

/-- An empty secondary key is written, and then refused. -/
theorem decode_encode_empty_secondary :
    decodeMultiLevelKey (encodeMultiLevelKey [1, 2] []) =
      .error (.error "Invalid separator in encoded key") := by
  decide

/-! ## Region ids -/

@[simp] theorem length_primaryKeyFromRegionId (regionId : UInt64) :
    (primaryKeyFromRegionId regionId).length = 8 :=
  toBeBytes_length _ _

end AegisDB.Util
