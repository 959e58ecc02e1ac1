import AegisDB.Foundation.BigEndian
import AegisDB.Foundation.Fault

/-! # MVCC key encoding

The memcomparable format of `transaction/mvcc/codec.rs`: a user key is cut into
groups of eight bytes, each followed by a marker that counts the padding, and the
complemented timestamp follows in big-endian order. -/

namespace AegisDB.Mvcc

open Foundation

def encGroupSize : Nat := 8
def encMarker : UInt8 := 0xFF
def encPad : UInt8 := 0x00

def encodeBytesFrom (data : Bytes) (idx : Nat) (result : Bytes) : Bytes :=
  if idx ≤ data.length then
    let remain := data.length - idx
    if remain ≥ encGroupSize then
      encodeBytesFrom data (idx + encGroupSize)
        (result ++ (data.drop idx).take encGroupSize ++ [encMarker])
    else
      let pad := encGroupSize - remain
      encodeBytesFrom data (idx + encGroupSize)
        (result ++ data.drop idx ++ List.replicate pad encPad ++
          [encMarker - UInt8.ofNat pad])
  else
    result
termination_by data.length + 1 - idx
decreasing_by all_goals simp only [encGroupSize] at *; omega

def encodeBytes (data : Bytes) : Bytes := encodeBytesFrom data 0 []

def decodeGroup (b : Bytes) (offset : Nat) : Fallible (Bytes × Nat) := do
  let available ← checkedSub b.length offset
  if available < encGroupSize + 1 then
    throw (.error "insufficient bytes to decode value")
  let groupBytes ← slice b offset (offset + encGroupSize + 1)
  let group ← slice groupBytes 0 encGroupSize
  let marker ← elementAt groupBytes encGroupSize
  let padCount := (encMarker - marker).toNat
  if padCount > encGroupSize then
    throw (.error "invalid marker byte")
  let realGroupSize := encGroupSize - padCount
  let real ← slice group 0 realGroupSize
  let padding ← slice group realGroupSize encGroupSize
  if padCount ≠ 0 ∧ ¬ padding.all (· == encPad) then
    throw (.error "invalid padding byte")
  return (real, padCount)

theorem offset_le_of_decodeGroup {b : Bytes} {offset : Nat} {group : Bytes × Nat}
    (decoded : decodeGroup b offset = .ok group) :
    offset + encGroupSize + 1 ≤ b.length := by
  by_contra short
  unfold decodeGroup checkedSub at decoded
  by_cases within : offset ≤ b.length
  · have few : b.length - offset < encGroupSize + 1 := by omega
    simp [within, few, bind, Except.bind, throw, throwThe, MonadExceptOf.throw] at decoded
  · simp [within, bind, Except.bind] at decoded

def decodeBytesFrom (b : Bytes) (data : Bytes) (offset : Nat) : Fallible (Bytes × Nat) :=
  match decoded : decodeGroup b offset with
  | .error fault => .error fault
  | .ok (real, padCount) =>
    if padCount ≠ 0 then
      .ok (data ++ real, offset + (encGroupSize + 1))
    else
      decodeBytesFrom b (data ++ real) (offset + (encGroupSize + 1))
termination_by b.length - offset
decreasing_by
  have bound := offset_le_of_decodeGroup decoded
  omega

def decodeBytes (b : Bytes) : Fallible (Bytes × Nat) := decodeBytesFrom b [] 0

def u64ToBeBytes (value : UInt64) : Bytes := toBeBytes 8 value.toNat

def u64FromBeBytes (bytes : Bytes) : UInt64 := UInt64.ofNat (fromBeBytes bytes)

def encodeKey (userKey : Bytes) (ts : UInt64) : Bytes :=
  encodeBytes userKey ++ u64ToBeBytes (~~~ts)

def decodeUserKey (encodedKey : Bytes) : Fallible Bytes := do
  let (userKey, _) ← decodeBytes encodedKey
  return userKey

def decodeTimestamp (encodedKey : Bytes) : Fallible UInt64 := do
  let (_, offset) ← decodeBytes encodedKey
  if encodedKey.length < offset + 8 then
    throw (.error "insufficient bytes for timestamp")
  let tsBytes ← slice encodedKey offset (offset + 8)
  return ~~~(u64FromBeBytes tsBytes)

def physicalTime (ts : UInt64) : UInt64 := ts >>> 16

end AegisDB.Mvcc
