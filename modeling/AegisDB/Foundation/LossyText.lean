import AegisDB.Foundation.BigEndian

/-! # Reading bytes as text

The lossy reading of a byte string as UTF-8: each maximal part that cannot be
continued to a scalar value becomes one replacement character. -/

namespace Foundation

def replacementCharacter : Char := Char.ofNat 0xFFFD

def isContinuation (byte : UInt8) : Bool := 0x80 ≤ byte && byte ≤ 0xBF

def sequenceWidth (lead : UInt8) : Nat :=
  if lead < 0x80 then 1
  else if 0xC2 ≤ lead && lead ≤ 0xDF then 2
  else if 0xE0 ≤ lead && lead ≤ 0xEF then 3
  else if 0xF0 ≤ lead && lead ≤ 0xF4 then 4
  else 0

def isSecond (lead second : UInt8) : Bool :=
  if lead = 0xE0 then 0xA0 ≤ second && second ≤ 0xBF
  else if lead = 0xED then 0x80 ≤ second && second ≤ 0x9F
  else if lead = 0xF0 then 0x90 ≤ second && second ≤ 0xBF
  else if lead = 0xF4 then 0x80 ≤ second && second ≤ 0x8F
  else isContinuation second

def takeSequence (lead : UInt8) (rest : Bytes) : Bytes :=
  match rest.take (sequenceWidth lead - 1) with
  | [] => []
  | second :: others =>
    if isSecond lead second then second :: others.takeWhile isContinuation else []

def scalarValue (lead : UInt8) (others : Bytes) : Nat :=
  others.foldl (fun value byte => value * 64 + byte.toNat % 64)
    (match others.length with
      | 0 => lead.toNat
      | 1 => lead.toNat % 32
      | 2 => lead.toNat % 16
      | _ => lead.toNat % 8)

def lossyCharacters : Bytes → List Char
  | [] => []
  | lead :: rest =>
    let others := takeSequence lead rest
    let character :=
      if others.length + 1 = sequenceWidth lead then Char.ofNat (scalarValue lead others)
      else replacementCharacter
    character :: lossyCharacters (rest.drop others.length)
termination_by bytes => bytes.length
decreasing_by simp only [List.length_cons, List.length_drop]; omega

def fromUtf8Lossy (bytes : Bytes) : String := String.ofList (lossyCharacters bytes)

end Foundation
