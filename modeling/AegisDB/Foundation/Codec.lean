import AegisDB.Foundation.BigEndian

/-! # Serialized values

A codec reads back what it has written. Codes whose end can be told from the bytes alone
are put together piece by piece, and each of them gives a codec. -/

namespace Foundation

open List

structure Codec (α : Type) where
  encode : α → Bytes
  decode : Bytes → Except String α
  decode_encode : ∀ value, decode (encode value) = .ok value

attribute [simp] Codec.decode_encode

structure Code (α : Type) where
  write : α → Bytes
  read : Bytes → Option (α × Bytes)
  read_write : ∀ value rest, read (write value ++ rest) = some (value, rest)

attribute [simp] Code.read_write

namespace Code

variable {α β : Type}

def byte : Code UInt8 where
  write value := [value]
  read
    | [] => none
    | value :: rest => some (value, rest)
  read_write _ _ := rfl

def word : Code UInt64 where
  write value := toBeBytes 8 value.toNat
  read bytes := some (UInt64.ofNat (fromBeBytes (bytes.take 8)), bytes.drop 8)
  read_write value rest := by
    have small : value.toNat < 256 ^ 8 := value.toNat_lt
    rw [take_left' (toBeBytes_length _ _), drop_left' (toBeBytes_length _ _),
      fromBeBytes_toBeBytes, Nat.mod_eq_of_lt small, UInt64.ofNat_toNat]

def pair (first : Code α) (second : Code β) : Code (α × β) where
  write value := first.write value.1 ++ second.write value.2
  read bytes := do
    let (left, bytes) ← first.read bytes
    let (right, bytes) ← second.read bytes
    return ((left, right), bytes)
  read_write value rest := by simp

def through (code : Code β) (toRepr : α → β) (ofRepr : β → α)
    (inverse : ∀ value, ofRepr (toRepr value) = value) : Code α where
  write value := code.write (toRepr value)
  read bytes := do
    let (repr, bytes) ← code.read bytes
    return (ofRepr repr, bytes)
  read_write value rest := by simp [inverse]

/-! ## Lists -/

def writeItems (item : Code α) : List α → Bytes
  | [] => [0]
  | value :: rest => 1 :: (item.write value ++ writeItems item rest)

def readItems (item : Code α) : Nat → Bytes → Option (List α × Bytes)
  | 0, _ => none
  | _ + 1, [] => none
  | fuel + 1, mark :: bytes =>
    if mark = 0 then
      some ([], bytes)
    else do
      let (value, bytes) ← item.read bytes
      let (values, bytes) ← readItems item fuel bytes
      return (value :: values, bytes)

theorem readItems_writeItems (item : Code α) {values : List α} {fuel : Nat} (rest : Bytes)
    (enough : values.length < fuel) :
    readItems item fuel (writeItems item values ++ rest) = some (values, rest) := by
  induction values generalizing fuel with
  | nil =>
    cases fuel with
    | zero => cases enough
    | succ fuel => simp [writeItems, readItems]
  | cons value values induction =>
    cases fuel with
    | zero => cases enough
    | succ fuel =>
      have shorter : values.length < fuel := Nat.lt_of_succ_lt_succ enough
      simp [writeItems, readItems, induction shorter]

theorem length_lt_writeItems (item : Code α) (values : List α) :
    values.length < (writeItems item values).length := by
  induction values with
  | nil => simp [writeItems]
  | cons value values induction =>
    simp only [writeItems, length_cons, length_append]
    omega

def list (item : Code α) : Code (List α) where
  write := writeItems item
  read bytes := readItems item bytes.length bytes
  read_write values rest := by
    apply readItems_writeItems
    have := length_lt_writeItems item values
    rw [length_append]
    omega

def option (item : Code α) : Code (Option α) :=
  item.list.through Option.toList List.head? fun value => by cases value <;> rfl

def codec (code : Code α) : Codec α where
  encode := code.write
  decode bytes :=
    match code.read bytes with
    | some (value, _) => .ok value
    | none => .error "invalid encoding"
  decode_encode value := by
    have whole := code.read_write value []
    rw [append_nil] at whole
    rw [whole]

end Code

end Foundation
