import AegisDB.Storage.FlatStore

/-! # Column families in one database

The storages keep all column families in RocksDB's default family: the name of the
family and an underscore are put in front of each key. -/

namespace AegisDB.Storage

open Foundation

def Cf.characters : Cf → List Char
  | .default => ['d', 'e', 'f', 'a', 'u', 'l', 't']
  | .write => ['w', 'r', 'i', 't', 'e']
  | .lock => ['l', 'o', 'c', 'k']

def Cf.bytes (cf : Cf) : Bytes := cf.characters.map fun character => UInt8.ofNat character.toNat

def keyWithCf (cf : Cf) (key : Bytes) : Bytes := cf.bytes ++ 0x5F :: key

variable {cf otherCf : Cf}

theorem append_characters_inj {rest otherRest : List Char}
    (same : cf.characters ++ rest = otherCf.characters ++ otherRest) :
    cf = otherCf ∧ rest = otherRest := by
  cases cf <;> cases otherCf <;> simp_all [Cf.characters]

theorem append_bytes_inj {rest otherRest : Bytes}
    (same : cf.bytes ++ rest = otherCf.bytes ++ otherRest) : cf = otherCf ∧ rest = otherRest := by
  cases cf <;> cases otherCf <;> simp_all [Cf.bytes, Cf.characters]

variable {key : Bytes}

@[simp] theorem keyWithCf_inj {otherKey : Bytes} :
    keyWithCf cf key = keyWithCf otherCf otherKey ↔ cf = otherCf ∧ key = otherKey := by
  constructor
  · intro same
    rcases append_bytes_inj same with ⟨rfl, rest⟩
    exact ⟨rfl, List.tail_eq_of_cons_eq rest⟩
  · intro same
    rcases same with ⟨rfl, rfl⟩
    rfl

def applyEncoded (db : OrderedMap Bytes Bytes) (modify : Modify) : OrderedMap Bytes Bytes :=
  match modify.value with
  | some value => db.insert (keyWithCf modify.cf modify.key) value
  | none => db.erase (keyWithCf modify.cf modify.key)

theorem get?_applyEncoded (db : OrderedMap Bytes Bytes) (modify : Modify) (cf : Cf) (key : Bytes) :
    (applyEncoded db modify).get? (keyWithCf cf key) =
      if modify.Touches cf key then modify.value else db.get? (keyWithCf cf key) := by
  rw [applyEncoded]
  by_cases touches : modify.Touches cf key
  · rcases touches with ⟨rfl, rfl⟩
    cases modify.value <;> simp [Modify.Touches]
  · have other : keyWithCf cf key ≠ keyWithCf modify.cf modify.key := by
      intro same
      rcases keyWithCf_inj.mp same with ⟨rfl, rfl⟩
      exact touches ⟨rfl, rfl⟩
    rw [if_neg touches]
    cases modify.value with
    | none => exact OrderedMap.get?_erase_other _ other
    | some value => exact OrderedMap.get?_insert_other _ _ other

variable {db : OrderedMap Bytes Bytes}

theorem get?_foldl_applyEncoded {batch : List Modify}
    (untouched : ∀ modify ∈ batch, ¬ modify.Touches cf key) :
    (batch.foldl applyEncoded db).get? (keyWithCf cf key) = db.get? (keyWithCf cf key) := by
  induction batch generalizing db with
  | nil => rfl
  | cons head rest induction =>
    rw [List.foldl_cons, induction fun modify member =>
      untouched modify (List.mem_cons_of_mem head member), get?_applyEncoded,
      if_neg (untouched head List.mem_cons_self)]

def Represents (db : OrderedMap Bytes Bytes) (store : FlatStore) : Prop :=
  ∀ cf key, db.get? (keyWithCf cf key) = (store cf).get? key

theorem Represents.apply {store : FlatStore} (represents : Represents db store) (modify : Modify) :
    Represents (applyEncoded db modify) (store.apply modify) := by
  intro cf key
  rw [get?_applyEncoded, FlatStore.get?_apply, represents cf key]

end AegisDB.Storage
