import AegisDB.Foundation.Fault
import AegisDB.Storage.Named
import AegisDB.Storage.PrefixIterator

/-! # The iterator over a family by name

`engine_util/iterator.rs` for a family of any name. The test of a key compares texts, and
the key of an item is cut off by the number of bytes of the name, so a key of another family
that reads like one of this family is delivered too, or is too short to be cut. -/

namespace AegisDB.Storage

open Foundation List

namespace CfName

def prefixBytes (cf : CfName) : Bytes := cf.bytes ++ [0x5F]

def prefixText (cf : CfName) : List Char := cf.characters ++ ['_']

def shows (cf : CfName) (entry : Bytes × Bytes) : Bool :=
  cf.prefixText.isPrefixOf (lossyCharacters entry.1)

def itemKey (cf : CfName) (entry : Bytes × Bytes) : Fallible Bytes :=
  slice entry.1 cf.prefixBytes.length entry.1.length

variable {cf : CfName} {entry : Bytes × Bytes}

theorem keyWithCf_eq (cf : CfName) (key : Bytes) : cf.keyWithCf key = cf.prefixBytes ++ key := by
  simp [keyWithCf, prefixBytes]

theorem isPrefix_keyWithCf (cf : CfName) (key : Bytes) : cf.prefixBytes <+: cf.keyWithCf key := by
  rw [keyWithCf_eq]
  exact prefix_append _ _

theorem valid_prefixBytes (cf : CfName) : validUtf8 cf.prefixBytes = true := by
  rw [prefixBytes, validUtf8_append cf.valid]
  decide +kernel

theorem lossyCharacters_prefixBytes (cf : CfName) :
    lossyCharacters cf.prefixBytes = cf.prefixText := by
  rw [prefixBytes, lossyCharacters_append cf.valid, prefixText, characters]
  congr 1
  decide +kernel

theorem shows_of_isPrefix (isPrefix : cf.prefixBytes <+: entry.1) : cf.shows entry = true := by
  rcases isPrefix with ⟨rest, split⟩
  rw [shows, isPrefixOf_iff_prefix, ← split, lossyCharacters_append cf.valid_prefixBytes,
    lossyCharacters_prefixBytes]
  exact prefix_append _ _

theorem shows_iff_of_valid (valid : validUtf8 entry.1 = true) :
    cf.shows entry = true ↔ cf.prefixBytes <+: entry.1 := by
  rw [shows, isPrefixOf_iff_prefix, ← lossyCharacters_prefixBytes,
    lossyCharacters_isPrefix_iff cf.valid_prefixBytes valid]

theorem itemKey_append (cf : CfName) (key value : Bytes) :
    cf.itemKey (cf.keyWithCf key, value) = .ok key := by
  have total : (cf.keyWithCf key).length = cf.prefixBytes.length + key.length := by
    rw [keyWithCf_eq, length_append]
  change slice (cf.keyWithCf key) cf.prefixBytes.length (cf.keyWithCf key).length = _
  rw [slice_eq_ok (by omega) le_rfl, total, Nat.add_sub_cancel_left, keyWithCf_eq,
    drop_left, take_length]

end CfName

structure NamedIterator where
  db : OrderedMap Bytes Bytes
  cf : CfName
  remaining : List (Bytes × Bytes)

namespace NamedIterator

def new (db : OrderedMap Bytes Bytes) (cf : CfName) : NamedIterator :=
  { db, cf, remaining := db.entries }

def seek (iterator : NamedIterator) (key : Bytes) : NamedIterator :=
  { iterator with remaining := iterator.db.seek (iterator.cf.prefixBytes ++ key) }

def current (iterator : NamedIterator) : Option (Bytes × Bytes) :=
  match iterator.remaining with
  | [] => none
  | entry :: _ => if iterator.cf.shows entry then some entry else none

def next (iterator : NamedIterator) : NamedIterator :=
  { iterator with remaining := iterator.remaining.tail }

end NamedIterator

/-! ## The families of the transaction layer -/

theorem shows_name (cf : Cf) : cf.name.shows = cf.shows := by
  funext entry
  rw [CfName.shows, Cf.shows, CfName.prefixText, Cf.prefixText, characters_name]

theorem itemKey_name {cf : Cf} {entry : Bytes × Bytes} (shown : cf.shows entry = true) :
    cf.name.itemKey entry = .ok (cf.strip entry).1 := by
  have full := keyWithCf_strip (Cf.shows_iff.mp shown)
  have cut := cf.name.itemKey_append (cf.strip entry).1 entry.2
  rw [keyWithCf_name, full] at cut
  exact cut

end AegisDB.Storage
