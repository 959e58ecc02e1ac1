import AegisDB.Foundation.Lexicographic
import AegisDB.Foundation.ValidText
import AegisDB.Storage.Encoding

/-! # The iterator over one column family

`engine_util/iterator.rs`: an iterator over the whole database that is valid as long as
the lossy text of its key begins with the name of the family and an underscore. -/

namespace AegisDB.Storage

open Foundation OrderedMap List

namespace Cf

def prefixText (cf : Cf) : List Char := cf.characters ++ ['_']

def prefixBytes (cf : Cf) : Bytes := cf.bytes ++ [0x5F]

def shows (cf : Cf) (entry : Bytes × Bytes) : Bool :=
  cf.prefixText.isPrefixOf (lossyCharacters entry.1)

def strip (cf : Cf) (entry : Bytes × Bytes) : Bytes × Bytes :=
  (entry.1.drop cf.prefixBytes.length, entry.2)

variable {cf : Cf} {entry : Bytes × Bytes}

theorem shows_iff : cf.shows entry = true ↔ cf.prefixBytes <+: entry.1 := by
  have ascii : ∀ character ∈ cf.prefixText, character.toNat < 0x80 := by
    cases cf <;> simp [prefixText, characters]
  have bytes : cf.prefixText.map asciiByte = cf.prefixBytes := by
    cases cf <;> decide
  rw [shows, isPrefixOf_iff_prefix, isPrefix_lossyCharacters_iff ascii, bytes]

end Cf

theorem keyWithCf_eq (cf : Cf) (key : Bytes) : keyWithCf cf key = cf.prefixBytes ++ key := by
  simp [keyWithCf, Cf.prefixBytes]

variable {cf : Cf}

theorem keyWithCf_lt_iff {left right : Bytes} :
    keyWithCf cf left < keyWithCf cf right ↔ left < right := by
  rw [keyWithCf_eq, keyWithCf_eq, append_lt_append_iff rfl]
  simp

theorem isPrefix_keyWithCf (cf : Cf) (key : Bytes) : cf.prefixBytes <+: keyWithCf cf key := by
  rw [keyWithCf_eq]
  exact prefix_append _ _

variable {entry : Bytes × Bytes}

theorem keyWithCf_strip (isPrefix : cf.prefixBytes <+: entry.1) :
    keyWithCf cf (cf.strip entry).1 = entry.1 := by
  rcases isPrefix with ⟨rest, split⟩
  rw [keyWithCf_eq, Cf.strip, ← split, drop_left]

theorem strip_keyWithCf (cf : Cf) (key value : Bytes) :
    cf.strip (keyWithCf cf key, value) = (key, value) := by
  rw [Cf.strip, keyWithCf_eq, drop_left]

theorem mem_takeWhile_shows {entries : List (Bytes × Bytes)}
    (ascending : Ascending entries) (above : ∀ entry ∈ entries, cf.prefixBytes ≤ entry.1) :
    entry ∈ entries.takeWhile cf.shows ↔ entry ∈ entries ∧ cf.prefixBytes <+: entry.1 := by
  rw [ascending.takeWhile_eq_filter, mem_filter, Cf.shows_iff]
  intro left leftMember right _ less shown
  rw [Cf.shows_iff] at shown ⊢
  by_contra hidden
  exact less.asymm (lt_of_le_of_not_isPrefix shown (above left leftMember) hidden)

structure RocksDBIterator where
  db : OrderedMap Bytes Bytes
  cf : Cf
  remaining : List (Bytes × Bytes)

namespace RocksDBIterator

def new (db : OrderedMap Bytes Bytes) (cf : Cf) : RocksDBIterator :=
  { db, cf, remaining := db.entries }

def current (iterator : RocksDBIterator) : Option (Bytes × Bytes) :=
  match iterator.remaining with
  | [] => none
  | entry :: _ => if iterator.cf.shows entry then some entry else none

def valid (iterator : RocksDBIterator) : Bool := iterator.current.isSome

def item (iterator : RocksDBIterator) : Bytes × Bytes :=
  match iterator.current with
  | some entry => iterator.cf.strip entry
  | none => ([], [])

def next (iterator : RocksDBIterator) : RocksDBIterator :=
  { iterator with remaining := iterator.remaining.tail }

def seek (iterator : RocksDBIterator) (key : Bytes) : RocksDBIterator :=
  { iterator with remaining := iterator.db.seek (iterator.cf.prefixBytes ++ key) }

/-! ## What the iterator delivers -/

def items (iterator : RocksDBIterator) : List (Bytes × Bytes) :=
  (iterator.remaining.takeWhile iterator.cf.shows).map iterator.cf.strip

variable {iterator : RocksDBIterator} {key value : Bytes}

theorem head?_items :
    iterator.items.head? = if iterator.valid then some iterator.item else none := by
  rw [items, valid, item, current]
  cases iterator.remaining with
  | nil => rfl
  | cons entry rest =>
    rw [takeWhile_cons]
    dsimp only
    split <;> rfl

theorem items_next (valid : iterator.valid = true) :
    iterator.next.items = iterator.items.tail := by
  rw [RocksDBIterator.valid, current] at valid
  rw [items, items, next]
  cases found : iterator.remaining with
  | nil =>
    rw [found] at valid
    cases valid
  | cons entry rest =>
    rw [found] at valid
    dsimp only at valid
    split_ifs at valid with shown
    · rw [takeWhile_cons, if_pos shown]
      rfl
    · cases valid

theorem mem_items_iff (ascending : Ascending iterator.remaining)
    (above : ∀ entry ∈ iterator.remaining, iterator.cf.prefixBytes ≤ entry.1) :
    (key, value) ∈ iterator.items ↔ (keyWithCf iterator.cf key, value) ∈ iterator.remaining := by
  rw [items, mem_map]
  constructor
  · intro ⟨entry, member, same⟩
    rcases (mem_takeWhile_shows ascending above).mp member with ⟨present, isPrefix⟩
    have full := keyWithCf_strip isPrefix
    rw [same] at full
    rw [full, ← (Prod.mk.inj same).2]
    exact present
  · intro present
    exact ⟨_, (mem_takeWhile_shows ascending above).mpr ⟨present, isPrefix_keyWithCf _ _⟩,
      strip_keyWithCf _ _ _⟩

theorem ascending_items (ascending : Ascending iterator.remaining) : Ascending iterator.items := by
  rw [items, Ascending, pairwise_map]
  apply (ascending.sublist (takeWhile_sublist iterator.cf.shows)).imp_of_mem
  intro left right leftMember rightMember smaller
  rw [← keyWithCf_strip (Cf.shows_iff.mp (mem_takeWhile_imp leftMember)),
    ← keyWithCf_strip (Cf.shows_iff.mp (mem_takeWhile_imp rightMember))] at smaller
  exact keyWithCf_lt_iff.mp smaller

theorem mem_items_seek {start : Bytes} :
    (key, value) ∈ (iterator.seek start).items ↔
      start ≤ key ∧ iterator.db.get? (keyWithCf iterator.cf key) = some value := by
  rw [mem_items_iff]
  · change (keyWithCf iterator.cf key, value) ∈ iterator.db.seek _ ↔ _
    rw [mem_seek, get?_eq_some_iff, ← keyWithCf_eq, and_comm,
      ← not_lt, keyWithCf_lt_iff, not_lt]
  · exact iterator.db.seek_ascending _
  · intro entry member
    exact (le_of_isPrefix (prefix_append _ _)).trans (mem_seek.mp member).2

/-! ## The iterator step after step -/

theorem current_eq_filter :
    iterator.current = iterator.remaining.head?.filter iterator.cf.shows := by
  rw [current]
  cases iterator.remaining with
  | nil => rfl
  | cons entry rest =>
    rw [head?_cons, Option.filter_some]

theorem iterate_next (count : Nat) :
    next^[count] iterator = { iterator with remaining := iterator.remaining.drop count } := by
  induction count generalizing iterator with
  | zero => rfl
  | succ count induction =>
    rw [Function.iterate_succ_apply, induction, next, drop_tail]

theorem hidden_behind (ascending : Ascending iterator.remaining)
    (above : ∀ entry ∈ iterator.remaining, iterator.cf.prefixBytes ≤ entry.1)
    {entry : Bytes × Bytes} (member : entry ∈ iterator.remaining.dropWhile iterator.cf.shows) :
    iterator.cf.shows entry = false := by
  have disjoint := ascending.nodup
  rw [← takeWhile_append_dropWhile (p := iterator.cf.shows) (l := iterator.remaining),
    nodup_append] at disjoint
  by_contra shown
  rw [Bool.not_eq_false, Cf.shows_iff] at shown
  have present := (dropWhile_sublist iterator.cf.shows).mem member
  have before := (mem_takeWhile_shows ascending above).mpr ⟨present, shown⟩
  exact disjoint.2.2 entry before entry member rfl

theorem current_iterate_next (ascending : Ascending iterator.remaining)
    (above : ∀ entry ∈ iterator.remaining, iterator.cf.prefixBytes ≤ entry.1) (count : Nat) :
    (next^[count] iterator).current = (iterator.remaining.takeWhile iterator.cf.shows)[count]? := by
  rw [iterate_next, current_eq_filter, head?_drop]
  conv =>
    lhs
    rw [← takeWhile_append_dropWhile (p := iterator.cf.shows) (l := iterator.remaining)]
  by_cases inFamily : count < (iterator.remaining.takeWhile iterator.cf.shows).length
  · rw [getElem?_append_left inFamily, getElem?_eq_getElem inFamily]
    exact Option.filter_some_pos (mem_takeWhile_imp (getElem_mem inFamily))
  · rw [getElem?_append_right (not_lt.mp inFamily), getElem?_eq_none (not_lt.mp inFamily),
      Option.filter_eq_none_iff]
    intro entry found
    have hidden := hidden_behind ascending above (mem_of_getElem? found)
    exact Bool.eq_false_iff.mp hidden

/-- A seek and the steps after it deliver the keys of one family from there on, in order and
with their values, and then nothing more. The test on text is the test on bytes. -/
theorem seek_enumerates_family (iterator : RocksDBIterator) (start : Bytes) :
    (∃ entries : List (Bytes × Bytes), Ascending entries ∧
      (∀ key value, (key, value) ∈ entries ↔
        start ≤ key ∧ iterator.db.get? (keyWithCf iterator.cf key) = some value) ∧
      (∀ count entry, entries[count]? = some entry →
        (next^[count] (iterator.seek start)).valid = true ∧
        (next^[count] (iterator.seek start)).item = entry ∧
        (next^[count] (iterator.seek start)).current =
          some (keyWithCf iterator.cf entry.1, entry.2)) ∧
      ∀ count, entries.length ≤ count →
        (next^[count] (iterator.seek start)).valid = false) ∧
    ∀ bytes, iterator.cf.prefixText.isPrefixOf (lossyCharacters bytes) =
      iterator.cf.prefixBytes.isPrefixOf bytes := by
  have ascending : Ascending (iterator.seek start).remaining := iterator.db.seek_ascending _
  have above : ∀ entry ∈ (iterator.seek start).remaining, iterator.cf.prefixBytes ≤ entry.1 := by
    intro entry member
    exact (le_of_isPrefix (prefix_append _ _)).trans (mem_seek.mp member).2
  have standing := current_iterate_next ascending above
  constructor
  · refine ⟨(iterator.seek start).items, ascending_items ascending,
      fun key value => mem_items_seek, ?_, ?_⟩
    · intro count entry found
      rw [items, getElem?_map, ← standing] at found
      rcases Option.map_eq_some_iff.mp found with ⟨raw, current, stripped⟩
      have member := mem_of_getElem? ((standing count).symm.trans current)
      have shown := mem_takeWhile_imp member
      have whole := keyWithCf_strip (Cf.shows_iff.mp shown)
      have family : (next^[count] (iterator.seek start)).cf = iterator.cf := by
        rw [iterate_next]
        rfl
      refine ⟨?_, ?_, ?_⟩
      · rw [valid, current]
        rfl
      · rw [item, current, family]
        exact stripped
      · rw [current, ← stripped]
        exact congrArg (fun key => some (key, raw.2)) whole.symm
    · intro count past
      rw [items, length_map] at past
      rw [valid, standing, getElem?_eq_none past]
      rfl
  · intro bytes
    have agrees : iterator.cf.shows (bytes, []) = true ↔ iterator.cf.prefixBytes <+: bytes :=
      Cf.shows_iff
    exact Bool.eq_iff_iff.mpr (agrees.trans isPrefixOf_iff_prefix.symm)

def BeginsWith (db : OrderedMap Bytes Bytes) (cf : Cf) : Prop :=
  ∀ entry ∈ db.entries.head?, cf.prefixBytes <+: entry.1

variable {db : OrderedMap Bytes Bytes} {cf : Cf}

theorem BeginsWith.le (begins : BeginsWith db cf) :
    ∀ entry ∈ db.entries, cf.prefixBytes ≤ entry.1 := by
  intro entry member
  have ascending := db.ascending
  rw [BeginsWith] at begins
  cases found : db.entries with
  | nil =>
    rw [found] at member
    cases member
  | cons head rest =>
    rw [found] at begins ascending member
    have least := le_of_isPrefix (begins head rfl)
    rcases mem_cons.mp member with rfl | inRest
    · exact least
    · exact least.trans (rel_of_pairwise_cons ascending inRest).le

theorem mem_items_new :
    (key, value) ∈ (new db cf).items ↔
      BeginsWith db cf ∧ db.get? (keyWithCf cf key) = some value := by
  by_cases begins : BeginsWith db cf
  · rw [mem_items_iff db.ascending begins.le, get?_eq_some_iff, and_iff_right begins]
    rfl
  · have nothing : (new db cf).items = [] := by
      have hidden : db.entries.takeWhile cf.shows = [] := by
        rw [BeginsWith] at begins
        cases found : db.entries with
        | nil => rfl
        | cons head rest =>
          rw [found] at begins
          rw [takeWhile_cons, if_neg]
          rw [Cf.shows_iff]
          simpa using begins
      rw [items]
      exact congrArg _ hidden
    simp [nothing, begins]

end RocksDBIterator

end AegisDB.Storage
