import Mathlib.Order.Lattice
import Mathlib.Data.List.Basic
import Mathlib.Data.List.Nodup
import Mathlib.Tactic.Common

/-! # Finite maps in key order

A finite map is kept as the list of its entries in strictly ascending key order,
so that it can be looked up, updated and walked from any position, and so that two
maps with the same lookups are equal. -/

namespace Foundation

open List

/-! ## Entry lists -/

theorem find?_key_eq_some_iff {κ : Type u} {ν : Type v} [DecidableEq κ] {entries : List (κ × ν)}
    (distinct : (entries.map Prod.fst).Nodup) {key : κ} {value : ν} :
    (entries.find? fun entry => entry.1 = key).map Prod.snd = some value ↔
      (key, value) ∈ entries := by
  constructor
  · intro found
    rcases Option.map_eq_some_iff.mp found with ⟨entry, located, rfl⟩
    have sameKey : entry.1 = key := by simpa using find?_some located
    rw [← sameKey]
    exact mem_of_find?_eq_some located
  · intro member
    cases located : entries.find? fun entry => entry.1 = key with
    | none => simpa using find?_eq_none.mp located _ member
    | some entry =>
      have sameKey : entry.1 = key := by simpa using find?_some located
      have same := inj_on_of_nodup_map distinct (mem_of_find?_eq_some located) member
        sameKey
      rw [same]
      rfl

section Entries

variable {κ : Type u} {ν : Type v} [LinearOrder κ]

def Ascending (entries : List (κ × ν)) : Prop :=
  entries.Pairwise fun left right => left.1 < right.1

instance (entries : List (κ × ν)) : Decidable (Ascending entries) :=
  inferInstanceAs (Decidable (entries.Pairwise fun left right => left.1 < right.1))

variable {entries : List (κ × ν)}

theorem Ascending.nodup (ascending : Ascending entries) :
    entries.Nodup :=
  ascending.imp fun less same => absurd (congrArg Prod.fst same) less.ne

theorem Ascending.eq_of_mem_iff {left right : List (κ × ν)} (leftAscending : Ascending left)
    (rightAscending : Ascending right) (members : ∀ entry, entry ∈ left ↔ entry ∈ right) :
    left = right :=
  ((perm_ext_iff_of_nodup leftAscending.nodup rightAscending.nodup).mpr members).eq_of_pairwise
    (fun _ _ _ _ less greater => absurd (less.trans greater) (lt_irrefl _))
    leftAscending rightAscending

theorem Ascending.takeWhile_eq_filter (ascending : Ascending entries) {test : κ × ν → Bool}
    (closed : ∀ left ∈ entries, ∀ right ∈ entries, left.1 < right.1 →
      test right = true → test left = true) :
    entries.takeWhile test = entries.filter test := by
  induction entries with
  | nil => rfl
  | cons head rest induction =>
    rcases pairwise_cons.mp ascending with ⟨below, restAscending⟩
    cases passed : test head with
    | true =>
      rw [takeWhile_cons_of_pos passed, filter_cons_of_pos passed,
        induction restAscending fun left leftMember right rightMember =>
          closed left (mem_cons_of_mem head leftMember)
            right (mem_cons_of_mem head rightMember)]
    | false =>
      have none : ∀ entry ∈ head :: rest, ¬ test entry = true := by
        intro entry member
        rcases mem_cons.mp member with rfl | inRest
        · simp [passed]
        · intro later
          have first := closed head mem_cons_self entry member (below entry inRest) later
          rw [passed] at first
          cases first
      rw [takeWhile_cons_of_neg (by simp [passed]), filter_eq_nil_iff.mpr none]

def insertEntry (key : κ) (value : ν) : List (κ × ν) → List (κ × ν)
  | [] => [(key, value)]
  | entry :: rest =>
    if key < entry.1 then (key, value) :: entry :: rest
    else if key = entry.1 then (key, value) :: rest
    else entry :: insertEntry key value rest

variable {key : κ} {value : ν}

theorem mem_insertEntry (ascending : Ascending entries) {entry : κ × ν} :
    entry ∈ insertEntry key value entries ↔
      entry = (key, value) ∨ entry.1 ≠ key ∧ entry ∈ entries := by
  induction entries with
  | nil => simp [insertEntry]
  | cons head rest induction =>
    have parts := pairwise_cons.mp ascending
    have inner := induction parts.2
    rw [insertEntry]
    split
    · rename_i before
      have later : entry ∈ head :: rest → entry.1 ≠ key := by
        intro member equal
        rcases mem_cons.mp member with rfl | restMember
        · exact absurd equal before.ne'
        · exact absurd equal (before.trans (parts.1 entry restMember)).ne'
      rw [mem_cons, and_iff_right_of_imp later]
    · split_ifs with same
      · subst same
        have later : entry ∈ rest → entry.1 ≠ head.1 :=
          fun member => (parts.1 entry member).ne'
        simp only [mem_cons]
        constructor
        · rintro (rfl | member)
          · exact .inl rfl
          · exact .inr ⟨later member, .inr member⟩
        · rintro (rfl | ⟨different, rfl | member⟩)
          · exact .inl rfl
          · exact absurd rfl different
          · exact .inr member
      · simp only [mem_cons, inner]
        constructor
        · rintro (rfl | rfl | ⟨different, member⟩)
          · exact .inr ⟨Ne.symm same, .inl rfl⟩
          · exact .inl rfl
          · exact .inr ⟨different, .inr member⟩
        · rintro (rfl | ⟨different, rfl | member⟩)
          · exact .inr (.inl rfl)
          · exact .inl rfl
          · exact .inr (.inr ⟨different, member⟩)

theorem insertEntry_ascending
    (ascending : Ascending entries) : Ascending (insertEntry key value entries) := by
  induction entries with
  | nil => simp [insertEntry, Ascending]
  | cons head rest induction =>
    have parts := pairwise_cons.mp ascending
    rw [insertEntry]
    split
    · rename_i before
      apply pairwise_cons.mpr
      refine ⟨fun entry member => ?_, ascending⟩
      rcases mem_cons.mp member with rfl | restMember
      · exact before
      · exact before.trans (parts.1 entry restMember)
    · rename_i notBefore
      split_ifs with same
      · subst same
        exact pairwise_cons.mpr ⟨fun entry member => parts.1 entry member, parts.2⟩
      · apply pairwise_cons.mpr
        refine ⟨fun entry member => ?_, induction parts.2⟩
        rcases (mem_insertEntry parts.2).mp member with rfl | ⟨_, restMember⟩
        · exact lt_of_le_of_ne (not_lt.mp notBefore) (Ne.symm same)
        · exact parts.1 entry restMember

end Entries

/-! ## Maps -/

structure OrderedMap (κ : Type u) (ν : Type v) [LinearOrder κ] where
  entries : List (κ × ν)
  ascending : Ascending entries

namespace OrderedMap

variable {κ : Type u} {ν : Type v} [LinearOrder κ]

def empty : OrderedMap κ ν := ⟨[], List.Pairwise.nil⟩

def get? (map : OrderedMap κ ν) (key : κ) : Option ν :=
  (map.entries.find? fun entry => entry.1 = key).map Prod.snd

def insert (map : OrderedMap κ ν) (key : κ) (value : ν) : OrderedMap κ ν :=
  ⟨insertEntry key value map.entries, insertEntry_ascending map.ascending⟩

def erase (map : OrderedMap κ ν) (key : κ) : OrderedMap κ ν :=
  ⟨map.entries.filter fun entry => entry.1 ≠ key, map.ascending.filter _⟩

def seek (map : OrderedMap κ ν) (key : κ) : List (κ × ν) :=
  map.entries.dropWhile fun entry => entry.1 < key

def keys (map : OrderedMap κ ν) : List κ := map.entries.map Prod.fst

def values (map : OrderedMap κ ν) : List ν := map.entries.map Prod.snd

def size (map : OrderedMap κ ν) : Nat := map.entries.length

def mapValues (map : OrderedMap κ ν) (change : ν → ν) : OrderedMap κ ν :=
  ⟨map.entries.map fun entry => (entry.1, change entry.2), by
    rw [Ascending, pairwise_map]
    exact map.ascending⟩

def mapEntries (map : OrderedMap κ ν) (change : κ → ν → ν) : OrderedMap κ ν :=
  ⟨map.entries.map fun entry => (entry.1, change entry.1 entry.2), by
    rw [Ascending, pairwise_map]
    exact map.ascending⟩

instance [DecidableEq ν] : DecidableEq (OrderedMap κ ν) := fun left right =>
  decidable_of_iff (left.entries = right.entries) <| by
    cases left
    cases right
    simp

/-! ### Lookups -/

theorem keys_nodup (map : OrderedMap κ ν) : map.keys.Nodup := by
  rw [keys, List.Nodup, pairwise_map]
  exact map.ascending.imp fun less => less.ne

variable {map : OrderedMap κ ν} {key : κ} {value : ν}

theorem get?_eq_some_iff :
    map.get? key = some value ↔ (key, value) ∈ map.entries :=
  find?_key_eq_some_iff map.keys_nodup

theorem get?_eq_none_iff :
    map.get? key = none ↔ ∀ value, (key, value) ∉ map.entries := by
  rw [Option.eq_none_iff_forall_ne_some]
  simp only [ne_eq, get?_eq_some_iff]

@[ext] theorem ext {left right : OrderedMap κ ν}
    (same : ∀ key, left.get? key = right.get? key) : left = right := by
  have members : ∀ entry, entry ∈ left.entries ↔ entry ∈ right.entries := by
    rintro ⟨key, value⟩
    rw [← get?_eq_some_iff, ← get?_eq_some_iff, same]
  have equal := left.ascending.eq_of_mem_iff right.ascending members
  cases left
  cases right
  simpa using equal

@[simp] theorem get?_empty (key : κ) : (empty : OrderedMap κ ν).get? key = none := rfl

@[simp] theorem get?_insert_same (map : OrderedMap κ ν) (key : κ) (value : ν) :
    (map.insert key value).get? key = some value :=
  get?_eq_some_iff.mpr ((mem_insertEntry map.ascending).mpr (.inl rfl))

variable {other : κ}

theorem get?_insert_other (map : OrderedMap κ ν) (value : ν)
    (different : other ≠ key) : (map.insert key value).get? other = map.get? other := by
  apply Option.ext
  intro found
  rw [get?_eq_some_iff, get?_eq_some_iff]
  change (other, found) ∈ insertEntry key value map.entries ↔ _
  rw [mem_insertEntry map.ascending]
  simp [different]

@[simp] theorem get?_erase_same (map : OrderedMap κ ν) (key : κ) :
    (map.erase key).get? key = none :=
  get?_eq_none_iff.mpr fun value => by simp [erase]

theorem get?_erase_other (map : OrderedMap κ ν)
    (different : other ≠ key) : (map.erase key).get? other = map.get? other := by
  apply Option.ext
  intro found
  rw [get?_eq_some_iff, get?_eq_some_iff]
  simp [erase, different]

theorem get?_insert (map : OrderedMap κ ν) (key other : κ) (value : ν) :
    (map.insert key value).get? other = if other = key then some value else map.get? other := by
  split_ifs with same
  · subst same
    exact get?_insert_same map other value
  · exact get?_insert_other map value same

theorem get?_erase (map : OrderedMap κ ν) (key other : κ) :
    (map.erase key).get? other = if other = key then none else map.get? other := by
  split_ifs with same
  · subst same
    exact get?_erase_same map other
  · exact get?_erase_other map same

theorem insert_insert (map : OrderedMap κ ν) (key : κ) (first second : ν) :
    (map.insert key first).insert key second = map.insert key second := by
  ext other
  simp only [get?_insert]
  split <;> rfl

theorem insert_of_present (present : map.get? key = some value) : map.insert key value = map := by
  apply ext
  intro other
  rw [get?_insert]
  split_ifs with same
  · rw [same, present]
  · rfl

theorem erase_of_fresh (fresh : map.get? key = none) :
    map.erase key = map := by
  apply ext
  intro other
  rw [get?_erase]
  split_ifs with same
  · rw [same, fresh]
  · rfl

theorem erase_insert_of_fresh (value : ν)
    (fresh : map.get? key = none) : (map.insert key value).erase key = map := by
  ext other
  rw [get?_erase, get?_insert]
  split
  · rename_i same
    rw [same, fresh]
  · rfl

variable {entry : κ × ν}

theorem mem_entries_erase :
    entry ∈ (map.erase key).entries ↔ entry ∈ map.entries ∧ entry.1 ≠ key := by
  simp [erase]

theorem entries_insert_perm (map : OrderedMap κ ν) (key : κ) (value : ν) :
    (map.insert key value).entries.Perm ((key, value) :: (map.erase key).entries) := by
  have fresh : (key, value) ∉ (map.erase key).entries := fun member =>
    (mem_entries_erase.mp member).2 rfl
  apply (perm_ext_iff_of_nodup (map.insert key value).ascending.nodup
    (nodup_cons.mpr ⟨fresh, (map.erase key).ascending.nodup⟩)).mpr
  intro entry
  rw [mem_cons, mem_entries_erase, and_comm]
  exact mem_insertEntry map.ascending

theorem get?_mapEntries (map : OrderedMap κ ν) (change : κ → ν → ν) (key : κ) :
    (map.mapEntries change).get? key = (map.get? key).map (change key) := by
  apply Option.ext
  intro value
  rw [get?_eq_some_iff, Option.map_eq_some_iff]
  simp only [get?_eq_some_iff, mapEntries, mem_map, Prod.mk.injEq, Prod.exists]
  constructor
  · rintro ⟨other, old, member, rfl, rfl⟩
    exact ⟨old, member, rfl⟩
  · rintro ⟨old, member, rfl⟩
    exact ⟨key, old, member, rfl, rfl⟩

theorem get?_mapValues (map : OrderedMap κ ν) (change : ν → ν) (key : κ) :
    (map.mapValues change).get? key = (map.get? key).map change :=
  map.get?_mapEntries (fun _ => change) key

/-! ### Keys -/

theorem mem_keys_iff :
    key ∈ map.keys ↔ (map.get? key).isSome := by
  rw [Option.isSome_iff_exists]
  simp only [get?_eq_some_iff, keys, mem_map, Prod.exists, exists_and_right, exists_eq_right]

theorem mem_values_iff :
    value ∈ map.values ↔ ∃ key, map.get? key = some value := by
  simp [values, get?_eq_some_iff]

theorem length_keys (map : OrderedMap κ ν) : map.keys.length = map.size := by
  simp [keys, size]

def keysWhere (map : OrderedMap κ ν) (holds : ν → Bool) : List κ :=
  (map.entries.filter fun entry => holds entry.2).map Prod.fst

theorem mem_keysWhere {holds : ν → Bool} :
    key ∈ map.keysWhere holds ↔ ∃ value, map.get? key = some value ∧ holds value = true := by
  simp [keysWhere, get?_eq_some_iff]

theorem keysWhere_nodup (map : OrderedMap κ ν) (holds : ν → Bool) :
    (map.keysWhere holds).Nodup :=
  map.keys_nodup.sublist (filter_sublist.map Prod.fst)

theorem length_keysWhere (map : OrderedMap κ ν) (holds : ν → Bool) :
    (map.keysWhere holds).length = map.values.countP holds := by
  rw [keysWhere, length_map, values, countP_map, countP_eq_length_filter]
  rfl

/-! ### Walking from a position -/

theorem seek_eq_filter (map : OrderedMap κ ν) (key : κ) :
    map.seek key = map.entries.filter fun entry => key ≤ entry.1 := by
  rcases map with ⟨entries, ascending⟩
  rw [seek]
  change entries.dropWhile _ = entries.filter _
  induction entries with
  | nil => rfl
  | cons head rest induction =>
    have parts := pairwise_cons.mp ascending
    by_cases before : head.1 < key
    · rw [dropWhile_cons_of_pos (by simpa using before), induction parts.2,
        filter_cons_of_neg (by simpa using before)]
    · have atLeast : key ≤ head.1 := not_lt.mp before
      have all : ∀ entry ∈ head :: rest, (decide (key ≤ entry.1)) = true := by
        intro entry member
        rcases mem_cons.mp member with rfl | restMember
        · simpa using atLeast
        · simpa using atLeast.trans (parts.1 entry restMember).le
      rw [dropWhile_cons_of_neg (by simpa using before), filter_eq_self.mpr all]

theorem mem_seek :
    entry ∈ map.seek key ↔ entry ∈ map.entries ∧ key ≤ entry.1 := by
  simp [seek_eq_filter]

theorem seek_ascending (map : OrderedMap κ ν) (key : κ) : Ascending (map.seek key) := by
  rw [seek_eq_filter]
  exact map.ascending.filter _

def after (map : OrderedMap κ ν) (position : Option κ) : List (κ × ν) :=
  map.entries.filter fun entry => position.all (· < entry.1)

def between (map : OrderedMap κ ν) (first last : κ) : List (κ × ν) :=
  map.entries.filter fun entry => first ≤ entry.1 ∧ entry.1 < last

variable {first : κ}

theorem mem_between {last : κ} :
    entry ∈ map.between first last ↔ entry ∈ map.entries ∧ first ≤ entry.1 ∧ entry.1 < last := by
  simp [between]

theorem mem_after_some :
    entry ∈ map.after (some key) ↔ entry ∈ map.entries ∧ key < entry.1 := by
  simp [after]

theorem between_ascending (map : OrderedMap κ ν) (first last : κ) :
    Ascending (map.between first last) :=
  map.ascending.filter _

theorem after_ascending (map : OrderedMap κ ν) (position : Option κ) :
    Ascending (map.after position) :=
  map.ascending.filter _

theorem seek_eq_append (map : OrderedMap κ ν) (below : first ≤ key) :
    map.seek first =
      map.between first key ++
        (((map.get? key).map (Prod.mk key)).toList ++ map.after (some key)) := by
  apply (map.seek_ascending first).eq_of_mem_iff
  · rw [Ascending, pairwise_append, pairwise_append]
    refine ⟨map.between_ascending first key, ⟨?_, map.after_ascending _, ?_⟩, ?_⟩
    · cases map.get? key <;> simp
    · intro entry isKey later isLater
      cases found : map.get? key with
      | none => simp [found] at isKey
      | some value =>
        simp only [found, Option.map_some, Option.toList_some, mem_singleton] at isKey
        rw [isKey]
        exact (mem_after_some.mp isLater).2
    · intro entry isEarlier later isLater
      have before := (mem_between.mp isEarlier).2.2
      rcases mem_append.mp isLater with isKey | isAfter
      · cases found : map.get? key with
        | none => simp [found] at isKey
        | some value =>
          simp only [found, Option.map_some, Option.toList_some, mem_singleton] at isKey
          rw [isKey]
          exact before
      · exact before.trans (mem_after_some.mp isAfter).2
  · intro ⟨other, value⟩
    rw [mem_seek, mem_append, mem_append, mem_between, mem_after_some,
      ← get?_eq_some_iff]
    rcases lt_trichotomy other key with less | rfl | greater
    · simp [less, less.asymm, less.ne']
    · simp [below]
    · simp [greater, greater.asymm, greater.ne, below.trans greater.le]

section Agreement

variable {left right : OrderedMap κ ν}

variable {key : κ}

variable (agree : ∀ other, other ≠ key → left.get? other = right.get? other)

include agree

theorem mem_entries_congr {entry : κ × ν}
    (different : entry.1 ≠ key) : entry ∈ left.entries ↔ entry ∈ right.entries := by
  rw [← get?_eq_some_iff, ← get?_eq_some_iff, agree entry.1 different]

variable {first : κ}

theorem between_congr :
    left.between first key = right.between first key := by
  apply (left.between_ascending first key).eq_of_mem_iff (right.between_ascending first key)
  intro entry
  rw [mem_between, mem_between]
  exact and_congr_left fun inside => mem_entries_congr agree inside.2.ne

theorem after_congr :
    left.after (some key) = right.after (some key) := by
  apply (left.after_ascending _).eq_of_mem_iff (right.after_ascending _)
  intro entry
  rw [mem_after_some, mem_after_some]
  exact and_congr_left fun above => mem_entries_congr agree above.ne'

omit agree

theorem seek_congr (before : key < first)
    (agree : ∀ other, other ≠ key → left.get? other = right.get? other) :
    left.seek first = right.seek first := by
  apply (left.seek_ascending first).eq_of_mem_iff (right.seek_ascending first)
  intro entry
  rw [mem_seek, mem_seek]
  exact and_congr_left fun above => mem_entries_congr agree (before.trans_le above).ne'

end Agreement

/-! ### Parts of a map -/

def restrict (map : OrderedMap κ ν) (keys : κ → Prop) [DecidablePred keys] : OrderedMap κ ν :=
  ⟨map.entries.filter fun entry => keys entry.1, map.ascending.filter _⟩

section Restrict

variable {keys : κ → Prop} [DecidablePred keys]

theorem get?_restrict (map : OrderedMap κ ν) (key : κ) :
    (map.restrict keys).get? key = if keys key then map.get? key else none := by
  apply Option.ext
  intro value
  rw [get?_eq_some_iff]
  split_ifs with member
  · rw [get?_eq_some_iff]
    simp [restrict, member]
  · simp [restrict, member]

theorem restrict_eq_iff {left right : OrderedMap κ ν} :
    left.restrict keys = right.restrict keys ↔
      ∀ key, keys key → left.get? key = right.get? key := by
  constructor
  · intro equal key member
    have lookups := congrArg (fun map => map.get? key) equal
    simpa [get?_restrict, member] using lookups
  · intro same
    ext1 key
    rw [get?_restrict, get?_restrict]
    split_ifs with member
    · exact same key member
    · rfl

theorem seek_restrict (map : OrderedMap κ ν) (key : κ) :
    (map.restrict keys).seek key = (map.seek key).filter fun entry => keys entry.1 := by
  rw [seek_eq_filter, seek_eq_filter, restrict, filter_filter, filter_filter]
  congr 1
  funext entry
  rw [Bool.and_comm]

end Restrict

end OrderedMap

end Foundation
