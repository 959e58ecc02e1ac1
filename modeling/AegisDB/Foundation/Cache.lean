import AegisDB.Foundation.OrderedMap

/-! # Caches

A cache is a map that may forget. What is found in it was put there under the same key
and has not been taken out since; nothing else is assumed. The least-recently-used
cache of bounded size is one. -/

namespace Foundation

open List

class Cache (σ : Type u) (κ : outParam (Type v)) (ν : outParam (Type w)) where
  peek : σ → κ → Option ν
  put : σ → κ → ν → σ
  pop : σ → κ → σ

class LawfulCache (σ : Type u) {κ : outParam (Type v)} {ν : outParam (Type w)} [Cache σ κ ν] :
    Prop where
  peek_put {cache : σ} {key other : κ} {value found : ν}
    (present : Cache.peek (Cache.put cache key value) other = some found) :
    other = key ∧ found = value ∨ other ≠ key ∧ Cache.peek cache other = some found
  peek_pop {cache : σ} {key other : κ} {found : ν}
    (present : Cache.peek (Cache.pop cache key) other = some found) :
    other ≠ key ∧ Cache.peek cache other = some found

/-! ## Least recently used -/

/-- Entries in the order of their last use, at most `capacity` of them. -/
structure LruCache (κ : Type u) (ν : Type v) where
  capacity : Nat
  entries : List (κ × ν)
  positive : 0 < capacity
  distinct : (entries.map Prod.fst).Nodup
  bounded : entries.length ≤ capacity

namespace LruCache

variable {κ : Type u} {ν : Type v} [DecidableEq κ]

def empty (capacity : Nat) (positive : 0 < capacity) : LruCache κ ν :=
  ⟨capacity, [], positive, nodup_nil, Nat.zero_le capacity⟩

def peek (cache : LruCache κ ν) (key : κ) : Option ν :=
  (cache.entries.find? (·.1 = key)).map Prod.snd

def others (cache : LruCache κ ν) (key : κ) : List (κ × ν) :=
  cache.entries.filter (·.1 ≠ key)

def pop (cache : LruCache κ ν) (key : κ) : LruCache κ ν where
  capacity := cache.capacity
  entries := cache.others key
  positive := cache.positive
  distinct := cache.distinct.sublist (filter_sublist.map Prod.fst)
  bounded := Nat.le_trans (length_filter_le _ _) cache.bounded

def put (cache : LruCache κ ν) (key : κ) (value : ν) : LruCache κ ν where
  capacity := cache.capacity
  entries := (key, value) :: (cache.others key).take (cache.capacity - 1)
  positive := cache.positive
  distinct := by
    rw [map_cons, nodup_cons]
    constructor
    · intro member
      rcases mem_map.mp member with ⟨entry, taken, same⟩
      have other := (mem_filter.mp (mem_of_mem_take taken)).2
      simp [same] at other
    · exact (cache.pop key).distinct.sublist ((take_sublist _ _).map Prod.fst)
  bounded := by
    have := cache.positive
    rw [length_cons, length_take]
    omega

instance : Cache (LruCache κ ν) κ ν where
  peek := peek
  put := put
  pop := pop

variable {cache : LruCache κ ν} {key : κ} {value : ν}

theorem peek_eq_some_iff :
    cache.peek key = some value ↔ (key, value) ∈ cache.entries :=
  find?_key_eq_some_iff cache.distinct

variable {entry : κ × ν}

theorem mem_others :
    entry ∈ cache.others key ↔ entry.1 ≠ key ∧ cache.peek entry.1 = some entry.2 := by
  rw [others, mem_filter, peek_eq_some_iff]
  simp [and_comm]

instance : LawfulCache (LruCache κ ν) where
  peek_put := by
    intro cache key other value found present
    rcases mem_cons.mp (peek_eq_some_iff.mp present) with new | kept
    · exact .inl (Prod.mk.inj new)
    · exact .inr (mem_others.mp (mem_of_mem_take kept))
  peek_pop := by
    intro cache key other found present
    exact mem_others.mp (peek_eq_some_iff.mp present)

/-! ### What a put drops -/

def oldest (cache : LruCache κ ν) : Option (κ × ν) :=
  if cache.entries.length = cache.capacity then cache.entries.getLast? else none

theorem peek_put_same (cache : LruCache κ ν) (key : κ) (value : ν) :
    (cache.put key value).peek key = some value :=
  peek_eq_some_iff.mpr mem_cons_self

variable {other : κ}

theorem peek_pop_other (cache : LruCache κ ν) (different : other ≠ key) :
    (cache.pop key).peek other = cache.peek other := by
  apply Option.ext
  intro found
  rw [peek_eq_some_iff]
  change (other, found) ∈ cache.others key ↔ _
  rw [mem_others, and_iff_right different]

theorem others_of_absent (cache : LruCache κ ν) (absent : cache.peek key = none) :
    cache.others key = cache.entries := by
  rw [others, filter_eq_self]
  intro other member
  have present : cache.peek other.1 ≠ none := by
    rw [peek_eq_some_iff.mpr member]
    simp
  simp only [ne_eq, decide_not, Bool.not_eq_eq_eq_not, Bool.not_true, decide_eq_false_iff_not]
  intro same
  exact present (same ▸ absent)

theorem length_others_lt (cache : LruCache κ ν) (present : cache.peek key = some value) :
    (cache.others key).length < cache.entries.length :=
  length_filter_lt_length_iff_exists.mpr
    ⟨(key, value), peek_eq_some_iff.mp present, by simp⟩

omit [DecidableEq κ] in
theorem mem_dropLast_iff {entries : List (κ × ν)} (distinct : (entries.map Prod.fst).Nodup)
    (notEmpty : entries ≠ []) :
    entry ∈ entries.dropLast ↔ entry ∈ entries ∧ entries.getLast? ≠ some entry := by
  have split := dropLast_concat_getLast notEmpty
  rw [← split, map_append, nodup_append] at distinct
  rw [getLast?_eq_some_getLast notEmpty]
  constructor
  · intro kept
    refine ⟨(dropLast_sublist _).subset kept, fun isLast => ?_⟩
    have sameEntry := Option.some.inj isLast
    exact distinct.2.2 _ (mem_map_of_mem kept) _
      (mem_map_of_mem mem_cons_self) (by rw [sameEntry])
  · intro ⟨member, notLast⟩
    rw [← split] at member
    rcases mem_append.mp member with kept | isLast
    · exact kept
    · exact absurd (congrArg some (mem_singleton.mp isLast).symm) notLast

theorem mem_take_others (cache : LruCache κ ν) (different : entry.1 ≠ key) :
    entry ∈ (cache.others key).take (cache.capacity - 1) ↔
      entry ∈ cache.entries ∧ (cache.peek key = none → cache.oldest ≠ some entry) := by
  have bounded := cache.bounded
  cases present : cache.peek key with
  | some value =>
    have fewer := cache.length_others_lt present
    rw [take_of_length_le (by omega), mem_others, peek_eq_some_iff,
      and_iff_right different]
    simp
  | none =>
    rw [cache.others_of_absent present, oldest, forall_prop_of_true rfl]
    by_cases isFull : cache.entries.length = cache.capacity
    · have notEmpty : cache.entries ≠ [] :=
        ne_nil_of_length_pos (isFull ▸ cache.positive)
      rw [if_pos isFull, ← isFull, ← dropLast_eq_take]
      exact mem_dropLast_iff cache.distinct notEmpty
    · rw [if_neg isFull, take_of_length_le (by omega)]
      simp

omit [DecidableEq κ] in
theorem mem_of_oldest (isOldest : cache.oldest = some entry) : entry ∈ cache.entries := by
  rw [oldest] at isOldest
  split at isOldest
  · exact mem_of_getLast? isOldest
  · cases isOldest

theorem peek_put_other (cache : LruCache κ ν) (value : ν) (different : other ≠ key) :
    (cache.put key value).peek other =
      if cache.peek key = none ∧ cache.oldest.map Prod.fst = some other then none
      else cache.peek other := by
  apply Option.ext
  intro found
  rw [peek_eq_some_iff]
  change (other, found) ∈ (key, value) :: (cache.others key).take (cache.capacity - 1) ↔ _
  rw [mem_cons, mem_take_others cache different, ← peek_eq_some_iff]
  split_ifs with drops
  · rcases Option.map_eq_some_iff.mp drops.2 with ⟨⟨_, last⟩, isOldest, rfl⟩
    rw [peek_eq_some_iff.mpr (mem_of_oldest isOldest), isOldest]
    simp [drops.1, different]
  · have notOldest : cache.peek key = none → cache.oldest ≠ some (other, found) :=
      fun absent isOldest => drops ⟨absent, congrArg (Option.map Prod.fst) isOldest⟩
    rw [and_iff_left notOldest]
    simp [different]

end LruCache

end Foundation
