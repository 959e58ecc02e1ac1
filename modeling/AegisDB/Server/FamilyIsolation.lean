import AegisDB.Server.RawApi
import Mathlib.Algebra.Order.BigOperators.Group.List

/-! # Families that do not notice each other

All families share one database and one cache, under names that are put in front of the
keys. Whether a write to one family can be seen in another depends on the two names, on what
the cache is about to drop, and on keys that only read like keys of the family. -/

namespace AegisDB.Server

open Foundation Storage OrderedMap List

/-! ## Names -/

def Continues (cf other : CfName) : Prop :=
  other.bytes ++ [0x5F] <+: cf.bytes ∨ other.bytes ++ [0x3A] <+: cf.bytes

instance decidableContinues (cf other : CfName) : Decidable (Continues cf other) :=
  inferInstanceAs (Decidable (_ ∨ _))

def Apart (cf other : CfName) : Prop := ¬ Continues cf other ∧ ¬ Continues other cf

instance decidableApart (cf other : CfName) : Decidable (Apart cf other) :=
  inferInstanceAs (Decidable (_ ∧ _))

section Names

variable {cf other : CfName}

theorem bytes_ne (different : cf ≠ other) : cf.bytes ≠ other.bytes := by
  intro same
  apply different
  cases cf
  cases other
  simpa using same

theorem characters_isPrefix_iff :
    other.characters ++ [':'] <+: cf.characters ↔ other.bytes ++ [0x3A] <+: cf.bytes := by
  have valid : validUtf8 (other.bytes ++ [0x3A]) = true := by
    rw [validUtf8_append other.valid]
    decide +kernel
  have text : lossyCharacters (other.bytes ++ [0x3A]) = other.characters ++ [':'] := by
    rw [lossyCharacters_append other.valid, CfName.characters]
    congr 1
    decide +kernel
  rw [← text, CfName.characters, lossyCharacters_isPrefix_iff valid cf.valid]

variable (apart : Apart cf other) (different : cf ≠ other)

include apart different

theorem Apart.not_isPrefix (key : Bytes) :
    ¬ other.prefixBytes <+: cf.keyWithCf key := by
  intro ⟨rest, same⟩
  rw [CfName.prefixBytes, append_assoc, singleton_append, CfName.keyWithCf] at same
  rcases stems_of_marked same with equal | continues | continues
  · exact bytes_ne different equal.symm
  · exact apart.1 (.inl continues)
  · exact apart.2 (.inl continues)

theorem Apart.keyWithCf_ne (key otherKey : Bytes) :
    other.keyWithCf otherKey ≠ cf.keyWithCf key := by
  intro same
  exact apart.not_isPrefix different key (same ▸ other.isPrefix_keyWithCf otherKey)

theorem Apart.cacheKey_ne (key otherKey : Bytes) :
    other.cacheKey otherKey ≠ cf.cacheKey key := by
  intro same
  rcases stems_of_marked same with equal | continues | continues
  · exact bytes_ne different (lossyCharacters_injective cf.valid other.valid equal.symm)
  · exact apart.1 (.inr (characters_isPrefix_iff.mp continues))
  · exact apart.2 (.inr (characters_isPrefix_iff.mp continues))

end Names

/-! ## What a client of a family sees -/

abbrev RawStorage := StandaloneStorage (LruCache (List Char) Bytes)

def SameAnswers (storage after : RawStorage) (cf : CfName) : Prop :=
  (∀ key, (rawGet after cf key).1 = (rawGet storage cf key).1) ∧
    ∀ startKey limit, rawScan after cf startKey limit = rawScan storage cf startKey limit

def Isolated (storage : RawStorage) (cf other : CfName) : Prop :=
  (∀ key value, SameAnswers storage (rawPut storage cf key value) other) ∧
    ∀ key, SameAnswers storage (rawDelete storage cf key) other

section Reads

variable {storage : RawStorage} {cf : CfName} {key value : Bytes}

theorem rawGet_eq (storage : RawStorage) (cf : CfName) (key : Bytes) :
    (rawGet storage cf key).1 =
      (storage.cache.peek (cf.cacheKey key)).or (storage.db.get? (cf.keyWithCf key)) := by
  rw [rawGet, StandaloneStorage.getNamed, show Cache.peek storage.cache (cf.cacheKey key) =
    storage.cache.peek (cf.cacheKey key) from rfl]
  cases storage.cache.peek (cf.cacheKey key) with
  | some value => rfl
  | none => cases storage.db.get? (cf.keyWithCf key) <;> rfl

theorem get?_rawPut (storage : RawStorage) (cf : CfName) (key value any : Bytes) :
    (rawPut storage cf key value).db.get? any =
      if cf.keyWithCf key = any then some value else storage.db.get? any :=
  NamedModify.get?_apply storage.db (.put key value cf) any

theorem get?_rawDelete (storage : RawStorage) (cf : CfName) (key any : Bytes) :
    (rawDelete storage cf key).db.get? any =
      if cf.keyWithCf key = any then none else storage.db.get? any :=
  NamedModify.get?_apply storage.db (.delete key cf) any

theorem cache_rawPut : (rawPut storage cf key value).cache =
    storage.cache.put (cf.cacheKey key) value := rfl

theorem cache_rawDelete : (rawDelete storage cf key).cache =
    storage.cache.pop (cf.cacheKey key) := rfl

end Reads

/-! ## Single keys -/

def OldestIsCurrent (storage : RawStorage) (cf : CfName) : Prop :=
  ∀ key value, storage.cache.oldest = some (cf.cacheKey key, value) →
    storage.db.get? (cf.keyWithCf key) = some value

section Gets

variable {storage : RawStorage} {cf other : CfName}

theorem rawGet_rawPut_same (storage : RawStorage) {key otherKey : Bytes} (value : Bytes)
    (sameKey : other.cacheKey otherKey = cf.cacheKey key) :
    (rawGet (rawPut storage cf key value) other otherKey).1 = some value := by
  rw [rawGet_eq, cache_rawPut, sameKey, LruCache.peek_put_same, Option.some_or]

theorem length_lossyCharacters_replicate (count : Nat) :
    (lossyCharacters (List.replicate count 0x61)).length = count := by
  induction count with
  | zero => rw [replicate_zero, lossyCharacters, length_nil]
  | succ count induction =>
    rw [replicate_succ, lossyCharacters_cons_ascii (by decide), length_cons, induction]

theorem exists_not_cached (storage : RawStorage) (cf : CfName) :
    ∃ key, storage.cache.peek (cf.cacheKey key) = none := by
  refine ⟨List.replicate (storage.cache.entries.map (·.1.length)).sum 0x61, ?_⟩
  rw [Option.eq_none_iff_forall_ne_some]
  intro value cached
  have short := le_sum_of_mem (mem_map_of_mem (f := fun entry => entry.1.length)
    (LruCache.peek_eq_some_iff.mp cached))
  dsimp only at short
  rw [CfName.cacheKey, length_append, length_cons, length_lossyCharacters_replicate] at short
  omega

variable (apart : Apart cf other) (different : cf ≠ other)

include apart different

theorem rawGet_rawPut (current : OldestIsCurrent storage other) (key value otherKey : Bytes) :
    (rawGet (rawPut storage cf key value) other otherKey).1 =
      (rawGet storage other otherKey).1 := by
  rw [rawGet_eq, rawGet_eq, cache_rawPut, get?_rawPut,
    if_neg (apart.keyWithCf_ne different key otherKey).symm]
  rw [LruCache.peek_put_other _ value (apart.cacheKey_ne different key otherKey)]
  split
  · -- The put has dropped the entry, and the database answers instead.
    rename_i drops
    rcases Option.map_eq_some_iff.mp drops.2 with ⟨⟨place, found⟩, isOldest, same⟩
    rw [show place = other.cacheKey otherKey from same] at isOldest
    rw [LruCache.peek_eq_some_iff.mpr (LruCache.mem_of_oldest isOldest),
      current otherKey found isOldest]
    rfl
  · rfl

theorem rawGet_rawDelete (key otherKey : Bytes) :
    (rawGet (rawDelete storage cf key) other otherKey).1 = (rawGet storage other otherKey).1 := by
  rw [rawGet_eq, rawGet_eq, cache_rawDelete, get?_rawDelete,
    if_neg (apart.keyWithCf_ne different key otherKey).symm,
    LruCache.peek_pop_other _ (apart.cacheKey_ne different key otherKey)]

theorem oldestIsCurrent_of_isolated (isolated : Isolated storage cf other) :
    OldestIsCurrent storage other := by
  intro otherKey value isOldest
  rcases exists_not_cached storage cf with ⟨key, notCached⟩
  have cached := LruCache.peek_eq_some_iff.mpr (LruCache.mem_of_oldest isOldest)
  have same := (isolated.1 key []).1 otherKey
  have dropped : (storage.cache.put (cf.cacheKey key) []).peek (other.cacheKey otherKey) =
      none := by
    rw [LruCache.peek_put_other _ [] (apart.cacheKey_ne different key otherKey),
      if_pos ⟨notCached, congrArg (Option.map Prod.fst) isOldest⟩]
  rw [rawGet_eq, rawGet_eq, cache_rawPut, dropped, cached, get?_rawPut,
    if_neg (apart.keyWithCf_ne different key otherKey).symm] at same
  exact same

end Gets

/-! ## Scans -/

def delivers (cf : CfName) (entry : Bytes × Bytes) : Bool :=
  cf.shows entry && decide (cf.prefixBytes.length ≤ entry.1.length)

def EndsBefore (db : OrderedMap Bytes Bytes) (cf : CfName) (position : Bytes) : Prop :=
  cf.prefixBytes ≤ position →
    (∀ entry ∈ db.between cf.prefixBytes position, delivers cf entry = true) →
      ∀ entry ∈ (db.after (some position)).head?, ¬ cf.shows entry = true

/-- No key of the first family could come between keys that a scan of the second delivers. -/
def NeverCut (db : OrderedMap Bytes Bytes) (cf other : CfName) : Prop :=
  ∀ key, EndsBefore db other (cf.keyWithCf key)

section Walks

variable {db after : OrderedMap Bytes Bytes} {cf : CfName} {limit : Nat}
  {remaining early late : List (Bytes × Bytes)} {entry : Bytes × Bytes}

theorem delivers_of_isPrefix (isPrefix : cf.prefixBytes <+: entry.1) :
    delivers cf entry = true := by
  rw [delivers, CfName.shows_of_isPrefix isPrefix, decide_eq_true isPrefix.length_le,
    Bool.and_true]

theorem itemKey_of_delivers (delivered : delivers cf entry = true) :
    ∃ key, cf.itemKey entry = .ok key := by
  rw [delivers, Bool.and_eq_true, decide_eq_true_eq] at delivered
  exact ⟨_, slice_eq_ok delivered.2 le_rfl⟩

theorem delivers_of_itemKey {key : Bytes} (shown : cf.shows entry = true)
    (cut : cf.itemKey entry = .ok key) : delivers cf entry = true := by
  rw [delivers, shown, Bool.true_and, decide_eq_true_eq]
  rw [CfName.itemKey, slice] at cut
  split at cut
  · rename_i fits
    exact fits.1
  · cases cut

theorem collect_db : collect limit { db, cf, remaining } =
    collect limit { db := after, cf, remaining } := by
  induction limit generalizing remaining with
  | zero => rfl
  | succ limit induction =>
    cases remaining with
    | nil => rfl
    | cons entry rest =>
      by_cases shown : cf.shows entry = true
      · rw [collect_of_shown shown, collect_of_shown shown, induction]
      · rw [collect_of_hidden shown, collect_of_hidden shown]

theorem collect_append (stops : (∀ entry ∈ early, delivers cf entry = true) →
    ∀ entry ∈ late.head?, ¬ cf.shows entry = true) :
    collect limit { db, cf, remaining := early ++ late } =
      collect limit { db, cf, remaining := early } := by
  induction early generalizing limit with
  | nil =>
    rw [nil_append, collect_nil]
    cases late with
    | nil => exact collect_nil
    | cons head rest => exact collect_of_hidden (stops (by simp) head rfl)
  | cons entry rest induction =>
    rw [cons_append]
    by_cases shown : cf.shows entry = true
    · cases limit with
      | zero => rfl
      | succ limit =>
        rw [collect_of_shown shown, collect_of_shown shown]
        cases cut : cf.itemKey entry with
        | error fault => rfl
        | ok key =>
          rw [induction]
          intro delivered
          apply stops
          intro any member
          rcases mem_cons.mp member with rfl | inRest
          · exact delivers_of_itemKey shown cut
          · exact delivered any inRest
    · rw [collect_of_hidden shown, collect_of_hidden shown]

theorem collect_append_ne (delivered : ∀ entry ∈ early, delivers cf entry = true)
    (shown : cf.shows entry = true) :
    collect (early.length + 1) { db, cf, remaining := early ++ entry :: late } ≠
      collect (early.length + 1) { db, cf, remaining := early } := by
  induction early with
  | nil =>
    rw [nil_append, length_nil, collect_nil, collect_of_shown shown]
    intro same
    rcases Fallible.bind_eq_ok_iff.mp same with ⟨key, _, further⟩
    rcases Fallible.bind_eq_ok_iff.mp further with ⟨others, _, impossible⟩
    cases impossible
  | cons first rest induction =>
    have firstDelivered := delivered first mem_cons_self
    have firstShown : cf.shows first = true := by
      rw [delivers, Bool.and_eq_true] at firstDelivered
      exact firstDelivered.1
    rcases itemKey_of_delivers firstDelivered with ⟨key, cut⟩
    rw [cons_append, length_cons, collect_of_shown firstShown,
      collect_of_shown firstShown, cut]
    intro same
    apply induction fun any member => delivered any (mem_cons_of_mem first member)
    revert same
    cases collect (rest.length + 1) { db, cf, remaining := rest ++ entry :: late } with
    | error fault =>
      cases collect (rest.length + 1) { db, cf, remaining := rest } with
      | error other => exact fun same => same
      | ok kvs => exact fun same => by cases same
    | ok kvs =>
      cases collect (rest.length + 1) { db, cf, remaining := rest } with
      | error other => exact fun same => by cases same
      | ok others =>
        intro same
        exact congrArg Except.ok (List.cons.inj (Except.ok.inj same)).2

end Walks

section Scans

variable {storage after : RawStorage} {cf other : CfName} {key startKey : Bytes} {limit : Nat}

theorem Apart.symm (apart : Apart cf other) : Apart other cf := ⟨apart.2, apart.1⟩

theorem Apart.not_shows (apart : Apart cf other) (different : cf ≠ other) (key value : Bytes) :
    ¬ other.shows (cf.keyWithCf key, value) = true := by
  intro shown
  rw [CfName.shows, isPrefixOf_iff_prefix, CfName.keyWithCf_eq,
    lossyCharacters_append cf.valid_prefixBytes] at shown
  rcases prefix_or_prefix_of_prefix shown (prefix_append _ _) with isPrefix | isPrefix
  · rw [← CfName.lossyCharacters_prefixBytes,
      lossyCharacters_isPrefix_iff other.valid_prefixBytes cf.valid_prefixBytes] at isPrefix
    exact apart.not_isPrefix different key (isPrefix.trans (cf.isPrefix_keyWithCf key))
  · rw [← CfName.lossyCharacters_prefixBytes,
      lossyCharacters_isPrefix_iff cf.valid_prefixBytes other.valid_prefixBytes] at isPrefix
    exact apart.symm.not_isPrefix different.symm [] (isPrefix.trans (other.isPrefix_keyWithCf []))

theorem rawScan_eq_collect (storage : RawStorage) (cf : CfName) (startKey : Bytes) (limit : Nat) :
    rawScan storage cf startKey limit =
      collect limit ⟨storage.db, cf, storage.db.seek (cf.prefixBytes ++ startKey)⟩ := rfl

variable {position : Bytes}

theorem EndsBefore.congr {db next : OrderedMap Bytes Bytes}
    (agree : ∀ any, any ≠ position → next.get? any = db.get? any)
    (ends : EndsBefore db other position) : EndsBefore next other position := by
  rw [EndsBefore, between_congr agree, after_congr agree]
  exact ends

theorem rawScan_eq_between (atLeast : other.prefixBytes ++ startKey ≤ position)
    (hidden : ∀ value, ¬ other.shows (position, value) = true)
    (ends : EndsBefore storage.db other position) :
    rawScan storage other startKey limit =
      collect limit ⟨storage.db, other,
        storage.db.between (other.prefixBytes ++ startKey) position⟩ := by
  rw [rawScan_eq_collect, seek_eq_append _ atLeast]
  apply collect_append
  intro delivered entry isNext
  cases present : storage.db.get? position with
  | some value =>
    rw [present] at isNext
    rw [← Option.some.inj isNext]
    exact hidden value
  | none =>
    rw [present] at isNext
    have start := le_of_isPrefix (prefix_append other.prefixBytes startKey)
    apply ends (start.trans atLeast) _ entry isNext
    intro any member
    rcases mem_between.mp member with ⟨inside, above, below⟩
    by_cases reached : other.prefixBytes ++ startKey ≤ any.1
    · exact delivered any (mem_between.mpr ⟨inside, reached, below⟩)
    · exact delivers_of_isPrefix (isPrefix_of_between prefix_rfl
        (prefix_append _ _) above (not_le.mp reached).le)

theorem rawScan_congr (apart : Apart cf other) (different : cf ≠ other)
    (neverCut : NeverCut storage.db cf other)
    (agree : ∀ any, any ≠ cf.keyWithCf key → after.db.get? any = storage.db.get? any) :
    rawScan after other startKey limit = rawScan storage other startKey limit := by
  by_cases before : cf.keyWithCf key < other.prefixBytes ++ startKey
  · rw [rawScan_eq_collect, rawScan_eq_collect, seek_congr before agree, collect_db]
  · have hidden := apart.not_shows different key
    rw [rawScan_eq_between (not_lt.mp before) hidden ((neverCut key).congr agree),
      rawScan_eq_between (not_lt.mp before) hidden (neverCut key),
      between_congr agree, collect_db]

theorem rawScan_of_present {value : Bytes} (atLeast : other.prefixBytes ≤ position)
    (present : storage.db.get? position = some value)
    (hidden : ¬ other.shows (position, value) = true) :
    rawScan storage other [] limit =
      collect limit ⟨storage.db, other, storage.db.between other.prefixBytes position⟩ := by
  rw [rawScan_eq_collect, append_nil, seek_eq_append _ atLeast, present]
  apply collect_append
  intro _ entry isNext
  rw [← Option.some.inj isNext]
  exact hidden

theorem rawScan_of_absent {entry : Bytes × Bytes}
    {rest : List (Bytes × Bytes)} (atLeast : other.prefixBytes ≤ position)
    (absent : storage.db.get? position = none)
    (delivered : ∀ entry ∈ storage.db.between other.prefixBytes position,
      delivers other entry = true)
    (next : storage.db.after (some position) = entry :: rest) (shown : other.shows entry = true) :
    rawScan storage other [] ((storage.db.between other.prefixBytes position).length + 1) ≠
      collect ((storage.db.between other.prefixBytes position).length + 1)
        ⟨storage.db, other, storage.db.between other.prefixBytes position⟩ := by
  rw [rawScan_eq_collect, append_nil, seek_eq_append _ atLeast, absent, next]
  exact collect_append_ne delivered shown

theorem agree_rawPut (storage : RawStorage) (cf : CfName) (key value : Bytes) :
    ∀ any, any ≠ cf.keyWithCf key →
      (rawPut storage cf key value).db.get? any = storage.db.get? any := by
  intro any different
  rw [get?_rawPut, if_neg different.symm]

theorem agree_rawDelete (storage : RawStorage) (cf : CfName) (key : Bytes) :
    ∀ any, any ≠ cf.keyWithCf key →
      (rawDelete storage cf key).db.get? any = storage.db.get? any := by
  intro any different
  rw [get?_rawDelete, if_neg different.symm]

theorem neverCut_of_isolated (apart : Apart cf other) (different : cf ≠ other)
    (isolated : Isolated storage cf other) : NeverCut storage.db cf other := by
  intro key atLeast delivered entry isNext shown
  have hidden := apart.not_shows different key
  cases next : storage.db.after (some (cf.keyWithCf key)) with
  | nil =>
    rw [next] at isNext
    cases isNext
  | cons head rest =>
    rw [next] at isNext
    rw [← Option.some.inj isNext] at shown
    cases present : storage.db.get? (cf.keyWithCf key) with
    | none =>
      have agree := agree_rawPut storage cf key []
      have put : (rawPut storage cf key []).db.get? (cf.keyWithCf key) = some [] := by
        rw [get?_rawPut, if_pos rfl]
      apply rawScan_of_absent atLeast present delivered next shown
      rw [← (isolated.1 key []).2, rawScan_of_present atLeast put (hidden []),
        between_congr agree, collect_db]
    | some value =>
      have agree := agree_rawDelete storage cf key
      have deleted : (rawDelete storage cf key).db.get? (cf.keyWithCf key) = none := by
        rw [get?_rawDelete, if_pos rfl]
      rw [← between_congr agree] at delivered
      rw [← after_congr agree] at next
      apply rawScan_of_absent atLeast deleted delivered next shown
      rw [(isolated.2 key).2, rawScan_of_present atLeast present (hidden value),
        between_congr agree, collect_db]

end Scans

/-! ## Isolation -/

section Isolation

variable {storage : RawStorage} {cf other : CfName} {key : Bytes}

theorem rawScan_rawPut_same {otherKey : Bytes} (storage : RawStorage) (value : Bytes)
    (sameKey : cf.keyWithCf key = other.keyWithCf otherKey) :
    rawScan (rawPut storage cf key value) other otherKey 1 = .ok [(otherKey, value)] := by
  have present : (rawPut storage cf key value).db.get? (other.keyWithCf otherKey) =
      some value := by
    rw [get?_rawPut, if_pos sameKey]
  have nothing : (rawPut storage cf key value).db.between (other.keyWithCf otherKey)
      (other.keyWithCf otherKey) = [] := by
    rw [eq_nil_iff_forall_not_mem]
    intro entry member
    rcases mem_between.mp member with ⟨_, above, below⟩
    exact absurd below (not_lt.mpr above)
  rw [rawScan_eq_collect, ← CfName.keyWithCf_eq, seek_eq_append _ le_rfl, nothing,
    present]
  change collect 1 ⟨_, other, (other.keyWithCf otherKey, value) :: _⟩ = _
  rw [collect_of_shown (CfName.shows_of_isPrefix (other.isPrefix_keyWithCf otherKey)),
    other.itemKey_append]
  rfl

theorem shared_of_continues (continues : Continues cf other) :
    (∃ key otherKey, cf.keyWithCf key = other.keyWithCf otherKey) ∨
      ∃ key otherKey, cf.cacheKey key = other.cacheKey otherKey := by
  rcases continues with ⟨rest, same⟩ | ⟨rest, same⟩
  · refine .inl ⟨[], rest ++ [0x5F], ?_⟩
    simp [CfName.keyWithCf, ← same]
  · refine .inr ⟨[], rest ++ [0x3A], ?_⟩
    have colon : ∀ text : Bytes, lossyCharacters (0x3A :: text) = ':' :: lossyCharacters text :=
      fun text => lossyCharacters_cons_ascii (by decide) text
    have valid := cf.valid
    rw [← same, append_assoc, validUtf8_append other.valid,
      validUtf8_append (by decide +kernel)] at valid
    rw [CfName.cacheKey, CfName.cacheKey, CfName.characters, ← same, append_assoc,
      lossyCharacters_append other.valid, singleton_append, colon,
      lossyCharacters_append valid, colon, CfName.characters]
    simp

theorem apart_of_isolated (isolated : Isolated storage cf other) : Apart cf other := by
  have keysDiffer : ∀ key otherKey, cf.keyWithCf key ≠ other.keyWithCf otherKey := by
    intro key otherKey sameKey
    have first := (isolated.1 key [0]).2 otherKey 1
    have second := (isolated.1 key [1]).2 otherKey 1
    rw [rawScan_rawPut_same storage _ sameKey] at first second
    rw [← second] at first
    exact absurd first (by simp)
  have cacheKeysDiffer : ∀ key otherKey, cf.cacheKey key ≠ other.cacheKey otherKey := by
    intro key otherKey sameKey
    have first := (isolated.1 key [0]).1 otherKey
    have second := (isolated.1 key [1]).1 otherKey
    rw [rawGet_rawPut_same storage _ sameKey.symm] at first second
    rw [← second] at first
    exact absurd first (by decide)
  constructor
  · intro continues
    rcases shared_of_continues continues with ⟨key, otherKey, same⟩ | ⟨key, otherKey, same⟩
    · exact keysDiffer key otherKey same
    · exact cacheKeysDiffer key otherKey same
  · intro continues
    rcases shared_of_continues continues with ⟨otherKey, key, same⟩ | ⟨otherKey, key, same⟩
    · exact keysDiffer key otherKey same.symm
    · exact cacheKeysDiffer key otherKey same.symm

/-- Writes to one family change no answer of another exactly if neither name continues the
other with a separator, the cache is not about to drop an outdated value of the other family,
and no key of the first family comes in between what scans of the other deliver. -/
theorem isolated_iff (storage : RawStorage) (cf other : CfName) (different : cf ≠ other) :
    Isolated storage cf other ↔
      Apart cf other ∧ OldestIsCurrent storage other ∧ NeverCut storage.db cf other := by
  constructor
  · intro isolated
    have apart := apart_of_isolated isolated
    exact ⟨apart, oldestIsCurrent_of_isolated apart different isolated,
      neverCut_of_isolated apart different isolated⟩
  · intro ⟨apart, current, neverCut⟩
    constructor
    · intro key value
      exact ⟨rawGet_rawPut apart different current key value,
        fun _ _ => rawScan_congr apart different neverCut (agree_rawPut storage cf key value)⟩
    · intro key
      exact ⟨rawGet_rawDelete apart different key,
        fun _ _ => rawScan_congr apart different neverCut (agree_rawDelete storage cf key)⟩

theorem neverCut_of_valid {db : OrderedMap Bytes Bytes} (apart : Apart cf other)
    (different : cf ≠ other) (valid : ∀ entry ∈ db.entries, validUtf8 entry.1 = true) :
    NeverCut db cf other := by
  intro key atLeast _ entry isNext shown
  rcases mem_after_some.mp (mem_of_mem_head? isNext) with ⟨member, above⟩
  have isPrefix := (CfName.shows_iff_of_valid (valid entry member)).mp shown
  have below := lt_of_le_of_not_isPrefix isPrefix atLeast (apart.not_isPrefix different key)
  exact above.asymm below

end Isolation

def oneWritten : RawStorage :=
  rawPut (.new (newCache 1000 (by decide))) Cf.write.name [0x6B] [1]

theorem isolated_oneWritten : Isolated oneWritten Cf.default.name Cf.write.name := by
  refine (isolated_iff oneWritten Cf.default.name Cf.write.name (by decide)).mpr
    ⟨by decide, ?_, neverCut_of_valid (by decide) (by decide) (by decide +kernel)⟩
  intro key value isOldest
  rw [show oneWritten.cache.oldest = none from rfl] at isOldest
  cases isOldest

def shortName : CfName := ⟨[0x61], by decide +kernel⟩

def longName : CfName := ⟨[0x61, 0x5F, 0x62], by decide +kernel⟩

/-- The key `b_k` of the family `a` is the key `k` of the family `a_b`. -/
theorem rawPut_seen_in_other_family :
    (rawGet oneWritten longName [0x6B]).1 = none ∧
      (rawGet (rawPut oneWritten shortName [0x62, 0x5F, 0x6B] [7]) longName [0x6B]).1 =
        some [7] ∧
      rawScan oneWritten longName [] 10 = .ok [] ∧
      rawScan (rawPut oneWritten shortName [0x62, 0x5F, 0x6B] [7]) longName [] 10 =
        .ok [([0x6B], [7])] :=
  ⟨by decide +kernel, by decide +kernel, by decide +kernel, by decide +kernel⟩

end AegisDB.Server
