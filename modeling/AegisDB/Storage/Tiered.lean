import AegisDB.Storage.Standalone

/-! # The storage in three tiers

`storage/tiered_storage.rs`: a hot, a warm and a cold database. Writes go to the warm
one, reads look into the three in turn, and a background round moves keys up and down
by how often they were used. Arithmetic on the counts is that of `u32`. -/

namespace AegisDB.Storage

open Foundation Function OrderedMap FlatStore

inductive Tier where
  | hot
  | warm
  | cold
deriving DecidableEq, Repr

def Tier.position : Tier → Nat
  | .hot => 0
  | .warm => 1
  | .cold => 2

/-! ## Copies of one key -/

abbrev Copies := Tier → Option Bytes

namespace Copies

def first (copies : Copies) : Option Bytes :=
  ((copies .hot).or (copies .warm)).or (copies .cold)

def holder (copies : Copies) : Option Tier :=
  if (copies .hot).isSome then some .hot
  else if (copies .warm).isSome then some .warm
  else if (copies .cold).isSome then some .cold
  else none

end Copies

inductive Tier.Adjacent : Tier → Tier → Prop
  | cool : Adjacent .hot .warm
  | heat : Adjacent .warm .hot
  | freeze : Adjacent .warm .cold
  | thaw : Adjacent .cold .warm

theorem Copies.first_move {copies : Copies} {source target : Tier} {value : Bytes}
    (adjacent : source.Adjacent target) (present : copies source = some value)
    (safe : copies.holder ≠ some target) :
    Copies.first (update (update copies target (some value)) source none) =
      copies.first := by
  cases adjacent with
  | cool => simp [first, present]
  | heat =>
    cases hot : copies .hot with
    | none => simp [first, present, hot]
    | some value => exact absurd (by simp [holder, hot]) safe
  | freeze => cases hot : copies .hot <;> simp [first, present, hot]
  | thaw =>
    cases hot : copies .hot with
    | some value => simp [first, hot]
    | none =>
      cases warm : copies .warm with
      | none => simp [first, present, hot, warm]
      | some value => exact absurd (by simp [holder, hot, warm]) safe

theorem Copies.exists_first {copies : Copies} {tier : Tier} (present : copies tier ≠ none) :
    ∃ value, copies.first = some value := by
  rw [← Option.ne_none_iff_exists']
  intro nothing
  simp only [first, Option.or_eq_none_iff] at nothing
  cases tier with
  | hot => exact present nothing.1.1
  | warm => exact present nothing.1.2
  | cold => exact present nothing.2

theorem Copies.exists_of_first {copies : Copies} {value : Bytes}
    (found : copies.first = some value) : ∃ tier, copies tier = some value := by
  simp only [first, Option.or_eq_some_iff] at found
  rcases found with (hot | ⟨_, warm⟩) | ⟨_, cold⟩
  · exact ⟨.hot, hot⟩
  · exact ⟨.warm, warm⟩
  · exact ⟨.cold, cold⟩

theorem Copies.first_eq_none {copies : Copies} (absent : ∀ tier, copies tier = none) :
    copies.first = none := by
  simp [first, absent]

theorem Copies.first_put_warm {copies : Copies} {value : Bytes} (absent : copies .hot = none) :
    Copies.first (update copies .warm (some value)) = some value := by
  simp [first, absent]

/-! ## The databases -/

abbrev Tiers := Tier → OrderedMap Bytes Bytes

namespace Tiers

def empty : Tiers := fun _ => .empty

def put (tiers : Tiers) (tier : Tier) (key value : Bytes) : Tiers :=
  update tiers tier ((tiers tier).insert key value)

def delete (tiers : Tiers) (tier : Tier) (key : Bytes) : Tiers :=
  update tiers tier ((tiers tier).erase key)

def copies (tiers : Tiers) (key : Bytes) : Copies := fun tier => (tiers tier).get? key

variable {tiers : Tiers} {tier : Tier} {key other value : Bytes}

@[simp] theorem copies_put_same :
    (tiers.put tier key value).copies key =
      update (tiers.copies key) tier (some value) := by
  funext place
  by_cases same : place = tier
  · subst same
    simp [put, copies]
  · simp [put, copies, same]

theorem copies_put_other (different : other ≠ key) :
    (tiers.put tier key value).copies other = tiers.copies other := by
  funext place
  by_cases same : place = tier
  · subst same
    simp [put, copies, get?_insert_other _ _ different]
  · simp [put, copies, same]

@[simp] theorem copies_delete_same :
    (tiers.delete tier key).copies key = update (tiers.copies key) tier none := by
  funext place
  by_cases same : place = tier
  · subst same
    simp [delete, copies]
  · simp [delete, copies, same]

theorem copies_delete_other (different : other ≠ key) :
    (tiers.delete tier key).copies other = tiers.copies other := by
  funext place
  by_cases same : place = tier
  · subst same
    simp [delete, copies, get?_erase_other _ different]
  · simp [delete, copies, same]

def move (tiers : Tiers) (source target : Tier) (key value : Bytes) : Tiers :=
  (tiers.put target key value).delete source key

theorem copies_move_same {source target : Tier} :
    (tiers.move source target key value).copies key =
      update (update (tiers.copies key) target (some value)) source none := by
  rw [move, copies_delete_same, copies_put_same]

theorem copies_move_other {source target : Tier} (different : other ≠ key) :
    (tiers.move source target key value).copies other = tiers.copies other := by
  rw [move, copies_delete_other different, copies_put_other different]

theorem first_move {source target : Tier} (adjacent : source.Adjacent target)
    (present : tiers.copies key source = some value)
    (safe : (tiers.copies key).holder ≠ some target) (any : Bytes) :
    ((tiers.move source target key value).copies any).first = (tiers.copies any).first := by
  by_cases same : any = key
  · subst same
    rw [copies_move_same, Copies.first_move adjacent present safe]
  · rw [copies_move_other same]

def deleteAll (tiers : Tiers) (key : Bytes) : Tiers :=
  ((tiers.delete .hot key).delete .warm key).delete .cold key

theorem copies_deleteAll_same : (tiers.deleteAll key).copies key = fun _ => none := by
  funext place
  rw [deleteAll, copies_delete_same, copies_delete_same, copies_delete_same]
  cases place <;> simp

theorem copies_deleteAll_other (different : other ≠ key) :
    (tiers.deleteAll key).copies other = tiers.copies other := by
  rw [deleteAll, copies_delete_other different, copies_delete_other different,
    copies_delete_other different]

end Tiers

/-! ## The storage -/

structure TieredStorage where
  tiers : Tiers
  access : LruCache Bytes Nat
  promoteThreshold : Nat
  demoteThreshold : Nat
  hysteresis : Nat

def wrapCount (count : Nat) : Nat := count % 2 ^ 32

namespace TieredStorage

def new (promoteThreshold demoteThreshold hysteresis : Nat) : TieredStorage where
  tiers := .empty
  access := .empty 50000 (by decide)
  promoteThreshold := promoteThreshold
  demoteThreshold := demoteThreshold
  hysteresis := hysteresis

def count (storage : TieredStorage) (encodedKey : Bytes) : Nat :=
  (storage.access.peek encodedKey).getD 0

def bumpAccess (storage : TieredStorage) (encodedKey : Bytes) : TieredStorage :=
  { storage with
    access := storage.access.put encodedKey (min (storage.count encodedKey + 1) (2 ^ 32 - 1)) }

def decideTarget (storage : TieredStorage) (current : Tier) (count : Nat) : Tier :=
  match current with
  | .hot =>
    if wrapCount (count + storage.hysteresis) ≤ storage.demoteThreshold then .warm else .hot
  | .cold =>
    if wrapCount (storage.promoteThreshold + storage.hysteresis) ≤ count then .warm else .cold
  | .warm =>
    if storage.promoteThreshold ≤ count then .hot
    else if count ≤ storage.demoteThreshold then .cold
    else .warm

theorem decideTarget_cases (storage : TieredStorage) (tier : Tier) (count : Nat) :
    storage.decideTarget tier count = tier ∨ tier.Adjacent (storage.decideTarget tier count) := by
  cases tier with
  | hot =>
    rw [decideTarget]
    split
    · exact .inr .cool
    · exact .inl rfl
  | cold =>
    rw [decideTarget]
    split
    · exact .inr .thaw
    · exact .inl rfl
  | warm =>
    rw [decideTarget]
    split
    · exact .inr .heat
    · split
      · exact .inr .freeze
      · exact .inl rfl

def getCf (storage : TieredStorage) (cf : Cf) (key : Bytes) : Option Bytes × TieredStorage :=
  match (storage.tiers .hot).get? (keyWithCf cf key) with
  | some value => (some value, storage.bumpAccess (keyWithCf cf key))
  | none =>
    match (storage.tiers .warm).get? (keyWithCf cf key) with
    | some value => (some value, storage.bumpAccess (keyWithCf cf key))
    | none =>
      match (storage.tiers .cold).get? (keyWithCf cf key) with
      | some value => (some value, storage.bumpAccess (keyWithCf cf key))
      | none => (none, storage)

theorem getCf_eq_first (storage : TieredStorage) (cf : Cf) (key : Bytes) :
    (storage.getCf cf key).1 = (storage.tiers.copies (keyWithCf cf key)).first := by
  simp only [getCf, Copies.first, Tiers.copies]
  cases (storage.tiers .hot).get? (keyWithCf cf key) with
  | some value => simp
  | none =>
    cases (storage.tiers .warm).get? (keyWithCf cf key) with
    | some value => simp
    | none => cases (storage.tiers .cold).get? (keyWithCf cf key) <;> simp

@[simp] theorem tiers_getCf (storage : TieredStorage) (cf : Cf) (key : Bytes) :
    (storage.getCf cf key).2.tiers = storage.tiers := by
  rw [getCf]
  split
  · rfl
  · split
    · rfl
    · split <;> rfl

def prepare (storage : TieredStorage) : Modify → TieredStorage
  | .put key _ cf => storage.bumpAccess (keyWithCf cf key)
  | .delete key cf => { storage with tiers := storage.tiers.deleteAll (keyWithCf cf key) }

def addPut (warm : OrderedMap Bytes Bytes) : Modify → OrderedMap Bytes Bytes
  | .put key value cf => warm.insert (keyWithCf cf key) value
  | .delete _ _ => warm

def commit (storage : TieredStorage) (batch : List Modify) : TieredStorage :=
  { storage with
    tiers := update storage.tiers .warm (batch.foldl addPut (storage.tiers .warm)) }

def write (storage : TieredStorage) (batch : List Modify) : TieredStorage :=
  (batch.foldl prepare storage).commit batch

/-! ### Rebalancing -/

def maxMovePerRound : Nat := 1000

structure Round where
  storage : TieredStorage
  moved : Nat

def Round.visit (tier : Tier) (round : Round) (entry : Bytes × Bytes) : Round :=
  if round.moved < maxMovePerRound then
    let target := round.storage.decideTarget tier (round.storage.count entry.1)
    if target ≠ tier then
      { storage :=
          { round.storage with
            tiers := round.storage.tiers.move tier target entry.1 entry.2 }
        moved := round.moved + 1 }
    else round
  else round

def Round.scan (round : Round) (tier : Tier) : Round :=
  (round.storage.tiers tier).entries.foldl (Round.visit tier) round

def clearAccess (storage : TieredStorage) : TieredStorage :=
  { storage with access := .empty storage.access.capacity storage.access.positive }

def rebalanceOnce (storage : TieredStorage) : TieredStorage :=
  ([Tier.hot, .warm, .cold].foldl Round.scan { storage, moved := 0 }).storage.clearAccess

end TieredStorage

/-! ## What a write leaves -/

def DeletesFirst (batch : List Modify) : Prop :=
  batch.Pairwise fun earlier later =>
    earlier.value.isSome → later.value = none → ¬ earlier.Touches later.cf later.key

instance decidableDeletesFirst (batch : List Modify) : Decidable (DeletesFirst batch) :=
  inferInstanceAs (Decidable (batch.Pairwise _))

def Puts (batch : List Modify) (cf : Cf) (key : Bytes) : Prop :=
  ∃ modify ∈ batch, modify.value.isSome ∧ modify.Touches cf key

def Deletes (batch : List Modify) (cf : Cf) (key : Bytes) : Prop :=
  ∃ modify ∈ batch, modify.value = none ∧ modify.Touches cf key

namespace TieredStorage

variable {storage : TieredStorage} {batch : List Modify} {cf : Cf} {key : Bytes}

theorem copies_prepare_of_untouched {modify : Modify}
    (untouched : modify.value = none → ¬ modify.Touches cf key) :
    (storage.prepare modify).tiers.copies (keyWithCf cf key) =
      storage.tiers.copies (keyWithCf cf key) := by
  cases modify with
  | put _ _ _ => rfl
  | delete deleted deletedCf =>
    apply Tiers.copies_deleteAll_other
    intro same
    rcases keyWithCf_inj.mp same with ⟨rfl, rfl⟩
    exact untouched rfl ⟨rfl, rfl⟩

theorem copies_foldl_prepare_of_untouched (untouched : ¬ Deletes batch cf key) :
    (batch.foldl prepare storage).tiers.copies (keyWithCf cf key) =
      storage.tiers.copies (keyWithCf cf key) := by
  induction batch generalizing storage with
  | nil => rfl
  | cons head rest induction =>
    rw [List.foldl_cons, induction, copies_prepare_of_untouched]
    · intro isDelete touches
      exact untouched ⟨head, List.mem_cons_self, isDelete, touches⟩
    · intro ⟨modify, member, isDelete, touches⟩
      exact untouched ⟨modify, List.mem_cons_of_mem head member, isDelete, touches⟩

theorem copies_prepare_eq_none {modify : Modify} {tier : Tier}
    (absent : storage.tiers.copies (keyWithCf cf key) tier = none) :
    (storage.prepare modify).tiers.copies (keyWithCf cf key) tier = none := by
  by_cases deletes : modify.value = none ∧ modify.Touches cf key
  · cases modify with
    | put _ _ _ => exact absent
    | delete deleted deletedCf =>
      rcases deletes.2 with ⟨rfl, rfl⟩
      exact congrFun Tiers.copies_deleteAll_same tier
  · rw [copies_prepare_of_untouched fun isDelete touches => deletes ⟨isDelete, touches⟩]
    exact absent

theorem copies_foldl_prepare_eq_none {tier : Tier}
    (absent : storage.tiers.copies (keyWithCf cf key) tier = none) :
    (batch.foldl prepare storage).tiers.copies (keyWithCf cf key) tier = none := by
  induction batch generalizing storage with
  | nil => exact absent
  | cons head rest induction => exact induction (copies_prepare_eq_none absent)

theorem copies_foldl_prepare_of_deletes (deletes : Deletes batch cf key) (tier : Tier) :
    (batch.foldl prepare storage).tiers.copies (keyWithCf cf key) tier = none := by
  rcases deletes with ⟨modify, member, isDelete, touches⟩
  rcases List.append_of_mem member with ⟨before, after, rfl⟩
  rw [List.foldl_append, List.foldl_cons]
  apply copies_foldl_prepare_eq_none
  cases modify with
  | put _ _ _ => cases isDelete
  | delete deleted deletedCf =>
    rcases touches with ⟨rfl, rfl⟩
    exact congrFun Tiers.copies_deleteAll_same tier

theorem get?_addPut (warm : OrderedMap Bytes Bytes) (modify : Modify) :
    (addPut warm modify).get? (keyWithCf cf key) =
      if modify.value.isSome ∧ modify.Touches cf key then modify.value
      else warm.get? (keyWithCf cf key) := by
  cases modify with
  | put newKey value newCf =>
    change (applyEncoded warm (.put newKey value newCf)).get? (keyWithCf cf key) = _
    rw [get?_applyEncoded]
    simp [Modify.value]
  | delete _ _ => rfl

theorem get?_foldl_addPut_of_not_puts {warm : OrderedMap Bytes Bytes}
    (untouched : ¬ Puts batch cf key) :
    (batch.foldl addPut warm).get? (keyWithCf cf key) = warm.get? (keyWithCf cf key) := by
  induction batch generalizing warm with
  | nil => rfl
  | cons head rest induction =>
    rw [List.foldl_cons, induction, get?_addPut, if_neg]
    · intro puts
      exact untouched ⟨head, List.mem_cons_self, puts⟩
    · intro ⟨modify, member, puts⟩
      exact untouched ⟨modify, List.mem_cons_of_mem head member, puts⟩

theorem get?_foldl_addPut_of_puts (warm : OrderedMap Bytes Bytes) (store : FlatStore)
    (orderly : DeletesFirst batch) (puts : Puts batch cf key) :
    ∃ value, (batch.foldl addPut warm).get? (keyWithCf cf key) = some value ∧
      (store.write batch cf).get? key = some value := by
  rcases puts with ⟨modify, member, isPut, touches⟩
  induction batch using List.reverseRecOn with
  | nil => cases member
  | append_singleton earlier last induction =>
    rcases List.pairwise_append.mp orderly with ⟨orderlyBefore, _, apart⟩
    rw [List.foldl_append, List.foldl_cons, List.foldl_nil, get?_addPut, write_append,
      write_cons, write_nil, get?_apply]
    by_cases lastTouches : last.Touches cf key
    · -- The last modification is not a delete: an earlier put would have come before it.
      have lastPuts : last.value.isSome := by
        rcases List.mem_append.mp member with inEarlier | isLast
        · by_contra isDelete
          apply apart modify inEarlier last List.mem_cons_self isPut (by simpa using isDelete)
          rw [lastTouches.1, lastTouches.2]
          exact touches
        · rwa [← List.mem_singleton.mp isLast]
      rcases Option.isSome_iff_exists.mp lastPuts with ⟨value, present⟩
      exact ⟨value, by rw [if_pos ⟨lastPuts, lastTouches⟩, present],
        by rw [if_pos lastTouches, present]⟩
    · rw [if_neg lastTouches, if_neg fun both => lastTouches both.2]
      apply induction orderlyBefore
      rcases List.mem_append.mp member with inEarlier | isLast
      · exact inEarlier
      · rw [List.mem_singleton.mp isLast] at touches
        exact absurd touches lastTouches

theorem get?_write_of_deletes (store : FlatStore) (notPut : ¬ Puts batch cf key)
    (deletes : Deletes batch cf key) : (store.write batch cf).get? key = none := by
  rcases store.get?_write_cases batch cf key with ⟨untouched, _⟩ | ⟨modify, member, touches, set⟩
  · rcases deletes with ⟨modify, member, _, touches⟩
    exact absurd touches (untouched modify member)
  · rw [set]
    by_contra isPut
    exact notPut ⟨modify, member, Option.isSome_iff_ne_none.mpr isPut, touches⟩

theorem get?_write_of_neither (store : FlatStore) (notPut : ¬ Puts batch cf key)
    (notDeleted : ¬ Deletes batch cf key) :
    (store.write batch cf).get? key = (store cf).get? key := by
  apply get?_write_of_untouched
  intro modify member touches
  cases value : modify.value with
  | none => exact notDeleted ⟨modify, member, value, touches⟩
  | some _ => exact notPut ⟨modify, member, by simp [value], touches⟩

theorem copies_commit (tier : Tier) :
    (storage.commit batch).tiers.copies (keyWithCf cf key) tier =
      if tier = .warm then (batch.foldl addPut (storage.tiers .warm)).get? (keyWithCf cf key)
      else storage.tiers.copies (keyWithCf cf key) tier := by
  rw [commit, Tiers.copies]
  dsimp only
  rw [update_apply]
  split <;> rfl

theorem copies_commit_of_not_puts (untouched : ¬ Puts batch cf key) :
    (storage.commit batch).tiers.copies (keyWithCf cf key) =
      storage.tiers.copies (keyWithCf cf key) := by
  funext tier
  rw [copies_commit]
  split_ifs with isWarm
  · rw [get?_foldl_addPut_of_not_puts untouched, isWarm]
    rfl
  · rfl

theorem copies_commit_of_puts (storage : TieredStorage) (store : FlatStore)
    (orderly : DeletesFirst batch) (puts : Puts batch cf key) :
    ∃ value, (storage.commit batch).tiers.copies (keyWithCf cf key) =
        update (storage.tiers.copies (keyWithCf cf key)) .warm (some value) ∧
      (store.write batch cf).get? key = some value := by
  rcases get?_foldl_addPut_of_puts (storage.tiers .warm) store orderly puts with
    ⟨value, added, kept⟩
  refine ⟨value, ?_, kept⟩
  funext tier
  rw [copies_commit, update_apply, added]

end TieredStorage

def Tiers.Reads (tiers : Tiers) (store : FlatStore) : Prop :=
  ∀ cf key, (tiers.copies (keyWithCf cf key)).first = (store cf).get? key

def Unheated (tiers : Tiers) (batch : List Modify) : Prop :=
  ∀ modify ∈ batch, modify.value.isSome →
    tiers.copies (keyWithCf modify.cf modify.key) .hot = none

instance decidableUnheated (tiers : Tiers) (batch : List Modify) :
    Decidable (Unheated tiers batch) :=
  inferInstanceAs (Decidable (∀ modify ∈ batch, modify.value.isSome → _))

namespace TieredStorage

variable {storage : TieredStorage} {store : FlatStore} {batch : List Modify}

theorem reads_write (reads : storage.tiers.Reads store) (orderly : DeletesFirst batch)
    (unheated : Unheated storage.tiers batch) :
    (storage.write batch).tiers.Reads (store.write batch) := by
  intro cf key
  rw [write]
  by_cases puts : Puts batch cf key
  · have absent : storage.tiers.copies (keyWithCf cf key) .hot = none := by
      rcases puts with ⟨modify, member, isPut, rfl, rfl⟩
      exact unheated modify member isPut
    rcases copies_commit_of_puts (batch.foldl prepare storage) store orderly puts with
      ⟨value, added, kept⟩
    rw [added, kept, Copies.first_put_warm (copies_foldl_prepare_eq_none absent)]
  · rw [copies_commit_of_not_puts puts]
    by_cases deletes : Deletes batch cf key
    · rw [get?_write_of_deletes store puts deletes,
        Copies.first_eq_none (copies_foldl_prepare_of_deletes deletes)]
    · rw [copies_foldl_prepare_of_untouched deletes, get?_write_of_neither store puts deletes]
      exact reads cf key

/-! ## What a round leaves -/

def Round.Keeps (tier : Tier) (round : Round) (entry : Bytes × Bytes) : Prop :=
  round.moved < maxMovePerRound →
    round.storage.decideTarget tier (round.storage.count entry.1) ≠ tier →
      (round.storage.tiers.copies entry.1).holder ≠
        some (round.storage.decideTarget tier (round.storage.count entry.1))

instance Round.decidableKeeps (tier : Tier) (round : Round) (entry : Bytes × Bytes) :
    Decidable (round.Keeps tier entry) :=
  inferInstanceAs (Decidable (_ → _ → _))

def Round.KeepsAll (round : Round) (tier : Tier) : Prop :=
  Guarded (Round.visit tier) (Round.Keeps tier) round (round.storage.tiers tier).entries

instance Round.decidableKeepsAll (round : Round) (tier : Tier) : Decidable (round.KeepsAll tier) :=
  inferInstanceAs (Decidable (Guarded _ _ _ _))

section Rounds

variable {tier : Tier} {round : Round} {entry : Bytes × Bytes}

theorem Round.copies_visit_other {other : Bytes} (different : other ≠ entry.1) :
    (round.visit tier entry).storage.tiers.copies other = round.storage.tiers.copies other := by
  rw [visit]
  split
  · dsimp only
    split
    · exact Tiers.copies_move_other different
    · rfl
  · rfl

theorem Round.first_visit (present : round.storage.tiers.copies entry.1 tier = some entry.2)
    (keeps : round.Keeps tier entry) (key : Bytes) :
    ((round.visit tier entry).storage.tiers.copies key).first =
      (round.storage.tiers.copies key).first := by
  rw [visit]
  split_ifs with below
  · dsimp only
    split_ifs with moves
    · have adjacent := (round.storage.decideTarget_cases tier _).resolve_left moves
      exact Tiers.first_move adjacent present (keeps below moves) key
    · rfl
  · rfl

theorem Round.first_foldl_visit {rest : List (Bytes × Bytes)}
    (present : ∀ entry ∈ rest, round.storage.tiers.copies entry.1 tier = some entry.2)
    (distinct : (rest.map Prod.fst).Nodup)
    (guarded : Guarded (Round.visit tier) (Round.Keeps tier) round rest) (key : Bytes) :
    ((rest.foldl (Round.visit tier) round).storage.tiers.copies key).first =
      (round.storage.tiers.copies key).first := by
  induction rest generalizing round with
  | nil => rfl
  | cons entry rest induction =>
    rw [List.map_cons, List.nodup_cons] at distinct
    rw [List.foldl_cons, induction _ distinct.2 guarded.2]
    · exact first_visit (present entry List.mem_cons_self) guarded.1 key
    · intro other member
      rw [copies_visit_other]
      · exact present other (List.mem_cons_of_mem entry member)
      · intro same
        exact distinct.1 (same ▸ List.mem_map_of_mem member)

theorem Round.first_scan (keepsAll : round.KeepsAll tier) (key : Bytes) :
    ((round.scan tier).storage.tiers.copies key).first =
      (round.storage.tiers.copies key).first := by
  apply first_foldl_visit _ (keys_nodup _) keepsAll
  intro entry member
  exact get?_eq_some_iff.mpr member

theorem Round.first_foldl_scan {tiers : List Tier}
    (guarded : Guarded Round.scan Round.KeepsAll round tiers) (key : Bytes) :
    ((tiers.foldl Round.scan round).storage.tiers.copies key).first =
      (round.storage.tiers.copies key).first := by
  induction tiers generalizing round with
  | nil => rfl
  | cons tier rest induction => rw [List.foldl_cons, induction guarded.2, first_scan guarded.1]

end Rounds

end TieredStorage

/-! ## Runs -/

inductive TieredCall where
  | call (call : StorageCall)
  | rebalance
deriving DecidableEq, Repr

namespace TieredCall

def Once : TieredCall → Prop
  | .call (.write batch) => (batch.map fun modify => (modify.cf, modify.key)).Nodup
  | .call (.get _ _) | .rebalance => True

instance decidableOnce (call : TieredCall) : Decidable call.Once := by
  rcases call with (_ | _) | _ <;> unfold Once <;> infer_instance

end TieredCall

def FlatStore.actTiered (store : FlatStore) : TieredCall → FlatStore
  | .call call => store.act call
  | .rebalance => store

theorem deletesFirst_of_nodup {batch : List Modify}
    (once : (batch.map fun modify => (modify.cf, modify.key)).Nodup) : DeletesFirst batch := by
  rw [List.Nodup, List.pairwise_map] at once
  refine once.imp fun different _ _ touches => different ?_
  rw [touches.1, touches.2]

namespace TieredStorage

def act (storage : TieredStorage) : TieredCall → TieredStorage
  | .call (.write batch) => storage.write batch
  | .call (.get cf key) => (storage.getCf cf key).2
  | .rebalance => storage.rebalanceOnce

/-- If the visit moves the key, it does not overwrite the copy that reads find. -/
def Keeps (storage : TieredStorage) : TieredCall → Prop
  | .call (.write batch) => Unheated storage.tiers batch
  | .call (.get _ _) => True
  | .rebalance => Guarded Round.scan Round.KeepsAll { storage, moved := 0 } [.hot, .warm, .cold]

instance decidableKeeps (storage : TieredStorage) (call : TieredCall) :
    Decidable (storage.Keeps call) := by
  rcases call with (_ | _) | _ <;> unfold Keeps <;> infer_instance

theorem reads_act {storage : TieredStorage} {store : FlatStore} {call : TieredCall}
    (reads : storage.tiers.Reads store) (once : call.Once) (keeps : storage.Keeps call) :
    (storage.act call).tiers.Reads (store.actTiered call) := by
  cases call with
  | rebalance =>
    intro cf key
    exact (Round.first_foldl_scan keeps (keyWithCf cf key)).trans (reads cf key)
  | call call =>
    cases call with
    | write batch => exact reads_write reads (deletesFirst_of_nodup once) keeps
    | get cf key =>
      rw [act, tiers_getCf]
      exact reads

theorem reads_run {storage : TieredStorage} {store : FlatStore} {calls : List TieredCall}
    (reads : storage.tiers.Reads store) (once : ∀ call ∈ calls, call.Once)
    (guarded : Guarded act Keeps storage calls) :
    (calls.foldl act storage).tiers.Reads (calls.foldl actTiered store) := by
  induction calls generalizing storage store with
  | nil => exact reads
  | cons call rest induction =>
    apply induction (reads_act reads (once call List.mem_cons_self) guarded.1) _ guarded.2
    exact fun other member => once other (List.mem_cons_of_mem call member)

/-- Reads answer as the store does if no visit of the rebalancing overwrites the copy that reads
find and no batch touches a key twice. -/
theorem getCf_eq_of_keeps (promoteThreshold demoteThreshold hysteresis : Nat)
    {calls : List TieredCall} (once : ∀ call ∈ calls, call.Once)
    (guarded : Guarded act Keeps (new promoteThreshold demoteThreshold hysteresis) calls) :
    ∀ past cf key, past ++ [.call (.get cf key)] <+: calls →
      ((past.foldl act (new promoteThreshold demoteThreshold hysteresis)).getCf cf key).1 =
        (past.foldl actTiered .empty cf).get? key := by
  intro past cf key isPrefix
  have earlier := (List.prefix_append past _).trans isPrefix
  rw [getCf_eq_first]
  apply reads_run _ (fun call member => once call (earlier.subset member))
    (guarded.of_isPrefix earlier)
  exact fun _ _ => rfl

def oneKey : TieredStorage := (new 1 0 0).write [.put [0x61] [1] .default]

def comesBack : List TieredCall :=
  [.call (.write [.put [0x61] [1] .default, .put [0x62] [2] .lock]), .call (.get .default [0x61]),
    .rebalance, .call (.write [.delete [0x61] .default]),
    .call (.write [.put [0x61] [3] .default]), .rebalance]

theorem getCf_eq_comesBack :
    ((comesBack.foldl act (new 2 1 0)).getCf .default [0x61]).1 =
      (comesBack.foldl actTiered .empty .default).get? [0x61] :=
  @getCf_eq_of_keeps 2 1 0 (comesBack ++ [.call (.get .default [0x61])])
    (by decide +kernel) (by decide +kernel) comesBack .default [0x61] List.prefix_rfl

/-- A put of a key that is in the hot tier is not seen. -/
theorem put_of_hot_key :
    ∃ (promoteThreshold demoteThreshold hysteresis : Nat) (past : List TieredCall) (cf : Cf)
      (key : Bytes), (∀ call ∈ past, call.Once) ∧
        ((past.foldl act (new promoteThreshold demoteThreshold hysteresis)).getCf cf key).1 ≠
          (past.foldl actTiered .empty cf).get? key :=
  ⟨1, 0, 0,
    [.call (.write [.put [0x61] [1] .default]), .rebalance,
      .call (.write [.put [0x61] [2] .default])],
    .default, [0x61], by decide +kernel, by decide +kernel⟩

end TieredStorage

end AegisDB.Storage
