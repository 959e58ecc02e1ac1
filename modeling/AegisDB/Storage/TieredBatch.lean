import AegisDB.Foundation.LastWrite
import AegisDB.Storage.Named

/-! # Batches in three tiers

`TieredStorage::write` deletes at once and collects its puts for the end. What a batch leaves
of a key is therefore its last put, whether or not a delete follows; applied in order, it
would be its last modification. -/

namespace AegisDB.Storage

open Foundation Tiers

abbrev FlatMap := Bytes → Option Bytes

namespace NamedModify

def onFlat (flat : FlatMap) (modify : NamedModify) : FlatMap :=
  Function.update flat modify.encodedKey modify.value

def isOf (key : Bytes) (modify : NamedModify) : Bool := modify.encodedKey = key

def isPut (modify : NamedModify) : Bool := modify.value.isSome

def isDelete (modify : NamedModify) : Bool := modify.value.isNone

end NamedModify

open NamedModify

/-! ## What each way of applying a batch leaves -/

section Effects

variable (key : Bytes)

theorem foldl_onFlat (flat : FlatMap) (batch : List NamedModify) :
    batch.foldl onFlat flat key =
      ((findLast? (isOf key) batch).map value).getD (flat key) := by
  refine foldl_eq_findLast? (fun current : FlatMap => current key) (fun current modify => ?_)
    flat batch
  rw [onFlat, Function.update_apply]
  simp [isOf, eq_comm]

theorem StandaloneStorage.get?_writeNamed {σ : Type} [Cache σ (List Char) Bytes]
    (storage : StandaloneStorage σ) (batch : List NamedModify) :
    (storage.writeNamed batch).db.get? key = batch.foldl onFlat storage.db.get? key := by
  rw [foldl_onFlat]
  refine foldl_eq_findLast? (fun db : OrderedMap Bytes Bytes => db.get? key)
    (fun db modify => ?_) storage.db batch
  rw [get?_apply]
  simp [isOf]

namespace TieredStorage

theorem getNamed_eq_first (storage : TieredStorage) (cf : CfName) (key : Bytes) :
    (storage.getNamed cf key).1 = (storage.tiers.copies (cf.keyWithCf key)).first := by
  simp only [getNamed, Copies.first, copies]
  cases (storage.tiers .hot).get? (cf.keyWithCf key) with
  | some value => simp
  | none =>
    cases (storage.tiers .warm).get? (cf.keyWithCf key) with
    | some value => simp
    | none => cases (storage.tiers .cold).get? (cf.keyWithCf key) <;> simp

theorem copies_foldl_prepareNamed (storage : TieredStorage) (batch : List NamedModify) :
    (batch.foldl prepareNamed storage).tiers.copies key =
      ((findLast? (fun modify => isOf key modify && isDelete modify) batch).map
        fun _ => fun _ => none).getD (storage.tiers.copies key) := by
  refine foldl_eq_findLast? (fun current : TieredStorage => current.tiers.copies key)
    (fun current modify => ?_) storage batch
  rw [prepareNamed, isOf, isDelete]
  cases modify.value with
  | some value => simp [bumpAccess]
  | none =>
    by_cases same : modify.encodedKey = key
    · subst same
      simp [copies_deleteAll_same]
    · simp [same, copies_deleteAll_other (Ne.symm same)]

theorem get?_foldl_addNamedPut (warm : OrderedMap Bytes Bytes) (batch : List NamedModify) :
    (batch.foldl addNamedPut warm).get? key =
      ((findLast? (fun modify => isOf key modify && isPut modify) batch).map value).getD
        (warm.get? key) := by
  refine foldl_eq_findLast? (fun current : OrderedMap Bytes Bytes => current.get? key)
    (fun current modify => ?_) warm batch
  have applied := get?_apply current modify key
  rw [apply] at applied
  rw [addNamedPut, isOf, isPut]
  cases isValue : modify.value with
  | none => simp
  | some value =>
    rw [isValue] at applied
    rw [applied]
    simp

theorem copies_commitNamed (storage : TieredStorage) (batch : List NamedModify) (tier : Tier) :
    (storage.commitNamed batch).tiers.copies key tier =
      if tier = .warm then (batch.foldl addNamedPut (storage.tiers .warm)).get? key
      else storage.tiers.copies key tier := by
  rw [commitNamed, copies]
  dsimp only
  rw [Function.update_apply]
  split <;> rfl

theorem getNamed_writeNamed {storage : TieredStorage} (hotEmpty : storage.tiers .hot = .empty)
    (coldEmpty : storage.tiers .cold = .empty) (batch : List NamedModify) (cf : CfName)
    (key : Bytes) :
    ((storage.writeNamed batch).getNamed cf key).1 =
      ((findLast? (fun modify => isOf (cf.keyWithCf key) modify && isPut modify) batch).map
        value).getD
        (if (findLast? (fun modify => isOf (cf.keyWithCf key) modify && isDelete modify)
            batch).isSome then none
          else (storage.tiers .warm).get? (cf.keyWithCf key)) := by
  have prepared := copies_foldl_prepareNamed (cf.keyWithCf key) storage batch
  have hot : (batch.foldl prepareNamed storage).tiers.copies (cf.keyWithCf key) .hot = none := by
    rw [prepared]
    cases findLast? _ batch <;> simp [copies, hotEmpty]
  have cold : (batch.foldl prepareNamed storage).tiers.copies (cf.keyWithCf key) .cold = none := by
    rw [prepared]
    cases findLast? _ batch <;> simp [copies, coldEmpty]
  have warm : ((batch.foldl prepareNamed storage).tiers .warm).get? (cf.keyWithCf key) =
      if (findLast? (fun modify => isOf (cf.keyWithCf key) modify && isDelete modify)
          batch).isSome then none
      else (storage.tiers .warm).get? (cf.keyWithCf key) := by
    change (batch.foldl prepareNamed storage).tiers.copies (cf.keyWithCf key) .warm = _
    rw [prepared]
    cases findLast? _ batch <;> simp [copies]
  rw [getNamed_eq_first, writeNamed, Copies.first, copies_commitNamed, copies_commitNamed,
    copies_commitNamed, if_neg (by decide), if_pos rfl, if_neg (by decide), hot, cold,
    Option.none_or, Option.or_none, get?_foldl_addNamedPut, warm]

end TieredStorage

end Effects

/-! ## Batches that are applied in order -/

def TieredStorage.AppliesInOrder (storage : TieredStorage) (batch : List NamedModify) : Prop :=
  ∀ cf key, ((storage.writeNamed batch).getNamed cf key).1 =
    batch.foldl onFlat (storage.tiers .warm).get? (cf.keyWithCf key)

def PutsLast (batch : List NamedModify) : Prop :=
  ∀ modify ∈ batch, modify.isPut = true →
    ∀ last ∈ findLast? (isOf modify.encodedKey) batch, last.isPut = true

instance decidablePutsLast (batch : List NamedModify) : Decidable (PutsLast batch) := by
  unfold PutsLast
  infer_instance

namespace TieredStorage

variable {storage : TieredStorage} {batch : List NamedModify}

theorem putsLast_of_appliesInOrder (hotEmpty : storage.tiers .hot = .empty)
    (coldEmpty : storage.tiers .cold = .empty) (inOrder : storage.AppliesInOrder batch) :
    PutsLast batch := by
  intro modify member puts last isLast
  by_contra deletes
  -- The flat map has lost the key, and the tiers have kept its last put.
  have read := inOrder modify.cf modify.key
  rw [getNamed_writeNamed hotEmpty coldEmpty, foldl_onFlat] at read
  change _ = ((findLast? (isOf modify.encodedKey) batch).map value).getD _ at read
  rw [Option.mem_def.mp isLast, Option.map_some, Option.getD_some] at read
  cases found : findLast? (fun other => isOf modify.encodedKey other && isPut other) batch with
  | none =>
    have notPut := findLast?_eq_none_iff.mp found modify member
    simp [isOf, puts] at notPut
  | some put =>
    have isPut := test_of_findLast? found
    change ((findLast? (fun other => isOf modify.encodedKey other && other.isPut)
      batch).map value).getD _ = _ at read
    rw [found, Option.map_some, Option.getD_some] at read
    rw [Bool.and_eq_true] at isPut
    rw [NamedModify.isPut, ← read] at deletes
    exact deletes isPut.2

theorem findLast?_isPut_of_deleted (putsLast : PutsLast batch) {key : Bytes} {last : NamedModify}
    (isLast : findLast? (isOf key) batch = some last) (deletes : ¬ last.isPut = true) :
    findLast? (fun modify => isOf key modify && modify.isPut) batch = none := by
  rw [findLast?_eq_none_iff]
  intro modify member both
  rw [Bool.and_eq_true] at both
  have sameKey : modify.encodedKey = key := by simpa [isOf] using both.1
  apply deletes (putsLast modify member both.2 last _)
  rw [sameKey]
  exact isLast

theorem appliesInOrder_of_putsLast (hotEmpty : storage.tiers .hot = .empty)
    (coldEmpty : storage.tiers .cold = .empty) (putsLast : PutsLast batch) :
    storage.AppliesInOrder batch := by
  intro cf key
  rw [getNamed_writeNamed hotEmpty coldEmpty, foldl_onFlat]
  cases isLast : findLast? (isOf (cf.keyWithCf key)) batch with
  | none =>
    rw [findLast?_and_eq_none isLast, findLast?_and_eq_none isLast]
    rfl
  | some last =>
    by_cases puts : last.isPut = true
    · rw [findLast?_and isLast puts]
      rfl
    · have deletes : last.isDelete = true := by
        simpa [NamedModify.isPut, isDelete] using puts
      rw [findLast?_isPut_of_deleted putsLast isLast puts, findLast?_and isLast deletes]
      exact (Option.isNone_iff_eq_none.mp deletes).symm

/-- A batch has the effect of its modifications one by one, which it has on the storage with
a cache, exactly if no key that it puts is deleted last. -/
theorem applies_in_order_iff {σ : Type} [Cache σ (List Char) Bytes] (storage : TieredStorage)
    (standalone : StandaloneStorage σ) (batch : List NamedModify)
    (hotEmpty : storage.tiers .hot = .empty) (coldEmpty : storage.tiers .cold = .empty)
    (sameContent : standalone.db = storage.tiers .warm) :
    (storage.AppliesInOrder batch ∧
        ∀ key, (standalone.writeNamed batch).db.get? key =
          batch.foldl onFlat (storage.tiers .warm).get? key) ↔
      PutsLast batch := by
  constructor
  · exact fun both => putsLast_of_appliesInOrder hotEmpty coldEmpty both.1
  · intro putsLast
    refine ⟨appliesInOrder_of_putsLast hotEmpty coldEmpty putsLast, fun key => ?_⟩
    rw [StandaloneStorage.get?_writeNamed, sameContent]

def deletedFirst : List NamedModify :=
  [.delete [1] Cf.default.name, .put [1] [10] Cf.default.name, .delete [2] Cf.lock.name]

theorem applies_in_order_deletedFirst :
    (new 5 1 1).AppliesInOrder deletedFirst :=
  ((applies_in_order_iff (new 5 1 1) (.new (newCache 1000 (by decide))) deletedFirst rfl rfl
    rfl).mpr (by decide +kernel)).1

/-- A put that the same batch takes back is still there. -/
theorem put_outlives_delete :
    ∃ batch : List NamedModify,
      batch = [.put [1] [10] Cf.lock.name, .delete [1] Cf.lock.name] ∧
        (((new 5 1 1).writeNamed batch).getNamed Cf.lock.name [1]).1 = some [10] ∧
        batch.foldl onFlat ((new 5 1 1).tiers .warm).get? (Cf.lock.name.keyWithCf [1]) = none :=
  ⟨_, rfl, by decide +kernel, by decide +kernel⟩

end TieredStorage

end AegisDB.Storage
