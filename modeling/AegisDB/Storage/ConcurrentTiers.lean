import AegisDB.Storage.Rebalancing

/-! # Rebalancing while clients write

A write deletes from one tier after another and puts its batch into the warm tier at the
end. Its steps are mixed with those of other writes and of one round of rebalancing; what
counts is the order in which the writes are completed. -/

namespace AegisDB.Storage

open Foundation Function OrderedMap TieredStorage List

/-! ## The current move -/

namespace Mover

def settle (mover : Mover) (key : Bytes) (copies : Copies) : Copies :=
  match mover with
  | .putting source target moving value _ _ =>
    if moving = key then update (update copies target (some value)) source none
    else copies
  | .deleting source moving _ _ =>
    if moving = key then update copies source none else copies
  | .opening _ _ | .scanning _ _ _ | .finished => copies

section Settle

variable {source target : Tier} {key moving value : Bytes} {remaining : List (Bytes × Bytes)}
  {moved : Nat} {copies : Copies}

theorem settle_putting_same :
    (Mover.putting source target key value remaining moved).settle key copies =
      update (update copies target (some value)) source none := by
  rw [settle, if_pos rfl]

theorem settle_putting_other (different : moving ≠ key) :
    (Mover.putting source target moving value remaining moved).settle key copies = copies := by
  rw [settle, if_neg different]

theorem settle_deleting_same :
    (Mover.deleting source key remaining moved).settle key copies =
      update copies source none := by
  rw [settle, if_pos rfl]

theorem settle_deleting_other (different : moving ≠ key) :
    (Mover.deleting source moving remaining moved).settle key copies = copies := by
  rw [settle, if_neg different]

end Settle

def Carries (mover : Mover) (key : Bytes) : Prop :=
  match mover with
  | .putting _ _ moving _ _ _ => moving = key
  | _ => False

def PutsInto (mover : Mover) (tier : Tier) (key : Bytes) : Prop :=
  match mover with
  | .putting _ target moving _ _ _ => target = tier ∧ moving = key
  | _ => False

def DeletesFrom (mover : Mover) (tier : Tier) (key : Bytes) : Prop :=
  match mover with
  | .deleting source moving _ _ => source = tier ∧ moving = key
  | _ => False

instance decidableCarries (mover : Mover) (key : Bytes) : Decidable (mover.Carries key) := by
  cases mover <;> unfold Carries <;> infer_instance

instance decidablePutsInto (mover : Mover) (tier : Tier) (key : Bytes) :
    Decidable (mover.PutsInto tier key) := by
  cases mover <;> unfold PutsInto <;> infer_instance

instance decidableDeletesFrom (mover : Mover) (tier : Tier) (key : Bytes) :
    Decidable (mover.DeletesFrom tier key) := by
  cases mover <;> unfold DeletesFrom <;> infer_instance

variable {mover : Mover} {tier : Tier} {key : Bytes} {copies : Copies}

theorem settle_delete_same (apart : ¬ mover.PutsInto tier key) :
    mover.settle key (update copies tier none) =
      update (mover.settle key copies) tier none := by
  cases mover with
  | opening _ _ | scanning _ _ _ | finished => rfl
  | putting source target moving value remaining moved =>
    by_cases same : moving = key
    · subst same
      have different : target ≠ tier := fun isTarget => apart ⟨isTarget, rfl⟩
      rw [settle_putting_same, settle_putting_same, update_comm different.symm]
      by_cases isSource : source = tier
      · rw [isSource, update_idem]
      · rw [update_comm isSource]
    · rw [settle_putting_other same, settle_putting_other same]
  | deleting source moving remaining moved =>
    by_cases same : moving = key
    · subst same
      rw [settle_deleting_same, settle_deleting_same]
      by_cases isSource : source = tier
      · rw [isSource, update_idem]
      · rw [update_comm isSource]
    · rw [settle_deleting_other same, settle_deleting_other same]

theorem settle_put_same {value : Bytes} (free : ¬ mover.Carries key)
    (stays : ¬ mover.DeletesFrom tier key) :
    mover.settle key (update copies tier (some value)) =
      update (mover.settle key copies) tier (some value) := by
  cases mover with
  | opening _ _ | scanning _ _ _ | finished => rfl
  | putting source target moving value remaining moved =>
    rw [settle_putting_other free, settle_putting_other free]
  | deleting source moving remaining moved =>
    by_cases same : moving = key
    · subst same
      have different : source ≠ tier := fun isSource => stays ⟨isSource, rfl⟩
      rw [settle_deleting_same, settle_deleting_same, update_comm different]
    · rw [settle_deleting_other same, settle_deleting_other same]

theorem settle_eq_none (free : ¬ mover.Carries key)
    (absent : copies tier = none ∨ mover.DeletesFrom tier key) :
    mover.settle key copies tier = none := by
  cases mover with
  | opening _ _ | scanning _ _ _ | finished => exact absent.resolve_right id
  | putting source target moving value remaining moved =>
    rw [settle_putting_other free]
    exact absent.resolve_right id
  | deleting source moving remaining moved =>
    by_cases same : moving = key
    · subst same
      rw [settle_deleting_same, update_apply]
      split
      · rfl
      · rename_i different
        exact absent.resolve_right fun deletes => different deletes.1.symm
    · rw [settle_deleting_other same]
      exact absent.resolve_right fun deletes => same deletes.2

end Mover

/-! ## Writes -/

inductive WriteStep where
  | bump (encodedKey : Bytes)
  | delete (tier : Tier) (encodedKey : Bytes)
deriving DecidableEq, Repr

def Modify.steps : Modify → List WriteStep
  | .put key _ cf => [.bump (keyWithCf cf key)]
  | .delete key cf =>
    [.delete .hot (keyWithCf cf key), .delete .warm (keyWithCf cf key),
      .delete .cold (keyWithCf cf key)]

def TieredStorage.perform (storage : TieredStorage) : WriteStep → TieredStorage
  | .bump encodedKey => storage.bumpAccess encodedKey
  | .delete tier encodedKey => { storage with tiers := storage.tiers.delete tier encodedKey }

/-- Run without a break, the steps of a batch are the loop of `write` before its commit. -/
theorem foldl_perform (storage : TieredStorage) (batch : List Modify) :
    (batch.flatMap Modify.steps).foldl TieredStorage.perform storage =
      batch.foldl TieredStorage.prepare storage := by
  induction batch generalizing storage with
  | nil => rfl
  | cons modify rest induction =>
    rw [flatMap_cons, foldl_append, induction, foldl_cons]
    cases modify <;> rfl

structure TieredWrite where
  batch : List Modify
  progress : Nat
deriving DecidableEq, Repr

namespace TieredWrite

def performed (write : TieredWrite) : List WriteStep :=
  (write.batch.flatMap Modify.steps).take write.progress

def next? (write : TieredWrite) : Option WriteStep :=
  (write.batch.flatMap Modify.steps)[write.progress]?

def advanced (write : TieredWrite) : TieredWrite := { write with progress := write.progress + 1 }

end TieredWrite

/-! ## Both together -/

structure ConcurrentTiers where
  rebalancing : Rebalancing
  writes : OrderedMap Nat TieredWrite
  completed : FlatStore

inductive TieredEvent where
  | begin (id : Nat) (batch : List Modify)
  | advance (id : Nat)
  | rebalance
deriving DecidableEq, Repr

namespace ConcurrentTiers

def start (storage : TieredStorage) (content : FlatStore) : ConcurrentTiers :=
  { rebalancing := .start storage, writes := .empty, completed := content }

def storage (state : ConcurrentTiers) : TieredStorage := state.rebalancing.storage

def mover (state : ConcurrentTiers) : Mover := state.rebalancing.mover

def advance (state : ConcurrentTiers) (id : Nat) (write : TieredWrite) : ConcurrentTiers :=
  match write.next? with
  | some step =>
    { state with
      rebalancing.storage := state.storage.perform step
      writes := state.writes.insert id write.advanced }
  | none =>
    { rebalancing := { state.rebalancing with storage := state.storage.commit write.batch }
      writes := state.writes.erase id
      completed := state.completed.write write.batch }

def act (state : ConcurrentTiers) : TieredEvent → ConcurrentTiers
  | .begin id batch =>
    match state.writes.get? id with
    | some _ => state
    | none => { state with writes := state.writes.insert id { batch, progress := 0 } }
  | .advance id =>
    match state.writes.get? id with
    | some write => state.advance id write
    | none => state
  | .rebalance => { state with rebalancing := state.rebalancing.step }

/-! ### What can go wrong -/

def Deleted (writes : OrderedMap Nat TieredWrite) (tier : Tier) (key : Bytes) : Prop :=
  ∃ entry ∈ writes.entries, .delete tier key ∈ entry.2.performed

instance decidableDeleted (writes : OrderedMap Nat TieredWrite) (tier : Tier) (key : Bytes) :
    Decidable (Deleted writes tier key) := by
  unfold Deleted
  infer_instance

def PutLasts (state : ConcurrentTiers) (others : OrderedMap Nat TieredWrite) (key : Bytes) : Prop :=
  ¬ state.mover.Carries key ∧ ¬ state.mover.DeletesFrom .warm key ∧
    (state.storage.tiers.copies key .hot = none ∨ state.mover.DeletesFrom .hot key) ∧
    ¬ Deleted others .warm key

instance decidablePutLasts (state : ConcurrentTiers) (others : OrderedMap Nat TieredWrite)
    (key : Bytes) : Decidable (state.PutLasts others key) :=
  inferInstanceAs (Decidable (_ ∧ _))

def StepSafe (state : ConcurrentTiers) (id : Nat) (batch : List Modify) : Option WriteStep → Prop
  | some (.bump _) => True
  | some (.delete tier key) => ¬ state.mover.PutsInto tier key
  | none =>
    ∀ modify ∈ batch, modify.value.isSome →
      state.PutLasts (state.writes.erase id) (keyWithCf modify.cf modify.key)

instance decidableStepSafe (state : ConcurrentTiers) (id : Nat) (batch : List Modify)
    (next : Option WriteStep) : Decidable (state.StepSafe id batch next) := by
  rcases next with _ | _ | _ <;> unfold StepSafe <;> infer_instance

/-- The next entry of the iterator, if it is to be moved, is still what the tier holds, reads
do not find it in the target, and no write in progress has deleted it from there. -/
def MoveSafe (state : ConcurrentTiers) : Mover → Prop
  | .scanning tier remaining moved =>
    moved < maxMovePerRound →
      ∀ entry ∈ remaining.head?,
        state.storage.decideTarget tier (state.storage.count entry.1) ≠ tier →
          state.storage.tiers.copies entry.1 tier = some entry.2 ∧
            (state.storage.tiers.copies entry.1).holder ≠
              some (state.storage.decideTarget tier (state.storage.count entry.1)) ∧
            ¬ Deleted state.writes
              (state.storage.decideTarget tier (state.storage.count entry.1)) entry.1
  | _ => True

instance decidableMoveSafe (state : ConcurrentTiers) (mover : Mover) :
    Decidable (state.MoveSafe mover) := by
  cases mover <;> unfold MoveSafe <;> infer_instance

def Safe (state : ConcurrentTiers) : TieredEvent → Prop
  | .begin _ batch => DeletesFirst batch
  | .advance id => ∀ write ∈ state.writes.get? id, state.StepSafe id write.batch write.next?
  | .rebalance => state.MoveSafe state.mover

instance decidableSafe (state : ConcurrentTiers) (event : TieredEvent) :
    Decidable (state.Safe event) := by
  cases event <;> unfold Safe <;> infer_instance

/-! ### Deletes in progress -/

variable {writes : OrderedMap Nat TieredWrite} {id : Nat} {write : TieredWrite} {tier : Tier}
  {key : Bytes}

theorem deleted_iff :
    Deleted writes tier key ↔
      ∃ id write, writes.get? id = some write ∧ .delete tier key ∈ write.performed := by
  simp only [Deleted, Prod.exists, get?_eq_some_iff]

theorem deleted_insert_iff :
    Deleted (writes.insert id write) tier key ↔
      .delete tier key ∈ write.performed ∨ Deleted (writes.erase id) tier key := by
  rw [deleted_iff, deleted_iff]
  constructor
  · intro ⟨other, found, present, deleted⟩
    rw [get?_insert] at present
    split at present
    · rw [← Option.some.inj present] at deleted
      exact .inl deleted
    · rename_i different
      exact .inr ⟨other, found, by rw [get?_erase_other _ different, present], deleted⟩
  · intro either
    rcases either with deleted | ⟨other, found, present, deleted⟩
    · exact ⟨id, write, get?_insert_same _ _ _, deleted⟩
    · rw [get?_erase] at present
      split at present
      · cases present
      · rename_i different
        exact ⟨other, found, by rw [get?_insert_other _ _ different, present], deleted⟩

theorem deleted_iff_of_present (present : writes.get? id = some write) :
    Deleted writes tier key ↔
      .delete tier key ∈ write.performed ∨ Deleted (writes.erase id) tier key := by
  rw [← deleted_insert_iff, insert_of_present present]

end ConcurrentTiers

namespace TieredWrite

variable {write : TieredWrite} {step : WriteStep} {tier : Tier} {cf : Cf} {key : Bytes}

theorem performed_advanced (next : write.next? = some step) :
    write.advanced.performed = write.performed ++ [step] := by
  rw [performed, performed, advanced]
  dsimp only
  rw [take_add_one]
  rw [next?] at next
  rw [next]
  rfl

theorem performed_of_next?_eq_none (done : write.next? = none) :
    write.performed = write.batch.flatMap Modify.steps :=
  take_of_length_le (getElem?_eq_none_iff.mp done)

theorem mem_steps_iff {batch : List Modify} :
    .delete tier (keyWithCf cf key) ∈ batch.flatMap Modify.steps ↔ Deletes batch cf key := by
  rw [mem_flatMap, Deletes]
  refine exists_congr fun modify => and_congr_right fun _ => ?_
  cases modify with
  | put newKey value newCf => simp [Modify.steps, Modify.value]
  | delete newKey newCf =>
    cases tier <;>
      simp [Modify.steps, Modify.value, Modify.Touches, Modify.cf, Modify.key, eq_comm]

end TieredWrite

namespace ConcurrentTiers

def settled (state : ConcurrentTiers) (key : Bytes) : Copies :=
  state.mover.settle key (state.storage.tiers.copies key)

structure Sound (state : ConcurrentTiers) : Prop where
  reads : ∀ cf key,
    (state.settled (keyWithCf cf key)).first = (state.completed cf).get? key ∨
      ∃ tier, Deleted state.writes tier (keyWithCf cf key)
  deleted : ∀ tier cf key, Deleted state.writes tier (keyWithCf cf key) →
    state.settled (keyWithCf cf key) tier = none
  orderly : ∀ id write, state.writes.get? id = some write → DeletesFirst write.batch

variable {state : ConcurrentTiers} {id : Nat} {write : TieredWrite} {batch : List Modify}

theorem Sound.begin (sound : state.Sound) (fresh : state.writes.get? id = none)
    (orderly : DeletesFirst batch) :
    { state with writes := state.writes.insert id { batch, progress := 0 } }.Sound := by
  have same : ∀ tier key,
      Deleted (state.writes.insert id { batch, progress := 0 }) tier key ↔
        Deleted state.writes tier key := by
    intro tier key
    rw [deleted_insert_iff, erase_of_fresh fresh]
    simp [TieredWrite.performed]
  refine ⟨?_, ?_, ?_⟩
  · intro cf key
    simp only [same]
    exact sound.reads cf key
  · intro tier cf key deleted
    exact sound.deleted tier cf key ((same _ _).mp deleted)
  · intro other found present
    dsimp only at present
    rw [get?_insert] at present
    split at present
    · rw [← Option.some.inj present]
      exact orderly
    · exact sound.orderly other found present

theorem deleted_advanced {step : WriteStep} {tier : Tier} {key : Bytes}
    (present : state.writes.get? id = some write) (next : write.next? = some step) :
    Deleted (state.writes.insert id write.advanced) tier key ↔
      Deleted state.writes tier key ∨ step = .delete tier key := by
  rw [deleted_insert_iff, TieredWrite.performed_advanced next, deleted_iff_of_present present,
    mem_append, mem_singleton, or_right_comm, eq_comm]

variable (sound : state.Sound)

include sound

theorem Sound.orderly_advanced
    (present : state.writes.get? id = some write) (other : Nat) (found : TieredWrite)
    (foundThere : (state.writes.insert id write.advanced).get? other = some found) :
    DeletesFirst found.batch := by
  rw [get?_insert] at foundThere
  split at foundThere
  · rw [← Option.some.inj foundThere]
    exact sound.orderly id write present
  · exact sound.orderly other found foundThere

theorem Sound.perform {step : WriteStep} (present : state.writes.get? id = some write)
    (next : write.next? = some step) (safe : state.StepSafe id write.batch (some step)) :
    { state with
      rebalancing.storage := state.storage.perform step
      writes := state.writes.insert id write.advanced }.Sound := by
  refine ⟨?_, ?_, sound.orderly_advanced present⟩
  · intro cf key
    simp only [deleted_advanced present next]
    cases step with
    | bump _ => exact (sound.reads cf key).imp_right fun ⟨tier, deleted⟩ => ⟨tier, .inl deleted⟩
    | delete tier deletedKey =>
      by_cases same : keyWithCf cf key = deletedKey
      · exact .inr ⟨tier, .inr (same ▸ rfl)⟩
      · have unchanged : (state.storage.tiers.delete tier deletedKey).copies (keyWithCf cf key) =
            state.storage.tiers.copies (keyWithCf cf key) := Tiers.copies_delete_other same
        have reads := sound.reads cf key
        rw [settled, ← unchanged] at reads
        exact reads.imp_right fun ⟨place, deleted⟩ => ⟨place, .inl deleted⟩
  · intro place cf key deleted
    rw [deleted_advanced present next] at deleted
    cases step with
    | bump _ => exact sound.deleted place cf key (deleted.resolve_right nofun)
    | delete tier deletedKey =>
      change state.mover.settle (keyWithCf cf key)
        ((state.storage.tiers.delete tier deletedKey).copies (keyWithCf cf key)) place = none
      by_cases same : keyWithCf cf key = deletedKey
      · subst same
        rw [Tiers.copies_delete_same, Mover.settle_delete_same safe, update_apply]
        split
        · rfl
        · rename_i different
          apply sound.deleted place cf key
          rcases deleted with earlier | now
          · exact earlier
          · rw [WriteStep.delete.injEq] at now
            exact absurd now.1.symm different
      · rw [Tiers.copies_delete_other same]
        apply sound.deleted place cf key
        rcases deleted with earlier | now
        · exact earlier
        · rw [WriteStep.delete.injEq] at now
          exact absurd now.2.symm same

theorem Sound.commit (present : state.writes.get? id = some write)
    (done : write.next? = none) (safe : state.StepSafe id write.batch none) :
    ConcurrentTiers.Sound
      { rebalancing := { state.rebalancing with storage := state.storage.commit write.batch }
        writes := state.writes.erase id
        completed := state.completed.write write.batch } := by
  have orderly := sound.orderly id write present
  -- What the write itself deleted is what its batch deletes.
  have own : ∀ tier cf key, .delete tier (keyWithCf cf key) ∈ write.performed ↔
      Deletes write.batch cf key := by
    intro tier cf key
    rw [TieredWrite.performed_of_next?_eq_none done, TieredWrite.mem_steps_iff]
  have lasts : ∀ cf key, Puts write.batch cf key →
      state.PutLasts (state.writes.erase id) (keyWithCf cf key) := by
    intro cf key puts
    rcases puts with ⟨modify, member, isPut, rfl, rfl⟩
    exact safe modify member isPut
  refine ⟨?_, ?_, ?_⟩
  · intro cf key
    by_cases puts : Puts write.batch cf key
    · left
      rcases lasts cf key puts with ⟨free, stays, absent, _⟩
      rcases copies_commit_of_puts state.storage state.completed orderly puts with
        ⟨value, added, kept⟩
      change (state.mover.settle (keyWithCf cf key)
        ((state.storage.commit write.batch).tiers.copies (keyWithCf cf key))).first = _
      rw [added, Mover.settle_put_same free stays,
        Copies.first_put_warm (Mover.settle_eq_none free absent)]
      exact kept.symm
    · change (state.mover.settle (keyWithCf cf key)
        ((state.storage.commit write.batch).tiers.copies (keyWithCf cf key))).first =
          (state.completed.write write.batch cf).get? key ∨ _
      rw [copies_commit_of_not_puts puts]
      by_cases deletes : Deletes write.batch cf key
      · left
        rw [get?_write_of_deletes _ puts deletes]
        apply Copies.first_eq_none
        intro tier
        exact sound.deleted tier cf key
          ((deleted_iff_of_present present).mpr (.inl ((own tier cf key).mpr deletes)))
      · rw [get?_write_of_neither _ puts deletes]
        refine (sound.reads cf key).imp_right fun ⟨tier, deleted⟩ => ⟨tier, ?_⟩
        rcases (deleted_iff_of_present present).mp deleted with byItself | byOther
        · exact absurd ((own tier cf key).mp byItself) deletes
        · exact byOther
  · intro tier cf key deleted
    have absent := sound.deleted tier cf key ((deleted_iff_of_present present).mpr (.inr deleted))
    change state.mover.settle (keyWithCf cf key)
      ((state.storage.commit write.batch).tiers.copies (keyWithCf cf key)) tier = none
    by_cases puts : Puts write.batch cf key
    · rcases lasts cf key puts with ⟨free, stays, _, notDeleted⟩
      rcases copies_commit_of_puts state.storage state.completed orderly puts with
        ⟨value, added, _⟩
      have notWarm : tier ≠ .warm := by
        intro same
        exact notDeleted (same ▸ deleted)
      rw [added, Mover.settle_put_same free stays, update_of_ne notWarm]
      exact absent
    · rw [copies_commit_of_not_puts puts]
      exact absent
  · intro other found foundThere
    dsimp only at foundThere
    rw [get?_erase] at foundThere
    split at foundThere
    · cases foundThere
    · exact sound.orderly other found foundThere

theorem Sound.congr {rebalancing : Rebalancing}
    (same : ∀ key, rebalancing.mover.settle key (rebalancing.storage.tiers.copies key) =
      state.settled key) : { state with rebalancing := rebalancing }.Sound := by
  refine ⟨?_, ?_, sound.orderly⟩
  · intro cf key
    have reads := sound.reads cf key
    rw [← same] at reads
    exact reads
  · intro tier cf key deleted
    have absent := sound.deleted tier cf key deleted
    rw [← same] at absent
    exact absent

theorem Sound.take {tier target : Tier} {key value : Bytes} {remaining : List (Bytes × Bytes)}
    {moved : Nat} (idle : ∀ key, state.settled key = state.storage.tiers.copies key)
    (adjacent : tier.Adjacent target) (present : state.storage.tiers.copies key tier = some value)
    (safe : (state.storage.tiers.copies key).holder ≠ some target)
    (notDeleted : ¬ Deleted state.writes target key) :
    { state with rebalancing.mover := .putting tier target key value remaining moved }.Sound := by
  refine ⟨?_, ?_, sound.orderly⟩
  · intro cf other
    have reads := sound.reads cf other
    rw [idle] at reads
    change (Mover.settle (.putting tier target key value remaining moved) (keyWithCf cf other)
      (state.storage.tiers.copies (keyWithCf cf other))).first = _ ∨ _
    by_cases same : key = keyWithCf cf other
    · subst same
      rw [Mover.settle_putting_same, Copies.first_move adjacent present safe]
      exact reads
    · rw [Mover.settle_putting_other same]
      exact reads
  · intro place cf other deleted
    have absent := sound.deleted place cf other deleted
    rw [idle] at absent
    change Mover.settle (.putting tier target key value remaining moved) (keyWithCf cf other)
      (state.storage.tiers.copies (keyWithCf cf other)) place = none
    by_cases same : key = keyWithCf cf other
    · subst same
      have notTarget : place ≠ target := by
        intro same
        exact notDeleted (same ▸ deleted)
      rw [Mover.settle_putting_same, update_apply]
      split
      · rfl
      · rw [update_of_ne notTarget]
        exact absent
    · rw [Mover.settle_putting_other same]
      exact absent

theorem Sound.step (safe : state.MoveSafe state.mover) :
    { state with rebalancing := state.rebalancing.step }.Sound := by
  rw [Rebalancing.step]
  have settled : ∀ key, state.settled key =
      state.rebalancing.mover.settle key (state.storage.tiers.copies key) := fun _ => rfl
  rw [mover] at safe
  cases phase : state.rebalancing.mover with
  | finished => exact sound
  | deleting source moving remaining moved =>
    apply sound.congr
    intro key
    rw [settled, phase]
    change (state.storage.tiers.delete source moving).copies key = _
    by_cases same : moving = key
    · subst same
      rw [Mover.settle_deleting_same, Tiers.copies_delete_same]
    · rw [Mover.settle_deleting_other same, Tiers.copies_delete_other (Ne.symm same)]
  | putting source target moving value remaining moved =>
    apply sound.congr
    intro key
    rw [settled, phase]
    change Mover.settle (.deleting source moving remaining moved) key
      ((state.storage.tiers.put target moving value).copies key) = _
    by_cases same : moving = key
    · subst same
      rw [Mover.settle_deleting_same, Mover.settle_putting_same, Tiers.copies_put_same]
    · rw [Mover.settle_deleting_other same, Mover.settle_putting_other same,
        Tiers.copies_put_other (Ne.symm same)]
  | opening tier moved =>
    apply sound.congr
    intro key
    rw [settled, phase]
    rfl
  | scanning tier remaining moved =>
    rw [phase] at safe
    have idle : ∀ key, state.settled key = state.storage.tiers.copies key := by
      intro key
      rw [settled, phase]
      rfl
    dsimp only
    split_ifs with below
    · split
      · rename_i key value rest
        split_ifs with moves
        · rcases safe below (key, value) rfl moves with ⟨present, keeps, notDeleted⟩
          have adjacent := (state.storage.decideTarget_cases tier _).resolve_left moves
          exact sound.take idle adjacent present keeps notDeleted
        · exact sound.congr fun key => (idle key).symm
      · split
        · exact sound.congr fun key => (idle key).symm
        · exact sound.congr fun key => (idle key).symm
    · exact sound.congr fun key => (idle key).symm

theorem Sound.act {event : TieredEvent} (safe : state.Safe event) :
    (state.act event).Sound := by
  cases event with
  | begin id batch =>
    rw [ConcurrentTiers.act]
    split
    · exact sound
    · rename_i fresh
      exact sound.begin fresh safe
  | advance id =>
    rw [ConcurrentTiers.act]
    split
    · rename_i write present
      have stepSafe := safe write present
      rw [advance]
      split
      · rename_i step next
        rw [next] at stepSafe
        exact sound.perform present next stepSafe
      · rename_i done
        rw [done] at stepSafe
        exact sound.commit present done stepSafe
    · exact sound
  | rebalance => exact sound.step safe

theorem sound_run {events : List TieredEvent}
    (guarded : Guarded act Safe state events) : (events.foldl act state).Sound := by
  induction events generalizing state with
  | nil => exact sound
  | cons event rest induction => exact induction (sound.act guarded.1) guarded.2

omit sound

theorem sound_start {storage : TieredStorage} {content : FlatStore}
    (reads : storage.tiers.Reads content) : (start storage content).Sound := by
  refine ⟨fun cf key => .inl (reads cf key), ?_, nofun⟩
  intro tier cf key deleted
  rcases deleted with ⟨_, member, _⟩
  cases member

structure Quiet (state : ConcurrentTiers) : Prop where
  writes : state.writes = .empty
  mover : state.mover = .finished

theorem Sound.getCf (sound : state.Sound) (quiet : state.Quiet) (cf : Cf) (key : Bytes) :
    (state.storage.getCf cf key).1 = (state.completed cf).get? key := by
  rw [getCf_eq_first]
  have settled : state.settled (keyWithCf cf key) =
      state.storage.tiers.copies (keyWithCf cf key) := by
    rw [ConcurrentTiers.settled, quiet.mover]
    rfl
  rw [← settled]
  refine (sound.reads cf key).resolve_right ?_
  intro ⟨tier, deleted⟩
  rcases deleted with ⟨_, member, _⟩
  rw [quiet.writes] at member
  cases member

/-- After any interleaving of safe steps, reads find what the completed writes left, in the
order in which they were completed. -/
theorem getCf_eq_completed {storage : TieredStorage} {content : FlatStore}
    (reads : storage.tiers.Reads content) {events : List TieredEvent}
    (guarded : Guarded act Safe (start storage content) events)
    (quiet : (events.foldl act (start storage content)).Quiet) (cf : Cf) (key : Bytes) :
    ((events.foldl act (start storage content)).storage.getCf cf key).1 =
      ((events.foldl act (start storage content)).completed cf).get? key :=
  (sound_run (sound_start reads) guarded).getCf quiet cf key

theorem reads_oneKey :
    oneKey.tiers.Reads (FlatStore.empty.write [.put [0x61] [1] .default]) :=
  reads_write (fun _ _ => rfl) (by decide) (by decide)

def besideTheMove : List TieredEvent :=
  [.rebalance, .begin 0 [.put [0x61] [2] .default], .begin 1 [.delete [0x62] .lock], .advance 0,
    .advance 0, .rebalance, .rebalance, .advance 1, .rebalance, .advance 1, .rebalance, .rebalance,
    .advance 1, .advance 1, .rebalance, .rebalance, .rebalance]

theorem getCf_eq_besideTheMove :
    ((besideTheMove.foldl act (start .oneKey
        (FlatStore.empty.write [.put [0x61] [1] .default]))).storage.getCf .default [0x61]).1 =
      ((besideTheMove.foldl act (start .oneKey
        (FlatStore.empty.write [.put [0x61] [1] .default]))).completed .default).get? [0x61] :=
  getCf_eq_completed reads_oneKey (by decide +kernel) ⟨by decide +kernel, by decide +kernel⟩
    .default [0x61]

/-- A put between the mover's look at the key and its delete is lost. -/
theorem put_lost_by_mover :
    ∃ (storage : TieredStorage) (content : FlatStore) (events : List TieredEvent) (cf : Cf)
      (key : Bytes), storage.tiers.Reads content ∧
        (∀ place tier other, storage.tiers.copies place tier ≠ none →
          storage.tiers.copies place other ≠ none → tier = other) ∧
        (events.foldl act (start storage content)).Quiet ∧
        ((events.foldl act (start storage content)).storage.getCf cf key).1 ≠
          ((events.foldl act (start storage content)).completed cf).get? key := by
  refine ⟨.oneKey, FlatStore.empty.write [.put [0x61] [1] .default],
    [.rebalance, .rebalance, .rebalance, .rebalance, .begin 0 [.put [0x61] [2] .default],
      .advance 0, .advance 0, .rebalance, .rebalance, .rebalance, .rebalance, .rebalance],
    .default, [0x61], reads_oneKey, ?_, ⟨by decide +kernel, by decide +kernel⟩, by decide +kernel⟩
  have onlyWarm : ∀ place tier,
      oneKey.tiers.copies place tier ≠ none → tier = .warm := by
    intro place tier present
    cases tier with
    | warm => rfl
    | hot => exact absurd rfl present
    | cold => exact absurd rfl present
  intro place tier other present otherPresent
  rw [onlyWarm place tier present, onlyWarm place other otherPresent]

end ConcurrentTiers

end AegisDB.Storage
