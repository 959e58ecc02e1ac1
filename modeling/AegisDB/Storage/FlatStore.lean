import AegisDB.Foundation.BigEndian
import AegisDB.Foundation.OrderedMap

/-! # The flat store

What the transaction layer assumes of `storage::Storage`: a map from byte strings to
byte strings per column family, and batches of modifications that take effect
together and in order. -/

namespace AegisDB.Storage

open Foundation Function

inductive Cf where
  | default
  | write
  | lock
deriving DecidableEq, Repr

inductive Modify where
  | put (key value : Bytes) (cf : Cf)
  | delete (key : Bytes) (cf : Cf)
deriving DecidableEq, Repr

namespace Modify

def key : Modify → Bytes
  | .put key _ _ => key
  | .delete key _ => key

def value : Modify → Option Bytes
  | .put _ value _ => some value
  | .delete _ _ => none

def cf : Modify → Cf
  | .put _ _ cf => cf
  | .delete _ cf => cf

def Touches (modify : Modify) (cf : Cf) (key : Bytes) : Prop :=
  modify.cf = cf ∧ modify.key = key

instance (modify : Modify) (cf : Cf) (key : Bytes) : Decidable (modify.Touches cf key) :=
  inferInstanceAs (Decidable (_ ∧ _))

end Modify

abbrev FlatStore := Cf → OrderedMap Bytes Bytes

namespace FlatStore

def empty : FlatStore := fun _ => OrderedMap.empty

def apply (store : FlatStore) (modify : Modify) : FlatStore :=
  update store modify.cf <|
    match modify.value with
    | some value => (store modify.cf).insert modify.key value
    | none => (store modify.cf).erase modify.key

def write (store : FlatStore) (batch : List Modify) : FlatStore :=
  batch.foldl apply store

variable (store : FlatStore)

theorem get?_apply (modify : Modify) (cf : Cf) (key : Bytes) :
    (store.apply modify cf).get? key =
      if modify.Touches cf key then modify.value else (store cf).get? key := by
  by_cases sameCf : modify.cf = cf
  · subst sameCf
    by_cases sameKey : modify.key = key
    · subst sameKey
      simp only [apply, update_self, Modify.Touches, and_self, if_true]
      cases modify.value with
      | none => exact OrderedMap.get?_erase_same _ _
      | some value => exact OrderedMap.get?_insert_same _ _ _
    · simp only [apply, update_self, Modify.Touches, sameKey, and_false, if_false]
      cases modify.value with
      | none => exact OrderedMap.get?_erase_other _ (Ne.symm sameKey)
      | some value => exact OrderedMap.get?_insert_other _ _ (Ne.symm sameKey)
  · simp [apply, Modify.Touches, sameCf, update_of_ne (Ne.symm sameCf)]

@[simp] theorem write_nil : store.write [] = store := rfl

@[simp] theorem write_append (first second : List Modify) :
    store.write (first ++ second) = (store.write first).write second := by
  simp [write]

@[simp] theorem write_cons (modify : Modify) (batch : List Modify) :
    store.write (modify :: batch) = (store.apply modify).write batch := rfl

theorem get?_write_cases (batch : List Modify) (cf : Cf) (key : Bytes) :
    ((∀ modify ∈ batch, ¬ modify.Touches cf key) ∧
        (store.write batch cf).get? key = (store cf).get? key) ∨
      ∃ modify ∈ batch, modify.Touches cf key ∧
        (store.write batch cf).get? key = modify.value := by
  induction batch generalizing store with
  | nil => simp
  | cons head rest induction =>
    rw [write_cons]
    rcases induction (store.apply head) with ⟨untouched, same⟩ | ⟨modify, member, touches, set⟩
    · by_cases touches : head.Touches cf key
      · exact .inr ⟨head, by simp, touches, by rw [same, get?_apply, if_pos touches]⟩
      · refine .inl ⟨?_, by rw [same, get?_apply, if_neg touches]⟩
        intro modify member
        rcases List.mem_cons.mp member with rfl | restMember
        · exact touches
        · exact untouched modify restMember
    · exact .inr ⟨modify, by simp [member], touches, set⟩

variable {batch : List Modify} {cf : Cf} {key : Bytes}

theorem get?_write_of_untouched {store : FlatStore}
    (untouched : ∀ modify ∈ batch, ¬ modify.Touches cf key) :
    (store.write batch cf).get? key = (store cf).get? key := by
  rcases get?_write_cases store batch cf key with ⟨_, same⟩ | ⟨modify, member, touches, _⟩
  · exact same
  · exact absurd touches (untouched modify member)

theorem get?_write_congr {left right : FlatStore}
    (agree : (left cf).get? key = (right cf).get? key ∨ ∃ modify ∈ batch, modify.Touches cf key) :
    (left.write batch cf).get? key = (right.write batch cf).get? key := by
  induction batch generalizing left right with
  | nil => simpa using agree
  | cons head rest induction =>
    rw [write_cons, write_cons]
    apply induction
    rw [get?_apply, get?_apply]
    by_cases touches : head.Touches cf key
    · exact .inl (by simp [touches])
    · rcases agree with same | ⟨modify, member, modifyTouches⟩
      · exact .inl (by simp [touches, same])
      · rcases List.mem_cons.mp member with rfl | restMember
        · exact absurd modifyTouches touches
        · exact .inr ⟨modify, restMember, modifyTouches⟩

end FlatStore

end AegisDB.Storage
