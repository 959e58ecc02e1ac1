import AegisDB.Foundation.BigEndian
import AegisDB.Foundation.Latching
import AegisDB.Foundation.OrderedMap

/-! # Latches

`Latches` of `transaction/latches/latches.rs`: a map from keys to the notifier of the
command that holds them. -/

namespace AegisDB

open Foundation OrderedMap List

structure Latches (ν : Type) where
  latchMap : OrderedMap Bytes ν

namespace Latches

variable {ν : Type}

def new : Latches ν := { latchMap := OrderedMap.empty }

def acquireLatches (latches : Latches ν) (notify : ν) (keys : List Bytes) : Option ν × Latches ν :=
  match keys.findSome? latches.latchMap.get? with
  | some held => (some held, latches)
  | none =>
    (none, { latchMap := keys.foldl (fun map key => map.insert key notify) latches.latchMap })

def releaseLatches (latches : Latches ν) (keys : List Bytes) : Option ν × Latches ν :=
  (keys.head?.bind latches.latchMap.get?,
    { latchMap := keys.foldl (fun map key => map.erase key) latches.latchMap })

theorem get?_foldl_insert (map : OrderedMap Bytes ν) (notify : ν) (keys : List Bytes)
    (key : Bytes) :
    (keys.foldl (fun map key => map.insert key notify) map).get? key =
      if key ∈ keys then some notify else map.get? key := by
  induction keys generalizing map with
  | nil => simp
  | cons head rest induction =>
    rw [foldl_cons, induction, get?_insert]
    by_cases inRest : key ∈ rest
    · simp [inRest]
    · by_cases isHead : key = head
      · simp [isHead]
      · simp [inRest, isHead]

theorem get?_foldl_erase (map : OrderedMap Bytes ν) (keys : List Bytes) (key : Bytes) :
    (keys.foldl (fun map key => map.erase key) map).get? key =
      if key ∈ keys then none else map.get? key := by
  induction keys generalizing map with
  | nil => simp
  | cons head rest induction =>
    rw [foldl_cons, induction, get?_erase]
    by_cases inRest : key ∈ rest
    · simp [inRest]
    · by_cases isHead : key = head
      · simp [isHead]
      · simp [inRest, isHead]

def tryLatches (latches : Latches ν) (notify : ν) (keys : List Bytes) : Option (Latches ν) :=
  match latches.acquireLatches notify keys with
  | (none, taken) => some taken
  | (some _, _) => none

variable {latches taken : Latches ν} {notify : ν} {keys : List Bytes}

variable (acquired : latches.tryLatches notify keys = some taken)

include acquired

theorem tryLatches_eq_some :
    keys.findSome? latches.latchMap.get? = none ∧ taken.latchMap =
      keys.foldl (fun map key => map.insert key notify) latches.latchMap := by
  rw [tryLatches, acquireLatches] at acquired
  cases search : keys.findSome? latches.latchMap.get? with
  | some held => simp [search] at acquired
  | none =>
    simp only [search, Option.some.injEq] at acquired
    rw [← acquired]
    exact ⟨rfl, rfl⟩

theorem releaseLatches_of_tryLatches :
    (taken.releaseLatches keys).2 = latches := by
  rcases tryLatches_eq_some acquired with ⟨free, inserted⟩
  have same : (taken.releaseLatches keys).2.latchMap = latches.latchMap := by
    apply OrderedMap.ext
    intro key
    rw [releaseLatches, get?_foldl_erase, inserted, get?_foldl_insert]
    split_ifs with member
    · exact (findSome?_eq_none_iff.mp free key member).symm
    · rfl
  cases latches
  exact congrArg Latches.mk same

theorem eq_iff_of_tryLatches : taken = latches ↔ keys = [] := by
  rcases tryLatches_eq_some acquired with ⟨free, inserted⟩
  cases keys with
  | nil =>
    refine iff_of_true ?_ rfl
    cases latches
    exact congrArg Latches.mk inserted
  | cons key rest =>
    refine iff_of_false ?_ (cons_ne_nil key rest)
    intro same
    have held : taken.latchMap.get? key = some notify := by
      rw [inserted, get?_foldl_insert, if_pos mem_cons_self]
    rw [same, findSome?_eq_none_iff.mp free key mem_cons_self] at held
    cases held

omit acquired

def table : LatchTable (Latches ν) Bytes ν where
  holder latches key := latches.latchMap.get? key
  acquire := tryLatches
  release latches keys := (latches.releaseLatches keys).2
  free acquired key member :=
    findSome?_eq_none_iff.mp (tryLatches_eq_some acquired).1 key member
  taken acquired key member := by
    rw [(tryLatches_eq_some acquired).2, get?_foldl_insert, if_pos member]
  untouched acquired key notMember := by
    rw [(tryLatches_eq_some acquired).2, get?_foldl_insert, if_neg notMember]
  released latches keys key member := by
    rw [releaseLatches, get?_foldl_erase, if_pos member]
  kept latches keys key notMember := by
    rw [releaseLatches, get?_foldl_erase, if_neg notMember]

end Latches

end AegisDB
