import AegisDB.Foundation.Transition
import AegisDB.Latches
import Mathlib.Data.List.Lattice
import Mathlib.Data.List.Pairwise

/-! # Latches exclude each other

`acquire_latches` and `release_latches` of `transaction/latches/latches.rs`, called by any
number of handlers in any order. The latch map does not say who took a key and a release
removes keys without looking, so who holds what is kept beside the map: a list of the
acquisitions that have not been released. -/

namespace AegisDB

open Foundation OrderedMap

/-- An acquisition that has succeeded and has not been released. -/
structure Holding (ι : Type) where
  handler : ι
  keys : List Bytes
deriving DecidableEq, Repr

inductive LatchCall (ν ι : Type) where
  | acquire (handler : ι) (notify : ν) (keys : List Bytes)
  | release (handler : ι) (keys : List Bytes)

structure LatchUse (ν ι : Type) where
  latches : Latches ν
  holdings : List (Holding ι)

namespace LatchUse

variable {ν ι : Type}

def new : LatchUse ν ι := { latches := .new, holdings := [] }

def Holds (state : LatchUse ν ι) (handler : ι) (key : Bytes) : Prop :=
  ∃ holding ∈ state.holdings, holding.handler = handler ∧ key ∈ holding.keys

structure Exclusive (state : LatchUse ν ι) : Prop where
  disjoint : state.holdings.Pairwise fun left right => left.keys.Disjoint right.keys
  present_iff : ∀ {key}, (state.latches.latchMap.get? key).isSome ↔
    ∃ holding ∈ state.holdings, key ∈ holding.keys

section Steps

variable [DecidableEq ι]

def step (state : LatchUse ν ι) : LatchCall ν ι → LatchUse ν ι
  | .acquire handler notify keys =>
    match state.latches.acquireLatches notify keys with
    | (some _, latches) => { state with latches }
    | (none, latches) => { latches, holdings := ⟨handler, keys⟩ :: state.holdings }
  | .release handler keys =>
    { latches := (state.latches.releaseLatches keys).2
      holdings := state.holdings.erase ⟨handler, keys⟩ }

def Owned (state : LatchUse ν ι) : LatchCall ν ι → Prop
  | .acquire _ _ _ => True
  | .release handler keys => ⟨handler, keys⟩ ∈ state.holdings

instance (state : LatchUse ν ι) (call : LatchCall ν ι) : Decidable (state.Owned call) := by
  cases call <;> unfold Owned <;> infer_instance

end Steps

namespace Exclusive

variable {state : LatchUse ν ι}

theorem new : Exclusive (LatchUse.new : LatchUse ν ι) where
  disjoint := List.Pairwise.nil
  present_iff := by simp [LatchUse.new, Latches.new]

theorem acquire (exclusive : state.Exclusive) {latches : Latches ν} {notify : ν} {handler : ι}
    {keys : List Bytes} (acquired : state.latches.tryLatches notify keys = some latches) :
    Exclusive { latches, holdings := ⟨handler, keys⟩ :: state.holdings } where
  disjoint := by
    apply List.Pairwise.cons _ exclusive.disjoint
    intro holding member key inKeys inHolding
    have free : state.latches.latchMap.get? key = none := Latches.table.free acquired key inKeys
    have present := exclusive.present_iff.mpr ⟨holding, member, inHolding⟩
    rw [free] at present
    cases present
  present_iff {key} := by
    rw [List.exists_mem_cons_iff, ← exclusive.present_iff]
    by_cases inKeys : key ∈ keys
    · have taken : latches.latchMap.get? key = some notify :=
        Latches.table.taken acquired key inKeys
      simp [taken, inKeys]
    · have untouched : latches.latchMap.get? key = state.latches.latchMap.get? key :=
        Latches.table.untouched acquired key inKeys
      simp [untouched, inKeys]

theorem release [DecidableEq ι] (exclusive : state.Exclusive) {holding : Holding ι}
    (member : holding ∈ state.holdings) :
    Exclusive
      { latches := (state.latches.releaseLatches holding.keys).2
        holdings := state.holdings.erase holding } := by
  have order := List.perm_cons_erase member
  have apart := (order.pairwise_iff List.Disjoint.symm).mp exclusive.disjoint
  rcases List.pairwise_cons.mp apart with ⟨others, disjoint⟩
  refine ⟨disjoint, ?_⟩
  intro key
  by_cases inKeys : key ∈ holding.keys
  · have gone : (state.latches.releaseLatches holding.keys).2.latchMap.get? key = none :=
      Latches.table.released state.latches holding.keys key inKeys
    rw [gone]
    apply iff_of_false
    · exact Bool.false_ne_true
    · intro held
      rcases held with ⟨other, otherMember, inOther⟩
      exact others other otherMember inKeys inOther
  · have kept : (state.latches.releaseLatches holding.keys).2.latchMap.get? key =
        state.latches.latchMap.get? key :=
      Latches.table.kept state.latches holding.keys key inKeys
    rw [kept, exclusive.present_iff]
    simp only [order.mem_iff, List.exists_mem_cons_iff, inKeys, false_or]

theorem step [DecidableEq ι] (exclusive : state.Exclusive) {call : LatchCall ν ι}
    (owned : state.Owned call) : (state.step call).Exclusive := by
  cases call with
  | acquire handler notify keys =>
    rw [LatchUse.step]
    cases acquired : state.latches.acquireLatches notify keys with
    | mk told latches =>
      cases told with
      | some held =>
        rw [Latches.acquireLatches] at acquired
        split at acquired
        · rw [← (Prod.mk.inj acquired).2]
          exact exclusive
        · cases (Prod.mk.inj acquired).1
      | none => exact exclusive.acquire (by rw [Latches.tryLatches, acquired])
  | release handler keys => exact exclusive.release owned

theorem run [DecidableEq ι] {calls : List (LatchCall ν ι)}
    (owned : Guarded LatchUse.step Owned LatchUse.new calls) :
    (calls.foldl LatchUse.step LatchUse.new).Exclusive :=
  owned.invariant new (fun _ exclusive owned => exclusive.step owned) List.prefix_rfl

theorem eq_of_common (exclusive : state.Exclusive) {left right : Holding ι} {key : Bytes}
    (leftMember : left ∈ state.holdings) (rightMember : right ∈ state.holdings)
    (inLeft : key ∈ left.keys) (inRight : key ∈ right.keys) : left = right := by
  by_contra different
  have symmetric : Std.Symm fun left right : Holding ι => left.keys.Disjoint right.keys :=
    ⟨fun _ _ disjoint => disjoint.symm⟩
  have disjoint := exclusive.disjoint.forall leftMember rightMember different
  exact disjoint inLeft inRight

theorem latchMap_eq_empty (exclusive : state.Exclusive)
    (nothing : ∀ handler key, ¬state.Holds handler key) :
    state.latches.latchMap = OrderedMap.empty := by
  apply OrderedMap.ext
  intro key
  rw [get?_empty, ← Option.not_isSome_iff_eq_none, exclusive.present_iff]
  intro held
  rcases held with ⟨holding, member, inKeys⟩
  exact nothing holding.handler key ⟨holding, member, rfl, inKeys⟩

end Exclusive

/-- However handlers acquire latches and release what they acquired, no two of them hold a
common key, an acquisition that returns a notifier changes nothing, and where nobody holds
a key the map is empty. -/
theorem latches_are_exclusive [DecidableEq ι] {calls : List (LatchCall ν ι)}
    (owned : Guarded LatchUse.step Owned LatchUse.new calls) :
    let state := calls.foldl LatchUse.step LatchUse.new
    (state.holdings.Pairwise fun left right => left.keys.Disjoint right.keys) ∧
    (∀ handler other key, state.Holds handler key → state.Holds other key → handler = other) ∧
    (∀ handler notify keys held, (state.latches.acquireLatches notify keys).1 = some held →
      (state.latches.acquireLatches notify keys).2 = state.latches ∧
      state.step (.acquire handler notify keys) = state) ∧
    ((∀ handler key, ¬state.Holds handler key) → state.latches.latchMap = OrderedMap.empty) := by
  intro state
  have exclusive : state.Exclusive := Exclusive.run owned
  refine ⟨exclusive.disjoint, ?_, ?_, exclusive.latchMap_eq_empty⟩
  · intro handler other key held otherHeld
    rcases held with ⟨left, leftMember, leftHandler, inLeft⟩
    rcases otherHeld with ⟨right, rightMember, rightHandler, inRight⟩
    rw [← leftHandler, ← rightHandler,
      exclusive.eq_of_common leftMember rightMember inLeft inRight]
  · intro handler notify keys held told
    have refused : state.latches.acquireLatches notify keys = (some held, state.latches) := by
      rw [Latches.acquireLatches] at told ⊢
      split at told
      · rw [Option.some.inj told]
      · cases told
    rw [LatchUse.step, refused]
    exact ⟨rfl, rfl⟩

def competing : List (LatchCall Nat Nat) :=
  [.acquire 1 1 [[7], [8], [7]], .acquire 2 2 [[8]], .acquire 3 3 [],
    .release 1 [[7], [8], [7]], .acquire 2 4 [[8]]]

theorem competing_are_exclusive :
    Guarded LatchUse.step Owned LatchUse.new competing ∧
    (competing.foldl LatchUse.step LatchUse.new).holdings = [⟨2, [[8]]⟩, ⟨3, []⟩] ∧
    ((competing.foldl LatchUse.step LatchUse.new).holdings.Pairwise
      fun left right => left.keys.Disjoint right.keys) := by
  have owned : Guarded LatchUse.step Owned LatchUse.new competing := by decide
  exact ⟨owned, by decide, (latches_are_exclusive owned).1⟩

end LatchUse

end AegisDB
