import Mathlib.Data.List.Basic

/-! # Computations that may fail

A fallible call ends with a value, with an error it hands to its caller, or with
a panic that no caller can intercept. Slicing and indexing are the operations
that panic. -/

namespace Foundation

inductive Fault where
  | error (message : String)
  | panic (message : String)
deriving Repr, DecidableEq

abbrev Fallible (α : Type) := Except Fault α

namespace Fallible

def NoPanic (outcome : Fallible α) : Prop :=
  ∀ message, outcome ≠ .error (.panic message)

@[simp] theorem noPanic_ok (value : α) : NoPanic (.ok value) := by
  intro message impossible
  cases impossible

theorem NoPanic.bind {first : Fallible α} {next : α → Fallible β} (noPanic : first.NoPanic)
    (further : ∀ value, (next value).NoPanic) : (first >>= next).NoPanic := by
  cases first with
  | error fault =>
    exact fun message panics => noPanic message (congrArg _ (Except.error.inj panics))
  | ok value => exact further value

@[simp] theorem noPanic_error (message : String) :
    NoPanic (.error (.error message) : Fallible α) := by
  intro other impossible
  cases impossible

theorem bind_eq_ok_iff {outcome : Fallible α} {continuation : α → Fallible β} {result : β} :
    outcome >>= continuation = .ok result ↔
      ∃ value, outcome = .ok value ∧ continuation value = .ok result := by
  cases outcome with
  | error fault => simp [bind, Except.bind]
  | ok value => simp [bind, Except.bind]

end Fallible

def slice (list : List α) (low high : Nat) : Fallible (List α) :=
  if low ≤ high ∧ high ≤ list.length then
    .ok ((list.drop low).take (high - low))
  else
    .error (.panic "slice index out of range")

variable {low high : Nat}

theorem slice_eq_ok {list : List α} (ordered : low ≤ high) (bounded : high ≤ list.length) :
    slice list low high = .ok ((list.drop low).take (high - low)) := by
  simp [slice, ordered, bounded]

theorem eq_nil_of_slice_nil {result : List α}
    (sliced : slice [] low high = .ok result) : result = [] := by
  rw [slice] at sliced
  split at sliced
  · simp [← Except.ok.inj sliced]
  · cases sliced

variable {fault : Fault}

theorem fault_of_slice {list : List α} (failed : slice list low high = .error fault) :
    fault = .panic "slice index out of range" := by
  rw [slice] at failed
  split at failed
  · cases failed
  · exact (Except.error.inj failed).symm

theorem slice_eq_error {list : List α}
    (failed : slice list low high = .error fault) : ∃ message, fault = .panic message :=
  ⟨_, fault_of_slice failed⟩

def elementAt (list : List α) (position : Nat) : Fallible α :=
  match list[position]? with
  | some element => .ok element
  | none => .error (.panic "index out of bounds")

theorem elementAt_eq_ok {list : List α} {position : Nat} {element : α}
    (present : list[position]? = some element) :
    elementAt list position = .ok element := by
  simp [elementAt, present]

def checkedSub (left right : Nat) : Fallible Nat :=
  if right ≤ left then .ok (left - right)
  else .error (.panic "attempt to subtract with overflow")

theorem checkedSub_eq_ok {left right : Nat} (ordered : right ≤ left) :
    checkedSub left right = .ok (left - right) := by
  simp [checkedSub, ordered]

end Foundation
