import Mathlib.Logic.Basic

/-! # Code that takes a lock

The code of one thread, with the lock that it takes as a part of the state. The lock is not
re-entrant: code that asks for it while holding it waits forever, which is the result `none`. -/

namespace Foundation

structure Locked (σ : Type u) where
  value : σ
  held : Bool

def Locked.free (value : σ) : Locked σ where
  value
  held := false

def Locked.taken (value : σ) : Locked σ where
  value
  held := true

abbrev Locking (σ : Type u) (α : Type u) := StateT (Locked σ) Option α

namespace Locking

variable {σ α : Type u}

def acquire : Locking σ PUnit := fun state =>
  if state.held then none else some (⟨⟩, .taken state.value)

def release : Locking σ PUnit := fun state => some (⟨⟩, .free state.value)

def view (function : σ → α) : Locking σ α := fun state => some (function state.value, state)

def change (function : σ → σ) : Locking σ PUnit := fun state =>
  some (⟨⟩, { state with value := function state.value })

def underLock (function : σ → α) : Locking σ α := do
  acquire
  let result ← view function
  release
  return result

variable {value : σ} {state : Locked σ}

@[simp] theorem value_taken : (Locked.taken value).value = value := rfl

@[simp] theorem acquire_run_free : acquire.run (.free value) = some (⟨⟩, .taken value) := rfl

@[simp] theorem acquire_run_taken : acquire.run (.taken value) = none := rfl

@[simp] theorem release_run : release.run state = some (⟨⟩, .free state.value) := rfl

@[simp] theorem view_run (function : σ → α) :
    (view function).run state = some (function state.value, state) := rfl

@[simp] theorem change_run_free (function : σ → σ) :
    (change function).run (.free value) = some (⟨⟩, .free (function value)) := rfl

@[simp] theorem change_run_taken (function : σ → σ) :
    (change function).run (.taken value) = some (⟨⟩, .taken (function value)) := rfl

@[simp] theorem underLock_run_free (function : σ → α) :
    (underLock function).run (.free value) = some (function value, .free value) := rfl

theorem discard_run (code : Locking σ α) :
    (discard code).run state = (code.run state).map fun result => (⟨⟩, result.2) := by
  change (code.run state).bind _ = _
  rw [Option.map_eq_bind]
  rfl

theorem forM_change_run (function : ι → σ → σ) (items : List ι) :
    (forM items fun item => change (function item)).run (.taken value) =
      some (⟨⟩, .taken (items.foldl (fun value item => function item value) value)) := by
  induction items generalizing value with
  | nil => rfl
  | cons first rest induction =>
    rw [List.forM_cons, StateT.run_bind, change_run_taken]
    exact induction

end Locking

end Foundation
