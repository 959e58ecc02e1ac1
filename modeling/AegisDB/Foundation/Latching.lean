import Mathlib.Data.List.Basic
import Mathlib.Data.List.Nodup
import Mathlib.Logic.Function.Basic

/-! # Handlers under latches

Handlers take all their latches at once, look at a shared store one step at a time,
update it once, and give the latches back. As long as each of them keeps to the parts
of the store its latches stand for, any interleaving does what the handlers do one
after another, in the order of their updates. -/

namespace Foundation

open List

/-! ## Handlers -/

inductive Program (σ ρ : Type) where
  | done (update : σ → σ) (outcome : ρ)
  | observe (next : σ → Program σ ρ)

namespace Program

variable {σ ρ κ π : Type}

def finish : Program σ ρ → σ → (σ → σ) × ρ
  | .done update outcome, _ => (update, outcome)
  | .observe next, store => (next store).finish store

inductive Confined (part : σ → κ → π) (keys : κ → Prop) : Program σ ρ → Prop
  | done {update : σ → σ} {outcome : ρ}
      (frame : ∀ store key, ¬ keys key → part (update store) key = part store key) :
      Confined part keys (.done update outcome)
  | observe {next : σ → Program σ ρ}
      (sees : ∀ left right, (∀ key, keys key → part left key = part right key) →
        next left = next right)
      (rest : ∀ store, Confined part keys (next store)) :
      Confined part keys (.observe next)

variable {part : σ → κ → π} {keys : κ → Prop} {program : Program σ ρ}

theorem Confined.finish_eq (confined : program.Confined part keys) {left right : σ}
    (agree : ∀ key, keys key → part left key = part right key) :
    program.finish left = program.finish right := by
  induction confined with
  | done frame => rfl
  | @observe next sees rest induction =>
    change (next left).finish left = (next right).finish right
    rw [sees left right agree]
    exact induction right

theorem Confined.of_observe {next : σ → Program σ ρ}
    (confined : (Program.observe next).Confined part keys) (store : σ) :
    (next store).Confined part keys := by
  cases confined with
  | observe sees rest => exact rest store

theorem Confined.frame {update : σ → σ} {outcome : ρ}
    (confined : (Program.done update outcome).Confined part keys) (store : σ) {key : κ}
    (other : ¬ keys key) : part (update store) key = part store key := by
  cases confined with
  | done frame => exact frame store key other

end Program

/-! ## Latches -/

structure LatchTable (τ κ ι : Type) where
  holder : τ → κ → Option ι
  acquire : τ → ι → List κ → Option τ
  release : τ → List κ → τ
  free : ∀ {table table' handler keys}, acquire table handler keys = some table' →
    ∀ key ∈ keys, holder table key = none
  taken : ∀ {table table' handler keys}, acquire table handler keys = some table' →
    ∀ key ∈ keys, holder table' key = some handler
  untouched : ∀ {table table' handler keys}, acquire table handler keys = some table' →
    ∀ key, key ∉ keys → holder table' key = holder table key
  released : ∀ table keys, ∀ key ∈ keys, holder (release table keys) key = none
  kept : ∀ table keys key, key ∉ keys → holder (release table keys) key = holder table key

/-! ## Interleavings -/

inductive Phase (σ ρ : Type) where
  | waiting
  | running (residual : Program σ ρ)
  | ending (outcome : ρ)
  | finished (outcome : ρ)

structure Workload (σ τ κ π ρ ι : Type) where
  latches : LatchTable τ κ ι
  part : σ → κ → π
  keys : ι → List κ
  program : ι → Program σ ρ
  releases : ρ → Bool
  confined : ∀ handler, (program handler).Confined part (· ∈ keys handler)

structure Configuration (σ τ ρ ι : Type) where
  store : σ
  table : τ
  phase : ι → Phase σ ρ

namespace Workload

variable {σ τ κ π ρ ι : Type} (work : Workload σ τ κ π ρ ι)

def serially (start : σ) (order : List ι) : σ :=
  order.foldl (fun store handler => ((work.program handler).finish store).1 store) start

def outcome (store : σ) (handler : ι) : ρ := ((work.program handler).finish store).2

@[simp] theorem serially_append_singleton (start : σ) (order : List ι) (handler : ι) :
    work.serially start (order ++ [handler]) =
      ((work.program handler).finish (work.serially start order)).1
        (work.serially start order) := by
  simp [serially]

variable [DecidableEq ι]

def step (configuration : Configuration σ τ ρ ι) (handler : ι) : Configuration σ τ ρ ι :=
  let enter phase := Function.update configuration.phase handler phase
  match configuration.phase handler with
  | .waiting =>
    match work.latches.acquire configuration.table handler (work.keys handler) with
    | some table => { configuration with table, phase := enter (.running (work.program handler)) }
    | none => configuration
  | .running (.observe next) =>
    { configuration with phase := enter (.running (next configuration.store)) }
  | .running (.done update outcome) =>
    { configuration with
      store := update configuration.store
      phase := enter (if work.releases outcome then .ending outcome else .finished outcome) }
  | .ending outcome =>
    { configuration with
      table := work.latches.release configuration.table (work.keys handler)
      phase := enter (.finished outcome) }
  | .finished _ => configuration

end Workload

def Phase.outcome? : Phase σ ρ → Option ρ
  | .ending outcome => some outcome
  | .finished outcome => some outcome
  | _ => none

def Phase.isFinished : Phase σ ρ → Bool
  | .finished _ => true
  | _ => false

theorem Phase.isFinished_iff {phase : Phase σ ρ} :
    phase.isFinished = true ↔ ∃ outcome, phase = .finished outcome := by
  cases phase <;> simp [isFinished]

def Phase.Holding : Phase σ ρ → Prop
  | .running _ => True
  | .ending _ => True
  | _ => False

structure Serialized [DecidableEq ι] (work : Workload σ τ κ π ρ ι) (start : σ)
    (configuration : Configuration σ τ ρ ι) (order : List ι) : Prop where
  store : configuration.store = work.serially start order
  nodup : order.Nodup
  ended : ∀ handler, handler ∈ order ↔ (configuration.phase handler).outcome?.isSome
  outcomes : ∀ before handler after, order = before ++ handler :: after →
    (configuration.phase handler).outcome? =
      some (work.outcome (work.serially start before) handler)
  running : ∀ handler residual, configuration.phase handler = .running residual →
    residual.Confined work.part (· ∈ work.keys handler) ∧
      residual.finish configuration.store = (work.program handler).finish configuration.store
  held : ∀ handler, (configuration.phase handler).Holding → ∀ key ∈ work.keys handler,
    work.latches.holder configuration.table key = some handler

namespace Serialized

variable {σ τ κ π ρ ι : Type} [DecidableEq ι] {work : Workload σ τ κ π ρ ι}
  {start : σ} {configuration : Configuration σ τ ρ ι} {order : List ι}

variable (serialized : Serialized work start configuration order)

include serialized

theorem keys_disjoint {left right : ι} (leftHolds : (configuration.phase left).Holding)
    (rightHolds : (configuration.phase right).Holding) (different : left ≠ right) {key : κ}
    (leftKey : key ∈ work.keys left) : key ∉ work.keys right := by
  intro rightKey
  have equal := (serialized.held left leftHolds key leftKey).symm.trans
    (serialized.held right rightHolds key rightKey)
  exact different (Option.some.inj equal)

variable {handler : ι} {phase : Phase σ ρ}

theorem enter {table : τ} (sameOutcome : phase.outcome? = (configuration.phase handler).outcome?)
    (running : ∀ residual, phase = .running residual →
      residual.Confined work.part (· ∈ work.keys handler) ∧
        residual.finish configuration.store = (work.program handler).finish configuration.store)
    (held : phase.Holding → ∀ key ∈ work.keys handler,
      work.latches.holder table key = some handler)
    (othersHeld : ∀ other, other ≠ handler → (configuration.phase other).Holding →
      ∀ key ∈ work.keys other, work.latches.holder table key = some other) :
    Serialized work start
      { configuration with table, phase := Function.update configuration.phase handler phase }
      order := by
  have outcomes : ∀ other, (Function.update configuration.phase handler phase other).outcome? =
      (configuration.phase other).outcome? := by
    intro other
    by_cases same : other = handler
    · subst same
      rw [Function.update_self, sameOutcome]
    · rw [Function.update_of_ne same]
  refine ⟨serialized.store, serialized.nodup, ?_, ?_, ?_, ?_⟩
  · intro other
    rw [outcomes]
    exact serialized.ended other
  · intro before other after split
    rw [outcomes]
    exact serialized.outcomes before other after split
  · intro other residual isRunning
    by_cases same : other = handler
    · subst same
      simp only [Function.update_self] at isRunning
      exact running residual isRunning
    · simp only [Function.update_of_ne same] at isRunning
      exact serialized.running other residual isRunning
  · intro other holds
    by_cases same : other = handler
    · subst same
      simp only [Function.update_self] at holds
      exact held holds
    · simp only [Function.update_of_ne same] at holds
      exact othersHeld other same holds

theorem update {update : σ → σ} {outcome : ρ}
    (isRunning : configuration.phase handler = .running (.done update outcome))
    (hasOutcome : phase.outcome? = some outcome) :
    Serialized work start
      { configuration with
        store := update configuration.store
        phase := Function.update configuration.phase handler phase }
      (order ++ [handler]) := by
  rcases serialized.running handler _ isRunning with ⟨confined, finishes⟩
  have handlerHolds : (configuration.phase handler).Holding := by
    rw [isRunning]
    trivial
  have notEnded : handler ∉ order := by
    rw [serialized.ended, isRunning]
    simp [Phase.outcome?]
  have alone : (work.program handler).finish (work.serially start order) = (update, outcome) := by
    rw [← serialized.store, ← finishes]
    rfl
  have notRunning : ∀ residual, phase ≠ .running residual := by
    rintro residual rfl
    cases hasOutcome
  refine ⟨?_, ?_, ?_, ?_, ?_, ?_⟩
  · rw [work.serially_append_singleton, alone, serialized.store]
  · exact nodup_append.mpr ⟨serialized.nodup, nodup_singleton _, by
      rintro other member _ last rfl
      exact notEnded (mem_singleton.mp last ▸ member)⟩
  · intro other
    by_cases same : other = handler
    · subst same
      simp [Function.update_self, hasOutcome]
    · simp [same, serialized.ended]
  · intro before other after split
    rcases append_eq_append_iff.mp split with ⟨middle, rfl, rest⟩ | ⟨middle, rfl, rest⟩
    · cases middle with
      | nil =>
        rcases List.cons.inj rest with ⟨rfl, rfl⟩
        simp only [Function.update_self, hasOutcome, append_nil, Workload.outcome, alone]
      | cons head tail => simp at rest
    · cases middle with
      | nil =>
        rcases List.cons.inj rest with ⟨rfl, rfl⟩
        simp only [append_nil] at alone
        simp only [Function.update_self, hasOutcome, Workload.outcome, alone]
      | cons head tail =>
        rcases List.cons.inj rest with ⟨rfl, rfl⟩
        have different : other ≠ handler := by
          rintro rfl
          exact notEnded (by simp)
        simp only [Function.update_of_ne different]
        exact serialized.outcomes before other tail rfl
  · intro other residual otherRunning
    by_cases same : other = handler
    · subst same
      simp only [Function.update_self] at otherRunning
      exact absurd otherRunning (notRunning residual)
    · simp only [Function.update_of_ne same] at otherRunning
      rcases serialized.running other residual otherRunning with ⟨otherConfined, otherFinishes⟩
      -- the update does not reach the keys of a handler that holds other latches
      have otherHolds : (configuration.phase other).Holding := by
        rw [otherRunning]
        trivial
      have agree : ∀ key, key ∈ work.keys other →
          work.part (update configuration.store) key = work.part configuration.store key :=
        fun key otherKey => confined.frame _
          (serialized.keys_disjoint otherHolds handlerHolds same otherKey)
      refine ⟨otherConfined, ?_⟩
      rw [otherConfined.finish_eq agree, (work.confined other).finish_eq agree]
      exact otherFinishes
  · intro other holds
    by_cases same : other = handler
    · subst same
      exact serialized.held other handlerHolds
    · simp only [Function.update_of_ne same] at holds
      exact serialized.held other holds

theorem step (handler : ι) :
    ∃ order', Serialized work start (work.step configuration handler) order' := by
  rw [Workload.step]
  cases current : configuration.phase handler with
  | waiting =>
    dsimp only
    split
    · rename_i table acquired
      refine ⟨order, serialized.enter (by rw [current]; rfl) ?_ ?_ ?_⟩
      · rintro residual ⟨⟩
        exact ⟨work.confined handler, rfl⟩
      · intro _ key member
        exact work.latches.taken acquired key member
      · intro other _ holds key member
        have before := serialized.held other holds key member
        have notTaken : key ∉ work.keys handler := by
          intro taken
          rw [work.latches.free acquired key taken] at before
          cases before
        exact (work.latches.untouched acquired key notTaken).trans before
    · exact ⟨order, serialized⟩
  | running residual =>
    cases residual with
    | observe next =>
      rcases serialized.running handler _ current with ⟨confined, finishes⟩
      refine ⟨order, serialized.enter (by rw [current]; rfl) ?_ ?_ ?_⟩
      · rintro residual ⟨⟩
        exact ⟨confined.of_observe _, finishes⟩
      · intro _
        exact serialized.held handler (by rw [current]; trivial)
      · exact fun other _ holds => serialized.held other holds
    | done update outcome =>
      refine ⟨order ++ [handler], serialized.update current ?_⟩
      split <;> rfl
  | ending outcome =>
    refine ⟨order, serialized.enter (by rw [current]; rfl) ?_ ?_ ?_⟩
    · rintro residual ⟨⟩
    · rintro ⟨⟩
    · intro other different holds key member
      have handlerHolds : (configuration.phase handler).Holding := by
        rw [current]
        trivial
      rw [work.latches.kept _ _ key
        (serialized.keys_disjoint holds handlerHolds different member)]
      exact serialized.held other holds key member
  | finished outcome => exact ⟨order, serialized⟩

omit serialized

theorem initial (table : τ) :
    Serialized work start { store := start, table, phase := fun _ => .waiting } [] where
  store := rfl
  nodup := nodup_nil
  ended handler := by simp [Phase.outcome?]
  outcomes before handler after split := by simp at split
  running handler residual isRunning := by cases isRunning
  held handler holds := by cases holds

end Serialized

theorem Workload.serializable {σ τ κ π ρ ι : Type} [DecidableEq ι]
    (work : Workload σ τ κ π ρ ι) (start : σ) (table : τ) (schedule : List ι)
    (completed : ∀ handler, ∃ outcome,
      (schedule.foldl work.step
        { store := start, table, phase := fun _ => .waiting }).phase handler =
        .finished outcome) :
    ∃ order : List ι, order.Nodup ∧ (∀ handler, handler ∈ order) ∧
      (schedule.foldl work.step { store := start, table, phase := fun _ => .waiting }).store =
        work.serially start order ∧
      ∀ before handler after, order = before ++ handler :: after →
        (schedule.foldl work.step { store := start, table, phase := fun _ => .waiting }).phase
            handler =
          .finished (work.outcome (work.serially start before) handler) := by
  have reached : ∀ (configuration : Configuration σ τ ρ ι) (order : List ι),
      Serialized work start configuration order →
      ∃ order', Serialized work start (schedule.foldl work.step configuration) order' := by
    clear completed
    induction schedule with
    | nil => exact fun configuration order serialized => ⟨order, serialized⟩
    | cons handler rest induction =>
      intro configuration order serialized
      rcases serialized.step handler with ⟨order', serialized'⟩
      exact induction _ order' serialized'
  rcases reached _ [] (.initial table) with ⟨order, serialized⟩
  refine ⟨order, serialized.nodup, ?_, serialized.store, ?_⟩
  · intro handler
    rcases completed handler with ⟨outcome, isFinished⟩
    rw [serialized.ended, isFinished]
    rfl
  · intro before handler after split
    rcases completed handler with ⟨outcome, isFinished⟩
    have outcomes := serialized.outcomes before handler after split
    rw [isFinished] at outcomes ⊢
    rw [← Option.some.inj outcomes]

end Foundation
