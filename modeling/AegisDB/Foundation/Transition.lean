import Mathlib.Data.List.Infix
import Mathlib.Order.Basic

/-! # Runs of a transition function

A run applies one input after another. Guarded runs only take steps that a condition
allows in the state they start from; facts about all of them are proved along the
inputs, with the whole past at hand. -/

namespace Foundation

open List

theorem forall_isPrefix_nil {property : List ι → Prop} :
    (∀ past, past <+: [] → property past) ↔ property [] := by
  simp

theorem forall_isPrefix_cons {property : List ι → Prop} {input : ι} {rest : List ι} :
    (∀ past, past <+: input :: rest → property past) ↔
      property [] ∧ ∀ past, past <+: rest → property (input :: past) := by
  constructor
  · intro every
    exact ⟨every [] nil_prefix, fun past isPrefix =>
      every (input :: past) (cons_prefix_cons.mpr ⟨rfl, isPrefix⟩)⟩
  · intro ⟨atStart, later⟩ past isPrefix
    rcases prefix_cons_iff.mp isPrefix with rfl | ⟨_, rfl, shorter⟩
    · exact atStart
    · exact later _ shorter

section Runs

variable {σ : Type u} {ι : Type v} (step : σ → ι → σ) (allowed : σ → ι → Prop)

/-- Every step of the run is allowed in the state it is taken from. -/
def Guarded : σ → List ι → Prop
  | _, [] => True
  | state, input :: rest => allowed state input ∧ Guarded (step state input) rest

instance decidableGuarded [∀ state input, Decidable (allowed state input)] (start : σ)
    (inputs : List ι) : Decidable (Guarded step allowed start inputs) :=
  match inputs with
  | [] => inferInstanceAs (Decidable True)
  | input :: rest =>
    have := decidableGuarded (step start input) rest
    inferInstanceAs (Decidable (_ ∧ _))

variable {start : σ}

theorem guarded_append {first second : List ι} :
    Guarded step allowed start (first ++ second) ↔
      Guarded step allowed start first ∧
        Guarded step allowed (first.foldl step start) second := by
  induction first generalizing start with
  | nil => simp [Guarded]
  | cons input rest induction => simp [Guarded, induction, and_assoc]

variable {step allowed}

variable {inputs : List ι}

theorem guarded_of_forall
    (always : ∀ state input, allowed state input) : Guarded step allowed start inputs := by
  induction inputs generalizing start with
  | nil => trivial
  | cons input rest induction => exact ⟨always start input, induction⟩

variable {past : List ι}

theorem Guarded.of_isPrefix (isPrefix : past <+: inputs)
    (guarded : Guarded step allowed start inputs) : Guarded step allowed start past := by
  rcases isPrefix with ⟨rest, rfl⟩
  exact ((guarded_append step allowed).mp guarded).1

theorem Guarded.holds {input : ι}
    (guarded : Guarded step allowed start inputs) (isPrefix : past ++ [input] <+: inputs) :
    allowed (past.foldl step start) input :=
  ((guarded_append step allowed).mp (guarded.of_isPrefix isPrefix)).2.1

theorem guarded_of_holds (holds : ∀ past input, past ++ [input] <+: inputs →
      allowed (past.foldl step start) input) : Guarded step allowed start inputs := by
  induction inputs using List.reverseRecOn with
  | nil => trivial
  | append_singleton past input induction =>
    apply (guarded_append step allowed).mpr
    refine ⟨induction fun earlier other isPrefix => ?_, holds past input prefix_rfl, trivial⟩
    exact holds earlier other (isPrefix.trans (prefix_append past [input]))

variable {motive : List ι → Prop}

theorem Guarded.induction (guarded : Guarded step allowed start inputs) (base : motive [])
    (next : ∀ past input, past ++ [input] <+: inputs →
      allowed (past.foldl step start) input → motive past → motive (past ++ [input])) :
    motive inputs := by
  induction inputs using List.reverseRecOn with
  | nil => exact base
  | append_singleton past input induction =>
    apply next past input prefix_rfl (guarded.holds prefix_rfl)
    apply induction (guarded.of_isPrefix (prefix_append past [input]))
    intro earlier other isPrefix
    exact next earlier other (isPrefix.trans (prefix_append past [input]))

theorem Guarded.invariant {motive : σ → Prop}
    (guarded : Guarded step allowed start inputs) (base : motive start)
    (keeps : ∀ {state input}, input ∈ inputs → motive state → allowed state input →
      motive (step state input)) (isPrefix : past <+: inputs) : motive (past.foldl step start) := by
  apply Guarded.induction (motive := fun past => motive (past.foldl step start))
    (guarded.of_isPrefix isPrefix) base
  intro earlier input isNext holds induction
  rw [foldl_append]
  exact keeps ((isNext.trans isPrefix).subset (by simp)) induction holds

theorem Guarded.monotone {α : Type w} [Preorder α] (measure : σ → α)
    (guarded : Guarded step allowed start inputs)
    (keeps : ∀ {state input}, allowed state input → measure state ≤ measure (step state input))
    {earlier later : List ι} (isEarlier : earlier <+: later) (isPrefix : later <+: inputs) :
    measure (earlier.foldl step start) ≤ measure (later.foldl step start) := by
  rcases isEarlier with ⟨rest, rfl⟩
  have tail := ((guarded_append step allowed).mp (guarded.of_isPrefix isPrefix)).2
  rw [foldl_append]
  exact tail.invariant (motive := fun state => measure (earlier.foldl step start) ≤ measure state)
    le_rfl (fun _ bounded holds => bounded.trans (keeps holds)) prefix_rfl

theorem guarded_of_forall_isPrefix {invariant : σ → Prop} (good : σ → Prop) (base : invariant start)
    (keeps : ∀ {state input}, input ∈ inputs → invariant state → allowed state input →
      invariant (step state input))
    (seen : ∀ {state input}, input ∈ inputs → invariant state → good (step state input) →
      allowed state input)
    (always : ∀ past, past <+: inputs → good (past.foldl step start)) :
    Guarded step allowed start inputs := by
  induction inputs generalizing start with
  | nil => trivial
  | cons input rest induction =>
    have first : allowed start input :=
      seen mem_cons_self base (always [input] (prefix_append [input] rest))
    refine ⟨first, induction (keeps mem_cons_self base first)
      (fun member => keeps (mem_cons_of_mem input member))
      (fun member => seen (mem_cons_of_mem input member)) ?_⟩
    intro past isPrefix
    exact always (input :: past) (cons_prefix_cons.mpr ⟨rfl, isPrefix⟩)

variable {good : σ → ι → Prop}

theorem forall_steps_iff_guarded (base : motive [])
    (next : ∀ past input, past ++ [input] <+: inputs →
      allowed (past.foldl step start) input → motive past → motive (past ++ [input]))
    (exactly : ∀ past input, past ++ [input] <+: inputs → motive past →
      (good (past.foldl step start) input ↔ allowed (past.foldl step start) input)) :
    (∀ past input, past ++ [input] <+: inputs → good (past.foldl step start) input) ↔
      Guarded step allowed start inputs := by
  constructor
  · intro always
    have both : ∀ past, past <+: inputs → Guarded step allowed start past ∧ motive past := by
      intro past
      induction past using List.reverseRecOn with
      | nil => exact fun _ => ⟨trivial, base⟩
      | append_singleton past input induction =>
        intro isPrefix
        have earlier := induction ((prefix_append past [input]).trans isPrefix)
        have here := (exactly past input isPrefix earlier.2).mp (always past input isPrefix)
        exact ⟨(guarded_append step allowed).mpr ⟨earlier.1, here, trivial⟩,
          next past input isPrefix here earlier.2⟩
    exact (both inputs prefix_rfl).1
  · intro guarded past input isPrefix
    have isEarlier := (prefix_append past [input]).trans isPrefix
    have kept : motive past := (guarded.of_isPrefix isEarlier).induction base
      fun earlier other isNext => next earlier other (isNext.trans isEarlier)
    exact (exactly past input isPrefix kept).mpr (guarded.holds isPrefix)

theorem forall_steps_iff_guarded_of_invariant (invariant : σ → Prop) (base : invariant start)
    (keeps : ∀ {state input}, input ∈ inputs → invariant state → invariant (step state input))
    (exactly : ∀ {state input}, input ∈ inputs → invariant state →
      (good state input ↔ allowed state input)) :
    (∀ past input, past ++ [input] <+: inputs → good (past.foldl step start) input) ↔
      Guarded step allowed start inputs := by
  have member : ∀ {past : List ι} {input}, past ++ [input] <+: inputs → input ∈ inputs :=
    fun isPrefix => isPrefix.subset (mem_append_right _ mem_cons_self)
  apply forall_steps_iff_guarded (motive := fun past => invariant (past.foldl step start)) base
  · intro past input isPrefix _ holds
    rw [foldl_append]
    exact keeps (member isPrefix) holds
  · intro past input isPrefix holds
    exact exactly (member isPrefix) holds

end Runs

end Foundation
