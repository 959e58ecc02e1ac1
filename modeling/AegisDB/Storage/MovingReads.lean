import AegisDB.Storage.Rebalancing

/-! # Reads of a key that is being moved

A read probes the hot, the warm and the cold tier one after another, and the mover puts
the key into its new tier before it deletes it from the old one. -/

namespace AegisDB.Storage

open Foundation Function

inductive ReadStage where
  | probing (tier : Tier)
  | answered (result : Option Bytes)
deriving DecidableEq, Repr

inductive ReadEvent where
  | probe
  | move
deriving DecidableEq, Repr

def Rebalancing.moveOn (state : Rebalancing) : Rebalancing :=
  match state.mover with
  | .putting _ _ _ _ _ _ | .deleting _ _ _ _ => state.step
  | .opening _ _ | .scanning _ _ _ | .finished => state

structure MovingRead where
  rebalancing : Rebalancing
  reader : ReadStage

namespace MovingRead

def storage (state : MovingRead) : TieredStorage := state.rebalancing.storage

def probe (encodedKey : Bytes) (state : MovingRead) (tier : Tier) : MovingRead :=
  match (state.storage.tiers tier).get? encodedKey with
  | some value =>
    { rebalancing := { state.rebalancing with storage := state.storage.bumpAccess encodedKey }
      reader := .answered (some value) }
  | none =>
    match tier.following with
    | some next => { state with reader := .probing next }
    | none => { state with reader := .answered none }

def act (encodedKey : Bytes) (state : MovingRead) : ReadEvent → MovingRead
  | .probe =>
    match state.reader with
    | .probing tier => state.probe encodedKey tier
    | .answered _ => state
  | .move => { state with rebalancing := state.rebalancing.moveOn }

theorem getCf_alone (rebalancing : Rebalancing) (cf : Cf) (key : Bytes) :
    [.probe, .probe, .probe].foldl (act (keyWithCf cf key))
        { rebalancing, reader := .probing .hot } =
      { rebalancing := { rebalancing with storage := (rebalancing.storage.getCf cf key).2 }
        reader := .answered (rebalancing.storage.getCf cf key).1 } := by
  simp only [List.foldl_cons, List.foldl_nil, act, probe, storage, TieredStorage.getCf]
  cases hot : (rebalancing.storage.tiers .hot).get? (keyWithCf cf key) with
  | some value => rfl
  | none =>
    cases warm : (rebalancing.storage.tiers .warm).get? (keyWithCf cf key) with
    | some value => simp only [Tier.following, warm]
    | none =>
      cases cold : (rebalancing.storage.tiers .cold).get? (keyWithCf cf key) with
      | some value => simp only [Tier.following, warm, cold]
      | none => simp only [Tier.following, warm, cold]

/-! ## What the probes see -/

def movesBefore : List ReadEvent → Nat → Nat
  | [], _ => 0
  | .move :: rest, probe => movesBefore rest probe + 1
  | .probe :: _, 0 => 0
  | .probe :: rest, probe + 1 => movesBefore rest probe

def seen (rebalancing : Rebalancing) (encodedKey : Bytes) (schedule : List ReadEvent)
    (tier : Tier) : Copies :=
  fun place =>
    (Rebalancing.moveOn^[movesBefore schedule (place.position - tier.position)]
      rebalancing).storage.tiers.copies encodedKey place

def firstFrom (copies : Copies) : Tier → Option Bytes
  | .hot => copies.first
  | .warm => (copies .warm).or (copies .cold)
  | .cold => copies .cold

variable {rebalancing : Rebalancing} {encodedKey : Bytes} {schedule : List ReadEvent} {tier : Tier}

theorem act_answered {state : MovingRead} {result : Option Bytes}
    (answered : state.reader = .answered result) :
    (schedule.foldl (act encodedKey) state).reader = .answered result := by
  induction schedule generalizing state with
  | nil => exact answered
  | cons event rest induction =>
    apply induction
    cases event with
    | move => exact answered
    | probe =>
      rw [act, answered]
      exact answered

theorem firstFrom_of_present {copies : Copies} {value : Bytes}
    (present : copies tier = some value) :
    firstFrom copies tier = some value := by
  cases tier <;> simp [firstFrom, Copies.first, present]

theorem reader_run (enough : 3 ≤ tier.position + schedule.count .probe) :
    (schedule.foldl (act encodedKey) { rebalancing, reader := .probing tier }).reader =
      .answered (firstFrom (seen rebalancing encodedKey schedule tier) tier) := by
  induction schedule generalizing rebalancing tier with
  | nil => cases tier <;> simp [Tier.position] at enough
  | cons event rest induction =>
    cases event with
    | move =>
      have shifted : seen rebalancing encodedKey (.move :: rest) tier =
          seen rebalancing.moveOn encodedKey rest tier := rfl
      rw [List.foldl_cons, shifted]
      exact induction (by simpa using enough)
    | probe =>
      have now : seen rebalancing encodedKey (.probe :: rest) tier tier =
          (rebalancing.storage.tiers tier).get? encodedKey := by
        rw [seen, Nat.sub_self]
        rfl
      rw [List.foldl_cons, act]
      dsimp only
      rw [probe, storage]
      dsimp only
      cases found : (rebalancing.storage.tiers tier).get? encodedKey with
      | some value =>
        rw [firstFrom_of_present (now.trans found)]
        exact act_answered rfl
      | none =>
        rw [List.count_cons_self] at enough
        rw [found] at now
        cases tier with
        | hot =>
          rw [firstFrom, Copies.first, now, Option.none_or]
          exact @induction rebalancing .warm (by simp only [Tier.position] at *; omega)
        | warm =>
          rw [firstFrom, now, Option.none_or]
          exact @induction rebalancing .cold (by simp only [Tier.position] at *; omega)
        | cold =>
          rw [firstFrom, now]
          exact act_answered rfl

/-! ## What the move leaves to be seen -/

variable {storage : TieredStorage} {source target : Tier} {value : Bytes}
  {remaining : List (Bytes × Bytes)} {moved : Nat}

def beginning (storage : TieredStorage) (source target : Tier) (encodedKey value : Bytes)
    (remaining : List (Bytes × Bytes)) (moved : Nat) : Rebalancing :=
  { storage, mover := .putting source target encodedKey value remaining moved }

theorem copies_moves (different : target ≠ source)
    (alone : ∀ tier, storage.tiers.copies encodedKey tier =
      if tier = source then some value else none) (count : Nat) (tier : Tier) :
    (Rebalancing.moveOn^[count] (beginning storage source target encodedKey value remaining
        moved)).storage.tiers.copies encodedKey tier =
      if count ≤ 1 ∧ tier = source ∨ 1 ≤ count ∧ tier = target then some value else none := by
  match count with
  | 0 => simpa [beginning] using alone tier
  | 1 =>
    change (storage.tiers.put target encodedKey value).copies encodedKey tier = _
    rw [Tiers.copies_put_same, update_apply, alone]
    split <;> simp_all
  | count + 2 =>
    have still : ∀ {state : Rebalancing}, state.moveOn = state →
        Rebalancing.moveOn^[count] state = state :=
      fun fixed => iterate_fixed fixed count
    rw [iterate_add_apply, still rfl]
    change (storage.tiers.move source target encodedKey value).copies encodedKey tier = _
    rw [Tiers.copies_move_same, update_apply, update_apply, alone]
    split_ifs <;> simp_all

theorem first_eq_some_iff {copies : Copies}
    (either : ∀ tier, copies tier = none ∨ copies tier = some value) :
    copies.first = some value ↔ ∃ tier, copies tier = some value := by
  constructor
  · exact Copies.exists_of_first
  · intro ⟨tier, present⟩
    have notNone : copies tier ≠ none := by simp [present]
    rcases Copies.exists_first notNone with ⟨found, isFirst⟩
    rcases Copies.exists_of_first isFirst with ⟨other, otherPresent⟩
    rcases either other with absent | same
    · rw [absent] at otherPresent
      cases otherPresent
    · rw [isFirst, ← otherPresent, same]

theorem first_seen_iff (different : target ≠ source)
    (alone : ∀ tier, storage.tiers.copies encodedKey tier =
      if tier = source then some value else none) :
    (seen (beginning storage source target encodedKey value remaining moved) encodedKey schedule
        .hot).first = some value ↔
      movesBefore schedule source.position ≤ 1 ∨ 1 ≤ movesBefore schedule target.position := by
  have sees : ∀ tier, seen (beginning storage source target encodedKey value remaining moved)
      encodedKey schedule .hot tier =
        if movesBefore schedule tier.position ≤ 1 ∧ tier = source ∨
          1 ≤ movesBefore schedule tier.position ∧ tier = target then some value else none :=
    fun tier => copies_moves different alone (movesBefore schedule tier.position) tier
  rw [first_eq_some_iff]
  · simp only [sees, ite_eq_left_iff, reduceCtorEq, imp_false, not_not]
    constructor
    · intro ⟨_, sees⟩
      rcases sees with ⟨early, rfl⟩ | ⟨late, rfl⟩
      · exact .inl early
      · exact .inr late
    · intro either
      rcases either with early | late
      · exact ⟨source, .inl ⟨early, rfl⟩⟩
      · exact ⟨target, .inr ⟨late, rfl⟩⟩
  · intro tier
    rw [sees]
    split
    · exact .inr rfl
    · exact .inl rfl

/-- A read finds a key that is being moved, unless it probes the new tier before the put
and the old tier after the delete. -/
theorem found_iff {count : Nat} {cf : Cf} {key : Bytes}
    (moves : storage.decideTarget source count ≠ source)
    (alone : ∀ tier, storage.tiers.copies (keyWithCf cf key) tier =
      if tier = source then some value else none)
    (probes : 3 ≤ schedule.count .probe) :
    (schedule.foldl (act (keyWithCf cf key))
        { rebalancing := beginning storage source (storage.decideTarget source count)
            (keyWithCf cf key) value remaining moved
          reader := .probing .hot }).reader = .answered (some value) ↔
      ¬ (movesBefore schedule (storage.decideTarget source count).position = 0 ∧
        2 ≤ movesBefore schedule source.position) := by
  rw [reader_run (by simpa [Tier.position] using probes), ReadStage.answered.injEq, firstFrom,
    first_seen_iff moves alone]
  omega

theorem alone_oneKey (tier : Tier) :
    TieredStorage.oneKey.tiers.copies (keyWithCf .default [0x61]) tier =
      if tier = .warm then some [1] else none := by
  cases tier <;> decide

theorem found_oneKey :
    ([.probe, .move, .probe, .move, .probe].foldl (act (keyWithCf .default [0x61]))
        { rebalancing := beginning .oneKey .warm (TieredStorage.oneKey.decideTarget .warm 1)
            (keyWithCf .default [0x61]) [1] [] 0
          reader := .probing .hot }).reader = .answered (some [1]) :=
  (found_iff (by decide) alone_oneKey (by decide)).mpr (by decide)

theorem missed_oneKey :
    ∃ (storage : TieredStorage) (source : Tier) (count : Nat) (cf : Cf) (key value : Bytes)
      (schedule : List ReadEvent),
      storage.decideTarget source count ≠ source ∧
        (∀ tier, storage.tiers.copies (keyWithCf cf key) tier =
          if tier = source then some value else none) ∧
        (schedule.foldl (act (keyWithCf cf key))
          { rebalancing := beginning storage source (storage.decideTarget source count)
              (keyWithCf cf key) value [] 0
            reader := .probing .hot }).reader = .answered none :=
  ⟨.oneKey, .warm, 1, .default, [0x61], [1], [.probe, .move, .move, .probe, .probe], by decide,
    alone_oneKey, by decide⟩

end MovingRead

end AegisDB.Storage
