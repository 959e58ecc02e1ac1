import Mathlib.Data.List.Basic
import Mathlib.Logic.Function.Basic
import Mathlib.Order.Bounds.Basic

/-! # Versions in time

A chain keeps at most one version per time. A reader at some time sees the latest version
that is not newer. -/

namespace Foundation

section Versions

variable {τ : Type u} {α : Type v} [LinearOrder τ]

def readableTimes (chain : τ → Option α) (time : τ) : Set τ :=
  {ts | ts ≤ time ∧ (chain ts).isSome}

structure IsLatest (chain : τ → Option α) (time ts : τ) (version : α) : Prop where
  present : chain ts = some version
  greatest : IsGreatest (readableTimes chain time) ts

open Classical in
noncomputable def latest (chain : τ → Option α) (time : τ) : Option (τ × α) :=
  if exists_ : ∃ entry : τ × α, IsLatest chain time entry.1 entry.2 then some exists_.choose
  else none

variable {chain other : τ → Option α} {time ts : τ} {version : α}

theorem IsLatest.unique {left right : τ × α} (leftLatest : IsLatest chain time left.1 left.2)
    (rightLatest : IsLatest chain time right.1 right.2) : left = right := by
  have sameTime := leftLatest.greatest.unique rightLatest.greatest
  have sameVersion : some left.2 = some right.2 := by
    rw [← leftLatest.present, ← rightLatest.present, sameTime]
  exact Prod.ext sameTime (Option.some.inj sameVersion)

theorem latest_eq_some_iff :
    latest chain time = some (ts, version) ↔ IsLatest chain time ts version := by
  rw [latest]
  split
  · rename_i exists_
    constructor
    · intro chosen
      rw [Option.some.injEq] at chosen
      have isLatest := exists_.choose_spec
      rw [chosen] at isLatest
      exact isLatest
    · intro isLatest
      exact congrArg some (exists_.choose_spec.unique isLatest)
  · rename_i none
    simp only [reduceCtorEq, false_iff]
    intro isLatest
    exact none ⟨(ts, version), isLatest⟩

theorem latest_eq_none (nothing : ∀ ts ≤ time, chain ts = none) : latest chain time = none := by
  rw [Option.eq_none_iff_forall_ne_some]
  intro entry found
  have isLatest := latest_eq_some_iff.mp found
  have present := isLatest.present
  rw [nothing entry.1 isLatest.greatest.1.1] at present
  cases present

theorem latest_congr
    (same : ∀ ts version, IsLatest chain time ts version ↔ IsLatest other time ts version) :
    latest chain time = latest other time := by
  apply Option.ext
  intro entry
  exact (latest_eq_some_iff.trans (same entry.1 entry.2)).trans latest_eq_some_iff.symm

/-! ## Chains listed from the newest version on -/

theorem latest_eq_find? {entries : List (τ × α)}
    (newestFirst : entries.Pairwise fun newer older => older.1 < newer.1)
    (lists : ∀ ts version, chain ts = some version ↔ (ts, version) ∈ entries) :
    latest chain time = entries.find? fun entry => entry.1 ≤ time := by
  cases found : entries.find? fun entry => entry.1 ≤ time with
  | none =>
    apply latest_eq_none
    intro ts readable
    rw [Option.eq_none_iff_forall_ne_some]
    intro version present
    have newer := List.find?_eq_none.mp found _ ((lists ts version).mp present)
    exact newer (by simpa using readable)
  | some entry =>
    rcases entry with ⟨ts, version⟩
    rcases List.find?_eq_some_iff_append.mp found with ⟨readable, before, after, split, newer⟩
    have present : chain ts = some version := (lists ts version).mpr (by simp [split])
    refine latest_eq_some_iff.mpr ⟨present, ⟨by simpa using readable, by simp [present]⟩, ?_⟩
    intro later readableLater
    rcases Option.isSome_iff_exists.mp readableLater.2 with ⟨laterVersion, laterPresent⟩
    have member := (lists later laterVersion).mp laterPresent
    rw [split] at member newestFirst
    -- what stands before the entry is newer than the reader, what follows is older
    rcases List.mem_append.mp member with isBefore | isAfter
    · exact absurd readableLater.1 (by simpa using newer _ isBefore)
    · rcases List.mem_cons.mp isAfter with same | isOlder
      · exact (congrArg Prod.fst same).le
      · have parts := (List.pairwise_append.mp newestFirst).2.1
        exact ((List.pairwise_cons.mp parts).1 _ isOlder).le

/-! ## A new version -/

theorem IsLatest.of_agree {newTs : τ} (agree : ∀ ts, ts ≠ newTs → chain ts = other ts)
    (hidden : time < newTs ∨ ∃ newer, newTs < newer ∧ newer ≤ time ∧ (chain newer).isSome)
    (isLatest : IsLatest chain time ts version) : IsLatest other time ts version := by
  have newBelow (readable : newTs ≤ time) : newTs < ts := by
    rcases hidden with tooNew | ⟨newer, isNewer, newerReadable, present⟩
    · exact absurd readable (not_le.mpr tooNew)
    · exact isNewer.trans_le (isLatest.greatest.2 ⟨newerReadable, present⟩)
  have same : chain ts = other ts := by
    apply agree
    intro isNew
    have below := newBelow (isNew ▸ isLatest.greatest.1.1)
    exact below.ne' isNew
  refine ⟨same ▸ isLatest.present, ⟨isLatest.greatest.1.1, same ▸ isLatest.greatest.1.2⟩, ?_⟩
  intro later readable
  by_cases isNew : later = newTs
  · exact isNew ▸ (newBelow (isNew ▸ readable.1)).le
  · exact isLatest.greatest.2 ⟨readable.1, agree later isNew ▸ readable.2⟩

section Update

variable [DecidableEq τ]

theorem latest_update_of_hidden {newTs : τ} {new : α}
    (hidden : time < newTs ∨ ∃ newer, newTs < newer ∧ newer ≤ time ∧ (chain newer).isSome) :
    latest (Function.update chain newTs (some new)) time = latest chain time := by
  have agree (ts : τ) (different : ts ≠ newTs) :
      Function.update chain newTs (some new) ts = chain ts :=
    Function.update_of_ne different _ _
  apply latest_congr
  intro ts version
  constructor
  · apply IsLatest.of_agree agree
    rcases hidden with tooNew | ⟨newer, isNewer, readable, present⟩
    · exact .inl tooNew
    · exact .inr ⟨newer, isNewer, readable, by rwa [agree newer isNewer.ne']⟩
  · exact IsLatest.of_agree (fun ts different => (agree ts different).symm) hidden

theorem latest_update_of_shown {newTs : τ} {new : α} (readable : newTs ≤ time)
    (newest : ∀ newer, newTs < newer → newer ≤ time → chain newer = none) :
    latest (Function.update chain newTs (some new)) time = some (newTs, new) := by
  refine latest_eq_some_iff.mpr ⟨Function.update_self .., ⟨readable, by simp⟩, ?_⟩
  intro later readableLater
  by_contra isNewer
  have isNewer := not_le.mp isNewer
  have present := readableLater.2
  rw [Function.update_of_ne isNewer.ne', newest later isNewer readableLater.1] at present
  cases present

end Update

end Versions

end Foundation
