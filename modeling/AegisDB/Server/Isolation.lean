import AegisDB.Server.Outcomes

/-! # Isolation of transactions

Three things clients rely on when transactions run side by side: no update is lost,
what is committed stays, and a decided transaction is not opened again. Each holds in
all histories without one kind of request that the handlers let through. -/

namespace AegisDB.Server

open Foundation Storage Mvcc KeyState List

/-! ## Lost updates -/

def NoLostUpdate (store : FlatStore) : Prop :=
  ∀ key left leftCommit right rightCommit, HoldsCommit store key left leftCommit →
    HoldsCommit store key right rightCommit → left ≠ right →
    leftCommit < right ∨ rightCommit < left

/-- A prewrite passes although another transaction has committed one of its keys since. -/
def OverlooksConflict (store : FlatStore) : Request → Prop
  | .prewrite req => PrewriteAccepted store req ∧ ∃ mutation ∈ req.mutations,
      ∃ startTs commitTs, HoldsCommit store mutation.key startTs commitTs ∧
        startTs ≠ req.startVersion ∧ req.startVersion < commitTs
  | _ => False

variable {store : FlatStore} {states : Bytes → KeyState} {request : Request} {key : Bytes}
  {action : KeyAction}

theorem notOverwritten_of_performs (represents : Represents store states)
    (noneOverlooked : ¬ OverlooksConflict store request)
    (performs : Performs store request key action) : (states key).NotOverwritten action := by
  cases performs with
  | stage accepted member _ =>
    intro startTs commitTs committed different
    by_contra later
    exact noneOverlooked ⟨accepted, _, member, startTs, commitTs,
      (holdsCommit_iff represents).mpr committed, different, not_le.mp later⟩
  | _ => trivial

/-- No update is lost while no prewrite overlooks a later commit. -/
theorem noLostUpdate_of_noneOverlooked (requests : List Request)
    (unique : UniqueTimestamps requests)
    (noneOverlooked : Guarded Request.step (fun store request => ¬ OverlooksConflict store request)
      FlatStore.empty requests) :
    NoLostUpdate (after requests) := by
  rcases invariant_after
    (fun state => state.Stamped unique.timestamps ∧ state.Serial) noneOverlooked
    ⟨stamped_empty _, serial_empty⟩
    (fun store states request key action represents member allowed performs enabled inv =>
      have stamps := performs_stamps unique member performs
      ⟨inv.1.apply enabled stamps, inv.2.apply inv.1 enabled stamps
        (notOverwritten_of_performs represents allowed performs)⟩) with ⟨states, represents, holds⟩
  intro key left leftCommit right rightCommit leftHolds rightHolds different
  exact (holds key).2.disjoint left leftCommit right rightCommit
    ((holdsCommit_iff represents).mp leftHolds)
    ((holdsCommit_iff represents).mp rightHolds) different

theorem noLostUpdate_successive_writers :
    NoLostUpdate
      (after [putOne [1] [7] 1, commitOne [1] 1 2, putOne [1] [8] 3, commitOne [1] 3 4]) := by
  apply noLostUpdate_of_noneOverlooked _ (uniqueTimestamps_of_check (by decide))
  have only : (after [putOne [1] [7] 1, commitOne [1] 1 2] .write).entries =
      [(encodeKey [1] 2, Write.toBytes { startTs := 1, kind := .put })] := by
    decide +kernel
  refine ⟨?_, not_false, ?_, not_false, trivial⟩
  · rintro ⟨_, mutation, _, startTs, commitTs, ⟨kind, _, holds⟩, _, _⟩
    cases holds
  · rintro ⟨_, mutation, _, startTs, commitTs, ⟨kind, _, holds⟩, _, later⟩
    rcases eq_of_only_entry only holds with ⟨_, rfl, _⟩
    exact absurd later (by decide)

/-- A prewrite that started before the other transaction committed passes the conflict
check: `most_recent_write` only returns versions up to the start timestamp. Both commit. -/
theorem lost_update :
    ∃ requests, UniqueTimestamps requests ∧ ¬ NoLostUpdate (after requests) := by
  refine ⟨[putOne [1] [7] 2, commitOne [1] 2 3, putOne [1] [8] 1, commitOne [1] 1 4],
    uniqueTimestamps_of_check (by decide), ?_⟩
  intro disjoint
  have first : HoldsCommit (after [putOne [1] [7] 2, commitOne [1] 2 3, putOne [1] [8] 1,
      commitOne [1] 1 4]) [1] 2 3 := ⟨.put, by decide, by decide +kernel⟩
  have second : HoldsCommit (after [putOne [1] [7] 2, commitOne [1] 2 3, putOne [1] [8] 1,
      commitOne [1] 1 4]) [1] 1 4 := ⟨.put, by decide, by decide +kernel⟩
  exact absurd (disjoint [1] 2 3 1 4 first second (by decide)) (by decide)

/-! ## Committed versions stay -/

/-- A transaction that has committed is staged again or rolled back. -/
def RepeatsCommitted (store : FlatStore) : Request → Prop
  | .prewrite req => PrewriteAccepted store req ∧ ∃ mutation ∈ req.mutations,
      ∃ commitTs, HoldsCommit store mutation.key req.startVersion commitTs
  | .batchRollback req => RollbackAccepted store req ∧ ∃ key ∈ req.keys,
      ∃ commitTs, HoldsRecord store key commitTs { startTs := req.startVersion, kind := .put }
  | _ => False

theorem notRepeated_of_performs (represents : Represents store states)
    (noneRepeated : ¬ RepeatsCommitted store request)
    (performs : Performs store request key action) : (states key).NotRepeated action := by
  cases performs with
  | stage accepted member _ =>
    intro commitTs committed
    exact noneRepeated ⟨accepted, _, member, commitTs, (holdsCommit_iff represents).mpr committed⟩
  | rollback accepted member =>
    intro commitTs present
    exact noneRepeated ⟨accepted, _, member, commitTs, (holdsRecord_iff represents).mpr present⟩
  | _ => trivial

def KeepsCommitted (earlier later : FlatStore) : Prop :=
  ∀ key startTs commitTs kind, kind ≠ WriteKind.rollback →
    HoldsRecord earlier key commitTs { startTs, kind } →
    HoldsRecord later key commitTs { startTs, kind } ∧
      (kind = .put → (later .default).get? (encodeKey key startTs) =
        (earlier .default).get? (encodeKey key startTs))

theorem KeepsCommitted.trans {first second third : FlatStore}
    (keeps : KeepsCommitted first second) (keepsLater : KeepsCommitted second third) :
    KeepsCommitted first third := by
  intro key startTs commitTs kind notRollback holds
  rcases keeps key startTs commitTs kind notRollback holds with ⟨holdsSecond, valueSecond⟩
  rcases keepsLater key startTs commitTs kind notRollback holdsSecond with ⟨holdsThird, valueThird⟩
  exact ⟨holdsThird, fun isPut => (valueThird isPut).trans (valueSecond isPut)⟩

variable {requests past : List Request}

theorem keepsCommitted_step (unique : UniqueTimestamps requests)
    (isPrefix : past ++ [request] <+: requests)
    (noneRepeated : Guarded Request.step (fun store request => ¬ RepeatsCommitted store request)
      FlatStore.empty (past ++ [request])) :
    KeepsCommitted (after past) (after (past ++ [request])) := by
  rcases invariant_after
    (fun state => state.Stamped unique.timestamps ∧ state.Open)
    (noneRepeated.of_isPrefix (prefix_append past [request]))
    ⟨stamped_empty _, open_empty⟩
    (fun store states other key action represents member allowed performs enabled inv =>
      have listed := isPrefix.subset (mem_append_left [request] member)
      ⟨inv.1.apply enabled (performs_stamps unique listed performs),
        inv.2.apply enabled (notRepeated_of_performs represents allowed performs)⟩) with
    ⟨states, represents, holds⟩
  rcases request.step_refines represents with ⟨states', represents', acts⟩
  rw [after_append_singleton]
  intro key startTs commitTs kind notRollback recorded
  rcases acts key with ⟨action, performs, enabled, equal⟩
  have listed : request ∈ requests := isPrefix.subset (by simp)
  have present := (holdsRecord_iff represents).mp recorded
  constructor
  · rw [holdsRecord_iff represents', equal, record_apply_of_committed (holds key).1
      (holds key).2 enabled (performs_stamps unique listed performs) ⟨kind, notRollback, present⟩]
    exact present
  · rintro rfl
    have notRepeated := notRepeated_of_performs represents
      (noneRepeated.holds prefix_rfl) performs
    rw [represents'.values, represents.values, equal,
      value_apply_of_put (holds key).2 enabled notRepeated present]

/-- What is committed stays while no committed transaction is repeated. -/
theorem keepsCommitted_of_noneRepeated (past later : List Request)
    (unique : UniqueTimestamps (past ++ later))
    (noneRepeated : Guarded Request.step (fun store request => ¬ RepeatsCommitted store request)
      FlatStore.empty (past ++ later)) :
    KeepsCommitted (after past) (after (past ++ later)) := by
  suffices keeps : ∀ middle, past ++ middle <+: past ++ later →
      KeepsCommitted (after past) (after (past ++ middle)) from keeps later prefix_rfl
  intro middle
  induction middle using List.reverseRecOn with
  | nil =>
    intro _
    rw [append_nil]
    exact fun _ _ _ _ _ holds => ⟨holds, fun _ => rfl⟩
  | append_singleton middle request induction =>
    intro isPrefix
    rw [← append_assoc] at isPrefix ⊢
    exact (induction ((prefix_append _ _).trans isPrefix)).trans
      (keepsCommitted_step unique isPrefix (noneRepeated.of_isPrefix isPrefix))

theorem keepsCommitted_overwritten_key :
    KeepsCommitted (after [putOne [1] [7] 1, commitOne [1] 1 2])
      (after ([putOne [1] [7] 1, commitOne [1] 1 2] ++
        [putOne [1] [8] 3, commitOne [1] 1 2, commitOne [1] 3 4])) := by
  apply keepsCommitted_of_noneRepeated _ _ (uniqueTimestamps_of_check (by decide))
  have only : (after [putOne [1] [7] 1, commitOne [1] 1 2] .write).entries =
      [(encodeKey [1] 2, Write.toBytes { startTs := 1, kind := .put })] := by
    decide +kernel
  refine ⟨?_, not_false, ?_, not_false, not_false, trivial⟩
  · rintro ⟨_, mutation, _, commitTs, kind, _, holds⟩
    cases holds
  · rintro ⟨_, mutation, _, commitTs, kind, _, holds⟩
    rcases eq_of_only_entry only holds with ⟨_, _, same⟩
    have sameStart : (3 : UInt64) = 1 := congrArg Write.startTs same
    exact absurd sameStart (by decide)

/-- Both ways in which a committed version is lost. A rollback looks for a record at the
start timestamp, does not find the commit and deletes the value; a second prewrite with
another value is let through and replaces it. -/
theorem committed_value_lost :
    (∃ past later, UniqueTimestamps (past ++ later) ∧
        later = [.batchRollback { startVersion := 1, keys := [[1]] }] ∧
        ¬ KeepsCommitted (after past) (after (past ++ later))) ∧
      ∃ past later, UniqueTimestamps (past ++ later) ∧ later = [putOne [1] [8] 1] ∧
        ¬ KeepsCommitted (after past) (after (past ++ later)) := by
  constructor
  · refine ⟨[putOne [1] [7] 1, commitOne [1] 1 2], _, uniqueTimestamps_of_check (by decide),
      rfl, ?_⟩
    intro keeps
    have value := (keeps [1] 1 2 .put (by decide) (by decide +kernel)).2 rfl
    exact absurd value (by decide +kernel)
  · refine ⟨[putOne [1] [7] 1, commitOne [1] 1 2], _, uniqueTimestamps_of_check (by decide),
      rfl, ?_⟩
    intro keeps
    have value := (keeps [1] 1 2 .put (by decide) (by decide +kernel)).2 rfl
    exact absurd value (by decide +kernel)

/-! ## Decided transactions stay decided -/

def AlreadyDecided (past : List Request) (req : PrewriteRequest) : Prop :=
  ∃ mutation ∈ req.mutations, ∃ earlier, earlier <+: past ∧
    HoldsDecision (after earlier) mutation.key req.startVersion

def StaysDecided (requests : List Request) : Prop :=
  (∀ past req, past ++ [.prewrite req] <+: requests → AlreadyDecided past req →
      (serve (after past) (kvPrewrite req)).2 ≠ .ok .ok) ∧
    ∀ earlier past key startTs, earlier <+: past → past <+: requests →
      HoldsDecision (after earlier) key startTs → ¬ HoldsLock (after past) key startTs

theorem success_of_accepted {req : PrewriteRequest}
    (represents : Represents store states) (accepted : PrewriteAccepted store req) :
    (serve store (kvPrewrite req)).2 = .ok .ok := by
  rw [serve, kvPrewrite_of_accepted represents.versioned accepted]

theorem not_holdsLock_of_decided (noneAccepted : ∀ past req, past ++ [.prewrite req] <+: requests →
      AlreadyDecided past req → ¬ PrewriteAccepted (after past) req)
    (isPrefix : past <+: requests) {startTs : UInt64}
    (decided : ∃ earlier, earlier <+: past ∧ HoldsDecision (after earlier) key startTs) :
    ¬ HoldsLock (after past) key startTs := by
  induction past using List.reverseRecOn with
  | nil =>
    rintro ⟨lock, locked, _⟩
    cases locked
  | append_singleton past request induction =>
    rcases represents_after past with ⟨states, represents⟩
    rcases request.step_refines represents with ⟨states', represents', acts⟩
    rcases acts key with ⟨action, performs, enabled, equal⟩
    rw [← after_append_singleton] at represents'
    rw [holdsLock_iff represents', equal]
    rintro ⟨lock, locked, own⟩
    -- the deciding record was there before the request, which leaves the key locked
    have decidedBefore : ∃ earlier, earlier <+: past ∧
        HoldsDecision (after earlier) key startTs := by
      rcases decided with ⟨earlier, earlierPrefix, holds⟩
      rcases prefix_concat_iff.mp earlierPrefix with rfl | before
      · rw [holdsDecision_iff represents', equal] at holds
        rcases decided_apply_cases enabled holds with before | unlocked
        · exact ⟨past, prefix_rfl, (holdsDecision_iff represents).mpr before⟩
        · rw [unlocked] at locked
          cases locked
      · exact ⟨earlier, before, holds⟩
    rcases lock_apply_cases enabled locked with ⟨before, _⟩ | ⟨value, rfl⟩
    · exact induction ((prefix_append past [request]).trans isPrefix) decidedBefore
        ((holdsLock_iff represents).mpr ⟨lock, before, own⟩)
    · cases performs with
      | stage accepted member _ =>
        rcases decidedBefore with ⟨earlier, earlierPrefix, holds⟩
        refine noneAccepted past _ isPrefix ⟨_, member, earlier, earlierPrefix, ?_⟩ accepted
        rw [← own] at holds
        exact holds

/-- Decided transactions stay decided exactly in the histories in which every prewrite
that comes after the decision fails a check of the handler: one of its keys is locked by
another transaction or carries a lock that cannot be read, or an operation is not
supported. -/
theorem staysDecided_iff (requests : List Request) :
    StaysDecided requests ↔ ∀ past req, past ++ [.prewrite req] <+: requests →
      AlreadyDecided past req → ¬ PrewriteAccepted (after past) req := by
  constructor
  · rintro ⟨fails, _⟩ past req isPrefix decided accepted
    rcases represents_after past with ⟨states, represents⟩
    exact fails past req isPrefix decided (success_of_accepted represents accepted)
  · intro noneAccepted
    refine ⟨fun past req isPrefix decided success =>
      noneAccepted past req isPrefix decided (kvPrewrite_success success).1, ?_⟩
    intro earlier past key startTs earlierPrefix isPrefix holds
    exact not_holdsLock_of_decided noneAccepted isPrefix ⟨earlier, earlierPrefix, holds⟩

/-- A prewrite that arrives after its rollback is let through. -/
theorem decided_reopened : ∃ requests, ¬ StaysDecided requests := by
  refine ⟨[.batchRollback { startVersion := 1, keys := [[1]] }, putOne [1] [7] 1], ?_⟩
  rintro ⟨fails, _⟩
  refine fails [.batchRollback { startVersion := 1, keys := [[1]] }] _ prefix_rfl ?_
    (by decide +kernel)
  exact ⟨_, mem_singleton_self _, _, prefix_rfl, 1, rollbackWrite 1, by decide +kernel, rfl⟩

end AegisDB.Server
