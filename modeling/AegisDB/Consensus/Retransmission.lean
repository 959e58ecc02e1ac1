import AegisDB.Consensus.Appends

/-! # Retransmitted append messages

An append message can arrive twice, or after the log has moved on. The log is cut at the
first entry of the message without looking at the entries, so this is harmless only
between narrow bounds. -/

namespace AegisDB.Consensus

open Foundation List

/-! ## Conflicts -/

def Matching (left right : List Entry) : Prop :=
  ∀ entry ∈ left, ∀ own ∈ right, own.index = entry.index → own.term = entry.term → own = entry

instance decidableMatching (left right : List Entry) : Decidable (Matching left right) := by
  unfold Matching
  infer_instance

namespace RaftLog

def Conflicts (log : RaftLog) (entry : Entry) : Prop :=
  ∃ own, log.entryAt entry.index = some own ∧ own.term ≠ entry.term

/-- The message lies behind all that is committed, and reaches the end of the log or corrects it. -/
structure Corrects (log : RaftLog) (before : Nat) (m : Message) : Prop where
  inside : before < m.index
  committed : log.committed ≤ m.index
  commit : m.commit ≤ m.index
  reaches : log.lastIndex ≤ m.index + m.entries.length ∨ ∃ entry ∈ m.entries, log.Conflicts entry

/-! ## Cutting the log inside -/

def splice (log : RaftLog) (before : Nat) (m : Message) : RaftLog :=
  { log with entries := log.entries.take (m.index - before) ++ m.entries }

/-- The entries of the message follow on an entry of the log. -/
structure Splices (log : RaftLog) (before : Nat) (m : Message) : Prop where
  sequential : log.Sequential before
  inside : before < m.index
  accepted : log.Accepts m
  notEmpty : m.entries ≠ []
  numbered : Numbered m.index m.entries
  fits : m.index + m.entries.length < wordSize

namespace Splices

variable {log : RaftLog} {before : Nat} {m : Message} (splices : log.Splices before m)

include splices

theorem noSnapshot : log.snapshotToApply = none :=
  splices.sequential.noSnapshot_of_le splices.inside splices.accepted.1

theorem append_iff {after : RaftLog} :
    log.append m.entries = .ok after ↔ log.committed ≤ m.index ∧ after = log.splice before m := by
  rcases splices with ⟨sequential, inside, _, notEmpty, numbered, _⟩
  have position := Nat.add_sub_cancel' inside.le
  rw [← position] at numbered
  rw [sequential.append_iff notEmpty numbered, if_neg (by omega), position]
  rfl

theorem length_take_splice :
    (log.entries.take (m.index - before)).length = m.index - before := by
  have within := splices.accepted.1
  rw [splices.sequential.lastIndex splices.noSnapshot] at within
  rw [length_take]
  omega

theorem splice : (log.splice before m).Sequential before where
  numbered := by
    apply (splices.sequential.numbered.of_isPrefix ( take_prefix _ _)).append
    rw [splices.length_take_splice, Nat.add_sub_cancel' splices.inside.le]
    exact splices.numbered
  restored := splices.sequential.restored
  atStart := fun _ isEmpty => absurd (append_eq_nil_iff.mp isEmpty).2 splices.notEmpty
  small := by
    have inside := splices.inside
    have fits := splices.fits
    rw [RaftLog.splice, length_append, splices.length_take_splice]
    omega

theorem entryAt {index : Nat} (above : before < index) :
    (log.splice before m).entryAt index =
      if index ≤ m.index then log.entryAt index else m.entries[index - (m.index + 1)]? := by
  have inside := splices.inside
  have length := splices.length_take_splice
  rw [splices.splice.entryAt above, splices.sequential.entryAt above, RaftLog.splice]
  split
  · rw [getElem?_append_left (by omega), getElem?_take, if_pos (by omega)]
  · rw [getElem?_append_right (by omega), length]
    congr 1
    omega

theorem lastIndex : (log.splice before m).lastIndex = m.index + m.entries.length := by
  have inside := splices.inside
  rw [splices.splice.lastIndex splices.noSnapshot, RaftLog.splice, length_append,
    splices.length_take_splice]
  omega

theorem accepts : (log.splice before m).Accepts m := by
  constructor
  · rw [splices.lastIndex]
    omega
  · intro positive
    rw [splices.splice.termSync splices.noSnapshot positive, splices.entryAt splices.inside,
      if_pos le_rfl, ← splices.sequential.termSync splices.noSnapshot positive,
      splices.accepted.2 positive]

theorem conflict_of_removed (corrects : log.Corrects before m)
    (agrees : Matching m.entries log.entries) {index : Nat} {own : Entry}
    (found : log.entryAt index = some own) (gone : (log.splice before m).entryAt index ≠ some own) :
    ∃ other ∈ m.entries, other.index ≤ index ∧ log.Conflicts other := by
  have sequential := splices.sequential
  have numbered := splices.numbered
  have above := sequential.lt_of_entryAt found
  rw [splices.entryAt above] at gone
  by_cases below : index ≤ m.index
  · rw [if_pos below] at gone
    exact absurd found gone
  rw [if_neg below] at gone
  cases offered : m.entries[index - (m.index + 1)]? with
  | some entry =>
    -- The message has an entry here: had it the same term, it would be the same.
    have isIndex : entry.index = index := by
      have := numbered _ _ offered
      omega
    have member := mem_of_getElem? offered
    refine ⟨entry, member, isIndex.le, own, by rw [isIndex, found], ?_⟩
    intro sameTerm
    rcases sequential.entryAt_eq_some_iff.mp found with ⟨ownMember, ownIndex⟩
    have equal := agrees entry member own ownMember (ownIndex.trans isIndex.symm) sameTerm
    exact gone (by rw [offered, equal])
  | none =>
    -- The log reaches beyond the message, which then corrects it.
    have beyond := List.getElem?_eq_none_iff.mp offered
    have last := sequential.lastIndex splices.noSnapshot
    rw [sequential.entryAt above] at found
    have position := (List.getElem?_eq_some_iff.mp found).1
    rcases corrects.reaches with reaches | ⟨entry, member, conflict⟩
    · omega
    · rcases mem_iff_getElem?.mp member with ⟨offset, atOffset⟩
      have isIndex := numbered _ _ atOffset
      have := (List.getElem?_eq_some_iff.mp atOffset).1
      exact ⟨entry, member, by omega, conflict⟩

theorem splice_follow_splice (commit : Nat) :
    ((log.splice before m).follow commit).splice before m =
      (log.splice before m).follow commit := by
  have length := splices.length_take_splice
  have again : (log.entries.take (m.index - before) ++ m.entries).take (m.index - before) =
      log.entries.take (m.index - before) := by
    rw [take_append_of_le_length length.ge, take_take, Nat.min_self]
  rw [follow_eq, RaftLog.splice, RaftLog.splice]
  dsimp only
  rw [again]

theorem again (commit : Nat) : ((log.splice before m).follow commit).Splices before m :=
  { splices with
    sequential := splices.splice.follow
    accepted := accepts_follow.mpr splices.accepts }

end Splices

/-! ## Before the log -/

section AtStart

variable {log : RaftLog} {before : Nat} {m : Message}

theorem Sequential.atStart_or_inside (sequential : log.Sequential before)
    (accepted : log.Accepts m) (room : m.index + 1 < wordSize) :
    m.index = 0 ∨ before < m.index := by
  by_contra outside
  have found := accepted.2 (by omega)
  rw [sequential.termSync_of_le (by omega) (by omega), if_neg (by omega)] at found
  cases found

theorem firstIndex_append_entries (notEmpty : log.entries ≠ []) (entries : List Entry)
    (committed : Nat) :
    { log with entries := log.entries ++ entries, committed }.firstIndex = log.firstIndex := by
  rcases exists_cons_of_ne_nil notEmpty with ⟨entry, rest, isCons⟩
  simp only [firstIndex, isCons]
  rfl

theorem Sequential.length_append_again (sequential : log.Sequential before)
    {entries : List Entry} (notEmpty : entries ≠ []) (numbered : Numbered 0 entries)
    {once twice : RaftLog} (first : log.append entries = .ok once) {committed : Nat}
    (second : { once with committed }.append entries = .ok twice) :
    once.entries.length < twice.entries.length := by
  have positive := length_pos_of_ne_nil notEmpty
  have taken := ((append_eq_ok_iff notEmpty numbered).mp first).2
  rw [((append_eq_ok_iff notEmpty numbered).mp second).2]
  dsimp only
  rw [length_append]
  by_cases isEmpty : log.entries = []
  · have alone : once.entries = entries := by simp [taken, isEmpty]
    rw [alone]
    split
    · rw [length_take]
      omega
    · omega
  · have start := sequential.firstIndex_of_ne_nil isEmpty
    rw [start, if_neg (by omega)] at taken
    rw [taken, firstIndex_append_entries isEmpty, start, if_neg (by omega)]
    omega

end AtStart

end RaftLog

section Inside

variable {m : Message} {log after : RaftLog} {result : Fallible Unit}
  {answer : Option (Bool × Nat)} {before : Nat}

theorem Appended.inside (ending : Appended m log after result answer)
    (splices : log.Splices before m) :
    m.index < log.committed ∧ ¬ result.NoPanic ∨
      log.committed ≤ m.index ∧ after = (log.splice before m).follow m.commit ∧
        result = .ok () := by
  rcases ending.of_accepts splices.accepted with
    ⟨fault, failed, isFault⟩ | ⟨middle, appended, follows, ok, _⟩
  · rcases RaftLog.append_eq_error failed with ⟨message, rfl⟩
    refine .inl ⟨?_, fun noPanic => noPanic message isFault⟩
    by_contra within
    rw [splices.append_iff.mpr ⟨not_lt.mp within, rfl⟩] at failed
    cases failed
  · rcases splices.append_iff.mp appended with ⟨committed, rfl⟩
    exact .inr ⟨committed, follows, ok⟩

theorem Appended.inside_again
    (ending : Appended m ((log.splice before m).follow m.commit) after result answer)
    (splices : log.Splices before m) :
    m.index < ((log.splice before m).follow m.commit).committed ∧ ¬ result.NoPanic ∨
      ((log.splice before m).follow m.commit).committed ≤ m.index ∧
        after = (log.splice before m).follow m.commit ∧ result = .ok () := by
  rcases ending.inside (splices.again m.commit) with panics | ⟨committed, follows, ok⟩
  · exact .inl panics
  · rw [splices.splice_follow_splice, RaftLog.follow_follow] at follows
    exact .inr ⟨committed, follows, ok⟩

end Inside

/-! ## Once and again -/

/-- The message can be handled once and again: nothing panics, what is committed stays, and an
entry goes only for a conflict. -/
structure Harmless (m : Message) (log : RaftLog) (once twice : Outcome) : Prop where
  noPanic : once.result.NoPanic
  noPanicAgain : twice.result.NoPanic
  committed : ∀ index entry, index ≤ log.committed → log.entryAt index = some entry →
    once.raft.raftLog.entryAt index = some entry
  removed : ∀ index entry, log.entryAt index = some entry →
    once.raft.raftLog.entryAt index ≠ some entry →
      ∃ other ∈ m.entries, other.index ≤ index ∧ log.Conflicts other
  unchanged : twice.raft.raftLog = once.raft.raftLog

namespace Harmless

variable {m : Message} {log : RaftLog} {once twice : Outcome} {before : Nat}

theorem of_entryAt (noPanic : once.result.NoPanic) (noPanicAgain : twice.result.NoPanic)
    (same : ∀ index, once.raft.raftLog.entryAt index = log.entryAt index)
    (unchanged : twice.raft.raftLog = once.raft.raftLog) : Harmless m log once twice where
  noPanic := noPanic
  noPanicAgain := noPanicAgain
  committed := fun index _ _ found => (same index).trans found
  removed := fun index _ found gone => absurd ((same index).trans found) gone
  unchanged := unchanged

variable {answer answerAgain : Option (Bool × Nat)}
  (first : Appended m log once.raft.raftLog once.result answer)
  (second : Appended m once.raft.raftLog twice.raft.raftLog twice.result answerAgain)

include first second

theorem of_rejected (rejected : ¬ log.Accepts m) : Harmless m log once twice := by
  rcases first.of_not_accepts rejected with ⟨same, noPanic⟩
  rw [← same] at rejected
  rcases second.of_not_accepts rejected with ⟨still, noPanicAgain⟩
  exact of_entryAt noPanic noPanicAgain (fun _ => by rw [same]) still

theorem of_nil (accepted : log.Accepts m) (isEmpty : m.entries = []) :
    Harmless m log once twice := by
  have nothing (log : RaftLog) : log.append m.entries = .ok log := by
    rw [isEmpty]
    rfl
  have followed {log after : RaftLog} {result : Fallible Unit} {answer : Option (Bool × Nat)}
      (ending : Appended m log after result answer) (accepted : log.Accepts m) :
      after = log.follow m.commit ∧ result.NoPanic := by
    rcases ending.of_accepts accepted with ⟨fault, failed, _⟩ | ⟨middle, appended, follows, ok, _⟩
    · rw [nothing] at failed
      cases failed
    · rw [nothing] at appended
      rw [follows, ← Except.ok.inj appended, ok]
      exact ⟨rfl, Fallible.noPanic_ok ()⟩
  rcases followed first accepted with ⟨follows, noPanic⟩
  rw [← RaftLog.accepts_follow, ← follows] at accepted
  rcases followed second accepted with ⟨followsAgain, noPanicAgain⟩
  apply of_entryAt noPanic noPanicAgain
  · intro index
    rw [follows, RaftLog.entryAt_follow]
  · rw [followsAgain, follows, RaftLog.follow_follow]

theorem of_corrects (splices : log.Splices before m) (corrects : log.Corrects before m)
    (agrees : Matching m.entries log.entries) : Harmless m log once twice := by
  rcases first.inside splices with ⟨behind, _⟩ | ⟨_, spliced, ok⟩
  · exact absurd corrects.committed (not_le.mpr behind)
  rw [spliced] at second
  rcases second.inside_again splices with ⟨behind, _⟩ | ⟨_, same, okAgain⟩
  · have within : (log.splice before m).committed ≤ m.index := corrects.committed
    exact absurd (RaftLog.committed_follow_le within corrects.commit) (not_le.mpr behind)
  refine ⟨by simp [ok], by simp [okAgain], ?_, ?_, same.trans spliced.symm⟩
  · intro index entry below found
    have above := splices.sequential.lt_of_entryAt found
    rw [spliced, RaftLog.entryAt_follow, splices.entryAt above,
      if_pos (below.trans corrects.committed), found]
  · intro index own found gone
    rw [spliced, RaftLog.entryAt_follow] at gone
    exact splices.conflict_of_removed corrects agrees found gone

section Inside

variable (sequential : log.Sequential before) (accepted : log.Accepts m)
  (notEmpty : m.entries ≠ []) (numbered : Numbered m.index m.entries)

include sequential accepted notEmpty numbered

theorem index_pos (harmless : Harmless m log once twice) : 0 < m.index := by
  by_contra atStart
  have isZero : m.index = 0 := Nat.eq_zero_of_not_pos atStart
  have acceptsAny (log : RaftLog) : log.Accepts m :=
    ⟨isZero ▸ Nat.zero_le _, fun positive => absurd positive atStart⟩
  rw [isZero] at numbered
  rcases first.of_accepts accepted with ⟨fault, failed, isFault⟩ | ⟨middle, appended, follows, _⟩
  · rcases RaftLog.append_eq_error failed with ⟨message, rfl⟩
    exact harmless.noPanic message isFault
  rcases second.of_accepts (acceptsAny _) with
    ⟨fault, failed, isFault⟩ | ⟨again, appendedAgain, followsAgain, _⟩
  · rcases RaftLog.append_eq_error failed with ⟨message, rfl⟩
    exact harmless.noPanicAgain message isFault
  rw [follows, RaftLog.follow_eq] at appendedAgain
  have longer := sequential.length_append_again notEmpty numbered appended appendedAgain
  have same := congrArg RaftLog.entries harmless.unchanged
  rw [followsAgain, follows, RaftLog.entries_follow, RaftLog.entries_follow] at same
  rw [same] at longer
  exact lt_irrefl _ longer

theorem corrects (fits : m.index + m.entries.length < wordSize)
    (harmless : Harmless m log once twice) : log.Corrects before m := by
  have positive := length_pos_of_ne_nil notEmpty
  have notAtStart := index_pos first second sequential accepted notEmpty numbered harmless
  rcases sequential.atStart_or_inside accepted (by omega) with atStart | inside
  · omega
  have splices : log.Splices before m := ⟨sequential, inside, accepted, notEmpty, numbered, fits⟩
  rcases first.inside splices with ⟨_, panics⟩ | ⟨committed, spliced, _⟩
  · exact absurd harmless.noPanic panics
  refine ⟨inside, committed, ?_, ?_⟩
  · by_contra beyond
    rw [spliced] at second
    rcases second.inside_again splices with ⟨_, panics⟩ | ⟨within, _⟩
    · exact panics harmless.noPanicAgain
    · have ahead : m.commit > (log.splice before m).committed :=
        committed.trans_lt (not_le.mp beyond)
      rw [RaftLog.follow, if_pos ahead, splices.lastIndex] at within
      dsimp only at within
      omega
  · by_contra neither
    rw [not_or] at neither
    have last := sequential.lastIndex splices.noSnapshot
    have above : before < log.lastIndex := inside.trans_le accepted.1
    have shows := splices.entryAt above
    have notAlone : log.entries ≠ [] := ne_nil_of_length_pos (by omega)
    have found := sequential.entryAt_lastIndex splices.noSnapshot
    rw [getLast?_eq_some_getLast notAlone] at found
    have gone : once.raft.raftLog.entryAt log.lastIndex ≠ some (log.entries.getLast notAlone) := by
      rw [spliced, RaftLog.entryAt_follow, shows, if_neg (by omega),
        List.getElem?_eq_none (by omega)]
      simp
    rcases harmless.removed _ _ found gone with ⟨entry, member, _, conflict⟩
    exact neither.2 ⟨entry, member, conflict⟩

end Inside

end Harmless

theorem Raft.follows_step_append {raft : Raft} {m : Message} (draw : Nat)
    (offered : m.msgType = .msgAppend) (hears : raft.Hears m) :
    (raft.step draw m).raft.state = .follower ∧ (raft.step draw m).raft.term = m.term := by
  rcases step_append draw offered hears with ⟨other, _, _, _, follows, notOlder, handled⟩
  have blind : Blind fun raft : Raft => (raft.state, raft.term) :=
    ⟨fun _ _ => rfl, fun _ _ => rfl⟩
  have view := view_handleAppendEntries blind other m
  rw [if_neg (not_lt.mpr notOlder), ← handled] at view
  exact ⟨(Prod.mk.inj view).1.trans follows, (Prod.mk.inj view).2⟩

/-- Handling an append message of the current term once and again is harmless exactly if
the log does not take it, it has no entries, or it corrects the log. -/
theorem harmless_iff {raft : Raft} {m : Message} {before : Nat} (draw again : Nat)
    (follows : raft.state = .follower) (offered : m.msgType = .msgAppend)
    (current : m.term = raft.term) (sequential : raft.raftLog.Sequential before)
    (numbered : Numbered m.index m.entries) (fits : m.index + m.entries.length < wordSize)
    (agrees : Matching m.entries raft.raftLog.entries) :
    Harmless m raft.raftLog (raft.step draw m) ((raft.step draw m).raft.step again m) ↔
      ¬ raft.raftLog.Accepts m ∨ m.entries = [] ∨ raft.raftLog.Corrects before m := by
  have hears : raft.Hears m := .inr (.inr ⟨follows, current.ge⟩)
  rcases raft.follows_step_append draw offered hears with ⟨followsStill, sameTerm⟩
  have hearsAgain : (raft.step draw m).raft.Hears m := .inr (.inr ⟨followsStill, sameTerm.le⟩)
  rcases Raft.step_endsAppend draw offered hears with ⟨_, first, _⟩
  rcases Raft.step_endsAppend again offered hearsAgain with ⟨_, second, _⟩
  by_cases accepted : raft.raftLog.Accepts m
  · by_cases isEmpty : m.entries = []
    · exact iff_of_true (.of_nil first second accepted isEmpty) (.inr (.inl isEmpty))
    · rw [or_iff_right (not_not.mpr accepted), or_iff_right isEmpty]
      constructor
      · exact Harmless.corrects first second sequential accepted isEmpty numbered fits
      · intro corrects
        exact .of_corrects first second
          ⟨sequential, corrects.inside, accepted, isEmpty, numbered, fits⟩ corrects agrees
  · exact iff_of_true (.of_rejected first second accepted) (.inl accepted)

def leaderEntries (count : Nat) : List Entry :=
  (List.range' 1 count).map fun index => Entry.newNormal 2 index []

theorem harmless_of_next_entry :
    Harmless (appendOf 2 1 [Entry.newNormal 2 2 []] 0) (followerWith 0 (leaderEntries 1)).raftLog
      ((followerWith 0 (leaderEntries 1)).step 0 (appendOf 2 1 [Entry.newNormal 2 2 []] 0))
      (((followerWith 0 (leaderEntries 1)).step 0
        (appendOf 2 1 [Entry.newNormal 2 2 []] 0)).raft.step 0
          (appendOf 2 1 [Entry.newNormal 2 2 []] 0)) := by
  have sequential : (followerWith 0 (leaderEntries 1)).raftLog.Sequential 0 :=
    RaftLog.Consecutive.sequential (by decide)
  refine (harmless_iff 0 0 rfl rfl rfl sequential (by decide) (by decide) (by decide)).mpr
    (.inr (.inr ⟨by decide, by decide, by decide, .inl (by decide)⟩))

structure Delivered (leader follower : Raft) (m : Message) : Prop where
  leads : leader.state = .leader
  follows : follower.state = .follower
  sameTerm : leader.term = follower.term
  sent : (leader.sendAppend follower.id).raft.msgs = leader.msgs ++ [m]
  consecutive : ∃ before, follower.raftLog.Consecutive before
  committed : follower.raftLog.committed ≤ follower.raftLog.lastIndex
  numbered : Numbered m.index m.entries
  agrees : Matching leader.raftLog.entries follower.raftLog.entries

/-- The first entry again, once it is committed, panics. An earlier message with the
second entry takes away the third, which does not conflict with it. -/
theorem late_append_harms :
    (∃ leader follower m draw, Delivered leader follower m ∧
      ¬ (follower.step draw m).result.NoPanic) ∧
    ∃ leader follower m draw, Delivered leader follower m ∧
      ∃ index entry, follower.raftLog.entryAt index = some entry ∧
        (follower.step draw m).raft.raftLog.entryAt index ≠ some entry ∧
        ∀ other ∈ m.entries, ¬ follower.raftLog.Conflicts other := by
  refine ⟨⟨leaderWith 1 0 (leaderEntries 1), followerWith 1 (leaderEntries 1),
      appendOf 0 0 (leaderEntries 1) 0, 0, ?_, ?_⟩,
    leaderWith 2 0 (leaderEntries 2), followerWith 0 (leaderEntries 3),
      appendOf 2 1 [Entry.newNormal 2 2 []] 0, 0, ?_, 3, Entry.newNormal 2 3 [], by decide,
      by decide, ?_⟩
  · exact ⟨rfl, rfl, rfl, by decide +kernel, ⟨0, by decide⟩, by decide, by decide, by decide⟩
  · intro noPanic
    exact noPanic _ rfl
  · exact ⟨rfl, rfl, rfl, by decide +kernel, ⟨0, by decide⟩, by decide, by decide, by decide⟩
  · intro other member ⟨own, found, differs⟩
    rcases mem_singleton.mp member with rfl
    exact differs (congrArg Entry.term (Option.some.inj found).symm)

end AegisDB.Consensus
