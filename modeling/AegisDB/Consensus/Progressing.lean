import AegisDB.Consensus.Appends
import AegisDB.Foundation.Transition

/-! # The progress of a peer

What the responses of a peer do to the progress that a leader keeps for it. Both updates
of `raft/progress.rs` overwrite what the leader knew, so that the progress only goes
forward along responses that are in order. -/

namespace AegisDB.Consensus

open Foundation

namespace Progress

def noted (progress : Progress) (m : Message) : Progress :=
  if m.reject then progress.decreaseNext m.index else progress.updateMatch m.index

def Advances (before after : Progress) : Prop :=
  before.matchIndex ≤ after.matchIndex ∧ after.matchIndex < after.nextIndex

def InOrder (progress : Progress) (m : Message) : Prop :=
  if m.reject = false ∨ 1 < progress.nextIndex ∧ wrap (m.index + 1) < progress.nextIndex then
    progress.matchIndex ≤ m.index ∧ m.index + 1 < wordSize
  else if progress.nextIndex = 0 then
    progress.matchIndex + 1 < wordSize
  else
    progress.matchIndex + 1 < progress.nextIndex

instance decidableInOrder (progress : Progress) (m : Message) : Decidable (progress.InOrder m) := by
  unfold InOrder
  infer_instance

theorem nextIndex_decreaseNext (progress : Progress) (index : Nat) :
    (progress.decreaseNext index).nextIndex =
      if 1 < progress.nextIndex ∧ wrap (index + 1) < progress.nextIndex then wrap (index + 1)
      else wrappingSub progress.nextIndex 1 := by
  rw [decreaseNext]
  split <;> rfl

theorem nextIndex_noted_lt (progress : Progress) (m : Message) :
    (progress.noted m).nextIndex < wordSize := by
  have positive : 0 < wordSize := by decide
  rw [noted]
  split
  · rw [nextIndex_decreaseNext]
    split
    · exact Nat.mod_lt _ positive
    · exact Nat.mod_lt _ positive
  · exact Nat.mod_lt _ positive

theorem lt_wrap_succ_iff {low index : Nat} (small : index < wordSize) :
    low < wrap (index + 1) ↔ low ≤ index ∧ index + 1 < wordSize := by
  by_cases fits : index + 1 < wordSize
  · rw [wrap_of_lt fits]
    omega
  · have atEnd : index + 1 = wordSize := by omega
    rw [atEnd, wrap, Nat.mod_self]
    omega

theorem lt_wrappingSub_one_iff {low number : Nat} (small : number < wordSize) :
    low < wrappingSub number 1 ↔
      if number = 0 then low + 1 < wordSize else low + 1 < number := by
  split_ifs with isZero
  · have last : wrappingSub 0 1 = wordSize - 1 := by decide
    rw [isZero, last]
    omega
  · rw [wrappingSub_of_le (by omega) small]
    omega

theorem advances_noted_iff {progress : Progress} {m : Message}
    (small : progress.nextIndex < wordSize) (inRange : m.index < wordSize) :
    progress.Advances (progress.noted m) ↔ progress.InOrder m := by
  rw [Advances, InOrder, noted]
  cases m.reject with
  | false =>
    simp only [Bool.false_eq_true, if_false, true_or, if_true, updateMatch]
    rw [lt_wrap_succ_iff inRange]
    omega
  | true =>
    simp only [if_true, matchIndex_decreaseNext, le_refl, true_and, Bool.true_eq_false,
      false_or, nextIndex_decreaseNext]
    by_cases takenOver : 1 < progress.nextIndex ∧ wrap (m.index + 1) < progress.nextIndex
    · rw [if_pos takenOver, if_pos takenOver, lt_wrap_succ_iff inRange]
    · rw [if_neg takenOver, if_neg takenOver, lt_wrappingSub_one_iff small]

end Progress

namespace Raft

/-! ## Responses of the current term -/

def receive (raft : Raft) (input : Nat × Message) : Raft := (raft.step input.1 input.2).raft

/-- The leader of a term, with the progress it keeps for a peer. -/
structure Tracks (raft : Raft) (peer term : Nat) (progress : Progress) : Prop where
  leads : raft.state = .leader
  term : raft.term = term
  known : raft.prs.get? peer = some progress
  small : progress.nextIndex < wordSize

/-- An append response of a peer to the leader of a term. -/
structure Responds (peer term : Nat) (m : Message) : Prop where
  isResponse : m.msgType = .msgAppendResponse
  fromPeer : m.fromId = peer
  term : m.term = term
  inRange : m.index < wordSize

section Tracking

variable {peer term : Nat} {raft : Raft} {progress : Progress}

theorem Tracks.receive {input : Nat × Message} (tracks : raft.Tracks peer term progress)
    (responds : Responds peer term input.2) :
    (raft.receive input).Tracks peer term (progress.noted input.2) := by
  have current : input.2.term = raft.term := responds.term.trans tracks.term.symm
  have handled : raft.step input.1 input.2 = raft.handleAppendResponse input.2 := by
    rw [step_of_leader input.1 tracks.leads current.le, stepLeader, responds.isResponse]
  have found : raft.prs.get? input.2.fromId = some progress := by
    rw [responds.fromPeer, tracks.known]
  have shown : ∀ {β : Type} (view : Raft → β), Blind view → view (raft.receive input) =
      view { raft with prs := raft.prs.insert input.2.fromId (progress.noted input.2) } := by
    intro β view blind
    rw [Raft.receive, handled, view_handleAppendResponse blind,
      if_neg (not_lt.mpr current.ge), noteResponse, found]
    rfl
  constructor
  · rw [shown Raft.state ⟨fun _ _ => rfl, fun _ _ => rfl⟩, tracks.leads]
  · rw [shown Raft.term ⟨fun _ _ => rfl, fun _ _ => rfl⟩, tracks.term]
  · rw [shown Raft.prs ⟨fun _ _ => rfl, fun _ _ => rfl⟩, responds.fromPeer]
    exact OrderedMap.get?_insert_same _ _ _
  · exact progress.nextIndex_noted_lt input.2

def AdvancesBy (peer : Nat) (raft : Raft) (input : Nat × Message) : Prop :=
  ∃ before after, raft.prs.get? peer = some before ∧
    (raft.receive input).prs.get? peer = some after ∧ before.Advances after

def HearsInOrder (peer : Nat) (raft : Raft) (input : Nat × Message) : Prop :=
  ∀ progress ∈ raft.prs.get? peer, progress.InOrder input.2

instance decidableHearsInOrder (peer : Nat) (raft : Raft) (input : Nat × Message) :
    Decidable (raft.HearsInOrder peer input) := by
  unfold HearsInOrder
  infer_instance

theorem Tracks.advancesBy_iff {input : Nat × Message} (tracks : raft.Tracks peer term progress)
    (responds : Responds peer term input.2) :
    raft.AdvancesBy peer input ↔ raft.HearsInOrder peer input := by
  have after := tracks.receive responds
  have advances := progress.advances_noted_iff tracks.small responds.inRange
  simp only [AdvancesBy, HearsInOrder, tracks.known, after.known, Option.some.injEq,
    Option.mem_def, exists_and_left, exists_eq_left', forall_eq', advances]

/-- Along the responses of a peer, its progress goes forward exactly as long as each
response is in order with what the leader knows when it comes. -/
theorem progress_advances_iff (tracks : raft.Tracks peer term progress)
    {inputs : List (Nat × Message)} (responses : ∀ input ∈ inputs, Responds peer term input.2) :
    (∀ past input, past ++ [input] <+: inputs →
        (past.foldl Raft.receive raft).AdvancesBy peer input) ↔
      Guarded Raft.receive (HearsInOrder peer) raft inputs := by
  -- The invariant is that the leader still tracks the peer, at whatever progress.
  apply forall_steps_iff_guarded_of_invariant
    (fun state => ∃ progress, state.Tracks peer term progress) ⟨progress, tracks⟩
  · intro state input member ⟨earlier, tracks⟩
    exact ⟨_, tracks.receive (responses input member)⟩
  · intro state input member ⟨earlier, tracks⟩
    exact tracks.advancesBy_iff (responses input member)

end Tracking

def responseOf (reject : Bool) (index : Nat) : Nat × Message :=
  (0, { msgType := .msgAppendResponse, fromId := 1, toId := 2, term := 2, reject, index })

theorem responds_responseOf (reject : Bool) {index : Nat} (inRange : index < wordSize) :
    Responds 1 2 (responseOf reject index).2 :=
  ⟨rfl, rfl, rfl, inRange⟩

def leaderOfTwo (nextIndex : Nat) : Raft :=
  leaderWith nextIndex 0 [Entry.newNormal 1 1 [], Entry.newNormal 2 2 []]

theorem tracks_leaderOfTwo {nextIndex : Nat} (small : nextIndex < wordSize) :
    (leaderOfTwo nextIndex).Tracks 1 2 (Progress.new nextIndex) :=
  ⟨rfl, rfl, OrderedMap.get?_insert_same _ _ _, small⟩

def orderedResponses : List (Nat × Message) :=
  [responseOf true 1, responseOf false 1, responseOf false 2, responseOf false 2]

theorem progress_advances_leaderOfTwo :
    (leaderOfTwo 3).Tracks 1 2 (Progress.new 3) ∧
      ∀ past input, past ++ [input] <+: orderedResponses →
        (past.foldl Raft.receive (leaderOfTwo 3)).AdvancesBy 1 input := by
  have tracks := tracks_leaderOfTwo (by decide : 3 < wordSize)
  have responses : ∀ input ∈ orderedResponses, Responds 1 2 input.2 := by
    intro input member
    simp only [orderedResponses, List.mem_cons, List.not_mem_nil, or_false] at member
    rcases member with rfl | rfl | rfl | rfl
    all_goals exact responds_responseOf _ (by decide)
  exact ⟨tracks, (progress_advances_iff tracks responses).mpr (by decide +kernel)⟩

/-- The peer has both entries; its delayed response to the first one takes the match back. -/
theorem delayed_response_lowers_match :
    (leaderOfTwo 1).Tracks 1 2 (Progress.new 1) ∧ (leaderOfTwo 1).raftLog.lastIndex = 2 ∧
      Responds 1 2 (responseOf false 2).2 ∧ Responds 1 2 (responseOf false 1).2 ∧
      ((leaderOfTwo 1).receive (responseOf false 2)).prs.get? 1 =
        some { matchIndex := 2, nextIndex := 3 } ∧
      (((leaderOfTwo 1).receive (responseOf false 2)).receive (responseOf false 1)).prs.get? 1 =
        some { matchIndex := 1, nextIndex := 2 } ∧
      ¬ ((leaderOfTwo 1).receive (responseOf false 2)).AdvancesBy 1 (responseOf false 1) := by
  have first : ((leaderOfTwo 1).receive (responseOf false 2)).prs.get? 1 =
      some { matchIndex := 2, nextIndex := 3 } := by decide +kernel
  have second : (((leaderOfTwo 1).receive (responseOf false 2)).receive
      (responseOf false 1)).prs.get? 1 = some { matchIndex := 1, nextIndex := 2 } := by
    decide +kernel
  refine ⟨tracks_leaderOfTwo (by decide), by decide, responds_responseOf _ (by decide),
    responds_responseOf _ (by decide), first, second, ?_⟩
  intro ⟨before, after, known, later, kept, _⟩
  rw [first, Option.some.injEq] at known
  rw [second, Option.some.injEq] at later
  subst known later
  exact absurd kept (by decide)

end Raft

end AegisDB.Consensus
