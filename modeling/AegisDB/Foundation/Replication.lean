import AegisDB.Foundation.Election
import Mathlib.Data.List.Infix
import Mathlib.Data.List.TakeDrop
import Mathlib.Tactic.Common

/-! # Replicated logs

Leaders extend a log and copy it to the other nodes. An entry is committed once a
majority has acknowledged it to the leader that made it, and a node is only elected if
a majority found its log up to date. The log of each leader, the logs with which nodes
voted, the acknowledgements and the announced commit counts are remembered. -/

namespace Foundation

open Function

structure Replication (ν ε : Type) where
  term : ν → Nat
  log : ν → List ε
  commit : ν → Nat
  leaderLog : Nat → List ε
  base : Nat → List ε
  ballot : ν → Nat → List ε → Prop
  acked : ν → Nat → Nat → Prop
  announced : Nat → Nat → Prop

namespace Replication

variable {ν ε : Type}

def start : Replication ν ε where
  term := fun _ => 0
  log := fun _ => []
  commit := fun _ => 0
  leaderLog := fun _ => []
  base := fun _ => []
  ballot := fun _ _ _ => False
  acked := fun _ _ _ => False
  announced := fun _ _ => False

/-! ## The protocol -/

section Protocol

variable (termOf : ε → Nat)

def lastTerm (log : List ε) : Nat := (log.getLast?.map termOf).getD 0

def UpToDate (left right : List ε) : Prop :=
  lastTerm termOf right < lastTerm termOf left ∨
    lastTerm termOf right = lastTerm termOf left ∧ right.length ≤ left.length

def Conflict (left right : List ε) : Prop :=
  ∃ (position : Nat) (first second : ε), left[position]? = some first ∧
    right[position]? = some second ∧ termOf first ≠ termOf second

def castBallot (state : Replication ν ε) (node : ν) : Replication ν ε :=
  { state with
    ballot := fun voter term log => state.ballot voter term log ∨
      voter = node ∧ term = state.term node ∧ log = state.log node }

def recordAck (state : Replication ν ε) (node : ν) (count : Nat) : Replication ν ε :=
  { state with
    acked := fun other term most => state.acked other term most ∨
      other = node ∧ term = state.term node ∧ most = count }

def recordAnnounced (state : Replication ν ε) (node : ν) : Replication ν ε :=
  { state with
    announced := fun term count => state.announced term count ∨
      term = state.term node ∧ count = state.commit node }

structure Elects (members : Finset ν) (state : Replication ν ε) (node : ν) (entry : ε)
    (quorum : Finset ν) : Prop where
  positive : 0 < state.term node
  vacant : state.leaderLog (state.term node) = []
  own : termOf entry = state.term node
  majority : Majority members quorum
  support : ∀ voter ∈ quorum, ∃ log, state.ballot voter (state.term node) log ∧
    UpToDate termOf (state.log node) log

/-- A node may replace what follows `before` if it holds `before` itself. -/
structure Accepts (state : Replication ν ε) (node : ν) (before entries : List ε) : Prop where
  offered : before ++ entries <+: state.leaderLog (state.term node)
  within : before.length ≤ (state.log node).length
  matched : ∀ last ∈ before.getLast?, ∃ entry ∈ (state.log node)[before.length - 1]?,
    termOf entry = termOf last
  kept : state.commit node ≤ before.length
  cut : before.length + entries.length < (state.log node).length →
    Conflict termOf (before ++ entries) (state.log node)

structure Chooses (members : Finset ν) (state : Replication ν ε) (node : ν) (count : Nat)
    (entry : ε) (quorum : Finset ν) : Prop where
  leads : state.leaderLog (state.term node) = state.log node
  positive : 0 < count
  found : (state.log node)[count - 1]? = some entry
  own : termOf entry = state.term node
  majority : Majority members quorum
  support : ∀ voter ∈ quorum, ∃ most, count ≤ most ∧ state.acked voter (state.term node) most

structure Learns (state : Replication ν ε) (node : ν) (count told : Nat) : Prop where
  announced : state.announced (state.term node) told
  bounded : count ≤ told
  within : count ≤ (state.log node).length
  held : (state.log node).take count <+: state.leaderLog (state.term node)

variable [DecidableEq ν]

def setLog (state : Replication ν ε) (node : ν) (log : List ε) : Replication ν ε :=
  { state with log := update state.log node log }

def setCommit (state : Replication ν ε) (node : ν) (count : Nat) : Replication ν ε :=
  { state with commit := update state.commit node count }

def leadWith (state : Replication ν ε) (node : ν) (log : List ε) : Replication ν ε :=
  { state.setLog node log with
    leaderLog := update state.leaderLog (state.term node) log }

inductive Step (members : Finset ν) (state : Replication ν ε) : Replication ν ε → Prop where
  | advance (node : ν) (term : Nat) (newer : state.term node ≤ term) :
      Step members state { state with term := update state.term node term }
  | vote (node : ν) : Step members state (state.castBallot node)
  | win (node : ν) (entry : ε) (quorum : Finset ν)
      (elects : state.Elects termOf members node entry quorum) :
      Step members state
        { state.leadWith node (state.log node ++ [entry]) with
          base := update state.base (state.term node) (state.log node) }
  | extend (node : ν) (entries : List ε)
      (leads : state.leaderLog (state.term node) = state.log node) (led : state.log node ≠ [])
      (own : ∀ entry ∈ entries, termOf entry = state.term node) :
      Step members state (state.leadWith node (state.log node ++ entries))
  | accept (node : ν) (before entries : List ε)
      (accepts : state.Accepts termOf node before entries) :
      Step members state (state.setLog node ((state.log node).take before.length ++ entries))
  | acknowledge (node : ν) (count : Nat) (within : count ≤ (state.log node).length)
      (held : (state.log node).take count <+: state.leaderLog (state.term node)) :
      Step members state (state.recordAck node count)
  | announce (node : ν) (leads : state.leaderLog (state.term node) = state.log node) :
      Step members state (state.recordAnnounced node)
  | choose (node : ν) (count : Nat) (entry : ε) (quorum : Finset ν)
      (chooses : state.Chooses termOf members node count entry quorum) :
      Step members state (state.setCommit node count)
  | learn (node : ν) (count told : Nat) (learns : state.Learns node count told) :
      Step members state (state.setCommit node count)

end Protocol

end Replication

end Foundation
