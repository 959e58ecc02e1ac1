import AegisDB.Server.Outcomes

/-! # Records that are read back

A lock has no field for the length of its primary key, which is what is left of the
value in front of the last 17 bytes. The decoder asks for more than 17 bytes, and a
prewrite does not ask for a primary key. -/

namespace AegisDB.Server

open Foundation Storage Mvcc

def StoresLock (store : FlatStore) (req : PrewriteRequest) (lock : Lock) : Prop :=
  ∃ batch response key, (kvPrewrite req).run store = .ok (.write batch response) ∧
    .put key lock.toBytes .lock ∈ batch

variable {req : PrewriteRequest} {lock : Lock}

theorem lock_of_mem_prewriteModifies {mutation : Mutation} {key : Bytes}
    (member : .put key lock.toBytes .lock ∈ prewriteModifies req mutation) :
    ∃ kind, lockKind mutation.op = some kind ∧ lock = req.lock kind := by
  rw [prewriteModifies] at member
  split at member
  · rename_i kind isKind
    refine ⟨kind, isKind, ?_⟩
    rcases List.mem_cons.mp member with isValue | isLock
    · have cf := congrArg Modify.cf isValue
      rw [stageValue] at cf
      split at cf <;> cases cf
    · rcases Modify.put.inj (List.mem_singleton.mp isLock) with ⟨_, value, _⟩
      exact Lock.toBytes_injective value
  · cases member

theorem StoresLock.eq_lock {store : FlatStore} (stores : StoresLock store req lock) :
    ∃ mutation ∈ req.mutations, ∃ kind, lockKind mutation.op = some kind ∧
      lock = req.lock kind := by
  rcases stores with ⟨batch, response, key, ran, member⟩
  rw [(kvPrewrite_write ran).2.1] at member
  rcases List.mem_flatMap.mp member with ⟨mutation, mutated, inModifies⟩
  exact ⟨mutation, mutated, lock_of_mem_prewriteModifies inModifies⟩

/-- A lock that a prewrite stores is read back exactly if it names a primary key; write
records are read back, and what is accepted as a record is what that record is written as. -/
theorem records_survive_iff {store : FlatStore} {req : PrewriteRequest} {lock : Lock}
    (stores : StoresLock store req lock) (write : Write) (input : Bytes) :
    (Lock.parse lock.toBytes = .ok lock ↔ req.primaryLock ≠ []) ∧
      Write.parse write.toBytes = .ok (some write) ∧
      (∀ accepted, Lock.parse input = .ok accepted → accepted.toBytes = input) ∧
      ∀ accepted, Write.parse input = .ok (some accepted) → accepted.toBytes = input := by
  refine ⟨?_, Write.parse_toBytes write, fun _ => Lock.toBytes_of_parse,
    fun _ => Write.toBytes_of_parse⟩
  rcases stores.eq_lock with ⟨_, _, kind, _, rfl⟩
  exact Lock.parse_toBytes_iff

def putUnder (primaryLock : Bytes) : PrewriteRequest where
  mutations := [{ op := .put, key := [1], value := [7] }]
  primaryLock := primaryLock
  startVersion := 1
  lockTtl := 10

theorem storesLock_putUnder (primaryLock : Bytes) :
    StoresLock (after []) (putUnder primaryLock) ((putUnder primaryLock).lock .put) :=
  ⟨_, _, [1], rfl, List.mem_cons_of_mem _ (List.mem_singleton_self _)⟩

theorem records_survive_named :
    StoresLock (after []) (putUnder [1]) ((putUnder [1]).lock .put) ∧
      Lock.parse ((putUnder [1]).lock .put).toBytes = .ok ((putUnder [1]).lock .put) :=
  ⟨storesLock_putUnder [1],
    (records_survive_iff (storesLock_putUnder [1]) ⟨1, .put⟩ []).1.mpr (by decide)⟩

/-- A prewrite without a primary key is accepted, and its lock cannot be read. -/
theorem unnamed_lock_unreadable :
    ∃ store req lock, StoresLock store req lock ∧ Lock.parse lock.toBytes ≠ .ok lock := by
  refine ⟨_, _, _, storesLock_putUnder [], ?_⟩
  intro parsed
  exact Lock.parse_toBytes_iff.mp parsed rfl

end AegisDB.Server
