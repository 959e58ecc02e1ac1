import AegisDB.Mvcc.CodecOrder

/-! # Write and lock records

The values kept in the `write` and `lock` column families, from
`transaction/mvcc/write.rs` and `transaction/mvcc/lock.rs`. -/

namespace AegisDB.Mvcc

open Foundation List

inductive WriteKind where
  | put
  | delete
  | rollback
deriving DecidableEq, Repr

namespace WriteKind

def toByte : WriteKind → UInt8
  | .put => 1
  | .delete => 2
  | .rollback => 3

def ofByte (byte : UInt8) : Fallible WriteKind :=
  if byte = 1 then .ok .put
  else if byte = 2 then .ok .delete
  else if byte = 3 then .ok .rollback
  else .error (.panic ("invalid write kind: " ++ toString byte))

@[simp] theorem ofByte_toByte (kind : WriteKind) : ofByte kind.toByte = .ok kind := by
  cases kind <;> rfl

theorem toByte_of_ofByte {byte : UInt8} {kind : WriteKind} (named : ofByte byte = .ok kind) :
    kind.toByte = byte := by
  rw [ofByte] at named
  split at named
  · rename_i isPut
    rw [← Except.ok.inj named, isPut, toByte]
  · split at named
    · rename_i isDelete
      rw [← Except.ok.inj named, isDelete, toByte]
    · split at named
      · rename_i isRollback
        rw [← Except.ok.inj named, isRollback, toByte]
      · cases named

end WriteKind

structure Write where
  startTs : UInt64
  kind : WriteKind
deriving DecidableEq, Repr

namespace Write

def toBytes (write : Write) : Bytes :=
  write.kind.toByte :: u64ToBeBytes write.startTs

def parse (value : Bytes) : Fallible (Option Write) :=
  if value.isEmpty then
    .ok none
  else if value.length ≠ 9 then
    .error (.error ("mvcc/write/ParseWrite: value is incorrect length, expected 9, found " ++
      toString value.length))
  else do
    let kind ← WriteKind.ofByte (← elementAt value 0)
    let startTs := u64FromBeBytes (value.drop 1)
    return some { startTs, kind }

@[simp] theorem parse_toBytes (write : Write) : parse write.toBytes = .ok (some write) := by
  simp [parse, toBytes, elementAt, bind, Except.bind, pure, Except.pure]

theorem toBytes_injective {left right : Write} (equal : left.toBytes = right.toBytes) :
    left = right := by
  have parsed := parse_toBytes left
  rw [equal, parse_toBytes] at parsed
  exact (Option.some.inj (Except.ok.inj parsed)).symm

theorem toBytes_of_parse {value : Bytes} {write : Write} (parsed : parse value = .ok (some write)) :
    write.toBytes = value := by
  rw [parse] at parsed
  split at parsed
  · cases parsed
  · split at parsed
    · cases parsed
    · rename_i notEmpty nine
      cases value with
      | nil => exact absurd rfl notEmpty
      | cons byte rest =>
        have length : rest.length = 8 := by simpa using nine
        rcases Fallible.bind_eq_ok_iff.mp parsed with ⟨first, isFirst, parsed⟩
        rcases Fallible.bind_eq_ok_iff.mp parsed with ⟨kind, named, done⟩
        cases isFirst
        cases done
        rw [toBytes, WriteKind.toByte_of_ofByte named, drop_one, tail_cons,
          u64ToBeBytes_fromBeBytes length]

end Write

structure Lock where
  primary : Bytes
  ts : UInt64
  ttl : UInt64
  kind : WriteKind
deriving DecidableEq, Repr

namespace Lock

def toBytes (lock : Lock) : Bytes :=
  lock.primary ++ [lock.kind.toByte] ++ u64ToBeBytes lock.ts ++ u64ToBeBytes lock.ttl

def parse (input : Bytes) : Fallible Lock :=
  if input.length ≤ 17 then
    .error (.error ("mvcc: error parsing lock, not enough input, found " ++
      toString input.length ++ " bytes"))
  else do
    let primaryLen := input.length - 17
    let primary := input.take primaryLen
    let kind ← WriteKind.ofByte (← elementAt input primaryLen)
    let ts := u64FromBeBytes ((input.drop (primaryLen + 1)).take 8)
    let ttl := u64FromBeBytes ((input.drop (primaryLen + 9)).take 8)
    return { primary, ts, ttl, kind }

def isLockedFor (lock : Lock) (_key : Bytes) (txnStartTs : UInt64) : Bool :=
  decide (lock.ts ≤ txnStartTs)

theorem toBytes_length (lock : Lock) : lock.toBytes.length = lock.primary.length + 17 := by
  simp [toBytes]

theorem parse_toBytes (lock : Lock) (named : lock.primary ≠ []) :
    parse lock.toBytes = .ok lock := by
  have long : ¬ lock.toBytes.length ≤ 17 := by
    have := length_pos_of_ne_nil named
    rw [toBytes_length]
    omega
  have primaryLen : lock.toBytes.length - 17 = lock.primary.length := by
    rw [toBytes_length]
    omega
  have layout : lock.toBytes = lock.primary ++
      (lock.kind.toByte :: (u64ToBeBytes lock.ts ++ u64ToBeBytes lock.ttl)) := by
    simp [toBytes]
  have kindAt : elementAt lock.toBytes lock.primary.length = .ok lock.kind.toByte :=
    elementAt_eq_ok (by simp [layout])
  have tsAt : (lock.toBytes.drop (lock.primary.length + 1)).take 8 = u64ToBeBytes lock.ts := by
    simp [layout, drop_append, take_append]
  have ttlAt : (lock.toBytes.drop (lock.primary.length + 9)).take 8 = u64ToBeBytes lock.ttl := by
    have past : lock.primary.drop (lock.primary.length + 9) = [] :=
      drop_eq_nil_of_le (by omega)
    simp [layout, drop_append, past, take_of_length_le]
  have primaryAt : lock.toBytes.take lock.primary.length = lock.primary := by
    simp [layout]
  rw [parse, if_neg long, primaryLen]
  simp [kindAt, tsAt, ttlAt, primaryAt, bind, Except.bind, pure, Except.pure]

theorem parse_toBytes_of_unnamed (lock : Lock) (unnamed : lock.primary = []) :
    ∃ message, parse lock.toBytes = .error (.error message) := by
  have short : lock.toBytes.length ≤ 17 := by
    rw [toBytes_length, unnamed]
    simp
  exact ⟨_, by rw [parse, if_pos short]⟩

theorem split_at_end {input : Bytes} (long : 17 ≤ input.length) :
    ∃ byte, input[input.length - 17]? = some byte ∧
      input = input.take (input.length - 17) ++ [byte] ++
        (input.drop (input.length - 17 + 1)).take 8 ++
        (input.drop (input.length - 17 + 9)).take 8 := by
  have inside : input.length - 17 < input.length := by omega
  refine ⟨input[input.length - 17], getElem?_eq_getElem inside, ?_⟩
  have ttl : (input.drop (input.length - 17 + 9)).take 8 = input.drop (input.length - 17 + 9) := by
    apply take_of_length_le
    rw [length_drop]
    omega
  have words : (input.drop (input.length - 17 + 1)).take 8 ++
      input.drop (input.length - 17 + 9) = input.drop (input.length - 17 + 1) := by
    have behind : input.drop (input.length - 17 + 9) =
        (input.drop (input.length - 17 + 1)).drop 8 := by
      rw [drop_drop]
    rw [behind, take_append_drop]
  rw [ttl, append_assoc, words, append_assoc, singleton_append,
    getElem_cons_drop, take_append_drop]

theorem toBytes_of_parse {input : Bytes} {lock : Lock} (parsed : parse input = .ok lock) :
    lock.toBytes = input := by
  rw [parse] at parsed
  split at parsed
  · cases parsed
  · rename_i long
    rcases split_at_end (by omega : 17 ≤ input.length) with ⟨byte, kindAt, layout⟩
    have width (start : Nat) (enough : start + 8 ≤ input.length) :
        ((input.drop start).take 8).length = 8 := by
      rw [length_take, length_drop]
      omega
    rcases Fallible.bind_eq_ok_iff.mp parsed with ⟨_, isKind, parsed⟩
    rcases Fallible.bind_eq_ok_iff.mp parsed with ⟨kind, named, done⟩
    cases (elementAt_eq_ok kindAt).symm.trans isKind
    cases done
    rw [toBytes, WriteKind.toByte_of_ofByte named, u64ToBeBytes_fromBeBytes (width _ (by omega)),
      u64ToBeBytes_fromBeBytes (width _ (by omega))]
    exact layout.symm

theorem parse_toBytes_iff {lock : Lock} :
    parse lock.toBytes = .ok lock ↔ lock.primary ≠ [] := by
  constructor
  · intro parsed unnamed
    rcases parse_toBytes_of_unnamed lock unnamed with ⟨message, failed⟩
    cases failed.symm.trans parsed
  · exact parse_toBytes lock

theorem toBytes_injective {left right : Lock} (equal : left.toBytes = right.toBytes) :
    left = right := by
  have lengths : left.primary.length = right.primary.length := by
    have := congrArg List.length equal
    rw [toBytes_length, toBytes_length] at this
    omega
  simp only [toBytes, append_assoc] at equal
  rcases append_inj equal lengths with ⟨primary, rest⟩
  rcases append_inj rest rfl with ⟨kindByte, rest⟩
  rcases append_inj rest (by simp) with ⟨tsBytes, ttlBytes⟩
  have kind : left.kind = right.kind := by
    have decoded := WriteKind.ofByte_toByte left.kind
    rw [singleton_inj.mp kindByte, WriteKind.ofByte_toByte] at decoded
    exact (Except.ok.inj decoded).symm
  have ts : left.ts = right.ts := by
    rw [← u64FromBeBytes_toBeBytes left.ts, tsBytes, u64FromBeBytes_toBeBytes]
  have ttl : left.ttl = right.ttl := by
    rw [← u64FromBeBytes_toBeBytes left.ttl, ttlBytes, u64FromBeBytes_toBeBytes]
  cases left
  cases right
  simp_all

end Lock

end AegisDB.Mvcc
