import AegisDB.Foundation.BigEndian

/-! # Transactional requests and responses

The messages of `proto/kvrpcpb.rs` that the transaction handlers exchange. The
request context and the region error of a response belong to routing and are not
read or set by the handlers. -/

namespace AegisDB.Server

open Foundation

inductive Op where
  | put
  | del
  | rollback
deriving DecidableEq, Repr

structure Mutation where
  op : Op
  key : Bytes
  value : Bytes
deriving DecidableEq, Repr

structure LockInfo where
  primaryLock : Bytes
  lockVersion : UInt64
  key : Bytes
  lockTtl : UInt64
deriving DecidableEq, Repr

structure WriteConflict where
  startTs : UInt64
  conflictTs : UInt64
  key : Bytes
  primary : Bytes
deriving DecidableEq, Repr

structure KeyError where
  locked : Option LockInfo
  retryable : Option String
  abort : Option String
  conflict : Option WriteConflict
deriving DecidableEq, Repr

def KeyError.ofLocked (lockInfo : LockInfo) : KeyError :=
  { locked := some lockInfo, retryable := none, abort := none, conflict := none }

def KeyError.ofAbort (message : String) : KeyError :=
  { locked := none, retryable := none, abort := some message, conflict := none }

def KeyError.ofConflict (conflict : WriteConflict) : KeyError :=
  { locked := none, retryable := none, abort := none, conflict := some conflict }

structure GetRequest where
  key : Bytes
  version : UInt64
deriving DecidableEq, Repr

structure GetResponse where
  error : Option KeyError
  value : Option Bytes
  notFound : Bool
deriving DecidableEq, Repr

def GetResponse.ok (value : Option Bytes) : GetResponse :=
  { error := none, value, notFound := value.isNone }

def GetResponse.withKeyError (error : KeyError) : GetResponse :=
  { error := some error, value := none, notFound := false }

structure ScanRequest where
  startKey : Bytes
  limit : UInt32
  version : UInt64
deriving DecidableEq, Repr

structure KvPair where
  error : Option KeyError
  key : Bytes
  value : Bytes
deriving DecidableEq, Repr

def KvPair.new (key value : Bytes) : KvPair := { error := none, key, value }

def KvPair.withError (key : Bytes) (error : KeyError) : KvPair :=
  { error := some error, key, value := [] }

structure ScanResponse where
  pairs : List KvPair
deriving DecidableEq, Repr

def ScanResponse.ok (pairs : List KvPair) : ScanResponse := { pairs }

structure PrewriteRequest where
  mutations : List Mutation
  primaryLock : Bytes
  startVersion : UInt64
  lockTtl : UInt64
deriving DecidableEq, Repr

structure PrewriteResponse where
  errors : List KeyError
deriving DecidableEq, Repr

def PrewriteResponse.ok : PrewriteResponse := { errors := [] }

structure CommitRequest where
  startVersion : UInt64
  keys : List Bytes
  commitVersion : UInt64
deriving DecidableEq, Repr

structure CommitResponse where
  error : Option KeyError
deriving DecidableEq, Repr

def CommitResponse.ok : CommitResponse := { error := none }

def CommitResponse.withKeyError (error : KeyError) : CommitResponse := { error := some error }

inductive Action where
  | noAction
  | ttlExpireRollback
  | lockNotExistRollback
deriving DecidableEq, Repr

structure CheckTxnStatusRequest where
  primaryKey : Bytes
  lockTs : UInt64
  currentTs : UInt64
deriving DecidableEq, Repr

structure CheckTxnStatusResponse where
  lockTtl : UInt64
  commitVersion : UInt64
  action : Action
deriving DecidableEq, Repr

namespace CheckTxnStatusResponse

def locked (lockTtl : UInt64) : CheckTxnStatusResponse :=
  { lockTtl, commitVersion := 0, action := .noAction }

def committed (commitVersion : UInt64) : CheckTxnStatusResponse :=
  { lockTtl := 0, commitVersion, action := .noAction }

def rolledBack (action : Action) : CheckTxnStatusResponse :=
  { lockTtl := 0, commitVersion := 0, action }

end CheckTxnStatusResponse

structure BatchRollbackRequest where
  startVersion : UInt64
  keys : List Bytes
deriving DecidableEq, Repr

structure BatchRollbackResponse where
  error : Option KeyError
deriving DecidableEq, Repr

def BatchRollbackResponse.ok : BatchRollbackResponse := { error := none }

def BatchRollbackResponse.withKeyError (error : KeyError) : BatchRollbackResponse :=
  { error := some error }

structure ResolveLockRequest where
  startVersion : UInt64
  commitVersion : UInt64
deriving DecidableEq, Repr

structure ResolveLockResponse where
  error : Option KeyError
deriving DecidableEq, Repr

def ResolveLockResponse.ok : ResolveLockResponse := { error := none }

end AegisDB.Server
