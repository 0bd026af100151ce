import PaxosStore.Consensus.Servers
import Mathlib.Algebra.Group.Int.Defs
import Mathlib.Algebra.Ring.Nat
import Mathlib.Data.Nat.Notation

set_option autoImplicit false

namespace PaxosStore.Certain

abbrev Bytes := List UInt8

-- The return codes of errors.h and the implementation errors that the
-- modelled functions compare against or return.
inductive RetCode where
  | ok
  | notFound
  | clientCmdConflict
  | localAcceptorIdErr
  | timeout
  | entryNotMatch
  | entryUncertain
  | parameterErr
  | entryLimited
  | loadEntryFailed
  | loadEntityFailed
  | storeEntryFailed
  | statePromiseErr
  | stateAcceptErr
  | stateAcceptFailed
  | entityLoading
  | waitBroadcast
  | fastFailed
  | readFailed
  | notChosen
  | entryCleanup
  | invalidRecord
  | invalidAcceptorId
  | invalidEntryState
  | unknown
  | implPlogNotFound
  | implPlogSetErr
  | implPlogGetErr
  | implDbNotFound
  | implOther
deriving DecidableEq, Repr

-- The protobuf message EntryRecord with its proto2 defaults. The numbers are
-- uint32 and the ids uint64 in the source.
structure EntryRecord where
  preparedNum : Nat := 0
  promisedNum : Nat := 0
  acceptedNum : Nat := 0
  valueId : Nat := 0
  value : Bytes := []
  uuids : List Nat := []
  chosen : Bool := false
  hasValueIdOnly : Bool := false
deriving DecidableEq, Repr

-- What a record says about the proposal it accepted.
structure Proposal where
  valueId : Nat
  value : Bytes
  uuids : List Nat
deriving DecidableEq, Repr

def EntryRecord.proposal (record : EntryRecord) : Proposal :=
  ⟨record.valueId, record.value, record.uuids⟩

inductive EntryState where
  | normal
  | promiseLocal
  | promiseRemote
  | majorityPromise
  | acceptRemote
  | acceptLocal
  | chosen
deriving DecidableEq, Repr

def isRecordNewer (oldRecord newRecord : EntryRecord) : Bool :=
  if oldRecord.chosen then false
  else if newRecord.chosen then true
  else if newRecord.preparedNum > oldRecord.preparedNum ∨
      newRecord.promisedNum > oldRecord.promisedNum ∨
      newRecord.acceptedNum > oldRecord.acceptedNum then true
  else false

def isValidRecord (record : EntryRecord) : Bool :=
  if record.preparedNum > record.promisedNum ∨ record.promisedNum < record.acceptedNum then false
  else if record.acceptedNum = 0 ∧ record.valueId > 0 ∨
      record.acceptedNum > 0 ∧ record.valueId = 0 then false
  else if record.hasValueIdOnly ∧ record.valueId = 0 then false
  else if record.valueId = 0 ∧
      (record.value.length > 0 ∨ record.uuids.length > 0 ∨ record.chosen) then false
  else if record.hasValueIdOnly ∧ (record.value.length > 0 ∨ record.uuids.length > 0) then false
  else true

end PaxosStore.Certain
