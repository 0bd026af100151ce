import PaxosStore.Certain.EntryRecord
import Mathlib.Data.Fintype.Basic
import Mathlib.Data.Fintype.Card
import Mathlib.Data.Fintype.Pi

set_option autoImplicit false

namespace PaxosStore.Certain

def kMaxAcceptorNum : Nat := 5

def u32 (x : Nat) : Nat := x % 2 ^ 32

-- The acceptor count is the index `n`, so that acceptor ids are in range by
-- construction. `emptyFlags` is not initialised by the source's constructor.
structure EntryStateMachine (n : Nat) where
  localAcceptorId : Fin n
  entryRecords : Fin n → EntryRecord
  emptyFlags : Fin n → Bool
  entryState : EntryState
deriving DecidableEq

namespace EntryStateMachine

variable {n : Nat}

def create (localAcceptorId : Fin n) (emptyFlags : Fin n → Bool) : EntryStateMachine n :=
  ⟨localAcceptorId, fun _ => {}, emptyFlags, .normal⟩

def setRecord (m : EntryStateMachine n) (i : Fin n) (record : EntryRecord) : EntryStateMachine n :=
  { m with entryRecords := Function.update m.entryRecords i record }

def localRecord (m : EntryStateMachine n) : EntryRecord := m.entryRecords m.localAcceptorId

def setLocal (m : EntryStateMachine n) (record : EntryRecord) : EntryStateMachine n :=
  m.setRecord m.localAcceptorId record

def getByValueId (m : EntryStateMachine n) (valueId : Nat) : Option (Bytes × List Nat) :=
  ((List.finRange n).find? fun i => (m.entryRecords i).valueId = valueId).map fun i =>
    ((m.entryRecords i).value, (m.entryRecords i).uuids)

-- The precondition `record.has_value_id_only()` is asserted by the source.
def restoreValueInRecord (m : EntryStateMachine n) (record : EntryRecord) : EntryRecord :=
  match m.getByValueId record.valueId with
  | none => { record with hasValueIdOnly := false, chosen := false, value := [], uuids := [] }
  | some (value, uuids) => { record with hasValueIdOnly := false, value := value, uuids := uuids }

def acceptedBy (m : EntryStateMachine n) (num : Nat) : Finset (Fin n) :=
  Finset.univ.filter fun i => (m.entryRecords i).acceptedNum = num

def promisedBy (m : EntryStateMachine n) (num : Nat) : Finset (Fin n) :=
  Finset.univ.filter fun i => (m.entryRecords i).promisedNum = num

-- `none` denotes a failed assertion.
def calcEntryState (m : EntryStateMachine n) : Option (EntryStateMachine n) :=
  let record := m.localRecord
  if record.chosen then some { m with entryState := .chosen }
  else if record.acceptedNum > 0 ∧ (m.acceptedBy record.acceptedNum).card ≥ n / 2 + 1 then
    some ({ m with entryState := .chosen }.setLocal { record with chosen := true })
  else if record.promisedNum > record.preparedNum then
    if record.acceptedNum = record.promisedNum then some { m with entryState := .acceptRemote }
    else if record.acceptedNum < record.promisedNum then some { m with entryState := .promiseRemote }
    else none
  else if record.promisedNum = record.preparedNum ∧ record.acceptedNum ≤ record.promisedNum then
    if record.promisedNum = 0 then some { m with entryState := .normal }
    else if record.acceptedNum = record.promisedNum then some { m with entryState := .acceptLocal }
    else if (m.promisedBy record.promisedNum).card ≥ n / 2 + 1 then
      some { m with entryState := .majorityPromise }
    else some { m with entryState := .promiseLocal }
  else none

-- The effect of a newer peer record on the local one.
def adopt (record peerRecord : EntryRecord) : EntryRecord :=
  let record :=
    if record.promisedNum < peerRecord.promisedNum then
      { record with promisedNum := peerRecord.promisedNum }
    else record
  if peerRecord.chosen ∨ record.promisedNum ≤ peerRecord.acceptedNum ∧
      record.acceptedNum < peerRecord.acceptedNum then
    let record := { record with acceptedNum := peerRecord.acceptedNum, chosen := peerRecord.chosen }
    if record.valueId ≠ peerRecord.valueId then
      { record with
        valueId := peerRecord.valueId
        value := peerRecord.value
        uuids := peerRecord.uuids }
    else record
  else record

def update (m : EntryStateMachine n) (peerAcceptorId : Nat) (peerRecord : EntryRecord) :
    Option (RetCode × EntryStateMachine n) :=
  if bound : peerAcceptorId < n then
    if peerRecord.hasValueIdOnly ∨ ¬ isValidRecord peerRecord then some (.invalidRecord, m)
    else if ¬ isRecordNewer (m.entryRecords ⟨peerAcceptorId, bound⟩) peerRecord then some (.ok, m)
    else
      let m := m.setRecord ⟨peerAcceptorId, bound⟩ peerRecord
      -- Self-update after getting info from plog.
      if peerAcceptorId = m.localAcceptorId then m.calcEntryState.map fun m => (.ok, m)
      else if m.entryState = .chosen then some (.ok, m)
      else (m.setLocal (adopt m.localRecord peerRecord)).calcEntryState.map fun m => (.ok, m)
  else some (.invalidAcceptorId, m)

-- The proposal number computed in uint32 arithmetic.
def nextNum (m : EntryStateMachine n) (preAuth : Bool) : Nat :=
  let pn := u32 (u32 (m.localRecord.promisedNum + n - 1) / n * n + m.localAcceptorId + 1)
  if ¬ preAuth ∧ pn ≤ n then u32 (pn + n) else pn

def promise (m : EntryStateMachine n) (preAuth : Bool) : Option (RetCode × EntryStateMachine n) :=
  let pn := m.nextNum preAuth
  (m.setLocal { m.localRecord with preparedNum := pn, promisedNum := pn }).calcEntryState.map fun m =>
    (if m.entryState ≠ .promiseLocal then .invalidEntryState else .ok, m)

def getLocalPromisedNum (m : EntryStateMachine n) : Nat := m.localRecord.promisedNum

def getLocalAcceptedNum (m : EntryStateMachine n) : Nat := m.localRecord.acceptedNum

def isLocalAcceptable (m : EntryStateMachine n) : Bool :=
  m.entryState = .majorityPromise ∨ m.entryState = .promiseLocal ∧ m.getLocalPromisedNum ≤ n

-- The index of the first record with the largest accepted number.
def selected (m : EntryStateMachine n) : Fin n :=
  (List.finRange n).tail.foldl
    (fun best i => if (m.entryRecords best).acceptedNum < (m.entryRecords i).acceptedNum then i else best)
    ⟨0, m.localAcceptorId.pos⟩

-- The record Accept writes: the value with the largest accepted number, or the
-- prepared one where nothing was accepted yet.
def acceptedRecord (m : EntryStateMachine n) (value : Bytes) (valueId : Nat) (uuids : List Nat) : EntryRecord :=
  let record := m.localRecord
  let best := m.entryRecords m.selected
  if best.acceptedNum > 0 then
    { record with
      acceptedNum := record.promisedNum
      value := best.value
      valueId := best.valueId
      uuids := best.uuids }
  else
    { record with acceptedNum := record.promisedNum, value := value, valueId := valueId, uuids := uuids }

-- The Boolean is the out parameter prepared_value_accepted, false if not set.
def accept (m : EntryStateMachine n) (value : Bytes) (valueId : Nat) (uuids : List Nat) :
    Option (RetCode × Bool × EntryStateMachine n) :=
  if ¬ m.isLocalAcceptable then some (.invalidEntryState, false, m)
  else if m.localRecord.promisedNum = 0 then none
  else
    match (m.setLocal (m.acceptedRecord value valueId uuids)).calcEntryState with
    | none => none
    | some next =>
        if next.entryState = .acceptLocal then
          some (.ok, (m.entryRecords m.selected).acceptedNum = 0, next)
        else none

def isLocalEmpty (m : EntryStateMachine n) : Bool := m.entryState = .normal

def resetEmptyFlags (m : EntryStateMachine n) : Option (EntryStateMachine n) :=
  if m.entryState = .normal then
    some { m with emptyFlags := fun i => i = m.localAcceptorId }
  else none

def setEmptyFlag (m : EntryStateMachine n) (peerAcceptorId : Fin n) : EntryStateMachine n :=
  { m with emptyFlags := Function.update m.emptyFlags peerAcceptorId true }

def isMajorityEmpty (m : EntryStateMachine n) : Bool :=
  (Finset.univ.filter fun i => m.emptyFlags i = true).card > n / 2

def hasPromisedMyProposal (m : EntryStateMachine n) (peerAcceptorId : Fin n) : Bool :=
  m.localRecord.promisedNum = (m.entryRecords peerAcceptorId).promisedNum ∧
    m.localRecord.promisedNum = m.localRecord.preparedNum

def hasAcceptedMyProposal (m : EntryStateMachine n) (peerAcceptorId : Fin n) : Bool :=
  m.localRecord.acceptedNum = (m.entryRecords peerAcceptorId).acceptedNum ∧
    m.localRecord.acceptedNum = m.localRecord.preparedNum

end EntryStateMachine

end PaxosStore.Certain
