import PaxosStore.MemKv.MergeFiles

set_option autoImplicit false

namespace PaxosStore.MemKv

open PaxosStore.PaxosKv

-- A record in a data block, under its block and offset.
structure Slot where
  place : Nat × Nat
  key : UInt64
  deleted : Bool
  record : MemRecord
deriving DecidableEq

-- The data blocks in shared memory, and the index.
structure MemStore where
  slots : List Slot := []
  index : UInt64 → Option (Nat × Nat) := fun _ => none

-- A record in memory as its readers see it. All heads are lite.
def MemRecord.head (logs : LogCodec) (record : MemRecord) : Option Head :=
  (newHeadToPlog logs record).map fun log => ⟨true, { fileNo := record.fileNo }, record.data.length, log⟩

-- Whether AssertCheck of memkv passes.
def infoCheck (info : NewBasic) (log : PaxosLog) : Bool :=
  info.maxIndex = getMaxIndex log && info.chosenIndex = getChosenIndex log && info.reqid = getChosenReqid log && info.pending = hasPendingIns log

-- `none` is a failed assertion.
def checkRecordNew (codec : DataCodec) (logs : LogCodec) (newRecord oldRecord : MemRecord) : Option Bool :=
  (newRecord.head logs).bind fun newHead => (oldRecord.head logs).bind fun oldHead =>
    (newHead.getBasicInfo codec).bind fun newInfo => (oldHead.getBasicInfo codec).bind fun oldInfo =>
      asserting (newInfo.flag / recordCompresse % 2 = 0 ∧ oldInfo.flag / recordCompresse % 2 = 0) <|
        if newInfo.maxIndex ≠ oldInfo.maxIndex then some (oldInfo.maxIndex < newInfo.maxIndex)
        else if newInfo.maxIndex = newInfo.chosenIndex then
          asserting (newHead.dataLen = oldHead.dataLen ∧ newInfo.pending = false ∧ oldInfo.pending = false) (some false)
        else
          asserting (newInfo.chosenIndex < newInfo.maxIndex ∧ newInfo.pending = true ∧ oldInfo.pending = true) <|
            asserting (infoCheck newInfo newHead.log ∧ infoCheck oldInfo oldHead.log) <|
              (getMaxIns newHead.log).bind fun (newIndex, newPins) => (getMaxIns oldHead.log).bind fun (oldIndex, oldPins) =>
                asserting (newIndex = oldIndex) <|
                  if newPins.proposedNum ≠ oldPins.proposedNum then some (oldPins.proposedNum < newPins.proposedNum)
                  else if newPins.promisedNum.getD 0 ≠ oldPins.promisedNum.getD 0 then
                    some (oldPins.promisedNum.getD 0 < newPins.promisedNum.getD 0)
                  else if newPins.acceptedNum.getD 0 ≠ oldPins.acceptedNum.getD 0 then
                    some (oldPins.acceptedNum.getD 0 < newPins.acceptedNum.getD 0)
                  else some false

namespace MemStore

variable (codec : DataCodec) (packing : LogPacking)

def slotAt (s : MemStore) (place : Nat × Nat) : Option Slot := s.slots.find? (·.place = place)

-- A record that is deleted or has another key is not found.
def getHead (s : MemStore) (place : Nat × Nat) (key : UInt64) : Option Slot :=
  (s.slotAt place).bind fun slot => if slot.key = key ∧ slot.deleted = false then some slot else none

def find (s : MemStore) (key : UInt64) : Option Slot := (s.index key).bind fun place => s.getHead place key

def append (s : MemStore) (place : Nat × Nat) (key : UInt64) (record : MemRecord) : MemStore :=
  { s with slots := s.slots ++ [⟨place, key, false, record⟩] }

def setIndex (s : MemStore) (key : UInt64) (place : Nat × Nat) : MemStore := { s with index := Function.update s.index key (some place) }

def delete (s : MemStore) (place : Nat × Nat) : MemStore :=
  { s with slots := s.slots.map fun slot => if slot.place = place then { slot with deleted := true } else slot }

def overwrite (s : MemStore) (place : Nat × Nat) (record : MemRecord) : MemStore :=
  { s with slots := s.slots.map fun slot => if slot.place = place then { slot with record := record } else slot }

-- clsNewMemKv::Set, with the place AppendSet finds for a new record. `none` is an error.
def set (s : MemStore) (place : Nat × Nat) (key : UInt64) (fileNo : Int) (raw : List UInt8) : Option MemStore :=
  match s.index key with
  | none => some ((s.append place key (plogToNewHead packing fileNo raw)).setIndex key place)
  | some old =>
      (s.getHead old key).map fun slot =>
        if raw.length = slot.record.data.length then s.overwrite old ⟨fileNo, false, raw⟩
        else ((s.append place key (plogToNewHead packing fileNo raw)).setIndex key place).delete old

-- CheckRecordNewWhenBuildMemIdx and what BuildOneRecord does with its answer.
def buildOneRecord (s : MemStore) (slot : Slot) : Option MemStore :=
  if slot.deleted then some s
  else
    match s.index slot.key with
    | none => some (s.setIndex slot.key slot.place)
    | some place =>
        if place = slot.place then some s
        else
          match s.getHead place slot.key with
          | none => some (s.setIndex slot.key slot.place)
          | some old =>
              (checkRecordNew codec packing.toLogCodec slot.record old.record).map fun isNew =>
                if isNew then s.setIndex slot.key slot.place else s

-- StartBuildIdx: the index starts empty, and the workers take the records in some order.
def startBuildIdx (s : MemStore) (order : List Slot) : Option MemStore :=
  order.foldlM (buildOneRecord codec packing) { s with index := fun _ => none }

end MemStore

-- Where AppendSet puts the next record.
structure Allocator where
  place : MemStore → Nat × Nat
  fresh : ∀ s slot, slot ∈ s.slots → slot.place ≠ place s

end PaxosStore.MemKv
