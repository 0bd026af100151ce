import Mathlib.Algebra.BigOperators.Intervals
import PaxosStore.MemKv.MemComm
import PaxosStore.MemKv.MemIdx

set_option autoImplicit false

namespace PaxosStore.MemKv

open PaxosStore.PaxosKv
open PaxosStore.Consensus

-- A valid record of a data file, whose key has eight bytes.
structure RawRecord where
  key : UInt64
  flag : Nat
  verA : Nat
  verB : Nat
  body : List UInt8
deriving DecidableEq, Repr

-- snappy, and the generated code of the message PaxosLog.
structure LogCodec where
  unCompresse : List UInt8 → Option (List UInt8)
  parseFromArray : List UInt8 → Option PaxosLog

def recordCompresse : Nat := 2

def maxValueLen : Nat := 20 * 1024 * 1024

-- MayUnCompresse and the parse that follows it.
def decodeLog (logs : LogCodec) (record : RawRecord) : Option PaxosLog :=
  if record.flag / recordCompresse % 2 = 0 then logs.parseFromArray record.body
  else if record.body = [] then none
  else (logs.unCompresse record.body).bind fun raw => if raw = [] then none else logs.parseFromArray raw

-- The outer `none` is a failed assertion, the inner one BROKEN_DBDATA.
def updateBasicInfo (codec : DataCodec) (log : PaxosLog) : Option (Option NewBasic) :=
  let info : NewBasic :=
    { maxIndex := getMaxIndex log, chosenIndex := getChosenIndex log, reqid := getChosenReqid log, pending := hasPendingIns log }
  let chosen : Option (Option NewBasic) :=
    match getChosenIns log with
    | none => some (some info)
    | some (_, pins) =>
        asserting (pins.acceptedValue.isSome = true) <|
          some ((codec.parseFromString (entryData pins)).map fun data =>
            { info with version := data.version % 2 ^ 32, flag := data.flag % 2 ^ 8 })
  chosen.bind fun
    | none => some none
    | some info =>
        match (getMaxIns log).bind fun max => if max.2.chosen then none else max.2.acceptedValue with
        | none => some (some info)
        | some value =>
            match codec.parseFromString value.data with
            | none => some none
            | some data => asserting (info.version ≤ data.version) (some (some info))

-- What LoadToMemKvWorker and DoReloadProcessOnRecord make of a record. The outer
-- `none` is a failed assertion, the inner one a broken record.
def readRecord (codec : DataCodec) (logs : LogCodec) (fileNo : Int) (offset : Nat) (record : RawRecord) :
    Option (Option (NewBasic × PaxosLog)) :=
  asserting (record.body.length ≤ maxValueLen) <|
    match decodeLog logs record with
    | none => some none
    | some log =>
        asserting (fileNo ≠ 0) <|
          (updateBasicInfo codec log).bind fun
            | none => some none
            | some info =>
                asserting (info.version = record.verA ∧ info.version = record.verB) <|
                  some (some ({ info with fileNo := fileNo, offset := offset }, log))

-- The assertions clsNewMemKv::Set begins with.
def setAllowed (codec : DataCodec) (info : NewBasic) (log : PaxosLog) : Bool :=
  info.flag / recordCompresse % 2 = 0 && checkConsistency codec info log

-- A file as ReadOneFileImpl gives it: its records in the order of their offsets.
structure DataFile where
  fileNo : Int
  records : List (Nat × RawRecord)
  ascending : (records.map (·.1)).Pairwise (· < ·)

structure DataPath where
  writeFiles : List DataFile
  mergeFiles : List DataFile
  positive : ∀ file ∈ writeFiles, 0 < file.fileNo
  negative : ∀ file ∈ mergeFiles, file.fileNo < 0
  writeNames : (writeFiles.map (·.fileNo)).Nodup
  mergeNames : (mergeFiles.map (·.fileNo)).Nodup

theorem no_merge_files : ∀ file ∈ ([] : List DataFile), file.fileNo < 0 := nofun

theorem no_merge_names : (([] : List DataFile).map (·.fileNo)).Nodup := List.nodup_nil

structure Item where
  fileNo : Int
  offset : Nat
  record : RawRecord
deriving DecidableEq

namespace DataFile

def items (file : DataFile) : List Item := file.records.map fun (offset, record) => ⟨file.fileNo, offset, record⟩

-- ReadOneFile goes from the last record to the first.
def readOneFile (file : DataFile) : List Item := file.items.reverse

end DataFile

namespace DataPath

def items (path : DataPath) : List Item := (path.mergeFiles ++ path.writeFiles).flatMap (·.items)

def readAllWriteFiles (path : DataPath) : List Item :=
  (path.writeFiles.mergeSort fun left right => right.fileNo ≤ left.fileNo).flatMap (·.readOneFile)

-- The merge file with the largest name has the smallest number.
def readAllMergeFiles (path : DataPath) : List Item :=
  (path.mergeFiles.mergeSort fun left right => left.fileNo ≤ right.fileNo).flatMap (·.readOneFile)

def readAllDiskFile (path : DataPath) : List Item := path.readAllWriteFiles ++ path.readAllMergeFiles

end DataPath

def maxQueueLen : Nat := 100000

-- The records that are still to be read, the queue of each worker, and memkv.
structure Loading where
  unread : List Item
  queues : Nat → List Item
  memkv : UInt64 → Option Head

inductive LoadStep where
  | push
  | take (worker : Nat)
deriving DecidableEq

namespace Loading

variable (codec : DataCodec) (logs : LogCodec) (dumpLen : PaxosLog → Nat) (memIdxSize workerCnt : Nat)

def queueIdx (key : UInt64) : Nat := (dictIntHashFunc key).toNat % memIdxSize % workerCnt

def push (s : Loading) : Option Loading :=
  match s.unread with
  | [] => none
  | item :: rest =>
      let idx := queueIdx memIdxSize workerCnt item.record.key
      if maxQueueLen ≤ (s.queues idx).length then none
      else some { s with unread := rest, queues := Function.update s.queues idx (s.queues idx ++ [item]) }

-- One turn of LoadToMemKvWorker. A broken record is counted, and the count has
-- to be 0 in the end.
def take (s : Loading) (worker : Nat) : Option Loading :=
  match s.queues worker with
  | [] => none
  | item :: rest =>
      let left : Loading := { s with queues := Function.update s.queues worker rest }
      if (s.memkv item.record.key).isSome then some left
      else
        (readRecord codec logs item.fileNo item.offset item.record).bind fun result => result.bind fun (info, log) =>
          asserting (setAllowed codec info log) <|
            some { left with memkv := Function.update s.memkv item.record.key (some (appendDumpRecord dumpLen info log)) }

def act (s : Loading) : LoadStep → Option Loading
  | .push => s.push memIdxSize workerCnt
  | .take worker => if worker < workerCnt then s.take codec logs dumpLen worker else none

end Loading

-- The start of LoadAllDiskFile with an empty memkv.
def DataPath.start (path : DataPath) : Loading := ⟨path.readAllDiskFile, fun _ => [], fun _ => none⟩

end PaxosStore.MemKv
