import PaxosStore.PaxosKv.DbImpl

set_option autoImplicit false

namespace PaxosStore.MemKv

open PaxosStore.PaxosKv

-- A file number is positive for a write file and negative for a merge file. Of
-- cState only the bit PENDING is ever used.
structure NewBasic where
  maxIndex : Nat := 0
  chosenIndex : Nat := 0
  fileNo : Int := 0
  offset : Nat := 0
  reqid : Nat := 0
  version : Nat := 0
  flag : Nat := 0
  pending : Bool := false
deriving DecidableEq, Repr

def hasPendingIns (log : PaxosLog) : Bool := (getMaxIns log).any (!·.2.chosen)

-- Whether CheckConsistency passes.
def checkConsistency (codec : DataCodec) (info : NewBasic) (log : PaxosLog) : Bool :=
  info.maxIndex = getMaxIndex log && info.chosenIndex = getChosenIndex log && info.reqid = getChosenReqid log &&
    info.pending = hasPendingIns log &&
    (if hasPendingIns log then info.chosenIndex < info.maxIndex else info.chosenIndex = info.maxIndex) &&
    match getChosenIns log with
    | none => info.version = 0
    | some (index, pins) =>
        if index = 0 then info.version = 0
        else pins.acceptedValue.isSome && (codec.parseFromString (entryData pins)).any (·.version = info.version)

-- The record of a key in a data block. A lite head keeps nothing of `info` but
-- the file number; the length is that of the data as stored.
structure Head where
  lite : Bool
  info : NewBasic
  dataLen : Nat
  log : PaxosLog
deriving DecidableEq

namespace Head

def setBasicInfo (head : Head) (info : NewBasic) : Head :=
  if head.lite then { head with info := { head.info with fileNo := info.fileNo } } else { head with info := info }

-- The part of a lite head's info that comes from the last chosen instance.
def chosenInfo (codec : DataCodec) (log : PaxosLog) : Option NewBasic :=
  match getChosenIns log with
  | none => some {}
  | some (index, pins) =>
      asserting (pins.acceptedValue.isSome = true) <|
        (codec.parseFromString (entryData pins)).map fun data =>
          { maxIndex := index, chosenIndex := index, reqid := entryReqid pins, version := data.version % 2 ^ 32, flag := data.flag % 2 ^ 8 }

-- The callers assert that there is a result.
def getBasicInfo (codec : DataCodec) (head : Head) : Option NewBasic :=
  if !head.lite then some head.info
  else
    (chosenInfo codec head.log).bind fun info =>
      let info := { info with fileNo := head.info.fileNo }
      let info := match getMaxIns head.log with
        | none => info
        | some (index, pins) => { info with maxIndex := index, pending := !pins.chosen }
      asserting (info.chosenIndex ≤ info.maxIndex) (some info)

end Head

section Set

variable (byteSize dumpLen : PaxosLog → Nat)

-- A record that is appended to a block. All of them have a lite head.
def appendDumpRecord (info : NewBasic) (log : PaxosLog) : Head := ⟨true, { fileNo := info.fileNo }, dumpLen log, log⟩

-- clsNewMemKv::Set of one key: a log of the same length takes the place of the old one.
def setRecord (info : NewBasic) (log : PaxosLog) : Option Head → Head
  | none => appendDumpRecord dumpLen info log
  | some head => if byteSize log = head.dataLen then { head.setBasicInfo info with log := log } else appendDumpRecord dumpLen info log

end Set

end PaxosStore.MemKv
