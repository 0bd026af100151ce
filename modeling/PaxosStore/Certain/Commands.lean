import PaxosStore.Certain.EntryStateMachine

set_option autoImplicit false

namespace PaxosStore.Certain

inductive CmdId where
  | replay
  | read
  | write
  | recover
  | catchup
  | load
  | dumpEntry
deriving DecidableEq, Repr

structure EntryKey where
  entityId : Nat
  entry : Nat
deriving DecidableEq, Repr

structure PaxosCmd where
  uuid : Nat := 0
  result : RetCode := .ok
  entityId : Nat
  entry : Nat := 0
  localAcceptorId : Nat := 0
  peerAcceptorId : Nat := 0
  localEntryRecord : EntryRecord := {}
  peerEntryRecord : EntryRecord := {}
  maxCommittedEntry : Nat := 0
  maxChosenEntry : Nat := 0
  checkEmpty : Bool := false
  catchup : Bool := false
  plogLoad : Bool := false
  plogGetRecord : Bool := false
  plogSetRecord : Bool := false
  plogReturnMsg : Bool := false
deriving DecidableEq, Repr

structure ClientCmd where
  cmdId : CmdId
  uuid : Nat := 0
  result : RetCode := .ok
  entityId : Nat
  entry : Nat
  timestampUsec : Nat := 0
  timeoutMsec : Nat := 0
  valueId : Nat := 0
  value : Bytes := []
  uuids : List Nat := []
deriving DecidableEq, Repr

def EntryRecord.withoutValue (record : EntryRecord) : EntryRecord :=
  { record with value := [], uuids := [], hasValueIdOnly := true }

namespace PaxosCmd

def key (cmd : PaxosCmd) : EntryKey := ⟨cmd.entityId, cmd.entry⟩

def switchToLocalView (cmd : PaxosCmd) (localAcceptorId : Nat) : PaxosCmd :=
  if cmd.peerAcceptorId ≠ localAcceptorId then cmd
  else
    { cmd with
      localAcceptorId := cmd.peerAcceptorId
      peerAcceptorId := cmd.localAcceptorId
      localEntryRecord := cmd.peerEntryRecord
      peerEntryRecord := cmd.localEntryRecord }

-- `none` denotes the failed assertion on the peer's accepted number.
def removeValueInRecord (cmd : PaxosCmd) : Option PaxosCmd :=
  if cmd.peerEntryRecord.valueId = 0 then some cmd
  else if cmd.peerEntryRecord.acceptedNum = 0 then none
  else
    some { cmd with
      localEntryRecord :=
        if cmd.localEntryRecord.valueId = cmd.peerEntryRecord.valueId ∧ ¬ cmd.localEntryRecord.hasValueIdOnly then
          cmd.localEntryRecord.withoutValue
        else cmd.localEntryRecord
      peerEntryRecord :=
        if ¬ cmd.peerEntryRecord.hasValueIdOnly then cmd.peerEntryRecord.withoutValue else cmd.peerEntryRecord }

def setChosen (cmd : PaxosCmd) (value : Bool) : PaxosCmd :=
  { cmd with localEntryRecord := { cmd.localEntryRecord with chosen := value } }

-- The fields of PaxosMsg; the others have their defaults after parsing.
def parsed (cmd : PaxosCmd) : PaxosCmd :=
  { cmd with
    maxCommittedEntry := 0
    plogLoad := false
    plogGetRecord := false
    plogSetRecord := false
    plogReturnMsg := false }

end PaxosCmd

def ClientCmd.key (cmd : ClientCmd) : EntryKey := ⟨cmd.entityId, cmd.entry⟩

end PaxosStore.Certain
