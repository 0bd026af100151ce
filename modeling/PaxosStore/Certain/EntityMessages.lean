import PaxosStore.Certain.EntityHelper

set_option autoImplicit false

namespace PaxosStore.Certain.Node

variable {n : Nat}

def restoreRecord (s : Node n) (machine : EntryStateMachine n) (key : EntryKey) (record : EntryRecord) : EntryRecord × Node n :=
  if record.hasValueIdOnly then
    (machine.restoreValueInRecord record, s.mark (.restored key (machine.getByValueId record.valueId).isSome))
  else (record, s)

def restoreValue (s : Node n) (machine : EntryStateMachine n) (cmd : PaxosCmd) : PaxosCmd × Node n :=
  let (localRecord, s) := s.restoreRecord machine cmd.key cmd.localEntryRecord
  let (peerRecord, s) := s.restoreRecord machine cmd.key cmd.peerEntryRecord
  ({ cmd with localEntryRecord := localRecord, peerEntryRecord := peerRecord }, s)

def handleIfLocalChosen (s : Node n) (entityId : Nat) (cmd : PaxosCmd) : Option (Bool × Node n) := do
  let entity ← s.entityInfos entityId
  let known := (s.entryInfos cmd.key).any fun info => info.machine.entryState = .chosen
  if ¬ known ∧ cmd.entry > entity.maxContChosenEntry then some (false, s)
  else if cmd.peerEntryRecord.chosen then some (true, s)
  else
    match s.entryInfos cmd.key with
    | some info =>
        let record := info.machine.entryRecords entity.localAcceptorId
        some (true, (s.mark (.answered cmd.key info.uncertain record)).goAndDeleteIfFailed
          ({ cmd with localEntryRecord := record }.setChosen true))
    | none =>
        -- The answer goes from PlogWorker to MsgWorker directly.
        if cmd.entry > entity.maxContChosenEntry then none
        else some (true, (s.goToPlogReqQueue { cmd with plogReturnMsg := true }).2)

-- The value UpdateMachineByPaxosCmd proposes after a majority promise.
def valueToPropose (entity : EntityInfo n) (entry promisedNum : Nat) : Bytes × Nat × List Nat :=
  match entity.clientCmd with
  | some client => if client.entry = entry then (client.value, client.valueId, client.uuids) else ([], promisedNum, [])
  | none => ([], promisedNum, [])

def acceptIfPromised (s : Node n) (key : EntryKey) (machine : EntryStateMachine n) :
    Option (RetCode × EntryStateMachine n × Node n) := do
  if machine.entryState ≠ .majorityPromise then some (.ok, machine, s)
  else
    let entity ← s.entityInfos key.entityId
    let (value, valueId, uuids) := valueToPropose entity key.entry machine.getLocalPromisedNum
    let (ret, prepared, machine) ← machine.accept value valueId uuids
    if ret ≠ .ok then some (.stateAcceptErr, machine, s)
    else if prepared then some (.ok, machine, s.mark (.proposed key machine.localRecord.proposal))
    else
      let s ← s.finishEntryCmd key .stateAcceptFailed
      some (.ok, machine, s)

-- The read branch at the end of UpdateMachineByPaxosCmd. The source compares
-- the message's entry with itself here, not with the command's.
def countEmptyAnswer (s : Node n) (p : EntryPtr) (peer : Fin n) (uuid : Nat) : Option (RetCode × Node n) := do
  let info ← s.deref p
  let entity ← s.entityOf p.key info
  match entity.clientCmd with
  | none => some (.ok, s)
  | some client =>
      if client.cmdId = .read ∧ uuid = client.uuid then
        if info.machine.isLocalEmpty then
          let machine := info.machine.setEmptyFlag peer
          let s ← s.setMachine p machine
          if machine.isMajorityEmpty then
            let s ← s.finishClientCmd p.key.entityId .ok
            some (.ok, s)
          else some (.ok, s)
        else
          let s ← s.finishClientCmd p.key.entityId .readFailed
          some (.readFailed, s)
      else some (.ok, s)

def updateMachineByPaxosCmd (o : Options n) (s : Node n) (p : EntryPtr) (peer : Fin n) (cmd : PaxosCmd) :
    Option (RetCode × Node n) := do
  let info ← s.deref p
  let entity ← s.entityOf p.key info
  let oldRecord := info.machine.entryRecords entity.localAcceptorId
  let (ret, machine) ← info.machine.update peer cmd.peerEntryRecord
  let s ← (s.mark (.handed p.key peer cmd.peerEntryRecord)).setMachine p machine
  let s ← s.updateMemorySize o p
  if ret ≠ .ok then some (ret, s)
  else
    let compensate := machine.entryState ≠ info.machine.entryState ∧
      (machine.entryState = .majorityPromise ∨ machine.entryState = .chosen)
    let (ret, machine, s) ← s.acceptIfPromised p.key machine
    let s ← s.setMachine p machine
    if ret ≠ .ok then some (ret, s)
    else
      let record := machine.entryRecords entity.localAcceptorId
      let needSync := isRecordNewer cmd.localEntryRecord record
      if isRecordNewer oldRecord record then
        let (stored, s) ← s.storeEntryInfo o p
        if stored then
          let info ← s.deref p
          let s := if needSync then
              s.setEntry p.key (some { info with peerToSync := some peer, compensateMsgs := compensate })
            else s
          s.countEmptyAnswer p peer cmd.uuid
        else
          let s ← s.clearEntryInfo p
          let s ← s.finishClientCmd p.key.entityId .storeEntryFailed
          some (.storeEntryFailed, s)
      else if needSync then
        let s ← s.syncToPeer p peer false false
        s.countEmptyAnswer p peer cmd.uuid
      else if cmd.checkEmpty then
        if machine.isLocalEmpty then some (.ok, s.goAndDeleteIfFailed { cmd with checkEmpty := false })
        else none
      else s.countEmptyAnswer p peer cmd.uuid

-- HandlePaxosCmd from where the entry is not known to be chosen.
def handleOpenEntry (o : Options n) (s : Node n) (peer : Fin n) (cmd : PaxosCmd) : Option (RetCode × Node n) := do
  let (ret, found, s) ← s.createEntryInfoIfMiss o cmd.entityId cmd.entry
  if ret ≠ .ok then some (ret, s)
  else
    let p ← found
    let info ← s.deref p
    let (cmd, s) := s.restoreValue info.machine cmd
    if info.uncertain then
      let s := s.setEntry p.key (some { info with waitingMsgs := Function.update info.waitingMsgs peer (some cmd) })
      let s ← s.updateMemorySize o p
      some (.ok, s)
    else if info.broadcast ∨ info.peerToSync.isSome then none
    else
      let (ret, s) ← s.updateMachineByPaxosCmd o p peer cmd
      let s ← s.tryCatchup o cmd.entityId
      some (ret, s)

-- A fast failed read is answered if it is the pending one.
def finishFastFailed (s : Node n) (cmd : PaxosCmd) : Option (Node n) := do
  let entity ← s.entityInfos cmd.entityId
  match entity.clientCmd with
  | none => some s
  | some client =>
      if client.uuid = cmd.uuid ∧ client.entry = cmd.entry then s.finishClientCmd cmd.entityId .fastFailed else some s

-- HandlePaxosCmd from where the entity is loaded and the ids are checked.
def handleCheckedCmd (o : Options n) (s : Node n) (peer : Fin n) (cmd : PaxosCmd) : Option (RetCode × Node n) := do
  let entity ← s.entityInfos cmd.entityId
  let s := if entity.maxChosenEntry < cmd.maxChosenEntry then
      s.setEntity cmd.entityId (some { entity with activePeerAcceptorId := peer, maxChosenEntry := cmd.maxChosenEntry })
    else s
  let entity ← s.entityInfos cmd.entityId
  if cmd.checkEmpty ∧ cmd.entry ≤ entity.maxChosenEntry then
    some (.ok, s.goAndDeleteIfFailed
      { cmd with maxChosenEntry := entity.maxChosenEntry, result := .fastFailed, checkEmpty := false })
  else if cmd.result = .fastFailed then
    let s ← s.finishFastFailed cmd
    let s ← s.tryCatchup o cmd.entityId
    some (.fastFailed, s)
  else if cmd.result = .implPlogNotFound then s.triggerRecover cmd.entityId
  else
    let (handled, s) ← s.handleIfLocalChosen cmd.entityId cmd
    if handled then some (.ok, s) else s.handleOpenEntry o peer cmd

def handlePaxosCmd (o : Options n) (s : Node n) (cmd : PaxosCmd) : Option (RetCode × Node n) := do
  let (ret, s) ← s.createEntityInfoIfMiss o cmd.entityId
  if ret ≠ .ok then some (ret, s)
  else
    let entity ← s.entityInfos cmd.entityId
    let cmd := cmd.switchToLocalView entity.localAcceptorId
    -- Only the last command is kept while the entity is loading.
    if entity.loading then some (.ok, s.setEntity cmd.entityId (some { entity with waitingMsg := some cmd }))
    else if cmd.localAcceptorId ≠ entity.localAcceptorId ∨ cmd.localAcceptorId = cmd.peerAcceptorId then some (.parameterErr, s)
    else if bound : cmd.peerAcceptorId < n then s.handleCheckedCmd o ⟨cmd.peerAcceptorId, bound⟩ cmd
    else some (.parameterErr, s)

def handleWaitingMsgs (o : Options n) (p : EntryPtr) : List (Fin n) → Node n → Option (Node n)
  | [], s => some s
  | peer :: rest, s => do
      let info ← s.deref p
      match info.waitingMsgs peer with
      | none => handleWaitingMsgs o p rest s
      | some cmd =>
          let s := s.setEntry p.key (some { info with waitingMsgs := Function.update info.waitingMsgs peer none })
          let (_, s) ← s.handlePaxosCmd o cmd
          let info ← s.deref p
          if info.uncertain then some s else handleWaitingMsgs o p rest s

def handleWaitingMsg (o : Options n) (s : Node n) (p : EntryPtr) : Option (Node n) := do
  let s ← handleWaitingMsgs o p (List.finRange n) s
  s.updateMemorySize o p

-- What both plog completions assert and reset first.
def completeEntry (s : Node n) (key : EntryKey) : Option (EntryPtr × Node n) := do
  let info ← s.entryInfos key
  if ¬ info.uncertain then none
  else some (⟨key, info.number⟩, s.setEntry key (some { info with uncertain := false }))

def handleGetFromPlog (o : Options n) (s : Node n) (cmd : PaxosCmd) : Option (RetCode × Node n) := do
  let (p, s) ← s.completeEntry cmd.key
  let cmd := if cmd.result = .implPlogNotFound then { cmd with localEntryRecord := {}, result := .ok } else cmd
  if cmd.result ≠ .ok then
    let s ← s.clearEntryInfo p
    some (cmd.result, s)
  else
    let info ← s.deref p
    let entity ← s.entityOf p.key info
    let (ret, machine) ← info.machine.update entity.localAcceptorId cmd.localEntryRecord
    let s ← s.setMachine p machine
    let s ← s.updateMemorySize o p
    if ret ≠ .ok then some (ret, s)
    else
      let s ← s.updateByChosenEntry o p
      let s ← s.handleWaitingMsg o p
      let info ← s.deref p
      let _ ← s.entityOf p.key info
      let s ← s.tryCatchup o p.key.entityId
      some (.ok, s)

-- The answer to the client after a successful Set of a chosen record.
def finishIfChosen (s : Node n) (p : EntryPtr) : Option (Node n) := do
  let info ← s.deref p
  if info.machine.entryState ≠ .chosen then some s
  else if info.machine.getLocalAcceptedNum = 0 then none
  else
    let entity ← s.entityOf p.key info
    match entity.clientCmd with
    | none => some s
    | some client =>
        if client.entry = p.key.entry ∧ client.valueId = (info.machine.entryRecords entity.localAcceptorId).valueId then
          s.finishClientCmd p.key.entityId .ok
        else some s

def syncAfterSet (s : Node n) (p : EntryPtr) : Option (Node n) := do
  let info ← s.deref p
  if info.broadcast then s.broadcast p false
  else if info.compensateMsgs then
    if info.machine.entryState = .acceptLocal then s.broadcastOnAccept p
    else if info.machine.entryState = .chosen then s.broadcastOnChosen p
    else some s
  else
    let peer ← info.peerToSync
    s.syncToPeer p peer false false

def handleSetFromPlog (o : Options n) (s : Node n) (cmd : PaxosCmd) : Option (RetCode × Node n) := do
  let (p, s) ← s.completeEntry cmd.key
  if cmd.result ≠ .ok then
    let s ← s.clearEntryInfo p
    some (cmd.result, s)
  else
    let s ← s.updateByChosenEntry o p
    let s ← s.finishIfChosen p
    let info ← s.deref p
    if ¬ info.broadcast ∧ info.peerToSync = none then some (.ok, s)
    else
      let s ← s.syncAfterSet p
      let info ← s.deref p
      let s := s.setEntry p.key (some { info with broadcast := false, compensateMsgs := false, peerToSync := none })
      let s ← s.handleWaitingMsg o p
      some (.ok, s)

def updateByLoadFromPlog (entity : EntityInfo n) (maxPlogEntry maxCommittedEntry : Nat) : EntityInfo n :=
  let maxChosenEntry :=
    if maxPlogEntry > 0 ∧ entity.maxChosenEntry < maxPlogEntry - 1 then maxPlogEntry - 1 else entity.maxChosenEntry
  { entity with
    maxChosenEntry := max maxChosenEntry maxCommittedEntry
    maxContChosenEntry := max entity.maxContChosenEntry maxCommittedEntry
    maxCatchupEntry := max entity.maxCatchupEntry maxCommittedEntry
    maxPlogEntry := max maxPlogEntry maxCommittedEntry }

-- The message and the command that waited for the load, in this order.
def handleParkedMsg (o : Options n) (s : Node n) (entityId : Nat) : Option (Node n) := do
  let entity ← s.entityInfos entityId
  match entity.waitingMsg with
  | none => some s
  | some msg =>
      let s := s.mark (.parked msg.key msg.uuid entity.clientCmd)
      let (_, s) ← (s.setEntity entityId (some { entity with waitingMsg := none })).handlePaxosCmd o msg
      some s

def handleParkedCmd (o : Options n) (s : Node n) (entityId : Nat) : Option (Node n) := do
  let entity ← s.entityInfos entityId
  match entity.clientCmd with
  | none => some s
  | some client =>
      let (_, s) ← (s.setEntity entityId (some { entity with clientCmd := none })).handleClientCmd o client
      some s

def handleLoadFromPlog (o : Options n) (s : Node n) (cmd : PaxosCmd) : Option (RetCode × Node n) := do
  let entity ← s.entityInfos cmd.entityId
  if ¬ entity.loading then none
  else
    let entity := { entity with loading := false }
    if cmd.result ≠ .ok then
      let s ← (s.setEntity cmd.entityId (some entity)).finishClientCmd cmd.entityId cmd.result
      some (.ok, s.setEntity cmd.entityId none)
    else
      let s := (s.setEntity cmd.entityId (some (updateByLoadFromPlog entity cmd.entry cmd.maxCommittedEntry))).mark
        (.loaded cmd.entityId cmd.maxCommittedEntry)
      let s ← s.handleParkedMsg o cmd.entityId
      let s ← s.handleParkedCmd o cmd.entityId
      some (.ok, s)

def handlePlogRspCmd (o : Options n) (s : Node n) (cmd : PaxosCmd) : Option (RetCode × Node n) :=
  if cmd.plogLoad then s.handleLoadFromPlog o cmd
  else if cmd.plogSetRecord then s.handleSetFromPlog o cmd
  else if cmd.plogGetRecord then s.handleGetFromPlog o cmd
  else some (.ok, s)

def handleRecoverRspCmd (o : Options n) (s : Node n) (cmd : PaxosCmd) : Option (RetCode × Node n) := do
  let (ret, s) ← s.createEntityInfoIfMiss o cmd.entityId
  if ret ≠ .ok then some (ret, s)
  else
    let entity ← s.entityInfos cmd.entityId
    let entity := { entity with recoverPending := false, recoverTimestampMsec := s.env.nowMsec }
    if cmd.result ≠ .ok then some (cmd.result, s.setEntity cmd.entityId (some entity))
    else
      let cont := max entity.maxContChosenEntry cmd.entry
      let s := s.setEntity cmd.entityId (some
        { entity with
          maxChosenEntry := max entity.maxChosenEntry cmd.entry
          maxContChosenEntry := cont
          maxCatchupEntry := max entity.maxCatchupEntry cont
          maxPlogEntry := max entity.maxPlogEntry cmd.entry })
      let s ← (s.mark (.recovered cmd.entityId cmd.entry)).tryCatchup o cmd.entityId
      some (.ok, s)

-- The first loop of CheckIfHasWork.
def moveFinished : List ClientCmd → Node n → Node n
  | [], s => { s with finishedList := [] }
  | cmd :: rest, s =>
      let (failed, s) := s.ask
      if failed then { s with finishedList := cmd :: rest }
      else moveFinished rest { s with userRspQueue := s.userRspQueue ++ [cmd] }

-- The timer's elements that are due, each with its entity's command.
def takeTimeouts : List (Nat × Nat) → Node n → Option (Node n)
  | [], s => some s
  | (entityId, deadline) :: rest, s =>
      if deadline > s.env.nowMsec then takeTimeouts rest s
      else do
        let s := { s with timer := s.timer.filter fun elt => elt ≠ (entityId, deadline) }
        let entity ← s.entityInfos entityId
        match entity.clientCmd with
        | none => takeTimeouts rest s
        | some cmd => takeTimeouts rest ((s.setEntity entityId (some { entity with clientCmd := none })).finishCmd cmd .timeout)

-- `next` is the entity that NextEntityInfo iterates to.
def checkIfHasWork (o : Options n) (s : Node n) (next : Option Nat) : Option (Node n) := do
  let s := moveFinished s.finishedList s
  let s ← takeTimeouts s.timer s
  let s ← s.cleanupExpiredChosenEntry
  match next with
  | none => some s
  | some entityId => s.tryCatchup o entityId

end PaxosStore.Certain.Node
