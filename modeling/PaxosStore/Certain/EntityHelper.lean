import PaxosStore.Certain.EntryInfoMng
import PaxosStore.Certain.Words

set_option autoImplicit false

namespace PaxosStore.Certain.Node

variable {n : Nat}

def goAndDeleteIfFailed (s : Node n) (cmd : PaxosCmd) : Node n := { s with sent := cmd :: s.sent }

-- PlogWorker::GoToPlogReqQueue; the Boolean says that the push failed.
def goToPlogReqQueue (s : Node n) (cmd : PaxosCmd) : Bool × Node n :=
  let (failed, s) := s.ask
  if failed then (true, s) else (false, { s with plogReqs := s.plogReqs ++ [cmd] })

def pushUserRsp (s : Node n) (cmd : ClientCmd) : Node n :=
  let (failed, s) := s.ask
  if failed then { s with finishedList := s.finishedList ++ [cmd] }
  else { s with userRspQueue := s.userRspQueue ++ [cmd] }

def timerRemove (s : Node n) (entityId : Nat) : Node n :=
  { s with timer := s.timer.filter fun elt => elt.1 ≠ entityId }

-- `none` denotes the failed assertion on the timeout.
def timerAdd (s : Node n) (entityId timeoutMsec : Nat) : Option (Node n) :=
  if timeoutMsec > kMaxTimeoutMsec then none
  else if s.timer.any fun elt => elt.1 = entityId then some s
  else some { s with timer := s.timer ++ [(entityId, s.env.nowMsec + timeoutMsec)] }

-- FinishClientCmd of a command that no entity holds.
def finishCmd (s : Node n) (cmd : ClientCmd) (result : RetCode) : Node n := s.pushUserRsp { cmd with result := result }

def finishClientCmd (s : Node n) (entityId : Nat) (result : RetCode) : Option (Node n) := do
  let entity ← s.entityInfos entityId
  match entity.clientCmd with
  | none => some s
  | some cmd => some (((s.timerRemove entityId).setEntity entityId (some { entity with clientCmd := none })).finishCmd cmd result)

-- Finishes the command of the entity if it is for this entry.
def finishEntryCmd (s : Node n) (key : EntryKey) (result : RetCode) : Option (Node n) := do
  let entity ← s.entityInfos key.entityId
  match entity.clientCmd with
  | none => some s
  | some cmd => if cmd.entry = key.entry then s.finishClientCmd key.entityId result else some s

def updateCatchupTimestamp (o : Options n) (s : Node n) (p : EntryPtr) : Option (Node n) := do
  let info ← s.deref p
  some (s.setEntry p.key (some { info with catchupTimestampMsec := s.env.nowMsec + o.catchupTimeoutMsec }))

def loadEntryInfo (s : Node n) (p : EntryPtr) : Option (Bool × Node n) := do
  let info ← s.deref p
  let (failed, s) := s.goToPlogReqQueue { entityId := p.key.entityId, entry := p.key.entry, plogGetRecord := true }
  if failed then some (false, s)
  else if info.uncertain then none
  else some (true, s.setEntry p.key (some { info with uncertain := true }))

def loadEntityInfo (s : Node n) (entityId : Nat) : Option (Bool × Node n) := do
  let entity ← s.entityInfos entityId
  let (failed, s) := s.goToPlogReqQueue { entityId := entityId, plogLoad := true }
  if failed then some (false, s)
  else if entity.loading then none
  else some (true, s.setEntity entityId (some { entity with loading := true }))

def storeEntryInfo (o : Options n) (s : Node n) (p : EntryPtr) : Option (Bool × Node n) := do
  let info ← s.deref p
  let entity ← s.entityOf p.key info
  let (failed, s) := s.goToPlogReqQueue
    { entityId := p.key.entityId
      entry := p.key.entry
      plogSetRecord := true
      localAcceptorId := entity.localAcceptorId
      localEntryRecord := info.machine.entryRecords entity.localAcceptorId }
  if failed then some (false, s)
  else
    let s ← updateCatchupTimestamp o s p
    let info ← s.deref p
    if info.uncertain then none
    else some (true, s.setEntry p.key (some { info with uncertain := true }))

def clearEntryInfo (s : Node n) (p : EntryPtr) : Option (Node n) := do
  let info ← s.deref p
  let _ ← s.entityOf p.key info
  let s ← (s.mark (.lost p.key info.machine.localRecord ((s.plogRecord p.key).getD {}))).finishEntryCmd p.key .entryCleanup
  s.destroyEntryInfo p

def syncToPeer (s : Node n) (p : EntryPtr) (peer : Fin n) (checkEmpty catchup : Bool) : Option (Node n) := do
  let info ← s.deref p
  let entity ← s.entityOf p.key info
  let cmd : PaxosCmd :=
    { entityId := p.key.entityId
      entry := p.key.entry
      localAcceptorId := entity.localAcceptorId
      peerAcceptorId := peer
      maxChosenEntry := entity.maxChosenEntry
      checkEmpty := checkEmpty
      catchup := catchup }
  if ¬ checkEmpty then
    some (s.goAndDeleteIfFailed
      { cmd with
        localEntryRecord := info.machine.entryRecords entity.localAcceptorId
        peerEntryRecord := info.machine.entryRecords peer })
  else
    let client ← entity.clientCmd
    some (s.goAndDeleteIfFailed { cmd with uuid := client.uuid })

-- The three broadcasts differ in the peers they skip.
def syncToPeers (s : Node n) (p : EntryPtr) (checkEmpty : Bool) (peers : List (Fin n)) : Option (Node n) :=
  peers.foldlM (fun s peer => s.syncToPeer p peer checkEmpty false) s

def broadcast (s : Node n) (p : EntryPtr) (checkEmpty : Bool) : Option (Node n) := do
  let info ← s.deref p
  let entity ← s.entityOf p.key info
  s.syncToPeers p checkEmpty ((List.finRange n).filter fun peer => peer ≠ entity.localAcceptorId)

def broadcastOnAccept (s : Node n) (p : EntryPtr) : Option (Node n) := do
  let info ← s.deref p
  let entity ← s.entityOf p.key info
  s.syncToPeers p false ((List.finRange n).filter fun peer =>
    peer ≠ entity.localAcceptorId ∧ (some peer = info.peerToSync ∨ info.machine.hasPromisedMyProposal peer))

def broadcastOnChosen (s : Node n) (p : EntryPtr) : Option (Node n) := do
  let info ← s.deref p
  let entity ← s.entityOf p.key info
  s.syncToPeers p false ((List.finRange n).filter fun peer =>
    peer ≠ entity.localAcceptorId ∧ ¬ (info.machine.entryRecords peer).chosen ∧
      (some peer = info.peerToSync ∨ info.machine.hasAcceptedMyProposal peer))

def catchupToPeer (s : Node n) (p : EntryPtr) : Option (Node n) := do
  let info ← s.deref p
  let entity ← s.entityOf p.key info
  s.syncToPeer p entity.activePeerAcceptorId false true

-- The watermarks after the entry is known to be chosen.
def chosenWatermarks (entity : EntityInfo n) (entry : Nat) (mine : Bool) : EntityInfo n :=
  let entity := if entity.maxChosenEntry < entry then { entity with maxChosenEntry := entry } else entity
  if mine ∧ (entity.preAuthEntry = kInvalidEntry ∨ entity.preAuthEntry < entry) then { entity with preAuthEntry := entry }
  else entity

def updateByChosenEntry (o : Options n) (s : Node n) (p : EntryPtr) : Option (Node n) := do
  let info ← s.deref p
  let entity ← s.entityOf p.key info
  if info.machine.entryState ≠ .chosen then some s
  else
    let entity := chosenWatermarks entity p.key.entry (info.machine.hasAcceptedMyProposal entity.localAcceptorId)
    if ¬ info.machine.localRecord.chosen then none
    else if entity.maxContChosenEntry + 1 = p.key.entry then
      let s := s.setEntity p.key.entityId (some { entity with maxContChosenEntry := entity.maxContChosenEntry + 1 })
      let s ← s.moveToOldChosenList o p
      let (failed, s) := s.ask
      let s := s.mark (.delivered p.key info.machine.localRecord (s.plogRecord p.key) (!failed))
      some (if failed then s
        else { s with dbReqs := s.dbReqs ++
          [{ cmdId := .write, entityId := p.key.entityId, entry := p.key.entry, value := info.machine.localRecord.value }] })
    else some (s.setEntity p.key.entityId (some entity))

def createEntryInfoIfMiss (o : Options n) (s : Node n) (entityId entry : Nat) :
    Option (RetCode × Option EntryPtr × Node n) := do
  match s.findEntryInfo ⟨entityId, entry⟩ with
  | some p => some (.ok, some p, s)
  | none =>
      let (room, s) ← s.makeEnoughRoom o
      if ¬ room then some (.entryLimited, none, s)
      else
        let (p, s) ← s.createEntryInfo o entityId entry
        let entity ← s.entityInfos entityId
        if entity.maxPlogEntry < entry then some (.ok, some p, s)
        else
          let (loaded, s) ← s.loadEntryInfo p
          if loaded then some (.ok, some p, s)
          else
            let s ← s.destroyEntryInfo p
            some (.loadEntryFailed, none, s)

-- [ip:32][timestamp:12][inc:20]
def uuidBase (ip nowSec : Nat) : Nat := ip * 2 ^ 32 + u32 (nowSec * 2 ^ 20)

def createEntityInfo (o : Options n) (s : Node n) (entityId : Nat) : Node n :=
  let localId := s.route entityId
  { s.setEntity entityId (some
      { number := s.entityCnt
        entityId := entityId
        localAcceptorId := localId
        preAuthEntry := if localId.val = 0 then 0 else kInvalidEntry
        activePeerAcceptorId := ⟨(localId + 1) % n, Nat.mod_lt _ localId.pos⟩
        uuidBase := uuidBase o.localIp (s.env.nowMsec / 1000) }) with
    entityCnt := s.entityCnt + 1 }

-- EntityInfoMng::MakeEnoughRoom is always true. The first answer is the route's.
def createEntityInfoIfMiss (o : Options n) (s : Node n) (entityId : Nat) : Option (RetCode × Node n) := do
  match s.entityInfos entityId with
  | some _ => some (.ok, s)
  | none =>
      let (lost, s) := s.ask
      if lost then some (.localAcceptorIdErr, s)
      else
        let s := s.createEntityInfo o entityId
        let (loaded, s) ← s.loadEntityInfo entityId
        if loaded then some (.ok, s.mark (.opened entityId)) else some (.loadEntityFailed, s.setEntity entityId none)

-- The entry to catch up with, or `none` if a limit stops the loop.
def entryToCatchup (o : Options n) (s : Node n) (entityId curr : Nat) : Option (Option EntryPtr × Node n) := do
  match s.findEntryInfo ⟨entityId, curr⟩ with
  | some p => some (some p, s)
  | none =>
      let (limited, s) := s.ask
      if limited then some (none, s)
      else
        let (ret, found, s) ← s.createEntryInfoIfMiss o entityId curr
        if ret ≠ .ok then some (none, s) else some (found, s)

-- One turn of the loop in TryCatchup; the Boolean says whether the loop goes on.
def catchupEntry (o : Options n) (s : Node n) (entityId curr : Nat) : Option (Bool × Node n) := do
  let (found, s) ← s.entryToCatchup o entityId curr
  match found with
  | none => some (false, s)
  | some p =>
    let info ← s.deref p
    if info.uncertain then some (true, s)
    else if info.machine.entryState = .chosen then
      let s ← s.updateByChosenEntry o p
      some (true, s)
    else if info.catchupTimestampMsec > s.env.nowMsec then some (true, s)
    else
      let (limited, s) := s.ask
      if limited then some (false, s)
      else
        let s := s.setEntry p.key (some { info with catchupTimes := info.catchupTimes + 1 })
        let s ← s.catchupToPeer p
        let s ← s.updateCatchupTimestamp o p
        some (true, s)

def catchupEntries (o : Options n) (entityId : Nat) : List Nat → Node n → Option (Node n)
  | [], s => some s
  | curr :: rest, s => do
      let (go, s) ← s.catchupEntry o entityId curr
      if go then catchupEntries o entityId rest s else some s

-- The window of TryCatchup; the sum is one of uint64.
def catchupDest (o : Options n) (entity : EntityInfo n) : Nat :=
  let dest := entity.maxChosenEntry
  let last := u64 (entity.maxContChosenEntry + o.maxCatchupNum)
  let dest := if dest > last then last else dest
  if entity.maxContChosenEntry < entity.maxCatchupEntry then entity.maxCatchupEntry else dest

def tryCatchup (o : Options n) (s : Node n) (entityId : Nat) : Option (Node n) := do
  let entity ← s.entityInfos entityId
  if entity.maxContChosenEntry > entity.maxChosenEntry then none
  else if entity.maxContChosenEntry = entity.maxChosenEntry then some s
  else if entity.recoverPending then some s
  else
    let dest := catchupDest o entity
    catchupEntries o entityId (List.range' (entity.maxContChosenEntry + 1) (dest - entity.maxContChosenEntry))
      (s.setEntity entityId (some { entity with maxCatchupEntry := dest }))

def triggerRecover (s : Node n) (entityId : Nat) : Option (RetCode × Node n) := do
  let entity ← s.entityInfos entityId
  if entity.recoverPending then some (.entityLoading, s)
  else if entity.recoverTimestampMsec + 60 * 1000 ≥ s.env.nowMsec then some (.ok, s)
  else
    let (failed, s) := s.ask
    if failed then some (.implOther, s)
    else
      some (.ok, { s.setEntity entityId (some { entity with recoverPending := true }) with
        recoverReqs := s.recoverReqs ++ [{ entityId := entityId }] })

-- The client command takes the promised number as its value id.
def setValueId (s : Node n) (entityId valueId : Nat) : Option (Node n) := do
  let entity ← s.entityInfos entityId
  let cmd ← entity.clientCmd
  some (s.setEntity entityId (some { entity with clientCmd := some { cmd with valueId := valueId } }))

def setMachine (s : Node n) (p : EntryPtr) (machine : EntryStateMachine n) : Option (Node n) := do
  let info ← s.deref p
  some (s.setEntry p.key (some { info with machine := machine }))

-- The end of both branches of HandleWriteCmd.
def storeForWrite (o : Options n) (s : Node n) (p : EntryPtr) : Option (RetCode × Node n) := do
  let (stored, s) ← s.storeEntryInfo o p
  if stored then
    let info ← s.deref p
    some (.waitBroadcast, s.setEntry p.key (some { info with broadcast := true }))
  else
    let s ← s.clearEntryInfo p
    let s ← s.finishClientCmd p.key.entityId .storeEntryFailed
    some (.storeEntryFailed, s)

def handleWriteCmd (o : Options n) (s : Node n) (p : EntryPtr) : Option (RetCode × Node n) := do
  let info ← s.deref p
  let entity ← s.entityOf p.key info
  let cmd ← entity.clientCmd
  let preAuth := o.enablePreAuth && entity.preAuthEntry ≠ kInvalidEntry && entity.preAuthEntry + 1 = cmd.entry
  let (ret, machine) ← info.machine.promise preAuth
  let s ← (s.mark (.promised p.key info.machine preAuth)).setMachine p machine
  if ret ≠ .ok then
    let s ← s.finishClientCmd p.key.entityId .statePromiseErr
    some (.statePromiseErr, s)
  else
    let s ← s.setValueId p.key.entityId machine.getLocalPromisedNum
    if ¬ machine.isLocalAcceptable then s.storeForWrite o p
    else
      let (ret, prepared, machine) ← machine.accept cmd.value machine.getLocalPromisedNum cmd.uuids
      let s ← s.setMachine p machine
      if ret ≠ .ok then
        let s ← s.finishClientCmd p.key.entityId .stateAcceptErr
        some (.stateAcceptErr, s)
      else if ¬ prepared then none
      else (s.mark (.proposed p.key machine.localRecord.proposal)).storeForWrite o p

def handleReadCmd (o : Options n) (s : Node n) (p : EntryPtr) : Option (RetCode × Node n) := do
  let info ← s.deref p
  if ¬ info.machine.isLocalEmpty then s.handleWriteCmd o p
  else
    let machine ← info.machine.resetEmptyFlags
    let s ← s.setMachine p machine
    let s ← s.broadcast p true
    some (.waitBroadcast, s)

def dumpEntry (o : Options n) (s : Node n) (cmd : ClientCmd) : Option (Node n) := do
  let (ret, s) ← s.createEntityInfoIfMiss o cmd.entityId
  if ret ≠ .ok then some s
  else
    let entity ← s.entityInfos cmd.entityId
    let s := s.mark (.dumped cmd.key entity.loading entity.maxPlogEntry entity.maxContChosenEntry (s.entryInfos cmd.key).isSome)
    let (_, _, s) ← s.createEntryInfoIfMiss o cmd.entityId cmd.entry
    some s

-- uint64 subtraction of the two clock readings.
def elapsedMsec (nowMsec timestampUsec : Nat) : Nat := (nowMsec + 2 ^ 64 - timestampUsec / 1000) % 2 ^ 64

-- HandleClientCmd from where the entity is known to be loaded.
def startClientCmd (o : Options n) (s : Node n) (cmd : ClientCmd) : Option (RetCode × Node n) := do
  let entity ← s.entityInfos cmd.entityId
  if cmd.cmdId = .load then
    let s ← s.finishClientCmd cmd.entityId .ok
    some (.ok, s)
  else if cmd.entry ≠ entity.maxChosenEntry + 1 then
    let s ← s.finishClientCmd cmd.entityId .entryNotMatch
    let s ← s.tryCatchup o cmd.entityId
    some (.entryNotMatch, s)
  else
    let (ret, found, s) ← s.createEntryInfoIfMiss o cmd.entityId cmd.entry
    if ret ≠ .ok then
      let s ← s.finishClientCmd cmd.entityId ret
      some (ret, s)
    else
      let p ← found
      let info ← s.deref p
      if info.uncertain then
        let s ← s.finishClientCmd cmd.entityId .entryUncertain
        some (.entryUncertain, s)
      else if cmd.cmdId = .write then s.handleWriteCmd o p
      else if cmd.cmdId = .read then
        let entity ← s.entityInfos cmd.entityId
        let client ← entity.clientCmd
        let s := s.setEntity cmd.entityId (some
          { entity with
            clientCmd := some { client with uuid := entity.uuidBase }
            uuidBase := entity.uuidBase + 1 })
        (s.mark (.reading p.key entity.uuidBase)).handleReadCmd o p
      else some (.unknown, s)

def handleClientCmd (o : Options n) (s : Node n) (cmd : ClientCmd) : Option (RetCode × Node n) := do
  let (ret, s) ← s.createEntityInfoIfMiss o cmd.entityId
  if ret ≠ .ok then some (ret, s.finishCmd cmd ret)
  else
    let entity ← s.entityInfos cmd.entityId
    if cmd.cmdId = .catchup then
      if entity.loading then some (.entityLoading, s)
      else
        let s ← s.tryCatchup o cmd.entityId
        some (.ok, s)
    else if cmd.cmdId = .recover then s.triggerRecover cmd.entityId
    else if cmd.cmdId = .dumpEntry then
      let s ← s.dumpEntry o cmd
      some (.ok, s)
    else if entity.clientCmd.isSome then some (.clientCmdConflict, s.finishCmd cmd .clientCmdConflict)
    else
      let elapsed := elapsedMsec s.env.nowMsec cmd.timestampUsec
      let timeout := if cmd.timeoutMsec = 0 then o.clientCmdTimeoutMsec else cmd.timeoutMsec
      if elapsed > timeout then some (.timeout, s.finishCmd cmd .timeout)
      else
        let s ← (s.setEntity cmd.entityId (some { entity with clientCmd := some cmd })).timerAdd cmd.entityId (u32 (timeout - elapsed))
        if entity.loading then some (.entityLoading, s) else s.startClientCmd o cmd

end PaxosStore.Certain.Node
