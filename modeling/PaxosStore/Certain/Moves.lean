import PaxosStore.Certain.PlogWorker
import PaxosStore.Certain.MachineSteps
import Mathlib.Logic.Relation

set_option autoImplicit false

namespace PaxosStore.Certain

-- What of a node the statements about runs look at, and the commands that the
-- handler has in its hands.
structure Site (n : Nat) where
  route : Nat → Fin n
  entityInfos : Nat → Option (EntityInfo n)
  entryInfos : EntryKey → Option (EntryInfo n)
  plogReqs : List PaxosCmd
  plogRsps : List PaxosCmd
  dbReqs : List ClientCmd
  sent : List PaxosCmd
  plog : List (EntryKey × EntryRecord)
  marks : List (Mark n)
  answered : ClientCmd → Prop
  hand : List PaxosCmd

def Node.site {n : Nat} (s : Node n) (hand : List PaxosCmd) : Site n where
  route := s.route
  entityInfos := s.entityInfos
  entryInfos := s.entryInfos
  plogReqs := s.plogReqs
  plogRsps := s.plogRsps
  dbReqs := s.dbReqs
  sent := s.sent
  plog := s.plog
  marks := s.marks
  answered := fun cmd => cmd ∈ s.userRspQueue ∨ cmd ∈ s.finishedList
  hand := hand

namespace Site

variable {n : Nat}

def setEntity (s : Site n) (entityId : Nat) (info : Option (EntityInfo n)) : Site n :=
  { s with entityInfos := Function.update s.entityInfos entityId info }

def setEntry (s : Site n) (key : EntryKey) (info : Option (EntryInfo n)) : Site n :=
  { s with entryInfos := Function.update s.entryInfos key info }

def note (s : Site n) (m : Mark n) : Site n := { s with marks := m :: s.marks }

def plogRecord (s : Site n) (key : EntryKey) : Option EntryRecord :=
  (s.plog.find? fun write => write.1 = key).map fun write => write.2

-- The requests the helper puts into the plog queues.
def loadReq (entityId : Nat) : PaxosCmd := { entityId := entityId, plogLoad := true }

def getReq (key : EntryKey) : PaxosCmd := { entityId := key.entityId, entry := key.entry, plogGetRecord := true }

def setReq (key : EntryKey) (id : Fin n) (record : EntryRecord) : PaxosCmd :=
  { entityId := key.entityId, entry := key.entry, plogSetRecord := true, localAcceptorId := id, localEntryRecord := record }

def syncCmd (key : EntryKey) (info : EntryInfo n) (entity : EntityInfo n) (peer : Fin n) (catchup : Bool) : PaxosCmd :=
  { entityId := key.entityId
    entry := key.entry
    localAcceptorId := entity.localAcceptorId
    peerAcceptorId := peer
    maxChosenEntry := entity.maxChosenEntry
    catchup := catchup
    localEntryRecord := info.machine.entryRecords entity.localAcceptorId
    peerEntryRecord := info.machine.entryRecords peer }

def probeCmd (key : EntryKey) (entity : EntityInfo n) (uuid : Nat) (peer : Fin n) : PaxosCmd :=
  { entityId := key.entityId
    entry := key.entry
    localAcceptorId := entity.localAcceptorId
    peerAcceptorId := peer
    maxChosenEntry := entity.maxChosenEntry
    checkEmpty := true
    uuid := uuid }

-- A command in the local view of the entity it is for.
def Ours (entity : EntityInfo n) (cmd : PaxosCmd) : Prop :=
  cmd.localAcceptorId = entity.localAcceptorId ∧ cmd.peerAcceptorId ≠ cmd.localAcceptorId ∧ entity.loading = false

inductive Sendable (s : Site n) : PaxosCmd → Prop where
  | sync (key : EntryKey) (info : EntryInfo n) (entity : EntityInfo n) (peer : Fin n) (catchup : Bool)
      (live : s.entryInfos key = some info) (certain : info.uncertain = false)
      (known : s.entityInfos key.entityId = some entity) : Sendable s (syncCmd key info entity peer catchup)
  | probe (key : EntryKey) (entity : EntityInfo n) (client : ClientCmd) (peer : Fin n)
      (known : s.entityInfos key.entityId = some entity) (asking : entity.clientCmd = some client) :
      Sendable s (probeCmd key entity client.uuid peer)
  | fastFail (cmd : PaxosCmd) (entity : EntityInfo n) (held : cmd ∈ s.hand) (known : s.entityInfos cmd.entityId = some entity)
      (ours : Ours entity cmd) (asks : cmd.checkEmpty = true) (old : cmd.entry ≤ entity.maxChosenEntry) :
      Sendable s { cmd with maxChosenEntry := entity.maxChosenEntry, result := .fastFailed, checkEmpty := false }
  | emptyAnswer (cmd : PaxosCmd) (entity : EntityInfo n) (info : EntryInfo n) (held : cmd ∈ s.hand)
      (known : s.entityInfos cmd.entityId = some entity) (ours : Ours entity cmd) (asks : cmd.checkEmpty = true)
      (new : entity.maxChosenEntry < cmd.entry) (live : s.entryInfos cmd.key = some info) (certain : info.uncertain = false)
      (empty : info.machine.isLocalEmpty = true) : Sendable s { cmd with checkEmpty := false }
  | chosen (cmd : PaxosCmd) (entity : EntityInfo n) (info : EntryInfo n) (held : cmd ∈ s.hand)
      (known : s.entityInfos cmd.entityId = some entity) (ours : Ours entity cmd) (live : s.entryInfos cmd.key = some info)
      (marked : .answered cmd.key info.uncertain (info.machine.entryRecords entity.localAcceptorId) ∈ s.marks) :
      Sendable s ({ cmd with localEntryRecord := info.machine.entryRecords entity.localAcceptorId }.setChosen true)

-- A restored record and the mark it leaves.
def restoredRecord (machine : EntryStateMachine n) (record : EntryRecord) : EntryRecord :=
  if record.hasValueIdOnly then machine.restoreValueInRecord record else record

def restoreMark (machine : EntryStateMachine n) (key : EntryKey) (record : EntryRecord) : Mark n :=
  .restored key (machine.getByValueId record.valueId).isSome

-- Where the commands in hand come from; `arrives` is what the network delivers.
inductive Holdable (arrives : PaxosCmd → Prop) (s : Site n) : PaxosCmd → Prop where
  | arrive (cmd : PaxosCmd) (delivered : arrives cmd) : Holdable arrives s cmd.parsed
  | switch (cmd : PaxosCmd) (entity : EntityInfo n) (held : cmd ∈ s.hand) (known : s.entityInfos cmd.entityId = some entity) :
      Holdable arrives s (cmd.switchToLocalView entity.localAcceptorId)
  | waiting (key : EntryKey) (info : EntryInfo n) (peer : Fin n) (cmd : PaxosCmd) (live : s.entryInfos key = some info)
      (slot : info.waitingMsgs peer = some cmd) : Holdable arrives s cmd
  | restored (cmd : PaxosCmd) (info : EntryInfo n) (held : cmd ∈ s.hand) (live : s.entryInfos cmd.key = some info)
      (first : cmd.localEntryRecord.hasValueIdOnly = true → restoreMark info.machine cmd.key cmd.localEntryRecord ∈ s.marks)
      (second : cmd.peerEntryRecord.hasValueIdOnly = true → restoreMark info.machine cmd.key cmd.peerEntryRecord ∈ s.marks) :
      Holdable arrives s
        { cmd with
          localEntryRecord := restoredRecord info.machine cmd.localEntryRecord
          peerEntryRecord := restoredRecord info.machine cmd.peerEntryRecord }

-- What a PaxosCmd makes of the machine: an Update, then an Accept if that gave
-- a majority of promises. The list is what it leaves in the marks.
inductive Learns (entity : EntityInfo n) (key : EntryKey) (peer : Fin n) (record : EntryRecord) (machine : EntryStateMachine n) :
    EntryStateMachine n → List (Mark n) → Prop where
  | update (next : EntryStateMachine n) (code : RetCode) (done : machine.update peer record = some (code, next)) :
      Learns entity key peer record machine next [.handed key peer record]
  | propose (next last : EntryStateMachine n) (done : machine.update peer record = some (.ok, next))
      (major : next.entryState = .majorityPromise)
      (accepted : next.accept (Node.valueToPropose entity key.entry next.getLocalPromisedNum).1
        (Node.valueToPropose entity key.entry next.getLocalPromisedNum).2.1
        (Node.valueToPropose entity key.entry next.getLocalPromisedNum).2.2 = some (.ok, true, last)) :
      Learns entity key peer record machine last [.proposed key last.localRecord.proposal, .handed key peer record]
  | repropose (next last : EntryStateMachine n) (done : machine.update peer record = some (.ok, next))
      (major : next.entryState = .majorityPromise)
      (accepted : next.accept (Node.valueToPropose entity key.entry next.getLocalPromisedNum).1
        (Node.valueToPropose entity key.entry next.getLocalPromisedNum).2.1
        (Node.valueToPropose entity key.entry next.getLocalPromisedNum).2.2 = some (.ok, false, last)) :
      Learns entity key peer record machine last [.handed key peer record]

-- What a client command makes of the machine: a Promise, and an Accept if the
-- promise is for a first round.
inductive Writes (key : EntryKey) (client : ClientCmd) (machine : EntryStateMachine n) :
    EntryStateMachine n → Nat → List (Mark n) → Prop where
  | promise (preAuth : Bool) (next : EntryStateMachine n) (done : machine.promise preAuth = some (.ok, next))
      (closed : next.isLocalAcceptable = false) :
      Writes key client machine next next.getLocalPromisedNum [.promised key machine preAuth]
  | propose (preAuth : Bool) (next last : EntryStateMachine n) (done : machine.promise preAuth = some (.ok, next))
      (accepted : next.accept client.value next.getLocalPromisedNum client.uuids = some (.ok, true, last)) :
      Writes key client machine last next.getLocalPromisedNum
        [.proposed key last.localRecord.proposal, .promised key machine preAuth]

-- The marks of a read that has taken its uuid already.
def Numbered (key : EntryKey) (entity : EntityInfo n) (reading : List (Mark n)) : Prop :=
  reading = [] ∨ ∃ uuid, uuid < entity.uuidBase ∧ reading = [.reading key uuid]

-- A client command as it starts: a read takes its uuid first.
inductive Starts (key : EntryKey) (entity : EntityInfo n) (client : ClientCmd) : ClientCmd → Nat → List (Mark n) → Prop where
  | plain : Starts key entity client client entity.uuidBase []
  | read (kind : client.cmdId = .read) :
      Starts key entity client { client with uuid := entity.uuidBase } (entity.uuidBase + 1) [.reading key entity.uuidBase]

-- The marks of computations whose result is not installed.
inductive Notable (s : Site n) : List (Mark n) → Prop where
  | dumped (key : EntryKey) (entity : EntityInfo n) (known : s.entityInfos key.entityId = some entity) :
      Notable s [.dumped key entity.loading entity.maxPlogEntry entity.maxContChosenEntry (s.entryInfos key).isSome]
  | restored (key : EntryKey) (info : EntryInfo n) (record : EntryRecord) (live : s.entryInfos key = some info) :
      Notable s [restoreMark info.machine key record]
  | answered (key : EntryKey) (entity : EntityInfo n) (info : EntryInfo n) (known : s.entityInfos key.entityId = some entity)
      (live : s.entryInfos key = some info) :
      Notable s [.answered key info.uncertain (info.machine.entryRecords entity.localAcceptorId)]
  | learnt (entity : EntityInfo n) (info : EntryInfo n) (peer : Fin n) (cmd : PaxosCmd) (next : EntryStateMachine n)
      (marks : List (Mark n)) (held : cmd ∈ s.hand) (known : s.entityInfos cmd.entityId = some entity) (ours : Ours entity cmd)
      (sender : cmd.peerAcceptorId = peer) (live : s.entryInfos cmd.key = some info) (certain : info.uncertain = false)
      (learns : Learns entity cmd.key peer cmd.peerEntryRecord info.machine next marks) : 
      Notable s (.lost cmd.key next.localRecord ((s.plogRecord cmd.key).getD {}) :: marks)
  | wrote (entity : EntityInfo n) (info : EntryInfo n) (client : ClientCmd) (key : EntryKey) (next : EntryStateMachine n)
      (valueId : Nat) (marks reading : List (Mark n)) (known : s.entityInfos key.entityId = some entity)
      (live : s.entryInfos key = some info) (certain : info.uncertain = false)
      (writes : Writes key client info.machine next valueId marks) (numbered : Numbered key entity reading) :
      Notable s (.lost key next.localRecord ((s.plogRecord key).getD {}) :: (marks ++ reading))

-- UpdateByChosenEntry on the entity.
def raisedBy (entity : EntityInfo n) (entry : Nat) (mine : Bool) : EntityInfo n :=
  let entity := Node.chosenWatermarks entity entry mine
  if entity.maxContChosenEntry + 1 = entry then { entity with maxContChosenEntry := entity.maxContChosenEntry + 1 } else entity

def recoveredBy (entity : EntityInfo n) (entry timestamp : Nat) : EntityInfo n :=
  { entity with
    recoverPending := false
    recoverTimestampMsec := timestamp
    maxChosenEntry := max entity.maxChosenEntry entry
    maxContChosenEntry := max entity.maxContChosenEntry entry
    maxCatchupEntry := max entity.maxCatchupEntry (max entity.maxContChosenEntry entry)
    maxPlogEntry := max entity.maxPlogEntry entry }

def dbReq (key : EntryKey) (value : Bytes) : ClientCmd :=
  { cmdId := .write, entityId := key.entityId, entry := key.entry, value := value }

-- The entry goes to the db worker if it is the next one in order.
def handOver (s : Site n) (key : EntryKey) (entity : EntityInfo n) (record : EntryRecord) (pushed : Bool) : Site n :=
  if entity.maxContChosenEntry + 1 = key.entry then
    { s with
      dbReqs := if pushed then s.dbReqs ++ [dbReq key record.value] else s.dbReqs
      marks := .delivered key record (s.plogRecord key) pushed :: s.marks }
  else s

def raise (s : Site n) (key : EntryKey) (entity : EntityInfo n) (machine : EntryStateMachine n) (pushed : Bool) : Site n :=
  (s.handOver key entity machine.localRecord pushed).setEntity key.entityId
    (some (raisedBy entity key.entry (machine.hasAcceptedMyProposal entity.localAcceptorId)))

def raiseIfChosen (s : Site n) (key : EntryKey) (entity : EntityInfo n) (machine : EntryStateMachine n) (pushed : Bool) : Site n :=
  if machine.entryState = .chosen then s.raise key entity machine pushed else s

inductive EntityMove (s : Site n) (entityId : Nat) (entity : EntityInfo n) : EntityInfo n → Prop where
  | catchup (dest : Nat) : EntityMove s entityId entity { entity with maxCatchupEntry := dest }
  | recover (pending : Bool) (timestamp : Nat) :
      EntityMove s entityId entity { entity with recoverPending := pending, recoverTimestampMsec := timestamp }
  | heard (cmd : PaxosCmd) (peer : Fin n) (held : cmd ∈ s.hand) (same : cmd.entityId = entityId) (ours : Ours entity cmd)
      (ahead : entity.maxChosenEntry < cmd.maxChosenEntry) :
      EntityMove s entityId entity { entity with activePeerAcceptorId := peer, maxChosenEntry := cmd.maxChosenEntry }
  | park (cmd : PaxosCmd) (held : cmd ∈ s.hand) (same : cmd.entityId = entityId) (loading : entity.loading = true)
      (plain : cmd.plogLoad = false) :
      EntityMove s entityId entity { entity with waitingMsg := some cmd }
  | ask (client : ClientCmd) (same : client.entityId = entityId) (kind : client.cmdId ≠ .replay) (idle : entity.clientCmd = none)
      (loading : entity.loading = true) :
      EntityMove s entityId entity { entity with clientCmd := some client }
  | take : EntityMove s entityId entity { entity with clientCmd := none }
  | number : EntityMove s entityId entity { entity with uuidBase := entity.uuidBase + 1 }

inductive EntryMove (s : Site n) (key : EntryKey) (info : EntryInfo n) : EntryInfo n → Prop where
  | book (broadcast compensateMsgs : Bool) (peerToSync : Option (Fin n)) (totalSize expired timestamp times : Nat) :
      EntryMove s key info
        { info with
          broadcast := broadcast
          compensateMsgs := compensateMsgs
          peerToSync := peerToSync
          totalSize := totalSize
          expiredTimestampSec := expired
          catchupTimestampMsec := timestamp
          catchupTimes := times }
  | slot (cmd : PaxosCmd) (peer : Fin n) (entity : EntityInfo n) (held : cmd ∈ s.hand) (same : cmd.key = key)
      (known : s.entityInfos key.entityId = some entity) (ours : Ours entity cmd) (sender : cmd.peerAcceptorId = peer)
      (uncertain : info.uncertain = true) :
      EntryMove s key info { info with waitingMsgs := Function.update info.waitingMsgs peer (some cmd) }
  | unslot (peer : Fin n) : EntryMove s key info { info with waitingMsgs := Function.update info.waitingMsgs peer none }
  | count (cmd : PaxosCmd) (peer : Fin n) (entity : EntityInfo n) (client : ClientCmd) (held : cmd ∈ s.hand)
      (same : cmd.key = key) (known : s.entityInfos key.entityId = some entity) (ours : Ours entity cmd)
      (sender : cmd.peerAcceptorId = peer) (asking : entity.clientCmd = some client) (reads : client.cmdId = .read)
      (matched : cmd.uuid = client.uuid) (empty : info.machine.isLocalEmpty = true) :
      EntryMove s key info { info with machine := info.machine.setEmptyFlag peer }

-- Why a client command may be answered with kRetCodeOk.
inductive Justified (s : Site n) (entityId : Nat) (client : ClientCmd) : Prop where
  | chosen (entity : EntityInfo n) (info : EntryInfo n) (known : s.entityInfos entityId = some entity)
      (live : s.entryInfos ⟨entityId, client.entry⟩ = some info) (certain : info.uncertain = false)
      (closed : info.machine.entryState = .chosen)
      (same : client.valueId = (info.machine.entryRecords entity.localAcceptorId).valueId)
  | empty (key : EntryKey) (info : EntryInfo n) (cmd : PaxosCmd) (same : key.entityId = entityId) (held : cmd ∈ s.hand)
      (about : cmd.key = key) (live : s.entryInfos key = some info) (kind : client.cmdId = .read)
      (matched : cmd.uuid = client.uuid) (empty : info.machine.isLocalEmpty = true)
      (major : info.machine.isMajorityEmpty = true)

-- A new EntryInfo is for an entry above max_cont_chosen_entry of a loaded
-- entity, unless a dump asked for it.
def Openable (s : Site n) (entity : EntityInfo n) (key : EntryKey) : Prop :=
  entity.loading = false ∧ entity.maxContChosenEntry < key.entry ∨
    .dumped key entity.loading entity.maxPlogEntry entity.maxContChosenEntry false ∈ s.marks

structure Blank (entity : EntityInfo n) (flags : Fin n → Bool) (info : EntryInfo n) : Prop where
  owner : info.entityNumber = entity.number
  slots : info.waitingMsgs = fun _ => none
  machine : info.machine = EntryStateMachine.create entity.localAcceptorId flags

def destroyedMark (s : Site n) (entity : EntityInfo n) (key : EntryKey) : Mark n :=
  .destroyed key entity.maxPlogEntry entity.maxContChosenEntry (s.plogRecord key).isSome

def maxEntryOf (plog : List (EntryKey × EntryRecord)) (entityId : Nat) : Nat :=
  plog.foldl (fun largest write => if write.1.entityId = entityId then max largest write.1.entry else largest) 0

-- A plog operation on one entry.
def isOp (cmd : PaxosCmd) : Bool := !cmd.plogReturnMsg && !cmd.plogLoad && (cmd.plogSetRecord || cmd.plogGetRecord)

-- Everything a node can do, one change at a time. The load response stays in
-- the hand until the parked command is taken.
inductive Move (arrives : PaxosCmd → Prop) (s : Site n) : Site n → Prop where
  | hold (cmd : PaxosCmd) (allowed : Holdable arrives s cmd) : Move arrives s { s with hand := cmd :: s.hand }
  | release (rest : List PaxosCmd) (fewer : ∀ cmd ∈ rest, cmd ∈ s.hand)
      (tokens : ∀ cmd ∈ s.hand, cmd.plogLoad = true → cmd ∈ rest) : Move arrives s { s with hand := rest }
  | unload (cmd : PaxosCmd) (rest : List PaxosCmd) (held : s.hand = cmd :: rest)
      (idle : ∀ entity, s.entityInfos cmd.entityId = some entity → entity.clientCmd = none) : Move arrives s { s with hand := rest }
  | note (marks : List (Mark n)) (allowed : Notable s marks) : Move arrives s { s with marks := marks ++ s.marks }
  | send (cmd : PaxosCmd) (allowed : Sendable s cmd) : Move arrives s { s with sent := cmd :: s.sent }
  | entity (entityId : Nat) (old new : EntityInfo n) (known : s.entityInfos entityId = some old)
      (allowed : EntityMove s entityId old new) : Move arrives s (s.setEntity entityId (some new))
  | recovered (entityId entry timestamp : Nat) (old : EntityInfo n) (known : s.entityInfos entityId = some old) :
      Move arrives s ((s.setEntity entityId (some (recoveredBy old entry timestamp))).note (.recovered entityId entry))
  | chosen (key : EntryKey) (entity : EntityInfo n) (info : EntryInfo n) (pushed : Bool) (live : s.entryInfos key = some info)
      (certain : info.uncertain = false) (known : s.entityInfos key.entityId = some entity)
      (closed : info.machine.entryState = .chosen) : Move arrives s (s.raise key entity info.machine pushed)
  | finish (entityId valueId : Nat) (old : EntityInfo n) (client : ClientCmd) (result : RetCode)
      (known : s.entityInfos entityId = some old) (asking : old.clientCmd = some client)
      (fair : result = .ok → valueId = client.valueId ∧ Justified s entityId client) :
      Move arrives s
        { s.setEntity entityId (some { old with clientCmd := none }) with
          answered := fun cmd => cmd = { client with valueId := valueId, result := result } ∨ s.answered cmd }
  | reject (client : ClientCmd) (fair : client.result = .ok → client.cmdId = .load) :
      Move arrives s { s with answered := fun cmd => cmd = client ∨ s.answered cmd }
  | newEntity (entityId : Nat) (new : EntityInfo n) (absent : s.entityInfos entityId = none) (loading : new.loading = true)
      (home : new.localAcceptorId = s.route entityId) (fresh : new.maxContChosenEntry = 0 ∧ new.maxChosenEntry = 0 ∧ new.maxPlogEntry = 0)
      (idle : new.clientCmd = none) (quiet : new.waitingMsg = none) :
      Move arrives s { (s.setEntity entityId (some new)).note (.opened entityId) with plogReqs := s.plogReqs ++ [loadReq entityId] }
  | askPlog (cmd : PaxosCmd) (entity : EntityInfo n) (held : cmd ∈ s.hand) (known : s.entityInfos cmd.entityId = some entity)
      (ours : Ours entity cmd) : Move arrives s { s with plogReqs := s.plogReqs ++ [{ cmd with plogReturnMsg := true }] }
  | entry (key : EntryKey) (old new : EntryInfo n) (live : s.entryInfos key = some old) (allowed : EntryMove s key old new) :
      Move arrives s (s.setEntry key (some new))
  | createFresh (key : EntryKey) (entity : EntityInfo n) (flags : Fin n → Bool) (pending : Option ClientCmd) (info : EntryInfo n)
      (absent : s.entryInfos key = none) (known : s.entityInfos key.entityId = some entity) (openable : Openable s entity key)
      (seen : entity.clientCmd = none ∨ entity.clientCmd = pending)
      (beyond : entity.maxPlogEntry < key.entry) (blank : Blank entity flags info) (certain : info.uncertain = false) :
      Move arrives s ((s.setEntry key (some info)).note (.created key flags pending))
  | createLoading (key : EntryKey) (entity : EntityInfo n) (flags : Fin n → Bool) (pending : Option ClientCmd) (info : EntryInfo n)
      (absent : s.entryInfos key = none) (known : s.entityInfos key.entityId = some entity) (openable : Openable s entity key)
      (seen : entity.clientCmd = none ∨ entity.clientCmd = pending) (blank : Blank entity flags info)
      (uncertain : info.uncertain = true) :
      Move arrives s
        { (s.setEntry key (some info)).note (.created key flags pending) with plogReqs := s.plogReqs ++ [getReq key] }
  | createGone (key : EntryKey) (entity : EntityInfo n) (flags : Fin n → Bool) (pending : Option ClientCmd)
      (absent : s.entryInfos key = none) (known : s.entityInfos key.entityId = some entity) :
      Move arrives s ((s.note (.created key flags pending)).note (destroyedMark s entity key))
  | destroy (key : EntryKey) (entity : EntityInfo n) (info : EntryInfo n) (live : s.entryInfos key = some info)
      (known : s.entityInfos key.entityId = some entity) (certain : info.uncertain = false) :
      Move arrives s ((s.setEntry key none).note (destroyedMark s entity key))
  | absorb (cmd : PaxosCmd) (entity : EntityInfo n) (info : EntryInfo n) (peer : Fin n) (next : EntryStateMachine n)
      (marks : List (Mark n)) (held : cmd ∈ s.hand) (known : s.entityInfos cmd.entityId = some entity) (ours : Ours entity cmd)
      (sender : cmd.peerAcceptorId = peer) (live : s.entryInfos cmd.key = some info) (certain : info.uncertain = false)
      (learns : Learns entity cmd.key peer cmd.peerEntryRecord info.machine next marks)
      (same : isRecordNewer (info.machine.entryRecords entity.localAcceptorId) (next.entryRecords entity.localAcceptorId) = false) :
      Move arrives s { s.setEntry cmd.key (some { info with machine := next }) with marks := marks ++ s.marks }
  | store (cmd : PaxosCmd) (entity : EntityInfo n) (info : EntryInfo n) (peer : Fin n) (next : EntryStateMachine n)
      (marks : List (Mark n)) (held : cmd ∈ s.hand) (known : s.entityInfos cmd.entityId = some entity) (ours : Ours entity cmd)
      (sender : cmd.peerAcceptorId = peer) (live : s.entryInfos cmd.key = some info) (certain : info.uncertain = false)
      (learns : Learns entity cmd.key peer cmd.peerEntryRecord info.machine next marks)
      (newer : isRecordNewer (info.machine.entryRecords entity.localAcceptorId) (next.entryRecords entity.localAcceptorId) = true) :
      Move arrives s
        { s.setEntry cmd.key (some { info with machine := next, uncertain := true }) with
          marks := marks ++ s.marks
          plogReqs := s.plogReqs ++ [setReq cmd.key entity.localAcceptorId (next.entryRecords entity.localAcceptorId)] }
  | write (key : EntryKey) (entity : EntityInfo n) (info : EntryInfo n) (client started : ClientCmd) (base : Nat)
      (reading : List (Mark n)) (next : EntryStateMachine n) (valueId : Nat) (marks : List (Mark n))
      (known : s.entityInfos key.entityId = some entity) (ready : entity.loading = false) (idle : entity.clientCmd = none)
      (home : client.entityId = key.entityId) (about : client.entry = key.entry) (matched : key.entry = entity.maxChosenEntry + 1)
      (kind : client.cmdId = .write ∨ client.cmdId = .read) (starts : Starts key entity client started base reading) (live : s.entryInfos key = some info)
      (certain : info.uncertain = false) (writes : Writes key started info.machine next valueId marks) :
      Move arrives s
        { (s.setEntry key (some { info with machine := next, uncertain := true })).setEntity key.entityId
            (some { entity with clientCmd := some { started with valueId := valueId }, uuidBase := base }) with
          marks := marks ++ (reading ++ s.marks)
          plogReqs := s.plogReqs ++ [setReq key entity.localAcceptorId (next.entryRecords entity.localAcceptorId)] }
  | stray (key : EntryKey) (entity : EntityInfo n) (info : EntryInfo n) (preAuth : Bool) (code : RetCode)
      (next : EntryStateMachine n) (reading : List (Mark n)) (known : s.entityInfos key.entityId = some entity)
      (ready : entity.loading = false) (matched : key.entry = entity.maxChosenEntry + 1) (live : s.entryInfos key = some info)
      (certain : info.uncertain = false) (done : info.machine.promise preAuth = some (code, next)) (failed : code ≠ .ok)
      (numbered : Numbered key entity reading) :
      Move arrives s
        { s.setEntry key (some { info with machine := next }) with marks := .promised key info.machine preAuth :: (reading ++ s.marks) }
  | openRead (key : EntryKey) (entity : EntityInfo n) (info : EntryInfo n) (client : ClientCmd) (next : EntryStateMachine n)
      (known : s.entityInfos key.entityId = some entity) (ready : entity.loading = false) (idle : entity.clientCmd = none)
      (home : client.entityId = key.entityId) (kind : client.cmdId = .read) (about : client.entry = key.entry)
      (matched : key.entry = entity.maxChosenEntry + 1) (live : s.entryInfos key = some info) (certain : info.uncertain = false)
      (reset : info.machine.resetEmptyFlags = some next) :
      Move arrives s
        (((s.setEntity key.entityId (some
          { entity with clientCmd := some { client with uuid := entity.uuidBase }, uuidBase := entity.uuidBase + 1 })).setEntry key
            (some { info with machine := next })).note (.reading key entity.uuidBase))
  | setWritten (index : Nat) (cmd : PaxosCmd) (result : RetCode) (next : s.plogReqs[index]? = some cmd) (operation : isOp cmd = true)
      (isSet : cmd.plogSetRecord = true) (outcome : result = cmd.result ∨ result ≠ .ok) :
      Move arrives s
        { s with
          plogReqs := s.plogReqs.eraseIdx index
          plogRsps := s.plogRsps ++ [{ cmd with result := result }]
          plog := (cmd.key, cmd.localEntryRecord) :: s.plog }
  | setLost (index : Nat) (cmd : PaxosCmd) (result : RetCode) (next : s.plogReqs[index]? = some cmd) (operation : isOp cmd = true)
      (isSet : cmd.plogSetRecord = true) (failed : result ≠ .ok) :
      Move arrives s
        { s with plogReqs := s.plogReqs.eraseIdx index, plogRsps := s.plogRsps ++ [{ cmd with result := result }] }
  | getRead (index : Nat) (cmd : PaxosCmd) (next : s.plogReqs[index]? = some cmd) (operation : isOp cmd = true)
      (isGet : cmd.plogSetRecord = false) :
      Move arrives s
        { s with
          plogReqs := s.plogReqs.eraseIdx index
          plogRsps := s.plogRsps ++ [match s.plogRecord cmd.key with
            | none => { cmd with result := .implPlogNotFound }
            | some record => { cmd with localEntryRecord := record }] }
  | getLost (index : Nat) (cmd : PaxosCmd) (result : RetCode) (next : s.plogReqs[index]? = some cmd) (operation : isOp cmd = true)
      (isGet : cmd.plogSetRecord = false) (failed : result ≠ .ok ∧ result ≠ .implPlogNotFound) :
      Move arrives s
        { s with plogReqs := s.plogReqs.eraseIdx index, plogRsps := s.plogRsps ++ [{ cmd with result := result }] }
  | maxRead (index maxCommittedEntry : Nat) (cmd : PaxosCmd) (next : s.plogReqs[index]? = some cmd)
      (isLoad : cmd.plogLoad = true) (own : cmd.plogReturnMsg = false) :
      Move arrives s
        { s with
          plogReqs := s.plogReqs.eraseIdx index
          plogRsps := s.plogRsps ++
            [{ cmd with entry := maxEntryOf s.plog cmd.entityId, maxCommittedEntry := maxCommittedEntry }] }
  | maxLost (index : Nat) (cmd : PaxosCmd) (result : RetCode) (next : s.plogReqs[index]? = some cmd)
      (isLoad : cmd.plogLoad = true) (own : cmd.plogReturnMsg = false) (failed : result ≠ .ok) :
      Move arrives s
        { s with plogReqs := s.plogReqs.eraseIdx index, plogRsps := s.plogRsps ++ [{ cmd with result := result }] }
  | returnChosen (index : Nat) (cmd : PaxosCmd) (record : EntryRecord) (next : s.plogReqs[index]? = some cmd)
      (isReturn : cmd.plogReturnMsg = true) (durable : s.plogRecord cmd.key = some record) (accepted : 0 < record.acceptedNum) :
      Move arrives s
        { s.note (.returned cmd.key record) with
          plogReqs := s.plogReqs.eraseIdx index
          sent := { cmd with localEntryRecord := { record with chosen := true } } :: s.sent }
  | returnBare (index : Nat) (cmd : PaxosCmd) (record : EntryRecord) (next : s.plogReqs[index]? = some cmd)
      (isReturn : cmd.plogReturnMsg = true) (durable : s.plogRecord cmd.key = some record) (result : RetCode) :
      Move arrives s
        { s with
          plogReqs := s.plogReqs.eraseIdx index
          sent := { cmd with localEntryRecord := record, result := result } :: s.sent }
  | returnEcho (index : Nat) (cmd : PaxosCmd) (next : s.plogReqs[index]? = some cmd) (isReturn : cmd.plogReturnMsg = true)
      (result : RetCode) :
      Move arrives s
        { s with plogReqs := s.plogReqs.eraseIdx index, sent := { cmd with result := result } :: s.sent }
  | setDone (index : Nat) (cmd : PaxosCmd) (entity : EntityInfo n) (info : EntryInfo n) (pushed : Bool) (next : s.plogRsps[index]? = some cmd)
      (isSet : cmd.plogSetRecord = true) (entryOp : cmd.plogLoad = false) (done : cmd.result = .ok)
      (live : s.entryInfos cmd.key = some info) (uncertain : info.uncertain = true)
      (known : s.entityInfos cmd.entityId = some entity) :
      Move arrives s
        { (s.setEntry cmd.key (some { info with uncertain := false })).raiseIfChosen cmd.key entity info.machine pushed with
          plogRsps := s.plogRsps.eraseIdx index }
  | getDone (index : Nat) (cmd : PaxosCmd) (entity : EntityInfo n) (info : EntryInfo n) (record : EntryRecord) (code : RetCode)
      (machine : EntryStateMachine n) (pushed : Bool) (free : s.hand = []) (next : s.plogRsps[index]? = some cmd) (isGet : cmd.plogGetRecord = true)
      (entryOp : cmd.plogLoad = false) (notSet : cmd.plogSetRecord = false)
      (found : cmd.result = .ok ∧ record = cmd.localEntryRecord ∨ cmd.result = .implPlogNotFound ∧ record = {})
      (live : s.entryInfos cmd.key = some info) (uncertain : info.uncertain = true)
      (known : s.entityInfos cmd.entityId = some entity)
      (loaded : info.machine.update entity.localAcceptorId record = some (code, machine)) :
      Move arrives s
        { (if code = .ok then
              (s.setEntry cmd.key (some { info with uncertain := false, machine := machine })).raiseIfChosen cmd.key entity machine pushed
            else s.setEntry cmd.key (some { info with uncertain := false, machine := machine })) with
          plogRsps := s.plogRsps.eraseIdx index }
  | opFailed (index : Nat) (cmd : PaxosCmd) (entity : EntityInfo n) (info : EntryInfo n) (next : s.plogRsps[index]? = some cmd)
      (entryOp : cmd.plogLoad = false ∧ (cmd.plogSetRecord = true ∨ cmd.plogGetRecord = true)) (failed : cmd.result ≠ .ok)
      (live : s.entryInfos cmd.key = some info) (uncertain : info.uncertain = true)
      (known : s.entityInfos cmd.entityId = some entity)
      (answered : ∀ client, entity.clientCmd = some client → client.entry ≠ cmd.entry) :
      Move arrives s
        { ((s.setEntry cmd.key none).note (.lost cmd.key info.machine.localRecord ((s.plogRecord cmd.key).getD {}))).note
            (destroyedMark s entity cmd.key) with
          plogRsps := s.plogRsps.eraseIdx index }
  | loadDone (index : Nat) (cmd : PaxosCmd) (entity : EntityInfo n) (next : s.plogRsps[index]? = some cmd)
      (isLoad : cmd.plogLoad = true) (done : cmd.result = .ok) (known : s.entityInfos cmd.entityId = some entity)
      (loading : entity.loading = true) :
      Move arrives s
        { s.setEntity cmd.entityId (some
            { Node.updateByLoadFromPlog { entity with loading := false } cmd.entry cmd.maxCommittedEntry with
              waitingMsg := none }) with
          plogRsps := s.plogRsps.eraseIdx index
          marks := (entity.waitingMsg.map fun msg => Mark.parked msg.key msg.uuid entity.clientCmd).toList ++
            .loaded cmd.entityId cmd.maxCommittedEntry :: s.marks
          hand := entity.waitingMsg.toList ++ cmd :: s.hand }
  | loadFailed (index : Nat) (cmd : PaxosCmd) (entity : EntityInfo n) (next : s.plogRsps[index]? = some cmd)
      (isLoad : cmd.plogLoad = true) (failed : cmd.result ≠ .ok) (known : s.entityInfos cmd.entityId = some entity)
      (loading : entity.loading = true) (idle : entity.clientCmd = none) :
      Move arrives s { s.setEntity cmd.entityId none with plogRsps := s.plogRsps.eraseIdx index }
  | ignored (index : Nat) (cmd : PaxosCmd) (next : s.plogRsps[index]? = some cmd) (operation : isOp cmd = false)
      (notLoad : cmd.plogLoad = false) : Move arrives s { s with plogRsps := s.plogRsps.eraseIdx index }

def Moves (arrives : PaxosCmd → Prop) : Site n → Site n → Prop := Relation.ReflTransGen (Move arrives)

end Site

end PaxosStore.Certain
