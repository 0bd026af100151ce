import PaxosStore.Certain.Commands

set_option autoImplicit false

namespace PaxosStore.Certain

def kInvalidEntry : Nat := 2 ^ 32 - 1

def kMaxCleanupNum : Nat := 20

def kMaxTimeoutMsec : Nat := 60 * 1000

-- The options the modelled functions read, and the serialised sizes, which are
-- not modelled further.
structure Options (n : Nat) where
  enablePreAuth : Bool := true
  entityWorkerNum : Nat := 48
  catchupTimeoutMsec : Nat := 2000
  clientCmdTimeoutMsec : Nat := 600
  maxMemEntryNum : Nat := 10000000
  maxMemEntrySize : Nat := 8 * 2 ^ 30
  entryTimeoutSec : Nat := 3600
  maxCatchupNum : Nat := 10
  localIp : Nat := 0
  machineSize : EntryStateMachine n → Nat := fun _ => 0
  cmdSize : PaxosCmd → Nat := fun _ => 0

-- `number` stands for the address of the object.
structure EntityInfo (n : Nat) where
  number : Nat
  entityId : Nat
  localAcceptorId : Fin n
  maxContChosenEntry : Nat := 0
  maxCatchupEntry : Nat := 0
  maxChosenEntry : Nat := 0
  maxPlogEntry : Nat := 0
  preAuthEntry : Nat
  activePeerAcceptorId : Fin n
  waitingMsg : Option PaxosCmd := none
  clientCmd : Option ClientCmd := none
  uuidBase : Nat
  recoverTimestampMsec : Nat := 0
  loading : Bool := false
  recoverPending : Bool := false

-- `peerToSync = none` is kInvalidAcceptorId. `compensateMsgs` is not
-- initialised by CreateEntryInfo.
structure EntryInfo (n : Nat) where
  number : Nat
  entityNumber : Nat
  uncertain : Bool := false
  broadcast : Bool := false
  compensateMsgs : Bool
  peerToSync : Option (Fin n) := none
  totalSize : Nat := 0
  expiredTimestampSec : Nat := 0
  catchupTimestampMsec : Nat := 0
  catchupTimes : Nat := 0
  waitingMsgs : Fin n → Option PaxosCmd := fun _ => none
  machine : EntryStateMachine n

structure EntryPtr where
  key : EntryKey
  number : Nat
deriving DecidableEq

-- What the outside world answers while one event is handled: the clock, whether
-- a queue, a limiter or the route refuses, and the content of fresh memory.
structure Env (n : Nat) where
  nowMsec : Nat := 0
  refusals : List Bool := []
  garbage : List (Bool × (Fin n → Bool)) := []

-- History marks. No modelled function reads them; the statements about runs do.
inductive Mark (n : Nat) where
  | dumped (key : EntryKey) (loading : Bool) (maxPlogEntry maxContChosenEntry : Nat) (present : Bool)
  | created (key : EntryKey) (flags : Fin n → Bool) (pending : Option ClientCmd)
  | destroyed (key : EntryKey) (maxPlogEntry maxContChosenEntry : Nat) (held : Bool)
  | promised (key : EntryKey) (machine : EntryStateMachine n) (preAuth : Bool)
  | proposed (key : EntryKey) (proposal : Proposal)
  | lost (key : EntryKey) (record durable : EntryRecord)
  | restored (key : EntryKey) (found : Bool)
  | handed (key : EntryKey) (peerAcceptorId : Fin n) (record : EntryRecord)
  | answered (key : EntryKey) (uncertain : Bool) (record : EntryRecord)
  | returned (key : EntryKey) (record : EntryRecord)
  | reading (key : EntryKey) (uuid : Nat)
  | parked (key : EntryKey) (uuid : Nat) (pending : Option ClientCmd)
  | opened (entityId : Nat)
  | loaded (entityId maxCommittedEntry : Nat)
  | recovered (entityId entry : Nat)
  | delivered (key : EntryKey) (record : EntryRecord) (durable : Option EntryRecord) (pushed : Bool)

-- One server: the EntityHelper of a worker with its managers, the queues to the
-- other workers, and the plog as the list of its writes, newest first. The route
-- gives the server's acceptor id for each entity.
structure Node (n : Nat) where
  route : Nat → Fin n
  entityInfos : Nat → Option (EntityInfo n)
  entryInfos : EntryKey → Option (EntryInfo n)
  lruTable : List EntryKey
  oldChosenList : List EntryKey
  totalSize : Nat
  createCnt : Nat
  destroyCnt : Nat
  entityCnt : Nat
  timer : List (Nat × Nat)
  finishedList : List ClientCmd
  userRspQueue : List ClientCmd
  plogReqs : List PaxosCmd
  plogRsps : List PaxosCmd
  dbReqs : List ClientCmd
  recoverReqs : List PaxosCmd
  recoverRsps : List PaxosCmd
  sent : List PaxosCmd
  plog : List (EntryKey × EntryRecord)
  marks : List (Mark n)
  env : Env n

namespace Node

variable {n : Nat}

def start (route : Nat → Fin n) : Node n where
  route := route
  entityInfos := fun _ => none
  entryInfos := fun _ => none
  lruTable := []
  oldChosenList := []
  totalSize := 0
  createCnt := 0
  destroyCnt := 0
  entityCnt := 0
  timer := []
  finishedList := []
  userRspQueue := []
  plogReqs := []
  plogRsps := []
  dbReqs := []
  recoverReqs := []
  recoverRsps := []
  sent := []
  plog := []
  marks := []
  env := {}

def setEntity (s : Node n) (entityId : Nat) (info : Option (EntityInfo n)) : Node n :=
  { s with entityInfos := Function.update s.entityInfos entityId info }

def setEntry (s : Node n) (key : EntryKey) (info : Option (EntryInfo n)) : Node n :=
  { s with entryInfos := Function.update s.entryInfos key info }

def mark (s : Node n) (m : Mark n) : Node n := { s with marks := m :: s.marks }

def ask (s : Node n) : Bool × Node n :=
  (s.env.refusals.headD false, { s with env := { s.env with refusals := s.env.refusals.tail } })

def plogRecord (s : Node n) (key : EntryKey) : Option EntryRecord :=
  (s.plog.find? fun write => write.1 = key).map fun write => write.2

-- A dangling pointer is a fault: the object at the key is another one or gone.
def deref (s : Node n) (p : EntryPtr) : Option (EntryInfo n) :=
  (s.entryInfos p.key).filter fun info => info.number = p.number

def entityOf (s : Node n) (key : EntryKey) (info : EntryInfo n) : Option (EntityInfo n) :=
  (s.entityInfos key.entityId).filter fun entity => entity.number = info.entityNumber

def findEntryInfo (s : Node n) (key : EntryKey) : Option EntryPtr :=
  (s.entryInfos key).map fun info => ⟨key, info.number⟩

def waitingSize (o : Options n) (info : EntryInfo n) : Nat :=
  ((List.finRange n).map fun i => match info.waitingMsgs i with
    | none => 0
    | some cmd => o.cmdSize cmd).sum

def updateMemorySize (o : Options n) (s : Node n) (p : EntryPtr) : Option (Node n) := do
  let info ← s.deref p
  let newSize := u32 (o.machineSize info.machine + waitingSize o info)
  some { s.setEntry p.key (some { info with totalSize := newSize }) with totalSize := s.totalSize - info.totalSize + newSize }

def garbage (s : Node n) : Bool × (Fin n → Bool) := s.env.garbage.headD (false, fun _ => false)

def newEntryInfo (s : Node n) (entity : EntityInfo n) : EntryInfo n :=
  { number := s.createCnt
    entityNumber := entity.number
    compensateMsgs := s.garbage.1
    machine := EntryStateMachine.create entity.localAcceptorId s.garbage.2 }

-- The key is new in the LRU table, and the address in use from now on.
def takeRoom (s : Node n) (key : EntryKey) : Node n :=
  { s with
    lruTable := key :: s.lruTable.filter (· ≠ key)
    createCnt := s.createCnt + 1
    env := { s.env with garbage := s.env.garbage.tail } }

def createEntryInfo (o : Options n) (s : Node n) (entityId entry : Nat) : Option (EntryPtr × Node n) := do
  let entity ← s.entityInfos entityId
  let key : EntryKey := ⟨entityId, entry⟩
  let info := s.newEntryInfo entity
  let p : EntryPtr := ⟨key, info.number⟩
  let s ← updateMemorySize o
    (((s.setEntry key (some info)).mark (.created key s.garbage.2 entity.clientCmd)).takeRoom key) p
  some (p, s)

def destroyEntryInfo (s : Node n) (p : EntryPtr) : Option (Node n) := do
  let info ← s.deref p
  let entity ← s.entityOf p.key info
  let s := (s.setEntry p.key none).mark
    (.destroyed p.key entity.maxPlogEntry entity.maxContChosenEntry (s.plogRecord p.key).isSome)
  some { s with
    lruTable := s.lruTable.filter (· ≠ p.key)
    totalSize := s.totalSize - info.totalSize
    destroyCnt := s.destroyCnt + 1 }

def refreshEntryInfo (s : Node n) (key : EntryKey) : Node n :=
  { s with lruTable := key :: s.lruTable.filter (· ≠ key) }

def needRemove (o : Options n) (s : Node n) : Bool :=
  s.lruTable.length > o.maxMemEntryNum / o.entityWorkerNum ∨ s.totalSize > o.maxMemEntrySize / o.entityWorkerNum

-- The first loop of MakeEnoughRoomInner; the number is what is left of
-- kMaxCleanupNum.
def removeOldChosen (o : Options n) : Nat → Node n → Option (Nat × Node n)
  | 0, s => some (0, s)
  | count + 1, s =>
      match s.oldChosenList with
      | [] => some (count + 1, s)
      | key :: rest =>
          if needRemove o s then
            match s.entryInfos key with
            | none => removeOldChosen o count { s with oldChosenList := rest }
            | some info =>
                if info.uncertain then none
                else (destroyEntryInfo { s with oldChosenList := rest } ⟨key, info.number⟩).bind (removeOldChosen o count)
          else some (count + 1, s)

def removeOldest (o : Options n) : Nat → Node n → Option (Node n)
  | 0, s => some s
  | count + 1, s =>
      if needRemove o s then
        match s.lruTable.getLast? with
        | none => none
        | some key =>
            match s.entryInfos key with
            | none => none
            | some info =>
                if info.uncertain then removeOldest o count (s.refreshEntryInfo key)
                else (s.destroyEntryInfo ⟨key, info.number⟩).bind (removeOldest o count)
      else some s

def makeEnoughRoom (o : Options n) (s : Node n) : Option (Bool × Node n) := do
  if o.maxMemEntryNum / o.entityWorkerNum = 0 then none
  else if ¬ needRemove o s then some (true, s)
  else
    let (count, s) ← removeOldChosen o kMaxCleanupNum s
    if s.oldChosenList ≠ [] then some (!needRemove o s, s)
    else
      let s ← removeOldest o count s
      some (!needRemove o s, s)

-- The list argument is the old chosen list that is still to be looked at.
def cleanupExpired (nowSec : Nat) : List EntryKey → Nat → Node n → Option (Node n)
  | [], _, s => some { s with oldChosenList := [] }
  | key :: rest, count, s =>
      if count ≥ kMaxCleanupNum then some { s with oldChosenList := key :: rest }
      else
        match s.entryInfos key with
        | none => cleanupExpired nowSec rest count s
        | some info =>
            if info.uncertain then none
            else if info.expiredTimestampSec > nowSec then some { s with oldChosenList := key :: rest }
            else (s.destroyEntryInfo ⟨key, info.number⟩).bind (cleanupExpired nowSec rest (count + 1))

def cleanupExpiredChosenEntry (s : Node n) : Option (Node n) :=
  cleanupExpired (s.env.nowMsec / 1000) s.oldChosenList 0 s

def moveToOldChosenList (o : Options n) (s : Node n) (p : EntryPtr) : Option (Node n) := do
  let info ← s.deref p
  let expired := s.env.nowMsec / 1000 + o.entryTimeoutSec
  some { s.setEntry p.key (some { info with expiredTimestampSec := expired }) with
    oldChosenList := s.oldChosenList ++ [p.key] }

end Node

end PaxosStore.Certain
