import PaxosStore.Certain.EntryInfoMng
import PaxosStore.Certain.LruTable
import PaxosStore.Certain.Words

set_option autoImplicit false

namespace PaxosStore.Certain

open PaxosStore.PaxosKv

-- An EntryInfo in memory. Its entity_id is in the entity it points to.
structure EntryObject (n : Nat) where
  entry : Nat
  info : EntryInfo n

-- EntryInfoMng with the objects it works on: entities and entries by their addresses, the
-- entry_list of each entity, and the MemoryLimiter's total.
structure EntryInfoMng (n : Nat) where
  entityInfos : Nat → Option (EntityInfo n)
  entryLists : Nat → List Nat
  entryInfos : Nat → Option (EntryObject n)
  lruTable : LruTable EntryKey Nat
  oldChosenList : List EntryKey
  totalSize : Nat
  createCnt : Nat
  destroyCnt : Nat

namespace EntryInfoMng

variable {n : Nat}

def start : EntryInfoMng n := ⟨fun _ => none, fun _ => [], fun _ => none, .create 1024 false, [], 0, 0, 0⟩

def keyOf (m : EntryInfoMng n) (object : EntryObject n) : Option EntryKey :=
  (m.entityInfos object.info.entityNumber).map fun entity => ⟨entity.entityId, object.entry⟩

def setObject (m : EntryInfoMng n) (address : Nat) (object : Option (EntryObject n)) : EntryInfoMng n :=
  { m with entryInfos := Function.update m.entryInfos address object }

def setList (m : EntryInfoMng n) (entity : Nat) (addresses : List Nat) : EntryInfoMng n :=
  { m with entryLists := Function.update m.entryLists entity addresses }

def findEntryInfo (m : EntryInfoMng n) (key : EntryKey) : Option Nat := m.lruTable.find key

def isOverLoad (o : Options n) (m : EntryInfoMng n) : Bool := m.totalSize > o.maxMemEntrySize / o.entityWorkerNum

def removeFromTotalSize (m : EntryInfoMng n) (address : Nat) : Option (EntryInfoMng n) := do
  let object ← m.entryInfos address
  some { m.setObject address (some { object with info := { object.info with totalSize := 0 } }) with
    totalSize := sub64 m.totalSize object.info.totalSize }

def updateTotalSize (o : Options n) (m : EntryInfoMng n) (address : Nat) : Option (EntryInfoMng n) := do
  let m ← m.removeFromTotalSize address
  let object ← m.entryInfos address
  let newSize := u32 (o.machineSize object.info.machine + Node.waitingSize o object.info)
  some { m.setObject address (some { object with info := { object.info with totalSize := newSize } }) with
    totalSize := u64 (m.totalSize + newSize) }

-- The log lines of CreateEntryInfo and DestroyEntryInfo divide by it.
def shareNum (o : Options n) : Nat := o.maxMemEntryNum / o.entityWorkerNum

def newObject (entity : EntityInfo n) (entry address : Nat) (garbage : Bool × (Fin n → Bool)) : EntryObject n where
  entry := entry
  info :=
    { number := address
      entityNumber := entity.number
      compensateMsgs := garbage.1
      machine := EntryStateMachine.create entity.localAcceptorId garbage.2 }

def createEntryInfo (o : Options n) (m : EntryInfoMng n) (entityNumber entry address : Nat) (garbage : Bool × (Fin n → Bool)) :
    Option (EntryInfoMng n) := do
  let entity ← m.entityInfos entityNumber
  let m := m.setObject address (some (newObject entity entry address garbage))
  let m := m.setList entityNumber (address :: m.entryLists entityNumber)
  let (_, lruTable) ← m.lruTable.add ⟨entity.entityId, entry⟩ address
  let m := { m with lruTable := lruTable, createCnt := u64 (m.createCnt + 1) }
  asserting (0 < shareNum o) (updateTotalSize o m address)

-- To unlink an element that is not in the list has no meaning.
def destroyEntryInfo (o : Options n) (m : EntryInfoMng n) (address : Nat) : Option (EntryInfoMng n) := do
  let object ← m.entryInfos address
  let key ← m.keyOf object
  let list := m.entryLists object.info.entityNumber
  asserting (address ∈ list) <| do
    let m ← ({ m with lruTable := (m.lruTable.remove key).2 }.setList object.info.entityNumber (list.erase address)).removeFromTotalSize address
    asserting (0 < shareNum o) (some { m.setObject address none with destroyCnt := u64 (m.destroyCnt + 1) })

def refreshEntryInfo (m : EntryInfoMng n) (address : Nat) : Option (Bool × EntryInfoMng n) := do
  let object ← m.entryInfos address
  let key ← m.keyOf object
  let (ok, lruTable) := m.lruTable.refresh key true
  some (ok, { m with lruTable := lruTable })

def needRemove (o : Options n) (m : EntryInfoMng n) : Bool := m.lruTable.size > shareNum o || isOverLoad o m

-- The first loop of MakeEnoughRoomInner; the number is what is left of kMaxCleanupNum.
def removeOldChosen (o : Options n) : Nat → EntryInfoMng n → Option (Nat × EntryInfoMng n)
  | 0, m => some (0, m)
  | count + 1, m =>
      match m.oldChosenList with
      | [] => some (count + 1, m)
      | key :: rest =>
          if needRemove o m then
            match m.lruTable.find key with
            | none => removeOldChosen o count { m with oldChosenList := rest }
            | some address => do
                let object ← m.entryInfos address
                asserting (object.info.uncertain = false) <| do
                  let m ← destroyEntryInfo o { m with oldChosenList := rest } address
                  removeOldChosen o count m
          else some (count + 1, m)

def removeOldest (o : Options n) : Nat → EntryInfoMng n → Option (EntryInfoMng n)
  | 0, m => some m
  | count + 1, m =>
      if needRemove o m then do
        let (_, address) ← m.lruTable.peekOldest
        let object ← m.entryInfos address
        if object.info.uncertain then do
          let (ok, m) ← m.refreshEntryInfo address
          asserting (ok = true) (removeOldest o count m)
        else do
          let m ← destroyEntryInfo o m address
          removeOldest o count m
      else some m

def makeEnoughRoom (o : Options n) (m : EntryInfoMng n) : Option (Bool × EntryInfoMng n) :=
  asserting (0 < shareNum o) <|
    if needRemove o m then do
      let (count, m) ← removeOldChosen o kMaxCleanupNum m
      if m.oldChosenList ≠ [] then some (!needRemove o m, m)
      else do
        let m ← removeOldest o count m
        some (!needRemove o m, m)
    else some (true, m)

-- The list is what is left of old_chosen_list_.
def cleanupExpired (o : Options n) (nowSec : Nat) : List EntryKey → Nat → EntryInfoMng n → Option (Bool × EntryInfoMng n)
  | [], count, m => some (count > 0, { m with oldChosenList := [] })
  | key :: rest, count, m =>
      if count < kMaxCleanupNum then
        match m.lruTable.find key with
        | none => cleanupExpired o nowSec rest count m
        | some address => do
            let object ← m.entryInfos address
            asserting (object.info.uncertain = false) <|
              if object.info.expiredTimestampSec > nowSec then some (count > 0, { m with oldChosenList := key :: rest })
              else do
                let m ← destroyEntryInfo o m address
                cleanupExpired o nowSec rest (count + 1) m
      else some (count > 0, { m with oldChosenList := key :: rest })

def cleanupExpiredChosenEntry (o : Options n) (nowSec : Nat) (m : EntryInfoMng n) : Option (Bool × EntryInfoMng n) :=
  cleanupExpired o nowSec m.oldChosenList 0 m

def moveToOldChosenList (o : Options n) (nowSec : Nat) (m : EntryInfoMng n) (address : Nat) : Option (EntryInfoMng n) := do
  let object ← m.entryInfos address
  let key ← m.keyOf object
  let m := m.setObject address (some { object with info := { object.info with expiredTimestampSec := nowSec + o.entryTimeoutSec } })
  some { m with oldChosenList := m.oldChosenList ++ [key] }

-- What its callers do with the manager, in any order. `entity` is a new EntityInfo and `handle`
-- what a handler writes into an entry.
inductive Step (n : Nat) where
  | entity (entity : EntityInfo n)
  | create (entity entry address : Nat) (garbage : Bool × (Fin n → Bool))
  | handle (address : Nat) (info : EntryInfo n)
  | updateMemorySize (address : Nat)
  | makeEnoughRoom
  | cleanupExpiredChosenEntry (nowSec : Nat)
  | moveToOldChosenList (nowSec address : Nat)
  | refresh (address : Nat)
  | destroy (address : Nat)

-- CreateEntryInfoIfMiss looks the key up before it creates, and new gives an address of its
-- own. A handler leaves total_size and the entry's entity alone.
def step (o : Options n) (m : EntryInfoMng n) : Step n → Option (EntryInfoMng n)
  | .entity entity =>
      asserting ((m.entityInfos entity.number).isNone) <|
        some { m.setList entity.number [] with entityInfos := Function.update m.entityInfos entity.number (some entity) }
  | .create entityNumber entry address garbage => do
      let entity ← m.entityInfos entityNumber
      asserting (m.findEntryInfo ⟨entity.entityId, entry⟩ = none ∧ (m.entryInfos address).isNone ∧ 0 < address ∧ address < 2 ^ 64)
        (createEntryInfo o m entityNumber entry address garbage)
  | .handle address info => do
      let object ← m.entryInfos address
      asserting (info.number = object.info.number ∧ info.entityNumber = object.info.entityNumber ∧
        info.totalSize = object.info.totalSize) (some (m.setObject address (some { object with info := info })))
  | .updateMemorySize address => updateTotalSize o m address
  | .makeEnoughRoom => (makeEnoughRoom o m).map Prod.snd
  | .cleanupExpiredChosenEntry nowSec => (cleanupExpiredChosenEntry o nowSec m).map Prod.snd
  | .moveToOldChosenList nowSec address => moveToOldChosenList o nowSec m address
  | .refresh address => (refreshEntryInfo m address).map Prod.snd
  | .destroy address => destroyEntryInfo o m address

def run (o : Options n) (m : EntryInfoMng n) : List (Step n) → Option (EntryInfoMng n)
  | [] => some m
  | first :: rest => (step o m first).bind fun next => run o next rest

end EntryInfoMng

end PaxosStore.Certain
