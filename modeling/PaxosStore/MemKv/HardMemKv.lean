import PaxosStore.MemKv.MemStore

set_option autoImplicit false

namespace PaxosStore.MemKv

open PaxosStore.PaxosKv
open PaxosStore.Consensus

-- How far clsNewMemKv::Set of a record has come. `torn` is a record that is being
-- written over; `appended` has the new record in a block, `indexed` also in the
-- index, and the old one is still to be deleted.
inductive SetPhase where
  | ready
  | torn
  | appended (place : Nat × Nat)
  | indexed (old : Option (Nat × Nat))
deriving DecidableEq

-- clsHardMemKv: shared memory, the records of the files, the number of the file
-- that is written, the Writes whose record is in a file but whose Set is not
-- over, and the records whose Set has failed.
structure HardMemKv where
  store : MemStore := {}
  files : List Item := []
  current : Int := 1
  writing : List FileWrite := []
  phase : UInt64 → SetPhase := fun _ => .ready
  failed : List Item := []

inductive WriteStep where
  | add (key : UInt64) (log : PaxosLog) (version offset : Nat)
  | tear (key : UInt64) (junk : MemRecord)
  | overwrite (key : UInt64)
  | append (key : UInt64) (place : Nat × Nat)
  | setIndex (key : UInt64)
  | finish (key : UInt64)
  | fail (key : UInt64)
  | rotate
deriving DecidableEq

-- Whether the loader takes a record.
def recordAllowed (codec : DataCodec) (logs : LogCodec) (item : Item) : Bool :=
  match readRecord codec logs item.fileNo item.offset item.record with
  | some (some (info, log)) => setAllowed codec info log
  | _ => false

namespace HardMemKv

variable (codec : DataCodec) (packing : LogPacking)

-- The caller holds the lock of the key until the Write is over, and its header
-- and log pass the checks of the loader.
def add (s : HardMemKv) (key : UInt64) (log : PaxosLog) (version offset : Nat) : Option HardMemKv :=
  if s.writing.any (·.key = key) ∨ s.files.any (fun item => item.fileNo = s.current ∧ offset ≤ item.offset) then none
  else
    (packing.serializeToString log).bind fun raw =>
      asserting (raw ≠ []) <|
        let write : FileWrite := ⟨key, s.current, offset, version % 2 ^ 32, raw⟩
        if recordAllowed codec packing.toLogCodec write.item then
          some { s with files := s.files ++ [write.item], writing := write :: s.writing, phase := Function.update s.phase key .ready }
        else none

-- The Write of a key, if it has come to one of these phases.
def busy (s : HardMemKv) (key : UInt64) (phases : SetPhase → Bool) : Option FileWrite :=
  (s.writing.find? (·.key = key)).bind fun write => if phases (s.phase key) then some write else none

-- The record of the key, if the new log has the length of its data.
def sameLength (s : HardMemKv) (write : FileWrite) : Option Slot :=
  (s.store.find write.key).bind fun slot => if write.raw.length = slot.record.data.length then some slot else none

def tear (s : HardMemKv) (key : UInt64) (junk : MemRecord) : Option HardMemKv :=
  (s.busy key fun phase => phase = .ready ∨ phase = .torn).bind fun write => (s.sameLength write).bind fun slot =>
    if junk.data.length = slot.record.data.length then
      some { s with store := s.store.overwrite slot.place junk, phase := Function.update s.phase key .torn }
    else none

def overwrite (s : HardMemKv) (key : UInt64) : Option HardMemKv :=
  (s.busy key fun phase => phase = .ready ∨ phase = .torn).bind fun write => (s.sameLength write).map fun slot =>
    { s with store := s.store.overwrite slot.place ⟨write.fileNo, false, write.raw⟩, writing := s.writing.filter (·.key ≠ key) }

def append (s : HardMemKv) (key : UInt64) (place : Nat × Nat) : Option HardMemKv :=
  (s.busy key fun phase => phase = .ready).bind fun write =>
    if s.store.slots.any (·.place = place) then none
    else if (s.store.index key).isSome ∧ (s.store.find key).all (fun slot => write.raw.length = slot.record.data.length) then none
    else
      some { s with
        store := s.store.append place key (plogToNewHead packing write.fileNo write.raw)
        phase := Function.update s.phase key (.appended place) }

def setIndex (s : HardMemKv) (key : UInt64) : Option HardMemKv :=
  (s.busy key fun _ => true).bind fun _ =>
    match s.phase key with
    | .appended place =>
        some { s with store := s.store.setIndex key place, phase := Function.update s.phase key (.indexed (s.store.index key)) }
    | _ => none

def finish (s : HardMemKv) (key : UInt64) : Option HardMemKv :=
  (s.busy key fun _ => true).bind fun _ =>
    match s.phase key with
    | .indexed old =>
        some { s with
          store := match old with
            | none => s.store
            | some place => s.store.delete place
          writing := s.writing.filter (·.key ≠ key) }
    | _ => none

-- Set fails: nothing is appended, or the new record is not put in the index.
def fail (s : HardMemKv) (key : UInt64) : Option HardMemKv :=
  (s.busy key fun
    | .indexed _ => false
    | _ => true).map fun write =>
    { s with writing := s.writing.filter (·.key ≠ key), failed := write.item :: s.failed }

def act (s : HardMemKv) : WriteStep → Option HardMemKv
  | .add key log version offset => s.add codec packing key log version offset
  | .tear key junk => s.tear key junk
  | .overwrite key => s.overwrite key
  | .append key place => s.append packing key place
  | .setIndex key => s.setIndex key
  | .finish key => s.finish key
  | .fail key => s.fail key
  | .rotate => some { s with current := s.current + 1 }

end HardMemKv

-- The records of the last write files, in the order in which they were written.
-- The files come from the last to the first, and `count` records are taken already.
def recentRecords (maxReloadRecordCnt : Nat) : Nat → List DataFile → Option (List Item)
  | _, [] => some []
  | count, file :: older =>
      asserting (count < maxReloadRecordCnt) <|
        if file.records = [] then recentRecords maxReloadRecordCnt count older
        else if file.records.length + count ≤ maxReloadRecordCnt then
          (recentRecords maxReloadRecordCnt (count + file.records.length) older).map (· ++ file.items)
        else some (file.items.drop (file.records.length - (maxReloadRecordCnt - count)))

def DataPath.newestFirst (path : DataPath) : List DataFile := path.writeFiles.mergeSort fun left right => right.fileNo ≤ left.fileNo

-- The number of records Init asks LoadMostRecentWriteFile for.
def reloadRecordCnt : Nat := 500

section Restart

variable (codec : DataCodec) (packing : LogPacking) (alloc : Allocator)

-- DoReloadProcessOnRecord. A broken record stops the reload.
def reloadRecord (s : MemStore) (item : Item) : Option MemStore :=
  (readRecord codec packing.toLogCodec item.fileNo item.offset item.record).bind fun result => result.bind fun (info, log) =>
    asserting (infoCheck info log = true ∧ setAllowed codec info log = true) <|
      (packing.serializeToString log).bind fun raw =>
        asserting (raw ≠ []) (s.set packing (alloc.place s) item.record.key item.fileNo raw)

def loadMostRecentWriteFile (path : DataPath) (maxReloadRecordCnt : Nat) (s : MemStore) : Option MemStore :=
  (recentRecords maxReloadRecordCnt 0 path.newestFirst).bind fun items => items.foldlM (reloadRecord codec packing alloc) s

-- The restart with the blocks that have survived.
def restart (s : MemStore) (order : List Slot) (path : DataPath) : Option MemStore :=
  (s.startBuildIdx codec packing order).bind (loadMostRecentWriteFile codec packing alloc path reloadRecordCnt)

-- What Get answers, less the file number and the offset.
def Head.answer (head : Head) : Option (NewBasic × PaxosLog) :=
  (head.getBasicInfo codec).map fun info => ({ info with fileNo := 0, offset := 0 }, head.log)

def MemStore.answer (s : MemStore) (key : UInt64) : Option (NewBasic × PaxosLog) :=
  (s.find key).bind fun slot => (slot.record.head packing.toLogCodec).bind (Head.answer codec)

end Restart

end PaxosStore.MemKv
