import PaxosStore.MemKv.LoadRuns

set_option autoImplicit false

namespace PaxosStore.MemKv

open PaxosStore.PaxosKv
open PaxosStore.Consensus

-- The other direction of the generated code and of snappy.
structure LogPacking extends LogCodec where
  serializeToString : PaxosLog → Option (List UInt8)
  rawCompress : List UInt8 → List UInt8
  parse_serialize : ∀ log raw, serializeToString log = some raw → parseFromArray raw = some log
  expand_compress : ∀ raw, raw ≠ [] → rawCompress raw ≠ [] ∧ unCompresse (rawCompress raw) = some raw

-- A codec that puts one byte before the data.
theorem zero_head_expands : ∀ raw : List UInt8, raw ≠ [] → List.cons 0 raw ≠ [] ∧ List.tail? (List.cons 0 raw) = some raw :=
  fun raw _ => ⟨List.cons_ne_nil 0 raw, rfl⟩

-- A record in memory: a lite head, with the data as they are stored.
structure MemRecord where
  fileNo : Int
  compressed : Bool
  data : List UInt8
deriving DecidableEq

def minCompressLen : Nat := 16

def newHeadToPlog (logs : LogCodec) (record : MemRecord) : Option PaxosLog :=
  if record.compressed then (logs.unCompresse record.data).bind logs.parseFromArray else logs.parseFromArray record.data

def plogToNewHead (packing : LogPacking) (fileNo : Int) (raw : List UInt8) : MemRecord :=
  if raw.length < minCompressLen ∨ raw.length ≤ (packing.rawCompress raw).length then ⟨fileNo, false, raw⟩
  else ⟨fileNo, true, packing.rawCompress raw⟩

-- A log of the length of the old data is written over it as it is.
def setMemRecord (packing : LogPacking) (fileNo : Int) (raw : List UInt8) : Option MemRecord → MemRecord
  | none => plogToNewHead packing fileNo raw
  | some record => if raw.length = record.data.length then ⟨fileNo, false, raw⟩ else plogToNewHead packing fileNo raw

-- What OnHead puts in a merge file. The code of GetBasicInfo is not looked at.
def onHead (codec : DataCodec) (logs : LogCodec) (key : UInt64) (record : MemRecord) : Option RawRecord :=
  let info := ((newHeadToPlog logs record).bind (Head.chosenInfo codec)).getD {}
  asserting (info.flag / recordCompresse % 2 = 0) <|
    some ⟨key, info.flag + (if record.compressed then recordCompresse else 0), info.version, info.version, record.data⟩

-- A Write between its append and its Set.
structure FileWrite where
  key : UInt64
  fileNo : Int
  offset : Nat
  version : Nat
  raw : List UInt8
deriving DecidableEq

def FileWrite.item (write : FileWrite) : Item := ⟨write.fileNo, write.offset, write.key, 0, write.version, write.version, write.raw⟩

-- A record the merge has copied: where it was, and where the copy is.
structure Hit where
  key : UInt64
  oldFileNo : Int
  fileNo : Int
  offset : Nat
deriving DecidableEq

-- MergeSomeFile_MemInner over some files: the keys that are in memory when it
-- starts, those it has visited, the hits it has not yet worked off, and the key
-- and file number UpdateShmHash is about to write.
structure Pass where
  vecFile : List Int
  due : List UInt64
  visited : List UInt64 := []
  hits : List Hit := []
  updating : Option (UInt64 × Int) := none
deriving DecidableEq

-- memkv with its keys, the records of the files, the numbers of the file that is
-- written and of the file that is merged into, the Writes in flight, the keys
-- with a record that never reached memory, and the merge.
structure MergeWorld where
  keys : List UInt64 := []
  records : UInt64 → Option MemRecord := fun _ => none
  files : List Item := []
  current : Int := 1
  mergeNo : Int := -1
  writing : List FileWrite := []
  stray : List UInt64 := []
  pass : Option Pass := none

inductive WorldStep where
  | add (key : UInt64) (log : PaxosLog) (version offset : Nat)
  | set (key : UInt64) (code : Int)
  | rotate
  | rotateMerge
  | start (vecFile : List Int)
  | visit (key : UInt64) (broken : Bool) (offset : Nat)
  | get
  | update
  | giveUp (lost : List Hit)
  | finish
deriving DecidableEq

namespace MergeWorld

variable (codec : DataCodec) (packing : LogPacking)

-- The caller holds the lock of the key until the Write is over. Records are
-- appended to the current file.
def add (s : MergeWorld) (key : UInt64) (log : PaxosLog) (version offset : Nat) : Option MergeWorld :=
  if s.writing.any (·.key = key) ∨ s.files.any (fun item => item.fileNo = s.current ∧ offset ≤ item.offset) then none
  else
    (packing.serializeToString log).bind fun raw =>
      asserting (raw ≠ []) <|
        let write : FileWrite := ⟨key, s.current, offset, version % 2 ^ 32, raw⟩
        some { s with files := s.files ++ [write.item], writing := write :: s.writing }

def set (s : MergeWorld) (key : UInt64) (code : Int) : Option MergeWorld :=
  (s.writing.find? (·.key = key)).map fun write =>
    let writing := s.writing.filter (·.key ≠ key)
    if code ≠ 0 then { s with writing := writing, stray := key :: s.stray }
    else
      { s with
        keys := if key ∈ s.keys then s.keys else key :: s.keys
        records := Function.update s.records key (some (setMemRecord packing write.fileNo write.raw (s.records key)))
        writing := writing
        stray := s.stray.filter (· ≠ key) }

-- GatherFilesToMerge leaves out the files that are written, and MergeAllFiles
-- takes the next files only after the earlier ones are gone.
def mergeable (s : MergeWorld) (vecFile : List Int) : Bool :=
  vecFile.all (fun number => number < s.current && s.mergeNo < number) &&
    s.files.all fun item => vecFile.all fun number => !(0 < item.fileNo && item.fileNo ≤ number) || item.fileNo ∈ vecFile

def start (s : MergeWorld) (vecFile : List Int) : Option MergeWorld :=
  if s.pass.isSome ∨ !s.mergeable vecFile then none
  else some { s with pass := some { vecFile := vecFile, due := s.keys } }

-- One key of a bucket. `broken` says that OnMemKey fails, which clsMemIdx::Visit
-- does not report.
def visit (s : MergeWorld) (key : UInt64) (broken : Bool) (offset : Nat) : Option MergeWorld :=
  s.pass.bind fun pass =>
    if key ∈ pass.visited ∨ s.files.any (fun item => item.fileNo = s.mergeNo ∧ offset ≤ item.offset) then none
    else
      let seen : Pass := { pass with visited := key :: pass.visited }
      match s.records key with
      | none => some { s with pass := some seen }
      | some record =>
          if broken ∨ record.fileNo ∉ pass.vecFile then some { s with pass := some seen }
          else
            (onHead codec packing.toLogCodec key record).map fun copy =>
              { s with
                files := s.files ++ [⟨s.mergeNo, offset, copy⟩]
                pass := some { seen with hits := pass.hits ++ [⟨key, record.fileNo, s.mergeNo, offset⟩] } }

-- UpdateShmHash for the next hit, up to the comparison.
def get (s : MergeWorld) : Option MergeWorld :=
  s.pass.bind fun pass =>
    if pass.updating.isSome then none
    else
      match pass.hits with
      | [] => none
      | hit :: rest =>
          if (s.records hit.key).all (·.fileNo ≠ hit.oldFileNo) then some { s with pass := some { pass with hits := rest } }
          else some { s with pass := some { pass with hits := rest, updating := some (hit.key, hit.fileNo) } }

def update (s : MergeWorld) : Option MergeWorld :=
  s.pass.bind fun pass => pass.updating.map fun (key, fileNo) =>
    { s with
      records := Function.update s.records key ((s.records key).map fun record => { record with fileNo := fileNo })
      pass := some { pass with updating := none } }

-- The merge fails. Of the copies that it has not worked off, some may never have
-- left the buffer.
def giveUp (s : MergeWorld) (lost : List Hit) : Option MergeWorld :=
  s.pass.map fun pass =>
    { s with
      files := s.files.filter fun item => !pass.hits.any fun hit => hit ∈ lost && item.fileNo = hit.fileNo && item.offset = hit.offset
      pass := none }

-- The merge reports success, and the merged files go.
def finish (s : MergeWorld) : Option MergeWorld :=
  s.pass.bind fun pass =>
    if pass.due.all (· ∈ pass.visited) ∧ pass.hits = [] ∧ pass.updating = none then
      some { s with files := s.files.filter (fun item => decide (item.fileNo ∉ pass.vecFile)), pass := none }
    else none

def act (s : MergeWorld) : WorldStep → Option MergeWorld
  | .add key log version offset => s.add packing key log version offset
  | .set key code => s.set packing key code
  | .rotate => some { s with current := s.current + 1 }
  | .rotateMerge => some { s with mergeNo := s.mergeNo - 1 }
  | .start vecFile => s.start vecFile
  | .visit key broken offset => s.visit codec packing key broken offset
  | .get => s.get
  | .update => s.update
  | .giveUp lost => s.giveUp lost
  | .finish => s.finish

-- No Write that is in flight when the merge starts has its record in a merged
-- file, no key that lies in one is skipped by an error, and no Write of a key
-- reaches memory between the two halves of UpdateShmHash.
def careful (s : MergeWorld) : WorldStep → Bool
  | .start vecFile => s.writing.all fun write => write.fileNo ∉ vecFile
  | .visit key broken _ => !broken || s.pass.all fun pass => (s.records key).all fun record => record.fileNo ∉ pass.vecFile
  | .set key code => code ≠ 0 || s.pass.all fun pass => pass.updating.all fun (busy, _) => busy ≠ key
  | _ => true

def carefulAct (s : MergeWorld) (step : WorldStep) : Option MergeWorld :=
  if s.careful step then s.act codec packing step else none

end MergeWorld

end PaxosStore.MemKv
