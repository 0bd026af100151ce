import PaxosStore.DbComm.LogRestarts

set_option autoImplicit false

namespace PaxosStore.DbComm

open PaxosStore.Codec
open PaxosStore.PaxosKv

-- clsLevelDBLogIterWriter: the file it writes and those before it, whose numbers are their
-- places in the list, from one on.
structure IterWriter where
  info : WriteInfo
  older : List Bytes
  file : Bytes

namespace IterWriter

def fileNo (writer : IterWriter) : Nat := writer.older.length + 1

def files (writer : IterWriter) : List Bytes := writer.older ++ [writer.file]

-- IterIntoNextFileNoLock where there is no file to recycle.
def iterIntoNextFile (writer : IterWriter) : IterWriter :=
  ⟨{ writer.info with startSeq := writer.info.seq, offset := 0, directOffset := 0 }, writer.older ++ [writer.file], []⟩

-- The writer after a call to its file, and the number of the file with the offsets.
def after (writer : IterWriter) (result : Written (List Nat)) : IterWriter × Except Int (Nat × List Nat) :=
  (⟨result.1, writer.older, result.2.1⟩, result.2.2.map fun offsets => (writer.fileNo, offsets))

end IterWriter

-- What a call is refused for before it gets to the file.
def LogCall.vacant : LogCall → Bool
  | .write value => value.isEmpty
  | .batch values => values.isEmpty

-- How a server is started. Its writer has no least tail of its own.
structure Settings where
  memory : Bytes
  maxBuf : Nat
  strategy : AdjustStrategy

section Writing

variable (crc : Crc32c)

-- WriteNoLock and BatchWriteNoLock, whose loop takes two turns at most.
def iterWrite (writer : IterWriter) (call : LogCall) : Option (IterWriter × Except Int (Nat × List Nat)) :=
  if call.vacant then some (writer, .error (-2))
  else
    (call.run crc writer.info writer.file).bind fun
    | (info, file, .ok offsets) => some (writer.after (info, file, .ok offsets))
    | (info, file, .error code) =>
        if code = LogError.nextFile then
          let next := (IterWriter.mk info writer.older file).iterIntoNextFile
          (call.run crc next.info next.file).map next.after
        else some (writer.after (info, file, .error code))

-- IsLevelDBLogFormatNormalIO
def isLevelDBLogFormat (file : Bytes) : Option Int :=
  let page := pread file pageSize 0
  if page.length ≠ pageSize then some 0
  else
    (tryPickleFileMetaInfo page).map fun
    | .failed _ => -3
    | .oldFormat => 0
    | .found _ => 1

-- InitLogIterWriter
def initLogIterWriter (blockSize : Nat) (settings : Settings) (older : List Bytes) (file : Bytes) (blkSeq offset : Nat) : Option IterWriter :=
  (createADirectIOWriteInfo settings.memory blockSize settings.maxBuf 0 blkSeq settings.strategy offset).map fun info => ⟨info, older, file⟩

-- The check that a file can be read to its end.
def finalCheck (file : Bytes) : Option Bool :=
  (createADirectIOReadInfoReadOnly file 0).bind fun
  | .refused _ => none
  | .reader reader => readToEnd crc file (file.length + 1) reader

-- A start of the server over the files it finds: ReadMetaInfoAndFixWritePos and
-- InitLogIterWriter. With another block size the check is made on a next file, which there is none of.
def restart (blockSize : Nat) (settings : Settings) (files : List Bytes) : Option (Except Int IterWriter) :=
  match files.getLast? with
  | none => (initLogIterWriter blockSize settings [] [] 1 0).map .ok
  | some file =>
      (isLevelDBLogFormat file).bind fun format =>
        if format < 0 then some (.error format)
        else if format = 0 then (initLogIterWriter blockSize settings files [] 1 0).map .ok
        else
          (readMetaInfo crc file (1024 * blockSize)).bind fun
          | .failed code => asserting (code < 0) (some (.error code))
          | .oldFormat => none
          | .found fileBlockSize blkSeq offset =>
              asserting (0 < blkSeq ∧ fileBlockSize = blockSize) <|
                (finalCheck crc file).bind fun whole =>
                  if whole then (initLogIterWriter blockSize settings files.dropLast file (blkSeq + 1) offset).map .ok
                  else (initLogIterWriter blockSize settings files [] (blkSeq + 1) 0).map .ok

inductive LogEvent where
  | call (call : LogCall)
  | restart (settings : Settings)

-- The writer after the events, the values that were accepted and where each was put.
def runEvents (blockSize : Nat) : List LogEvent → IterWriter → Option (IterWriter × List Bytes × List (Nat × Nat))
  | [], writer => some (writer, [], [])
  | .call call :: rest, writer =>
      (iterWrite crc writer call).bind fun
      | (writer, .error _) => runEvents blockSize rest writer
      | (writer, .ok (fileNo, offsets)) =>
          (runEvents blockSize rest writer).map fun (last, values, places) =>
            (last, call.values ++ values, offsets.map (fun offset => (fileNo, offset)) ++ places)
  | .restart settings :: rest, writer =>
      (restart crc blockSize settings writer.files).bind fun
      | .error _ => none
      | .ok writer => runEvents blockSize rest writer

-- All values of a file. A file that nothing was written to is empty.
def readFile (maxRead : Nat) (file : Bytes) : Option (List Bytes) :=
  (createADirectIOReadInfo file maxRead).bind fun
  | .refused code => if code = 2 then some [] else none
  | .reader reader =>
      (readValues crc file (file.length + 1) reader).bind fun (values, _, result) => if result = .eof then some values else none

def readFiles (maxRead : Nat) : List Bytes → Option (List Bytes)
  | [] => some []
  | file :: rest => (readFile crc maxRead file).bind fun values => (readFiles maxRead rest).map fun later => values ++ later

-- The value at an offset of a file.
def readPlace (maxRead : Nat) (files : List Bytes) (place : Nat × Nat) : Option Bytes :=
  files[place.1 - 1]?.bind fun file =>
    (createADirectIOReadInfo file maxRead).bind fun
    | .refused _ => none
    | .reader reader =>
        (directIOReadAt crc file reader place.2).bind fun
        | (_, .value bytes _ _) => some bytes
        | _ => none

end Writing

end PaxosStore.DbComm
