import PaxosStore.DbComm.BitCaskRecord
import PaxosStore.PaxosKv.PropNum

set_option autoImplicit false

namespace PaxosStore.DbComm

open PaxosStore.Codec
open PaxosStore.PaxosKv

-- The low bytes of a number, in the order of the host.
def little : Nat → Nat → Bytes
  | 0, _ => []
  | count + 1, n => UInt8.ofNat n :: little count (n / 256)

def fromLittle : Bytes → Nat
  | [] => 0
  | byte :: rest => byte.toNat + 256 * fromLittle rest

-- Extend of leveldb's crc32c, of which Value is the case of no bytes before.
structure Crc32c where
  extend : UInt32 → Bytes → UInt32
  extend_append : ∀ before after, extend (extend 0 before) after = extend 0 (before ++ after)

namespace Crc32c

def value (crc : Crc32c) (bytes : Bytes) : UInt32 := crc.extend 0 bytes

def maskDelta : UInt32 := 0xa282ead8

def mask (n : UInt32) : UInt32 := (n >>> 15 ||| n <<< 17) + maskDelta

def unmask (n : UInt32) : UInt32 := (n - maskDelta) >>> 17 ||| (n - maskDelta) <<< 15

end Crc32c

-- The type byte of a record; `other` has no meaning in this format.
inductive RecordType where
  | broken
  | zero
  | full
  | first
  | middle
  | last
  | blockMeta
  | fake
  | other (code : UInt8)
deriving DecidableEq, Repr

namespace RecordType

def code : RecordType → UInt8
  | broken => 0xFF
  | zero => 0
  | full => 1
  | first => 2
  | middle => 3
  | last => 4
  | blockMeta => 10
  | fake => 11
  | other code => code

def ofCode (code : UInt8) : RecordType :=
  if code = 0xFF then broken else if code = 0 then zero else if code = 1 then full else if code = 2 then first
  else if code = 3 then middle else if code = 4 then last else if code = 10 then blockMeta else if code = 11 then fake
  else other code

def carriesData : RecordType → Bool
  | full | first | middle | last => true
  | _ => false

end RecordType

def headerSize : Nat := 7

-- kBlockMetaInfoRecordSize
def blockMetaSize : Nat := 16

def pageSize : Nat := 4096

def maxLogFileSize : Nat := 2 ^ 30

def maxBlkSeqIncPerFile : Nat := 2 ^ 19

namespace LogError

def unexpectedType1 : Int := -100
def unexpectedType2 : Int := -101
def brokenRecord : Int := -102
def brokenBlk : Int := -496
def blockMetaMissing : Int := -497
def unexpectedBlockMeta : Int := -498
def brokenBcRecord : Int := -499
def brokenFileMeta : Int := -500
def deprecateBlk : Int := -1000
def unexpectedEof : Int := -1002
def poorRead : Int := -1003
def largeWrite : Int := -1898
def largeRecord : Int := -1900
def largeBatch : Int := -1901
def nextFile : Int := -2000

end LogError

-- RLogLevelDBRecord; the length is that of the value.
structure LogRecord where
  kind : RecordType
  value : Bytes
deriving DecidableEq, Repr

section Records

variable (crc : Crc32c)

def recordHeader (kind : RecordType) (value : Bytes) : Bytes :=
  little 4 (Crc32c.mask (crc.extend (crc.value [kind.code]) value)).toNat ++
    [UInt8.ofNat value.length, UInt8.ofNat (value.length / 256), kind.code]

-- The bytes at pBuffer; `room` is pBlkEnd - pBuffer.
def dumpLevelDBRecord (kind : RecordType) (value : Bytes) (room : Nat) : Option Bytes :=
  asserting (value.length ≤ 0xFFFF ∧ headerSize + value.length ≤ room) <| some (recordHeader crc kind value ++ value)

-- The record at the head of [pBuffer, pBlkEnd), which is not empty, and how far it reaches.
def pickleLevelDBRecord (buf : Bytes) (checkCrc : Bool) : LogRecord × Nat :=
  match buf with
  | a :: b :: c :: d :: low :: high :: kind :: body =>
      let length := low.toNat + 256 * high.toNat
      if RecordType.ofCode kind = .zero ∨ RecordType.ofCode kind = .fake then (⟨RecordType.ofCode kind, []⟩, buf.length)
      else if buf.length < headerSize + length then (⟨.broken, []⟩, buf.length)
      else if checkCrc = true ∧ crc.value (kind :: body.take length) ≠ Crc32c.unmask (UInt32.ofNat (fromLittle [a, b, c, d])) then
        (⟨.broken, []⟩, buf.length)
      else (⟨RecordType.ofCode kind, body.take length⟩, headerSize + length)
  | _ => (⟨.zero, []⟩, buf.length)

-- LogBlockMetaInfo as it lies in memory: cMode, which is never set, and llBlkSeq.
def blockMetaBytes (seq : Nat) : Bytes := 0 :: little 8 seq

def pickleBlockMetaInfo (value : Bytes) : Option Nat :=
  asserting (9 ≤ value.length) <| some (fromLittle ((value.drop 1).take 8))

def isDeprecateBlock (startSeq seq : Nat) : Bool := seq ≤ startSeq

-- BlockSeqGenerator::Next
def nextSeq (seq : Nat) : Nat := (seq + 1) % 2 ^ 64

-- What is put between pBuffer and pBlkEnd after a record.
def appendFakeLevelDBRecord (blockSize minTail room : Nat) : Option Bytes :=
  asserting (headerSize ≤ minTail ∧ minTail < blockSize ∧ room < blockSize) <|
    if room = 0 then some []
    else if room ≤ minTail then some (List.replicate room 0)
    else dumpLevelDBRecord crc .fake [] room

-- The new sequence number, the bytes up to pNewBuffer and the padding after them.
def dumpLevelDBLogBlock (seq blockSize minTail room : Nat) (kind : RecordType) (value : Bytes) : Option (Nat × Bytes × Bytes) :=
  asserting (0 < value.length ∧ 0 < room) <|
    if room = blockSize then
      (dumpLevelDBRecord crc .blockMeta (blockMetaBytes (nextSeq seq)) room).bind fun head =>
        asserting (head.length = blockMetaSize ∧ value.length < room - blockMetaSize) <|
          (dumpLevelDBRecord crc kind value (room - blockMetaSize)).bind fun record =>
            (appendFakeLevelDBRecord crc blockSize minTail (room - blockMetaSize - record.length)).map fun tail =>
              (nextSeq seq, head ++ record, tail)
    else
      asserting (value.length < room) <|
        (dumpLevelDBRecord crc kind value room).bind fun record =>
          (appendFakeLevelDBRecord crc blockSize minTail (room - record.length)).map fun tail => (seq, record, tail)

-- An error, or whether the value is complete. The asserts that bPartialValue is
-- false follow from the second test.
def checkLevelDBRecord (startSeq : Nat) (record : LogRecord) (headOfBlk partialValue : Bool) : Option (Except Int Bool) :=
  if headOfBlk = true ∧ record.kind ≠ .blockMeta then some (.error LogError.blockMetaMissing)
  else if partialValue = true ∧ record.kind ≠ .blockMeta ∧ record.kind ≠ .middle ∧ record.kind ≠ .last then
    some (.error LogError.unexpectedType1)
  else
    match record.kind with
    | .full => some (.ok true)
    | .first | .zero | .fake => some (.ok false)
    | .middle => if partialValue then some (.ok false) else some (.error LogError.unexpectedType2)
    | .last => if partialValue then some (.ok true) else some (.error LogError.unexpectedType2)
    | .blockMeta =>
        if !headOfBlk then some (.error LogError.unexpectedBlockMeta)
        else
          (pickleBlockMetaInfo record.value).bind fun seq =>
            asserting (startSeq ≠ 0) <|
              if isDeprecateBlock startSeq seq then some (.error LogError.deprecateBlk) else some (.ok false)
    | .broken | .other _ => some (.error LogError.brokenRecord)

-- What PickleLevelDBLogBlock makes of a block: an error, a value and how far it
-- reaches, or a block that has been used up.
inductive Picked where
  | failed (code : Int)
  | complete (value : Bytes) (used : Nat)
  | more (value : Bytes) (tailingFake : Bool)
deriving DecidableEq, Repr

-- The loop over [pNewBuffer, pBlkEnd), of which `fuel` bounds the length.
def pickleRecords (startSeq blockSize : Nat) (partialValue : Bool) : Nat → Bytes → Bytes → Nat → Bool → Option Picked
  | _, [], value, _, fake => some (.more value fake)
  | 0, _ :: _, _, _, _ => none
  | fuel + 1, byte :: rest, value, used, _ =>
      let (record, size) := pickleLevelDBRecord crc (byte :: rest) true
      (checkLevelDBRecord startSeq record ((byte :: rest).length = blockSize) partialValue).bind fun
      | .error code => some (.failed code)
      | .ok complete =>
          asserting (record.kind.carriesData = true → record.value ≠ []) <|
            let value := if record.kind.carriesData then value ++ record.value else value
            if complete then asserting (value ≠ []) <| some (.complete value (used + size))
            else
              pickleRecords startSeq blockSize partialValue fuel ((byte :: rest).drop size) value (used + size)
                (size = (byte :: rest).length ∧ record.kind = .fake)

def pickleLevelDBLogBlock (startSeq blockSize : Nat) (buf value : Bytes) : Option Picked :=
  asserting (startSeq ≠ 0 ∧ 0 < blockSize ∧ 0 < buf.length ∧ buf.length ≤ blockSize) <|
    pickleRecords crc startSeq blockSize (value ≠ []) buf.length buf value 0 false

-- IsValidBlock, which looks at whole blocks only.
def validRecords : Nat → Bytes → Bool
  | _, [] => true
  | 0, _ :: _ => true
  | fuel + 1, byte :: rest =>
      let (record, size) := pickleLevelDBRecord crc (byte :: rest) true
      record.kind ≠ .broken && validRecords fuel ((byte :: rest).drop size)

def isValidBlock (blockSize : Nat) (buf : Bytes) : Bool := buf.length ≠ blockSize || validRecords crc buf.length buf

end Records

-- LogFileMetaInfo as it lies in memory, and the record it is kept in.
structure FileMeta where
  startSeq : Nat
  blockSize : Int
deriving DecidableEq, Repr

def fileMetaBytes (startSeq blockSize : Nat) : Bytes := 0 :: (little 8 startSeq ++ little 4 blockSize)

def fileMetaRecord (startSeq blockSize : Nat) : Record := ⟨0xFF, [], fileMetaBytes startSeq blockSize, 0, 0⟩

def fileMetaSize : Nat := 33

def dumpFileMetaInfo (startSeq blockSize : Nat) : Option Bytes :=
  asserting (calculateRecordSize (fileMetaRecord startSeq blockSize) < blockSize) <|
    (toBufferImpl (fileMetaRecord startSeq blockSize) (calculateRecordSize (fileMetaRecord startSeq blockSize)) blockSize).toOption

-- What is read of the first page: an error, 1 for an old bitcask file, or the meta info.
inductive FoundMeta where
  | failed (code : Int)
  | oldFormat
  | found (meta_ : FileMeta)
deriving DecidableEq, Repr

def tryPickleFileMetaInfo (buf : Bytes) : Option FoundMeta :=
  match buf with
  | start :: flag :: _ :: _ :: _ :: _ :: _ :: _ =>
      if start ≠ startFlag then some (.failed LogError.brokenBcRecord)
      else if flag ≠ 0xFF then some .oldFormat
      else
        match toRecordImpl buf with
        | .error _ => none
        | .ok (.refused _) => some (.failed LogError.brokenBcRecord)
        | .ok (.accepted record _) =>
            if record.val.length ≠ 13 then some (.failed LogError.brokenFileMeta)
            else some (.found ⟨fromLittle ((record.val.drop 1).take 8), int32 (fromLittle (record.val.drop 9))⟩)
  | _ => some (.failed LogError.brokenBcRecord)

end PaxosStore.DbComm
