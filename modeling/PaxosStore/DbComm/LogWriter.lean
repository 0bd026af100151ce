import PaxosStore.DbComm.LogFormat

set_option autoImplicit false

namespace PaxosStore.DbComm

open PaxosStore.Codec
open PaxosStore.PaxosKv

inductive AdjustStrategy where
  | maxCompact
  | dontMove
  | minWrite
deriving DecidableEq, Repr

-- DirectIOWriteInfo without its counters; `buffer` is all of pDirectIOBuffer.
structure WriteInfo where
  blockSize : Nat
  maxBuf : Nat
  minTail : Nat
  startSeq : Nat
  seq : Nat
  offset : Nat
  directOffset : Nat
  buffer : Bytes
  strategy : AdjustStrategy
  status : Int
deriving DecidableEq

-- A copy of `bytes` to the place `pos` of a buffer.
def poke (buf : Bytes) (pos : Nat) (bytes : Bytes) : Bytes := buf.take pos ++ bytes ++ buf.drop (pos + bytes.length)

-- pwrite without an error; a gap before the place is filled with zeros.
def pwrite (file : Bytes) (offset : Nat) (bytes : Bytes) : Bytes :=
  poke (file ++ List.replicate (offset - file.length) 0) offset bytes

-- CreateADirectIOWriteInfo; `memory` is what the buffer holds when it is allocated.
def createADirectIOWriteInfo (memory : Bytes) (blockSize maxBuf minTail startSeq : Nat) (strategy : AdjustStrategy) (offset : Nat) :
    Option WriteInfo :=
  let tail := max minTail (headerSize + recordSize 0 0 + 8)
  asserting (startSeq ≠ 0 ∧ blockSize ≤ maxBuf ∧ pageSize ≤ blockSize ∧ blockSize % pageSize = 0 ∧ maxBuf % blockSize = 0 ∧
      tail < blockSize ∧ memory.length = maxBuf) <|
    let offset := (min maxLogFileSize offset + blockSize - 1) / blockSize * blockSize
    some ⟨blockSize, maxBuf, tail, startSeq, startSeq, offset, offset, memory, strategy, 0⟩

-- The part of CalculateDumpSize for values that start at the head of a block.
def wholeBlocks (blockSize dumped remain : Nat) : Nat :=
  let perBlk := blockSize - blockMetaSize - headerSize
  dumped + blockSize * (remain / perBlk) + if 0 < remain % perBlk then blockMetaSize + headerSize + remain % perBlk else 0

def calculateDumpSize (blockSize blkOffset valLen : Nat) : Option Nat :=
  asserting (blkOffset < blockSize) <|
    if valLen = 0 then some 0
    else
      let tail := blockSize - blkOffset
      asserting (headerSize < tail ∧ blockMetaSize + headerSize < blockSize) <|
        if tail < blockSize then
          asserting (blockMetaSize ≤ blkOffset) <|
            if valLen ≤ tail - headerSize then some (valLen + headerSize)
            else some (wholeBlocks blockSize tail (valLen - (tail - headerSize)))
        else some (wholeBlocks blockSize 0 valLen)

-- What the two forms of a write are sized by.
inductive Load where
  | one (valLen : Nat)
  | batch (valLens : List Nat)
deriving DecidableEq

def batchDumpSize (blockSize minTail offset : Nat) : List Nat → Nat → Option Nat
  | [], dumped => some dumped
  | valLen :: rest, dumped =>
      asserting (0 < valLen) <|
        let blkOffset := (offset + dumped) % blockSize
        let more :=
          if blkOffset + minTail < blockSize then calculateDumpSize blockSize blkOffset valLen
          else (calculateDumpSize blockSize 0 valLen).map (· + (blockSize - blkOffset))
        more.bind fun more => asserting (0 < more) <| batchDumpSize blockSize minTail offset rest (dumped + more)

namespace WriteInfo

def metaSize (info : WriteInfo) : Nat := if info.offset = 0 then info.blockSize else 0

-- CalculateDumpSize and GetEstimateWriteSize. The sizes are ints: a sum that is
-- none has no defined value.
def sizes (info : WriteInfo) (load : Load) : Option (Nat × Nat) :=
  let blkOffset := info.offset % info.blockSize
  let dump :=
    match load with
    | .one valLen => asserting (blkOffset + info.minTail < info.blockSize) <| calculateDumpSize info.blockSize blkOffset valLen
    | .batch valLens => batchDumpSize info.blockSize info.minTail info.offset valLens 0
  dump.bind fun dump =>
    let dumpSize := dump + info.metaSize
    asserting (0 < dumpSize ∧ dumpSize + blkOffset + info.blockSize < 2 ^ 31) <|
      some (dumpSize, (dumpSize + blkOffset + info.blockSize - 1) / info.blockSize * info.blockSize)

def needIterWriteFile (info : WriteInfo) (estimate : Nat) : Bool :=
  maxLogFileSize < info.offset / info.blockSize * info.blockSize + estimate

end WriteInfo

-- Whether a call was refused before anything was dumped, or the two sizes.
abbrev Adjusted := WriteInfo × Except Int (Nat × Nat)

section Writing

variable (crc : Crc32c)

namespace WriteInfo

def adjustImpl (info : WriteInfo) (dumpSize estimate : Nat) : Option Adjusted :=
  if info.maxBuf < estimate then some (info, .error LogError.largeWrite)
  else if info.needIterWriteFile estimate then some (info, .error LogError.nextFile)
  else
    let blkOffset := info.offset % info.blockSize
    asserting (blkOffset + info.minTail < info.blockSize) <|
      if blkOffset = 0 then some ({ info with directOffset := info.offset }, .ok (dumpSize, estimate))
      else
        let newOffset := info.offset - blkOffset
        asserting (info.directOffset ≤ newOffset) <|
          if newOffset + estimate ≤ info.directOffset + info.maxBuf then some (info, .ok (dumpSize, estimate))
          else
            asserting (info.directOffset < newOffset) <|
              (appendFakeLevelDBRecord crc info.blockSize info.minTail (info.blockSize - blkOffset)).map fun tail =>
                let moved := poke info.buffer 0 ((info.buffer.drop (newOffset - info.directOffset)).take blkOffset)
                ({ info with directOffset := newOffset, buffer := poke moved blkOffset tail }, .ok (dumpSize, estimate))

-- The offset of the next block.
def skipped (info : WriteInfo) : WriteInfo :=
  let offset := info.offset - info.offset % info.blockSize + info.blockSize
  { info with offset := offset, directOffset := offset }

def maxCompactAdjust (info : WriteInfo) (load : Load) : Option Adjusted :=
  (info.sizes load).bind fun (dumpSize, estimate) => info.adjustImpl crc dumpSize estimate

def dontMoveAdjust (info : WriteInfo) (load : Load) : Option Adjusted :=
  asserting (info.offset % info.blockSize + info.minTail < info.blockSize) <|
    let info := if info.offset % info.blockSize = 0 then { info with directOffset := info.offset } else info.skipped
    (info.sizes load).bind fun (dumpSize, estimate) => info.adjustImpl crc dumpSize estimate

def minWriteAdjust (info : WriteInfo) (load : Load) : Option Adjusted :=
  (info.sizes load).bind fun (dumpSize, estimate) =>
    asserting (info.offset % info.blockSize + info.minTail < info.blockSize) <|
      if info.offset % info.blockSize = 0 then info.adjustImpl crc dumpSize estimate
      else
        ({ info with offset := info.offset - info.offset % info.blockSize + info.blockSize }.sizes load).bind fun (newDumpSize, newEstimate) =>
          if newEstimate < estimate then info.skipped.adjustImpl crc newDumpSize newEstimate
          else info.adjustImpl crc dumpSize estimate

-- AdjustDirectIOWriteBuffer
def adjust (info : WriteInfo) (load : Load) : Option Adjusted :=
  asserting (info.directOffset ≤ info.offset ∧ info.offset ≤ info.directOffset + info.maxBuf) <|
    match info.strategy with
    | .maxCompact => info.maxCompactAdjust crc load
    | .dontMove => info.dontMoveAdjust crc load
    | .minWrite => info.minWriteAdjust crc load

end WriteInfo

def calculateDumpValueLen (blockSize room : Nat) : Option Nat :=
  if blockSize = room then some (blockSize - blockMetaSize - headerSize)
  else asserting (blockMetaSize + headerSize ≤ blockSize - room) <| some (room - headerSize)

-- What DumpValueImpl leaves: the sequence number, the bytes up to pNewBuffer, the
-- padding after them and what is left of the value.
structure Dumped where
  seq : Nat
  bytes : Bytes
  tail : Bytes
  left : Bytes

-- `begun` says that pValueIter is not null, `left` is the value from there on.
def dumpValueImpl (seq blockSize minTail room : Nat) (begun : Bool) (left : Bytes) : Option Dumped :=
  asserting (0 < room ∧ room ≤ blockSize) <|
    (calculateDumpValueLen blockSize room).bind fun valLen =>
      if left.length ≤ valLen then
        (dumpLevelDBLogBlock crc seq blockSize minTail room (if begun then .last else .full) left).map fun (seq, bytes, tail) =>
          ⟨seq, bytes, tail, []⟩
      else
        asserting (begun = true → room = blockSize) <|
          (dumpLevelDBLogBlock crc seq blockSize minTail room (if begun then .middle else .first) (left.take valLen)).bind
            fun (seq, bytes, tail) => asserting (bytes.length = room) <| some ⟨seq, bytes, tail, left.drop valLen⟩

-- Where a dump stands: pBuffer, pNextBlock and, after a value, pNewBuffer.
structure Dumping where
  seq : Nat
  buffer : Bytes
  pos : Nat
  next : Nat
  newPos : Nat

-- The block after pNextBlock, from the begin of the buffer.
def blockAfter (blockSize bufEnd next : Nat) : Nat := if next = bufEnd then bufEnd else next + blockSize

-- The loop that cuts one value; `strict` says that the room left in a block is
-- asserted to be more than iMinTailRecordSize. False is the end of the buffer.
def dumpLoop (blockSize minTail bufEnd : Nat) (strict : Bool) : Nat → Dumping → Bool → Bytes → Option (Dumping × Bool)
  | 0, _, _, _ => none
  | fuel + 1, at_, begun, left =>
      if at_.pos = at_.next then asserting (bufEnd = at_.pos) <| some (at_, false)
      else
        asserting (at_.pos < at_.next ∧ at_.next ≤ bufEnd ∧ (strict = true → minTail < at_.next - at_.pos) ∧ at_.next % blockSize = 0) <|
          (dumpValueImpl crc at_.seq blockSize minTail (at_.next - at_.pos) begun left).bind fun dumped =>
            let buffer := poke (poke at_.buffer at_.pos dumped.bytes) (at_.pos + dumped.bytes.length) dumped.tail
            let newPos := at_.pos + dumped.bytes.length
            if dumped.left = [] then some (⟨dumped.seq, buffer, at_.pos, at_.next, newPos⟩, true)
            else
              dumpLoop blockSize minTail bufEnd strict fuel
                ⟨dumped.seq, buffer, at_.next, blockAfter blockSize bufEnd at_.next, newPos⟩ true dumped.left

-- Every turn takes at least one byte of the value.
def dumpOne (blockSize minTail bufEnd : Nat) (strict : Bool) (at_ : Dumping) (value : Bytes) : Option (Dumping × Bool) :=
  dumpLoop crc blockSize minTail bufEnd strict (value.length + 1) at_ false value

namespace WriteInfo

-- The begin of a dump: GetCurrentPos, and the meta info of a file that is empty.
def beginDump (info : WriteInfo) : Option Dumping :=
  asserting (info.directOffset ≤ info.offset ∧ info.offset ≤ info.directOffset + info.maxBuf) <|
    let pos := info.offset - info.directOffset
    let next := pos - pos % info.blockSize + info.blockSize
    asserting (next ≤ info.maxBuf) <|
      if info.offset = 0 then
        (dumpFileMetaInfo info.startSeq info.blockSize).map fun bytes =>
          ⟨info.seq, poke info.buffer 0 bytes, next, blockAfter info.blockSize info.maxBuf next, pos⟩
      else some ⟨info.seq, info.buffer, pos, next, pos⟩

-- The first block of a dump.
def beginBlock (info : WriteInfo) : Nat := (info.offset - info.directOffset) / info.blockSize * info.blockSize

-- ZeroTailingSpace and SmallWriteImpl.
def writeOut (info : WriteInfo) (file : Bytes) (done : Dumping) : Option (WriteInfo × Bytes) :=
  asserting (done.newPos ≤ done.next ∧ done.next ≤ info.maxBuf ∧ info.beginBlock + info.blockSize ≤ done.next ∧
      info.directOffset + done.next ≤ maxLogFileSize) <|
    let buffer := poke done.buffer done.newPos (List.replicate (done.next - done.newPos) 0)
    let blocks := (buffer.drop info.beginBlock).take (done.next - info.beginBlock)
    some ({ info with seq := done.seq, buffer := buffer }, pwrite file (info.directOffset + info.beginBlock) blocks)

-- CalculateWriteSize
def writeSize (info : WriteInfo) (done : Dumping) : Nat := done.newPos - (info.offset - info.directOffset)

-- IncreaseOffset
def increaseOffset (info : WriteInfo) (size : Nat) : Option WriteInfo :=
  let offset := info.offset + size
  let room := info.blockSize - offset % info.blockSize
  let offset := if room ≤ info.minTail then offset + room else offset
  asserting (info.directOffset ≤ offset ∧ offset ≤ info.directOffset + info.maxBuf ∧ offset ≤ maxLogFileSize) <|
    some { info with offset := offset }

-- FixDirectIOWriteInfo
def fixed (info : WriteInfo) : Option WriteInfo :=
  if info.status = 0 then some info
  else
    asserting (info.directOffset ≤ info.offset ∧ info.offset ≤ info.directOffset + info.maxBuf) <| some { info with status := 0 }

end WriteInfo

-- What a write leaves: the writer, the file, and an error or what it returned.
abbrev Written (R : Type) := WriteInfo × Bytes × Except Int R

def refused {R : Type} (info : WriteInfo) (file : Bytes) (code : Int) : Written R := ({ info with status := code }, file, .error code)

-- The offset a write reports.
def WriteInfo.reported (info : WriteInfo) : Nat := if info.offset = 0 then info.blockSize else info.offset

def directIOWrite (info : WriteInfo) (file value : Bytes) : Option (Written Nat) :=
  info.fixed.bind fun info =>
    if value = [] then some (info, file, .error (-1))
    else
      (info.adjust crc (.one value.length)).bind fun
      | (info, .error code) => some (refused info file code)
      | (info, .ok (dumpSize, estimate)) =>
          asserting (value.length < dumpSize ∧ dumpSize ≤ estimate) <|
            info.beginDump.bind fun begun =>
              asserting (info.offset = 0 → begun.next ≠ info.maxBuf) <|
                (dumpOne crc info.blockSize info.minTail info.maxBuf false begun value).bind fun
                | (done, false) => some (refused { info with seq := done.seq, buffer := done.buffer } file LogError.largeRecord)
                | (done, true) =>
                    (info.writeOut file done).bind fun (info, file) =>
                      asserting (done.next - info.beginBlock = estimate ∧ info.writeSize done = dumpSize) <|
                        (info.increaseOffset dumpSize).bind fun after =>
                          asserting (info.reported < after.offset) <| some (after, file, .ok info.reported)

-- The loop over the values of a batch; the offsets are those of vecOffset.
def dumpBatch (info : WriteInfo) : List Bytes → Dumping → Option (Dumping × Bool × List Nat)
  | [], at_ => some (at_, true, [])
  | value :: rest, at_ =>
      asserting (value ≠ []) <|
        let at_ :=
          if at_.next - at_.pos ≤ info.minTail then { at_ with pos := at_.next, next := blockAfter info.blockSize info.maxBuf at_.next }
          else at_
        let offset := info.directOffset + at_.pos
        (dumpOne crc info.blockSize info.minTail info.maxBuf true at_ value).bind fun
        | (done, false) => some (done, false, [])
        | (done, true) =>
            asserting (done.pos < done.newPos ∧ done.newPos ≤ done.next) <|
              (dumpBatch info rest { done with pos := done.newPos }).map fun (last, whole, offsets) =>
                (last, whole, (if offset = 0 then info.blockSize else offset) :: offsets)

def batchDirectIOWrite (info : WriteInfo) (file : Bytes) (values : List Bytes) : Option (Written (List Nat)) :=
  info.fixed.bind fun info =>
    if values = [] then some (info, file, .error (-1))
    else
      (info.adjust crc (.batch (values.map List.length))).bind fun
      | (info, .error code) => some (refused info file code)
      | (info, .ok (dumpSize, estimate)) =>
          asserting (dumpSize ≤ estimate) <|
            info.beginDump.bind fun begun =>
              (dumpBatch crc info values begun).bind fun
              | (done, false, _) => some (refused { info with seq := done.seq, buffer := done.buffer } file LogError.largeBatch)
              | (done, true, offsets) =>
                  (info.writeOut file done).bind fun (info, file) =>
                    asserting (done.next - info.beginBlock = estimate ∧ info.writeSize done = dumpSize) <|
                      (info.increaseOffset dumpSize).map fun after => (after, file, .ok offsets)

-- FlushDirectIOBufferImpl without an I/O error, and the size that was written.
def WriteInfo.flushImpl (info : WriteInfo) (file : Bytes) : Option (WriteInfo × Bytes × Nat) :=
  if info.offset = info.directOffset then some (info, file, 0)
  else
    asserting (info.directOffset < info.offset ∧ info.offset ≤ info.directOffset + info.maxBuf ∧ info.offset ≤ maxLogFileSize ∧
        info.blockSize ≤ info.offset) <|
      let pos := info.offset - info.directOffset
      let blkOffset := pos % info.blockSize
      let endBlock := if blkOffset = 0 then pos else pos - blkOffset + info.blockSize
      asserting (endBlock ≤ info.maxBuf ∧ info.directOffset + endBlock ≤ maxLogFileSize ∧ blkOffset = info.offset % info.blockSize ∧
          (blkOffset = 0 ∨ blkOffset + info.minTail < info.blockSize)) <|
        (appendFakeLevelDBRecord crc info.blockSize info.minTail (endBlock - pos)).bind fun tail =>
          let buffer := poke info.buffer pos tail
          let file := pwrite file info.directOffset (buffer.take endBlock)
          let newOffset := info.offset - blkOffset
          if blkOffset = 0 ∨ endBlock = info.blockSize then
            some ({ info with directOffset := newOffset, buffer := buffer }, file, endBlock)
          else
            (appendFakeLevelDBRecord crc info.blockSize info.minTail (info.blockSize - blkOffset)).map fun tail =>
              let moved := poke buffer 0 ((buffer.drop (endBlock - info.blockSize)).take blkOffset)
              ({ info with directOffset := newOffset, buffer := poke moved blkOffset tail }, file, endBlock)

def flush (info : WriteInfo) (file : Bytes) : Option (WriteInfo × Bytes) :=
  info.fixed.bind fun info => (info.flushImpl crc file).map fun (info, file, _) => (info, file)

-- The room of the buffer is not enough for this write: what is there is flushed.
def WriteInfo.makeRoom (info : WriteInfo) (file : Bytes) (estimate : Nat) : Option (WriteInfo × Bytes) :=
  if info.directOffset + info.maxBuf < info.offset / info.blockSize * info.blockSize + estimate then
    (info.flushImpl crc file).bind fun (info, file, size) =>
      asserting (0 < size ∧ info.offset < info.directOffset + info.blockSize) <| some (info, file)
  else some (info, file)

def directIOBufferWrite (info : WriteInfo) (file value : Bytes) : Option (Written Nat) :=
  info.fixed.bind fun info =>
    if value = [] then some (info, file, .error (-1))
    else
      asserting (info.strategy = .maxCompact) <|
        (info.sizes (.one value.length)).bind fun (dumpSize, estimate) =>
          if info.maxBuf < estimate then some (refused info file LogError.largeWrite)
          else if info.needIterWriteFile estimate then some (refused info file LogError.nextFile)
          else
            (info.makeRoom crc file estimate).bind fun (info, file) =>
              info.beginDump.bind fun begun =>
                asserting (info.offset = 0 → begun.pos ≠ info.maxBuf) <|
                  (dumpOne crc info.blockSize info.minTail info.maxBuf true begun value).bind fun
                  -- the result is asserted to be positive
                  | (_, false) => none
                  | (done, true) =>
                      asserting (done.next - info.beginBlock = estimate ∧ info.writeSize done = dumpSize ∧
                          info.directOffset + done.next ≤ maxLogFileSize) <|
                        ({ info with seq := done.seq, buffer := done.buffer }.increaseOffset dumpSize).bind fun after =>
                          asserting (info.reported < after.offset) <| some (after, file, .ok info.reported)

end Writing

end PaxosStore.DbComm
