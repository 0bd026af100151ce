import PaxosStore.DbComm.LogFormat

set_option autoImplicit false

namespace PaxosStore.DbComm

open PaxosStore.Codec
open PaxosStore.PaxosKv

-- DirectIOReadInfo: `buffer` is what iDirectIOBufSize says of pDirectIOBuffer. A
-- reader that is attached to a mapped file is read only and has no descriptor.
structure ReadInfo where
  readOnly : Bool
  checkBlock : Bool
  blockSize : Nat
  startSeq : Nat
  maxBuf : Nat
  offset : Nat
  directOffset : Nat
  buffer : Bytes
  status : Int
deriving DecidableEq

-- pread of a file that has no error.
def pread (file : Bytes) (size offset : Nat) : Bytes := (file.drop offset).take size

-- What CreateADirectIOReadInfo returns: 1 for an old file, 2 for an empty one.
inductive Opened where
  | refused (code : Int)
  | reader (info : ReadInfo)
deriving DecidableEq

def createADirectIOReadInfo (file : Bytes) (maxBuf : Nat) : Option Opened :=
  let maxBuf := max pageSize maxBuf
  asserting (maxBuf % pageSize = 0) <|
    let page := pread file pageSize 0
    if page.length ≠ pageSize then some (.refused (if page = [] then 2 else LogError.poorRead))
    else
      (tryPickleFileMetaInfo page).bind fun
      | .failed _ => some (.refused (-3))
      | .oldFormat => some (.refused 1)
      | .found meta_ =>
          if meta_.blockSize < pageSize ∨ 256 * 1024 * 1024 < meta_.blockSize ∨ meta_.startSeq = 0 then some (.refused (-4))
          else
            let blockSize := meta_.blockSize.toNat
            some (.reader ⟨false, false, blockSize, meta_.startSeq, max (maxBuf / blockSize * blockSize) (2 * blockSize),
              blockSize, blockSize, [], 0⟩)

-- CreateADirectIOReadInfoReadOnly: the buffer is the mapped file without its first block.
def createADirectIOReadInfoReadOnly (file : Bytes) (offset : Nat) : Option Opened :=
  (tryPickleFileMetaInfo file).bind fun
  | .failed code => some (.refused code)
  | .oldFormat => some (.refused 1)
  | .found meta_ =>
      if meta_.blockSize < pageSize ∨ 256 * 1024 * 1024 < meta_.blockSize ∨ meta_.startSeq = 0 then some (.refused (-4))
      else if (file.length : Int) < meta_.blockSize then some (.refused (-5))
      else
        let blockSize := meta_.blockSize.toNat
        let size := (file.length - blockSize) / blockSize * blockSize
        let start := (min file.length (max blockSize offset) + blockSize - 1) / blockSize * blockSize
        some (.reader ⟨true, false, blockSize, meta_.startSeq, size, start, blockSize, pread file size blockSize, 0⟩)

section Reading

variable (crc : Crc32c) (file : Bytes)

namespace ReadInfo

-- GetNextBlockPosImpl, from the begin of the buffer.
def nextBlockPos (info : ReadInfo) (pos : Nat) : Nat :=
  if pos % info.blockSize ≠ 0 then pos - pos % info.blockSize + info.blockSize
  else if pos = info.buffer.length then pos else pos + info.blockSize

-- The size read, 0 at the end of the file, or an error.
def reload (info : ReadInfo) (expected : Nat) : ReadInfo × Int :=
  let expected := max (min (min expected info.maxBuf) (info.buffer.length * 2)) info.blockSize
  let got := pread file expected info.directOffset
  if got.length < info.blockSize then
    ({ info with buffer := [] }, if got = [] then 0 else LogError.poorRead)
  else
    let buffer := got.take (got.length / info.blockSize * info.blockSize)
    ({ info with buffer := buffer }, buffer.length)

end ReadInfo

-- What DirectIOReadImpl comes to: an error, the end of the file, or a value and the
-- place in the buffer after it.
inductive ReadEnd where
  | failed (code : Int)
  | eof
  | found (value : Bytes) (pos : Nat)
deriving DecidableEq

def endOfFile (value : Bytes) : ReadEnd := if value = [] then .eof else .failed LogError.unexpectedEof

-- The rest of the loop body once pBuffer is not at the end of the buffer; `again`
-- is the next turn of the loop.
def readBlock (info : ReadInfo) (pos next : Nat) (value : Bytes)
    (again : Nat → Nat → Bytes → Bool → Option (ReadInfo × ReadEnd)) : Option (ReadInfo × ReadEnd) :=
  asserting (pos < next ∧ next - pos ≤ info.blockSize) <|
    let block := pread info.buffer (next - pos) pos
    if info.checkBlock = true ∧ isValidBlock crc info.blockSize block = false then some (info, .failed LogError.brokenBlk)
    else
      (pickleLevelDBLogBlock crc info.startSeq info.blockSize block value).bind fun
      | .failed code => some (info, .failed code)
      | .complete value used => some (info, .found value (pos + used))
      | .more value fake =>
          again next (if next = info.buffer.length then info.buffer.length else next + info.blockSize) value fake

-- A block that ended in a fake record is read again, because a writer may have
-- gone on with it.
def readLoop : Nat → ReadInfo → Nat → Nat → Bytes → Bool → Option (ReadInfo × ReadEnd)
  | 0, _, _, _, _, _ => none
  | fuel + 1, info, pos, next, value, fake =>
      if pos = next then
        asserting (info.buffer.length = pos) <|
          if info.readOnly then some (info, endOfFile value)
          else
            asserting (2 * info.blockSize ≤ info.maxBuf ∧ (fake = true → info.blockSize ≤ info.buffer.length)) <|
              let back := if fake then info.blockSize else 0
              let (info, size) := { info with directOffset := info.directOffset + info.buffer.length - back }.reload file info.maxBuf
              if size < 0 then some (info, .failed size)
              else if size = 0 then some (info, endOfFile value)
              else
                asserting (fake = true → info.directOffset ≤ info.offset ∧ info.offset ≤ info.directOffset + info.buffer.length) <|
                  let pos := if fake then info.offset - info.directOffset else 0
                  let next := info.nextBlockPos pos
                  if fake = true ∧ info.blockSize = info.buffer.length then
                    asserting (next = info.buffer.length ∧ pos ≠ next - info.blockSize) <|
                      let (record, used) := pickleLevelDBRecord crc (pread info.buffer (next - pos) pos) false
                      if used = next - pos ∧ record.kind = .fake then some (info, .eof)
                      else readBlock crc info pos next value (readLoop fuel info)
                  else readBlock crc info pos next value (readLoop fuel info)
      else readBlock crc info pos next value (readLoop fuel info)

-- The loop passes every block of the file at most twice.
def directIOReadImpl (info : ReadInfo) : Option (ReadInfo × ReadEnd) :=
  asserting (info.status = 0) <|
    if maxLogFileSize ≤ info.offset then some (info, .eof)
    else
      asserting (info.directOffset ≤ info.offset ∧ info.offset ≤ info.directOffset + info.buffer.length) <|
        let pos := info.offset - info.directOffset
        asserting (pos ≤ info.nextBlockPos pos ∧ info.nextBlockPos pos ≤ info.buffer.length) <|
          readLoop crc file (2 * file.length + 3) info pos (info.nextBlockPos pos) [] false

-- What DirectIORead returns: a value with its offset and the next one, 1 at the
-- end of the file, or an error.
inductive ReadResult where
  | failed (code : Int)
  | eof
  | value (bytes : Bytes) (offset nextOffset : Nat)
deriving DecidableEq

namespace ReadInfo

-- UpdateReadStatus
def setStatus (info : ReadInfo) (code : Int) : ReadInfo := { info with status := if 0 < code then 0 else if code = 0 then 1 else code }

-- FixDirectIOReadInfo of a reader whose last read did not succeed.
def fix (info : ReadInfo) : Option (ReadInfo × Int) :=
  if info.readOnly then some (info, 0)
  else
    let (info, size) := { info with directOffset := info.offset / info.blockSize * info.blockSize, buffer := [] }.reload file info.blockSize
    if size ≤ 0 then some (info, size)
    else if info.checkBlock = true ∧ isValidBlock crc info.blockSize (pread info.buffer info.blockSize 0) = false then
      some (info, LogError.brokenBlk)
    else some (info, size)

-- TRY_FIX_READINFO_IF_ERROR
def tryFix (info : ReadInfo) (rest : ReadInfo → Option (ReadInfo × ReadResult)) : Option (ReadInfo × ReadResult) :=
  if info.status = 0 then rest info
  else
    (info.fix crc file).bind fun (info, size) =>
      let info := info.setStatus size
      if size < 0 then some (info, .failed size)
      else if size = 0 then some (info, .eof)
      else asserting (size = info.blockSize) <| rest info

-- CalculateReadSize, IncreaseOffset and what stands around them.
def finish (info : ReadInfo) (result : ReadEnd) : Option (ReadInfo × ReadResult) :=
  match result with
  | .failed code => some (info.setStatus code, if code = LogError.deprecateBlk then .eof else .failed code)
  | .eof => some (info.setStatus 0, .eof)
  | .found value pos =>
      asserting (info.offset ≤ info.directOffset + pos ∧ value.length < info.directOffset + pos - info.offset ∧
          pos ≤ info.buffer.length) <|
        some ({ info.setStatus 1 with offset := info.directOffset + pos }, .value value info.offset (info.directOffset + pos))

end ReadInfo

-- The next value of a reader.
def directIORead (info : ReadInfo) : Option (ReadInfo × ReadResult) :=
  info.tryFix crc file fun info =>
    asserting (info.directOffset ≤ info.offset ∧ info.offset ≤ info.directOffset + info.buffer.length ∧ info.blockSize ≤ info.offset) <|
      (directIOReadImpl crc file info).bind fun (info, result) => info.finish result

-- CheckCurrentBlock
def checkCurrentBlock (info : ReadInfo) : Bool :=
  info.offset < info.blockSize || info.buffer.length = 0 ||
    !(info.directOffset ≤ info.offset && info.offset ≤ info.directOffset + info.buffer.length) ||
    isValidBlock crc info.blockSize (pread info.buffer info.blockSize
      (info.nextBlockPos (info.offset - info.directOffset) - info.blockSize))

-- The value at an offset. Only a block that is entered at its head is checked.
def directIOReadAt (info : ReadInfo) (offset : Nat) : Option (ReadInfo × ReadResult) :=
  let offset := if offset = 0 then info.blockSize else offset
  asserting (info.blockSize ≤ offset) <|
    let checked := info.checkBlock = true ∧ offset % info.blockSize = 0 ∧
      info.offset / info.blockSize * info.blockSize < offset / info.blockSize * info.blockSize
    let moved := { info with offset := offset }
    let proceed (info : ReadInfo) : Option (ReadInfo × ReadResult) :=
      asserting (info.directOffset ≤ info.offset ∧ info.offset ≤ info.directOffset + info.buffer.length) <|
        (directIOReadImpl crc file info).bind fun (info, result) => info.finish result
    let fixed (info : ReadInfo) : Option (ReadInfo × ReadResult) :=
      if info.status ≠ 0 then info.tryFix crc file proceed
      else if checked ∧ checkCurrentBlock crc info = false then some (info, .failed LogError.brokenBlk)
      else proceed info
    if moved.directOffset ≤ offset ∧ offset ≤ moved.directOffset + moved.buffer.length then fixed moved
    else
      -- AdjustAndReload
      let (info, size) :=
        { moved with directOffset := offset / info.blockSize * info.blockSize, buffer := [] }.reload file info.blockSize
      let info := info.setStatus size
      if size < 0 then some (info, .failed size)
      else if size = 0 then some (info, .eof)
      else asserting (size = info.blockSize) <| fixed info

end Reading

end PaxosStore.DbComm
