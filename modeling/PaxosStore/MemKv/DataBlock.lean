import PaxosStore.PaxosKv.PropNum
import PaxosStore.Codec.Bytes

set_option autoImplicit false

namespace PaxosStore.MemKv

open PaxosStore.PaxosKv PaxosStore.Codec

-- A block of 512 MB less its meta.
def maxBlockSize : Nat := 512 * 1024 * 1024 - 128

-- What a block in shared memory holds, `reserve` being the last byte of its meta,
-- which lies in front of it.
structure DataBlock where
  reserve : UInt8
  pBlock : List UInt8
  usedSize : Nat
  small : pBlock.length ≤ maxBlockSize
  inside : usedSize ≤ pBlock.length

structure HeadWrapper where
  offset : Nat
  liteHead : Bool
deriving DecidableEq, Repr

namespace HeadWrapper

def headSize (head : HeadWrapper) : Nat := if head.liteHead then 17 else 56

-- Where iDataLen is, behind the start flag.
def dataLenOffset (head : HeadWrapper) : Nat := head.offset + 1 + (if head.liteHead then 13 else 52)

end HeadWrapper

def cStartFlag : UInt8 := 0x12

def cLiteStartFlag : UInt8 := 0x13

def cEndFlag : UInt8 := 0x34

def liteMinRecordSize : Nat := 19

def invalidOffset : Int := -100

def invalidRecordLen : Int := -101

def invalidReachEnd : Int := -107

namespace DataBlock

def dataLen (b : DataBlock) (head : HeadWrapper) : Option Nat :=
  match b.pBlock.drop head.dataLenOffset with
  | a :: b :: c :: d :: _ => some (fromNet32 d c b a)
  | _ => none

-- A size_t: nothing is lost here.
def recordSize (b : DataBlock) (head : HeadWrapper) : Option Nat := (b.dataLen head).map fun len => head.headSize + len + 2

def getHeadWrapper (b : DataBlock) (offset : Nat) : Option (Option HeadWrapper) :=
  b.pBlock[offset]?.map fun flag =>
    if flag = cStartFlag then some ⟨offset, false⟩ else if flag = cLiteStartFlag then some ⟨offset, true⟩ else none

-- The byte that ends at a position; the subtraction is 64 bits wide.
def byteBefore (b : DataBlock) (position : Nat) : Option UInt8 :=
  if position = 0 then some b.reserve else b.pBlock[position - 1]?

def newIsRecordOK (b : DataBlock) (offset : Nat) : Option Int :=
  if wrap32 (offset + liteMinRecordSize) > b.usedSize then some invalidReachEnd
  else
    (b.getHeadWrapper offset).bind fun found =>
      match found with
      | none => some invalidOffset
      | some head =>
          (b.recordSize head).bind fun size =>
            if wrap32 (offset + wrap32 size) > b.usedSize then some invalidRecordLen
            else (b.byteBefore (wrap32 (offset + wrap32 size))).bind fun flag => some (if flag ≠ cEndFlag then invalidOffset else 0)

def skipLoop (b : DataBlock) (offset : Nat) : Nat → Nat → Int → Option (Nat × Int)
  | 0, _, _ => none
  | fuel + 1, skipLen, ret =>
      if ret ≠ 0 ∧ ret ≠ invalidReachEnd then
        (b.newIsRecordOK (wrap32 (offset + wrap32 (skipLen + 1)))).bind fun next => b.skipLoop offset fuel (wrap32 (skipLen + 1)) next
      else some (skipLen, ret)

structure ReadResult where
  readLen : Int
  head : Option HeadWrapper
  skipLen : Nat
deriving DecidableEq, Repr

def getRecordSkipErr (b : DataBlock) (offset : Nat) : Option ReadResult :=
  (b.newIsRecordOK offset).bind fun first =>
    (b.skipLoop offset (b.usedSize + 1) 0 first).bind fun (skipLen, ret) =>
      asserting (ret = 0 ∨ ret = invalidReachEnd)
        (if ret = invalidReachEnd then some ⟨0, none, skipLen⟩
        else
          (b.getHeadWrapper (wrap32 (offset + skipLen))).bind fun found =>
            found.bind fun head =>
              (b.recordSize head).bind fun size =>
                asserting (0 < size) (asserting (0 < int32 (size + skipLen)) (some ⟨int32 (size + skipLen), some head, skipLen⟩)))

-- One record that the scan of a block comes by.
structure BlockRead where
  offset : Nat
  skipLen : Nat
  readLen : Int
  head : HeadWrapper
deriving DecidableEq, Repr

def buildMemIdxOnOneBlock (b : DataBlock) : Nat → Nat → Option (List BlockRead)
  | 0, _ => none
  | fuel + 1, offset =>
      (b.getRecordSkipErr offset).bind fun result =>
        asserting (0 ≤ result.readLen)
          (if result.readLen = 0 then some []
          else result.head.bind fun head =>
            (b.buildMemIdxOnOneBlock fuel (wrap32 (offset + result.readLen.toNat))).map fun rest =>
              ⟨offset, result.skipLen, result.readLen, head⟩ :: rest)

-- A record is read whole and lies in the used part.
structure Inside (b : DataBlock) (read : BlockRead) : Prop where
  position : read.head.offset = read.offset + read.skipLen
  length : ∃ size, b.recordSize read.head = some size ∧ read.readLen = ((size + read.skipLen : Nat) : Int)
  positive : 0 < read.readLen
  used : read.offset + read.readLen.toNat ≤ b.usedSize

-- Each read starts where the one before it ended.
def Chained : Nat → List BlockRead → Prop
  | _, [] => True
  | offset, read :: later => read.offset = offset ∧ Chained (offset + read.readLen.toNat) later

-- The scan from the first byte ends, and every read is inside.
def Scans (b : DataBlock) : Prop :=
  ∃ fuel reads, b.buildMemIdxOnOneBlock fuel 0 = some reads ∧ (∀ read ∈ reads, b.Inside read) ∧ Chained 0 reads

-- The positions that the scan tries, taking records by their full lengths.
inductive Examined (b : DataBlock) : Nat → Prop where
  | start : Examined b 0
  | skip (offset : Nat) (ret : Int) (before : Examined b offset) (tried : b.newIsRecordOK offset = some ret) (wrong : ret ≠ 0)
      (more : ret ≠ invalidReachEnd) : Examined b (offset + 1)
  | record (offset : Nat) (head : HeadWrapper) (size : Nat) (before : Examined b offset) (tried : b.newIsRecordOK offset = some 0)
      (found : b.getHeadWrapper offset = some (some head)) (length : b.recordSize head = some size) : Examined b (offset + size)

-- A start flag whose iDataLen is out of the block, or whose record passes 2^32 and
-- comes down on an end flag.
def Overruns (b : DataBlock) (offset : Nat) : Prop :=
  offset + liteMinRecordSize ≤ b.usedSize ∧ ∃ head, b.getHeadWrapper offset = some (some head) ∧
    (b.pBlock.length < head.dataLenOffset + 4 ∨
      ∃ size, b.recordSize head = some size ∧ 2 ^ 32 ≤ offset + size ∧ wrap32 (offset + size) ≤ b.usedSize ∧
        b.byteBefore (wrap32 (offset + size)) = some cEndFlag)

end DataBlock

end PaxosStore.MemKv
