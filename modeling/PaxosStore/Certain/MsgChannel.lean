import PaxosStore.Certain.WriteItemList

set_option autoImplicit false

namespace PaxosStore.Certain

open PaxosStore.PaxosKv PaxosStore.Codec

def kMagicNum : Nat := 0xac81

def kMsgHeaderSize : Nat := 14

structure MsgHeader where
  magicNum : Nat := kMagicNum
  msgId : UInt8
  version : UInt8 := 0
  len : Nat := 0
  checksum : Nat := 0
  result : Nat := 0
deriving DecidableEq, Repr

namespace MsgHeader

def serializeTo (h : MsgHeader) : Codec.Bytes :=
  net16 h.magicNum ++ [h.msgId, h.version] ++ net32 h.len ++ net32 h.checksum ++ net16 h.result

-- Bytes that are not in the buffer are not there to be read.
def parseFrom : Codec.Bytes → Option MsgHeader
  | m0 :: m1 :: msgId :: version :: l0 :: l1 :: l2 :: l3 :: c0 :: c1 :: c2 :: c3 :: r0 :: r1 :: _ =>
      some { magicNum := fromNet16 m0 m1, msgId := msgId, version := version, len := fromNet32 l0 l1 l2 l3,
             checksum := fromNet32 c0 c1 c2 c3, result := fromNet16 r0 r1 }
  | _ => none

end MsgHeader

-- What OnMessage is given.
structure Message where
  msgId : UInt8
  body : Codec.Bytes
deriving DecidableEq, Repr

def kMaxBufferSize : Nat := 64 * 2 ^ 20

def kMaxBatchSize : Nat := 100 * 1024

def kBatchNum : Nat := 5

structure MsgChannel where
  broken : Bool := false
  readable : Bool := false
  writable : Bool := false
  rbufLimiter : CapacityLimiter
  wbufLimiter : CapacityLimiter
  writeItemList : WriteItemList := []
  readBytes : Codec.Bytes := []
deriving DecidableEq, Repr

-- SerializeCallBackBase: SerializeTo fails or fills the ByteSize bytes it is given.
structure SerializeCallBack where
  msgId : UInt8
  byteSize : Nat
  serializeTo : Option Codec.Bytes
  small : byteSize < 2 ^ 31
  fills : ∀ body, serializeTo = some body → body.length = byteSize

-- What read answers; no bytes at all stand for a connection closed by the peer.
inductive ReadAnswer where
  | bytes (data : Codec.Bytes)
  | interrupted
  | again
  | failed
deriving DecidableEq, Repr

inductive WriteAnswer where
  | wrote (count : Nat)
  | interrupted
  | again
  | failed
deriving DecidableEq, Repr

namespace MsgChannel

def opened (maxCapacity : Nat) : MsgChannel := { rbufLimiter := ⟨maxCapacity, 0⟩, wbufLimiter := ⟨maxCapacity, 0⟩ }

def serializeMsg (msg : Message) : Codec.Bytes := ({ msgId := msg.msgId, len := wrap32 msg.body.length } : MsgHeader).serializeTo ++ msg.body

-- The messages delivered, how far the buffer is parsed, and how far it has been looked at.
structure Parsed where
  msgs : List Message
  parsedLen : Nat
  touched : Nat
deriving DecidableEq, Repr

def parseLoop (buffer : Codec.Bytes) (len : Nat) : Nat → Nat → Option Parsed
  | 0, _ => none
  | fuel + 1, curr =>
      if curr < len then
        (MsgHeader.parseFrom (buffer.drop curr)).bind fun header =>
          if wrap32 (header.len + kMsgHeaderSize) > len - curr then some ⟨[], curr, curr + kMsgHeaderSize⟩
          else if curr + kMsgHeaderSize + header.len ≤ buffer.length then
            (parseLoop buffer len fuel (wrap32 (curr + wrap32 (kMsgHeaderSize + header.len)))).map fun later =>
              { msgs := ⟨header.msgId, (buffer.drop (curr + kMsgHeaderSize)).take header.len⟩ :: later.msgs
                parsedLen := later.parsedLen
                touched := max (curr + kMsgHeaderSize + header.len) later.touched }
          else none
      else some ⟨[], curr, curr⟩

def parseMsg (buffer : Codec.Bytes) (len : Nat) : Option Parsed := parseLoop buffer len (len + 1) 0

structure Polled where
  taken : Codec.Bytes
  broken : Bool
  readable : Bool
deriving DecidableEq, Repr

-- The loop around read; a socket of which no more answers are given has nothing to read.
def readLoop : List ReadAnswer → Nat → Polled
  | [], space => ⟨[], false, decide (space = 0)⟩
  | answer :: later, space =>
      if space = 0 then ⟨[], false, true⟩
      else
        match answer with
        | .bytes data =>
            if data = [] then ⟨[], true, true⟩
            else
              let next := readLoop later (space - (data.take space).length)
              { next with taken := data.take space ++ next.taken }
        | .interrupted => readLoop later space
        | .again => ⟨[], false, false⟩
        | .failed => ⟨[], true, true⟩

structure ReadResult where
  channel : MsgChannel
  shared : SharedLimiter
  taken : Codec.Bytes
  msgs : List Message
  currSize : Nat
  touched : Nat

-- `buffer` is what the shared buffer holds when ReadMore is called.
def readMore (s : MsgChannel) (shared : SharedLimiter) (buffer : Codec.Bytes) (answers : List ReadAnswer) : Option ReadResult :=
  asserting (s.broken = false)
    (asserting (s.readable = true)
      (asserting (s.readBytes.length < buffer.length)
        ((s.rbufLimiter.freeBytes shared s.readBytes.length).bind fun (rbuf, shared) =>
          let polled := readLoop answers (buffer.length - s.readBytes.length)
          let filled := s.readBytes ++ polled.taken
          (parseMsg (filled ++ buffer.drop filled.length) filled.length).bind fun parsed =>
            let (granted, rbuf, shared) := rbuf.allocBytes shared (sub32 filled.length parsed.parsedLen)
            some {
              channel := { s with
                broken := polled.broken || !granted
                readable := polled.readable
                rbufLimiter := rbuf
                readBytes := if granted then filled.drop parsed.parsedLen else [] }
              shared := shared
              taken := polled.taken
              msgs := parsed.msgs
              currSize := filled.length
              touched := parsed.touched })))

-- What the loop behind writev makes of the iovecs.
def advance : Nat → List IoVec → List IoVec
  | _, [] => []
  | ret, vec :: rest =>
      if vec.len ≤ ret then { vec with base := vec.base + vec.len, len := 0 } :: advance (ret - vec.len) rest
      else { vec with base := vec.base + ret, len := vec.len - ret } :: rest

def gathered (vecs : List IoVec) : Codec.Bytes := vecs.flatMap fun vec => (vec.data.drop vec.base).take vec.len

structure Flushed where
  channel : MsgChannel
  shared : SharedLimiter
  sent : Codec.Bytes := []
  more : Bool := false
deriving DecidableEq, Repr

def cleaned (s : MsgChannel) (shared : SharedLimiter) (items : WriteItemList) (vecs : List IoVec) : Option (MsgChannel × SharedLimiter) :=
  (items.cleanWrittenItems vecs).bind fun (items, free) =>
    (s.wbufLimiter.freeBytes shared free).map fun (wbuf, shared) => ({ s with writeItemList := items, wbufLimiter := wbuf }, shared)

-- One round of the loop of FlushBuffer; `more` says whether there is another one.
def flushRound (s : MsgChannel) (shared : SharedLimiter) (answer : WriteAnswer) : Option Flushed :=
  if s.broken then some { channel := s, shared := shared }
  else
    let got := s.writeItemList.getFirstNIterms kBatchNum
    if got.2 = [] then some { channel := s, shared := shared }
    else
      match answer with
      | .wrote count =>
          let sent := (gathered got.2).take count
          (s.cleaned shared got.1 (if 0 < sent.length then advance sent.length got.2 else got.2)).map fun next =>
            { channel := next.1, shared := next.2, sent := sent, more := true }
      | .interrupted => (s.cleaned shared got.1 got.2).map fun next => { channel := next.1, shared := next.2, more := true }
      | .again => (s.cleaned shared got.1 got.2).map fun next => { channel := { next.1 with writable := false }, shared := next.2 }
      | .failed => (s.cleaned shared got.1 got.2).map fun next => { channel := { next.1 with broken := true }, shared := next.2 }

-- A socket of which no more answers are given takes nothing.
def flushLoop : List WriteAnswer → MsgChannel → SharedLimiter → Option Flushed
  | [], s, shared => s.flushRound shared .again
  | answer :: later, s, shared =>
      (s.flushRound shared answer).bind fun round =>
        if round.more then
          (flushLoop later round.channel round.shared).map fun rest => { rest with sent := round.sent ++ rest.sent }
        else some round

def flushBuffer (s : MsgChannel) (shared : SharedLimiter) (answers : List WriteAnswer) : Option Flushed :=
  if s.broken then some { channel := s, shared := shared } else asserting (s.writable = true) (flushLoop answers s shared)

def serializeBatch : List SerializeCallBack → Option (List Message)
  | [] => some []
  | cb :: later => cb.serializeTo.bind fun body => (serializeBatch later).map fun msgs => ⟨cb.msgId, body⟩ :: msgs

-- `queued` are the messages whose buffers were added to the list.
structure Written where
  success : Bool
  channel : MsgChannel
  shared : SharedLimiter
  queued : List Message := []
deriving DecidableEq, Repr

-- `batch` are the callbacks from prev on, `totalSize` their bytes.
def writeLoop : List SerializeCallBack → List SerializeCallBack → Nat → MsgChannel → SharedLimiter → Written
  | [], _, _, s, shared => { success := true, channel := s, shared := shared }
  | cb :: later, batch, totalSize, s, shared =>
      let totalSize := totalSize + (cb.byteSize + kMsgHeaderSize)
      if later ≠ [] ∧ totalSize < kMaxBatchSize then writeLoop later (batch ++ [cb]) totalSize s shared
      else
        match serializeBatch (batch ++ [cb]) with
        | none => { success := false, channel := s, shared := shared }
        | some msgs =>
            let (granted, wbuf, shared) := s.wbufLimiter.allocBytes shared totalSize
            if granted then
              let next := writeLoop later [] 0
                { s with wbufLimiter := wbuf, writeItemList := s.writeItemList.addWriteItem (msgs.flatMap serializeMsg) totalSize } shared
              { next with queued := msgs ++ next.queued }
            else { success := false, channel := { s with wbufLimiter := wbuf }, shared := shared }

def write (s : MsgChannel) (shared : SharedLimiter) (callbacks : List SerializeCallBack) : Written := writeLoop callbacks [] 0 s shared

-- ~MsgChannel as far as the write side goes, and ~WriteItemList.
def destroy (s : MsgChannel) (shared : SharedLimiter) : Option SharedLimiter :=
  (s.wbufLimiter.freeBytes shared s.writeItemList.freeAllWriteItems.2).bind fun freed =>
    asserting (s.writeItemList.freeAllWriteItems.1 = []) (some freed.2)

end MsgChannel

end PaxosStore.Certain
