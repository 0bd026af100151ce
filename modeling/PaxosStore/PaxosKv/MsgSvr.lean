import PaxosStore.Codec.Bytes
import PaxosStore.PaxosKv.PropNum

set_option autoImplicit false

namespace PaxosStore.PaxosKv.MsgSvr

open PaxosStore.Codec

variable {M : Type}

-- What protobuf does with a message: its ByteSize, the bytes SerializeToArray writes
-- when it succeeds, and what ParseFromArray makes of an array.
structure Protobuf (M : Type) where
  byteSize : M → Nat
  serialize : M → Option Bytes
  parse : Bytes → Option M

-- Parsing undoes serialising.
structure Protobuf.Lawful (proto : Protobuf M) : Prop where
  size : ∀ msg data, proto.serialize msg = some data → data.length = proto.byteSize msg
  back : ∀ msg data, proto.serialize msg = some data → proto.parse data = some msg

def SERIALIZE_PAXOS_MESSAGE_ERR : Int := -50002

def BROKEN_PAXOS_MESSAGE : Int := -50104

def kIntSize : Nat := 4

-- The bytes are those from the front of the buffer that msg_size counts.
def dumpMsg (proto : Protobuf M) (msg : M) (bufferSize : Nat) : Int × Bytes :=
  if proto.byteSize msg + kIntSize > bufferSize then (1, [])
  else
    match proto.serialize msg with
    | none => (SERIALIZE_PAXOS_MESSAGE_ERR, [])
    | some data => (0, net32 (proto.byteSize msg) ++ data)

structure Pickled (M : Type) where
  ret : Int
  msgSize : Nat := 0
  msg : Option M := none

-- An int read from the buffer in host order and passed to ntohl.
def totalLen : Bytes → Option Int
  | a :: b :: c :: d :: _ => some (int32 (fromNet32 a b c d))
  | _ => none

def pickleMsg (proto : Protobuf M) (buffer : Bytes) : Pickled M :=
  match totalLen buffer with
  | none => { ret := 1 }
  | some len =>
      if 0 ≥ len then { ret := -1 }
      else if kIntSize + len.toNat > buffer.length then { ret := 1 }
      else
        match proto.parse ((buffer.drop kIntSize).take len.toNat) with
        | none => { ret := BROKEN_PAXOS_MESSAGE, msgSize := len.toNat + kIntSize }
        | some msg => { ret := 0, msgSize := len.toNat + kIntSize, msg := some msg }

def recvBufferSize : Nat := 32 * 1024 * 1024

-- `recvBuffer` holds the first recv_size_ bytes of recv_buffer_.
structure PLogClientSession where
  cliFd : Int := -1
  closeMark : Bool := false
  recvBuffer : Bytes := []
deriving DecidableEq, Repr

def PLogClientSession.init (s : PLogClientSession) (cliFd : Nat) : Option PLogClientSession :=
  asserting (-1 = s.cliFd) (asserting (0 = s.recvBuffer.length) (some { s with cliFd := cliFd }))

-- What read() answers: it takes at most `count` of the bytes sent, it finds the
-- connection closed or no bytes there, or it fails otherwise.
inductive ReadAnswer where
  | bytes (count : Nat)
  | closed
  | again
  | failed
deriving DecidableEq, Repr

structure ReadDone where
  ret : Int
  session : PLogClientSession
  unread : Bytes
deriving DecidableEq, Repr

-- `unread` are the bytes of the stream not read so far.
def PLogClientSession.handleRead (s : PLogClientSession) (answer : ReadAnswer) (unread : Bytes) : Option ReadDone :=
  asserting (0 ≤ s.cliFd)
    (if s.recvBuffer.length = recvBufferSize then some ⟨1, s, unread⟩
    else
      asserting (0 < recvBufferSize - s.recvBuffer.length)
        (match answer with
        | .closed => some ⟨0, { s with closeMark := true }, unread⟩
        | .again => some ⟨0, s, unread⟩
        | .failed => some ⟨-1, s, unread⟩
        | .bytes count =>
            let got := unread.take (min count (recvBufferSize - s.recvBuffer.length))
            if got.length = 0 then some ⟨0, s, unread⟩
            else
              asserting (s.recvBuffer.length + got.length ≤ recvBufferSize)
                (some ⟨if s.recvBuffer.length + got.length = recvBufferSize then 1 else 0,
                  { s with recvBuffer := s.recvBuffer ++ got }, unread.drop got.length⟩)))

structure Handled (M : Type) where
  ret : Int
  handledSize : Nat
  msgs : List M

def recvLoop (proto : Protobuf M) (recvBuffer : Bytes) : Nat → Nat → List M → Option (Handled M)
  | 0, _, _ => none
  | fuel + 1, handledSize, msgs =>
      if handledSize < recvBuffer.length then
        let pickled := pickleMsg proto (recvBuffer.drop handledSize)
        if pickled.ret < 0 then some ⟨pickled.ret, handledSize, msgs⟩
        else if pickled.ret = 1 then some ⟨0, handledSize, msgs⟩
        else
          asserting (0 = pickled.ret)
            (asserting (0 < pickled.msgSize)
              (asserting (handledSize + pickled.msgSize ≤ recvBuffer.length)
                (recvLoop proto recvBuffer fuel (handledSize + pickled.msgSize) (msgs ++ pickled.msg.toList))))
      else some ⟨0, handledSize, msgs⟩

structure RecvDone (M : Type) where
  ret : Int
  msgs : List M
  session : PLogClientSession

def PLogClientSession.handleRecvBuffer (proto : Protobuf M) (s : PLogClientSession) : Option (RecvDone M) :=
  if 0 = s.recvBuffer.length then some ⟨0, [], s⟩
  else
    (recvLoop proto s.recvBuffer (s.recvBuffer.length + 1) 0 []).bind fun handled =>
      if handled.ret < 0 then some ⟨handled.ret, handled.msgs, s⟩
      else
        asserting (handled.handledSize ≤ s.recvBuffer.length)
          (some ⟨0, handled.msgs,
            if handled.handledSize ≠ 0 then { s with recvBuffer := s.recvBuffer.drop handled.handledSize } else s⟩)

-- A session, unless it has been deleted, with the stream that its peer sends and the
-- messages handed over so far.
structure Serving (M : Type) where
  session : Option PLogClientSession
  unread : Bytes
  msgs : List M := []

def processRead (proto : Protobuf M) (st : Serving M) (answer : ReadAnswer) : Option (Serving M) :=
  match st.session with
  | none => some st
  | some s =>
      asserting (0 ≤ s.cliFd)
        ((s.handleRead answer st.unread).bind fun done =>
          if 0 > done.ret then some { st with session := none, unread := done.unread }
          else
            (done.session.handleRecvBuffer proto).map fun (handled : RecvDone M) => {
              session := if handled.ret ≠ 0 ∨ handled.session.closeMark = true then none else some handled.session
              unread := done.unread
              msgs := st.msgs ++ handled.msgs })

-- The poller calls process_read of a session as often as it is ready.
def runReads (proto : Protobuf M) : Serving M → List ReadAnswer → Option (Serving M)
  | st, [] => some st
  | st, answer :: later => (processRead proto st answer).bind fun after => runReads proto after later

def accepted (cliFd : Nat) (stream : Bytes) : Option (Serving M) :=
  (PLogClientSession.init {} cliFd).map fun s => { session := some s, unread := stream }

end PaxosStore.PaxosKv.MsgSvr
