import PaxosStore.PaxosKv.MsgSvr
import PaxosStore.Codec.Frames

set_option autoImplicit false

namespace PaxosStore.PaxosKv.MsgSvr

open PaxosStore.Codec

variable {M : Type}

theorem total_len_append (buf later : Bytes) (len : Int) (read : totalLen buf = some len) : totalLen (buf ++ later) = some len := by
  match buf with
  | a :: b :: c :: d :: data => exact read

theorem total_len_long (buf : Bytes) (long : kIntSize ≤ buf.length) : ∃ len, totalLen buf = some len := by
  match buf, long with
  | _ :: _ :: _ :: _ :: _, _ => exact ⟨_, rfl⟩
  | [], long | [_], long | [_, _], long | [_, _, _], long => simp [kIntSize] at long

theorem total_len_short (buf : Bytes) (len : Int) (read : totalLen buf = some len) : kIntSize ≤ buf.length := by
  match buf with
  | a :: b :: c :: d :: data => simp [kIntSize]

theorem total_len_dump (size : Nat) (small : size < 2 ^ 31) (data : Bytes) : totalLen (net32 size ++ data) = some (size : Int) := by
  show some (int32 (fromNet32 (UInt8.ofNat (size / 2 ^ 24)) (UInt8.ofNat (size / 2 ^ 16)) (UInt8.ofNat (size / 2 ^ 8)) (UInt8.ofNat size))) = _
  rw [from_net32_ofNat size (by omega), int32_small size small]

-- What a session can cut from the front of its buffer: a frame longer than the buffer
-- never becomes whole.
def frameCut (proto : Protobuf M) (buf : Bytes) : Cut M :=
  match totalLen buf with
  | none => .more
  | some len =>
      if 0 ≥ len then .bad
      else if kIntSize + len.toNat > min buf.length recvBufferSize then .more
      else
        match proto.parse ((buf.drop kIntSize).take len.toNat) with
        | none => .bad
        | some msg => .one msg (len.toNat + kIntSize)

theorem frame_cut_whole (proto : Protobuf M) (buf later : Bytes) (len : Int) (read : totalLen buf = some len) (positive : 0 < len)
    (whole : kIntSize + len.toNat ≤ min buf.length recvBufferSize) : frameCut proto (buf ++ later) = frameCut proto buf := by
  have more : (buf ++ later).length = buf.length + later.length := List.length_append
  have data : ((buf ++ later).drop kIntSize).take len.toNat = (buf.drop kIntSize).take len.toNat := by
    rw [List.drop_append_of_le_length (by omega), List.take_append_of_le_length (by rw [List.length_drop]; omega)]
  rw [frameCut, frameCut, total_len_append buf later len read, read]
  dsimp only
  rw [if_neg (by omega), if_neg (by omega), if_neg (by omega), if_neg (by omega), data]

theorem frame_cut_inversion (proto : Protobuf M) (buf : Bytes) (len : Int) (read : totalLen buf = some len) :
    (len ≤ 0 ∧ frameCut proto buf = .bad) ∨
      (0 < len ∧ min buf.length recvBufferSize < kIntSize + len.toNat ∧ frameCut proto buf = .more) ∨
      (0 < len ∧ kIntSize + len.toNat ≤ min buf.length recvBufferSize ∧
        (proto.parse ((buf.drop kIntSize).take len.toNat) = none ∧ frameCut proto buf = .bad ∨
          ∃ msg, proto.parse ((buf.drop kIntSize).take len.toNat) = some msg ∧ frameCut proto buf = .one msg (len.toNat + kIntSize))) := by
  rw [frameCut, read]
  dsimp only
  by_cases low : 0 ≥ len
  · rw [if_pos low]
    exact .inl ⟨low, rfl⟩
  · rw [if_neg low]
    by_cases short : kIntSize + len.toNat > min buf.length recvBufferSize
    · rw [if_pos short]
      exact .inr (.inl ⟨by omega, short, rfl⟩)
    · rw [if_neg short]
      refine .inr (.inr ⟨by omega, by omega, ?_⟩)
      cases parsed : proto.parse ((buf.drop kIntSize).take len.toNat) with
      | none => exact .inl ⟨rfl, rfl⟩
      | some msg => exact .inr ⟨msg, rfl, rfl⟩

theorem frame_cut_none (proto : Protobuf M) (buf : Bytes) (read : totalLen buf = none) : frameCut proto buf = .more := by
  rw [frameCut, read]

theorem frame_cut_steady (proto : Protobuf M) : Steady (frameCut proto) := by
  constructor
  · intro buf later msg size first
    cases read : totalLen buf with
    | none => rw [frame_cut_none proto buf read] at first; cases first
    | some len =>
        rcases frame_cut_inversion proto buf len read with ⟨-, same⟩ | ⟨-, -, same⟩ | ⟨positive, whole, ⟨-, same⟩ | ⟨found, -, same⟩⟩
        · rw [same] at first; cases first
        · rw [same] at first; cases first
        · rw [same] at first; cases first
        · obtain ⟨rfl, rfl⟩ := Cut.one.inj (same.symm.trans first)
          exact ⟨by omega, by omega, by rw [frame_cut_whole proto buf later len read positive whole, same]⟩
  · intro buf later bad
    cases read : totalLen buf with
    | none => rw [frame_cut_none proto buf read] at bad; cases bad
    | some len =>
        rcases frame_cut_inversion proto buf len read with ⟨low, -⟩ | ⟨-, -, same⟩ | ⟨positive, whole, -⟩
        · rw [frameCut, total_len_append buf later len read]
          exact if_pos low
        · rw [same] at bad; cases bad
        · rw [frame_cut_whole proto buf later len read positive whole, bad]

theorem frame_cut_dump (proto : Protobuf M) (lawful : proto.Lawful) (msg : M) (bufferSize : Nat) (later : Bytes)
    (dumped : (dumpMsg proto msg bufferSize).1 = 0) (filled : 0 < proto.byteSize msg)
    (fits : proto.byteSize msg + kIntSize ≤ recvBufferSize) :
    frameCut proto ((dumpMsg proto msg bufferSize).2 ++ later) = .one msg (dumpMsg proto msg bufferSize).2.length := by
  unfold dumpMsg at dumped ⊢
  by_cases small : proto.byteSize msg + kIntSize > bufferSize
  · rw [if_pos small] at dumped
    cases dumped
  · rw [if_neg small] at dumped ⊢
    cases written : proto.serialize msg with
    | none =>
        rw [written] at dumped
        cases dumped
    | some data =>
        have size := lawful.size msg data written
        have length : (net32 (proto.byteSize msg) ++ data).length = kIntSize + proto.byteSize msg := by
          rw [List.length_append, net32_length, size, kIntSize]
        have body : ((net32 (proto.byteSize msg) ++ data).drop kIntSize).take (proto.byteSize msg : Int).toNat = data := by
          show data.take (proto.byteSize msg : Int).toNat = data
          rw [Int.toNat_natCast, ← size, List.take_length]
        have read := total_len_dump (proto.byteSize msg) (by unfold recvBufferSize at fits; omega) data
        have whole : kIntSize + (proto.byteSize msg : Int).toNat ≤ min (net32 (proto.byteSize msg) ++ data).length recvBufferSize := by
          rw [length, Int.toNat_natCast]
          omega
        dsimp only
        rw [frame_cut_whole proto _ later _ read (by omega) whole]
        rcases frame_cut_inversion proto _ _ read with ⟨low, -⟩ | ⟨-, short, -⟩ | ⟨-, -, ⟨no, -⟩ | ⟨found, parsed, same⟩⟩
        · omega
        · omega
        · rw [body, lawful.back msg data written] at no
          cases no
        · rw [body, lawful.back msg data written] at parsed
          obtain rfl := Option.some.inj parsed
          rw [same, length, Int.toNat_natCast, Nat.add_comm]

-- In a buffer no longer than the session's, pickle_msg finds what can be cut.
theorem pickle_msg_cut (proto : Protobuf M) (buf : Bytes) (inside : buf.length ≤ recvBufferSize) :
    (frameCut proto buf = .more ∧ (pickleMsg proto buf).ret = 1) ∨ (frameCut proto buf = .bad ∧ (pickleMsg proto buf).ret < 0) ∨
      ∃ msg size, frameCut proto buf = .one msg size ∧ pickleMsg proto buf = ⟨0, size, some msg⟩ := by
  cases read : totalLen buf with
  | none => exact .inl ⟨frame_cut_none proto buf read, by rw [pickleMsg, read]⟩
  | some len =>
      rw [pickleMsg, read]
      dsimp only
      rcases frame_cut_inversion proto buf len read with ⟨low, same⟩ | ⟨positive, short, same⟩ | ⟨positive, whole, parses⟩
      · rw [if_pos low]
        exact .inr (.inl ⟨same, by dsimp only; omega⟩)
      · rw [if_neg (by omega), if_pos (by omega)]
        exact .inl ⟨same, rfl⟩
      · rw [if_neg (by omega), if_neg (by omega)]
        rcases parses with ⟨parsed, same⟩ | ⟨msg, parsed, same⟩
        · rw [parsed]
          exact .inr (.inl ⟨same, by simp [BROKEN_PAXOS_MESSAGE]⟩)
        · rw [parsed]
          exact .inr (.inr ⟨msg, _, same, rfl⟩)

-- The loop of HandleRecvBuffer hands over what is cut from the buffer.
theorem recv_loop_framed (proto : Protobuf M) (recvBuffer : Bytes) (inside : recvBuffer.length ≤ recvBufferSize) (buf : Bytes)
    (msgs : List M) (left : Bytes) (framed : Framed (frameCut proto) buf msgs left) (fuel handledSize : Nat) (front : List M)
    (place : recvBuffer.drop handledSize = buf) (reached : handledSize ≤ recvBuffer.length)
    (enough : recvBuffer.length - handledSize < fuel) :
    ∃ ret, (ret = 0 ∧ frameCut proto left ≠ .bad ∨ ret < 0 ∧ frameCut proto left = .bad) ∧
      recvLoop proto recvBuffer fuel handledSize front = some ⟨ret, recvBuffer.length - left.length, front ++ msgs⟩ := by
  obtain ⟨fuel, rfl⟩ : ∃ less, fuel = less + 1 := ⟨fuel - 1, by omega⟩
  have length := congrArg List.length place
  rw [List.length_drop] at length
  induction framed generalizing fuel handledSize front with
  | stop buf no =>
      rw [recvLoop, List.append_nil, place]
      by_cases here : handledSize < recvBuffer.length
      · rw [if_pos here]
        dsimp only
        rcases pickle_msg_cut proto buf (by omega) with ⟨more, ret⟩ | ⟨bad, ret⟩ | ⟨msg, size, first, -⟩
        · rw [if_neg (by omega), if_pos ret]
          exact ⟨0, .inl ⟨rfl, by rw [more]; exact nofun⟩, by rw [← length, Nat.sub_sub_self reached]⟩
        · rw [if_pos ret]
          exact ⟨_, .inr ⟨ret, bad⟩, by rw [← length, Nat.sub_sub_self reached]⟩
        · exact absurd first (no msg size)
      · rw [if_neg here]
        obtain rfl : buf = [] := List.length_eq_zero_iff.mp (by omega)
        exact ⟨0, .inl ⟨rfl, by rw [frame_cut_none proto [] rfl]; exact nofun⟩,
          by rw [show handledSize = recvBuffer.length by omega]; rfl⟩
  | next buf msg size msgs left first later ih =>
      obtain ⟨positive, fits, -⟩ := (frame_cut_steady proto).one buf [] msg size first
      have same : pickleMsg proto buf = ⟨0, size, some msg⟩ := by
        rcases pickle_msg_cut proto buf (by omega) with ⟨more, -⟩ | ⟨bad, -⟩ | ⟨other, width, again, same⟩
        · rw [first] at more; cases more
        · rw [first] at bad; cases bad
        · obtain ⟨rfl, rfl⟩ := Cut.one.inj (first.symm.trans again)
          exact same
      obtain ⟨less, rfl⟩ : ∃ less, fuel = less + 1 := ⟨fuel - 1, by omega⟩
      obtain ⟨ret, ends, done⟩ := ih (handledSize + size) (front ++ [msg]) (by rw [← place, List.drop_drop]) (by omega) less (by omega)
        (by rw [List.length_drop]; omega)
      refine ⟨ret, ends, ?_⟩
      rw [recvLoop, if_pos (by omega), place, same]
      dsimp only
      rw [if_neg (by omega), if_neg (by omega), asserting, if_pos rfl, asserting, if_pos positive, asserting, if_pos (by omega)]
      rw [List.append_assoc] at done
      exact done

namespace PLogClientSession

theorem handle_recv_buffer_framed (proto : Protobuf M) (s : PLogClientSession) (msgs : List M) (left : Bytes)
    (inside : s.recvBuffer.length ≤ recvBufferSize) (framed : Framed (frameCut proto) s.recvBuffer msgs left) :
    (frameCut proto left ≠ .bad ∧ s.handleRecvBuffer proto = some ⟨0, msgs, { s with recvBuffer := left }⟩) ∨
      (frameCut proto left = .bad ∧ ∃ ret, ret < 0 ∧ s.handleRecvBuffer proto = some ⟨ret, msgs, s⟩) := by
  unfold handleRecvBuffer
  by_cases empty : 0 = s.recvBuffer.length
  · rw [if_pos empty]
    have nothing : s.recvBuffer = [] := List.length_eq_zero_iff.mp empty.symm
    rw [nothing] at framed
    obtain ⟨rfl, rfl⟩ := framed_unique (frameCut proto) [] msgs [] left []
      framed (.stop [] fun msg size first => by rw [frame_cut_none proto [] rfl] at first; cases first)
    refine .inl ⟨by rw [frame_cut_none proto [] rfl]; exact nofun, ?_⟩
    rw [← nothing]
  · rw [if_neg empty]
    obtain ⟨-, front, split⟩ := framed_rest (frameCut proto) _ msgs left framed
    have total : s.recvBuffer.length = front.length + left.length := by rw [split, List.length_append]
    obtain ⟨ret, ends, done⟩ := recv_loop_framed proto s.recvBuffer inside s.recvBuffer msgs left framed (s.recvBuffer.length + 1) 0 []
      rfl (by omega) (by omega)
    rw [done, Option.bind_some, List.nil_append]
    dsimp only
    rcases ends with ⟨rfl, fine⟩ | ⟨negative, bad⟩
    · refine .inl ⟨fine, ?_⟩
      rw [if_neg (by omega), asserting, if_pos (by omega)]
      by_cases none : s.recvBuffer.length - left.length ≠ 0
      · rw [if_pos none, show s.recvBuffer.length - left.length = front.length by omega, split, List.drop_left]
      · rw [if_neg none]
        obtain rfl : front = [] := List.length_eq_zero_iff.mp (by omega)
        rw [List.nil_append] at split
        rw [← split]
    · rw [if_pos negative]
      exact .inr ⟨bad, ret, negative, rfl⟩

-- A read fails, or the session keeps what it has got.
theorem handle_read_keeps (s : PLogClientSession) (answer : ReadAnswer) (unread : Bytes) (init : 0 ≤ s.cliFd)
    (inside : s.recvBuffer.length ≤ recvBufferSize) :
    ∃ done, s.handleRead answer unread = some done ∧
      (done.ret < 0 ∧ done.unread = unread ∧ answer = .failed ∨
        0 ≤ done.ret ∧ ∃ got, unread = got ++ done.unread ∧ s.recvBuffer.length + got.length ≤ recvBufferSize ∧
          done.session = { s with recvBuffer := s.recvBuffer ++ got, closeMark := done.session.closeMark } ∧
          (answer ≠ .closed → done.session.closeMark = s.closeMark) ∧
          ∀ count, answer = .bytes (count + 1) → s.recvBuffer.length < recvBufferSize → unread ≠ [] → got ≠ []) := by
  unfold handleRead
  rw [asserting, if_pos init]
  by_cases full : s.recvBuffer.length = recvBufferSize
  · rw [if_pos full]
    refine ⟨_, rfl, .inr ⟨by dsimp only; omega, [], rfl, by rw [List.length_nil]; omega, by dsimp only; rw [List.append_nil], fun _ => rfl, ?_⟩⟩
    intro count _ room
    omega
  · rw [if_neg full, asserting, if_pos (by omega)]
    cases answer with
    | closed =>
        exact ⟨_, rfl, .inr ⟨Int.le_refl _, [], rfl, inside, by dsimp only; rw [List.append_nil], fun other => absurd rfl other, fun _ wrong => by cases wrong⟩⟩
    | again => exact ⟨_, rfl, .inr ⟨Int.le_refl _, [], rfl, inside, by dsimp only; rw [List.append_nil], fun _ => rfl, fun _ wrong => by cases wrong⟩⟩
    | failed => exact ⟨_, rfl, .inl ⟨by dsimp only; omega, rfl, rfl⟩⟩
    | bytes count =>
        dsimp only
        have taken : (unread.take (min count (recvBufferSize - s.recvBuffer.length))).length ≤ recvBufferSize - s.recvBuffer.length := by
          rw [List.length_take]
          omega
        by_cases nothing : (unread.take (min count (recvBufferSize - s.recvBuffer.length))).length = 0
        · rw [if_pos nothing]
          refine ⟨_, rfl, .inr ⟨Int.le_refl _, [], rfl, inside, by dsimp only; rw [List.append_nil], fun _ => rfl, ?_⟩⟩
          rintro less same room some
          obtain rfl := ReadAnswer.bytes.inj same
          have bytes := List.length_pos_iff.mpr some
          rw [List.length_take] at nothing
          omega
        · rw [if_neg nothing, asserting, if_pos (by omega)]
          refine ⟨_, rfl, .inr ⟨by dsimp only; split <;> omega, _, ?_, by omega, rfl, fun _ => rfl, fun _ _ _ _ none => nothing (by rw [none]; rfl)⟩⟩
          dsimp only
          rw [List.length_take, List.take_eq_take_min, List.take_append_drop]

end PLogClientSession

-- The messages handed over are the frames of the bytes read, and a session holds
-- what is left of them.
structure Serves (proto : Protobuf M) (stream : Bytes) (st : Serving M) (received left : Bytes) : Prop where
  stream : stream = received ++ st.unread
  framed : Framed (frameCut proto) received st.msgs left
  init : ∀ s, st.session = some s → 0 ≤ s.cliFd ∧ s.closeMark = false
  holds : ∀ s, st.session = some s → s.recvBuffer = left ∧ left.length ≤ recvBufferSize ∧ frameCut proto left ≠ .bad

theorem process_read_serves (proto : Protobuf M) (stream : Bytes) (st : Serving M) (received left : Bytes) (answer : ReadAnswer)
    (serves : Serves proto stream st received left) :
    ∃ after got later, processRead proto st answer = some after ∧ Serves proto stream after (received ++ got) later ∧
      st.unread = got ++ after.unread ∧
      (st.session.isSome → answer ≠ .closed → answer ≠ .failed → frameCut proto later ≠ .bad → after.session.isSome) ∧
      (st.session.isSome → left.length < recvBufferSize → st.unread ≠ [] → (∃ count, answer = .bytes (count + 1)) → got ≠ []) := by
  cases alive : st.session with
  | none =>
      have same : processRead proto st answer = some st := by rw [processRead, alive]
      exact ⟨st, [], left, same, by rw [List.append_nil]; exact serves, rfl, fun wrong => (by cases wrong), fun wrong => by cases wrong⟩
  | some s =>
      obtain ⟨fd, open_⟩ := serves.init s alive
      obtain ⟨buffer, inside, whole⟩ := serves.holds s alive
      obtain ⟨done, read, outcome⟩ := PLogClientSession.handle_read_keeps s answer st.unread fd (by rw [buffer]; exact inside)
      rw [processRead, alive]
      dsimp only
      rw [asserting, if_pos fd, read, Option.bind_some]
      rcases outcome with ⟨negative, unread, failed⟩ | ⟨fine, got, split, fits, session, closing, some_⟩
      · rw [if_pos (by omega)]
        refine ⟨_, [], left, rfl, ⟨?_, ?_, fun _ wrong => (by cases wrong), fun _ wrong => by cases wrong⟩, by rw [unread]; rfl, ?_, ?_⟩
        · rw [List.append_nil, unread]
          exact serves.stream
        · rw [List.append_nil]
          exact serves.framed
        · rintro - - other -
          exact absurd failed other
        · rintro - - - ⟨count, bytes⟩
          rw [failed] at bytes
          cases bytes
      · rw [if_neg (by omega)]
        have buffered : done.session.recvBuffer = left ++ got := by rw [session, ← buffer]
        have room : done.session.recvBuffer.length ≤ recvBufferSize := by
          rw [buffered, ← buffer, List.length_append]
          exact fits
        have fdAfter : 0 ≤ done.session.cliFd := by
          rw [session]
          exact fd
        obtain ⟨msgs, later, framed⟩ := framed_total (frameCut proto) (frame_cut_steady proto) _ (left ++ got) (Nat.le_refl _)
        have joined := framed_append (frameCut proto) (frame_cut_steady proto) received got st.msgs msgs left later serves.framed framed
        have goesOn : stream = received ++ got ++ done.unread := by rw [List.append_assoc, ← split, serves.stream]
        have progress : left.length < recvBufferSize → st.unread ≠ [] → (∃ count, answer = .bytes (count + 1)) → got ≠ [] := by
          rintro notFull some ⟨count, bytes⟩
          exact some_ count bytes (by rw [buffer]; exact notFull) some
        obtain ⟨-, front, cut⟩ := framed_rest (frameCut proto) _ msgs later framed
        have shorter : later.length ≤ recvBufferSize := by
          rw [buffered, cut, List.length_append] at room
          omega
        rcases PLogClientSession.handle_recv_buffer_framed proto done.session msgs later room (by rw [buffered]; exact framed) with
          ⟨sound, handled⟩ | ⟨bad, ret, negative, handled⟩
        · rw [handled, Option.map_some]
          refine ⟨_, got, later, rfl, ⟨goesOn, joined, ?_, ?_⟩, split, ?_, fun _ => progress⟩
          · intro t kept
            dsimp only at kept
            split at kept
            · cases kept
            · rename_i open_
              obtain rfl := Option.some.inj kept
              exact ⟨fdAfter, by simpa using open_⟩
          · intro t kept
            dsimp only at kept
            split at kept
            · cases kept
            · obtain rfl := Option.some.inj kept
              exact ⟨rfl, shorter, sound⟩
          · rintro - notClosed - -
            dsimp only
            rw [if_neg (by rw [closing notClosed, open_]; simp)]
            rfl
        · rw [handled, Option.map_some]
          dsimp only
          rw [if_pos (.inl (by omega))]
          exact ⟨_, got, later, rfl, ⟨goesOn, joined, fun _ wrong => (by cases wrong), fun _ wrong => by cases wrong⟩, split, fun _ _ _ sound => absurd bad sound, fun _ => progress⟩

-- A full buffer from which HandleRecvBuffer neither delivers a message nor reports an
-- error, so that HandleRead reads no more.
def Stuck (proto : Protobuf M) (st : Serving M) : Prop :=
  ∃ s, st.session = some s ∧ s.recvBuffer.length = recvBufferSize ∧ s.handleRecvBuffer proto = some ⟨0, [], s⟩

theorem stuck_full (proto : Protobuf M) (stream : Bytes) (st : Serving M) (received left : Bytes) (s : PLogClientSession)
    (serves : Serves proto stream st received left) (alive : st.session = some s) (full : left.length = recvBufferSize) : Stuck proto st := by
  obtain ⟨buffer, inside, whole⟩ := serves.holds s alive
  obtain ⟨no, -⟩ := framed_rest (frameCut proto) received st.msgs left serves.framed
  rcases PLogClientSession.handle_recv_buffer_framed proto s [] left (by rw [buffer]; exact inside) (by rw [buffer]; exact .stop left no) with
    ⟨-, handled⟩ | ⟨bad, -⟩
  · exact ⟨s, alive, by rw [buffer, full], by rw [handled, ← buffer]⟩
  · exact absurd bad whole

theorem run_reads_serves (proto : Protobuf M) (stream : Bytes) (answers : List ReadAnswer) (st : Serving M) (received left : Bytes)
    (serves : Serves proto stream st received left) :
    ∃ after got later, runReads proto st answers = some after ∧ Serves proto stream after got later := by
  induction answers generalizing st received left with
  | nil => exact ⟨st, received, left, rfl, serves⟩
  | cons answer answers ih =>
      obtain ⟨next, got, later, step, keeps, -⟩ := process_read_serves proto stream st received left answer serves
      obtain ⟨after, all, rest, run, done⟩ := ih next _ later keeps
      exact ⟨after, all, rest, by rw [runReads, step]; exact run, done⟩

theorem accepted_serves (proto : Protobuf M) (cliFd : Nat) (stream : Bytes) :
    ∃ st, accepted cliFd stream = some st ∧ Serves proto stream st [] [] ∧ st.session.isSome := by
  refine ⟨_, rfl, ⟨rfl, .stop [] fun msg size first => ?_, ?_, ?_⟩, rfl⟩
  · rw [frame_cut_none proto [] rfl] at first
    cases first
  · intro s alive
    obtain rfl := Option.some.inj alive
    exact ⟨Int.natCast_nonneg cliFd, rfl⟩
  · intro s alive
    obtain rfl := Option.some.inj alive
    exact ⟨rfl, Nat.zero_le _, by rw [frame_cut_none proto [] rfl]; exact nofun⟩

-- No whole frames of a stream are followed by 32 MB or more that start with a length
-- which the buffer cannot hold.
def Roomy (proto : Protobuf M) (stream : Bytes) : Prop :=
  ∀ msgs left len, Framed (frameCut proto) stream msgs left → totalLen left = some len → recvBufferSize < kIntSize + len.toNat →
    left.length < recvBufferSize

theorem oversized_more (proto : Protobuf M) (buf : Bytes) (len : Int) (read : totalLen buf = some len)
    (large : recvBufferSize < kIntSize + len.toNat) : frameCut proto buf = .more := by
  have positive : 0 < len := by
    unfold recvBufferSize kIntSize at large
    omega
  rcases frame_cut_inversion proto buf len read with ⟨low, -⟩ | ⟨-, -, more⟩ | ⟨-, whole, -⟩
  · omega
  · exact more
  · omega

theorem roomy_not_stuck (proto : Protobuf M) (stream : Bytes) (st : Serving M) (received left : Bytes)
    (serves : Serves proto stream st received left) (roomy : Roomy proto stream) : ¬ Stuck proto st := by
  rintro ⟨s, alive, full, -⟩
  obtain ⟨rfl, -, whole⟩ := serves.holds s alive
  obtain ⟨no, -⟩ := framed_rest (frameCut proto) received st.msgs _ serves.framed
  obtain ⟨len, read⟩ := total_len_long s.recvBuffer (by rw [full]; decide)
  have large : recvBufferSize < kIntSize + len.toNat := by
    rcases frame_cut_inversion proto _ len read with ⟨-, bad⟩ | ⟨-, short, -⟩ | ⟨-, -, ⟨-, bad⟩ | ⟨msg, -, first⟩⟩
    · exact absurd bad whole
    · omega
    · exact absurd bad whole
    · exact absurd first (no msg _)
  have readOn := total_len_append s.recvBuffer st.unread len read
  have stopped : Framed (frameCut proto) (s.recvBuffer ++ st.unread) [] (s.recvBuffer ++ st.unread) := .stop _ fun msg size first => by
    rw [oversized_more proto _ len readOn large] at first
    cases first
  have joined := framed_append (frameCut proto) (frame_cut_steady proto) received st.unread st.msgs [] s.recvBuffer _ serves.framed stopped
  rw [← serves.stream] at joined
  have short := roomy _ _ len joined readOn large
  rw [List.length_append] at short
  omega

def ReadAnswer.reads : ReadAnswer → Bool
  | .bytes count => decide (0 < count)
  | _ => false

-- As many reads as there are bytes read them all, unless the buffer gets stuck or a
-- bad frame ends the session.
theorem run_reads_all (proto : Protobuf M) (stream : Bytes)
    (fine : ∀ msgs left, Framed (frameCut proto) stream msgs left → frameCut proto left ≠ .bad) (answers : List ReadAnswer)
    (stays : ∀ answer ∈ answers, answer ≠ .closed ∧ answer ≠ .failed) (st : Serving M) (received left : Bytes)
    (serves : Serves proto stream st received left) (alive : st.session.isSome)
    (free : ∀ seen after, runReads proto st seen = some after → ¬ Stuck proto after)
    (enough : st.unread.length ≤ answers.countP ReadAnswer.reads) :
    ∃ after later, runReads proto st answers = some after ∧ Serves proto stream after stream later ∧ after.session.isSome := by
  induction answers generalizing st received left with
  | nil =>
      have all : st.unread = [] := List.length_eq_zero_iff.mp (by simpa using enough)
      have whole : stream = received := by rw [serves.stream, all, List.append_nil]
      exact ⟨st, left, rfl, whole ▸ serves, alive⟩
  | cons answer answers ih =>
      obtain ⟨next, got, later, step, keeps, split, lives, progress⟩ := process_read_serves proto stream st received left answer serves
      obtain ⟨notClosed, notFailed⟩ := stays answer List.mem_cons_self
      have sound : frameCut proto later ≠ .bad := by
        intro bad
        have onward := framed_bad (frameCut proto) (frame_cut_steady proto) _ next.unread _ later keeps.framed bad
        rw [← keeps.stream] at onward
        exact fine _ _ onward ((frame_cut_steady proto).bad later next.unread bad)
      have room : left.length < recvBufferSize := by
        obtain ⟨s, session⟩ := Option.isSome_iff_exists.mp alive
        obtain ⟨-, inside, -⟩ := serves.holds s session
        refine Nat.lt_of_le_of_ne inside fun full => ?_
        exact free [] st rfl (stuck_full proto stream st received left s serves session full)
      have fewer : next.unread.length ≤ answers.countP ReadAnswer.reads := by
        have sizes := congrArg List.length split
        rw [List.length_append] at sizes
        rw [List.countP_cons] at enough
        by_cases reads : answer.reads = true
        · rw [if_pos reads] at enough
          by_cases nothing : st.unread = []
          · rw [nothing, List.length_nil] at sizes
            omega
          · have some_ := List.length_pos_iff.mpr (progress alive room nothing (by
              cases answer with
              | bytes count => exact ⟨count - 1, by rw [Nat.sub_add_cancel (of_decide_eq_true reads)]⟩
              | closed | again | failed => cases reads))
            omega
        · rw [if_neg reads] at enough
          omega
      obtain ⟨after, rest, run, done, living⟩ := ih (fun other member => stays other (List.mem_cons_of_mem _ member)) next _ later keeps
        (lives alive notClosed notFailed sound) (fun seen after run => free (answer :: seen) after (by rw [runReads, step]; exact run)) fewer
      exact ⟨after, rest, by rw [runReads, step]; exact run, done, living⟩

-- Non-empty messages that dump_msg has written one behind the other, none longer than
-- the buffer of a session.
structure Written (proto : Protobuf M) (stream : Bytes) (msgs : List M) (bufferSize : M → Nat) : Prop where
  dumped : ∀ msg ∈ msgs, (dumpMsg proto msg (bufferSize msg)).1 = 0
  filled : ∀ msg ∈ msgs, 0 < proto.byteSize msg
  fits : ∀ msg ∈ msgs, proto.byteSize msg + kIntSize ≤ recvBufferSize
  stream : stream = msgs.flatMap fun msg => (dumpMsg proto msg (bufferSize msg)).2

theorem written_framed (proto : Protobuf M) (lawful : proto.Lawful) (stream : Bytes) (msgs : List M) (bufferSize : M → Nat)
    (written : Written proto stream msgs bufferSize) : Framed (frameCut proto) stream msgs [] := by
  rw [written.stream]
  refine framed_written (frameCut proto) _ msgs (fun msg member later => ?_) fun msg size first => ?_
  · exact frame_cut_dump proto lawful msg (bufferSize msg) later (written.dumped msg member) (written.filled msg member) (written.fits msg member)
  · rw [frame_cut_none proto [] rfl] at first
    cases first

theorem written_roomy (proto : Protobuf M) (lawful : proto.Lawful) (stream : Bytes) (msgs : List M) (bufferSize : M → Nat)
    (written : Written proto stream msgs bufferSize) : Roomy proto stream := by
  intro others left len framed read _
  obtain ⟨-, rfl⟩ := framed_unique (frameCut proto) stream others msgs left [] framed (written_framed proto lawful stream msgs bufferSize written)
  cases read

-- Whatever the reads of a stream take: no assert fails and the session never gets
-- stuck, the messages handed over are the frames of the bytes read, and of a stream
-- that was written they are the messages written, all of them after enough reads.
def Delivers (proto : Protobuf M) (stream : Bytes) : Prop :=
  ∀ cliFd answers, ∃ st, (accepted cliFd stream).bind (fun start => runReads proto start answers) = some st ∧ ¬ Stuck proto st ∧
    (∃ received left, stream = received ++ st.unread ∧ Framed (frameCut proto) received st.msgs left) ∧
    ∀ written bufferSize, Written proto stream written bufferSize →
      (∃ later, written = st.msgs ++ later) ∧
        ((∀ answer ∈ answers, answer ≠ .closed ∧ answer ≠ .failed) → stream.length ≤ answers.countP ReadAnswer.reads → st.msgs = written)

theorem roomy_delivers (proto : Protobuf M) (lawful : proto.Lawful) (stream : Bytes) (roomy : Roomy proto stream) : Delivers proto stream := by
  intro cliFd answers
  obtain ⟨start, init, serves, alive⟩ := accepted_serves proto cliFd stream
  obtain ⟨st, received, left, run, done⟩ := run_reads_serves proto stream answers start [] [] serves
  refine ⟨st, by rw [init]; exact run, roomy_not_stuck proto stream st received left done roomy, ⟨received, left, done.stream, done.framed⟩, ?_⟩
  intro written bufferSize was
  have whole := written_framed proto lawful stream written bufferSize was
  constructor
  · refine framed_early (frameCut proto) (frame_cut_steady proto) received st.unread st.msgs written left [] done.framed ?_
    rw [← done.stream]
    exact whole
  · intro stays enough
    have fine : ∀ msgs left, Framed (frameCut proto) stream msgs left → frameCut proto left ≠ .bad := by
      intro msgs left framed
      obtain ⟨-, rfl⟩ := framed_unique (frameCut proto) stream msgs written left [] framed whole
      rw [frame_cut_none proto [] rfl]
      exact nofun
    have free : ∀ seen after, runReads proto start seen = some after → ¬ Stuck proto after := by
      intro seen after ran
      obtain ⟨other, got, rest, again, keeps⟩ := run_reads_serves proto stream seen start [] [] serves
      obtain rfl := Option.some.inj (again.symm.trans ran)
      exact roomy_not_stuck proto stream other got rest keeps roomy
    have unread : start.unread = stream := serves.stream.symm
    obtain ⟨all, rest, again, keeps, -⟩ := run_reads_all proto stream fine answers stays start [] [] serves alive free (by rw [unread]; exact enough)
    obtain rfl := Option.some.inj (again.symm.trans run)
    exact (framed_unique (frameCut proto) stream all.msgs written rest [] keeps.framed whole).1

theorem delivers_roomy (proto : Protobuf M) (stream : Bytes) (delivers : Delivers proto stream) : Roomy proto stream := by
  intro msgs left len framed read large
  by_contra long
  have more := oversized_more proto left len read large
  obtain ⟨start, init, serves, alive⟩ := accepted_serves proto 0 stream
  have free : ∀ seen after, runReads proto start seen = some after → ¬ Stuck proto after := by
    intro seen after ran
    obtain ⟨st, run, unstuck, -⟩ := delivers 0 seen
    rw [init, Option.bind_some] at run
    obtain rfl := Option.some.inj (run.symm.trans ran)
    exact unstuck
  have fine : ∀ others rest, Framed (frameCut proto) stream others rest → frameCut proto rest ≠ .bad := by
    intro others rest again
    obtain ⟨-, rfl⟩ := framed_unique (frameCut proto) stream others msgs rest left again framed
    rw [more]
    exact nofun
  have stays : ∀ answer ∈ List.replicate stream.length (ReadAnswer.bytes 1), answer ≠ .closed ∧ answer ≠ .failed := by
    intro answer member
    obtain ⟨-, rfl⟩ := List.mem_replicate.mp member
    exact ⟨nofun, nofun⟩
  have unread : start.unread = stream := serves.stream.symm
  have enough : start.unread.length ≤ (List.replicate stream.length (ReadAnswer.bytes 1)).countP ReadAnswer.reads := by
    rw [unread, List.countP_replicate]
    exact Nat.le_refl _
  obtain ⟨st, rest, run, keeps, living⟩ := run_reads_all proto stream fine _ stays start [] [] serves alive free enough
  obtain ⟨s, session⟩ := Option.isSome_iff_exists.mp living
  obtain ⟨-, rfl⟩ := framed_unique (frameCut proto) stream st.msgs msgs rest left keeps.framed framed
  obtain ⟨-, inside, -⟩ := keeps.holds s session
  exact free _ st run (stuck_full proto stream st stream rest s keeps session (by omega))

theorem sessions_deliver (proto : Protobuf M) (lawful : proto.Lawful) (stream : Bytes) :
    (Delivers proto stream ↔ Roomy proto stream) ∧ ∀ msgs bufferSize, Written proto stream msgs bufferSize → Roomy proto stream :=
  ⟨⟨delivers_roomy proto stream, roomy_delivers proto lawful stream⟩, fun msgs bufferSize => written_roomy proto lawful stream msgs bufferSize⟩

-- Messages that are their own bytes.
def plainProto : Protobuf Bytes where
  byteSize := List.length
  serialize := some
  parse := some

theorem plain_lawful : plainProto.Lawful := by
  constructor
  · rintro msg data same
    rw [Option.some.inj same]
    rfl
  · rintro msg data same
    rw [Option.some.inj same]
    rfl

theorem two_messages_delivered : Delivers plainProto (net32 1 ++ [7] ++ (net32 2 ++ [8, 9])) :=
  (sessions_deliver plainProto plain_lawful (net32 1 ++ [7] ++ (net32 2 ++ [8, 9]))).1.mpr
    ((sessions_deliver plainProto plain_lawful (net32 1 ++ [7] ++ (net32 2 ++ [8, 9]))).2 [[7], [8, 9]] (fun _ => 16)
      ⟨by decide, by decide, by decide, rfl⟩)

-- A length of 2^31 - 1 in front of 32 MB less four bytes.
theorem oversized_frame_stuck : ¬ Delivers plainProto (net32 (2 ^ 31 - 1) ++ List.replicate (recvBufferSize - 4) 0) := by
  intro delivers
  have read := total_len_dump (2 ^ 31 - 1) (by decide) (List.replicate (recvBufferSize - 4) 0)
  have large : recvBufferSize < kIntSize + ((2 ^ 31 - 1 : Nat) : Int).toNat := by decide
  have short := delivers_roomy plainProto _ delivers [] _ _
    (.stop _ fun msg size first => by rw [oversized_more plainProto _ _ read large] at first; cases first) read large
  rw [List.length_append, net32_length, List.length_replicate] at short
  unfold recvBufferSize at short
  omega

end PaxosStore.PaxosKv.MsgSvr
