import PaxosStore.Certain.MsgChannel
import PaxosStore.Codec.Frames

set_option autoImplicit false

namespace PaxosStore.Certain

open PaxosStore.PaxosKv PaxosStore.Codec

namespace MsgHeader

theorem parse_from_some (buf : Codec.Bytes) (h : MsgHeader) (parsed : parseFrom buf = some h) :
    kMsgHeaderSize ≤ buf.length ∧ h.len < 2 ^ 32 ∧ ∀ later, parseFrom (buf ++ later) = some h := by
  unfold parseFrom at parsed
  split at parsed
  · obtain rfl := Option.some.inj parsed
    refine ⟨?_, from_net32_lt _ _ _ _, fun later => rfl⟩
    simp only [List.length_cons, kMsgHeaderSize]
    omega
  · cases parsed

theorem parse_from_long (buf : Codec.Bytes) (long : kMsgHeaderSize ≤ buf.length) : ∃ h, parseFrom buf = some h := by
  match buf, long with
  | _ :: _ :: _ :: _ :: _ :: _ :: _ :: _ :: _ :: _ :: _ :: _ :: _ :: _ :: _, _ => exact ⟨_, rfl⟩
  | [], long | [_], long | [_, _], long | [_, _, _], long | [_, _, _, _], long | [_, _, _, _, _], long | [_, _, _, _, _, _], long
  | [_, _, _, _, _, _, _], long | [_, _, _, _, _, _, _, _], long | [_, _, _, _, _, _, _, _, _], long
  | [_, _, _, _, _, _, _, _, _, _], long | [_, _, _, _, _, _, _, _, _, _, _], long | [_, _, _, _, _, _, _, _, _, _, _, _], long
  | [_, _, _, _, _, _, _, _, _, _, _, _, _], long => simp [kMsgHeaderSize] at long

theorem serialize_length (h : MsgHeader) : h.serializeTo.length = kMsgHeaderSize := rfl

theorem parse_from_serialize (h : MsgHeader) (magic : h.magicNum < 2 ^ 16) (len : h.len < 2 ^ 32) (checksum : h.checksum < 2 ^ 32)
    (result : h.result < 2 ^ 16) (later : Codec.Bytes) : parseFrom (h.serializeTo ++ later) = some h := by
  simp only [serializeTo, net16, net32, List.cons_append, List.nil_append, parseFrom, from_net16_ofNat _ magic,
    from_net32_ofNat _ len, from_net32_ofNat _ checksum, from_net16_ofNat _ result]

end MsgHeader

namespace MsgChannel

-- A frame is a header and as many bytes as it says, whatever else is in the header.
def msgCut (buf : Codec.Bytes) : Cut Message :=
  match MsgHeader.parseFrom buf with
  | none => .more
  | some h =>
      if h.len + kMsgHeaderSize ≤ buf.length then .one ⟨h.msgId, (buf.drop kMsgHeaderSize).take h.len⟩ (kMsgHeaderSize + h.len) else .more

theorem msg_cut_one (buf : Codec.Bytes) (msg : Message) (size : Nat) (first : msgCut buf = .one msg size) :
    ∃ h, MsgHeader.parseFrom buf = some h ∧ h.len + kMsgHeaderSize ≤ buf.length ∧ size = kMsgHeaderSize + h.len ∧
      msg = ⟨h.msgId, (buf.drop kMsgHeaderSize).take h.len⟩ := by
  rw [msgCut] at first
  cases parsed : MsgHeader.parseFrom buf with
  | none => rw [parsed] at first; cases first
  | some h =>
      rw [parsed] at first
      dsimp only at first
      by_cases whole : h.len + kMsgHeaderSize ≤ buf.length
      · rw [if_pos whole] at first
        obtain ⟨rfl, rfl⟩ := Cut.one.inj first
        exact ⟨h, rfl, whole, rfl, rfl⟩
      · rw [if_neg whole] at first
        cases first

theorem msg_cut_steady : Steady msgCut := by
  constructor
  · intro buf later msg size first
    obtain ⟨h, parsed, whole, rfl, rfl⟩ := msg_cut_one buf msg size first
    have same := (MsgHeader.parse_from_some buf h parsed).2.2 later
    refine ⟨by simp only [kMsgHeaderSize]; omega, by omega, ?_⟩
    rw [msgCut, same]
    dsimp only
    rw [if_pos (by rw [List.length_append]; omega), List.drop_append_of_le_length (by omega),
      List.take_append_of_le_length (by rw [List.length_drop]; omega)]
  · intro buf later bad
    rw [msgCut] at bad
    split at bad
    · cases bad
    · split at bad <;> cases bad

-- What a Write puts into a buffer is cut off it again.
theorem msg_cut_written (msg : Message) (small : msg.body.length < 2 ^ 31) (later : Codec.Bytes) :
    msgCut (serializeMsg msg ++ later) = .one msg (serializeMsg msg).length := by
  have exact32 : wrap32 msg.body.length = msg.body.length := wrap32_small _ (by omega)
  have parsed := MsgHeader.parse_from_serialize { msgId := msg.msgId, len := wrap32 msg.body.length } (show kMagicNum < 2 ^ 16 by decide)
    (wrap32_lt _) (Nat.two_pow_pos 32) (Nat.two_pow_pos 16) (msg.body ++ later)
  have header := MsgHeader.serialize_length { msgId := msg.msgId, len := wrap32 msg.body.length }
  rw [serializeMsg, msgCut, List.append_assoc, parsed]
  dsimp only
  rw [exact32] at header parsed ⊢
  generalize MsgHeader.serializeTo { msgId := msg.msgId, len := msg.body.length } = front at header parsed ⊢
  rw [if_pos (by rw [List.length_append, List.length_append, header]; omega), ← header, List.drop_left, List.take_left, List.length_append]

theorem written_framed (msgs : List Message) (small : ∀ msg ∈ msgs, msg.body.length < 2 ^ 31) :
    Framed msgCut (msgs.flatMap serializeMsg) msgs [] :=
  framed_written msgCut serializeMsg msgs (fun msg member later => msg_cut_written msg (small msg member) later)
    fun msg size first => by cases first

-- Nothing is left, or a header whose frame ends below 2^32.
def Sound (left : Codec.Bytes) : Prop := left = [] ∨ ∃ h, MsgHeader.parseFrom left = some h ∧ h.len + kMsgHeaderSize < 2 ^ 32

theorem parse_loop_framed (buffer : Codec.Bytes) (len curr fuel : Nat) (small : buffer.length < 2 ^ 32) (buf later : Codec.Bytes) (msgs : List Message)
    (left : Codec.Bytes) (framed : Framed msgCut buf msgs left) (here : buffer.drop curr = buf ++ later) (ends : curr + buf.length = len)
    (enough : buf.length < fuel) :
    (Sound left → ∃ touched, parseLoop buffer len fuel curr = some ⟨msgs, len - left.length, touched⟩ ∧ touched ≤ len) ∧
      (¬ Sound left → ∀ parsed, parseLoop buffer len fuel curr = some parsed → len < parsed.touched) := by
  induction framed generalizing curr fuel with
  | stop buf no =>
      obtain ⟨fuel, rfl⟩ : ∃ rest, fuel = rest + 1 := ⟨fuel - 1, by omega⟩
      rw [parseLoop]
      by_cases empty : buf = []
      · subst empty
        simp only [List.length_nil] at ends ⊢
        refine ⟨fun _ => ⟨curr, ?_, by omega⟩, fun unsound => absurd (.inl rfl) unsound⟩
        rw [if_neg (by omega), show len - 0 = curr by omega]
      · have positive := List.length_pos_iff.mpr empty
        rw [if_pos (by omega), here]
        cases parsed : MsgHeader.parseFrom buf with
        | some h =>
            obtain ⟨long, narrow, same⟩ := MsgHeader.parse_from_some buf h parsed
            have incomplete : ¬ h.len + kMsgHeaderSize ≤ buf.length := by
              intro whole
              refine no ⟨h.msgId, (buf.drop kMsgHeaderSize).take h.len⟩ (kMsgHeaderSize + h.len) ?_
              rw [msgCut, parsed]
              dsimp only
              rw [if_pos whole]
            rw [same later, Option.bind_some]
            constructor
            · rintro (none | ⟨other, again, fits⟩)
              · exact absurd none empty
              · obtain rfl := Option.some.inj (parsed.symm.trans again)
                refine ⟨curr + kMsgHeaderSize, ?_, by omega⟩
                rw [if_pos (by rw [wrap32_small _ fits]; omega), show len - buf.length = curr by omega]
            · intro unsound result done
              have wide : ¬ h.len + kMsgHeaderSize < 2 ^ 32 := fun fits => unsound (.inr ⟨h, parsed, fits⟩)
              have beyond : ¬ curr + kMsgHeaderSize + h.len ≤ buffer.length := by omega
              have wrapped : ¬ wrap32 (h.len + kMsgHeaderSize) > len - curr := by
                rw [wrap32]
                simp only [kMsgHeaderSize] at *
                omega
              rw [if_neg wrapped, if_neg beyond] at done
              cases done
        | none =>
            have short : buf.length < kMsgHeaderSize := by
              by_contra long
              obtain ⟨h, found⟩ := MsgHeader.parse_from_long buf (by omega)
              rw [parsed] at found
              cases found
            refine ⟨?_, fun _ result done => ?_⟩
            · rintro (none | ⟨h, found, -⟩)
              · exact absurd none empty
              · rw [parsed] at found
                cases found
            · obtain ⟨h, found, next⟩ := Option.bind_eq_some_iff.mp done
              have narrow := (MsgHeader.parse_from_some _ h found).2.1
              by_cases stops : wrap32 (h.len + kMsgHeaderSize) > len - curr
              · rw [if_pos stops] at next
                obtain rfl := Option.some.inj next
                dsimp only
                omega
              · -- only a sum that has wrapped is below the size of a header
                have beyond : ¬ curr + kMsgHeaderSize + h.len ≤ buffer.length := by
                  intro fits
                  rw [wrap32_small _ (by omega)] at stops
                  omega
                rw [if_neg stops, if_neg beyond] at next
                cases next
  | next buf msg size msgs left first _ ih =>
      obtain ⟨h, parsed, whole, rfl, rfl⟩ := msg_cut_one buf msg size first
      obtain ⟨fuel, rfl⟩ : ∃ rest, fuel = rest + 1 := ⟨fuel - 1, by omega⟩
      have total : buf.length + later.length + curr = buffer.length ∨ buf.length + later.length = 0 := by
        have length := congrArg List.length here
        rw [List.length_drop, List.length_append] at length
        omega
      simp only [kMsgHeaderSize] at whole
      have after : buffer.drop (curr + (kMsgHeaderSize + h.len)) = buf.drop (kMsgHeaderSize + h.len) ++ later := by
        rw [← List.drop_drop, here, List.drop_append_of_le_length (by simp only [kMsgHeaderSize]; omega)]
      have body : (buffer.drop (curr + kMsgHeaderSize)).take h.len = (buf.drop kMsgHeaderSize).take h.len := by
        rw [← List.drop_drop, here, List.drop_append_of_le_length (by simp only [kMsgHeaderSize]; omega),
          List.take_append_of_le_length (by rw [List.length_drop]; simp only [kMsgHeaderSize]; omega)]
      have rest : (buf.drop (kMsgHeaderSize + h.len)).length = buf.length - (kMsgHeaderSize + h.len) := List.length_drop ..
      obtain ⟨good, wrong⟩ := ih (curr + (kMsgHeaderSize + h.len)) fuel after (by rw [rest]; simp only [kMsgHeaderSize]; omega)
        (by rw [rest]; simp only [kMsgHeaderSize]; omega)
      have step : parseLoop buffer len (fuel + 1) curr = (parseLoop buffer len fuel (curr + (kMsgHeaderSize + h.len))).map fun next =>
          { msgs := ⟨h.msgId, (buf.drop kMsgHeaderSize).take h.len⟩ :: next.msgs, parsedLen := next.parsedLen,
            touched := max (curr + kMsgHeaderSize + h.len) next.touched } := by
        have header : kMsgHeaderSize = 14 := rfl
        rw [parseLoop, if_pos (by omega), here, (MsgHeader.parse_from_some buf h parsed).2.2 later, Option.bind_some,
          if_neg (by rw [wrap32_small _ (by omega)]; omega), if_pos (by omega), wrap32_small (kMsgHeaderSize + h.len) (by omega),
          wrap32_small _ (by omega), body]
      constructor
      · intro sound
        obtain ⟨touched, done, close⟩ := good sound
        refine ⟨max (curr + kMsgHeaderSize + h.len) touched, by rw [step, done]; rfl, ?_⟩
        simp only [kMsgHeaderSize]
        omega
      · intro unsound result done
        rw [step] at done
        obtain ⟨next, before, rfl⟩ := Option.map_eq_some_iff.mp done
        exact Nat.lt_of_lt_of_le (wrong unsound next before) (Nat.le_max_right ..)

theorem read_loop_space (answers : List ReadAnswer) (space : Nat) : (readLoop answers space).taken.length ≤ space := by
  induction answers generalizing space with
  | nil => exact Nat.zero_le _
  | cons answer later ih =>
      rw [readLoop.eq_def]
      dsimp only
      by_cases full : space = 0
      · rw [if_pos full]
        exact Nat.zero_le _
      · rw [if_neg full]
        cases answer with
        | bytes data =>
            dsimp only
            by_cases closed : data = []
            · rw [if_pos closed]
              exact Nat.zero_le _
            · rw [if_neg closed]
              have rest := ih (space - (data.take space).length)
              have part : (data.take space).length ≤ space := by rw [List.length_take]; omega
              rw [List.length_append]
              omega
        | interrupted => exact ih space
        | again => exact Nat.zero_le _
        | failed => exact Nat.zero_le _

-- The limiter's use is what is saved, also in the limiter that the channels share.
structure Saves (maxCapacity : Nat) (s : MsgChannel) : Prop where
  capacity : s.rbufLimiter = ⟨maxCapacity, s.readBytes.length⟩

def granted (maxCapacity maxTotalSize others : Nat) (left : Codec.Bytes) : Bool :=
  decide (left.length ≤ maxCapacity ∧ others + left.length ≤ maxTotalSize)

theorem alloc_bytes_granted (maxCapacity maxTotalSize others : Nat) (left : Codec.Bytes) :
    CapacityLimiter.allocBytes ⟨maxCapacity, 0⟩ ⟨maxTotalSize, others⟩ left.length =
      if granted maxCapacity maxTotalSize others left then
        (true, ⟨maxCapacity, left.length⟩, ⟨maxTotalSize, others + left.length⟩)
      else (false, ⟨maxCapacity, 0⟩, ⟨maxTotalSize, others⟩) := by
  rw [granted, CapacityLimiter.allocBytes]
  simp only [Nat.zero_add, decide_eq_true_eq]
  by_cases room : left.length ≤ maxCapacity
  · by_cases free : others + left.length ≤ maxTotalSize
    · have alloc : SharedLimiter.allocBytes ⟨maxTotalSize, others⟩ left.length = (true, ⟨maxTotalSize, others + left.length⟩) :=
        if_neg (Nat.not_lt.mpr free)
      rw [if_neg (by omega), alloc, if_pos rfl, if_pos ⟨room, free⟩]
    · have alloc : SharedLimiter.allocBytes ⟨maxTotalSize, others⟩ left.length = (false, ⟨maxTotalSize, others⟩) :=
        if_pos (Nat.not_le.mp free)
      rw [if_neg (by omega), alloc, if_neg Bool.false_ne_true, if_neg fun both => free both.2]
  · rw [if_pos (by omega), if_neg fun both => room both.1]

theorem free_bytes_saved (maxCapacity maxTotalSize others n : Nat) :
    CapacityLimiter.freeBytes ⟨maxCapacity, n⟩ ⟨maxTotalSize, others + n⟩ n = some (⟨maxCapacity, 0⟩, ⟨maxTotalSize, others⟩) := by
  rw [CapacityLimiter.freeBytes, SharedLimiter.freeBytes]
  by_cases none : n = 0
  · rw [if_neg (not_not_intro none), none]
    rfl
  · rw [if_pos none, asserting, if_pos (Nat.le_refl n), asserting, if_pos (Nat.le_add_left n others)]
    simp

-- One ReadMore, the others using `others` bytes of the shared limiter.
theorem read_more_framed (s : MsgChannel) (maxCapacity maxTotalSize others : Nat) (buffer : Codec.Bytes) (answers : List ReadAnswer)
    (msgs : List Message) (left : Codec.Bytes) (whole : s.broken = false) (ready : s.readable = true) (saves : Saves maxCapacity s)
    (small : buffer.length < 2 ^ 32) (fits : s.readBytes.length < buffer.length)
    (framed : Framed msgCut (s.readBytes ++ (readLoop answers (buffer.length - s.readBytes.length)).taken) msgs left) :
    (Sound left → ∃ touched shared, touched ≤ s.readBytes.length + (readLoop answers (buffer.length - s.readBytes.length)).taken.length ∧
        s.readMore ⟨maxTotalSize, others + s.rbufLimiter.currCapacity⟩ buffer answers = some {
          channel := { s with
            broken := (readLoop answers (buffer.length - s.readBytes.length)).broken || !granted maxCapacity maxTotalSize others left
            readable := (readLoop answers (buffer.length - s.readBytes.length)).readable
            rbufLimiter := ⟨maxCapacity, if granted maxCapacity maxTotalSize others left then left.length else 0⟩
            readBytes := if granted maxCapacity maxTotalSize others left then left else [] }
          shared := shared
          taken := (readLoop answers (buffer.length - s.readBytes.length)).taken
          msgs := msgs
          currSize := s.readBytes.length + (readLoop answers (buffer.length - s.readBytes.length)).taken.length
          touched := touched }) ∧
      (¬ Sound left → ∀ result, s.readMore ⟨maxTotalSize, others + s.rbufLimiter.currCapacity⟩ buffer answers = some result →
        result.currSize < result.touched) := by
  have space := read_loop_space answers (buffer.length - s.readBytes.length)
  generalize polled : readLoop answers (buffer.length - s.readBytes.length) = r at framed space ⊢
  have sum : (s.readBytes ++ r.taken).length = s.readBytes.length + r.taken.length := List.length_append
  have size : (s.readBytes ++ r.taken ++ buffer.drop (s.readBytes ++ r.taken).length).length = buffer.length := by
    rw [List.length_append, List.length_drop, sum]
    omega
  obtain ⟨good, wrong⟩ := parse_loop_framed (s.readBytes ++ r.taken ++ buffer.drop (s.readBytes ++ r.taken).length)
    (s.readBytes ++ r.taken).length 0 ((s.readBytes ++ r.taken).length + 1) (by rw [size]; exact small) (s.readBytes ++ r.taken) _ msgs left
    framed rfl (by omega) (by omega)
  obtain ⟨-, front, split⟩ := framed_rest msgCut _ msgs left framed
  have total : s.readBytes.length + r.taken.length = front.length + left.length := by
    have length := congrArg List.length split
    rwa [sum, List.length_append] at length
  rw [readMore, asserting, if_pos whole, asserting, if_pos ready, asserting, if_pos fits, saves.capacity, free_bytes_saved,
    Option.bind_some, polled]
  dsimp only
  constructor
  · intro sound
    obtain ⟨touched, done, close⟩ := good sound
    refine ⟨touched, ((CapacityLimiter.allocBytes ⟨maxCapacity, 0⟩ ⟨maxTotalSize, others⟩ left.length).2.2), by omega, ?_⟩
    rw [parseMsg, done, Option.bind_some]
    dsimp only
    rw [sub32_le _ _ (by omega), show (s.readBytes ++ r.taken).length - ((s.readBytes ++ r.taken).length - left.length) = left.length by omega,
      show (s.readBytes ++ r.taken).length - left.length = front.length by omega, split, List.drop_left, alloc_bytes_granted, ← split, sum]
    by_cases given : granted maxCapacity maxTotalSize others left = true
    · simp only [given, if_true, Bool.not_true]
    · simp only [given, if_false, Bool.not_false, Bool.false_eq_true]
  · intro unsound result done
    obtain ⟨parsed, parse, same⟩ := Option.bind_eq_some_iff.mp done
    have far := wrong unsound parsed parse
    obtain rfl := Option.some.inj same
    exact far

-- A call of ReadMore: what the shared buffer holds, what the socket answers, and how
-- much of the shared limiter the other channels use.
structure ReadCall where
  buffer : Codec.Bytes
  answers : List ReadAnswer
  others : Nat
  small : buffer.length < 2 ^ 32

structure Receiving where
  channel : MsgChannel
  received : Codec.Bytes := []
  msgs : List Message := []
  strayed : Bool := false

def readNext (maxTotalSize : Nat) (r : Receiving) (next : ReadCall) : Option Receiving :=
  (readMore { r.channel with readable := true } ⟨maxTotalSize, next.others + r.channel.rbufLimiter.currCapacity⟩ next.buffer
    next.answers).map fun result => {
      channel := result.channel
      received := r.received ++ result.taken
      msgs := r.msgs ++ result.msgs
      strayed := r.strayed || decide (result.currSize < result.touched) }

-- ReadMore whenever the channel is readable, until it is broken.
def runReads (maxTotalSize : Nat) : Receiving → List ReadCall → Option Receiving
  | r, [] => some r
  | r, next :: later => if r.channel.broken then some r else (readNext maxTotalSize r next).bind fun after => runReads maxTotalSize after later

-- What the callers of a channel can hope for: every ReadMore returns having looked at
-- received bytes only, and the messages are the frames of the stream; of a stream
-- that was written, the messages written.
def Delivers (maxTotalSize : Nat) (start : MsgChannel) (calls : List ReadCall) : Prop :=
  ∃ r, runReads maxTotalSize { channel := start } calls = some r ∧ r.strayed = false ∧ (∃ left, Framed msgCut r.received r.msgs left) ∧
    ∀ written : List Message, (∀ msg ∈ written, msg.body.length < 2 ^ 31) → ∀ more, written.flatMap serializeMsg = r.received ++ more →
      (∃ later, written = r.msgs ++ later) ∧ (more = [] → written = r.msgs)

-- Each call starts with room in the buffer and its bytes end between two frames or
-- behind a header whose frame ends below 2^32.
def Clean (maxCapacity maxTotalSize : Nat) : Codec.Bytes → List ReadCall → Prop
  | _, [] => True
  | rest, next :: later =>
      rest.length < next.buffer.length ∧
        ∀ msgs left, Framed msgCut (rest ++ (readLoop next.answers (next.buffer.length - rest.length)).taken) msgs left →
          Sound left ∧
            ((readLoop next.answers (next.buffer.length - rest.length)).broken = false →
              granted maxCapacity maxTotalSize next.others left = true → Clean maxCapacity maxTotalSize left later)

-- Between two calls of a run that has looked at received bytes only.
structure Ready (maxCapacity : Nat) (r : Receiving) : Prop where
  whole : r.channel.broken = false
  saves : Saves maxCapacity r.channel
  honest : r.strayed = false
  framed : Framed msgCut r.received r.msgs r.channel.readBytes

theorem run_broken (maxTotalSize : Nat) (r : Receiving) (calls : List ReadCall) (broken : r.channel.broken = true) :
    runReads maxTotalSize r calls = some r := by
  cases calls with
  | nil => rfl
  | cons next later => rw [runReads, if_pos broken]

theorem run_strayed (maxTotalSize : Nat) (r s : Receiving) (calls : List ReadCall) (ran : runReads maxTotalSize r calls = some s)
    (strayed : r.strayed = true) : s.strayed = true := by
  induction calls generalizing r with
  | nil =>
      obtain rfl := Option.some.inj ran
      exact strayed
  | cons next later ih =>
      rw [runReads] at ran
      by_cases broken : r.channel.broken = true
      · rw [if_pos broken] at ran
        obtain rfl := Option.some.inj ran
        exact strayed
      · rw [if_neg broken] at ran
        obtain ⟨after, step, rest⟩ := Option.bind_eq_some_iff.mp ran
        obtain ⟨result, -, rfl⟩ := Option.map_eq_some_iff.mp step
        exact ih _ rest (by rw [strayed, Bool.true_or])

-- The state after a call whose bytes end well.
theorem read_next_framed (maxCapacity maxTotalSize : Nat) (r : Receiving) (next : ReadCall) (msgs : List Message) (left : Codec.Bytes)
    (ready : Ready maxCapacity r) (fits : r.channel.readBytes.length < next.buffer.length)
    (framed : Framed msgCut (r.channel.readBytes ++ (readLoop next.answers (next.buffer.length - r.channel.readBytes.length)).taken) msgs left)
    (sound : Sound left) :
    ∃ after, readNext maxTotalSize r next = some after ∧ after.strayed = false ∧ Framed msgCut after.received after.msgs left ∧
      (after.channel.broken = false ↔ (readLoop next.answers (next.buffer.length - r.channel.readBytes.length)).broken = false ∧
        granted maxCapacity maxTotalSize next.others left = true) ∧
      (after.channel.broken = false → Ready maxCapacity after ∧ after.channel.readBytes = left) := by
  obtain ⟨touched, shared, close, done⟩ := (read_more_framed { r.channel with readable := true } maxCapacity maxTotalSize next.others
    next.buffer next.answers msgs left ready.whole rfl ⟨ready.saves.capacity⟩ next.small fits framed).1 sound
  have all := framed_append msgCut msg_cut_steady r.received _ r.msgs msgs r.channel.readBytes left ready.framed framed
  have inside : decide (r.channel.readBytes.length + (readLoop next.answers (next.buffer.length - r.channel.readBytes.length)).taken.length <
      touched) = false := decide_eq_false (Nat.not_lt.mpr close)
  refine ⟨_, by rw [readNext, done]; rfl, ?_, all, ?_, ?_⟩
  · dsimp only
    rw [ready.honest, Bool.false_or]
    exact inside
  · dsimp only
    rw [Bool.or_eq_false_iff, Bool.not_eq_false']
  · dsimp only
    intro whole
    obtain ⟨-, given⟩ := Bool.or_eq_false_iff.mp whole
    rw [Bool.not_eq_false'] at given
    refine ⟨⟨whole, ⟨?_⟩, ?_, ?_⟩, if_pos given⟩
    · dsimp only
      rw [if_pos given, if_pos given]
    · dsimp only
      rw [ready.honest, Bool.false_or]
      exact inside
    · dsimp only
      rw [if_pos given]
      exact all

theorem run_clean (maxCapacity maxTotalSize : Nat) (calls : List ReadCall) (r : Receiving) (ready : Ready maxCapacity r)
    (clean : Clean maxCapacity maxTotalSize r.channel.readBytes calls) :
    ∃ s, runReads maxTotalSize r calls = some s ∧ s.strayed = false ∧ ∃ left, Framed msgCut s.received s.msgs left := by
  induction calls generalizing r with
  | nil => exact ⟨r, rfl, ready.honest, _, ready.framed⟩
  | cons next later ih =>
      obtain ⟨fits, ends⟩ := clean
      obtain ⟨msgs, left, framed⟩ := framed_total msgCut msg_cut_steady _ _ (Nat.le_refl _)
      obtain ⟨sound, goesOn⟩ := ends msgs left framed
      obtain ⟨after, step, honest, all, whole, again⟩ := read_next_framed maxCapacity maxTotalSize r next msgs left ready fits framed sound
      rw [runReads, if_neg (by rw [ready.whole]; decide), step, Option.bind_some]
      cases broken : after.channel.broken with
      | true => exact ⟨after, run_broken maxTotalSize after later broken, honest, left, all⟩
      | false =>
          obtain ⟨polled, given⟩ := whole.mp broken
          obtain ⟨readyAfter, saved⟩ := again broken
          exact ih after readyAfter (saved ▸ goesOn polled given)

theorem clean_run (maxCapacity maxTotalSize : Nat) (calls : List ReadCall) (r s : Receiving) (ready : Ready maxCapacity r)
    (ran : runReads maxTotalSize r calls = some s) (honest : s.strayed = false) : Clean maxCapacity maxTotalSize r.channel.readBytes calls := by
  induction calls generalizing r with
  | nil => trivial
  | cons next later ih =>
      rw [runReads, if_neg (by rw [ready.whole]; decide)] at ran
      obtain ⟨after, step, rest⟩ := Option.bind_eq_some_iff.mp ran
      have fits : r.channel.readBytes.length < next.buffer.length := by
        obtain ⟨result, done, -⟩ := Option.map_eq_some_iff.mp step
        obtain ⟨-, done⟩ := (asserting_some _ _ _).mp done
        obtain ⟨-, done⟩ := (asserting_some _ _ _).mp done
        exact ((asserting_some _ _ _).mp done).1
      refine ⟨fits, fun msgs left framed => ?_⟩
      have sound : Sound left := by
        by_contra unsound
        obtain ⟨result, done, rfl⟩ := Option.map_eq_some_iff.mp step
        have far := (read_more_framed { r.channel with readable := true } maxCapacity maxTotalSize next.others
          next.buffer next.answers msgs left ready.whole rfl ⟨ready.saves.capacity⟩ next.small fits framed).2 unsound result done
        have strayed := run_strayed maxTotalSize _ s later rest (by dsimp only; rw [decide_eq_true far, Bool.or_true])
        rw [honest] at strayed
        cases strayed
      refine ⟨sound, fun polled given => ?_⟩
      obtain ⟨other, same, -, -, whole, again⟩ := read_next_framed maxCapacity maxTotalSize r next msgs left ready fits framed sound
      obtain rfl := Option.some.inj (step.symm.trans same)
      obtain ⟨readyAfter, saved⟩ := again (whole.mpr ⟨polled, given⟩)
      exact saved ▸ ih after readyAfter rest

theorem opened_ready (maxCapacity : Nat) : Ready maxCapacity { channel := opened maxCapacity } :=
  ⟨rfl, ⟨rfl⟩, rfl, .stop [] fun msg size first => by cases first⟩

theorem framed_written_part (received more : Codec.Bytes) (msgs written : List Message) (left : Codec.Bytes)
    (framed : Framed msgCut received msgs left) (small : ∀ msg ∈ written, msg.body.length < 2 ^ 31)
    (stream : written.flatMap serializeMsg = received ++ more) :
    (∃ later, written = msgs ++ later) ∧ (more = [] → written = msgs) := by
  have whole := written_framed written small
  rw [stream] at whole
  refine ⟨framed_early msgCut msg_cut_steady received more msgs written left [] framed whole, ?_⟩
  rintro rfl
  rw [List.append_nil] at whole
  exact (framed_unique msgCut received written msgs [] left whole framed).1

theorem reads_deliver (maxCapacity maxTotalSize : Nat) (calls : List ReadCall) :
    Delivers maxTotalSize (opened maxCapacity) calls ↔ Clean maxCapacity maxTotalSize [] calls := by
  constructor
  · rintro ⟨r, ran, honest, -, -⟩
    exact clean_run maxCapacity maxTotalSize calls { channel := opened maxCapacity } r (opened_ready maxCapacity) ran honest
  · intro clean
    obtain ⟨r, ran, honest, left, framed⟩ := run_clean maxCapacity maxTotalSize calls { channel := opened maxCapacity }
      (opened_ready maxCapacity) clean
    exact ⟨r, ran, honest, ⟨left, framed⟩, fun written small more stream =>
      framed_written_part r.received more r.msgs written left framed small stream⟩

-- The header of a written message is cut behind its fourth byte; where its length
-- would stand, the buffer still holds 0xFFFFFFF2 of an earlier use.
def cutHeader : ReadCall where
  buffer := [0, 0, 0, 0, 0xFF, 0xFF, 0xFF, 0xF2] ++ List.replicate 56 0
  answers := [.bytes ((serializeMsg ⟨1, [7]⟩).take 4), .again]
  others := 0
  small := by decide

theorem cut_header_lost : ¬ Delivers (128 * 2 ^ 20) (opened (64 * 2 ^ 20)) [cutHeader] := by
  rintro ⟨r, ran, -⟩
  have stopped : (runReads (128 * 2 ^ 20) { channel := opened (64 * 2 ^ 20) } [cutHeader]).isNone = true := by decide +kernel
  rw [ran] at stopped
  cases stopped

end MsgChannel

end PaxosStore.Certain
