import PaxosStore.DbComm.LogContents

set_option autoImplicit false

namespace PaxosStore.DbComm

open PaxosStore.Codec
open PaxosStore.PaxosKv

theorem pwrite_covers (file : Bytes) (offset : Nat) (bytes : Bytes) (inside : offset ≤ file.length) (covers : file.length ≤ offset + bytes.length) :
    pwrite file offset bytes = file.take offset ++ bytes := by
  rw [pwrite, Nat.sub_eq_zero_of_le inside, List.replicate_zero, List.append_nil, poke, List.drop_eq_nil_of_le covers, List.append_nil]

-- There is one multiple of a block in the space of a block.
theorem round_up_unique (blockSize place next other : Nat) (aligned : next % blockSize = 0) (lower : place ≤ next)
    (upper : next < place + blockSize) (aligned_too : other % blockSize = 0) (lower_too : place ≤ other) (upper_too : other < place + blockSize) :
    next = other := by
  have first := round_up blockSize place next aligned lower upper
  have second := round_up blockSize place other aligned_too lower_too upper_too
  split at first
  · rename_i zero
    rw [if_pos zero] at second
    omega
  · rename_i some_rest
    rw [if_neg some_rest] at second
    omega

-- Every call writes its blocks out.
structure Kept (crc : Crc32c) (fileSeq : Nat) (info : WriteInfo) (file content : Bytes) (blocks : List Block) (values : List Bytes) (offsets : List Nat) :
    Prop extends Holding crc fileSeq info info.beginBlock content blocks values offsets where
  bound : file.length ≤ maxLogFileSize
  filled : values = [] → content = []
  stored : ∃ room, room < info.blockSize ∧ (content.length + room) % info.blockSize = 0 ∧ file = content ++ List.replicate room 0

-- What no call changes.
def SameWriter (info after : WriteInfo) : Prop :=
  after.blockSize = info.blockSize ∧ after.maxBuf = info.maxBuf ∧ after.minTail = info.minTail ∧ after.startSeq = info.startSeq ∧
    after.strategy = info.strategy

section Writing

variable {crc : Crc32c} {fileSeq : Nat} {info : WriteInfo} {file content : Bytes} {blocks : List Block} {values : List Bytes} {offsets : List Nat}
  (kept : Kept crc fileSeq info file content blocks values offsets)
include kept

-- What a dump has put into the buffer goes to the file in whole blocks.
theorem kept_writes_out (done : Dumping) (start bytes : Bytes) (more : List Block) (written : List Bytes) (reports : List Nat)
    (dumps : Dumps crc fileSeq info info.beginBlock { done with pos := done.newPos } (start ++ bytes) more written reports)
    (begins : start.take (info.directOffset + info.beginBlock) = content.take (info.directOffset + info.beginBlock))
    (behind : info.offset ≤ start.length) (some_bytes : bytes ≠ [])
    (file_limit : info.directOffset + done.next ≤ maxLogFileSize) :
    info.beginBlock + info.blockSize ≤ done.next ∧
      info.writeOut file done =
        some ({ info with seq := done.seq, buffer := poke done.buffer done.newPos (List.replicate (done.next - done.newPos) 0) },
          (start ++ bytes) ++ List.replicate (done.next - done.newPos) 0) := by
  have tuned := kept.tuned
  have low := kept.low
  have lower : done.newPos ≤ done.next := dumps.lower
  have upper : done.next ≤ info.maxBuf := dumps.upper
  have place : info.directOffset + done.newPos = (start ++ bytes).length := dumps.place
  have after : info.beginBlock ≤ done.newPos := dumps.start
  have size : done.buffer.length = info.maxBuf := dumps.size
  have aligned : done.next % info.blockSize = 0 := dumps.aligned
  have positive := tuned_positive tuned
  obtain ⟨head, whole, same⟩ := begin_block info kept.aligned low
  have inner := Nat.mod_lt info.offset positive
  have grown := List.length_pos_iff.mpr some_bytes
  rw [List.length_append] at place
  have passed : info.beginBlock < done.newPos := by omega
  have another : info.beginBlock + info.blockSize ≤ done.next := by
    have gap : (done.next - info.beginBlock) % info.blockSize = 0 := Nat.sub_mod_eq_zero_of_mod_eq (aligned.trans whole.symm)
    have least := Nat.le_of_dvd (show 0 < done.next - info.beginBlock by omega) (Nat.dvd_of_mod_eq_zero gap)
    omega
  refine ⟨another, ?_⟩
  rw [WriteInfo.writeOut, asserting_pos _ _ ⟨lower, upper, another, file_limit⟩]
  dsimp only
  have taken := poke_take done.buffer done.newPos (List.replicate (done.next - done.newPos) 0) (by rw [size]; omega)
  rw [List.length_replicate, show done.newPos + (done.next - done.newPos) = done.next by omega] at taken
  have out : ((poke done.buffer done.newPos (List.replicate (done.next - done.newPos) 0)).drop info.beginBlock).take (done.next - info.beginBlock) =
      (start ++ bytes).drop (info.directOffset + info.beginBlock) ++ List.replicate (done.next - done.newPos) 0 := by
    rw [← List.drop_take, taken, drop_append_window _ _ _ _ (by rw [size]; omega) after]
    exact congrArg (· ++ _) dumps.window
  obtain ⟨room, short, filled, stored⟩ := kept.stored
  have before : file.take (info.directOffset + info.beginBlock) = (start ++ bytes).take (info.directOffset + info.beginBlock) := by
    rw [stored, List.take_append_of_le_length (by rw [kept.place]; omega), List.take_append_of_le_length (by omega), begins]
  have ends : file.length ≤ info.directOffset + info.beginBlock + info.blockSize := by
    have next : (info.directOffset + info.beginBlock + info.blockSize) % info.blockSize = 0 := by
      rw [Nat.add_mod_right, Nat.add_mod, kept.aligned, whole, Nat.zero_add, Nat.zero_mod]
    have total : file.length = info.offset + room := by rw [stored, List.length_append, List.length_replicate, kept.place]
    rw [kept.place] at filled
    by_contra beyond
    have gap : (file.length - (info.directOffset + info.beginBlock + info.blockSize)) % info.blockSize = 0 :=
      Nat.sub_mod_eq_zero_of_mod_eq ((total ▸ filled).trans next.symm)
    have least := Nat.le_of_dvd (show 0 < file.length - (info.directOffset + info.beginBlock + info.blockSize) by omega)
      (Nat.dvd_of_mod_eq_zero gap)
    have exactly : info.offset % info.blockSize = 0 ∨ 0 < info.offset % info.blockSize := Nat.eq_zero_or_pos _
    omega
  have out_length : ((start ++ bytes).drop (info.directOffset + info.beginBlock) ++ List.replicate (done.next - done.newPos) 0).length =
      done.next - info.beginBlock := by
    rw [List.length_append, List.length_drop, List.length_append, List.length_replicate]
    omega
  have inside : info.directOffset + info.beginBlock ≤ file.length := by
    rw [stored, List.length_append, kept.place]
    omega
  rw [out, pwrite_covers file _ _ inside (by rw [out_length]; omega), before, ← List.append_assoc, List.take_append_drop]

-- After the offset has moved on, over the rest of a block that is too small.
theorem kept_increases (done : Dumping) (start bytes : Bytes) (more : List Block) (written : List Bytes) (reports : List Nat) (size : Nat)
    (dumps : Dumps crc fileSeq info info.beginBlock { done with pos := done.newPos } (start ++ bytes) more written reports)
    (some_values : written ≠ []) (near : done.next < done.newPos + info.blockSize) (total : info.offset + size = (start ++ bytes).length)
    (file_limit : info.directOffset + done.next ≤ maxLogFileSize) :
    ∃ after content', ({ info with seq := done.seq, buffer := poke done.buffer done.newPos (List.replicate (done.next - done.newPos) 0) } :
        WriteInfo).increaseOffset size = some after ∧ info.offset + size ≤ after.offset ∧
      Kept crc fileSeq after ((start ++ bytes) ++ List.replicate (done.next - done.newPos) 0) content' more written reports := by
  have lower : done.newPos ≤ done.next := dumps.lower
  have place : info.directOffset + done.newPos = (start ++ bytes).length := dumps.place
  have positive := tuned_positive kept.tuned
  obtain ⟨room, rest, moved, parts, holding⟩ := holding_increases kept.tuned kept.aligned (dumps_zeroed dumps) near size total file_limit
  dsimp only at parts
  have zeros : List.replicate (done.next - done.newPos) (0 : UInt8) = List.replicate room 0 ++ List.replicate rest 0 := by
    rw [← parts, List.replicate_add]
  have far : (start ++ bytes).length + room + rest = info.directOffset + done.next := by omega
  have whole : (info.directOffset + done.next) % info.blockSize = 0 := by
    rw [Nat.add_mod, kept.aligned, show done.next % info.blockSize = 0 from dumps.aligned, Nat.zero_add, Nat.zero_mod]
  refine ⟨_, (start ++ bytes) ++ List.replicate room 0, moved, ?_, holding_later holding _ (moved_begins info _ _ (by omega)), ?_,
    fun none_left => absurd none_left some_values, rest, ?_, ?_, ?_⟩
  · dsimp only [WriteInfo.movedTo]
    omega
  · rw [@List.length_append _ (start ++ bytes), List.length_replicate]
    omega
  · dsimp only [WriteInfo.movedTo]
    omega
  · rw [@List.length_append _ (start ++ bytes), List.length_replicate, far]
    exact whole
  · rw [zeros]
    exact (List.append_assoc (start ++ bytes) _ _).symm

-- The next block.
theorem kept_skipped (some_rest : info.offset % info.blockSize ≠ 0) : ∃ content', Kept crc fileSeq info.skipped file content' blocks values offsets := by
  have tuned := kept.tuned
  have positive := tuned_positive tuned
  have inner := Nat.mod_lt info.offset positive
  obtain ⟨room, short, filled, stored⟩ := kept.stored
  have bound := kept.bound
  have length : file.length = info.offset + room := by rw [stored, List.length_append, List.length_replicate, kept.place]
  rw [kept.place] at filled
  have ends := round_up info.blockSize info.offset (info.offset + room) filled (Nat.le_add_right _ _) (by omega)
  rw [if_neg some_rest] at ends
  have next : info.skipped.offset = info.offset + room := by
    have least := Nat.mod_le info.offset info.blockSize
    rw [WriteInfo.skipped]
    dsimp only
    omega
  have holds : Content crc info.blockSize fileSeq content info.seq blocks values offsets := by
    rcases kept.holds with ⟨empty, _⟩ | holds
    · have place := kept.place
      rw [empty, List.length_nil] at place
      rw [← place, Nat.zero_mod] at some_rest
      exact absurd rfl some_rest
    · exact holds
  have direct : info.skipped.directOffset = info.skipped.offset := rfl
  have whole : info.skipped.offset % info.blockSize = 0 := by rw [next, filled]
  refine ⟨content ++ List.replicate room 0, ⟨tuned, kept.size, ?_, ?_, Nat.le_refl _, ?_, ?_, ?_, .inr ?_⟩, bound, ?_, 0, positive, ?_, ?_⟩
  · rw [List.length_append, List.length_replicate, kept.place, next]
  · rw [direct]
    exact whole
  · rw [direct]
    exact Nat.le_add_right _ _
  · have head := enters_head tuned
    rw [← whole] at head
    exact head
  · rw [direct, Nat.sub_self, List.take_zero, List.drop_nil, List.drop_eq_nil_of_le]
    rw [List.length_append, List.length_replicate, kept.place, next]
    exact Nat.le_add_right _ _
  · exact content_padded holds room (by rw [kept.place]; exact filled) short
  · intro none_left
    have least := content_head holds
    rw [kept.filled none_left, List.length_nil] at least
    omega
  · rw [List.length_append, List.length_replicate, kept.place, Nat.add_zero]
    exact filled
  · rw [List.replicate_zero, List.append_nil]
    exact stored

-- A place at the head of a block needs nothing of the buffer.
theorem kept_restarted (whole : info.offset % info.blockSize = 0) :
    Kept crc fileSeq { info with directOffset := info.offset } file content blocks values offsets := by
  refine ⟨⟨kept.tuned, kept.size, kept.place, whole, Nat.le_refl _, Nat.le_add_right _ _, kept.enters, ?_, kept.holds⟩, kept.bound, kept.filled, kept.stored⟩
  dsimp only
  rw [Nat.sub_self, List.take_zero, List.drop_nil, List.drop_eq_nil_of_le]
  rw [kept.place]
  exact Nat.le_add_right _ _

-- The block of the place moves to the front of the buffer.
theorem kept_moved (tail : Bytes) (fits : info.offset % info.blockSize + tail.length ≤ info.maxBuf) :
    Kept crc fileSeq
      { info with
        directOffset := info.offset - info.offset % info.blockSize
        buffer := poke (poke info.buffer 0 ((info.buffer.drop (info.offset - info.offset % info.blockSize - info.directOffset)).take
          (info.offset % info.blockSize))) (info.offset % info.blockSize) tail } file content blocks values offsets := by
  have tuned := kept.tuned
  have positive := tuned_positive tuned
  have inner := Nat.mod_lt info.offset positive
  have roomy := tuned.roomy
  have high := kept.high
  have size := kept.size
  have low := kept.low
  obtain ⟨head, whole, same⟩ := begin_block info kept.aligned low
  have start : info.offset - info.offset % info.blockSize - info.directOffset = info.beginBlock := by omega
  rw [start]
  have window := kept.window
  rw [List.drop_take, show info.offset - info.directOffset - info.beginBlock = info.offset % info.blockSize by omega] at window
  have length : ((info.buffer.drop info.beginBlock).take (info.offset % info.blockSize)).length = info.offset % info.blockSize := by
    rw [List.length_take, List.length_drop, size]
    omega
  have poked : (poke info.buffer 0 ((info.buffer.drop info.beginBlock).take (info.offset % info.blockSize))).length = info.maxBuf := by
    rw [poke_length _ _ _ (by rw [length, size]; omega), size]
  have multiple : (info.offset - info.offset % info.blockSize) % info.blockSize = 0 := by
    rw [show info.offset - info.offset % info.blockSize = info.directOffset + info.beginBlock by omega, Nat.add_mod, kept.aligned, whole,
      Nat.zero_add, Nat.zero_mod]
  refine ⟨⟨tuned, ?_, kept.place, multiple, Nat.sub_le _ _, ?_, kept.enters, ?_, kept.holds⟩, kept.bound, kept.filled, kept.stored⟩
  · dsimp only
    rw [poke_length _ _ _ (by rw [poked]; exact fits), poked]
  · dsimp only
    omega
  · rw [WriteInfo.beginBlock]
    dsimp only
    rw [show info.offset - (info.offset - info.offset % info.blockSize) = info.offset % info.blockSize by omega, Nat.div_eq_of_lt inner, Nat.zero_mul,
      List.drop_zero, Nat.add_zero, poke_take_before _ _ _ _ (Nat.le_refl _) (by rw [poked]; omega)]
    have taken := poke_take info.buffer 0 ((info.buffer.drop info.beginBlock).take (info.offset % info.blockSize)) (Nat.zero_le _)
    rw [length, Nat.zero_add, List.take_zero, List.nil_append] at taken
    rw [taken, window, show info.directOffset + info.beginBlock = info.offset - info.offset % info.blockSize by omega]

-- Why a call can be refused: its blocks are more than the buffer, or more than the file has left.
def Refused (info : WriteInfo) (size : Nat) (code : Int) : Prop :=
  (code = LogError.largeWrite ∧ info.maxBuf < size) ∨ (code = LogError.nextFile ∧ (info.offset = 0 → maxLogFileSize < size))

omit kept in
theorem refused_more (size other : Nat) (code : Int) (refused : Refused info size code) (more : size ≤ other) : Refused info other code := by
  rcases refused with ⟨same, large⟩ | ⟨same, next⟩
  · exact .inl ⟨same, Nat.lt_of_lt_of_le large more⟩
  · exact .inr ⟨same, fun fresh => Nat.lt_of_lt_of_le (next fresh) more⟩

theorem kept_adjusts (dumpSize : Nat) :
    ∃ after result, info.adjustImpl crc dumpSize (info.estimateOf dumpSize) = some (after, result) ∧
      Kept crc fileSeq after file content blocks values offsets ∧ SameWriter info after ∧ after.offset = info.offset ∧
      (∀ code, result = .error code → Refused info (info.estimateOf dumpSize) code) ∧
      ∀ sizes, result = .ok sizes → sizes = (dumpSize, info.estimateOf dumpSize) ∧ after.beginBlock + info.estimateOf dumpSize ≤ info.maxBuf ∧
        after.directOffset + after.beginBlock + info.estimateOf dumpSize ≤ maxLogFileSize := by
  have tuned := kept.tuned
  have positive := tuned_positive tuned
  have inner := Nat.mod_lt info.offset positive
  obtain ⟨multiple, most, least⟩ := estimate_bounds info dumpSize positive
  obtain ⟨head, whole, same⟩ := begin_block info kept.aligned kept.low
  have parts := Nat.div_add_mod info.offset info.blockSize
  rw [Nat.mul_comm] at parts
  have low := kept.low
  rw [WriteInfo.adjustImpl]
  by_cases large : info.maxBuf < info.estimateOf dumpSize
  · rw [if_pos large]
    refine ⟨info, _, rfl, kept, ⟨rfl, rfl, rfl, rfl, rfl⟩, rfl, fun _ same => ?_, fun _ wrong => by cases wrong⟩
    cases same
    exact .inl ⟨rfl, large⟩
  · rw [if_neg large]
    by_cases next : info.needIterWriteFile (info.estimateOf dumpSize) = true
    · rw [if_pos next]
      rw [WriteInfo.needIterWriteFile, decide_eq_true_eq] at next
      refine ⟨info, _, rfl, kept, ⟨rfl, rfl, rfl, rfl, rfl⟩, rfl, fun _ same => ?_, fun _ wrong => by cases wrong⟩
      cases same
      refine .inr ⟨rfl, fun fresh => ?_⟩
      rw [fresh, Nat.zero_div, Nat.zero_mul, Nat.zero_add] at next
      exact next
    · rw [if_neg next]
      have room : info.offset / info.blockSize * info.blockSize + info.estimateOf dumpSize ≤ maxLogFileSize := by
        rw [WriteInfo.needIterWriteFile, decide_eq_true_eq] at next
        omega
      dsimp only
      rw [asserting_pos _ _ kept.enters.1]
      by_cases at_head : info.offset % info.blockSize = 0
      · rw [if_pos at_head]
        refine ⟨_, _, rfl, kept_restarted kept at_head, ⟨rfl, rfl, rfl, rfl, rfl⟩, rfl, (fun _ wrong => by cases wrong), ?_⟩
        intro sizes answer
        cases answer
        have zero : ({ info with directOffset := info.offset } : WriteInfo).beginBlock = 0 := by
          rw [WriteInfo.beginBlock]
          dsimp only
          rw [Nat.sub_self, Nat.zero_div, Nat.zero_mul]
        rw [zero]
        exact ⟨rfl, by omega, by dsimp only; omega⟩
      · rw [if_neg at_head, asserting_pos _ _ (by omega)]
        by_cases fits : info.offset - info.offset % info.blockSize + info.estimateOf dumpSize ≤ info.directOffset + info.maxBuf
        · rw [if_pos fits]
          refine ⟨info, _, rfl, kept, ⟨rfl, rfl, rfl, rfl, rfl⟩, rfl, (fun _ wrong => by cases wrong), ?_⟩
          intro sizes answer
          cases answer
          exact ⟨rfl, by omega, by omega⟩
        · rw [if_neg fits, asserting_pos _ _ (by omega), append_fake crc info.blockSize info.minTail ⟨tuned.header, tuned.short⟩ _ (by omega),
            Option.map_some]
          have tail := fake_tail_length crc info.blockSize info.minTail ⟨tuned.header, tuned.short⟩ (info.blockSize - info.offset % info.blockSize)
          have roomy := tuned.roomy
          refine ⟨_, _, rfl, kept_moved kept _ (by omega), ⟨rfl, rfl, rfl, rfl, rfl⟩, rfl, (fun _ wrong => by cases wrong), ?_⟩
          intro sizes answer
          cases answer
          have zero : ∀ buffer, ({ info with directOffset := info.offset - info.offset % info.blockSize, buffer := buffer } : WriteInfo).beginBlock = 0 := by
            intro buffer
            rw [WriteInfo.beginBlock]
            dsimp only
            rw [show info.offset - (info.offset - info.offset % info.blockSize) = info.offset % info.blockSize by omega, Nat.div_eq_of_lt inner,
              Nat.zero_mul]
          rw [zero]
          exact ⟨rfl, by omega, by dsimp only; omega⟩

-- What the writer has when its buffer is ready for the values: the size of the dump, and room
-- for its blocks in the buffer and in the file.
structure Ready (info : WriteInfo) (load : Load) (dump : Nat) : Prop where
  sized : info.dumpOf load = some dump
  positive : 0 < dump
  room : info.beginBlock + info.estimateOf (dump + info.metaSize) ≤ info.maxBuf
  limit : info.directOffset + info.beginBlock + info.estimateOf (dump + info.metaSize) ≤ maxLogFileSize

def Answered (crc : Crc32c) (fileSeq : Nat) (info : WriteInfo) (file : Bytes) (blocks : List Block) (values : List Bytes) (offsets : List Nat) (load : Load)
    (adjusted : Option Adjusted) : Prop :=
  ∃ after result content', adjusted = some (after, result) ∧ Kept crc fileSeq after file content' blocks values offsets ∧ SameWriter info after ∧
    (∀ code, result = .error code → Refused info (load.bound info.blockSize) code) ∧
    ∀ sizes, result = .ok sizes → ∃ dump, Ready after load dump ∧
      sizes = (dump + after.metaSize, after.estimateOf (dump + after.metaSize))

theorem kept_answered (load : Load) (dump : Nat) (sized : info.dumpOf load = some dump) (positive : 0 < dump)
    (fewer : info.estimateOf (dump + info.metaSize) ≤ load.bound info.blockSize) :
    Answered crc fileSeq info file blocks values offsets load
      (info.adjustImpl crc (dump + info.metaSize) (info.estimateOf (dump + info.metaSize))) := by
  obtain ⟨after, result, adjusted, still, same, place, refusal, sizes⟩ := kept_adjusts kept (dump + info.metaSize)
  obtain ⟨size, buffer, tail, start, strategy⟩ := same
  have head : after.metaSize = info.metaSize := by rw [WriteInfo.metaSize, WriteInfo.metaSize, place, size]
  have estimate : ∀ total, after.estimateOf total = info.estimateOf total := by
    intro total
    rw [WriteInfo.estimateOf, WriteInfo.estimateOf, place, size]
  have dumped : after.dumpOf load = info.dumpOf load := by
    cases load with
    | one valLen => rw [WriteInfo.dumpOf, WriteInfo.dumpOf, place, size]
    | batch valLens => rw [WriteInfo.dumpOf, WriteInfo.dumpOf, place, size, tail]
  refine ⟨after, result, content, adjusted, still, ⟨size, buffer, tail, start, strategy⟩,
    fun code wrong => refused_more _ _ code (refusal code wrong) fewer, ?_⟩
  intro answer ok
  obtain ⟨rfl, room, limit⟩ := sizes answer ok
  refine ⟨dump, ⟨dumped.trans sized, positive, ?_, ?_⟩, ?_⟩
  · rw [estimate, head, buffer]
    exact room
  · rw [estimate, head]
    exact limit
  · rw [estimate, head]

-- A writer that left a block is not at the begin of its file.
omit kept in
theorem answered_skipped (load : Load) (some_rest : info.offset % info.blockSize ≠ 0) (adjusted : Option Adjusted)
    (answered : Answered crc fileSeq info.skipped file blocks values offsets load adjusted) :
    Answered crc fileSeq info file blocks values offsets load adjusted := by
  obtain ⟨after, result, content', same, kept, writer, refusal, sizes⟩ := answered
  refine ⟨after, result, content', same, kept, writer, fun code wrong => ?_, sizes⟩
  rcases refusal code wrong with large | ⟨next_file, _⟩
  · exact .inl large
  · refine .inr ⟨next_file, fun fresh => ?_⟩
    rw [fresh, Nat.zero_mod] at some_rest
    exact absurd rfl some_rest

theorem kept_adjusted (load : Load) (filled : load.Filled) (bound : load.bound info.blockSize < 2 ^ 31) :
    Answered crc fileSeq info file blocks values offsets load (info.adjust crc load) := by
  have tuned := kept.tuned
  obtain ⟨dump, sized, positive, fewer, sizes⟩ := sizes_some info tuned kept.enters load filled bound
  rw [WriteInfo.adjust, asserting_pos _ _ ⟨kept.low, kept.high⟩]
  cases info.strategy with
  | maxCompact =>
      dsimp only
      rw [WriteInfo.maxCompactAdjust, sizes, Option.bind_some]
      exact kept_answered kept load dump sized positive fewer
  | dontMove =>
      dsimp only
      rw [WriteInfo.dontMoveAdjust, asserting_pos _ _ kept.enters.1]
      by_cases whole : info.offset % info.blockSize = 0
      · rw [if_pos whole]
        have again := kept_restarted kept whole
        obtain ⟨dump, sized, positive, fewer, sizes⟩ := sizes_some { info with directOffset := info.offset } tuned again.enters load filled bound
        dsimp only
        rw [sizes, Option.bind_some]
        exact kept_answered again load dump sized positive fewer
      · rw [if_neg whole]
        obtain ⟨content', again⟩ := kept_skipped kept whole
        obtain ⟨dump, sized, positive, fewer, sizes⟩ := sizes_some info.skipped tuned again.enters load filled bound
        dsimp only
        rw [sizes, Option.bind_some]
        exact answered_skipped load whole _ (kept_answered again load dump sized positive fewer)
  | minWrite =>
      dsimp only
      rw [WriteInfo.minWriteAdjust, sizes, Option.bind_some]
      dsimp only
      rw [asserting_pos _ _ kept.enters.1]
      by_cases whole : info.offset % info.blockSize = 0
      · rw [if_pos whole]
        exact kept_answered kept load dump sized positive fewer
      · rw [if_neg whole]
        obtain ⟨content', again⟩ := kept_skipped kept whole
        obtain ⟨other, other_sized, other_positive, other_fewer, other_sizes⟩ := sizes_some info.skipped tuned again.enters load filled bound
        have place : ({ info with offset := info.offset - info.offset % info.blockSize + info.blockSize } : WriteInfo).sizes load =
            info.skipped.sizes load := rfl
        rw [place, other_sizes, Option.bind_some]
        dsimp only
        split
        · exact answered_skipped load whole _ (kept_answered again load other other_sized other_positive other_fewer)
        · exact kept_answered kept load dump sized positive fewer

theorem kept_status (status : Int) : Kept crc fileSeq { info with status := status } file content blocks values offsets :=
  ⟨⟨kept.tuned, kept.size, kept.place, kept.aligned, kept.low, kept.high, kept.enters, kept.window, kept.holds⟩, kept.bound, kept.filled, kept.stored⟩

theorem kept_fixed : ∃ after, info.fixed = some after ∧ Kept crc fileSeq after file content blocks values offsets ∧ SameWriter info after := by
  rw [WriteInfo.fixed]
  by_cases good : info.status = 0
  · rw [if_pos good]
    exact ⟨info, rfl, kept, rfl, rfl, rfl, rfl, rfl⟩
  · rw [if_neg good, asserting_pos _ _ ⟨kept.low, kept.high⟩]
    exact ⟨_, rfl, kept_status kept 0, rfl, rfl, rfl, rfl, rfl⟩

omit kept in
theorem reported_place : info.reported % info.blockSize = info.offset % info.blockSize := by
  rw [WriteInfo.reported]
  by_cases fresh : info.offset = 0
  · rw [if_pos fresh, fresh, Nat.mod_self, Nat.zero_mod]
  · rw [if_neg fresh]

end Writing

theorem fixed_place (info after : WriteInfo) (fixed : info.fixed = some after) : after.offset = info.offset := by
  rw [WriteInfo.fixed] at fixed
  split at fixed
  · cases fixed
    rfl
  · obtain ⟨_, same⟩ := (asserting_some _ _ _).mp fixed
    cases same
    rfl

theorem refused_fixed {info after : WriteInfo} (fixed : info.fixed = some after) (same : SameWriter info after) {load : Load} {code : Int}
    (refused : Refused after (load.bound after.blockSize) code) : Refused info (load.bound info.blockSize) code := by
  obtain ⟨size, buffer, _⟩ := same
  rw [Refused, size, buffer, fixed_place info after fixed] at refused
  exact refused

-- What one call leaves: a refused write leaves the file as it was.
def Leaves {R : Type} (crc : Crc32c) (fileSeq : Nat) (info : WriteInfo) (file : Bytes) (values : List Bytes) (offsets : List Nat) (load : Load)
    (added : List Bytes) (reports : R → List Nat) (written : Option (Written R)) : Prop :=
  ∃ after stored result content blocks, written = some (after, stored, result) ∧ SameWriter info after ∧
    match result with
    | .error code =>
        stored = file ∧ Kept crc fileSeq after stored content blocks values offsets ∧ Refused info (load.bound info.blockSize) code
    | .ok answer => Kept crc fileSeq after stored content blocks (values ++ added) (offsets ++ reports answer)

section Calls

variable {crc : Crc32c} {fileSeq : Nat} {info : WriteInfo} {file content : Bytes} {blocks : List Block} {values : List Bytes} {offsets : List Nat}

-- The blocks of a dump that is ready.
theorem ready_limit (tuned : Tuned info.blockSize info.maxBuf info.minTail fileSeq) (load : Load) (dump : Nat) (ready : Ready info load dump) :
    info.metaSize + info.blockSize ≤ info.estimateOf (dump + info.metaSize) := by
  obtain ⟨multiple, least, _⟩ := estimate_bounds info (dump + info.metaSize) (tuned_positive tuned)
  have positive := ready.positive
  have whole : (info.estimateOf (dump + info.metaSize) - info.metaSize) % info.blockSize = 0 := by
    refine Nat.sub_mod_eq_zero_of_mod_eq (multiple.trans ?_)
    rw [WriteInfo.metaSize]
    split
    · exact (Nat.mod_self _).symm
    · exact (Nat.zero_mod _).symm
  have block := Nat.le_of_dvd (show 0 < info.estimateOf (dump + info.metaSize) - info.metaSize by omega) (Nat.dvd_of_mod_eq_zero whole)
  omega

-- What has been dumped takes the blocks that were estimated.
theorem ready_ends (tuned : Tuned info.blockSize info.maxBuf info.minTail fileSeq) (aligned : info.directOffset % info.blockSize = 0)
    (low : info.directOffset ≤ info.offset) (dump : Nat) (done : Dumping) (next : done.next % info.blockSize = 0) (lower : done.newPos ≤ done.next)
    (upper : done.next < done.newPos + info.blockSize) (ends : done.newPos = info.offset - info.directOffset + info.metaSize + dump) :
    done.next - info.beginBlock = info.estimateOf (dump + info.metaSize) ∧ info.writeSize done = dump + info.metaSize := by
  obtain ⟨multiple, least, most⟩ := estimate_bounds info (dump + info.metaSize) (tuned_positive tuned)
  obtain ⟨head, whole, same⟩ := begin_block info aligned low
  refine ⟨?_, by rw [WriteInfo.writeSize]; omega⟩
  have gap : (done.next - info.beginBlock) % info.blockSize = 0 := Nat.sub_mod_eq_zero_of_mod_eq (next.trans whole.symm)
  exact round_up_unique info.blockSize (dump + info.metaSize + info.offset % info.blockSize) _ _ gap (by omega) (by omega) multiple least most

theorem increase_same (info after : WriteInfo) (size : Nat) (moved : info.increaseOffset size = some after) : SameWriter info after := by
  rw [WriteInfo.increaseOffset] at moved
  obtain ⟨_, same⟩ := (asserting_some _ _ _).mp moved
  cases same
  exact ⟨rfl, rfl, rfl, rfl, rfl⟩

-- The end of a call: the blocks go to the file and the offset moves on.
theorem kept_finishes (kept : Kept crc fileSeq info file content blocks values offsets) (load : Load) (dump : Nat) (ready : Ready info load dump)
    (done : Dumping) (start bytes : Bytes) (more : List Block) (written : List Bytes) (reports : List Nat)
    (dumps : Dumps crc fileSeq info info.beginBlock { done with pos := done.newPos } (start ++ bytes) more written reports)
    (some_values : written ≠ []) (place : start.length = info.reported)
    (before : start.take (info.directOffset + info.beginBlock) = content.take (info.directOffset + info.beginBlock))
    (length : bytes.length = dump) (near : done.next < done.newPos + info.blockSize)
    (within : done.next ≤ info.beginBlock + info.estimateOf (dump + info.metaSize)) :
    ∃ buffer stored last content', info.writeOut file done = some ({ info with seq := done.seq, buffer := buffer }, stored) ∧
      done.next - info.beginBlock = info.estimateOf (dump + info.metaSize) ∧ info.writeSize done = dump + info.metaSize ∧
      ({ info with seq := done.seq, buffer := buffer } : WriteInfo).increaseOffset (dump + info.metaSize) = some last ∧
      info.reported < last.offset ∧ SameWriter info last ∧ Kept crc fileSeq last stored content' more written reports := by
  have tuned := kept.tuned
  have positive := ready.positive
  have file_limit := ready.limit
  have low := kept.low
  have some_bytes : bytes ≠ [] := List.length_pos_iff.mp (by omega)
  have behind : info.offset ≤ start.length := by
    rw [place, WriteInfo.reported]
    split <;> omega
  have total : info.offset + (dump + info.metaSize) = (start ++ bytes).length := by
    rw [List.length_append, place, length, WriteInfo.reported, WriteInfo.metaSize]
    split <;> omega
  have there : info.directOffset + done.newPos = (start ++ bytes).length := dumps.place
  obtain ⟨estimated, size⟩ := ready_ends tuned kept.aligned low dump done dumps.aligned dumps.lower near (by omega)
  obtain ⟨_, out⟩ := kept_writes_out kept done start bytes more _ _ dumps before behind some_bytes (by omega)
  obtain ⟨last, content', moved, further, kept⟩ := kept_increases kept done start bytes more _ _ (dump + info.metaSize) dumps some_values near total (by omega)
  have reported : info.reported < last.offset := by
    rw [WriteInfo.reported] at place ⊢
    rw [List.length_append] at total
    omega
  have same : SameWriter info last := increase_same { info with seq := done.seq, buffer := _ } last _ moved
  exact ⟨_, _, last, content', out, estimated, size, moved, reported, same, kept⟩

theorem same_trans_writer (first second third : WriteInfo) (before : SameWriter first second) (after : SameWriter second third) :
    SameWriter first third :=
  ⟨after.1.trans before.1, after.2.1.trans before.2.1, after.2.2.1.trans before.2.2.1, after.2.2.2.1.trans before.2.2.2.1,
    after.2.2.2.2.trans before.2.2.2.2⟩

theorem report_same (info : WriteInfo) (seq : Nat) (buffer : Bytes) :
    ({ info with seq := seq, buffer := buffer } : WriteInfo).reported = info.reported := rfl

theorem write_leaves (kept : Kept crc fileSeq info file content blocks values offsets) (value : Bytes) (some_value : value ≠ [])
    (bound : (Load.one value.length).bound info.blockSize < 2 ^ 31) :
    Leaves crc fileSeq info file values offsets (.one value.length) [value] (fun offset => [offset]) (directIOWrite crc info file value) := by
  obtain ⟨good, fixed, kept, same⟩ := kept_fixed kept
  rw [directIOWrite, fixed, Option.bind_some, if_neg some_value]
  have positive := List.length_pos_iff.mpr some_value
  obtain ⟨after, result, content', adjusted, kept, again, refusal, answers⟩ := kept_adjusted kept (.one value.length) positive (by rw [same.1]; exact bound)
  have writer := same_trans_writer info good after same again
  rw [adjusted, Option.bind_some]
  cases result with
  | error code =>
      exact ⟨_, _, _, content', blocks, rfl, writer, rfl, kept_status kept code, refused_fixed fixed same (refusal code rfl)⟩
  | ok sizes =>
      obtain ⟨dump, ready, rfl⟩ := answers sizes rfl
      clear answers
      have tuned := kept.tuned
      have limit := ready_limit tuned _ dump ready
      have room := ready.room
      have file_limit := ready.limit
      obtain ⟨multiple, least, most⟩ := estimate_bounds after (dump + after.metaSize) (tuned_positive tuned)
      obtain ⟨size, sized, longer, _⟩ := dump_size_some tuned (after.offset % after.blockSize) value.length kept.enters positive
      obtain rfl : size = dump := Option.some.inj (sized.symm.trans ready.sized)
      obtain ⟨head, whole, same_place⟩ := begin_block after kept.aligned kept.low
      obtain ⟨begun, start, begins, dumps, place, before, pos, next, tail⟩ := holding_begins kept.toHolding (Nat.le_refl _) (by omega)
      dsimp only
      rw [asserting_pos _ _ ⟨by omega, by omega⟩, begins, Option.bind_some]
      have not_last : after.offset = 0 → begun.next ≠ after.maxBuf := by
        intro fresh
        have roomy := tuned.roomy
        have meta_size : after.metaSize = after.blockSize := if_pos fresh
        have block := tuned_positive tuned
        omega
      rw [asserting_pos _ _ not_last]
      have start_size : calculateDumpSize after.blockSize (start.length % after.blockSize) value.length = some size := by
        rw [place, reported_place]
        exact sized
      obtain ⟨done, bytes, more, ran, length, ends, within, _, dumps, near⟩ := dumps_value kept.aligned dumps tuned false value some_value tail
        (after.beginBlock + after.estimateOf (size + after.metaSize)) (by rw [Nat.add_mod, whole, multiple, Nat.zero_add, Nat.zero_mod]) (by omega) room
        (by omega) size start_size (by omega)
      obtain ⟨buffer, stored, last, content'', out, estimated, written, moved, reported, same_last, kept⟩ :=
        kept_finishes kept _ size ready done start bytes more _ _ dumps (List.append_ne_nil_of_right_ne_nil _ (List.cons_ne_nil _ _)) place before length near within
      rw [ran, Option.bind_some]
      dsimp only
      rw [out, Option.bind_some]
      dsimp only
      rw [asserting_pos _ _ ⟨estimated, written⟩, moved, Option.bind_some, report_same, asserting_pos _ _ reported]
      rw [place] at kept
      exact ⟨_, _, _, content'', more, rfl, same_trans_writer info after last writer same_last, kept⟩

end Calls

end PaxosStore.DbComm
