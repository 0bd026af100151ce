import PaxosStore.DbComm.LogRoundTrip

set_option autoImplicit false

namespace PaxosStore.DbComm

open PaxosStore.Codec
open PaxosStore.PaxosKv

-- A buffered writer between two calls: its buffer holds everything from its first block on,
-- and the file what was before, with one block of it at most.
structure Buffered (crc : Crc32c) (fileSeq : Nat) (info : WriteInfo) (file content : Bytes) (blocks : List Block) (values : List Bytes) (offsets : List Nat) :
    Prop extends Holding crc fileSeq info 0 content blocks values offsets where
  compact : info.strategy = .maxCompact
  fits : ∃ room, room < info.blockSize ∧ (content.length + room) % info.blockSize = 0 ∧ content.length + room ≤ maxLogFileSize
  stored : ∃ rest, file = content.take info.directOffset ++ rest ∧ rest.length ≤ info.blockSize ∧ (info.offset = info.directOffset → rest = [])

-- The content and what fills its last block up.
def Flushed (crc : Crc32c) (blockSize : Nat) (file content : Bytes) : Prop :=
  ∃ pad, file = content ++ pad ∧ Padding crc pad ∧ (content ++ pad).length % blockSize = 0 ∧ pad.length < blockSize ∧
    (content ++ pad).length ≤ maxLogFileSize

section Flushing

variable {crc : Crc32c} {fileSeq : Nat} {info : WriteInfo} {file content : Bytes} {blocks : List Block} {values : List Bytes} {offsets : List Nat}
  (buffered : Buffered crc fileSeq info file content blocks values offsets)
include buffered

-- The end of the last block, in the buffer.
theorem last_block (room : Nat) (short : room < info.blockSize) (filled : (content.length + room) % info.blockSize = 0) :
    (if info.offset % info.blockSize = 0 then info.offset - info.directOffset
      else info.offset - info.directOffset - info.offset % info.blockSize + info.blockSize) = info.offset - info.directOffset + room ∧
    (if info.offset % info.blockSize = 0 then room = 0 else info.offset % info.blockSize + room = info.blockSize) ∧
    info.offset - info.directOffset + room ≤ info.maxBuf := by
  have tuned := buffered.tuned
  have positive := tuned_positive tuned
  have low := buffered.low
  have high := buffered.high
  have roomy := tuned.roomy
  obtain ⟨head, _⟩ := begin_block info buffered.aligned low
  rw [buffered.place] at filled
  have inner := Nat.mod_lt info.offset positive
  have ends := round_up info.blockSize info.offset (info.offset + room) filled (Nat.le_add_right _ _) (by omega)
  have within : info.offset - info.directOffset + room ≤ info.maxBuf := by
    have multiple : (info.directOffset + info.maxBuf + info.blockSize) % info.blockSize = 0 := by
      rw [Nat.add_mod_right, Nat.add_mod, buffered.aligned, tuned.whole, Nat.zero_add, Nat.zero_mod]
    have gap := Nat.sub_mod_eq_zero_of_mod_eq (multiple.trans filled.symm)
    have above := Nat.le_of_dvd (show 0 < info.directOffset + info.maxBuf + info.blockSize - (info.offset + room) by omega)
      (Nat.dvd_of_mod_eq_zero gap)
    omega
  split
  · rename_i zero
    rw [if_pos zero] at ends
    exact ⟨by omega, by omega, within⟩
  · rename_i some_rest
    rw [if_neg some_rest] at ends
    exact ⟨by omega, by omega, within⟩

-- What goes to the file: the content from the buffer's place on, a fake record and what is behind it.
theorem buffered_out (ahead : info.directOffset < info.offset) (room : Nat) (short : room < info.blockSize)
    (filled : (content.length + room) % info.blockSize = 0) (buffer : Bytes)
    (buffer_is : buffer = poke info.buffer (info.offset - info.directOffset) (fakeTail crc info.minTail room)) :
    buffer.length = info.maxBuf ∧ buffer.take (info.offset - info.directOffset) = content.drop info.directOffset ∧
      ∃ pad, pad.length = room ∧ Padding crc pad ∧
        pwrite file info.directOffset (buffer.take (info.offset - info.directOffset + room)) = content ++ pad := by
  have tuned := buffered.tuned
  have size := buffered.size
  have window := buffered.window
  have place := buffered.place
  have high := buffered.high
  obtain ⟨_, _, within⟩ := last_block buffered room short filled
  obtain ⟨rest, file_is, short_rest, _⟩ := buffered.stored
  rw [List.drop_zero, Nat.add_zero] at window
  have tail := fake_tail_length crc info.blockSize info.minTail ⟨tuned.header, tuned.short⟩ room
  have inside : info.offset - info.directOffset ≤ info.buffer.length := by omega
  have poked : buffer.length = info.maxBuf := by
    rw [buffer_is, poke_length _ _ _ (by omega), size]
  have taken : buffer.take (info.offset - info.directOffset) = content.drop info.directOffset := by
    rw [buffer_is, poke_take_before _ _ _ _ (Nat.le_refl _) inside]
    exact window
  have more := poke_take info.buffer (info.offset - info.directOffset) (fakeTail crc info.minTail room) inside
  rw [← buffer_is, window] at more
  have parts := List.take_append_drop (info.offset - info.directOffset + (fakeTail crc info.minTail room).length)
    (buffer.take (info.offset - info.directOffset + room))
  rw [List.take_take, Nat.min_eq_left (by omega), more, List.append_assoc] at parts
  generalize behind_is : (buffer.take (info.offset - info.directOffset + room)).drop
    (info.offset - info.directOffset + (fakeTail crc info.minTail room).length) = behind at parts
  have total : (fakeTail crc info.minTail room ++ behind).length = room := by
    rw [← behind_is, List.length_append, List.length_drop, List.length_take, poked]
    omega
  refine ⟨poked, taken, fakeTail crc info.minTail room ++ behind, total, fake_tail_padding crc info.minTail room behind total, ?_⟩
  have before : (content.take info.directOffset).length = info.directOffset := by
    rw [List.length_take, place]
    omega
  have long : (content.drop info.directOffset ++ (fakeTail crc info.minTail room ++ behind)).length = info.offset - info.directOffset + room := by
    rw [List.length_append, List.length_drop, place, total]
  have first : info.blockSize ≤ info.offset - info.directOffset + room := by
    have gap := Nat.sub_mod_eq_zero_of_mod_eq ((place ▸ filled).trans buffered.aligned.symm)
    have block := Nat.le_of_dvd (show 0 < info.offset + room - info.directOffset by omega) (Nat.dvd_of_mod_eq_zero gap)
    omega
  rw [← parts, pwrite_covers file _ _ (by rw [file_is, List.length_append, before]; omega)
    (by rw [file_is, List.length_append, before, long]; omega), file_is, List.take_left' before, ← List.append_assoc, List.take_append_drop]

-- The last block stays in the buffer.
theorem buffered_rebased (pad buffer : Bytes) (size : buffer.length = info.maxBuf)
    (window : buffer.take (info.offset % info.blockSize) = content.drop (info.offset - info.offset % info.blockSize))
    (short : info.offset % info.blockSize + pad.length ≤ info.blockSize) (nothing : info.offset % info.blockSize = 0 → pad = []) :
    Buffered crc fileSeq { info with directOffset := info.offset - info.offset % info.blockSize, buffer := buffer } (content ++ pad) content blocks values
      offsets := by
  have tuned := buffered.tuned
  have roomy := tuned.roomy
  have least := Nat.mod_le info.offset info.blockSize
  have place := buffered.place
  have inner := Nat.mod_lt info.offset (tuned_positive tuned)
  refine ⟨⟨tuned, size, place, ?_, Nat.sub_le _ _, ?_, buffered.enters, ?_, buffered.holds⟩, buffered.compact, buffered.fits,
    content.drop (info.offset - info.offset % info.blockSize) ++ pad, ?_, ?_, ?_⟩
  · exact Nat.sub_mod_eq_zero_of_mod_eq (Nat.mod_mod _ _).symm
  · dsimp only
    omega
  · dsimp only
    rw [Nat.sub_sub_self least, List.drop_zero, Nat.add_zero]
    exact window
  · rw [← List.append_assoc, List.take_append_drop]
  · rw [List.length_append, List.length_drop, place, Nat.sub_sub_self least]
    exact short
  · dsimp only
    intro same
    have zero : info.offset % info.blockSize = 0 := by omega
    rw [nothing zero, List.append_nil, List.drop_eq_nil_of_le]
    rw [place, zero]
    exact Nat.le_refl _

theorem buffered_flushes : ∃ after stored size, info.flushImpl crc file = some (after, stored, size) ∧
    Buffered crc fileSeq after stored content blocks values offsets ∧ SameWriter info after ∧ after.offset = info.offset ∧
    Flushed crc info.blockSize stored content ∧
    (info.directOffset < info.offset → 0 < size ∧ after.directOffset = info.offset - info.offset % info.blockSize) := by
  have tuned := buffered.tuned
  have positive := tuned_positive tuned
  have low := buffered.low
  have high := buffered.high
  have place := buffered.place
  obtain ⟨rest, file_is, short_rest, nothing⟩ := buffered.stored
  obtain ⟨room, short, filled, limit⟩ := buffered.fits
  obtain ⟨head, whole, same⟩ := begin_block info buffered.aligned low
  have inner := Nat.mod_lt info.offset positive
  rw [WriteInfo.flushImpl]
  by_cases none_left : info.offset = info.directOffset
  · rw [if_pos none_left]
    refine ⟨info, file, 0, rfl, buffered, ⟨rfl, rfl, rfl, rfl, rfl⟩, rfl, ⟨[], ?_, .inl rfl, ?_, positive, ?_⟩, fun wrong => by omega⟩
    · rw [file_is, nothing none_left, List.take_of_length_le (by rw [place, none_left])]
    · rw [List.append_nil, place, none_left]
      exact buffered.aligned
    · rw [List.append_nil]
      exact Nat.le_trans (Nat.le_add_right _ _) limit
  · have some_bytes : content ≠ [] := by
      rintro rfl
      rw [List.length_nil] at place
      omega
    have least := content_head (buffered.holds.resolve_left (fun blank => some_bytes blank.1))
    have enters := buffered.enters
    obtain ⟨last, ends, within⟩ := last_block buffered room short filled
    obtain ⟨size, taken, pad, length, padding, stored⟩ := buffered_out buffered (by omega) room short filled _ rfl
    rw [if_neg none_left, asserting_pos _ _ ⟨by omega, high, by omega, by omega⟩]
    dsimp only
    rw [same, last, asserting_pos _ _ ⟨within, by omega, rfl, by
      by_cases zero : info.offset % info.blockSize = 0
      · exact .inl zero
      · exact .inr enters.1⟩]
    rw [Nat.add_sub_cancel_left, append_fake crc info.blockSize info.minTail ⟨tuned.header, tuned.short⟩ room short, Option.bind_some, stored]
    generalize poke info.buffer (info.offset - info.directOffset) (fakeTail crc info.minTail room) = buffer at size taken
    have flushed : Flushed crc info.blockSize (content ++ pad) content := by
      refine ⟨pad, rfl, padding, ?_, by omega, ?_⟩
      · rw [List.length_append, length]
        exact filled
      · rw [List.length_append, length]
        exact limit
    have over_ : info.offset % info.blockSize + pad.length ≤ info.blockSize := by
      split at ends <;> omega
    have empty : info.offset % info.blockSize = 0 → pad = [] := by
      intro zero
      rw [if_pos zero] at ends
      exact List.length_eq_zero_iff.mp (by omega)
    by_cases stays : info.offset % info.blockSize = 0 ∨ info.offset - info.directOffset + room = info.blockSize
    · rw [if_pos stays]
      refine ⟨_, _, _, rfl, buffered_rebased buffered pad buffer size ?_ over_ empty, ⟨rfl, rfl, rfl, rfl, rfl⟩, rfl, flushed,
        fun ahead => ⟨by omega, rfl⟩⟩
      by_cases zero : info.offset % info.blockSize = 0
      · rw [zero, List.take_zero, List.drop_eq_nil_of_le]
        rw [place]
        exact Nat.le_refl _
      · rw [if_neg zero] at ends
        have one : info.offset - info.directOffset = info.offset % info.blockSize := by
          have end_ := stays.resolve_left zero
          omega
        rw [← one, taken]
        exact congrArg (fun offset => content.drop offset) (by omega)
    · rw [if_neg stays]
      obtain ⟨some_rest, beyond⟩ := not_or.mp stays
      rw [if_neg some_rest] at ends
      rw [append_fake crc info.blockSize info.minTail ⟨tuned.header, tuned.short⟩ _ (by omega), Option.map_some]
      have tail := fake_tail_length crc info.blockSize info.minTail ⟨tuned.header, tuned.short⟩ (info.blockSize - info.offset % info.blockSize)
      have roomy := tuned.roomy
      have front : info.offset - info.directOffset + room - info.blockSize = info.beginBlock := by omega
      rw [front]
      have block : (buffer.drop info.beginBlock).take (info.offset % info.blockSize) = content.drop (info.offset - info.offset % info.blockSize) := by
        have further := congrArg (List.drop info.beginBlock) taken
        rw [List.drop_take, List.drop_drop, show info.offset - info.directOffset - info.beginBlock = info.offset % info.blockSize by omega,
          show info.directOffset + info.beginBlock = info.offset - info.offset % info.blockSize by omega] at further
        exact further
      have length_block : ((buffer.drop info.beginBlock).take (info.offset % info.blockSize)).length = info.offset % info.blockSize := by
        rw [block, List.length_drop, place]
        omega
      have moved : (poke buffer 0 ((buffer.drop info.beginBlock).take (info.offset % info.blockSize))).length = info.maxBuf := by
        rw [poke_length _ _ _ (by rw [length_block, size]; omega), size]
      refine ⟨_, _, _, rfl, buffered_rebased buffered pad _ ?_ ?_ over_ empty, ⟨rfl, rfl, rfl, rfl, rfl⟩, rfl, flushed,
        fun ahead => ⟨by omega, rfl⟩⟩
      · rw [poke_length _ _ _ (by rw [moved]; omega), moved]
      · rw [poke_take_before _ _ _ _ (Nat.le_refl _) (by rw [moved]; omega)]
        have front_taken := poke_take buffer 0 ((buffer.drop info.beginBlock).take (info.offset % info.blockSize)) (Nat.zero_le _)
        rw [length_block, Nat.zero_add, List.take_zero, List.nil_append] at front_taken
        rw [front_taken, block]

theorem buffered_status (status : Int) : Buffered crc fileSeq { info with status := status } file content blocks values offsets :=
  ⟨⟨buffered.tuned, buffered.size, buffered.place, buffered.aligned, buffered.low, buffered.high, buffered.enters, buffered.window,
    buffered.holds⟩, buffered.compact, buffered.fits, buffered.stored⟩

theorem buffered_fixed : ∃ after, info.fixed = some after ∧ Buffered crc fileSeq after file content blocks values offsets ∧ SameWriter info after := by
  rw [WriteInfo.fixed]
  by_cases good : info.status = 0
  · rw [if_pos good]
    exact ⟨info, rfl, buffered, rfl, rfl, rfl, rfl, rfl⟩
  · rw [if_neg good, asserting_pos _ _ ⟨buffered.low, buffered.high⟩]
    exact ⟨_, rfl, buffered_status buffered 0, rfl, rfl, rfl, rfl, rfl⟩

-- The buffer has room for the blocks of the next value.
theorem buffered_makes_room (estimate : Nat) (fits : estimate ≤ info.maxBuf) : ∃ after stored, info.makeRoom crc file estimate = some (after, stored) ∧
    Buffered crc fileSeq after stored content blocks values offsets ∧ SameWriter info after ∧ after.offset = info.offset ∧
    (stored = file ∨ Flushed crc info.blockSize stored content) ∧ after.beginBlock + estimate ≤ info.maxBuf := by
  have low := buffered.low
  obtain ⟨head, whole, same⟩ := begin_block info buffered.aligned low
  have parts := Nat.div_add_mod info.offset info.blockSize
  rw [Nat.mul_comm] at parts
  have inner := Nat.mod_lt info.offset (tuned_positive buffered.tuned)
  rw [WriteInfo.makeRoom]
  by_cases tight : info.directOffset + info.maxBuf < info.offset / info.blockSize * info.blockSize + estimate
  · rw [if_pos tight]
    obtain ⟨after, stored, size, flushes, buffered, writer, place, flushed, moved⟩ := buffered_flushes buffered
    obtain ⟨some_size, start⟩ := moved (by omega)
    have gap : after.offset - after.directOffset = info.offset % info.blockSize := by
      rw [place, start]
      omega
    rw [flushes, Option.bind_some]
    dsimp only
    rw [asserting_pos _ _ ⟨some_size, by rw [place, start, writer.1]; omega⟩]
    refine ⟨after, stored, rfl, buffered, writer, place, .inr flushed, ?_⟩
    rw [WriteInfo.beginBlock, gap, writer.1, Nat.div_eq_of_lt inner, Nat.zero_mul, Nat.zero_add]
    exact fits
  · rw [if_neg tight]
    exact ⟨info, file, rfl, buffered, ⟨rfl, rfl, rfl, rfl, rfl⟩, rfl, .inl rfl, by omega⟩

-- A value goes to the buffer.
theorem buffer_dumps (value : Bytes) (some_value : value ≠ []) (dump : Nat) (ready : Ready info (.one value.length) dump) :
    ∃ last content' blocks', (∃ begun done, info.beginDump = some begun ∧ (info.offset = 0 → begun.pos ≠ info.maxBuf) ∧
        dumpOne crc info.blockSize info.minTail info.maxBuf true begun value = some (done, true) ∧
        (done.next - info.beginBlock = info.estimateOf (dump + info.metaSize) ∧ info.writeSize done = dump + info.metaSize ∧
          info.directOffset + done.next ≤ maxLogFileSize) ∧
        ({ info with seq := done.seq, buffer := done.buffer } : WriteInfo).increaseOffset (dump + info.metaSize) = some last ∧
        info.reported < last.offset) ∧
      SameWriter info last ∧ Buffered crc fileSeq last file content' blocks' (values ++ [value]) (offsets ++ [info.reported]) := by
  have tuned := buffered.tuned
  have positive := ready.positive
  have limit := ready_limit tuned _ dump ready
  have room := ready.room
  have file_limit := ready.limit
  have low := buffered.low
  have place := buffered.place
  obtain ⟨multiple, least, most⟩ := estimate_bounds info (dump + info.metaSize) (tuned_positive tuned)
  obtain ⟨head, whole, same⟩ := begin_block info buffered.aligned low
  obtain ⟨begun, start, begins, dumps, start_place, before, pos, next, tail⟩ :=
    holding_begins buffered.toHolding (Nat.zero_le _) (by omega)
  have not_last : info.offset = 0 → begun.pos ≠ info.maxBuf := by
    intro fresh
    have roomy := tuned.roomy
    have meta_size : info.metaSize = info.blockSize := if_pos fresh
    have block := tuned_positive tuned
    omega
  have start_size : calculateDumpSize info.blockSize (start.length % info.blockSize) value.length = some dump := by
    rw [start_place, reported_place]
    exact ready.sized
  obtain ⟨done, bytes, more, ran, length, ends, within, _, dumps, near⟩ := dumps_value buffered.aligned dumps tuned true value some_value tail
    (info.beginBlock + info.estimateOf (dump + info.metaSize)) (by rw [Nat.add_mod, whole, multiple, Nat.zero_add, Nat.zero_mod]) (by omega) room
    (by omega) dump start_size (by omega)
  have total : info.offset + (dump + info.metaSize) = (start ++ bytes).length := by
    rw [List.length_append, start_place, length, WriteInfo.reported, WriteInfo.metaSize]
    split <;> omega
  obtain ⟨estimated, size⟩ := ready_ends tuned buffered.aligned low dump done dumps.aligned dumps.lower near (by omega)
  obtain ⟨gap, rest, moved, parts, holding⟩ := holding_increases tuned buffered.aligned dumps near (dump + info.metaSize) total (by dsimp only; omega)
  dsimp only at parts
  have reported : info.reported < (start ++ bytes).length + gap := by
    rw [List.length_append, start_place, length]
    omega
  obtain ⟨before_rest, file_is, short_rest, nothing⟩ := buffered.stored
  have there : info.directOffset + done.newPos = (start ++ bytes).length := dumps.place
  have end_ : done.newPos ≤ done.next := dumps.lower
  have long_start : info.directOffset ≤ start.length := by
    rw [start_place, WriteInfo.reported]
    split <;> omega
  have prefix_same : (start ++ bytes ++ List.replicate gap 0).take info.directOffset = content.take info.directOffset := by
    rw [List.append_assoc, List.take_append_of_le_length long_start]
    have shorter := congrArg (List.take info.directOffset) before
    rw [List.take_take, List.take_take, Nat.min_eq_left (Nat.le_add_right _ _)] at shorter
    exact shorter
  rw [start_place] at holding
  refine ⟨_, _, more, ⟨begun, done, begins, not_last, ran, ⟨estimated, size, by omega⟩, moved, reported⟩, ⟨rfl, rfl, rfl, rfl, rfl⟩, holding,
    buffered.compact, ⟨rest, ?_, ?_, ?_⟩, before_rest, ?_, short_rest, ?_⟩
  · dsimp only [WriteInfo.movedTo]
    omega
  · have end_place : (start ++ bytes ++ List.replicate gap 0).length + rest = info.directOffset + done.next := by
      rw [List.length_append, List.length_replicate]
      omega
    have end_whole : (info.directOffset + done.next) % info.blockSize = 0 := by
      rw [Nat.add_mod, buffered.aligned, show done.next % info.blockSize = 0 from dumps.aligned, Nat.zero_add, Nat.zero_mod]
    rw [end_place]
    exact end_whole
  · rw [List.length_append, List.length_replicate]
    omega
  · exact file_is.trans (congrArg (· ++ before_rest) prefix_same.symm)
  · dsimp only [WriteInfo.movedTo]
    intro wrong
    omega

theorem buffer_leaves (value : Bytes) (some_value : value ≠ []) (bound : (Load.one value.length).bound info.blockSize < 2 ^ 31) :
    ∃ after stored result content' blocks', directIOBufferWrite crc info file value = some (after, stored, result) ∧ SameWriter info after ∧
      (stored = file ∨ Flushed crc info.blockSize stored content) ∧
      match result with
      | .error _ => stored = file ∧ Buffered crc fileSeq after stored content' blocks' values offsets
      | .ok offset => Buffered crc fileSeq after stored content' blocks' (values ++ [value]) (offsets ++ [offset]) := by
  obtain ⟨good, fixed, buffered, same⟩ := buffered_fixed buffered
  have positive := List.length_pos_iff.mpr some_value
  obtain ⟨dump, sized, some_dump, _, sizes⟩ :=
    sizes_some good buffered.tuned buffered.enters (.one value.length) positive (by rw [same.1]; exact bound)
  rw [directIOBufferWrite, fixed, Option.bind_some, if_neg some_value, asserting_pos _ _ buffered.compact, sizes, Option.bind_some]
  dsimp only
  by_cases large : good.maxBuf < good.estimateOf (dump + good.metaSize)
  · rw [if_pos large]
    exact ⟨_, _, _, content, blocks, rfl, same, .inl rfl, rfl, buffered_status buffered _⟩
  · rw [if_neg large]
    by_cases next : good.needIterWriteFile (good.estimateOf (dump + good.metaSize)) = true
    · rw [if_pos next]
      exact ⟨_, _, _, content, blocks, rfl, same, .inl rfl, rfl, buffered_status buffered _⟩
    · rw [if_neg next]
      obtain ⟨after, stored, room_made, buffered, again, offset_same, durable, room⟩ :=
        buffered_makes_room buffered (good.estimateOf (dump + good.metaSize)) (by omega)
      have estimate : good.estimateOf (dump + good.metaSize) = after.estimateOf (dump + after.metaSize) := by
        rw [WriteInfo.estimateOf, WriteInfo.estimateOf, WriteInfo.metaSize, WriteInfo.metaSize, offset_same, again.1]
      have meta_size : good.metaSize = after.metaSize := by rw [WriteInfo.metaSize, WriteInfo.metaSize, offset_same, again.1]
      have dumped : calculateDumpSize after.blockSize (after.offset % after.blockSize) value.length = some dump := by
        rw [offset_same, again.1]
        exact sized
      have writer := same_trans_writer info good after same again
      have block_size : after.blockSize = info.blockSize := writer.1
      have file_limit : after.directOffset + after.beginBlock + after.estimateOf (dump + after.metaSize) ≤ maxLogFileSize := by
        obtain ⟨head, _⟩ := begin_block after buffered.aligned buffered.low
        have parts := Nat.div_add_mod after.offset after.blockSize
        rw [Nat.mul_comm] at parts
        rw [WriteInfo.needIterWriteFile, decide_eq_true_eq, estimate, ← offset_same, ← again.1] at next
        omega
      rw [room_made, Option.bind_some, estimate, meta_size]
      rw [estimate, ← again.2.1] at room
      have ready : Ready after (.one value.length) dump := ⟨dumped, some_dump, room, file_limit⟩
      obtain ⟨last, content', blocks', ran, last_same, last_buffered⟩ := buffer_dumps buffered value some_value dump ready
      obtain ⟨begun, done, begins, fresh, dumps, sizes_same, moved, reported⟩ := ran
      rw [begins, Option.bind_some, asserting_pos _ _ fresh, dumps, Option.bind_some]
      dsimp only
      rw [asserting_pos _ _ sizes_same, moved, Option.bind_some, report_same, asserting_pos _ _ reported]
      exact ⟨_, _, _, content', blocks', rfl, same_trans_writer info after last writer last_same, same.1 ▸ durable, last_buffered⟩

end Flushing

-- The calls of a writer that gathers its values.
inductive BufferCall where
  | write (value : Bytes)
  | flush
deriving DecidableEq

def bufferAll (crc : Crc32c) : List BufferCall → WriteInfo → Bytes → Option (WriteInfo × Bytes × List Bytes × List Nat)
  | [], info, file => some (info, file, [], [])
  | .flush :: rest, info, file => (flush crc info file).bind fun (info, file) => bufferAll crc rest info file
  | .write value :: rest, info, file =>
      (directIOBufferWrite crc info file value).bind fun
      | (info, file, .error _) => bufferAll crc rest info file
      | (info, file, .ok offset) =>
          (bufferAll crc rest info file).map fun (info, file, values, reports) => (info, file, value :: values, offset :: reports)

-- At least so many of the values are read back, in their order.
def Durable (crc : Crc32c) (least : Nat) (file : Bytes) (values : List Bytes) (offsets : List Nat) : Prop :=
  ∃ count, least ≤ count ∧ count ≤ values.length ∧ (0 < count → ReadsBack crc file (values.take count) (offsets.take count))

section Runs

variable {crc : Crc32c} {fileSeq : Nat} {info : WriteInfo} {file content : Bytes} {blocks : List Block} {values : List Bytes} {offsets : List Nat}

theorem holding_count {base : Nat} (holding : Holding crc fileSeq info base content blocks values offsets) : offsets.length = values.length := by
  rcases holding.holds with ⟨_, _, _, _, rfl, rfl⟩ | holds
  · rfl
  · exact holds.count

theorem flushed_reads_back {base : Nat} (holding : Holding crc fileSeq info base content blocks values offsets) (stored : Bytes)
    (flushed : Flushed crc info.blockSize stored content) (some_values : values ≠ []) : ReadsBack crc stored values offsets := by
  obtain ⟨pad, rfl, padding, filled, short, bound⟩ := flushed
  rcases holding.holds with ⟨_, _, _, _, none_left, _⟩ | holds
  · exact absurd none_left some_values
  · exact content_reads_back holding.tuned holds some_values pad padding filled short bound

theorem flushed_durable {base : Nat} (holding : Holding crc fileSeq info base content blocks values offsets) (stored : Bytes)
    (flushed : Flushed crc info.blockSize stored content) (least : Nat) (below : least ≤ values.length) :
    Durable crc least stored values offsets := by
  refine ⟨values.length, below, Nat.le_refl _, fun some_values => ?_⟩
  rw [List.take_length, ← holding_count holding, List.take_length]
  exact flushed_reads_back holding stored flushed (List.length_pos_iff.mp some_values)

theorem durable_grows (least : Nat) (durable : Durable crc least file values offsets) (count : offsets.length = values.length)
    (added : List Bytes) (reports : List Nat) : Durable crc least file (values ++ added) (offsets ++ reports) := by
  obtain ⟨many, above, below, reads⟩ := durable
  refine ⟨many, above, ?_, ?_⟩
  · rw [List.length_append]
    omega
  · rw [List.take_append_of_le_length below, List.take_append_of_le_length (by omega)]
    exact reads

theorem flush_leaves (buffered : Buffered crc fileSeq info file content blocks values offsets) :
    ∃ after stored, flush crc info file = some (after, stored) ∧ Buffered crc fileSeq after stored content blocks values offsets ∧ SameWriter info after ∧
      Flushed crc info.blockSize stored content := by
  obtain ⟨good, fixed, buffered, same⟩ := buffered_fixed buffered
  obtain ⟨after, stored, size, flushes, buffered, again, _, flushed, _⟩ := buffered_flushes buffered
  rw [flush, fixed, Option.bind_some, flushes, Option.map_some]
  exact ⟨after, stored, rfl, buffered, same_trans_writer info good after same again, same.1 ▸ flushed⟩

-- What has been flushed stays in the file, whatever is written and flushed later.
theorem buffered_calls (calls : List BufferCall) (blockSize : Nat)
    (admitted : ∀ value, .write value ∈ calls → value ≠ [] ∧ (Load.one value.length).bound blockSize < 2 ^ 31)
    (same_block : info.blockSize = blockSize) (buffered : Buffered crc fileSeq info file content blocks values offsets) (least : Nat)
    (durable : Durable crc least file values offsets) :
    ∃ after stored added reports content' blocks', bufferAll crc calls info file = some (after, stored, added, reports) ∧ SameWriter info after ∧
      Buffered crc fileSeq after stored content' blocks' (values ++ added) (offsets ++ reports) ∧
      Durable crc least stored (values ++ added) (offsets ++ reports) := by
  induction calls generalizing info file content blocks values offsets with
  | nil =>
      refine ⟨info, file, [], [], content, blocks, rfl, ⟨rfl, rfl, rfl, rfl, rfl⟩, ?_⟩
      rw [List.append_nil, List.append_nil]
      exact ⟨buffered, durable⟩
  | cons call rest ih =>
      have others : ∀ value, .write value ∈ rest → value ≠ [] ∧ (Load.one value.length).bound blockSize < 2 ^ 31 :=
        fun value there => admitted value (List.mem_cons_of_mem _ there)
      have below : least ≤ values.length := by
        obtain ⟨count, above, most, _⟩ := durable
        omega
      cases call with
      | flush =>
          obtain ⟨after, stored, flushes, again, same, flushed⟩ := flush_leaves buffered
          have known := flushed_durable buffered.toHolding stored flushed least below
          obtain ⟨last, final, added, reports, content', blocks', whole, last_same, ends⟩ := ih others (same.1.trans same_block) again known
          refine ⟨last, final, added, reports, content', blocks', ?_, same_trans_writer info after last same last_same, ends⟩
          rw [bufferAll, flushes]
          exact whole
      | write value =>
          obtain ⟨some_value, bound⟩ := admitted value (List.mem_cons_self ..)
          obtain ⟨after, stored, result, content', blocks', ran, same, on_disk, leaves⟩ :=
            buffer_leaves buffered value some_value (by rw [same_block]; exact bound)
          have known : Durable crc least stored values offsets := by
            rcases on_disk with rfl | flushed
            · exact durable
            · exact flushed_durable buffered.toHolding stored flushed least below
          cases result with
          | error code =>
              obtain ⟨last, final, added, reports, content'', blocks'', whole, last_same, ends⟩ :=
                ih others (same.1.trans same_block) leaves.2 known
              refine ⟨last, final, added, reports, content'', blocks'', ?_, same_trans_writer info after last same last_same, ends⟩
              rw [bufferAll, ran]
              exact whole
          | ok offset =>
              obtain ⟨last, final, added, reports, content'', blocks'', whole, last_same, ends⟩ :=
                ih others (same.1.trans same_block) leaves (durable_grows least known (holding_count buffered.toHolding) [value] [offset])
              rw [List.append_assoc, List.append_assoc] at ends
              refine ⟨last, final, value :: added, offset :: reports, content'', blocks'', ?_, same_trans_writer info after last same last_same, ends⟩
              rw [bufferAll, ran, Option.bind_some]
              dsimp only
              rw [whole]
              rfl

theorem configured_buffered {memory : Bytes} {blockSize maxBuf minTail startSeq : Nat} {writer : WriteInfo}
    (configured : Configured memory blockSize maxBuf minTail startSeq .maxCompact writer) : Buffered crc startSeq writer [] [] [] [] [] := by
  obtain ⟨_, _, compact, offset, direct, holding⟩ := @configured_holds crc _ _ _ _ _ _ _ configured 0
  have positive := tuned_positive holding.tuned
  exact ⟨holding, compact, ⟨0, positive, Nat.zero_mod _, Nat.zero_le _⟩, [],
    by rw [List.take_nil, List.append_nil], Nat.zero_le _, fun _ => rfl⟩

-- A flush makes the values before it durable: later writes and flushes leave them and may
-- add to them.
theorem flushes_read_back (memory : Bytes) (blockSize maxBuf minTail startSeq : Nat) (writer : WriteInfo)
    (configured : Configured memory blockSize maxBuf minTail startSeq .maxCompact writer) (before later : List BufferCall)
    (admitted : ∀ value, .write value ∈ before ++ later → value ≠ [] ∧ (Load.one value.length).bound blockSize < 2 ^ 31) :
    ∃ first held early marks second disk last file added reports, bufferAll crc before writer [] = some (first, held, early, marks) ∧
      flush crc first held = some (second, disk) ∧ bufferAll crc later second disk = some (last, file, added, reports) ∧
      (marks ++ reports).length = (early ++ added).length ∧ Durable crc early.length file (early ++ added) (marks ++ reports) := by
  obtain ⟨same, _⟩ := @configured_holds crc _ _ _ _ _ _ _ configured 0
  obtain ⟨first, held, early, marks, content, blocks, ran, first_same, buffered, _⟩ := buffered_calls before blockSize
    (fun value there => admitted value (List.mem_append_left _ there)) same (configured_buffered configured) 0
    ⟨0, Nat.le_refl _, Nat.zero_le _, fun wrong => absurd wrong (Nat.lt_irrefl 0)⟩
  rw [List.nil_append, List.nil_append] at buffered
  obtain ⟨second, disk, flushes, again, second_same, flushed⟩ := flush_leaves buffered
  obtain ⟨last, file, added, reports, content', blocks', more, _, ends, durable⟩ := buffered_calls later blockSize
    (fun value there => admitted value (List.mem_append_right _ there)) (second_same.1.trans (first_same.1.trans same)) again early.length
    (flushed_durable buffered.toHolding disk flushed early.length (Nat.le_refl _))
  exact ⟨first, held, early, marks, second, disk, last, file, added, reports, ran, flushes, more, holding_count ends.toHolding, durable⟩

end Runs

theorem flushes_read_back_pair : ∃ first held early marks second disk last file added reports,
    bufferAll castagnoli [.write [1, 2], .write [3]] (plainWriter .maxCompact) [] = some (first, held, early, marks) ∧
      flush castagnoli first held = some (second, disk) ∧
      bufferAll castagnoli [.write [4]] second disk = some (last, file, added, reports) ∧
      (marks ++ reports).length = (early ++ added).length ∧ Durable castagnoli early.length file (early ++ added) (marks ++ reports) :=
  flushes_read_back _ 4096 12288 0 1 _ (plain_configured .maxCompact) [.write [1, 2], .write [3]] [.write [4]] (by
    intro value there
    simp only [List.cons_append, List.nil_append, List.mem_cons, BufferCall.write.injEq, List.not_mem_nil, or_false] at there
    rcases there with rfl | rfl | rfl <;> decide)

end PaxosStore.DbComm
