import PaxosStore.DbComm.LogSizes

set_option autoImplicit false

namespace PaxosStore.DbComm

open PaxosStore.Codec
open PaxosStore.PaxosKv

theorem extend_length (blocks : List Block) (parts : List Part) (fresh : List Block) :
    (extendBlocks blocks parts fresh).length = blocks.length + fresh.length := by
  rcases List.eq_nil_or_concat blocks with rfl | ⟨before, last, rfl⟩
  · exact (Nat.zero_add _).symm
  · rw [List.concat_eq_append, extend_last, List.length_append, List.length_cons, List.length_append, List.length_singleton]
    omega

theorem extend_numbers (blocks : List Block) (parts : List Part) (fresh : List Block) (block : Block)
    (member : block ∈ extendBlocks blocks parts fresh) : (∃ old, old ∈ blocks ∧ old.seq = block.seq) ∨ block ∈ fresh := by
  rcases List.eq_nil_or_concat blocks with rfl | ⟨before, last, rfl⟩
  · exact .inr member
  · rw [List.concat_eq_append, extend_last] at member
    rw [List.concat_eq_append]
    rcases List.mem_append.mp member with old | rest
    · exact .inl ⟨block, List.mem_append_left _ old, rfl⟩
    · rcases List.mem_cons.mp rest with rfl | new
      · exact .inl ⟨last, List.mem_append_right _ (List.mem_singleton_self _), rfl⟩
      · exact .inr new

-- What lies before the writer's place: the block of the meta info, then data blocks that
-- spell the values, each of which is read back from its offset on.
structure Content (crc : Crc32c) (blockSize startSeq : Nat) (content : Bytes) (seq : Nat) (blocks : List Block) (values : List Bytes)
    (offsets : List Nat) : Prop where
  parts : ∃ head data, content = head ++ data ∧ head.length = blockSize ∧ (∃ rest, head = fileMetaHead startSeq blockSize ++ rest) ∧
    Laid crc blockSize data blocks
  seq : startSeq ≤ seq ∧ seq ≤ startSeq + 2 * blocks.length
  current : ∀ block ∈ blocks, startSeq < block.seq ∧ block.seq < startSeq + 2 * blocks.length
  spelt : Spells [] blocks values
  count : offsets.length = values.length
  placed : ∀ i offset, offsets[i]? = some offset → Placed blockSize blocks offset (values.drop i)

section Contents

variable {crc : Crc32c} {blockSize maxBuf minTail startSeq seq : Nat} {content : Bytes} {blocks : List Block} {values : List Bytes}
  {offsets : List Nat} (holds : Content crc blockSize startSeq content seq blocks values offsets)
include holds

-- The rest of the last block, filled up.
theorem content_filled (pad : Bytes) (padding : Padding crc pad) (aligned : (content ++ pad).length % blockSize = 0)
    (short : pad.length < blockSize) : Content crc blockSize startSeq (content ++ pad) seq blocks values offsets := by
  obtain ⟨head, data, rfl, size, meta_head, laid⟩ := holds.parts
  refine ⟨⟨head, data ++ pad, List.append_assoc _ _ _, size, meta_head, ?_⟩, holds.seq, holds.current, holds.spelt, holds.count, holds.placed⟩
  refine laid_padded crc data blocks laid pad padding ?_ short
  rw [List.append_assoc, List.length_append, size, Nat.add_mod_left] at aligned
  exact aligned

theorem content_padded (room : Nat) (aligned : (content.length + room) % blockSize = 0) (short : room < blockSize) :
    Content crc blockSize startSeq (content ++ List.replicate room 0) seq blocks values offsets := by
  refine content_filled holds _ (padding_zeros crc room) ?_ (by rw [List.length_replicate]; exact short)
  rw [List.length_append, List.length_replicate]
  exact aligned

theorem content_start : content.length % blockSize = 0 ∨ blockMetaSize + headerSize ≤ content.length % blockSize := by
  obtain ⟨head, data, rfl, size, meta_head, laid⟩ := holds.parts
  rw [List.length_append, size, Nat.add_mod_left]
  rcases laid_length crc data blocks laid with ⟨aligned, _⟩ | ⟨_, _, block, _, _, _, some_parts, sized, _, _, place, _⟩
  · exact .inl aligned
  · right
    obtain ⟨part, rest, shape⟩ := List.exists_cons_of_ne_nil some_parts
    rw [place, shape, show partsSize (part :: rest) = part.size + partsSize rest from rfl, Part.size]
    omega

theorem content_head : blockSize ≤ content.length := by
  obtain ⟨head, data, rfl, size, _⟩ := holds.parts
  rw [List.length_append, size]
  exact Nat.le_add_right _ _

variable (tuned : Tuned blockSize maxBuf minTail startSeq)
include tuned

-- A block takes two numbers at most.
theorem content_seq : 2048 * seq ≤ 2048 * startSeq + content.length := by
  obtain ⟨head, data, rfl, size, _, laid⟩ := holds.parts
  have number := holds.seq.2
  have paged : 4096 ≤ blockSize := tuned.paged
  have count : blocks.length * 4096 ≤ blockSize + data.length := by
    rcases laid_length crc data blocks laid with ⟨-, total, -⟩ | ⟨-, before, block, -, split, -, -, -, -, -, -, total⟩
    · have least : blocks.length * 4096 ≤ blocks.length * blockSize := Nat.mul_le_mul_left _ paged
      omega
    · have least : before.length * 4096 ≤ before.length * blockSize := Nat.mul_le_mul_left _ paged
      have long : before.length * blockSize ≤ data.length := by
        rw [total]
        exact Nat.le_add_right _ _
      have count : blocks.length = before.length + 1 := by rw [split, List.length_append, List.length_singleton]
      calc blocks.length * 4096 = 4096 + before.length * 4096 := by rw [count, Nat.add_mul, Nat.one_mul, Nat.add_comm]
        _ ≤ blockSize + data.length := Nat.add_le_add paged (Nat.le_trans least long)
  rw [List.length_append, size]
  omega

theorem content_cut (value : Bytes) (parts : List Part) (fresh : List Block)
    (cut : Cut blockSize seq (blockSize - content.length % blockSize) value parts fresh) (numbered : seq + fresh.length < 2 ^ 64) :
    Content crc blockSize startSeq (content ++ cutBytes crc parts fresh) (seq + fresh.length) (extendBlocks blocks parts fresh)
      (values ++ [value]) (offsets ++ [content.length]) := by
  obtain ⟨head, data, rfl, size, meta_head, laid⟩ := holds.parts
  have place : (head ++ data).length % blockSize = data.length % blockSize := by
    rw [List.length_append, size, Nat.add_mod_left]
  have where_ : (head ++ data).length = blockSize + data.length := by rw [List.length_append, size]
  rw [place] at cut
  have large := tuned_large tuned
  have laid_more := laid_cut crc large tuned.limit data blocks laid seq value parts fresh cut numbered
  have placed := placed_cut crc data blocks laid seq value parts fresh cut
  have more := cut_spells blockSize seq _ value parts fresh cut
  refine ⟨⟨head, data ++ cutBytes crc parts fresh, List.append_assoc _ _ _, size, meta_head, laid_more⟩, ?_, ?_, ?_, ?_, ?_⟩
  · have number := holds.seq
    rw [extend_length]
    exact ⟨by omega, by omega⟩
  · intro block member
    have number := holds.seq
    rw [extend_length]
    rcases extend_numbers blocks parts fresh block member with ⟨old, there, same⟩ | new
    · rw [← same]
      have current := holds.current old there
      omega
    · have numbers := cut_numbers blockSize seq _ value parts fresh cut block new
      have some_fresh := List.length_pos_of_mem new
      omega
  · have extended := spells_extend [] blocks values holds.spelt parts fresh [value] more
    by_cases none_before : blocks = []
    · subst none_before
      have empty : data.length % blockSize = 0 := by
        rcases laid_length crc data [] laid with ⟨aligned, _⟩ | ⟨_, before, block, _, split, _⟩
        · exact aligned
        · exact absurd split.symm (List.append_ne_nil_of_right_ne_nil _ (List.cons_ne_nil _ _))
      rw [empty, Nat.sub_zero] at cut
      cases cut with
      | head _ _ _ => exact extended.1 rfl
      | inside _ _ inner _ _ => exact absurd inner (Nat.lt_irrefl _)
      | across _ _ _ _ inner _ _ _ => exact absurd inner (Nat.lt_irrefl _)
    · exact extended.2 none_before
  · simp only [List.length_append, List.length_singleton, holds.count]
  · intro i offset there
    rw [List.getElem?_append] at there
    by_cases old : i < offsets.length
    · rw [if_pos old] at there
      rw [List.drop_append_of_le_length (by rw [← holds.count]; exact Nat.le_of_lt old)]
      exact placed_extend blockSize blocks offset _ (holds.placed i offset there) parts fresh [value] more
    · rw [if_neg old] at there
      have last : i = values.length := by
        have inside := (List.getElem?_eq_some_iff.mp there).1
        rw [List.length_singleton] at inside
        have count := holds.count
        omega
      have first : i - offsets.length = 0 := by
        have count := holds.count
        omega
      rw [first] at there
      cases there
      rw [last, List.drop_left, where_]
      exact placed

end Contents

-- A dump that has come to the end of `content`; from `base` on the buffer holds it. The room
-- of a block that is too small for a value is zeros.
structure Dumps (crc : Crc32c) (fileSeq : Nat) (info : WriteInfo) (base : Nat) (at_ : Dumping) (content : Bytes) (blocks : List Block) (values : List Bytes)
    (offsets : List Nat) : Prop where
  holds : Content crc info.blockSize fileSeq content at_.seq blocks values offsets
  size : at_.buffer.length = info.maxBuf
  place : info.directOffset + at_.pos = content.length
  start : base ≤ at_.pos
  lower : at_.pos ≤ at_.next
  near : at_.next ≤ at_.pos + info.blockSize
  aligned : at_.next % info.blockSize = 0
  upper : at_.next ≤ info.maxBuf
  window : (at_.buffer.take at_.pos).drop base = content.drop (info.directOffset + base)
  gap : at_.next - at_.pos ≤ info.minTail → (at_.buffer.take at_.next).drop at_.pos = List.replicate (at_.next - at_.pos) 0

theorem drop_append_window (buf more : Bytes) (pos start : Nat) (inside : pos ≤ buf.length) (before : start ≤ pos) :
    (buf.take pos ++ more).drop start = (buf.take pos).drop start ++ more := by
  rw [List.drop_append_of_le_length (by rw [List.length_take]; omega)]

-- The next multiple of a block.
theorem round_up (blockSize place next : Nat) (aligned : next % blockSize = 0) (lower : place ≤ next) (upper : next < place + blockSize) :
    if place % blockSize = 0 then next = place else next = place + (blockSize - place % blockSize) := by
  obtain ⟨count, total⟩ := Nat.dvd_of_mod_eq_zero aligned
  have parts := Nat.div_add_mod place blockSize
  have inner := Nat.mod_lt place (show 0 < blockSize by omega)
  generalize place / blockSize = quotient at parts
  have least : quotient ≤ count := by
    by_contra wrong
    have step : blockSize * (count + 1) ≤ blockSize * quotient := Nat.mul_le_mul_left _ (by omega)
    rw [Nat.mul_add] at step
    omega
  have most : count ≤ quotient + 1 := by
    by_contra wrong
    have step : blockSize * (quotient + 2) ≤ blockSize * count := Nat.mul_le_mul_left _ (by omega)
    rw [Nat.mul_add] at step
    omega
  split
  · rename_i zero
    rcases Nat.eq_or_lt_of_le least with same | above
    · rw [← same] at total
      omega
    · have one : count = quotient + 1 := by omega
      rw [one, Nat.mul_add] at total
      omega
  · rename_i some_rest
    rcases Nat.eq_or_lt_of_le least with same | above
    · rw [← same] at total
      omega
    · have one : count = quotient + 1 := by omega
      rw [one, Nat.mul_add] at total
      omega

section Dumping

variable {crc : Crc32c} {fileSeq : Nat} {info : WriteInfo} {base : Nat} {at_ : Dumping} {content : Bytes} {blocks : List Block} {values : List Bytes}
  {offsets : List Nat} (aligned : info.directOffset % info.blockSize = 0) (dumps : Dumps crc fileSeq info base at_ content blocks values offsets)
include aligned dumps

-- The room left in the block.
theorem dumps_room : if content.length % info.blockSize = 0 then at_.next = at_.pos ∨ at_.next = at_.pos + info.blockSize
    else at_.next - at_.pos = info.blockSize - content.length % info.blockSize := by
  have lower := dumps.lower
  have near := dumps.near
  have place := dumps.place
  have whole : (info.directOffset + at_.next) % info.blockSize = 0 := by
    rw [Nat.add_mod, aligned, dumps.aligned, Nat.zero_add, Nat.zero_mod]
  by_cases far : at_.next = at_.pos + info.blockSize
  · have zero : content.length % info.blockSize = 0 := by
      rw [far, ← Nat.add_assoc, place, Nat.add_mod_right] at whole
      exact whole
    rw [if_pos zero]
    exact .inr far
  · have ends := round_up info.blockSize content.length (info.directOffset + at_.next) whole (by omega) (by omega)
    split at ends
    · rename_i zero
      rw [if_pos zero]
      left
      omega
    · rename_i some_rest
      rw [if_neg some_rest]
      omega

variable (tuned : Tuned info.blockSize info.maxBuf info.minTail fileSeq)
include tuned

-- One value, within the blocks up to `limit`.
theorem dumps_value (strict : Bool) (value : Bytes) (some_value : value ≠ []) (tail : info.minTail < at_.next - at_.pos) (limit : Nat)
    (blocks_to : limit % info.blockSize = 0) (least : at_.next ≤ limit) (most : limit ≤ info.maxBuf)
    (file_limit : info.directOffset + limit ≤ maxLogFileSize) (size : Nat)
    (sized : calculateDumpSize info.blockSize (content.length % info.blockSize) value.length = some size) (fits : at_.pos + size ≤ limit) :
    ∃ done bytes more, dumpOne crc info.blockSize info.minTail info.maxBuf strict at_ value = some (done, true) ∧ bytes.length = size ∧
      done.newPos = at_.pos + size ∧ done.next ≤ limit ∧ done.pos < done.newPos ∧
      Dumps crc fileSeq info base { done with pos := done.newPos } (content ++ bytes) more (values ++ [value]) (offsets ++ [content.length]) ∧
      done.next < done.newPos + info.blockSize := by
  have positive := tuned_positive tuned
  have large := tuned_large tuned
  have header := tuned.header
  have lower := dumps.lower
  have near := dumps.near
  have upper := dumps.upper
  have place := dumps.place
  have inner := Nat.mod_lt content.length positive
  have room : at_.next - at_.pos = info.blockSize - content.length % info.blockSize := by
    have left := dumps_room aligned dumps
    split at left
    · omega
    · exact left
  obtain ⟨total, count_eq⟩ : ∃ count, limit = at_.next + count * info.blockSize := by
    have multiple : (limit - at_.next) % info.blockSize = 0 := Nat.sub_mod_eq_zero_of_mod_eq (blocks_to.trans dumps.aligned.symm)
    obtain ⟨count, total⟩ := Nat.dvd_of_mod_eq_zero multiple
    refine ⟨count, ?_⟩
    rw [Nat.mul_comm] at total
    omega
  have few : total * 1 ≤ total * info.blockSize := Nat.mul_le_mul_left _ positive
  have bounded := tuned.bounded
  have numbered := tuned.numbered
  have number := content_seq dumps.holds tuned
  simp only [maxLogFileSize] at file_limit
  have sized_here := sized
  rw [show content.length % info.blockSize = info.blockSize - (at_.next - at_.pos) by omega] at sized_here
  have behind : at_.next - at_.pos < info.blockSize → blockMetaSize + headerSize ≤ info.blockSize - (at_.next - at_.pos) := by
    intro inside
    rcases content_start dumps.holds with zero | behind
    · omega
    · omega
  obtain ⟨parts, fresh, done, cut, ran, seq, fewer, emits, bound⟩ := @dump_one crc info.blockSize info.minTail info.maxBuf ⟨header, tuned.short⟩ large tuned.limit strict total at_ value
    some_value (by omega) near dumps.aligned tail behind (by rw [dumps.size]; exact upper) (by omega) size sized_here (by omega) (by omega)
  have length : (cutBytes crc parts fresh).length = size := by
    have same := cut_size info.blockSize crc large at_.seq _ value parts fresh cut (by omega) (fun inside => by have start := behind inside; omega)
    rw [sized_here] at same
    exact (Option.some.inj same).symm
  have ends := emits.newPos
  rw [length] at ends
  have last := emits.lower
  have later := emits.upper
  have short := fake_tail_length crc info.blockSize info.minTail ⟨header, tuned.short⟩ (done.next - done.newPos)
  have inside : at_.pos ≤ at_.buffer.length := by
    rw [dumps.size]
    omega
  have taken : done.buffer.take done.newPos = at_.buffer.take at_.pos ++ cutBytes crc parts fresh := by
    have before := poke_take at_.buffer at_.pos (cutBytes crc parts fresh) inside
    have long : (poke at_.buffer at_.pos (cutBytes crc parts fresh)).length = info.maxBuf := by
      rw [poke_length _ _ _ (by rw [length, dumps.size]; omega), dumps.size]
    rw [emits.buffer, ← poke_poke at_.buffer at_.pos _ _ inside, emits.newPos,
      poke_take_before _ (at_.pos + (cutBytes crc parts fresh).length) _ _ (Nat.le_refl _) (by rw [long, length]; omega)]
    exact before
  rw [room] at cut
  have start := dumps.start
  refine ⟨done, cutBytes crc parts fresh, extendBlocks blocks parts fresh, ran, length, ends, by omega, emits.begins, ⟨?_, ?_, ?_, ?_, last, by dsimp only; omega, emits.aligned, by dsimp only; omega, ?_, ?_⟩,
    later⟩
  · rw [seq]
    exact content_cut dumps.holds tuned value parts fresh cut (by omega)
  · rw [emits.buffer, poke_length _ _ _ (by rw [List.length_append, length, dumps.size]; omega), dumps.size]
  · dsimp only
    rw [List.length_append, length, ends, ← place]
    exact (Nat.add_assoc _ _ _).symm
  · dsimp only
    omega
  · dsimp only
    rw [taken, drop_append_window _ _ _ _ inside start, dumps.window, List.drop_append_of_le_length (by omega)]
  · dsimp only
    intro tight
    have whole : done.next = at_.pos + (cutBytes crc parts fresh ++ fakeTail crc info.minTail (done.next - done.newPos)).length := by
      rw [fake_tail_short crc info.minTail _ tight, List.length_append, List.length_replicate, length]
      omega
    have all := poke_take at_.buffer at_.pos (cutBytes crc parts fresh ++ fakeTail crc info.minTail (done.next - done.newPos)) inside
    rw [← whole, ← emits.buffer] at all
    rw [all, ← List.append_assoc, List.drop_left', fake_tail_short crc info.minTail _ tight]
    rw [List.length_append, List.length_take, length, Nat.min_eq_left inside]
    exact ends.symm

end Dumping

-- A writer between two calls: from `base` on its buffer holds what it has written.
structure Holding (crc : Crc32c) (fileSeq : Nat) (info : WriteInfo) (base : Nat) (content : Bytes) (blocks : List Block) (values : List Bytes)
    (offsets : List Nat) : Prop where
  tuned : Tuned info.blockSize info.maxBuf info.minTail fileSeq
  size : info.buffer.length = info.maxBuf
  place : content.length = info.offset
  aligned : info.directOffset % info.blockSize = 0
  low : info.directOffset ≤ info.offset
  high : info.offset ≤ info.directOffset + info.maxBuf
  enters : Enters info.blockSize info.minTail (info.offset % info.blockSize)
  window : (info.buffer.take (info.offset - info.directOffset)).drop base = content.drop (info.directOffset + base)
  holds : (content = [] ∧ info.startSeq = fileSeq ∧ info.seq = fileSeq ∧ blocks = [] ∧ values = [] ∧ offsets = []) ∨
    Content crc info.blockSize fileSeq content info.seq blocks values offsets

-- The head of the writer's block, in the file.
theorem begin_block (info : WriteInfo) (aligned : info.directOffset % info.blockSize = 0)
    (low : info.directOffset ≤ info.offset) :
    info.directOffset + info.beginBlock + info.offset % info.blockSize = info.offset ∧ info.beginBlock % info.blockSize = 0 ∧
      (info.offset - info.directOffset) % info.blockSize = info.offset % info.blockSize := by
  obtain ⟨count, total⟩ := Nat.dvd_of_mod_eq_zero aligned
  have same : (info.offset - info.directOffset) % info.blockSize = info.offset % info.blockSize := by
    have back : info.offset = info.offset - info.directOffset + info.blockSize * count := by omega
    rw [← Nat.add_mul_mod_self_left (info.offset - info.directOffset) info.blockSize count, ← back]
  have parts := Nat.div_add_mod (info.offset - info.directOffset) info.blockSize
  rw [Nat.mul_comm, same] at parts
  rw [WriteInfo.beginBlock]
  exact ⟨by omega, Nat.mul_mod_left _ _, same⟩

-- Where a dump begins.
theorem holding_begins {crc : Crc32c} {fileSeq : Nat} {info : WriteInfo} {base : Nat} {content : Bytes} {blocks : List Block} {values : List Bytes}
    {offsets : List Nat} (kept : Holding crc fileSeq info base content blocks values offsets) (under : base ≤ info.beginBlock)
    (room : info.beginBlock + info.blockSize + info.metaSize ≤ info.maxBuf) :
    ∃ begun start, info.beginDump = some begun ∧ Dumps crc fileSeq info base begun start blocks values offsets ∧ start.length = info.reported ∧
      start.take (info.directOffset + info.beginBlock) = content.take (info.directOffset + info.beginBlock) ∧
      begun.pos = info.offset - info.directOffset + info.metaSize ∧
      begun.next = info.beginBlock + info.metaSize + info.blockSize ∧ info.minTail < begun.next - begun.pos := by
  have tuned := kept.tuned
  have low := kept.low
  have high := kept.high
  obtain ⟨head, whole, same⟩ := begin_block info kept.aligned low
  have enters := kept.enters.1
  have next : info.offset - info.directOffset - (info.offset - info.directOffset) % info.blockSize + info.blockSize =
      info.beginBlock + info.blockSize := by
    rw [same]
    omega
  rw [WriteInfo.beginDump, asserting_pos _ _ ⟨low, high⟩]
  dsimp only
  rw [next, asserting_pos _ _ (by omega)]
  by_cases fresh : info.offset = 0
  · have start_zero : info.directOffset = 0 := by omega
    have meta_size : info.metaSize = info.blockSize := if_pos fresh
    have begin_zero : info.beginBlock = 0 := by
      rw [WriteInfo.beginBlock, fresh, Nat.zero_sub, Nat.zero_div, Nat.zero_mul]
    obtain rfl : base = 0 := Nat.le_zero.mp (begin_zero ▸ under)
    have paged := tuned.paged
    have roomy := tuned.roomy
    have long : fileMetaSize < info.blockSize := Nat.lt_of_lt_of_le (by decide) paged
    have head_length := meta_head_length info.startSeq info.blockSize
    rw [if_pos fresh, meta_written info.startSeq info.blockSize long, Option.map_some, begin_zero, Nat.zero_add, blockAfter, if_neg (by omega)]
    rw [meta_size, fresh, start_zero, Nat.sub_zero, Nat.zero_add, Nat.zero_add]
    have content_empty : content = [] := List.length_eq_zero_iff.mp (kept.place.trans fresh)
    obtain ⟨_, started, seq, none_blocks, none_values, none_offsets⟩ : content = [] ∧ info.startSeq = fileSeq ∧ info.seq = fileSeq ∧ blocks = [] ∧
        values = [] ∧ offsets = [] := by
      rcases kept.holds with blank | holds
      · exact blank
      · have least := content_head holds
        rw [content_empty, List.length_nil] at least
        omega
    subst none_blocks none_values none_offsets
    have taken : (poke info.buffer 0 (fileMetaHead info.startSeq info.blockSize)).take info.blockSize =
        fileMetaHead fileSeq info.blockSize ++ (info.buffer.drop fileMetaSize).take (info.blockSize - fileMetaSize) := by
      rw [← started, poke, List.take_zero, List.nil_append, Nat.zero_add, head_length, List.take_append, head_length,
        List.take_of_length_le (by rw [head_length]; exact Nat.le_of_lt long)]
    have size : (poke info.buffer 0 (fileMetaHead info.startSeq info.blockSize)).length = info.maxBuf := by
      rw [poke_length _ _ _ (by rw [Nat.zero_add, head_length, kept.size]; omega), kept.size]
    have length : ((poke info.buffer 0 (fileMetaHead info.startSeq info.blockSize)).take info.blockSize).length = info.blockSize := by
      rw [List.length_take, size]
      omega
    refine ⟨_, (poke info.buffer 0 (fileMetaHead info.startSeq info.blockSize)).take info.blockSize, rfl, ⟨?_, size, ?_, ?_, ?_, ?_, ?_, ?_, ?_, ?_⟩,
      ?_, ?_, rfl, rfl, ?_⟩
    · refine ⟨⟨_, [], (List.append_nil _).symm, length, ⟨_, taken⟩, Laid.closed [] [] List.Forall₂.nil⟩,
        ⟨Nat.le_of_eq seq.symm, Nat.le_of_eq seq⟩, ?_, Spells.done, rfl, ?_⟩
      · exact fun block member => absurd member List.not_mem_nil
      · exact fun i offset there => absurd there (by rw [List.getElem?_nil]; exact (Option.some_ne_none offset).symm)
    · rw [start_zero, length]
      exact Nat.zero_add _
    · exact Nat.zero_le _
    · exact Nat.le_add_right _ _
    · exact Nat.le_refl _
    · dsimp only
      rw [Nat.add_mod_left, Nat.mod_self]
    · dsimp only
      omega
    · dsimp only
      rw [start_zero]
    · dsimp only
      have short := tuned.short
      intro tight
      omega
    · rw [length, WriteInfo.reported, if_pos fresh]
    · rw [List.take_zero, List.take_zero]
    · dsimp only
      have short := tuned.short
      omega
  · have meta_size : info.metaSize = 0 := if_neg fresh
    have holds : Content crc info.blockSize fileSeq content info.seq blocks values offsets := by
      rcases kept.holds with ⟨empty, _⟩ | holds
      · have place := kept.place
        rw [empty, List.length_nil] at place
        exact absurd place.symm fresh
      · exact holds
    rw [if_neg fresh, meta_size]
    have place := kept.place
    refine ⟨_, content, rfl, ⟨holds, kept.size, ?_, ?_, ?_, ?_, ?_, ?_, kept.window, ?_⟩, ?_, rfl, rfl, rfl, ?_⟩
    · dsimp only
      omega
    · dsimp only
      omega
    · dsimp only
      omega
    · dsimp only
      omega
    · dsimp only
      rw [Nat.add_mod_right, whole]
    · dsimp only
      omega
    · dsimp only
      omega
    · rw [kept.place, WriteInfo.reported, if_neg fresh]
    · dsimp only
      omega

theorem holding_later {crc : Crc32c} {fileSeq : Nat} {info : WriteInfo} {base : Nat} {content : Bytes} {blocks : List Block} {values : List Bytes}
    {offsets : List Nat} (holding : Holding crc fileSeq info base content blocks values offsets) (later : Nat) (least : base ≤ later) :
    Holding crc fileSeq info later content blocks values offsets := by
  have further := congrArg (List.drop (later - base)) holding.window
  rw [List.drop_drop, List.drop_drop, Nat.add_sub_cancel' least, Nat.add_assoc, Nat.add_sub_cancel' least] at further
  exact ⟨holding.tuned, holding.size, holding.place, holding.aligned, holding.low, holding.high, holding.enters, further, holding.holds⟩

-- ZeroTailingSpace
theorem dumps_zeroed {crc : Crc32c} {fileSeq : Nat} {info : WriteInfo} {base : Nat} {at_ : Dumping} {content : Bytes} {blocks : List Block} {values : List Bytes}
    {offsets : List Nat} (dumps : Dumps crc fileSeq info base at_ content blocks values offsets) :
    Dumps crc fileSeq info base { at_ with buffer := poke at_.buffer at_.pos (List.replicate (at_.next - at_.pos) 0) } content blocks values offsets := by
  have lower := dumps.lower
  have upper := dumps.upper
  have size := dumps.size
  have inside : at_.pos ≤ at_.buffer.length := by omega
  refine ⟨dumps.holds, ?_, dumps.place, dumps.start, lower, dumps.near, dumps.aligned, upper, ?_, fun _ => ?_⟩
  · dsimp only
    rw [poke_length _ _ _ (by rw [List.length_replicate, size]; omega), size]
  · dsimp only
    rw [poke_take_before _ _ _ _ (Nat.le_refl _) inside]
    exact dumps.window
  · dsimp only
    have all := poke_take at_.buffer at_.pos (List.replicate (at_.next - at_.pos) 0) inside
    rw [List.length_replicate, Nat.add_sub_cancel' lower] at all
    rw [all, List.drop_left']
    rw [List.length_take, Nat.min_eq_left inside]

-- The writer after a dump, with its place moved on.
def WriteInfo.movedTo (info : WriteInfo) (done : Dumping) (offset : Nat) : WriteInfo :=
  { info with seq := done.seq, buffer := done.buffer, offset := offset }

theorem moved_begins (info : WriteInfo) (done : Dumping) (offset : Nat) (later : info.offset ≤ offset) :
    info.beginBlock ≤ (info.movedTo done offset).beginBlock := by
  rw [WriteInfo.beginBlock, WriteInfo.beginBlock]
  exact Nat.mul_le_mul_right _ (Nat.div_le_div_right (Nat.sub_le_sub_right later _))

-- IncreaseOffset goes over the rest of a block that is too small.
theorem holding_increases {crc : Crc32c} {fileSeq : Nat} {info : WriteInfo} {base : Nat} {at_ : Dumping} {content : Bytes} {blocks : List Block}
    {values : List Bytes} {offsets : List Nat} (tuned : Tuned info.blockSize info.maxBuf info.minTail fileSeq)
    (aligned : info.directOffset % info.blockSize = 0) (dumps : Dumps crc fileSeq info base at_ content blocks values offsets)
    (near : at_.next < at_.pos + info.blockSize) (size : Nat) (total : info.offset + size = content.length)
    (file_limit : info.directOffset + at_.next ≤ maxLogFileSize) :
    ∃ room rest, ({ info with seq := at_.seq, buffer := at_.buffer } : WriteInfo).increaseOffset size =
        some (info.movedTo at_ (content.length + room)) ∧ room + rest = at_.next - at_.pos ∧
      Holding crc fileSeq (info.movedTo at_ (content.length + room)) base (content ++ List.replicate room 0) blocks values offsets := by
  have lower := dumps.lower
  have upper := dumps.upper
  have place := dumps.place
  have start := dumps.start
  have window := dumps.window
  have positive := tuned_positive tuned
  have short := tuned.short
  have whole : (info.directOffset + at_.next) % info.blockSize = 0 := by
    rw [Nat.add_mod, aligned, dumps.aligned, Nat.zero_add, Nat.zero_mod]
  have ends := round_up info.blockSize content.length (info.directOffset + at_.next) whole (by omega) (by omega)
  have inner := Nat.mod_lt content.length positive
  rw [WriteInfo.increaseOffset]
  dsimp only
  rw [total]
  by_cases skips : info.blockSize - content.length % info.blockSize ≤ info.minTail
  · have some_rest : content.length % info.blockSize ≠ 0 := by omega
    rw [if_neg some_rest] at ends
    have room : at_.next - at_.pos = info.blockSize - content.length % info.blockSize := by omega
    rw [if_pos skips, asserting_pos _ _ ⟨by omega, by omega, by omega⟩, ← room]
    have far : content.length + (at_.next - at_.pos) = info.directOffset + at_.next := by omega
    have padded := content_padded dumps.holds (at_.next - at_.pos) (by rw [far]; exact whole) (by omega)
    have taken : at_.buffer.take at_.next = at_.buffer.take at_.pos ++ List.replicate (at_.next - at_.pos) 0 := by
      have parts := List.take_append_drop at_.pos (at_.buffer.take at_.next)
      rw [List.take_take, Nat.min_eq_left lower, dumps.gap (by omega)] at parts
      exact parts.symm
    refine ⟨at_.next - at_.pos, 0, rfl, Nat.add_zero _, ⟨tuned, dumps.size, ?_, aligned, ?_, ?_, ?_, ?_, .inr padded⟩⟩
    · rw [List.length_append, List.length_replicate]
      rfl
    · dsimp only [WriteInfo.movedTo]
      omega
    · dsimp only [WriteInfo.movedTo]
      omega
    · dsimp only [WriteInfo.movedTo]
      rw [far, whole]
      exact enters_head tuned
    · dsimp only [WriteInfo.movedTo]
      rw [far, Nat.add_sub_cancel_left, taken, drop_append_window _ _ _ _ (by rw [dumps.size]; omega) start, window,
        List.drop_append_of_le_length (by omega)]
  · rw [if_neg skips, asserting_pos _ _ ⟨by omega, by omega, by omega⟩]
    refine ⟨0, at_.next - at_.pos, rfl, Nat.zero_add _, ?_⟩
    rw [List.replicate_zero, List.append_nil, Nat.add_zero]
    refine ⟨tuned, dumps.size, rfl, aligned, ?_, ?_, ⟨?_, content_start dumps.holds⟩, ?_, .inr dumps.holds⟩
    · dsimp only [WriteInfo.movedTo]
      omega
    · dsimp only [WriteInfo.movedTo]
      omega
    · dsimp only [WriteInfo.movedTo]
      omega
    · dsimp only [WriteInfo.movedTo]
      rw [← place, Nat.add_sub_cancel_left]
      exact window

end PaxosStore.DbComm
