import PaxosStore.DbComm.LogLayout

set_option autoImplicit false

namespace PaxosStore.DbComm

open PaxosStore.Codec
open PaxosStore.PaxosKv

theorem poke_nil (buf : Bytes) (pos : Nat) : poke buf pos [] = buf := by
  rw [poke, List.append_nil, List.length_nil, Nat.add_zero, List.take_append_drop]

theorem poke_take_before (buf : Bytes) (pos count : Nat) (bytes : Bytes) (before : count ≤ pos) (inside : pos ≤ buf.length) :
    (poke buf pos bytes).take count = buf.take count := by
  rw [poke, List.append_assoc, List.take_append_of_le_length (by rw [List.length_take]; omega), List.take_take, Nat.min_eq_left before]

theorem poke_take (buf : Bytes) (pos : Nat) (bytes : Bytes) (inside : pos ≤ buf.length) :
    (poke buf pos bytes).take (pos + bytes.length) = buf.take pos ++ bytes := by
  have size : (buf.take pos ++ bytes).length = pos + bytes.length := by
    rw [List.length_append, List.length_take, Nat.min_eq_left inside]
  rw [poke, ← size, List.take_left]

theorem poke_length (buf : Bytes) (pos : Nat) (bytes : Bytes) (inside : pos + bytes.length ≤ buf.length) :
    (poke buf pos bytes).length = buf.length := by
  rw [poke, List.length_append, List.length_append, List.length_take, List.length_drop]
  omega

theorem poke_poke (buf : Bytes) (pos : Nat) (bytes more : Bytes) (inside : pos ≤ buf.length) :
    poke (poke buf pos bytes) (pos + bytes.length) more = poke buf pos (bytes ++ more) := by
  have size : (buf.take pos ++ bytes).length = pos + bytes.length := by
    rw [List.length_append, List.length_take, Nat.min_eq_left inside]
  have behind : (poke buf pos bytes).drop (pos + bytes.length + more.length) = buf.drop (pos + (bytes ++ more).length) := by
    rw [← List.drop_drop, poke, ← size, List.drop_left, size, List.drop_drop, List.length_append, Nat.add_assoc]
  calc poke (poke buf pos bytes) (pos + bytes.length) more
      = (poke buf pos bytes).take (pos + bytes.length) ++ more ++ (poke buf pos bytes).drop (pos + bytes.length + more.length) := rfl
    _ = buf.take pos ++ bytes ++ more ++ buf.drop (pos + (bytes ++ more).length) := by rw [poke_take buf pos bytes inside, behind]
    _ = poke buf pos (bytes ++ more) := by simp only [poke, List.append_assoc]

section Sizes

variable (blockSize : Nat)

theorem whole_blocks_from (dumped remain : Nat) : wholeBlocks blockSize dumped remain = dumped + wholeBlocks blockSize 0 remain := by
  simp only [wholeBlocks]
  omega

theorem whole_blocks_eq (remain : Nat) :
    wholeBlocks blockSize 0 remain = blockSize * (remain / freshRoom blockSize) +
      if 0 < remain % freshRoom blockSize then blockMetaSize + headerSize + remain % freshRoom blockSize else 0 := by
  rw [wholeBlocks, Nat.zero_add]
  rfl

theorem fresh_room_positive (large : blockMetaSize + headerSize < blockSize) : 0 < freshRoom blockSize := by
  rw [freshRoom]
  omega

-- What fits one fresh block.
theorem whole_blocks_last (large : blockMetaSize + headerSize < blockSize) (remain : Nat) (some_left : 0 < remain)
    (fits : remain ≤ freshRoom blockSize) : wholeBlocks blockSize 0 remain = blockMetaSize + headerSize + remain := by
  rw [whole_blocks_eq]
  by_cases full : remain = freshRoom blockSize
  · rw [← full, Nat.div_self some_left, Nat.mod_self, if_neg (Nat.lt_irrefl 0), full, freshRoom]
    omega
  · have under : remain < freshRoom blockSize := by omega
    rw [Nat.div_eq_of_lt under, Nat.mod_eq_of_lt under, if_pos some_left]
    omega

theorem whole_blocks_more (large : blockMetaSize + headerSize < blockSize) (remain : Nat) :
    wholeBlocks blockSize 0 (freshRoom blockSize + remain) = blockSize + wholeBlocks blockSize 0 remain := by
  rw [whole_blocks_eq, whole_blocks_eq, Nat.add_div_left _ (fresh_room_positive blockSize large), Nat.add_mod_left, Nat.mul_succ]
  omega

theorem whole_blocks_positive (large : blockMetaSize + headerSize < blockSize) (remain : Nat) (some_left : 0 < remain) :
    0 < wholeBlocks blockSize 0 remain := by
  rw [whole_blocks_eq]
  by_cases rest : 0 < remain % freshRoom blockSize
  · rw [if_pos rest]
    omega
  · have count : 0 < remain / freshRoom blockSize :=
      Nat.div_pos (Nat.le_of_dvd some_left (Nat.dvd_of_mod_eq_zero (by omega))) (fresh_room_positive blockSize large)
    have product := Nat.mul_pos (show 0 < blockSize by omega) count
    omega

theorem fresh_size (crc : Crc32c) (large : blockMetaSize + headerSize < blockSize) (begun : Bool) (seq : Nat) (left : Bytes) (blocks : List Block)
    (fresh : Fresh blockSize begun seq left blocks) : (blocksBytes crc blocks).length = wholeBlocks blockSize 0 left.length := by
  induction fresh with
  | last begun seq left some_left fits =>
    rw [blocks_bytes_cons, List.length_append, block_bytes_length, parts_size_one,
      whole_blocks_last blockSize large left.length (List.length_pos_iff.mpr some_left) fits, show blocksBytes crc [] = [] from rfl,
      List.length_nil, Nat.add_zero, Nat.add_assoc]
  | more begun seq bytes rest blocks fills goes ih =>
    rw [blocks_bytes_cons, List.length_append, block_bytes_length, parts_size_one, List.length_append, fills,
      whole_blocks_more blockSize large, ih]
    simp only [freshRoom, blockMetaSize, headerSize] at large ⊢
    omega

-- The bytes of a cut, and what CalculateDumpSize says of them.
def cutBytes (crc : Crc32c) (parts : List Part) (fresh : List Block) : Bytes := partsBytes crc parts ++ blocksBytes crc fresh

theorem cut_size (crc : Crc32c) (large : blockMetaSize + headerSize < blockSize) (seq room : Nat) (value : Bytes) (parts : List Part)
    (fresh : List Block) (cut : Cut blockSize seq room value parts fresh) (roomy : headerSize < room)
    (behind : room < blockSize → blockMetaSize ≤ blockSize - room) :
    calculateDumpSize blockSize (blockSize - room) value.length = some (cutBytes crc parts fresh).length := by
  have some_value := List.length_pos_iff.mpr (cut_some blockSize seq room value parts fresh cut)
  have one : ∀ part : Part, (partsBytes crc [part]).length = headerSize + part.bytes.length := fun part => by
    rw [parts_bytes_length, parts_size_one]
  rw [calculateDumpSize]
  cases cut with
  | head _ _ blocks =>
    rw [asserting, if_pos (by omega), if_neg (Nat.ne_of_gt some_value)]
    dsimp only
    rw [asserting, if_pos ⟨by omega, large⟩, if_neg (by omega), cutBytes, show partsBytes crc [] = [] from rfl, List.nil_append,
      fresh_size blockSize crc large false seq value fresh blocks]
  | inside _ _ inner _ fits =>
    rw [asserting, if_pos (by omega), if_neg (Nat.ne_of_gt some_value)]
    dsimp only
    rw [show blockSize - (blockSize - room) = room by omega, asserting, if_pos ⟨roomy, large⟩, if_pos inner, asserting, if_pos (behind inner),
      if_pos (by omega), cutBytes, show blocksBytes crc [] = [] from rfl, List.append_nil, one, Nat.add_comm]
  | across _ bytes rest _ inner some_bytes fills blocks =>
    have more := List.length_pos_iff.mpr (fresh_some blockSize true seq rest fresh blocks).1
    rw [asserting, if_pos (by omega), if_neg (Nat.ne_of_gt some_value)]
    dsimp only
    rw [show blockSize - (blockSize - room) = room by omega, asserting, if_pos ⟨roomy, large⟩, if_pos inner, asserting, if_pos (behind inner),
      if_neg (by rw [List.length_append]; omega), whole_blocks_from, cutBytes, @List.length_append _ (partsBytes crc _), one,
      fresh_size blockSize crc large true seq rest fresh blocks, List.length_append]
    dsimp only
    rw [fills, show bytes.length + rest.length - (room - headerSize) = rest.length by omega]

end Sizes

section Dumps

variable (crc : Crc32c) (blockSize minTail bufEnd : Nat) (strict : Bool)

-- The padding that is put into the rest of a block.
def fakeTail (room : Nat) : Bytes :=
  if room = 0 then [] else if room ≤ minTail then List.replicate room 0 else recordBytesOf crc .fake []

theorem append_fake (tails : headerSize ≤ minTail ∧ minTail < blockSize) (room : Nat) (inner : room < blockSize) :
    appendFakeLevelDBRecord crc blockSize minTail room = some (fakeTail crc minTail room) := by
  rw [appendFakeLevelDBRecord, asserting, if_pos ⟨tails.1, tails.2, inner⟩, fakeTail]
  split
  · rfl
  · split
    · rfl
    · exact (dump_record_some crc .fake [] _ room).mpr ⟨⟨Nat.zero_le _, by simp only [List.length_nil]; omega⟩, rfl⟩

theorem fake_tail_length (tails : headerSize ≤ minTail ∧ minTail < blockSize) (room : Nat) : (fakeTail crc minTail room).length ≤ room := by
  rw [fakeTail]
  split
  · exact Nat.zero_le _
  · split
    · exact Nat.le_of_eq (List.length_replicate ..)
    · rw [record_bytes_size, List.length_nil]
      omega

theorem fake_tail_short (room : Nat) (short : room ≤ minTail) : fakeTail crc minTail room = List.replicate room 0 := by
  rw [fakeTail, if_pos short]
  split
  · rename_i zero
    rw [zero]
    rfl
  · rfl

theorem fake_tail_padding (room : Nat) (rest : Bytes) (size : (fakeTail crc minTail room ++ rest).length = room) :
    Padding crc (fakeTail crc minTail room ++ rest) := by
  rw [fakeTail] at size ⊢
  split at size
  · rename_i zero
    rw [if_pos zero]
    exact .inl (List.length_eq_zero_iff.mp (by rw [size, zero]))
  · rename_i more
    rw [if_neg more]
    split at size
    · rename_i short
      rw [List.length_append, List.length_replicate] at size
      have none_left : rest = [] := List.length_eq_zero_iff.mp (by omega)
      rw [if_pos short, none_left, List.append_nil]
      exact padding_zeros crc room
    · rename_i long
      rw [if_neg long]
      exact padding_fake crc rest

variable {blockSize minTail bufEnd} (tails : headerSize ≤ minTail ∧ minTail < blockSize)
  (large : blockMetaSize + headerSize < blockSize) (limit : blockSize ≤ 2 ^ 16)
include tails limit

theorem dump_block_head (seq : Nat) (kind : PartKind) (bytes : Bytes) (some_bytes : bytes ≠ []) (fits : bytes.length ≤ freshRoom blockSize)
    (numbered : seq + 1 < 2 ^ 64) :
    dumpLevelDBLogBlock crc seq blockSize minTail blockSize kind.type bytes =
      some (seq + 1, blockBytes crc ⟨seq + 1, [⟨kind, bytes⟩]⟩,
        fakeTail crc minTail (blockSize - (blockBytes crc ⟨seq + 1, [⟨kind, bytes⟩]⟩).length)) := by
  have positive := List.length_pos_iff.mpr some_bytes
  have next : nextSeq seq = seq + 1 := Nat.mod_eq_of_lt numbered
  have meta_length := block_meta_length (seq + 1)
  simp only [freshRoom, blockMetaSize, headerSize] at fits
  have head : dumpLevelDBRecord crc .blockMeta (blockMetaBytes (seq + 1)) blockSize = some (headBytes crc (seq + 1)) :=
    (dump_record_some crc _ _ _ _).mpr ⟨⟨by rw [meta_length]; decide, by rw [meta_length]; simp only [headerSize]; omega⟩, rfl⟩
  have record : dumpLevelDBRecord crc kind.type bytes (blockSize - blockMetaSize) = some (partBytes crc ⟨kind, bytes⟩) :=
    (dump_record_some crc _ _ _ _).mpr ⟨⟨by omega, by simp only [headerSize, blockMetaSize]; omega⟩, rfl⟩
  have size : (partBytes crc ⟨kind, bytes⟩).length = headerSize + bytes.length := part_bytes_length crc _
  have whole : blockBytes crc ⟨seq + 1, [⟨kind, bytes⟩]⟩ = headBytes crc (seq + 1) ++ partBytes crc ⟨kind, bytes⟩ := by
    simp [blockBytes, partsBytes]
  have room : blockSize - blockMetaSize - (partBytes crc ⟨kind, bytes⟩).length = blockSize - (blockBytes crc ⟨seq + 1, [⟨kind, bytes⟩]⟩).length := by
    rw [block_bytes_length, parts_size_one, size]
    dsimp only
    omega
  rw [dumpLevelDBLogBlock, asserting, if_pos ⟨positive, by omega⟩, if_pos rfl, next, head, Option.bind_some, asserting,
    if_pos ⟨head_bytes_length crc _, by simp only [blockMetaSize]; omega⟩, record, Option.bind_some, room,
    append_fake crc blockSize minTail tails _ (by rw [block_bytes_length, blockMetaSize]; omega), ← whole]
  rfl

theorem dump_block_inside (seq room : Nat) (kind : PartKind) (bytes : Bytes) (some_bytes : bytes ≠ []) (inner : room < blockSize)
    (fits : headerSize + bytes.length ≤ room) :
    dumpLevelDBLogBlock crc seq blockSize minTail room kind.type bytes =
      some (seq, partBytes crc ⟨kind, bytes⟩, fakeTail crc minTail (room - (partBytes crc ⟨kind, bytes⟩).length)) := by
  have positive := List.length_pos_iff.mpr some_bytes
  have record : dumpLevelDBRecord crc kind.type bytes room = some (partBytes crc ⟨kind, bytes⟩) :=
    (dump_record_some crc _ _ _ _).mpr ⟨⟨by simp only [headerSize] at fits; omega, fits⟩, rfl⟩
  simp only [headerSize] at fits
  rw [dumpLevelDBLogBlock, asserting, if_pos ⟨positive, by omega⟩, if_neg (Nat.ne_of_lt inner), asserting, if_pos (by omega), record,
    Option.bind_some, append_fake crc blockSize minTail tails _ (by omega)]
  rfl

omit tails limit in
theorem ends_type (begun : Bool) : (if begun then RecordType.last else RecordType.full) = (PartKind.ends begun).type := by
  cases begun <;> rfl

omit tails limit in
theorem begins_type (begun : Bool) : (if begun then RecordType.middle else RecordType.first) = (PartKind.begins begun).type := by
  cases begun <;> rfl

-- A record at the head of a block: the rest of the value fits, or its block is filled.
theorem dump_value_last (seq : Nat) (begun : Bool) (left : Bytes) (some_left : left ≠ []) (fits : left.length ≤ freshRoom blockSize)
    (numbered : seq + 1 < 2 ^ 64) :
    dumpValueImpl crc seq blockSize minTail blockSize begun left =
      some ⟨seq + 1, blockBytes crc ⟨seq + 1, [⟨PartKind.ends begun, left⟩]⟩,
        fakeTail crc minTail (blockSize - (blockBytes crc ⟨seq + 1, [⟨PartKind.ends begun, left⟩]⟩).length), []⟩ := by
  rw [dumpValueImpl, asserting, if_pos ⟨by omega, Nat.le_refl _⟩, calculateDumpValueLen, if_pos rfl, Option.bind_some, ← freshRoom, if_pos fits,
    ends_type, dump_block_head crc tails limit seq _ left some_left fits numbered]
  rfl

include large in
theorem dump_value_more (seq : Nat) (begun : Bool) (bytes rest : Bytes) (fills : bytes.length = freshRoom blockSize) (some_rest : rest ≠ [])
    (numbered : seq + 1 < 2 ^ 64) :
    dumpValueImpl crc seq blockSize minTail blockSize begun (bytes ++ rest) =
      some ⟨seq + 1, blockBytes crc ⟨seq + 1, [⟨PartKind.begins begun, bytes⟩]⟩, [], rest⟩ := by
  have positive := List.length_pos_iff.mpr some_rest
  have room := fresh_room_positive blockSize large
  have some_bytes : bytes ≠ [] := List.length_pos_iff.mp (by omega)
  have size : (blockBytes crc ⟨seq + 1, [⟨PartKind.begins begun, bytes⟩]⟩).length = blockSize := by
    rw [block_bytes_length, parts_size_one]
    dsimp only
    rw [fills, freshRoom]
    omega
  rw [dumpValueImpl, asserting, if_pos ⟨by omega, Nat.le_refl _⟩, calculateDumpValueLen, if_pos rfl, Option.bind_some, ← freshRoom,
    if_neg (by rw [List.length_append]; omega), asserting, if_pos (fun _ => rfl), begins_type, List.take_left' fills, List.drop_left' fills,
    dump_block_head crc tails limit seq _ bytes some_bytes (Nat.le_of_eq fills) numbered, Option.bind_some]
  dsimp only
  rw [asserting, if_pos size, size, Nat.sub_self, fakeTail, if_pos rfl]

-- A record in a block that is begun.
theorem dump_value_inside (seq room : Nat) (value : Bytes) (some_value : value ≠ []) (inner : room < blockSize)
    (behind : blockMetaSize + headerSize ≤ blockSize - room) (fits : headerSize + value.length ≤ room) :
    dumpValueImpl crc seq blockSize minTail room false value =
      some ⟨seq, partBytes crc ⟨.full, value⟩, fakeTail crc minTail (room - (partBytes crc ⟨.full, value⟩).length), []⟩ := by
  have positive := List.length_pos_iff.mpr some_value
  rw [dumpValueImpl, asserting, if_pos ⟨by omega, Nat.le_of_lt inner⟩, calculateDumpValueLen, if_neg (Nat.ne_of_gt inner), asserting,
    if_pos behind, Option.bind_some, if_pos (by omega), ends_type,
    dump_block_inside crc tails limit seq room (PartKind.ends false) value some_value inner fits]
  rfl

theorem dump_value_across (seq room : Nat) (bytes rest : Bytes) (some_bytes : bytes ≠ []) (some_rest : rest ≠ []) (inner : room < blockSize)
    (behind : blockMetaSize + headerSize ≤ blockSize - room) (fills : headerSize + bytes.length = room) :
    dumpValueImpl crc seq blockSize minTail room false (bytes ++ rest) = some ⟨seq, partBytes crc ⟨.first, bytes⟩, [], rest⟩ := by
  have positive := List.length_pos_iff.mpr some_bytes
  have more := List.length_pos_iff.mpr some_rest
  have size : (partBytes crc ⟨PartKind.first, bytes⟩).length = room := by
    rw [part_bytes_length, Part.size]
    exact fills
  rw [dumpValueImpl, asserting, if_pos ⟨by omega, Nat.le_of_lt inner⟩, calculateDumpValueLen, if_neg (Nat.ne_of_gt inner), asserting,
    if_pos behind, Option.bind_some, if_neg (by rw [List.length_append]; omega), asserting, if_pos (fun wrong => Bool.noConfusion wrong), begins_type,
    List.take_left' (by omega), List.drop_left' (by omega), show PartKind.begins false = .first from rfl,
    dump_block_inside crc tails limit seq room .first bytes some_bytes inner (Nat.le_of_eq fills), Option.bind_some]
  dsimp only
  rw [asserting, if_pos size, size, Nat.sub_self, fakeTail, if_pos rfl]

end Dumps

-- What a dump of `bytes` at `at_` leaves. The rest of the last block is padding.
structure Emits (crc : Crc32c) (blockSize minTail : Nat) (at_ done : Dumping) (bytes : Bytes) : Prop where
  buffer : done.buffer = poke at_.buffer at_.pos (bytes ++ fakeTail crc minTail (done.next - done.newPos))
  newPos : done.newPos = at_.pos + bytes.length
  aligned : done.next % blockSize = 0
  lower : done.newPos ≤ done.next
  upper : done.next < done.newPos + blockSize
  begins : done.pos < done.newPos

section Loop

variable (crc : Crc32c) {blockSize minTail bufEnd : Nat} (tails : headerSize ≤ minTail ∧ minTail < blockSize)
  (large : blockMetaSize + headerSize < blockSize) (limit : blockSize ≤ 2 ^ 16) (strict : Bool)
include tails large limit

-- What is left of a value, written from the head of a block on into `count` blocks.
theorem dump_rest (fuel count : Nat) (at_ : Dumping) (begun : Bool) (left : Bytes) (some_left : left ≠ []) (enough : left.length ≤ fuel)
    (aligned : at_.pos % blockSize = 0) (next : at_.next = at_.pos + blockSize) (inside : at_.pos ≤ at_.buffer.length)
    (room : at_.pos + count * blockSize ≤ bufEnd) (fits : wholeBlocks blockSize 0 left.length ≤ count * blockSize)
    (numbered : at_.seq + count < 2 ^ 64) :
    ∃ fresh done, Fresh blockSize begun at_.seq left fresh ∧
      dumpLoop crc blockSize minTail bufEnd strict fuel at_ begun left = some (done, true) ∧ done.seq = at_.seq + fresh.length ∧
      fresh.length ≤ count ∧ Emits crc blockSize minTail at_ done (blocksBytes crc fresh) ∧ done.next ≤ at_.pos + count * blockSize := by
  induction fuel generalizing at_ begun left count with
  | zero =>
    have positive := List.length_pos_iff.mpr some_left
    omega
  | succ fuel ih =>
    have positive := List.length_pos_iff.mpr some_left
    have some_blocks := whole_blocks_positive blockSize large left.length positive
    obtain ⟨count, rfl⟩ : ∃ less, count = less + 1 := by
      cases count with
      | zero => omega
      | succ count => exact ⟨count, rfl⟩
    rw [Nat.add_mul, Nat.one_mul] at room fits
    have next_room : at_.next - at_.pos = blockSize := by omega
    have next_aligned : at_.next % blockSize = 0 := by rw [next, Nat.add_mod_right, aligned]
    have entered : ∀ dumped, dumpValueImpl crc at_.seq blockSize minTail blockSize begun left = some dumped →
        dumpLoop crc blockSize minTail bufEnd strict (fuel + 1) at_ begun left =
          (let buffer := poke (poke at_.buffer at_.pos dumped.bytes) (at_.pos + dumped.bytes.length) dumped.tail
          let newPos := at_.pos + dumped.bytes.length
          if dumped.left = [] then some (⟨dumped.seq, buffer, at_.pos, at_.next, newPos⟩, true)
          else
            dumpLoop crc blockSize minTail bufEnd strict fuel
              ⟨dumped.seq, buffer, at_.next, blockAfter blockSize bufEnd at_.next, newPos⟩ true dumped.left) := by
      intro dumped ran
      rw [dumpLoop, if_neg (by omega), asserting, if_pos ⟨by omega, by omega, fun _ => by omega, next_aligned⟩, next_room, ran]
      rfl
    by_cases last : left.length ≤ freshRoom blockSize
    · have size := whole_blocks_last blockSize large left.length positive last
      have room_eq : blockMetaSize + headerSize + left.length ≤ blockSize := by
        rw [freshRoom] at last
        omega
      refine ⟨_, _, Fresh.last begun at_.seq left some_left last, entered _ (dump_value_last crc tails limit at_.seq begun left some_left last
        (by omega)), rfl, by simp, ⟨?_, ?_, next_aligned, ?_, ?_, ?_⟩, by dsimp only; rw [Nat.add_mul]; omega⟩
      · dsimp only
        rw [poke_poke _ _ _ _ inside, blocks_bytes_cons, show blocksBytes crc [] = [] from rfl, List.append_nil,
          show at_.next - (at_.pos + (blockBytes crc ⟨at_.seq + 1, [⟨PartKind.ends begun, left⟩]⟩).length) =
            blockSize - (blockBytes crc ⟨at_.seq + 1, [⟨PartKind.ends begun, left⟩]⟩).length by omega]
      · rw [blocks_bytes_cons, show blocksBytes crc [] = [] from rfl, List.append_nil]
      all_goals
        dsimp only
        rw [block_bytes_length, parts_size_one]
        dsimp only
        simp only [blockMetaSize, headerSize] at room_eq ⊢
        omega
    · have split := List.take_append_drop (freshRoom blockSize) left
      have fills : (left.take (freshRoom blockSize)).length = freshRoom blockSize := by
        rw [List.length_take]
        omega
      generalize left.take (freshRoom blockSize) = bytes at split fills
      generalize left.drop (freshRoom blockSize) = rest at split
      subst split
      rw [List.length_append, fills] at last enough fits
      have some_rest : rest ≠ [] := List.length_pos_iff.mp (by omega)
      have more := whole_blocks_positive blockSize large rest.length (List.length_pos_iff.mpr some_rest)
      rw [whole_blocks_more blockSize large] at fits
      have full : (blockBytes crc ⟨at_.seq + 1, [⟨PartKind.begins begun, bytes⟩]⟩).length = blockSize := by
        rw [block_bytes_length, parts_size_one]
        dsimp only
        rw [fills, freshRoom]
        omega
      have started := entered _ (dump_value_more crc tails large limit at_.seq begun bytes rest fills some_rest (by omega))
      obtain ⟨count, rfl⟩ : ∃ less, count = less + 1 := by
        cases count with
        | zero => omega
        | succ count => exact ⟨count, rfl⟩
      have another : at_.next + blockSize ≤ bufEnd := by
        rw [Nat.add_mul] at room
        omega
      dsimp only at started
      rw [if_neg some_rest, poke_nil, blockAfter, if_neg (by omega)] at started
      have free := fresh_room_positive blockSize large
      have poked : at_.next ≤ (poke at_.buffer at_.pos (blockBytes crc ⟨at_.seq + 1, [⟨PartKind.begins begun, bytes⟩]⟩)).length := by
        rw [poke, List.length_append, List.length_append, List.length_take, full]
        omega
      obtain ⟨fresh, done, cut, ran, seq, few, emits, bound⟩ := ih (count + 1)
        ⟨at_.seq + 1, poke at_.buffer at_.pos (blockBytes crc ⟨at_.seq + 1, [⟨PartKind.begins begun, bytes⟩]⟩), at_.next, at_.next + blockSize,
          at_.pos + (blockBytes crc ⟨at_.seq + 1, [⟨PartKind.begins begun, bytes⟩]⟩).length⟩ true rest some_rest (by omega) next_aligned rfl poked
        (by dsimp only; omega) (by omega) (by dsimp only; omega)
      dsimp only at seq bound
      refine ⟨_, done, Fresh.more begun at_.seq bytes rest fresh fills cut, started.trans ran, ?_, ?_, ⟨?_, ?_, emits.aligned, emits.lower, emits.upper,
        emits.begins⟩, ?_⟩
      · rw [seq, List.length_cons]
        omega
      · rw [List.length_cons]
        omega
      · have buffer := emits.buffer
        dsimp only at buffer
        rw [buffer, blocks_bytes_cons, next, ← full, poke_poke _ _ _ _ inside, List.append_assoc]
      · have place := emits.newPos
        dsimp only at place
        rw [place, blocks_bytes_cons, List.length_append, full]
        omega
      · rw [Nat.add_mul (count + 1) 1]
        omega

-- A whole value, from where the last one ended.
theorem dump_one (count : Nat) (at_ : Dumping) (value : Bytes) (some_value : value ≠ []) (ahead : at_.pos < at_.next)
    (near : at_.next ≤ at_.pos + blockSize) (aligned : at_.next % blockSize = 0) (tail : minTail < at_.next - at_.pos)
    (behind : at_.next - at_.pos < blockSize → blockMetaSize + headerSize ≤ blockSize - (at_.next - at_.pos))
    (inside : at_.next ≤ at_.buffer.length) (room : at_.next + count * blockSize ≤ bufEnd) (size : Nat)
    (sized : calculateDumpSize blockSize (blockSize - (at_.next - at_.pos)) value.length = some size)
    (fits : at_.pos + size ≤ at_.next + count * blockSize) (numbered : at_.seq + count + 1 < 2 ^ 64) :
    ∃ parts fresh done, Cut blockSize at_.seq (at_.next - at_.pos) value parts fresh ∧
      dumpOne crc blockSize minTail bufEnd strict at_ value = some (done, true) ∧ done.seq = at_.seq + fresh.length ∧
      fresh.length ≤ count + 1 ∧ Emits crc blockSize minTail at_ done (cutBytes crc parts fresh) ∧ done.next ≤ at_.next + count * blockSize := by
  have positive := List.length_pos_iff.mpr some_value
  have step : (count + 1) * blockSize = count * blockSize + blockSize := by rw [Nat.add_mul, Nat.one_mul]
  by_cases head : at_.next = at_.pos + blockSize
  · have whole : at_.next - at_.pos = blockSize := by omega
    have start : at_.pos % blockSize = 0 := by
      rw [head, Nat.add_mod_right] at aligned
      exact aligned
    have total : size = wholeBlocks blockSize 0 value.length := by
      rw [whole, Nat.sub_self, calculateDumpSize, asserting, if_pos (by omega), if_neg (by omega)] at sized
      dsimp only at sized
      rw [asserting, if_pos ⟨by omega, large⟩, if_neg (by omega)] at sized
      exact (Option.some.inj sized).symm
    obtain ⟨fresh, done, cut, ran, seq, few, emits, bound⟩ := dump_rest crc tails large limit strict (value.length + 1) (count + 1) at_ false value
      some_value (Nat.le_succ _) start head (by omega) (show at_.pos + (count + 1) * blockSize ≤ bufEnd by omega) (by omega) (by omega)
    refine ⟨[], fresh, done, ?_, ran, seq, few, emits, by omega⟩
    rw [whole]
    exact Cut.head value fresh cut
  · have inner : at_.next - at_.pos < blockSize := by omega
    have entered : ∀ dumped, dumpValueImpl crc at_.seq blockSize minTail (at_.next - at_.pos) false value = some dumped →
        dumpOne crc blockSize minTail bufEnd strict at_ value =
          (let buffer := poke (poke at_.buffer at_.pos dumped.bytes) (at_.pos + dumped.bytes.length) dumped.tail
          let newPos := at_.pos + dumped.bytes.length
          if dumped.left = [] then some (⟨dumped.seq, buffer, at_.pos, at_.next, newPos⟩, true)
          else
            dumpLoop crc blockSize minTail bufEnd strict value.length
              ⟨dumped.seq, buffer, at_.next, blockAfter blockSize bufEnd at_.next, newPos⟩ true dumped.left) := by
      intro dumped ran
      rw [dumpOne, dumpLoop, if_neg (by omega), asserting, if_pos ⟨ahead, by omega, fun _ => tail, aligned⟩, ran]
      rfl
    generalize room_eq : at_.next - at_.pos = free at *
    by_cases last : headerSize + value.length ≤ free
    · have started := entered _ (dump_value_inside crc tails limit at_.seq free value some_value inner (behind inner) last)
      have long : (partBytes crc ⟨PartKind.full, value⟩).length = headerSize + value.length := part_bytes_length crc _
      have one : cutBytes crc [⟨.full, value⟩] [] = partBytes crc ⟨.full, value⟩ := by simp [cutBytes, partsBytes, blocksBytes]
      refine ⟨[⟨.full, value⟩], [], _, Cut.inside free value inner some_value last, started, rfl, Nat.zero_le _, ⟨?_, ?_, aligned, ?_, ?_, ?_⟩,
        Nat.le_add_right _ _⟩
      · dsimp only
        rw [poke_poke _ _ _ _ (by omega), one, show at_.next - (at_.pos + (partBytes crc ⟨PartKind.full, value⟩).length) =
          free - (partBytes crc ⟨PartKind.full, value⟩).length by omega]
      · rw [one]
      all_goals
        dsimp only
        rw [long]
        simp only [headerSize] at last ⊢
        omega
    · have header : headerSize < free := by omega
      have split := List.take_append_drop (free - headerSize) value
      have fills : headerSize + (value.take (free - headerSize)).length = free := by
        rw [List.length_take]
        omega
      generalize value.take (free - headerSize) = bytes at split fills
      generalize value.drop (free - headerSize) = rest at split
      subst split
      rw [List.length_append] at last positive
      have some_bytes : bytes ≠ [] := List.length_pos_iff.mp (by omega)
      have some_rest : rest ≠ [] := List.length_pos_iff.mp (by omega)
      have more := whole_blocks_positive blockSize large rest.length (List.length_pos_iff.mpr some_rest)
      have total : size = free + wholeBlocks blockSize 0 rest.length := by
        rw [calculateDumpSize, asserting, if_pos (by omega), if_neg (by rw [List.length_append]; omega)] at sized
        dsimp only at sized
        rw [show blockSize - (blockSize - free) = free by omega, asserting, if_pos ⟨header, large⟩, if_pos inner, asserting,
          if_pos (by have start := behind inner; omega), if_neg (by rw [List.length_append]; omega), whole_blocks_from, List.length_append] at sized
        rw [show bytes.length + rest.length - (free - headerSize) = rest.length by omega] at sized
        exact (Option.some.inj sized).symm
      have started := entered _ (dump_value_across crc tails limit at_.seq free bytes rest some_bytes some_rest inner (behind inner) fills)
      have long : (partBytes crc ⟨PartKind.first, bytes⟩).length = free := by
        rw [part_bytes_length, Part.size]
        exact fills
      have needed : wholeBlocks blockSize 0 rest.length ≤ count * blockSize := by omega
      have another : at_.next + blockSize ≤ bufEnd := by
        cases count with
        | zero => omega
        | succ count =>
          rw [Nat.add_mul, Nat.one_mul] at room
          omega
      dsimp only at started
      rw [if_neg some_rest, poke_nil, blockAfter, if_neg (by omega)] at started
      have poked : at_.next ≤ (poke at_.buffer at_.pos (partBytes crc ⟨PartKind.first, bytes⟩)).length := by
        rw [poke_length _ _ _ (by omega)]
        exact inside
      obtain ⟨fresh, done, cut, ran, seq, few, emits, bound⟩ := dump_rest crc tails large limit strict (bytes ++ rest).length count
        ⟨at_.seq, poke at_.buffer at_.pos (partBytes crc ⟨PartKind.first, bytes⟩), at_.next, at_.next + blockSize,
          at_.pos + (partBytes crc ⟨PartKind.first, bytes⟩).length⟩ true rest some_rest (by rw [List.length_append]; omega) aligned rfl poked room
        needed (by dsimp only; omega)
      dsimp only at seq bound
      have one : cutBytes crc [⟨.first, bytes⟩] fresh = partBytes crc ⟨.first, bytes⟩ ++ blocksBytes crc fresh := by simp [cutBytes, partsBytes]
      refine ⟨_, fresh, done, Cut.across free bytes rest fresh inner some_bytes fills cut, started.trans ran, seq, by omega, ⟨?_, ?_, emits.aligned,
        emits.lower, emits.upper, emits.begins⟩, bound⟩
      · have buffer := emits.buffer
        dsimp only at buffer
        rw [buffer, one, show at_.next = at_.pos + (partBytes crc ⟨PartKind.first, bytes⟩).length by omega, poke_poke _ _ _ _ (by omega),
          List.append_assoc]
      · have place := emits.newPos
        dsimp only at place
        rw [place, one, List.length_append, long]
        omega

end Loop

end PaxosStore.DbComm
