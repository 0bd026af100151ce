import PaxosStore.DbComm.LogRoundTrip
import PaxosStore.DbComm.MetaScan
import PaxosStore.DbComm.AttachedReads

set_option autoImplicit false

namespace PaxosStore.DbComm

open PaxosStore.Codec
open PaxosStore.PaxosKv

-- The number of the last block, or else `blkSeq`.
def lastSeq (blkSeq : Nat) : List Block → Nat
  | [] => blkSeq
  | block :: rest => lastSeq block.seq rest

theorem last_seq_mem (blkSeq : Nat) (blocks : List Block) (some_blocks : blocks ≠ []) : ∃ block ∈ blocks, lastSeq blkSeq blocks = block.seq := by
  induction blocks generalizing blkSeq with
  | nil => exact absurd rfl some_blocks
  | cons block rest ih =>
      by_cases none_left : rest = []
      · subst none_left
        exact ⟨block, List.mem_cons_self .., rfl⟩
      · obtain ⟨last, there, same⟩ := ih block.seq none_left
        exact ⟨last, List.mem_cons_of_mem _ there, same⟩

section Found

variable {crc : Crc32c} {blockSize startSeq : Nat} {file : Bytes} {blocks : List Block} {written : List Bytes}

-- Where the writer has stopped: behind the last block.
theorem image_meta_scan (image : Image crc blockSize startSeq file blocks) (large : blockMetaSize < blockSize) (before after : List Block)
    (split : blocks = before ++ after) (fuel : Nat) (enough : after.length < fuel) (blkSeq : Nat) :
    metaScan crc startSeq blockSize file fuel (before.length + 1) blkSeq = some (.found (lastSeq blkSeq after) file.length) := by
  induction after generalizing before fuel blkSeq with
  | nil =>
      obtain ⟨fuel, rfl⟩ : ∃ less, fuel = less + 1 := ⟨fuel - 1, by omega⟩
      have length := image_length image
      rw [split, List.append_nil] at length
      rw [metaScan]
      dsimp only
      rw [if_pos, ← length]
      · rfl
      · rw [pread, ← length, List.drop_length, List.take_nil]
  | cons block after ih =>
      obtain ⟨fuel, rfl⟩ : ∃ less, fuel = less + 1 := ⟨fuel - 1, by omega⟩
      obtain ⟨pad, _, _, _, small, _, size, bytes⟩ := image_whole image before block after split
      have current := image.current block (by rw [split]; exact List.mem_append_right _ (List.mem_cons_self ..))
      have filled : headBytes crc block.seq ++ (partsBytes crc block.parts ++ pad) ≠ [] := by
        refine List.ne_nil_of_length_pos ?_
        omega
      have fresh : isDeprecateBlock startSeq block.seq = false := decide_eq_false (Nat.not_le.mpr current)
      rw [metaScan]
      dsimp only
      rw [bytes, if_neg filled, if_neg (Nat.not_lt.mpr (Nat.le_of_eq size.symm)), pickle_head]
      dsimp only
      rw [asserting_pos _ _ ⟨by decide, large⟩, if_pos rfl, meta_read_back block.seq small, Option.bind_some, fresh,
        if_neg Bool.false_ne_true]
      have later := ih (before ++ [block]) (by rw [split, List.append_assoc]; rfl) fuel (Nat.lt_of_succ_lt_succ enough) block.seq
      rw [List.length_append, List.length_singleton] at later
      exact later

theorem read_meta_info_finds (readable : Readable crc blockSize startSeq file blocks written) (large : blockMetaSize < blockSize) (size : Nat)
    (pages : size % pageSize = 0) :
    readMetaInfo crc file size = some (.found blockSize (lastSeq startSeq blocks) file.length) := by
  have positive := block_positive readable
  have length := image_length readable.image
  have turns : blocks.length < file.length + 2 := by
    have least := Nat.le_mul_of_pos_right (blocks.length + 1) positive
    omega
  have found := image_meta_scan readable.image large [] blocks rfl _ turns startSeq
  rw [List.length_nil, Nat.zero_add] at found
  have roomy := Nat.le_trans (Nat.le_mul_of_pos_left blockSize (show 0 < 2 by decide))
    (Nat.le_max_right (max pageSize size / blockSize * blockSize) (2 * blockSize))
  rw [readMetaInfo, asserting_pos _ _ (Int.natCast_nonneg size), Int.toNat_natCast, opens readable size pages, Option.bind_some]
  dsimp only
  rw [asserting_pos _ _ rfl, scan_block_meta_info positive readable.started _ roomy, found]
  rfl

end Found

-- A reader whose buffer is all of the mapped file behind its first block.
structure Mapped (blockSize startSeq : Nat) (file : Bytes) (info : ReadInfo) : Prop where
  readOnly : info.readOnly = true
  unchecked : info.checkBlock = false
  block : info.blockSize = blockSize
  start : info.startSeq = startSeq
  place : info.directOffset = blockSize
  buffer : info.buffer = file.drop blockSize
  whole : file.length % blockSize = 0
  inside : blockSize ≤ file.length

-- What one read answers where the values are left.
def MappedAnswer (crc : Crc32c) (blockSize startSeq : Nat) (file : Bytes) (blocks : List Block) (info : ReadInfo) : List Bytes → Prop
  | [] => ∃ after, directIORead crc file info = some (after, .eof)
  | value :: values => ∃ after next, directIORead crc file info = some (after, .value value info.offset next) ∧
      Mapped blockSize startSeq file after ∧ after.status = 0 ∧
      (after.directOffset ≤ after.offset ∧ after.offset ≤ after.directOffset + after.buffer.length) ∧
      Placed blockSize blocks after.offset values

section Mapping

variable {crc : Crc32c} {blockSize startSeq : Nat} {file : Bytes} {info : ReadInfo} (positive : 0 < blockSize)
  (mapped : Mapped blockSize startSeq file info)
include positive mapped

omit positive in
theorem mapped_length : blockSize + info.buffer.length = file.length := by
  have inside := mapped.inside
  rw [mapped.buffer, List.length_drop]
  omega

omit positive in
theorem mapped_whole : info.buffer.length % blockSize = 0 := by
  have length := mapped_length mapped
  have whole := mapped.whole
  rw [← length, Nat.add_mod_left] at whole
  exact whole

-- The end of the block of a place.
theorem mapped_next (pos : Nat) (inside : pos < info.buffer.length) :
    info.nextBlockPos pos = pos + (blockSize - pos % blockSize) ∧ info.nextBlockPos pos ≤ info.buffer.length ∧
      info.nextBlockPos pos % blockSize = 0 := by
  have whole := mapped_whole mapped
  have inner := Nat.mod_lt pos positive
  have least := Nat.mod_le pos blockSize
  have base : (pos - pos % blockSize) % blockSize = 0 := Nat.sub_mod_eq_zero_of_mod_eq (Nat.mod_mod _ _).symm
  have room := multiple_above blockSize (pos - pos % blockSize) info.buffer.length base whole (by omega)
  rw [ReadInfo.nextBlockPos, mapped.block]
  by_cases aligned : pos % blockSize = 0
  · rw [if_neg (fun wrong => wrong aligned), if_neg (Nat.ne_of_lt inside), aligned]
    refine ⟨rfl, by omega, ?_⟩
    rw [Nat.add_mod_right]
    exact aligned
  · rw [if_pos aligned]
    refine ⟨by omega, room, ?_⟩
    rw [Nat.add_mod_right]
    exact base

omit positive in
theorem mapped_end : info.nextBlockPos info.buffer.length = info.buffer.length := by
  rw [ReadInfo.nextBlockPos, mapped.block, mapped_whole mapped, if_neg (fun wrong => wrong rfl), if_pos rfl]

theorem mapped_block (pos : Nat) (inside : pos < info.buffer.length) :
    pread info.buffer (info.nextBlockPos pos - pos) pos = blockRest file blockSize (blockSize + pos) := by
  obtain ⟨next, _, _⟩ := mapped_next positive mapped pos inside
  rw [blockRest, next, Nat.add_sub_cancel_left, Nat.add_mod_left, mapped.buffer, pread, pread, List.drop_drop]

-- The loop of a reader that has nothing to reload finds what a scan finds.
theorem mapped_loop (turns pos : Nat) (value : Bytes) (fake : Bool) (result : Scanned) (within : pos ≤ info.buffer.length)
    (scanned : scanFrom crc startSeq blockSize file turns (blockSize + pos) value = some result) (fuel : Nat) (enough : turns ≤ fuel) :
    ∃ ends, readLoop crc file fuel info pos (info.nextBlockPos pos) value fake = some (info, ends) ∧ Agrees info result ends := by
  induction turns generalizing pos value fake fuel with
  | zero => cases scanned
  | succ turns ih =>
      obtain ⟨fuel, rfl⟩ : ∃ less, fuel = less + 1 := ⟨fuel - 1, by omega⟩
      have length := mapped_length mapped
      rw [scanFrom] at scanned
      by_cases last : pos = info.buffer.length
      · subst last
        rw [if_pos (by omega)] at scanned
        cases scanned
        rw [mapped_end mapped, readLoop, if_pos rfl, asserting_pos _ _ rfl, if_pos mapped.readOnly]
        exact ⟨_, rfl, agrees_end info value⟩
      · have inside : pos < info.buffer.length := by omega
        obtain ⟨next, bound, multiple⟩ := mapped_next positive mapped pos inside
        have block := mapped_block positive mapped pos inside
        have inner := Nat.mod_lt pos positive
        have unchecked : ¬(info.checkBlock = true ∧ isValidBlock crc info.blockSize (pread info.buffer (info.nextBlockPos pos - pos) pos) = false) := by
          rw [mapped.unchecked]
          exact fun wrong => Bool.false_ne_true wrong.1
        rw [if_neg (by omega)] at scanned
        rw [read_loop_inside _ _ _ _ _ _ (by omega), readBlock, asserting_pos _ _ ⟨by omega, by rw [mapped.block]; omega⟩]
        dsimp only
        rw [if_neg unchecked, block, mapped.block, mapped.start]
        obtain ⟨picked, ran, rest⟩ := Option.bind_eq_some_iff.mp scanned
        rw [ran, Option.bind_some]
        cases picked with
        | failed code =>
            cases rest
            exact ⟨_, rfl, rfl⟩
        | complete found used =>
            cases rest
            have reached := pickle_block_used crc startSeq blockSize _ _ _ _ ran
            rw [← block, pread_length] at reached
            exact ⟨_, rfl, rfl, by rw [mapped.place]; omega, by omega⟩
        | more left tail =>
            have after : (if info.nextBlockPos pos = info.buffer.length then info.buffer.length else info.nextBlockPos pos + blockSize) =
                info.nextBlockPos (info.nextBlockPos pos) := by
              by_cases ends : info.nextBlockPos pos = info.buffer.length
              · rw [if_pos ends, ends, mapped_end mapped]
              · obtain ⟨further, _, _⟩ := mapped_next positive mapped (info.nextBlockPos pos) (by omega)
                rw [if_neg ends, further, multiple, Nat.sub_zero]
            dsimp only at rest ⊢
            rw [Nat.add_mod_left, Nat.add_assoc, ← next] at rest
            rw [after]
            exact ih (info.nextBlockPos pos) left tail bound rest fuel (Nat.le_of_succ_le_succ enough)

-- One read, where `values` are left.
theorem mapped_read {blocks : List Block} {written : List Bytes} (readable : Readable crc blockSize startSeq file blocks written)
    (good : info.status = 0) (ready : info.directOffset ≤ info.offset ∧ info.offset ≤ info.directOffset + info.buffer.length) (values : List Bytes)
    (placed : Placed blockSize blocks info.offset values) : MappedAnswer crc blockSize startSeq file blocks info values := by
  obtain ⟨_, low, turns, result, few, scanned, finds⟩ := placed_scan readable info.offset values placed
  have length := mapped_length mapped
  have place := mapped.place
  have bound := readable.bounded
  have run : directIORead crc file info = (directIOReadImpl crc file info).bind fun found => found.1.finish found.2 := by
    rw [directIORead, ReadInfo.tryFix, if_pos good, asserting_pos _ _ ⟨ready.1, ready.2, by rw [mapped.block]; exact low⟩]
  have pos_next : info.offset - info.directOffset ≤ info.nextBlockPos (info.offset - info.directOffset) ∧
      info.nextBlockPos (info.offset - info.directOffset) ≤ info.buffer.length := by
    by_cases inside : info.offset - info.directOffset < info.buffer.length
    · obtain ⟨next, last, _⟩ := mapped_next positive mapped _ inside
      exact ⟨by omega, last⟩
    · rw [show info.offset - info.directOffset = info.buffer.length by omega, mapped_end mapped]
      exact ⟨Nat.le_refl _, Nat.le_refl _⟩
  by_cases far : maxLogFileSize ≤ info.offset
  · obtain ⟨turns, rfl⟩ : ∃ less, turns = less + 1 := by
      cases turns with
      | zero => cases scanned
      | succ turns => exact ⟨turns, rfl⟩
    rw [scanFrom, if_pos (by omega), if_pos rfl] at scanned
    cases scanned
    rw [directIOReadImpl, asserting_pos _ _ good, if_pos far] at run
    cases values with
    | nil => exact ⟨_, run⟩
    | cons value values =>
        obtain ⟨_, _, _, wrong, _⟩ := finds
        cases wrong
  · have there : blockSize + (info.offset - info.directOffset) = info.offset := by omega
    obtain ⟨ends, looped, agrees⟩ := @mapped_loop crc blockSize startSeq file info positive mapped turns (info.offset - info.directOffset) [] false result
      (by omega) (there.symm ▸ scanned) (2 * file.length + 3) (by omega)
    rw [directIOReadImpl, asserting_pos _ _ good, if_neg far, asserting_pos _ _ ready] at run
    dsimp only at run
    rw [asserting_pos _ _ pos_next, looped, Option.bind_some] at run
    dsimp only at run
    cases values with
    | nil =>
        cases finds
        cases ends with
        | failed => exact agrees.elim
        | eof => exact ⟨_, run⟩
        | found => exact agrees.elim
    | cons value values =>
        obtain ⟨next, todo, behind, rfl, stands, long, spelt⟩ := finds
        cases ends with
        | failed => exact agrees.elim
        | eof => exact agrees.elim
        | found value' pos =>
            obtain ⟨rfl, rfl, reached⟩ := agrees
            rw [ReadInfo.finish, asserting_pos _ _ ⟨by omega, by omega, reached⟩] at run
            exact ⟨_, _, run, ⟨mapped.readOnly, mapped.unchecked, mapped.block, mapped.start, mapped.place, mapped.buffer, mapped.whole, mapped.inside⟩,
              rfl, ⟨Nat.le_add_right _ _, Nat.add_le_add_left reached _⟩, todo, behind, stands, spelt⟩

end Mapping

section Checks

variable {crc : Crc32c} {blockSize startSeq : Nat} {file : Bytes} {blocks : List Block} {written : List Bytes}
  (readable : Readable crc blockSize startSeq file blocks written)
include readable

theorem reads_to_end (values : List Bytes) (info : ReadInfo) (mapped : Mapped blockSize startSeq file info) (good : info.status = 0)
    (ready : info.directOffset ≤ info.offset ∧ info.offset ≤ info.directOffset + info.buffer.length)
    (placed : Placed blockSize blocks info.offset values) (fuel : Nat) (enough : values.length < fuel) :
    readToEnd crc file fuel info = some true := by
  have positive := block_positive readable
  induction values generalizing info fuel with
  | nil =>
      obtain ⟨fuel, rfl⟩ : ∃ less, fuel = less + 1 := ⟨fuel - 1, by omega⟩
      obtain ⟨after, ran⟩ := mapped_read positive mapped readable good ready [] placed
      rw [readToEnd, ran]
      rfl
  | cons value values ih =>
      obtain ⟨fuel, rfl⟩ : ∃ less, fuel = less + 1 := ⟨fuel - 1, by omega⟩
      obtain ⟨after, next, ran, again, still, later, left⟩ := mapped_read positive mapped readable good ready (value :: values) placed
      rw [readToEnd, ran]
      exact ih after again still later left fuel (by rw [List.length_cons] at enough; omega)

-- The check that ReadMetaInfoAndFixWritePos ends with.
theorem attaches (some_blocks : blocks ≠ []) :
    ∃ reader, createADirectIOReadInfoReadOnly file 0 = some (.reader reader) ∧ Mapped blockSize startSeq file reader ∧ reader.status = 0 ∧
      (reader.directOffset ≤ reader.offset ∧ reader.offset ≤ reader.directOffset + reader.buffer.length) ∧
      Placed blockSize blocks reader.offset written := by
  have positive := block_positive readable
  have whole := whole_blocks readable
  have paged := readable.paged
  have limit := readable.small
  obtain ⟨rest, shape⟩ := readable.head
  have found := meta_found startSeq blockSize rest readable.numbered (by omega)
  rw [← shape] at found
  have long : blockSize ≤ file.length := by
    rw [image_length readable.image, Nat.add_mul]
    omega
  have data : (file.length - blockSize) / blockSize * blockSize = file.length - blockSize := by
    refine Nat.div_mul_cancel (Nat.dvd_of_mod_eq_zero ?_)
    exact Nat.sub_mod_eq_zero_of_mod_eq (whole.trans (Nat.mod_self _).symm)
  have start : (min file.length (max blockSize 0) + blockSize - 1) / blockSize * blockSize = blockSize := by
    rw [Nat.max_zero, Nat.min_eq_right long, show blockSize + blockSize - 1 = blockSize - 1 + blockSize by omega, Nat.add_div_right _ positive,
      Nat.div_eq_of_lt (Nat.sub_lt positive Nat.one_pos), Nat.zero_add, Nat.one_mul]
  rw [createADirectIOReadInfoReadOnly, found, Option.bind_some]
  dsimp only
  rw [if_neg, if_neg (by omega), Int.toNat_natCast, data, start]
  · refine ⟨_, rfl, ⟨rfl, rfl, rfl, rfl, rfl, ?_, whole, long⟩, rfl, ⟨Nat.le_refl _, Nat.le_add_right _ _⟩, placed_first readable some_blocks⟩
    dsimp only
    rw [pread, List.take_of_length_le (by rw [List.length_drop])]
  · rintro (wrong | wrong | wrong)
    · omega
    · omega
    · exact readable.started wrong

end Checks

end PaxosStore.DbComm
