import PaxosStore.DbComm.LogAnswers

set_option autoImplicit false

namespace PaxosStore.DbComm

open PaxosStore.Codec
open PaxosStore.PaxosKv

-- A piece that is not followed by a block that goes on with its value.
def PartKind.Closes (kind : PartKind) : Prop := kind = .full ∨ kind = .last

theorem closes_of_padded (parts : List Part) (pad : Bytes) (some_parts : parts ≠ [])
    (tight : ∀ part, parts.getLast? = some part → part.kind = .first ∨ part.kind = .middle → pad = []) (padded : pad ≠ []) :
    ∃ part, parts.getLast? = some part ∧ part.kind.Closes := by
  have last := List.getLast?_eq_some_getLast some_parts
  refine ⟨_, last, ?_⟩
  have bare := tight _ last
  cases kind : (parts.getLast some_parts).kind with
  | full => exact .inl rfl
  | first => exact absurd (bare (.inl kind)) padded
  | middle => exact absurd (bare (.inr kind)) padded
  | last => exact .inr rfl

-- A block that ends in such a piece is never used up by a read that enters before it.
theorem take_parts_stops (partialValue padded : Bool) (parts : List Part) (last : Part) (ends : parts.getLast? = some last)
    (closes : last.kind.Closes) (value left : Bytes) : takeParts partialValue padded parts value ≠ .more left := by
  induction parts generalizing value with
  | nil => cases ends
  | cons part rest ih =>
    cases rest with
    | nil =>
      obtain rfl : part = last := by simpa using ends
      rcases part with ⟨kind, bytes⟩
      rcases closes with rfl | rfl <;> cases partialValue <;> simp [takeParts]
    | cons second others =>
      have later := ih (by simpa using ends)
      rcases part with ⟨kind, bytes⟩
      cases kind <;> cases partialValue <;> simp only [takeParts, Bool.false_eq_true, if_true, if_false] <;>
        first
        | exact later _
        | simp

section Padding

variable {crc : Crc32c} {startSeq blockSize : Nat}

-- A block whose rest is padding, and which is used up by it.
theorem pickle_padding (pad left : Bytes) (padding : Padding crc pad) (inside : pad.length < blockSize)
    (ran : pickleLevelDBLogBlock crc startSeq blockSize pad [] = some (.more left true)) :
    left = [] ∧ pickleLevelDBRecord crc pad false = (⟨.fake, []⟩, pad.length) := by
  obtain ⟨-, ran⟩ := (asserting_some _ _ _).mp ran
  have head : decide (pad.length = blockSize) = false := by simpa using Nat.ne_of_lt inside
  rcases padding with rfl | ⟨kind, skipped, read⟩
  · simp [pickleRecords] at ran
  · cases pad with
    | nil => simp [pickleRecords] at ran
    | cons byte rest =>
      rw [List.length_cons, pickleRecords, read true] at ran
      simp only [head, List.drop_length] at ran
      rcases skipped with rfl | rfl
      · simp [checkLevelDBRecord, RecordType.carriesData, asserting, pickleRecords] at ran
      · simp [checkLevelDBRecord, RecordType.carriesData, asserting, pickleRecords] at ran
        exact ⟨ran, read false⟩

theorem valid_record (record : LogRecord) (size fuel : Nat) (buf rest : Bytes)
    (read : pickleLevelDBRecord crc buf true = (record, size)) (whole : record.kind ≠ .broken) (left : buf.drop size = rest)
    (after : validRecords crc fuel rest = true) : validRecords crc (fuel + 1) buf = true := by
  cases buf with
  | nil => rfl
  | cons byte tail =>
    rw [validRecords, read]
    dsimp only
    rw [left, after]
    simpa using whole

theorem valid_padding (pad : Bytes) (padding : Padding crc pad) (fuel : Nat) : validRecords crc fuel pad = true := by
  cases fuel with
  | zero => cases pad <;> rfl
  | succ fuel =>
    rcases padding with rfl | ⟨kind, skipped, read⟩
    · rfl
    · refine valid_record _ _ fuel pad [] (read true) ?_ (List.drop_length) ?_
      · rcases skipped with rfl | rfl <;> decide
      · cases fuel <;> rfl

theorem valid_parts (parts : List Part) (sized : ∀ part ∈ parts, part.Sized) (pad : Bytes) (padding : Padding crc pad) (fuel : Nat) :
    validRecords crc fuel (partsBytes crc parts ++ pad) = true := by
  induction parts generalizing fuel with
  | nil => exact valid_padding pad padding fuel
  | cons part rest ih =>
    have shape : partsBytes crc (part :: rest) ++ pad = partBytes crc part ++ (partsBytes crc rest ++ pad) := by simp [partsBytes]
    rw [shape]
    cases fuel with
    | zero => cases partBytes crc part ++ (partsBytes crc rest ++ pad) <;> rfl
    | succ fuel =>
      refine valid_record _ _ fuel _ _ (pickle_part crc part (sized part (List.mem_cons_self ..)) _) ?_ ?_
        (ih (fun other member => sized other (List.mem_cons_of_mem _ member)) fuel)
      · dsimp only
        cases part.kind <;> decide
      · rw [← part_bytes_length crc part, List.drop_left]

end Padding

section Image

variable {crc : Crc32c} {blockSize startSeq : Nat} {file : Bytes} {blocks : List Block} (image : Image crc blockSize startSeq file blocks)
include image

-- A place in the file at the head of a data block is one of the blocks.
theorem image_place (positive : 0 < blockSize) (place : Nat) (aligned : place % blockSize = 0) (low : blockSize ≤ place)
    (inside : place < file.length) :
    ∃ before block after, blocks = before ++ block :: after ∧ place = (before.length + 1) * blockSize := by
  obtain ⟨count, rfl⟩ := Nat.dvd_of_mod_eq_zero aligned
  rw [image_length image, Nat.mul_comm] at inside
  have upper : count < blocks.length + 1 := Nat.lt_of_mul_lt_mul_right inside
  have lower : 0 < count := by
    by_contra zero
    rw [Nat.eq_zero_of_not_pos zero, Nat.mul_zero] at low
    omega
  have index : count - 1 < blocks.length := by omega
  refine ⟨blocks.take (count - 1), blocks.get ⟨count - 1, index⟩, blocks.drop (count - 1 + 1), ?_, ?_⟩
  · rw [List.get_eq_getElem, ← List.drop_eq_getElem_cons index, List.take_append_drop]
  · rw [List.length_take, Nat.min_eq_left (Nat.le_of_lt index), Nat.sub_add_cancel lower, Nat.mul_comm]

theorem image_heads (started : startSeq ≠ 0) (positive : 0 < blockSize) (place : Nat) (value left : Bytes) (aligned : place % blockSize = 0)
    (low : blockSize ≤ place) (inside : place < file.length) :
    pickleLevelDBLogBlock crc startSeq blockSize (blockRest file blockSize place) value ≠ some (.more left true) := by
  obtain ⟨before, block, after, split, rfl⟩ := image_place image positive place aligned low inside
  obtain ⟨pad, padding, sized, some_parts, small, tight, whole, bytes⟩ := image_whole image before block after split
  obtain ⟨picked, ran, rendered⟩ := pickle_block_head crc startSeq blockSize block sized pad padding value started small whole
  have current := image.current block (by rw [split]; simp)
  rw [blockRest, aligned, Nat.sub_zero, bytes, ran]
  rw [if_neg (Nat.not_le.mpr current)] at rendered
  intro used
  cases used
  cases taken : takeParts (value ≠ []) (pad ≠ []) block.parts value with
  | failed code =>
    rw [taken] at rendered
    exact rendered
  | complete found rest =>
    rw [taken] at rendered
    exact rendered
  | more found =>
    rw [taken] at rendered
    obtain ⟨-, padded⟩ := rendered
    obtain ⟨last, ends, closes⟩ := closes_of_padded block.parts pad some_parts tight (by simpa using padded)
    exact take_parts_stops _ _ block.parts last ends closes value found taken

theorem image_valid (positive : 0 < blockSize) (place : Nat) (aligned : place % blockSize = 0) (low : blockSize ≤ place)
    (inside : place < file.length) : isValidBlock crc blockSize (blockRest file blockSize place) = true := by
  obtain ⟨before, block, after, split, rfl⟩ := image_place image positive place aligned low inside
  obtain ⟨pad, padding, sized, -, -, -, whole, bytes⟩ := image_whole image before block after split
  rw [blockRest, aligned, Nat.sub_zero, bytes, isValidBlock]
  have long : 0 < (headBytes crc block.seq ++ (partsBytes crc block.parts ++ pad)).length := by omega
  obtain ⟨fuel, size⟩ := Nat.exists_eq_add_of_lt long
  rw [Nat.zero_add] at size
  rw [size, valid_record _ _ fuel _ _ (pickle_head crc block.seq _) RecordType.noConfusion (by rw [← head_bytes_length crc block.seq, List.drop_left])
    (valid_parts block.parts sized pad padding fuel), Bool.or_true]

theorem image_tame (started : startSeq ≠ 0) (positive : 0 < blockSize) (offset : Nat) (todo : List Part) (after : List Block)
    (stands : Stands blockSize blocks offset todo after) : Tame crc startSeq blockSize file offset := by
  have heads := image_heads image started positive
  refine ⟨fun place value left => heads place value left, image_valid image positive, fun left ran => ?_⟩
  obtain ⟨before, seq, done, split, rfl⟩ := stands
  have positive_rest : 0 < (blockRest file blockSize ((before.length + 1) * blockSize + reach done)).length := by
    obtain ⟨guards, -⟩ := (asserting_some _ _ _).mp ran
    exact guards.2.2.1
  by_cases aligned : ((before.length + 1) * blockSize + reach done) % blockSize = 0
  · refine absurd ran (heads _ [] left aligned ?_ ?_)
    · rw [Nat.add_mul]
      omega
    · rw [blockRest, pread_length] at positive_rest
      omega
  · have some_done : done ≠ [] := by
      rintro rfl
      simp [reach] at aligned
    obtain ⟨pad, padding, sized, tight, size, bytes⟩ := image_rest image before seq done todo after split some_done
    have reached : reach done = blockMetaSize + partsSize done := by rw [reach, if_neg some_done]
    have small : reach done < blockSize := by
      rcases Nat.lt_or_ge (reach done) blockSize with less | more
      · exact less
      · have full : reach done = blockSize := by omega
        rw [full, Nat.add_mod_right, Nat.mul_mod_left] at aligned
        exact absurd rfl aligned
    have offset_mod : ((before.length + 1) * blockSize + reach done) % blockSize = reach done := by
      rw [Nat.add_comm, Nat.add_mul_mod_self_right, Nat.mod_eq_of_lt small]
    have rest : blockRest file blockSize ((before.length + 1) * blockSize + reach done) = partsBytes crc todo ++ pad := by
      rw [blockRest, offset_mod, bytes]
    have inside : (partsBytes crc todo ++ pad).length < blockSize := by
      rw [reached] at size
      simp only [blockMetaSize] at size
      omega
    rw [rest] at ran positive_rest ⊢
    by_cases none_left : todo = []
    · subst none_left
      exact pickle_padding pad left padding inside ran
    · obtain ⟨picked, same, rendered⟩ := pickle_block_rest crc startSeq blockSize todo
        (fun part member => sized part (List.mem_append_right _ member)) pad padding [] started (List.length_pos_iff.mp positive_rest) inside
      rw [ran] at same
      cases same
      have tight_todo : ∀ part, todo.getLast? = some part → part.kind = .first ∨ part.kind = .middle → pad = [] :=
        fun part ends => tight part (by rw [List.getLast?_append, ends]; rfl)
      cases taken : takeParts (decide ((([] : Bytes)) ≠ [])) (pad ≠ []) todo [] with
      | failed code =>
        rw [taken] at rendered
        exact rendered.elim
      | complete found others =>
        rw [taken] at rendered
        exact rendered.elim
      | more found =>
        rw [taken] at rendered
        obtain ⟨-, padded⟩ := rendered
        obtain ⟨last, ends, closes⟩ := closes_of_padded todo pad none_left tight_todo (by simpa using padded)
        exact absurd taken (take_parts_stops _ _ todo last ends closes [] found)

end Image

end PaxosStore.DbComm
