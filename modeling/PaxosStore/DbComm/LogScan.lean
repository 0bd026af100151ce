import Mathlib.Data.List.Forall2
import PaxosStore.DbComm.LogReader
import PaxosStore.DbComm.LogSpelling

set_option autoImplicit false

namespace PaxosStore.DbComm

open PaxosStore.Codec
open PaxosStore.PaxosKv

-- The bytes from an offset to the end of its block.
def blockRest (file : Bytes) (blockSize offset : Nat) : Bytes := pread file (blockSize - offset % blockSize) offset

inductive Scanned where
  | failed (code : Int)
  | eof
  | found (value : Bytes) (offset : Nat)
deriving DecidableEq

-- What a reader finds from an offset on, block by block and without a buffer.
def scanFrom (crc : Crc32c) (startSeq blockSize : Nat) (file : Bytes) : Nat → Nat → Bytes → Option Scanned
  | 0, _, _ => none
  | fuel + 1, offset, value =>
      if file.length ≤ offset then some (if value = [] then .eof else .failed LogError.unexpectedEof)
      else
        (pickleLevelDBLogBlock crc startSeq blockSize (blockRest file blockSize offset) value).bind fun
        | .failed code => some (.failed code)
        | .complete value used => some (.found value (offset + used))
        | .more value _ => scanFrom crc startSeq blockSize file fuel (offset + (blockSize - offset % blockSize)) value

theorem scan_mono (crc : Crc32c) (startSeq blockSize : Nat) (file : Bytes) (fuel more offset : Nat) (value : Bytes) (result : Scanned)
    (scanned : scanFrom crc startSeq blockSize file fuel offset value = some result) (enough : fuel ≤ more) :
    scanFrom crc startSeq blockSize file more offset value = some result := by
  induction fuel generalizing more offset value with
  | zero => cases scanned
  | succ fuel ih =>
    obtain ⟨more, rfl⟩ : ∃ less, more = less + 1 := ⟨more - 1, by omega⟩
    rw [scanFrom] at scanned ⊢
    by_cases past : file.length ≤ offset
    · rw [if_pos past] at scanned ⊢
      exact scanned
    · rw [if_neg past] at scanned ⊢
      obtain ⟨picked, ran, rest⟩ := Option.bind_eq_some_iff.mp scanned
      rw [ran, Option.bind_some]
      cases picked with
      | failed code => exact rest
      | complete value used => exact rest
      | more value fake => exact ih more _ value rest (by omega)

-- How far the pieces that have been read reach into their block.
def reach (done : List Part) : Nat := if done = [] then 0 else blockMetaSize + partsSize done

theorem flatten_length (crc : Crc32c) (blockSize : Nat) (pieces : List Bytes) (blocks : List Block)
    (framed : List.Forall₂ (Sealed crc blockSize) pieces blocks) : pieces.flatten.length = blocks.length * blockSize := by
  induction framed with
  | nil => simp
  | cons first rest ih =>
    rw [List.flatten_cons, List.length_append, ih, first.2.2.2.1, List.length_cons, Nat.add_mul]
    omega

-- A reader at `offset` has `todo` left of its block and `after` behind it.
def Stands (blockSize : Nat) (blocks : List Block) (offset : Nat) (todo : List Part) (after : List Block) : Prop :=
  ∃ before seq done, blocks = before ++ ⟨seq, done ++ todo⟩ :: after ∧ offset = (before.length + 1) * blockSize + reach done

section Image

variable {crc : Crc32c} {blockSize startSeq : Nat} {file : Bytes} {blocks : List Block} (image : Image crc blockSize startSeq file blocks)
include image

theorem image_length : file.length = (blocks.length + 1) * blockSize := by
  obtain ⟨first, pieces, rfl, size, framed⟩ := image.framed
  rw [List.length_append, size, flatten_length crc blockSize pieces blocks framed, Nat.add_mul]
  omega

-- The bytes of one block of the file.
theorem image_block (before : List Block) (block : Block) (after : List Block) (split : blocks = before ++ block :: after) :
    ∃ bytes tail, Sealed crc blockSize bytes block ∧ file.drop ((before.length + 1) * blockSize) = bytes ++ tail := by
  obtain ⟨first, pieces, rfl, size, framed⟩ := image.framed
  rw [split] at framed
  have framedBefore := List.forall₂_take_append _ _ _ framed
  have framedAfter := List.forall₂_drop_append _ _ _ framed
  cases after_eq : pieces.drop before.length with
  | nil =>
    rw [after_eq] at framedAfter
    cases framedAfter
  | cons bytes bytesAfter =>
    rw [after_eq] at framedAfter
    cases framedAfter with
    | cons sealed_ rest =>
      refine ⟨bytes, bytesAfter.flatten, sealed_, ?_⟩
      have passed : (first ++ (pieces.take before.length).flatten).length = (before.length + 1) * blockSize := by
        rw [List.length_append, size, flatten_length crc blockSize _ before framedBefore, Nat.add_mul]
        omega
      have parted : first ++ pieces.flatten = (first ++ (pieces.take before.length).flatten) ++ (bytes ++ bytesAfter.flatten) := by
        conv_lhs => rw [← List.take_append_drop before.length pieces, after_eq]
        simp
      rw [parted, ← passed, List.drop_left]

-- The file from the end of the pieces that have been read on: either they fill their
-- block, or the rest of it is the pieces left and padding.
theorem image_rest (before : List Block) (seq : Nat) (done todo : List Part) (after : List Block)
    (split : blocks = before ++ ⟨seq, done ++ todo⟩ :: after) (some_done : done ≠ []) :
    ∃ pad, Padding crc pad ∧ (∀ part ∈ done ++ todo, part.Sized) ∧
      (∀ part, (done ++ todo).getLast? = some part → part.kind = .first ∨ part.kind = .middle → pad = []) ∧
      reach done + (partsBytes crc todo ++ pad).length = blockSize ∧
      pread file (blockSize - reach done) ((before.length + 1) * blockSize + reach done) = partsBytes crc todo ++ pad := by
  obtain ⟨bytes, tail, ⟨some_parts, sized, small, size, pad, rfl, padding, tight⟩, dropped⟩ := image_block image before _ after split
  rw [List.length_append, head_bytes_length, parts_bytes_append, List.append_assoc, List.length_append, parts_bytes_length] at size
  have reached : reach done = blockMetaSize + partsSize done := by rw [reach, if_neg some_done]
  refine ⟨pad, padding, sized, tight, by rw [reached]; omega, ?_⟩
  have passed : (headBytes crc seq ++ partsBytes crc done).length = reach done := by
    rw [List.length_append, head_bytes_length, parts_bytes_length, reached]
  rw [pread, ← List.drop_drop, dropped, parts_bytes_append, List.append_assoc, List.append_assoc, List.append_assoc, ← List.append_assoc (headBytes crc seq),
    ← passed, List.drop_left, ← List.append_assoc, List.take_left' (by rw [passed, reached]; omega)]

-- The whole of a block.
theorem image_whole (before : List Block) (block : Block) (after : List Block) (split : blocks = before ++ block :: after) :
    ∃ pad, Padding crc pad ∧ (∀ part ∈ block.parts, part.Sized) ∧ block.parts ≠ [] ∧ block.seq < 2 ^ 64 ∧
      (∀ part, block.parts.getLast? = some part → part.kind = .first ∨ part.kind = .middle → pad = []) ∧
      (headBytes crc block.seq ++ (partsBytes crc block.parts ++ pad)).length = blockSize ∧
      pread file blockSize ((before.length + 1) * blockSize) = headBytes crc block.seq ++ (partsBytes crc block.parts ++ pad) := by
  obtain ⟨bytes, tail, ⟨some_parts, sized, small, size, pad, rfl, padding, tight⟩, dropped⟩ := image_block image before block after split
  refine ⟨pad, padding, sized, some_parts, small, tight, size, ?_⟩
  rw [pread, dropped, List.take_left' size]

-- What one turn of the scan does, in terms of the pieces of the block it is in.
def Turns (startSeq : Nat) (crc : Crc32c) (blockSize : Nat) (file : Bytes) (fuel offset base : Nat) (parts : List Part) (value : Bytes) :
    Taken → Prop
  | .failed code => scanFrom crc startSeq blockSize file (fuel + 1) offset value = some (.failed code)
  | .complete found left =>
      ∃ used, used + partsSize left = blockMetaSize + partsSize parts ∧
        scanFrom crc startSeq blockSize file (fuel + 1) offset value = some (.found found (base + used))
  | .more found =>
      scanFrom crc startSeq blockSize file (fuel + 1) offset value = scanFrom crc startSeq blockSize file fuel (base + blockSize) found

omit image in
theorem turns_of_renders (fuel offset base : Nat) (parts : List Part) (value : Bytes) (taken : Taken) (picked : Picked) (padded : Bool)
    (reached : Nat) (inside : offset < file.length)
    (ran : pickleLevelDBLogBlock crc startSeq blockSize (blockRest file blockSize offset) value = some picked)
    (rendered : Renders reached padded taken picked) (ends : offset + reached = base + (blockMetaSize + partsSize parts))
    (next : offset + (blockSize - offset % blockSize) = base + blockSize) (ahead : base ≤ offset) :
    Turns startSeq crc blockSize file fuel offset base parts value taken := by
  have entered : scanFrom crc startSeq blockSize file (fuel + 1) offset value =
      (some picked).bind fun
      | .failed code => some (.failed code)
      | .complete value used => some (.found value (offset + used))
      | .more value _ => scanFrom crc startSeq blockSize file fuel (base + blockSize) value := by
    rw [scanFrom, if_neg (Nat.not_le.mpr inside), ran, next]
  cases taken with
  | failed code =>
    cases picked with
    | failed code' =>
      cases rendered
      exact entered
    | complete => exact rendered.elim
    | more => exact rendered.elim
  | complete found left =>
    cases picked with
    | failed => exact rendered.elim
    | complete value' used =>
      obtain ⟨rfl, size⟩ := rendered
      refine ⟨offset - base + used, by omega, ?_⟩
      rw [show base + (offset - base + used) = offset + used by omega]
      exact entered
    | more => exact rendered.elim
  | more found =>
    cases picked with
    | failed => exact rendered.elim
    | complete => exact rendered.elim
    | more value' fake =>
      obtain ⟨rfl, -⟩ := rendered
      exact entered

omit image in
theorem inside_file (before : List Block) (block : Block) (after : List Block) (split : blocks = before ++ block :: after)
    (size : file.length = (blocks.length + 1) * blockSize) (offset : Nat) (small : offset < (before.length + 2) * blockSize) :
    offset < file.length := by
  have count : blocks.length = before.length + (after.length + 1) := by rw [split, List.length_append, List.length_cons]
  have lower : (before.length + 2) * blockSize ≤ (blocks.length + 1) * blockSize := Nat.mul_le_mul_right _ (by omega)
  omega

-- A scan that enters a block at its head.
theorem scan_head (started : startSeq ≠ 0) (before : List Block) (block : Block) (after : List Block) (split : blocks = before ++ block :: after)
    (fuel : Nat) (value : Bytes) :
    ∃ padded, (∀ part, block.parts.getLast? = some part → part.kind = .first ∨ part.kind = .middle → padded = false) ∧
      Turns startSeq crc blockSize file fuel ((before.length + 1) * blockSize) ((before.length + 1) * blockSize) block.parts value
        (takeParts (value ≠ []) padded block.parts value) := by
  obtain ⟨pad, padding, sized, some_parts, small, tight, whole, bytes⟩ := image_whole image before block after split
  have positive : 0 < blockSize := by
    rw [List.length_append, head_bytes_length] at whole
    simp only [blockMetaSize] at whole
    omega
  have aligned : (before.length + 1) * blockSize % blockSize = 0 := Nat.mul_mod_left _ _
  have rest : blockRest file blockSize ((before.length + 1) * blockSize) = headBytes crc block.seq ++ (partsBytes crc block.parts ++ pad) := by
    rw [blockRest, aligned, Nat.sub_zero, bytes]
  obtain ⟨picked, ran, rendered⟩ := pickle_block_head crc startSeq blockSize block sized pad padding value started small whole
  have current := image.current block (by rw [split]; simp)
  rw [if_neg (Nat.not_le.mpr current)] at rendered
  refine ⟨pad ≠ [], fun part last open_ => by simpa using tight part last open_, ?_⟩
  refine turns_of_renders fuel _ _ block.parts value _ picked _ _ ?_ (by rw [rest]; exact ran) rendered rfl
    (by rw [aligned, Nat.sub_zero]) (Nat.le_refl _)
  exact inside_file before block after split (image_length image) _ (Nat.mul_lt_mul_of_pos_right (by omega) positive)

-- A scan that goes on in the middle of a block.
theorem scan_rest (started : startSeq ≠ 0) (before : List Block) (seq : Nat) (done todo : List Part) (after : List Block)
    (split : blocks = before ++ ⟨seq, done ++ todo⟩ :: after) (some_done : done ≠ []) (fuel : Nat) (value : Bytes) :
    (todo = [] ∧ reach done = blockSize) ∨
      ∃ padded, (∀ part, (done ++ todo).getLast? = some part → part.kind = .first ∨ part.kind = .middle → padded = false) ∧
        Turns startSeq crc blockSize file fuel ((before.length + 1) * blockSize + reach done) ((before.length + 1) * blockSize) (done ++ todo)
          value (takeParts (value ≠ []) padded todo value) := by
  obtain ⟨pad, padding, sized, tight, size, bytes⟩ := image_rest image before seq done todo after split some_done
  have reached : reach done = blockMetaSize + partsSize done := by rw [reach, if_neg some_done]
  by_cases some_rest : partsBytes crc todo ++ pad = []
  · left
    rw [some_rest, List.length_nil, Nat.add_zero] at size
    refine ⟨?_, size⟩
    cases todo with
    | nil => rfl
    | cons part others =>
      obtain ⟨byte, tail, shape⟩ := part_bytes_cons crc part (partsBytes crc others ++ pad)
      simp only [partsBytes, List.flatMap_cons, List.append_assoc] at some_rest shape
      rw [shape] at some_rest
      cases some_rest
  · right
    have positive := List.length_pos_iff.mpr some_rest
    have small : reach done < blockSize := by omega
    have offset_mod : ((before.length + 1) * blockSize + reach done) % blockSize = reach done := by
      rw [Nat.add_comm, Nat.add_mul_mod_self_right, Nat.mod_eq_of_lt small]
    have rest : blockRest file blockSize ((before.length + 1) * blockSize + reach done) = partsBytes crc todo ++ pad := by
      rw [blockRest, offset_mod, bytes]
    have todo_sized : ∀ part ∈ todo, part.Sized := fun part member => sized part (List.mem_append_right _ member)
    obtain ⟨picked, ran, rendered⟩ := pickle_block_rest crc startSeq blockSize todo todo_sized pad padding value started some_rest
      (by rw [reached] at size; simp only [blockMetaSize] at size; omega)
    refine ⟨pad ≠ [], fun part last open_ => by simpa using tight part last open_, ?_⟩
    refine turns_of_renders fuel _ _ (done ++ todo) value _ picked _ _ ?_ (by rw [rest]; exact ran) rendered ?_ ?_ (Nat.le_add_right _ _)
    · refine inside_file before _ after split (image_length image) _ ?_
      rw [show before.length + 2 = before.length + 1 + 1 by omega, Nat.add_mul (before.length + 1) 1]
      omega
    · rw [parts_size_append, reached]
      omega
    · rw [offset_mod]
      omega

theorem parts_fit (before : List Block) (block : Block) (after : List Block) (split : blocks = before ++ block :: after) :
    blockMetaSize + partsSize block.parts ≤ blockSize := by
  obtain ⟨pad, -, -, -, -, -, whole, -⟩ := image_whole image before block after split
  rw [List.length_append, head_bytes_length, List.length_append, parts_bytes_length] at whole
  omega

-- The two kinds of place in one: `done` is empty at the head of a block.
theorem scan_at (started : startSeq ≠ 0) (before : List Block) (seq : Nat) (done todo : List Part) (after : List Block)
    (split : blocks = before ++ ⟨seq, done ++ todo⟩ :: after) (fuel : Nat) (value : Bytes) :
    (todo = [] ∧ reach done = blockSize) ∨
      ∃ padded, (∀ part, (done ++ todo).getLast? = some part → part.kind = .first ∨ part.kind = .middle → padded = false) ∧
        Turns startSeq crc blockSize file fuel ((before.length + 1) * blockSize + reach done) ((before.length + 1) * blockSize) (done ++ todo)
          value (takeParts (value ≠ []) padded todo value) := by
  by_cases some_done : done = []
  · subst some_done
    exact .inr (scan_head image started before ⟨seq, todo⟩ after split fuel value)
  · exact scan_rest image started before seq done todo after split some_done fuel value

omit image in
theorem reach_part (part : Part) (used : Nat) (todo done : List Part)
    (size : used + partsSize todo = blockMetaSize + partsSize (done ++ part :: todo)) : used = reach (done ++ [part]) := by
  rw [reach, if_neg (by simp), parts_size_append]
  rw [parts_size_append] at size
  simp only [partsSize, List.map_cons, List.sum_cons, List.map_nil, List.sum_nil] at size ⊢
  omega

theorem scan_continues (started : startSeq ≠ 0) (passed value : Bytes) (todo : List Part) (ahead after : List Block)
    (goes : Continues passed ahead value todo after) (some_passed : passed ≠ []) (before : List Block) (split : blocks = before ++ ahead)
    (fuel : Nat) (enough : ahead.length ≤ fuel) :
    ∃ offset, scanFrom crc startSeq blockSize file fuel ((before.length + 1) * blockSize) passed = some (.found value offset) ∧
      Stands blockSize blocks offset todo after ∧ (before.length + 1) * blockSize + value.length < offset + passed.length := by
  induction goes generalizing before fuel with
  | last passed bytes todo seq after =>
    cases fuel with
    | zero => simp at enough
    | succ fuel =>
      obtain ⟨padded, -, turned⟩ := scan_head image started before _ after split fuel passed
      simp only [takeParts, some_passed, ne_eq, not_false_eq_true, decide_true, if_true] at turned
      obtain ⟨used, size, scanned⟩ := turned
      refine ⟨_, scanned, ⟨before, seq, [⟨.last, bytes⟩], split, ?_⟩, ?_⟩
      · rw [reach_part ⟨.last, bytes⟩ used todo [] (by simpa using size)]
        rfl
      · simp only [partsSize, List.map_cons, List.sum_cons, Part.size, blockMetaSize, headerSize] at size
        rw [List.length_append]
        omega
  | middle passed bytes value todo seq ahead after rest ih =>
    cases fuel with
    | zero => simp at enough
    | succ fuel =>
      obtain ⟨padded, tight, turned⟩ := scan_head image started before _ ahead split fuel passed
      have bare : padded = false := tight ⟨.middle, bytes⟩ rfl (.inr rfl)
      subst bare
      simp only [takeParts, some_passed, ne_eq, not_false_eq_true, decide_true, if_true, Bool.false_and, Bool.false_eq_true, if_false] at turned
      have grown : passed ++ bytes ≠ [] := fun empty => some_passed (List.append_eq_nil_iff.mp empty).1
      obtain ⟨offset, scanned, stands, long⟩ := ih grown (before ++ [⟨seq, [⟨.middle, bytes⟩]⟩]) (by rw [split]; simp) fuel
        (by simpa using enough)
      rw [List.length_append, List.length_singleton, Nat.add_mul (before.length + 1) 1, Nat.one_mul] at scanned long
      refine ⟨offset, by rw [turned]; exact scanned, stands, ?_⟩
      have fits := parts_fit image before ⟨seq, [⟨.middle, bytes⟩]⟩ ahead split
      simp only [partsSize, List.map_cons, List.map_nil, List.sum_cons, List.sum_nil, Part.size, blockMetaSize, headerSize] at fits
      rw [List.length_append] at long
      omega

-- From the head of what comes after a block that has been used up.
theorem scan_past (started : startSeq ≠ 0) (before : List Block) (seq : Nat) (done : List Part) (after : List Block)
    (split : blocks = before ++ ⟨seq, done ++ []⟩ :: after) (fuel : Nat) (result : Scanned)
    (scanned : scanFrom crc startSeq blockSize file fuel ((before.length + 1 + 1) * blockSize) [] = some result) :
    scanFrom crc startSeq blockSize file (fuel + 1) ((before.length + 1) * blockSize + reach done) [] = some result := by
  have next : (before.length + 1 + 1) * blockSize = (before.length + 1) * blockSize + blockSize := by
    rw [Nat.add_mul (before.length + 1) 1, Nat.one_mul]
  rcases scan_at image started before seq done [] after split fuel [] with ⟨-, full⟩ | ⟨padded, -, turned⟩
  · rw [full, ← next]
    exact scan_mono crc startSeq blockSize file fuel (fuel + 1) _ [] result scanned (Nat.le_succ fuel)
  · simp only [takeParts, ne_eq, not_true_eq_false, decide_false, Bool.and_false, Bool.false_eq_true, if_false] at turned
    rw [turned, ← next]
    exact scanned

theorem scan_end (fuel : Nat) (enough : 0 < fuel) :
    scanFrom crc startSeq blockSize file fuel ((blocks.length + 1) * blockSize) [] = some .eof := by
  cases fuel with
  | zero => omega
  | succ fuel => rw [scanFrom, if_pos (Nat.le_of_eq (image_length image)), if_pos rfl]

omit image in
theorem reach_le (done : List Part) : reach done ≤ blockMetaSize + partsSize done := by
  rw [reach]
  split <;> omega

omit image in
theorem parts_size_one (part : Part) : partsSize [part] = headerSize + part.bytes.length := by
  simp [partsSize, Part.size]

omit image in
theorem reach_snoc (done : List Part) (part : Part) : reach (done ++ [part]) = blockMetaSize + partsSize done + (headerSize + part.bytes.length) := by
  rw [reach, if_neg (by simp), parts_size_append, parts_size_one]
  omega

-- What a scan from a place finds.
def Finds (blockSize : Nat) (blocks : List Block) (offset : Nat) (values : List Bytes) (result : Scanned) : Prop :=
  match values with
  | [] => result = .eof
  | value :: values =>
      ∃ next todo after, result = .found value next ∧ Stands blockSize blocks next todo after ∧ offset + value.length < next ∧
        Spells todo after values

omit image in
theorem finds_from (values : List Bytes) (offset later : Nat) (result : Scanned) (finds : Finds blockSize blocks later values result)
    (ahead : offset ≤ later) : Finds blockSize blocks offset values result := by
  cases values with
  | nil => exact finds
  | cons value values =>
    obtain ⟨next, todo, after, same, stands, long, rest⟩ := finds
    exact ⟨next, todo, after, same, stands, by omega, rest⟩

-- A scan finds the first of the values that are spelt from its place on.
theorem scan_spells (started : startSeq ≠ 0) (todo : List Part) (after : List Block) (values : List Bytes) (spelt : Spells todo after values)
    (before : List Block) (seq : Nat) (done : List Part) (split : blocks = before ++ ⟨seq, done ++ todo⟩ :: after) (fuel : Nat)
    (enough : after.length + 2 ≤ fuel) :
    ∃ result, scanFrom crc startSeq blockSize file fuel ((before.length + 1) * blockSize + reach done) [] = some result ∧
      Finds blockSize blocks ((before.length + 1) * blockSize + reach done) values result := by
  obtain ⟨fuel, rfl⟩ : ∃ less, fuel = less + 1 := ⟨fuel - 1, by omega⟩
  have fits : blockMetaSize + partsSize (done ++ todo) ≤ blockSize := parts_fit image before _ after split
  have reached := reach_le done
  rw [parts_size_append] at fits
  have next : (before.length + 1 + 1) * blockSize = (before.length + 1) * blockSize + blockSize := by
    rw [Nat.add_mul (before.length + 1) 1, Nat.one_mul]
  induction spelt generalizing before seq done fuel with
  | done =>
    refine ⟨.eof, scan_past image started before seq done [] split fuel .eof ?_, rfl⟩
    have count : blocks.length = before.length + 1 := by rw [split]; simp
    rw [← count]
    exact scan_end image fuel (by simp only [List.length_nil] at enough; omega)
  | next block after values rest ih =>
    obtain ⟨fuel, rfl⟩ : ∃ less, fuel = less + 1 := ⟨fuel - 1, by omega⟩
    have moved : blocks = (before ++ [⟨seq, done⟩]) ++ ⟨block.seq, [] ++ block.parts⟩ :: after := by rw [split]; simp
    have count : (before ++ [(⟨seq, done⟩ : Block)]).length = before.length + 1 := by simp
    obtain ⟨result, scanned, finds⟩ := ih (before ++ [⟨seq, done⟩]) block.seq [] moved fuel (by simpa using enough)
      (by rw [← parts_size_append]; exact parts_fit image _ _ after moved) (reach_le []) (by rw [Nat.add_mul _ 1, Nat.one_mul])
    rw [count] at scanned finds
    simp only [reach, if_true, Nat.add_zero] at scanned finds
    refine ⟨result, scan_past image started before seq done _ split (fuel + 1) result scanned, finds_from values _ _ result finds ?_⟩
    omega
  | full bytes todo after values rest ih =>
    rcases scan_at image started before seq done _ after split fuel [] with ⟨wrong, -⟩ | ⟨padded, -, turned⟩
    · cases wrong
    · simp only [takeParts, ne_eq, not_true_eq_false, decide_false, Bool.false_eq_true, if_false, List.nil_append] at turned
      obtain ⟨used, size, scanned⟩ := turned
      have ends := reach_part ⟨.full, bytes⟩ used todo done size
      refine ⟨_, scanned, _, todo, after, rfl, ⟨before, seq, done ++ [⟨.full, bytes⟩], by rw [split]; simp, by rw [ends]⟩, ?_, rest⟩
      rw [ends, reach_snoc]
      simp only [headerSize]
      omega
  | split bytes value todo ahead after values goes rest ih =>
    rcases scan_at image started before seq done _ ahead split fuel [] with ⟨wrong, -⟩ | ⟨padded, tight, turned⟩
    · cases wrong
    · have bare : padded = false := tight ⟨.first, bytes⟩ (by simp) (.inl rfl)
      subst bare
      simp only [takeParts, ne_eq, not_true_eq_false, decide_false, Bool.false_eq_true, if_false, List.nil_append, Bool.and_self] at turned
      have some_bytes : bytes ≠ [] := by
        obtain ⟨pad, -, sized, -⟩ := image_whole image before _ ahead split
        exact (sized ⟨.first, bytes⟩ (by simp)).1
      obtain ⟨offset, scanned, stands, long⟩ := scan_continues image started bytes value todo ahead after goes some_bytes
        (before ++ [⟨seq, done ++ [⟨.first, bytes⟩]⟩]) (by rw [split]; simp) fuel (by omega)
      have count : (before ++ [(⟨seq, done ++ [⟨.first, bytes⟩]⟩ : Block)]).length = before.length + 1 := by simp
      rw [count] at scanned long
      refine ⟨_, by rw [turned, ← next]; exact scanned, offset, todo, after, rfl, stands, ?_, rest⟩
      rw [parts_size_one] at fits
      simp only [headerSize] at fits
      omega

end Image

end PaxosStore.DbComm
