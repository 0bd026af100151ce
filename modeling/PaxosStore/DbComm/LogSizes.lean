import PaxosStore.DbComm.LogDumps

set_option autoImplicit false

namespace PaxosStore.DbComm

open PaxosStore.Codec
open PaxosStore.PaxosKv

-- How a writer is configured: the checks of CreateADirectIOWriteInfo, blocks that a length
-- of two bytes can describe, three blocks of buffer, and block numbers that do not wrap.
structure Tuned (blockSize maxBuf minTail startSeq : Nat) : Prop where
  paged : pageSize ≤ blockSize
  limit : blockSize ≤ 2 ^ 16
  header : headerSize ≤ minTail
  short : minTail < blockSize
  whole : maxBuf % blockSize = 0
  roomy : 3 * blockSize ≤ maxBuf
  bounded : maxBuf < 2 ^ 31
  started : startSeq ≠ 0
  numbered : startSeq + 2 ^ 32 < 2 ^ 64

-- More than any dump of the values can take.
def Load.bound (blockSize : Nat) : Load → Nat
  | .one valLen => 2 * valLen + 5 * blockSize
  | .batch valLens => (valLens.map (fun valLen => 2 * valLen + 3 * blockSize)).sum + 4 * blockSize

section Sizes

variable {blockSize maxBuf minTail startSeq : Nat} (tuned : Tuned blockSize maxBuf minTail startSeq)
include tuned

theorem tuned_large : blockMetaSize + headerSize < blockSize := Nat.lt_of_lt_of_le (by decide) tuned.paged

theorem tuned_positive : 0 < blockSize := Nat.lt_of_lt_of_le (by decide) tuned.paged

theorem whole_blocks_bound (valLen : Nat) : wholeBlocks blockSize 0 valLen ≤ 2 * valLen + blockSize := by
  have large : 4096 ≤ blockSize := tuned.paged
  have room : blockSize ≤ 2 * freshRoom blockSize := by
    simp only [freshRoom, blockMetaSize, headerSize]
    omega
  have parts := Nat.div_add_mod valLen (freshRoom blockSize)
  have count : blockSize * (valLen / freshRoom blockSize) ≤ 2 * (freshRoom blockSize * (valLen / freshRoom blockSize)) := by
    rw [← Nat.mul_assoc]
    exact Nat.mul_le_mul_right _ room
  rw [whole_blocks_eq]
  split
  · have rest : valLen % freshRoom blockSize < freshRoom blockSize := Nat.mod_lt _ (fresh_room_positive blockSize (tuned_large tuned))
    simp only [blockMetaSize, headerSize]
    omega
  · omega

theorem whole_blocks_longer (valLen : Nat) (some_value : 0 < valLen) : valLen < wholeBlocks blockSize 0 valLen := by
  have parts := Nat.div_add_mod valLen (freshRoom blockSize)
  have room : freshRoom blockSize < blockSize := by
    have large := tuned_large tuned
    simp only [freshRoom, blockMetaSize, headerSize] at large ⊢
    omega
  rw [whole_blocks_eq]
  split
  · have count := Nat.mul_le_mul_right (valLen / freshRoom blockSize) (Nat.le_of_lt room)
    simp only [blockMetaSize, headerSize]
    omega
  · have some_blocks : 0 < valLen / freshRoom blockSize := by
      by_contra none_left
      have zero : valLen / freshRoom blockSize = 0 := Nat.eq_zero_of_not_pos none_left
      rw [zero, Nat.mul_zero] at parts
      omega
    have count := Nat.mul_lt_mul_of_pos_right room some_blocks
    omega

-- Where a value may begin: at the head of a block, or behind the head with room for more
-- than the tail.
def Enters (blockSize minTail blkOffset : Nat) : Prop :=
  blkOffset + minTail < blockSize ∧ (blkOffset = 0 ∨ blockMetaSize + headerSize ≤ blkOffset)

theorem dump_size_some (blkOffset valLen : Nat) (enters : Enters blockSize minTail blkOffset) (some_value : 0 < valLen) :
    ∃ size, calculateDumpSize blockSize blkOffset valLen = some size ∧ valLen < size ∧ size ≤ 2 * valLen + 2 * blockSize := by
  have large := tuned_large tuned
  have header := tuned.header
  obtain ⟨tail, start⟩ := enters
  have longer := whole_blocks_longer tuned
  have bound := whole_blocks_bound tuned
  rw [calculateDumpSize, asserting_pos _ _ (by omega), if_neg (by omega)]
  dsimp only
  rw [asserting_pos _ _ ⟨by omega, large⟩]
  by_cases head : blkOffset = 0
  · rw [if_neg (by omega)]
    have most := bound valLen
    exact ⟨_, rfl, longer valLen some_value, by omega⟩
  · have behind : blockMetaSize + headerSize ≤ blkOffset := start.resolve_left head
    rw [if_pos (by omega), asserting_pos _ _ (by omega)]
    by_cases fits : valLen ≤ blockSize - blkOffset - headerSize
    · rw [if_pos fits]
      simp only [headerSize] at header fits ⊢
      exact ⟨_, rfl, by omega, by omega⟩
    · rw [if_neg fits, whole_blocks_from]
      have more := longer (valLen - (blockSize - blkOffset - headerSize)) (by omega)
      have most := bound (valLen - (blockSize - blkOffset - headerSize))
      exact ⟨_, rfl, by omega, by omega⟩

theorem whole_blocks_end (valLen : Nat) :
    wholeBlocks blockSize 0 valLen % blockSize = 0 ∨ blockMetaSize + headerSize ≤ wholeBlocks blockSize 0 valLen % blockSize := by
  rw [whole_blocks_eq, Nat.mul_add_mod]
  split
  · right
    have rest : valLen % freshRoom blockSize < freshRoom blockSize := Nat.mod_lt _ (fresh_room_positive blockSize (tuned_large tuned))
    have inner : blockMetaSize + headerSize + valLen % freshRoom blockSize < blockSize := by
      have large := tuned_large tuned
      simp only [freshRoom, blockMetaSize, headerSize] at rest large ⊢
      omega
    rw [Nat.mod_eq_of_lt inner]
    omega
  · left
    exact Nat.zero_mod _

-- A value ends at the end of a block or behind the head of one.
theorem dump_size_ends (blkOffset valLen size : Nat) (enters : Enters blockSize minTail blkOffset) (some_value : 0 < valLen)
    (sized : calculateDumpSize blockSize blkOffset valLen = some size) :
    (blkOffset + size) % blockSize = 0 ∨ blockMetaSize + headerSize ≤ (blkOffset + size) % blockSize := by
  have large := tuned_large tuned
  have header := tuned.header
  obtain ⟨tail, start⟩ := enters
  rw [calculateDumpSize, asserting_pos _ _ (by omega), if_neg (by omega)] at sized
  dsimp only at sized
  rw [asserting_pos _ _ ⟨by omega, large⟩] at sized
  by_cases head : blkOffset = 0
  · rw [if_neg (by omega)] at sized
    cases sized
    rw [head, Nat.zero_add]
    exact whole_blocks_end tuned valLen
  · have behind : blockMetaSize + headerSize ≤ blkOffset := start.resolve_left head
    rw [if_pos (by omega), asserting_pos _ _ (by omega)] at sized
    by_cases fits : valLen ≤ blockSize - blkOffset - headerSize
    · rw [if_pos fits] at sized
      cases sized
      by_cases full : blkOffset + (valLen + headerSize) = blockSize
      · left
        rw [full, Nat.mod_self]
      · right
        rw [Nat.mod_eq_of_lt (by omega)]
        omega
    · rw [if_neg fits, whole_blocks_from] at sized
      cases sized
      have total : ∀ more, blkOffset + (blockSize - blkOffset + more) = blockSize + more := fun more => by omega
      rw [total, Nat.add_mod_left]
      exact whole_blocks_end tuned _

theorem enters_head : Enters blockSize minTail 0 := ⟨by have short := tuned.short; omega, .inl rfl⟩

-- Where the next value of a batch begins, and what it takes from `at_` on.
def nextSize (blockSize minTail blkOffset valLen : Nat) : Option Nat :=
  if blkOffset + minTail < blockSize then calculateDumpSize blockSize blkOffset valLen
  else (calculateDumpSize blockSize 0 valLen).map (· + (blockSize - blkOffset))

theorem next_size_some (blkOffset valLen : Nat) (inner : blkOffset < blockSize) (start : blkOffset = 0 ∨ blockMetaSize + headerSize ≤ blkOffset)
    (some_value : 0 < valLen) :
    ∃ size, nextSize blockSize minTail blkOffset valLen = some size ∧ valLen < size ∧ size ≤ 2 * valLen + 3 * blockSize ∧
      ((blkOffset + size) % blockSize = 0 ∨ blockMetaSize + headerSize ≤ (blkOffset + size) % blockSize) := by
  rw [nextSize]
  by_cases room : blkOffset + minTail < blockSize
  · rw [if_pos room]
    obtain ⟨size, sized, longer, bound⟩ := dump_size_some tuned blkOffset valLen ⟨room, start⟩ some_value
    exact ⟨size, sized, longer, by omega, dump_size_ends tuned blkOffset valLen size ⟨room, start⟩ some_value sized⟩
  · rw [if_neg room]
    obtain ⟨size, sized, longer, bound⟩ := dump_size_some tuned 0 valLen (enters_head tuned) some_value
    have ends := dump_size_ends tuned 0 valLen size (enters_head tuned) some_value sized
    rw [Nat.zero_add] at ends
    refine ⟨size + (blockSize - blkOffset), by rw [sized]; rfl, by omega, by omega, ?_⟩
    rw [show blkOffset + (size + (blockSize - blkOffset)) = blockSize + size by omega, Nat.add_mod_left]
    exact ends

omit tuned in
theorem batch_size_cons (offset valLen dumped : Nat) (rest : List Nat) (some_value : 0 < valLen) (size : Nat)
    (sized : nextSize blockSize minTail ((offset + dumped) % blockSize) valLen = some size) (longer : valLen < size) :
    batchDumpSize blockSize minTail offset (valLen :: rest) dumped = batchDumpSize blockSize minTail offset rest (dumped + size) := by
  rw [batchDumpSize, asserting_pos _ _ some_value]
  dsimp only
  rw [nextSize] at sized
  rw [sized, Option.bind_some, asserting_pos _ _ (by omega)]

theorem batch_size_some (offset : Nat) (valLens : List Nat) (some_values : ∀ valLen ∈ valLens, 0 < valLen) (dumped : Nat)
    (start : (offset + dumped) % blockSize = 0 ∨ blockMetaSize + headerSize ≤ (offset + dumped) % blockSize) :
    ∃ size, batchDumpSize blockSize minTail offset valLens dumped = some size ∧ dumped ≤ size ∧ (valLens ≠ [] → dumped < size) ∧
      size ≤ dumped + (valLens.map (fun valLen => 2 * valLen + 3 * blockSize)).sum := by
  induction valLens generalizing dumped with
  | nil => exact ⟨dumped, rfl, Nat.le_refl _, fun none_left => absurd rfl none_left, Nat.le_refl _⟩
  | cons valLen rest ih =>
      have some_value := some_values valLen (List.mem_cons_self ..)
      obtain ⟨more, sized, longer, bound, ends⟩ := next_size_some tuned ((offset + dumped) % blockSize) valLen
        (Nat.mod_lt _ (tuned_positive tuned)) start some_value
      have place : ((offset + dumped) % blockSize + more) % blockSize = (offset + (dumped + more)) % blockSize := by
        rw [Nat.mod_add_mod, Nat.add_assoc]
      rw [place] at ends
      obtain ⟨size, batch, least, _, most⟩ := ih (fun other member => some_values other (List.mem_cons_of_mem _ member)) (dumped + more) ends
      refine ⟨size, (batch_size_cons offset valLen dumped rest some_value more sized longer).trans batch, by omega, fun _ => by omega, ?_⟩
      rw [List.map_cons, List.sum_cons]
      omega

end Sizes

-- What CalculateDumpSize says of the values at the writer's place.
def WriteInfo.dumpOf (info : WriteInfo) : Load → Option Nat
  | .one valLen => calculateDumpSize info.blockSize (info.offset % info.blockSize) valLen
  | .batch valLens => batchDumpSize info.blockSize info.minTail info.offset valLens 0

def Load.Filled : Load → Prop
  | .one valLen => 0 < valLen
  | .batch valLens => valLens ≠ [] ∧ ∀ valLen ∈ valLens, 0 < valLen

-- The size of the blocks that a dump touches.
def WriteInfo.estimateOf (info : WriteInfo) (dumpSize : Nat) : Nat :=
  (dumpSize + info.offset % info.blockSize + info.blockSize - 1) / info.blockSize * info.blockSize

theorem estimate_bounds (info : WriteInfo) (dumpSize : Nat) (positive : 0 < info.blockSize) :
    info.estimateOf dumpSize % info.blockSize = 0 ∧ dumpSize + info.offset % info.blockSize ≤ info.estimateOf dumpSize ∧
      info.estimateOf dumpSize < dumpSize + info.offset % info.blockSize + info.blockSize := by
  have parts := Nat.div_add_mod (dumpSize + info.offset % info.blockSize + info.blockSize - 1) info.blockSize
  have rest := Nat.mod_lt (dumpSize + info.offset % info.blockSize + info.blockSize - 1) positive
  rw [Nat.mul_comm] at parts
  rw [WriteInfo.estimateOf]
  exact ⟨Nat.mul_mod_left _ _, by omega, by omega⟩

theorem sizes_some {fileSeq : Nat} (info : WriteInfo) (tuned : Tuned info.blockSize info.maxBuf info.minTail fileSeq)
    (enters : Enters info.blockSize info.minTail (info.offset % info.blockSize)) (load : Load) (filled : load.Filled)
    (bound : load.bound info.blockSize < 2 ^ 31) :
    ∃ dump, info.dumpOf load = some dump ∧ 0 < dump ∧ info.estimateOf (dump + info.metaSize) ≤ load.bound info.blockSize ∧
      info.sizes load = some (dump + info.metaSize, info.estimateOf (dump + info.metaSize)) := by
  have positive := tuned_positive tuned
  have inner := Nat.mod_lt info.offset positive
  have estimate := fun dump => (estimate_bounds info (dump + info.metaSize) positive).2.2
  have start_size : info.metaSize ≤ info.blockSize := by
    rw [WriteInfo.metaSize]
    split <;> omega
  cases load with
  | one valLen =>
      obtain ⟨dump, sized, longer, most⟩ := dump_size_some tuned (info.offset % info.blockSize) valLen enters filled
      rw [Load.bound] at bound
      have short := estimate dump
      refine ⟨dump, sized, by omega, by rw [Load.bound]; omega, ?_⟩
      rw [WriteInfo.sizes]
      dsimp only
      rw [asserting_pos _ _ enters.1, sized, Option.bind_some, asserting_pos _ _ ⟨by omega, by omega⟩, WriteInfo.estimateOf]
  | batch valLens =>
      obtain ⟨dump, sized, _, some_dump, most⟩ := batch_size_some tuned info.offset valLens filled.2 0 enters.2
      have least := some_dump filled.1
      rw [Load.bound] at bound
      have short := estimate dump
      refine ⟨dump, sized, least, by rw [Load.bound]; omega, ?_⟩
      rw [WriteInfo.sizes]
      dsimp only
      rw [sized, Option.bind_some, asserting_pos _ _ ⟨by omega, by omega⟩, WriteInfo.estimateOf]

end PaxosStore.DbComm
