import PaxosStore.DbComm.LogReads

set_option autoImplicit false

namespace PaxosStore.DbComm

open PaxosStore.Codec
open PaxosStore.PaxosKv

-- What ScanBlockMetaInfo leaves: an error, or llBlkSeq and iOffset.
inductive ScanDone where
  | failed (code : Int)
  | found (blkSeq offset : Nat)
deriving DecidableEq, Repr

section Scanning

variable (crc : Crc32c) (file : Bytes)

-- The loop body once pBuffer is at a block; `again` is the next turn of the loop.
def metaTurn (info : ReadInfo) (pos next blkSeq : Nat) (again : ReadInfo → Nat → Nat → Nat → Option ScanDone) : Option ScanDone :=
  let (record, used) := pickleLevelDBRecord crc (pread info.buffer (next - pos) pos) true
  asserting (0 < used ∧ pos + used < next) <|
    let goOn := again { info with offset := info.offset + info.blockSize } next
      (if next = info.buffer.length then info.buffer.length else next + info.blockSize)
    if record.kind = .blockMeta then
      (pickleBlockMetaInfo record.value).bind fun seq =>
        asserting (info.startSeq ≠ 0) <|
          if isDeprecateBlock info.startSeq seq then asserting (info.directOffset ≤ info.offset) (some (.found blkSeq info.offset))
          else goOn seq
    else goOn blkSeq

def metaLoop : Nat → ReadInfo → Nat → Nat → Nat → Option ScanDone
  | 0, _, _, _, _ => none
  | fuel + 1, info, pos, next, blkSeq =>
      if pos = next then
        let (info, size) := { info with directOffset := info.directOffset + info.buffer.length }.reload file info.maxBuf
        if size ≤ 0 then
          if size = 0 then asserting (info.directOffset ≤ info.offset) (some (.found blkSeq info.offset)) else some (.failed size)
        else asserting (info.blockSize ≤ info.buffer.length) (metaTurn crc info 0 info.blockSize blkSeq (metaLoop fuel))
      else metaTurn crc info pos next blkSeq (metaLoop fuel)

def scanBlockMetaInfo (info : ReadInfo) (blkSeq : Nat) : Option ScanDone :=
  asserting (0 < info.blockSize ∧ info.blockSize = info.offset ∧ info.offset = info.directOffset ∧ info.blockSize ≤ info.maxBuf) <|
    let pos := info.offset - info.directOffset
    asserting (info.nextBlockPos pos ≤ info.buffer.length) (metaLoop crc file (file.length + 2) info pos (info.nextBlockPos pos) blkSeq)

end Scanning

-- What ReadMetaInfo returns: an error, 1 for an old file, or its three outputs.
inductive MetaRead where
  | failed (code : Int)
  | oldFormat
  | found (blockSize blkSeq offset : Nat)
deriving DecidableEq, Repr

def readMetaInfo (crc : Crc32c) (file : Bytes) (directIOBufSize : Int) : Option MetaRead :=
  asserting (0 ≤ directIOBufSize) <|
    (createADirectIOReadInfo file directIOBufSize.toNat).bind fun
    | .refused code =>
        if code = LogError.poorRead then
          asserting (0 < file.length) (some (if file.length < pageSize then .oldFormat else .failed code))
        else some (if code = 1 then .oldFormat else .failed code)
    | .reader info =>
        asserting (info.blockSize = info.offset) <|
          (scanBlockMetaInfo crc file info info.startSeq).map fun
          | .failed code => .failed code
          | .found blkSeq offset => .found info.blockSize blkSeq offset

-- The blocks of a file one after the other, whatever buffer they are read with.
def metaScan (crc : Crc32c) (startSeq blockSize : Nat) (file : Bytes) : Nat → Nat → Nat → Option ScanDone
  | 0, _, _ => none
  | fuel + 1, index, blkSeq =>
      let block := pread file blockSize (index * blockSize)
      if block = [] then some (.found blkSeq (index * blockSize))
      else if block.length < blockSize then some (.failed LogError.poorRead)
      else
        let (record, used) := pickleLevelDBRecord crc block true
        asserting (0 < used ∧ used < blockSize) <|
          if record.kind = .blockMeta then
            (pickleBlockMetaInfo record.value).bind fun seq =>
              if isDeprecateBlock startSeq seq then some (.found blkSeq (index * blockSize))
              else metaScan crc startSeq blockSize file fuel (index + 1) seq
          else metaScan crc startSeq blockSize file fuel (index + 1) blkSeq

section Loop

variable {crc : Crc32c} {blockSize startSeq : Nat} {file : Bytes}

-- A reader in the loop: its buffer holds whole blocks of the file, and its offset is
-- that of the block it stands at.
structure Scanning (blockSize startSeq : Nat) (file : Bytes) (info : ReadInfo) (pos index : Nat) : Prop where
  block : info.blockSize = blockSize
  seq : info.startSeq = startSeq
  offset : info.offset = index * blockSize
  place : info.directOffset + pos = index * blockSize
  within : pos ≤ info.buffer.length
  aligned : pos % blockSize = 0 ∧ info.buffer.length % blockSize = 0
  buffer : info.buffer = pread file info.buffer.length info.directOffset

theorem meta_turn_scan (positive : 0 < blockSize) (started : startSeq ≠ 0) (info : ReadInfo) (pos index blkSeq fuel : Nat)
    (scanning : Scanning blockSize startSeq file info pos index) (inside : pos < info.buffer.length)
    (again : ∀ info next index blkSeq, Scanning blockSize startSeq file info next index →
      metaLoop crc file fuel info next (if next = info.buffer.length then info.buffer.length else next + blockSize) blkSeq =
        metaScan crc startSeq blockSize file fuel index blkSeq) :
    metaTurn crc info pos (pos + blockSize) blkSeq (metaLoop crc file fuel) =
      metaScan crc startSeq blockSize file (fuel + 1) index blkSeq := by
  have room := multiple_above blockSize pos info.buffer.length scanning.aligned.1 scanning.aligned.2 inside
  have bytes : pread info.buffer blockSize pos = pread file blockSize (index * blockSize) := by
    rw [scanning.buffer, pread_pread _ _ _ _ _ (by omega), scanning.place]
  have size : (pread file blockSize (index * blockSize)).length = blockSize := by
    rw [← bytes, pread_length]
    omega
  have filled : pread file blockSize (index * blockSize) ≠ [] := List.ne_nil_of_length_pos (by omega)
  have next : ∀ blkSeq, metaLoop crc file fuel { info with offset := info.offset + info.blockSize } (pos + blockSize)
      (if pos + blockSize = info.buffer.length then info.buffer.length else pos + blockSize + info.blockSize) blkSeq =
        metaScan crc startSeq blockSize file fuel (index + 1) blkSeq := by
    intro blkSeq
    rw [show pos + blockSize + info.blockSize = pos + blockSize + blockSize by rw [scanning.block]]
    refine again _ (pos + blockSize) (index + 1) blkSeq ⟨scanning.block, scanning.seq, ?_, ?_, room, ⟨?_, scanning.aligned.2⟩, scanning.buffer⟩
    · dsimp only
      rw [scanning.offset, scanning.block, Nat.add_mul, Nat.one_mul]
    · dsimp only
      rw [← Nat.add_assoc, scanning.place, Nat.add_mul, Nat.one_mul]
    · rw [Nat.add_mod_right]
      exact scanning.aligned.1
  rw [metaTurn, metaScan, Nat.add_sub_cancel_left, bytes]
  dsimp only
  rw [if_neg filled, if_neg (Nat.not_lt.mpr (Nat.le_of_eq size.symm))]
  generalize pickleLevelDBRecord crc (pread file blockSize (index * blockSize)) true = read
  obtain ⟨record, used⟩ := read
  dsimp only
  have same : (0 < used ∧ pos + used < pos + blockSize) ↔ 0 < used ∧ used < blockSize := by omega
  by_cases fits : 0 < used ∧ used < blockSize
  · rw [asserting_pos _ _ (same.mpr fits), asserting_pos _ _ fits]
    by_cases headed : record.kind = .blockMeta
    · rw [if_pos headed, if_pos headed]
      refine congrArg _ (funext fun seq => ?_)
      have same_start : isDeprecateBlock info.startSeq seq = isDeprecateBlock startSeq seq := by rw [scanning.seq]
      rw [asserting_pos _ _ (by rw [scanning.seq]; exact started), same_start]
      by_cases old : isDeprecateBlock startSeq seq = true
      · rw [if_pos old, if_pos old, asserting, if_pos (by rw [scanning.offset, ← scanning.place]; exact Nat.le_add_right _ _), scanning.offset]
      · rw [if_neg old, if_neg old]
        exact next seq
    · rw [if_neg headed, if_neg headed]
      exact next blkSeq
  · rw [asserting, if_neg (fun other => fits (same.mp other)), asserting, if_neg fits]

-- Where the buffer ends, the next one is read, or the file ends there.
theorem meta_reload (positive : 0 < blockSize) (info : ReadInfo) (index : Nat)
    (scanning : Scanning blockSize startSeq file info info.buffer.length index) (expected : Nat) :
    (pread file blockSize (index * blockSize) = [] ∧
        { info with directOffset := info.directOffset + info.buffer.length }.reload file expected =
          ({ info with directOffset := index * blockSize, buffer := [] }, 0)) ∨
      (pread file blockSize (index * blockSize) ≠ [] ∧ (pread file blockSize (index * blockSize)).length < blockSize ∧
        { info with directOffset := info.directOffset + info.buffer.length }.reload file expected =
          ({ info with directOffset := index * blockSize, buffer := [] }, LogError.poorRead)) ∨
      ((pread file blockSize (index * blockSize)).length = blockSize ∧ ∃ buffer, blockSize ≤ buffer.length ∧
        { info with directOffset := info.directOffset + info.buffer.length }.reload file expected =
          ({ info with directOffset := index * blockSize, buffer := buffer }, (buffer.length : Int)) ∧
        Scanning blockSize startSeq file { info with directOffset := index * blockSize, buffer := buffer } 0 index) := by
  obtain ⟨size, large, reload⟩ : ∃ size, blockSize ≤ size ∧
      { info with directOffset := info.directOffset + info.buffer.length }.reload file expected =
        if (pread file size (index * blockSize)).length < blockSize then
          ({ info with directOffset := index * blockSize, buffer := [] },
            if pread file size (index * blockSize) = [] then 0 else LogError.poorRead)
        else
          ({ info with
              directOffset := index * blockSize
              buffer := (pread file size (index * blockSize)).take ((pread file size (index * blockSize)).length / blockSize * blockSize) },
            (((pread file size (index * blockSize)).take ((pread file size (index * blockSize)).length / blockSize * blockSize)).length : Int)) := by
    refine ⟨max (min (min expected info.maxBuf) (info.buffer.length * 2)) blockSize, Nat.le_max_right _ _, ?_⟩
    rw [scanning.place, ReadInfo.reload]
    dsimp only
    rw [scanning.block]
  have got : (pread file size (index * blockSize)).length = min size (file.length - index * blockSize) := pread_length file size _
  have one : (pread file blockSize (index * blockSize)).length = min blockSize (file.length - index * blockSize) := pread_length file blockSize _
  rw [reload]
  by_cases short : (pread file size (index * blockSize)).length < blockSize
  · rw [if_pos short]
    by_cases nothing : pread file size (index * blockSize) = []
    · rw [if_pos nothing]
      rw [nothing, List.length_nil] at got
      exact .inl ⟨List.eq_nil_of_length_eq_zero (by omega), rfl⟩
    · rw [if_neg nothing]
      have some_ := List.length_pos_iff.mpr nothing
      exact .inr (.inl ⟨List.ne_nil_of_length_pos (by omega), by omega, rfl⟩)
  · rw [if_neg short]
    refine .inr (.inr ⟨by omega, _, ?_, rfl, ?_⟩)
    · rw [List.length_take]
      have whole := Nat.div_pos (Nat.le_of_not_lt short) positive
      have least := Nat.le_mul_of_pos_left blockSize whole
      have most := Nat.div_mul_le_self (pread file size (index * blockSize)).length blockSize
      omega
    · have most := Nat.div_mul_le_self (pread file size (index * blockSize)).length blockSize
      have taken : ((pread file size (index * blockSize)).take ((pread file size (index * blockSize)).length / blockSize * blockSize)).length =
          (pread file size (index * blockSize)).length / blockSize * blockSize := by
        rw [List.length_take]
        omega
      refine ⟨scanning.block, scanning.seq, scanning.offset, rfl, Nat.zero_le _, ⟨Nat.zero_mod _, ?_⟩, ?_⟩
      · dsimp only
        rw [taken, Nat.mul_mod_left]
      · dsimp only
        rw [taken]
        have inner := pread_pread file size (index * blockSize) ((pread file size (index * blockSize)).length / blockSize * blockSize) 0 (by omega)
        rw [Nat.add_zero, pread, List.drop_zero] at inner
        exact inner

theorem meta_loop_scan (positive : 0 < blockSize) (started : startSeq ≠ 0) (fuel : Nat) (info : ReadInfo) (pos index blkSeq : Nat)
    (scanning : Scanning blockSize startSeq file info pos index) :
    metaLoop crc file fuel info pos (if pos = info.buffer.length then info.buffer.length else pos + blockSize) blkSeq =
      metaScan crc startSeq blockSize file fuel index blkSeq := by
  induction fuel generalizing info pos index blkSeq with
  | zero => rfl
  | succ fuel ih =>
      rw [metaLoop]
      by_cases past : pos = info.buffer.length
      · subst past
        rw [if_pos rfl, if_pos rfl]
        rcases meta_reload positive info index scanning info.maxBuf with ⟨empty, reload⟩ | ⟨filled, short, reload⟩ | ⟨size, buffer, large, reload, later⟩
        · rw [reload]
          dsimp only
          rw [if_pos (Int.le_refl _), if_pos rfl, asserting_pos _ _ (Nat.le_of_eq scanning.offset.symm), metaScan]
          dsimp only
          rw [if_pos empty, scanning.offset]
        · rw [reload]
          dsimp only
          rw [if_pos (by decide), if_neg (by decide), metaScan]
          dsimp only
          rw [if_neg filled, if_pos short]
        · rw [reload]
          dsimp only
          have turn := @meta_turn_scan crc blockSize startSeq file positive started _ 0 index blkSeq fuel later (by dsimp only; omega)
            fun info next index blkSeq scanning => ih info next index blkSeq scanning
          rw [Nat.zero_add] at turn
          rw [if_neg (by omega), asserting_pos _ _ (by rw [scanning.block]; exact large), ← turn, scanning.block]
      · have inside := scanning.within
        rw [if_neg past, if_neg (by omega)]
        exact meta_turn_scan positive started info pos index blkSeq fuel scanning (by omega) fun info next index blkSeq scanning =>
          ih info next index blkSeq scanning

theorem scan_block_meta_info (positive : 0 < blockSize) (started : startSeq ≠ 0) (maxBuf : Nat) (roomy : blockSize ≤ maxBuf) (blkSeq : Nat) :
    scanBlockMetaInfo crc file ⟨false, false, blockSize, startSeq, maxBuf, blockSize, blockSize, [], 0⟩ blkSeq =
      metaScan crc startSeq blockSize file (file.length + 2) 1 blkSeq := by
  have scanning : Scanning blockSize startSeq file ⟨false, false, blockSize, startSeq, maxBuf, blockSize, blockSize, [], 0⟩ 0 1 :=
    ⟨rfl, rfl, (Nat.one_mul _).symm, (Nat.one_mul _).symm, Nat.le_refl _, ⟨Nat.zero_mod _, Nat.zero_mod _⟩, rfl⟩
  have ran := @meta_loop_scan crc blockSize startSeq file positive started (file.length + 2) _ 0 1 blkSeq scanning
  rw [scanBlockMetaInfo, asserting, if_pos ⟨positive, rfl, rfl, roomy⟩]
  dsimp only
  rw [Nat.sub_self]
  have at_end : ReadInfo.nextBlockPos ⟨false, false, blockSize, startSeq, maxBuf, blockSize, blockSize, [], 0⟩ 0 = 0 := by
    rw [ReadInfo.nextBlockPos, if_neg (by rw [Nat.zero_mod]; exact fun wrong => wrong rfl)]
    exact if_pos rfl
  refine (asserting_pos _ _ (Nat.le_of_eq at_end)).trans ?_
  rw [at_end]
  dsimp only [List.length_nil] at ran
  rw [if_pos rfl] at ran
  exact ran

end Loop

end PaxosStore.DbComm
