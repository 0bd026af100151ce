import PaxosStore.DbComm.RecordWalk

set_option autoImplicit false

namespace PaxosStore.DbComm

open PaxosStore.Codec
open PaxosStore.PaxosKv

-- A clsLevelDBLogAttachReader between two reads that succeeded: all of its file is in
-- the buffer, and `pos` is its place there.
structure Attached (blockSize startSeq : Nat) (info : ReadInfo) (pos : Nat) : Prop where
  readOnly : info.readOnly = true
  unchecked : info.checkBlock = false
  block : info.blockSize = blockSize
  seq : info.startSeq = startSeq
  low : blockSize ≤ info.directOffset
  whole : info.buffer.length % blockSize = 0
  place : info.offset = info.directOffset + pos
  within : pos ≤ info.buffer.length
  small : info.directOffset + info.buffer.length ≤ maxLogFileSize
  valid : info.status = 0

def ReadEnd.takenOff (crc : Crc32c) (blockSize : Nat) (buffer : Bytes) : ReadEnd → TakenOff
  | .failed code => .failed code
  | .eof => .eof
  | .found value pos => .found value (recordsOf crc blockSize (buffer.drop pos))

-- The loop of the final check of ReadMetaInfoAndFixWritePos: whether all values can be read.
def readToEnd (crc : Crc32c) (file : Bytes) : Nat → ReadInfo → Option Bool
  | 0, _ => none
  | fuel + 1, info =>
      (directIORead crc file info).bind fun
      | (_, .eof) => some true
      | (_, .failed _) => some false
      | (info, .value _ _ _) => readToEnd crc file fuel info

section Reading

variable {crc : Crc32c} {blockSize startSeq : Nat} {file : Bytes} {info : ReadInfo} (positive : 0 < blockSize) (started : startSeq ≠ 0)

-- What the loop is given as pNextBlock.
def NextPlace (blockSize : Nat) (buffer : Bytes) (pos next : Nat) : Prop :=
  pos = buffer.length ∧ next = buffer.length ∨
    pos < next ∧ next ≤ buffer.length ∧ next - pos ≤ blockSize ∧ next % blockSize = 0

include positive

theorem next_place (pos : Nat) (attached : Attached blockSize startSeq info pos) :
    NextPlace blockSize info.buffer pos (info.nextBlockPos pos) := by
  have whole := attached.whole
  have within := attached.within
  rw [ReadInfo.nextBlockPos, attached.block]
  by_cases aligned : pos % blockSize = 0
  · rw [if_neg (by rw [aligned]; exact fun wrong => wrong rfl)]
    by_cases last : pos = info.buffer.length
    · rw [if_pos last]
      exact .inl ⟨last, last⟩
    · rw [if_neg last]
      have room := multiple_above blockSize pos _ aligned whole (by omega)
      exact .inr ⟨by omega, room, by omega, by rw [Nat.add_mod_right]; exact aligned⟩
  · rw [if_pos aligned]
    have lower := Nat.mod_lt pos positive
    have split := Nat.div_add_mod pos blockSize
    have base : (pos - pos % blockSize) % blockSize = 0 := by
      rw [show pos - pos % blockSize = blockSize * (pos / blockSize) by omega, Nat.mul_mod_right]
    have apart : pos ≠ info.buffer.length := fun same => aligned (by rw [same]; exact whole)
    have room := multiple_above blockSize (pos - pos % blockSize) _ base whole (by omega)
    exact .inr ⟨by omega, by omega, by omega, by rw [Nat.add_mod_right]; exact base⟩

omit positive in
theorem next_place_after (positive : 0 < blockSize) (buffer : Bytes) (next : Nat) (whole : buffer.length % blockSize = 0) (bound : next ≤ buffer.length)
    (aligned : next % blockSize = 0) : NextPlace blockSize buffer next (if next = buffer.length then buffer.length else next + blockSize) := by
  by_cases last : next = buffer.length
  · rw [if_pos last]
    exact .inl ⟨last, rfl⟩
  · rw [if_neg last]
    have room := multiple_above blockSize next _ aligned whole (by omega)
    exact .inr ⟨by omega, room, by omega, by rw [Nat.add_mod_right]; exact aligned⟩

-- Where a value is found, it is shorter than what has been read for it.
def ReadEnd.Ahead (pos : Nat) (held buffer : Bytes) : ReadEnd → Prop
  | .found value ends => value.length + pos < held.length + ends ∧ ends ≤ buffer.length
  | _ => True

-- A reading of the rest of the buffer takes a value off its records.
def Takes (crc : Crc32c) (startSeq blockSize : Nat) (info : ReadInfo) (pos : Nat) (value : Bytes) (read : Option (ReadInfo × ReadEnd)) : Prop :=
  ∃ result : Option ReadEnd, read = result.map (fun ends => (info, ends)) ∧
    takeValue startSeq (decide (value ≠ [])) value (recordsOf crc blockSize (info.buffer.drop pos)) =
      result.map (ReadEnd.takenOff crc blockSize info.buffer) ∧
    ∀ ends, result = some ends → ends.Ahead pos value info.buffer

section Loop

variable (unchecked : info.checkBlock = false) (block : info.blockSize = blockSize) (seq : info.startSeq = startSeq)
  (whole : info.buffer.length % blockSize = 0)

include started unchecked block seq whole

omit whole in
theorem read_block_picks (pos next : Nat) (value : Bytes) (inside : pos < next) (short : next - pos ≤ blockSize)
    (size : (pread info.buffer (next - pos) pos).length = next - pos) (again : Nat → Nat → Bytes → Bool → Option (ReadInfo × ReadEnd)) :
    readBlock crc info pos next value again =
      (pickleRecords crc startSeq blockSize (value ≠ []) (next - pos) (pread info.buffer (next - pos) pos) value 0 false).bind fun
      | .failed code => some (info, .failed code)
      | .complete value used => some (info, .found value (pos + used))
      | .more value fake => again next (if next = info.buffer.length then info.buffer.length else next + blockSize) value fake := by
  have plain : ¬(info.checkBlock = true ∧ isValidBlock crc blockSize (pread info.buffer (next - pos) pos) = false) := by
    rw [unchecked]
    exact fun wrong => Bool.false_ne_true wrong.1
  rw [readBlock, block, seq, asserting_pos _ _ ⟨inside, short⟩]
  dsimp only
  rw [if_neg plain, pickleLevelDBLogBlock, size]
  refine congrArg (fun picked => Option.bind picked _) ?_
  exact asserting_pos _ _ ⟨started, positive, by omega, short⟩

theorem read_block_takes (pos next : Nat) (value : Bytes) (inside : pos < next) (bound : next ≤ info.buffer.length)
    (short : next - pos ≤ blockSize) (aligned : next % blockSize = 0)
    (again : Nat → Nat → Bytes → Bool → Option (ReadInfo × ReadEnd))
    (later : ∀ value fake, Takes crc startSeq blockSize info next value
      (again next (if next = info.buffer.length then info.buffer.length else next + blockSize) value fake)) :
    Takes crc startSeq blockSize info pos value (readBlock crc info pos next value again) := by
  have size : (pread info.buffer (next - pos) pos).length = next - pos := by
    rw [pread_length]
    omega
  have rest : (info.buffer.drop next).length % blockSize = 0 := by
    rw [List.length_drop]
    exact Nat.sub_mod_eq_zero_of_mod_eq (whole.trans aligned.symm)
  have cut : info.buffer.drop pos = pread info.buffer (next - pos) pos ++ info.buffer.drop next := by
    have parts := List.take_append_drop (next - pos) (info.buffer.drop pos)
    rw [List.drop_drop, show pos + (next - pos) = next by omega] at parts
    exact parts.symm
  have taken := @pickle_records_take crc blockSize startSeq positive (decide (value ≠ [])) (next - pos)
    (pread info.buffer (next - pos) pos) value (info.buffer.drop next) 0 false (Nat.le_of_eq size) (by omega) rest (fun _ => rfl)
  rw [← cut] at taken
  rw [read_block_picks positive started unchecked block seq pos next value inside short size again]
  cases ran : pickleRecords crc startSeq blockSize (decide (value ≠ [])) (next - pos) (pread info.buffer (next - pos) pos) value 0 false with
  | none =>
    rw [ran] at taken
    exact ⟨none, rfl, taken, fun _ wrong => by cases wrong⟩
  | some picked =>
    have lengths := pickle_records_value startSeq _ _ _ _ _ _ picked ran
    rw [ran, Option.bind_some] at taken
    rw [Option.bind_some]
    cases picked with
    | failed code => exact ⟨some (.failed code), rfl, taken, fun ends same => by cases same; trivial⟩
    | complete found ends =>
      have reached := (pickle_records_used crc startSeq blockSize _ _ _ _ _ _ _ _ ran).2
      refine ⟨some (.found found (pos + ends)), rfl, ?_, ?_⟩
      · dsimp only at taken
        rw [taken, Nat.sub_zero, Option.map_some, ReadEnd.takenOff, ← List.drop_drop, cut]
        rw [List.drop_append_of_le_length (by omega)]
      · intro result same
        cases same
        rw [Picked.Short, headerSize] at lengths
        exact ⟨by omega, by omega⟩
    | more left fake =>
      obtain ⟨result, loop, other, ahead⟩ := later left fake
      refine ⟨result, loop, ?_, ?_⟩
      · dsimp only at taken
        rw [taken, ← other]
        exact take_value_entered startSeq _ _ left _ (records_headed crc positive _ rest)
      · intro ends same
        have further := ahead ends same
        rw [Picked.Short] at lengths
        cases ends with
        | failed code => trivial
        | eof => trivial
        | found value ends =>
          rw [ReadEnd.Ahead] at further ⊢
          omega

end Loop

end Reading

end PaxosStore.DbComm
