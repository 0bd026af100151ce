import PaxosStore.DbComm.LogReads

set_option autoImplicit false

namespace PaxosStore.DbComm

open PaxosStore.Codec
open PaxosStore.PaxosKv

-- The scan and what is made of its result.
def readAndFinish (crc : Crc32c) (file : Bytes) (info : ReadInfo) : Option (ReadInfo × ReadResult) :=
  (directIOReadImpl crc file info).bind fun (info, result) => info.finish result

section Calls

variable {crc : Crc32c} {blockSize startSeq : Nat} {file : Bytes} (positive : 0 < blockSize) (whole : file.length % blockSize = 0)
  (small : file.length ≤ maxLogFileSize)
include positive

theorem lower_bounds (offset : Nat) (low : blockSize ≤ offset) :
    offset / blockSize * blockSize % blockSize = 0 ∧ offset / blockSize * blockSize ≤ offset ∧
      offset < offset / blockSize * blockSize + blockSize ∧ blockSize ≤ offset / blockSize * blockSize := by
  have parts := Nat.div_add_mod offset blockSize
  have under := Nat.mod_lt offset positive
  rw [Nat.mul_comm] at parts
  refine ⟨Nat.mul_mod_left _ _, Nat.div_mul_le_self _ _, by omega, ?_⟩
  exact Nat.le_mul_of_pos_left _ (Nat.div_pos low positive)

include whole

-- The block of an offset is loaded, or the offset is past the end of the file.
theorem reload_block (info : ReadInfo) (attuned : Attuned blockSize startSeq file info) (offset : Nat) (low : blockSize ≤ offset) :
    (file.length ≤ offset / blockSize * blockSize ∧
        { info with directOffset := offset / blockSize * blockSize, buffer := [] }.reload file blockSize =
          ({ info with directOffset := offset / blockSize * blockSize, buffer := [] }, 0)) ∨
      (offset / blockSize * blockSize + blockSize ≤ file.length ∧
        { info with directOffset := offset / blockSize * blockSize, buffer := [] }.reload file blockSize =
          ({ info with directOffset := offset / blockSize * blockSize, buffer := pread file blockSize (offset / blockSize * blockSize) },
            (blockSize : Int))) := by
  obtain ⟨aligned, below, -, -⟩ := lower_bounds positive offset low
  have empty : Attuned blockSize startSeq file { info with buffer := [] } :=
    ⟨attuned.block, attuned.start, attuned.normal, attuned.aligned, Nat.zero_mod _, rfl, attuned.roomy, attuned.data⟩
  by_cases past : file.length ≤ offset / blockSize * blockSize
  · exact .inl ⟨past, reload_end empty positive _ blockSize past⟩
  · right
    obtain ⟨size, -, -, bound, -, one, loaded⟩ := reload_some empty positive whole _ blockSize aligned (Nat.lt_of_not_le past)
    rw [one (Nat.le_refl _)] at bound loaded
    exact ⟨bound, loaded⟩

omit positive whole in
theorem block_length (place : Nat) (inside : place + blockSize ≤ file.length) : (pread file blockSize place).length = blockSize := by
  rw [pread_length]
  omega

omit whole in
theorem loaded_attuned (info : ReadInfo) (attuned : Attuned blockSize startSeq file info) (offset : Nat) (low : blockSize ≤ offset)
    (inside : offset / blockSize * blockSize + blockSize ≤ file.length) :
    Attuned blockSize startSeq file
      { info with directOffset := offset / blockSize * blockSize, buffer := pread file blockSize (offset / blockSize * blockSize) } := by
  obtain ⟨aligned, -, -, data⟩ := lower_bounds positive offset low
  exact attuned_moved attuned _ blockSize aligned (Nat.mod_self _) inside data

-- A read that starts with a loaded block or at the end of the file.
theorem fix_answers (info : ReadInfo) (attuned : Attuned blockSize startSeq file info) (tame : Tame crc startSeq blockSize file info.offset)
    (low : blockSize ≤ info.offset) (bad : info.status ≠ 0) (turns : Nat) (result : Scanned)
    (scanned : scanFrom crc startSeq blockSize file turns info.offset [] = some result)
    (rest : ReadInfo → Option (ReadInfo × ReadResult))
    (answers : ∀ after, Attuned blockSize startSeq file after → after.offset = info.offset → after.status = 0 →
      after.directOffset ≤ after.offset → after.offset ≤ after.directOffset + after.buffer.length →
      Answers blockSize startSeq file info.offset result (rest after)) :
    Answers blockSize startSeq file info.offset result (info.tryFix crc file rest) := by
  obtain rfl := attuned.block
  obtain ⟨aligned, below, above, data⟩ := lower_bounds positive info.offset low
  rw [ReadInfo.tryFix, if_neg bad, ReadInfo.fix, if_neg (by rw [attuned.normal]; exact Bool.false_ne_true)]
  rcases reload_block positive whole info attuned info.offset low with ⟨past, loaded⟩ | ⟨inside, loaded⟩
  · have eof : result = .eof := by
      cases turns with
      | zero => cases scanned
      | succ turns =>
        rw [scanFrom, if_pos (Nat.le_trans past below), if_pos rfl] at scanned
        cases scanned
        rfl
    subst eof
    rw [loaded]
    dsimp only
    refine ⟨_, _, rfl, ⟨attuned.block, attuned.start, attuned.normal, aligned, Nat.zero_mod _, rfl, attuned.roomy, data⟩, ?_, rfl, rfl⟩
    intro wrong
    simp [ReadInfo.setStatus] at wrong
  · have valid : isValidBlock crc info.blockSize (pread (pread file info.blockSize (info.offset / info.blockSize * info.blockSize)) info.blockSize 0) = true := by
      have same : pread (pread file info.blockSize (info.offset / info.blockSize * info.blockSize)) info.blockSize 0 =
          blockRest file info.blockSize (info.offset / info.blockSize * info.blockSize) := by
        rw [pread_pread _ _ _ _ _ (by omega), blockRest, aligned, Nat.sub_zero, Nat.add_zero]
      rw [same]
      exact tame.valid _ aligned data (by omega)
    rw [loaded]
    dsimp only
    rw [if_neg (by omega), if_neg (by rw [valid]; simp)]
    have tuned := attuned_status _ (loaded_attuned positive info attuned info.offset low inside) info.offset 0
    have good := set_status_positive
      { info with directOffset := info.offset / info.blockSize * info.blockSize, buffer := pread file info.blockSize (info.offset / info.blockSize * info.blockSize) }
      (info.blockSize : Int) (by omega)
    dsimp only [Option.bind_some]
    rw [if_neg (by omega), if_neg (by omega), good, asserting, if_pos rfl]
    refine answers _ tuned rfl rfl below ?_
    dsimp only
    rw [block_length _ inside]
    omega

include small

-- The next value of a reader.
theorem read_answers (info : ReadInfo) (attuned : Attuned blockSize startSeq file info) (tame : Tame crc startSeq blockSize file info.offset)
    (low : blockSize ≤ info.offset)
    (ready : info.status = 0 → info.directOffset ≤ info.offset ∧ info.offset ≤ info.directOffset + info.buffer.length) (turns : Nat)
    (result : Scanned) (few : turns ≤ file.length + 1) (scanned : scanFrom crc startSeq blockSize file turns info.offset [] = some result)
    (longer : ∀ value next, result = .found value next → info.offset + value.length < next) (known : ∀ code, result = .failed code → code < 0) :
    Answers blockSize startSeq file info.offset result (directIORead crc file info) := by
  have proceed : ∀ after, Attuned blockSize startSeq file after → after.offset = info.offset → after.status = 0 →
      after.directOffset ≤ after.offset → after.offset ≤ after.directOffset + after.buffer.length →
      Answers blockSize startSeq file info.offset result
        (asserting (after.directOffset ≤ after.offset ∧ after.offset ≤ after.directOffset + after.buffer.length ∧
            after.blockSize ≤ after.offset) <|
          readAndFinish crc file after) := by
    intro after tuned same good lower upper
    rw [asserting, if_pos ⟨lower, upper, by rw [tuned.block, same]; exact low⟩]
    rw [← same] at tame scanned longer ⊢
    exact read_impl_answers positive whole after tuned tame small good ⟨lower, upper⟩ turns result few scanned longer known
  rw [directIORead]
  by_cases good : info.status = 0
  · rw [ReadInfo.tryFix, if_pos good]
    exact proceed info attuned rfl good (ready good).1 (ready good).2
  · exact fix_answers positive whole info attuned tame low good turns result scanned _ proceed

omit whole small in
theorem current_block_valid (info : ReadInfo) (attuned : Attuned blockSize startSeq file info) (other : Nat)
    (tame : Tame crc startSeq blockSize file other) (lower : info.directOffset ≤ info.offset)
    (upper : info.offset ≤ info.directOffset + info.buffer.length) (head : info.offset % blockSize = 0) :
    checkCurrentBlock crc info = true := by
  by_cases empty : info.buffer.length = 0
  · simp [checkCurrentBlock, empty]
  · have pos_mod : (info.offset - info.directOffset) % blockSize = 0 := by
      rw [← window_offset info attuned, Nat.add_sub_cancel' lower]
      exact head
    have ends : info.directOffset + info.buffer.length ≤ file.length := by
      rcases window_end info attuned with none_left | bound
      · rw [none_left, List.length_nil] at empty
        exact absurd rfl empty
      · exact bound
    have some_block : blockSize ≤ info.buffer.length := Nat.le_of_dvd (by omega) (Nat.dvd_of_mod_eq_zero attuned.whole)
    have next : ∃ place, info.nextBlockPos (info.offset - info.directOffset) - blockSize = place ∧ place % blockSize = 0 ∧
        place + blockSize ≤ info.buffer.length := by
      by_cases inside : info.offset - info.directOffset < info.buffer.length
      · obtain ⟨value, bound, -⟩ := next_block_pos positive info attuned _ inside
        exact ⟨_, rfl, by rw [value, pos_mod, Nat.sub_zero, Nat.add_sub_cancel]; exact pos_mod, by omega⟩
      · have at_end : info.offset - info.directOffset = info.buffer.length := by omega
        refine ⟨_, rfl, ?_, ?_⟩
        · rw [at_end, next_pos_end info attuned, ← Nat.mod_eq_sub_mod some_block]
          exact attuned.whole
        · rw [at_end, next_pos_end info attuned]
          omega
    obtain ⟨place, same, place_mod, fits⟩ := next
    have bytes : pread info.buffer blockSize place = blockRest file blockSize (info.directOffset + place) := by
      rw [blockRest, window_offset info attuned, place_mod, Nat.sub_zero]
      conv_lhs => rw [attuned.window]
      exact pread_pread file _ _ _ _ (by omega)
    have valid := tame.valid (info.directOffset + place) (by rw [window_offset info attuned]; exact place_mod)
      (Nat.le_trans attuned.data (Nat.le_add_right _ _)) (by omega)
    simp only [checkCurrentBlock, attuned.block, same, bytes, valid, Bool.or_true]

-- The value at an offset, whatever the reader did before.
theorem read_at_answers (info : ReadInfo) (attuned : Attuned blockSize startSeq file info) (offset : Nat)
    (tame : Tame crc startSeq blockSize file offset) (low : blockSize ≤ offset) (turns : Nat) (result : Scanned)
    (few : turns ≤ file.length + 1) (scanned : scanFrom crc startSeq blockSize file turns offset [] = some result)
    (longer : ∀ value next, result = .found value next → offset + value.length < next) (known : ∀ code, result = .failed code → code < 0) :
    Answers blockSize startSeq file offset result (directIOReadAt crc file info offset) := by
  have proceed : ∀ after, Attuned blockSize startSeq file after → after.offset = offset → after.status = 0 →
      after.directOffset ≤ after.offset → after.offset ≤ after.directOffset + after.buffer.length →
      Answers blockSize startSeq file offset result
        (asserting (after.directOffset ≤ after.offset ∧ after.offset ≤ after.directOffset + after.buffer.length) <|
          readAndFinish crc file after) := by
    intro after tuned same good lower upper
    rw [asserting, if_pos ⟨lower, upper⟩]
    subst same
    exact read_impl_answers positive whole after tuned tame small good ⟨lower, upper⟩ turns result few scanned longer known
  have fixed : ∀ (checked : Prop) [Decidable checked] (after : ReadInfo), (checked → offset % blockSize = 0) →
      Attuned blockSize startSeq file after → after.offset = offset →
      (after.status = 0 → after.directOffset ≤ after.offset ∧ after.offset ≤ after.directOffset + after.buffer.length) →
      Answers blockSize startSeq file offset result
        (if after.status ≠ 0 then
          after.tryFix crc file fun info =>
            asserting (info.directOffset ≤ info.offset ∧ info.offset ≤ info.directOffset + info.buffer.length) <|
              readAndFinish crc file info
        else if checked ∧ checkCurrentBlock crc after = false then some (after, .failed LogError.brokenBlk)
        else
          asserting (after.directOffset ≤ after.offset ∧ after.offset ≤ after.directOffset + after.buffer.length) <|
            readAndFinish crc file after) := by
    intro checked _ after head tuned same ready
    by_cases good : after.status = 0
    · rw [if_neg (not_not.mpr good), if_neg]
      · exact proceed after tuned same good (ready good).1 (ready good).2
      · rintro ⟨enters, invalid⟩
        rw [current_block_valid positive after tuned offset tame (ready good).1 (ready good).2 (by rw [same]; exact head enters)] at invalid
        cases invalid
    · rw [if_pos good]
      subst same
      exact fix_answers positive whole after tuned tame low good turns result scanned _ proceed
  obtain rfl := attuned.block
  rw [directIOReadAt]
  have not_zero : ¬ offset = 0 := by omega
  simp only [if_neg not_zero]
  rw [asserting, if_pos low]
  by_cases inside : info.directOffset ≤ offset ∧ offset ≤ info.directOffset + info.buffer.length
  · rw [if_pos inside]
    exact fixed _ { info with offset := offset } (fun checked => checked.2.1) (attuned_status info attuned offset info.status) rfl (fun _ => inside)
  · rw [if_neg inside]
    have moved := attuned_status info attuned offset info.status
    obtain ⟨aligned, below, above, data⟩ := lower_bounds positive offset low
    rcases reload_block positive whole { info with offset := offset } moved offset low with ⟨past, loaded⟩ | ⟨in_file, loaded⟩
    · have eof : result = .eof := by
        cases turns with
        | zero => cases scanned
        | succ turns =>
          rw [scanFrom, if_pos (Nat.le_trans past below), if_pos rfl] at scanned
          cases scanned
          rfl
      subst eof
      rw [loaded]
      dsimp only
      refine ⟨_, _, rfl, ⟨attuned.block, attuned.start, attuned.normal, aligned, Nat.zero_mod _, rfl, attuned.roomy, data⟩, ?_, rfl, rfl⟩
      intro wrong
      simp [ReadInfo.setStatus] at wrong
    · have good := set_status_positive
        { info with offset := offset, directOffset := offset / info.blockSize * info.blockSize,
                    buffer := pread file info.blockSize (offset / info.blockSize * info.blockSize) }
        (info.blockSize : Int) (by omega)
      have tuned := attuned_status _ (loaded_attuned positive { info with offset := offset } moved offset low in_file) offset 0
      rw [loaded]
      dsimp only
      rw [if_neg (by omega), if_neg (by omega), good, asserting, if_pos rfl]
      refine fixed _ _ (fun checked => checked.2.1) tuned rfl fun _ => ⟨below, ?_⟩
      dsimp only
      rw [block_length _ in_file]
      omega

end Calls

end PaxosStore.DbComm
