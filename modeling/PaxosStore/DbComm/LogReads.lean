import PaxosStore.DbComm.LogScan

set_option autoImplicit false

namespace PaxosStore.DbComm

open PaxosStore.Codec
open PaxosStore.PaxosKv

-- A reader whose buffer is a window of the file.
structure Attuned (blockSize startSeq : Nat) (file : Bytes) (info : ReadInfo) : Prop where
  block : info.blockSize = blockSize
  start : info.startSeq = startSeq
  normal : info.readOnly = false
  aligned : info.directOffset % blockSize = 0
  whole : info.buffer.length % blockSize = 0
  window : info.buffer = pread file info.buffer.length info.directOffset
  roomy : 2 * blockSize ≤ info.maxBuf
  data : blockSize ≤ info.directOffset

-- What lets a reader at `offset` follow the scan: the blocks of the file are valid, and
-- only the rest of the block it is in may be a fake record.
structure Tame (crc : Crc32c) (startSeq blockSize : Nat) (file : Bytes) (offset : Nat) : Prop where
  heads : ∀ place value left, place % blockSize = 0 → blockSize ≤ place → place < file.length →
    pickleLevelDBLogBlock crc startSeq blockSize (blockRest file blockSize place) value ≠ some (.more left true)
  valid : ∀ place, place % blockSize = 0 → blockSize ≤ place → place < file.length →
    isValidBlock crc blockSize (blockRest file blockSize place) = true
  here : ∀ left, pickleLevelDBLogBlock crc startSeq blockSize (blockRest file blockSize offset) [] = some (.more left true) →
    left = [] ∧ pickleLevelDBRecord crc (blockRest file blockSize offset) false = (⟨.fake, []⟩, (blockRest file blockSize offset).length)

theorem pread_pread (file : Bytes) (size offset start pos : Nat) (inside : pos + start ≤ size) :
    pread (pread file size offset) start pos = pread file start (offset + pos) := by
  simp only [pread]
  rw [List.drop_take, List.take_take, List.drop_drop, Nat.min_eq_left (by omega)]

theorem pread_length (file : Bytes) (size offset : Nat) : (pread file size offset).length = min size (file.length - offset) := by
  rw [pread, List.length_take, List.length_drop]

theorem multiple_above (blockSize less more : Nat) (small : less % blockSize = 0) (large : more % blockSize = 0) (below : less < more) :
    less + blockSize ≤ more := by
  obtain ⟨a, rfl⟩ := Nat.dvd_of_mod_eq_zero small
  obtain ⟨b, rfl⟩ := Nat.dvd_of_mod_eq_zero large
  have lower : a < b := Nat.lt_of_mul_lt_mul_left below
  calc blockSize * a + blockSize = blockSize * (a + 1) := by rw [Nat.mul_add, Nat.mul_one]
    _ ≤ blockSize * b := Nat.mul_le_mul_left _ lower

theorem pickle_size_le (crc : Crc32c) (buf : Bytes) (checkCrc : Bool) : (pickleLevelDBRecord crc buf checkCrc).2 ≤ buf.length := by
  unfold pickleLevelDBRecord
  split
  · dsimp only
    split
    · exact Nat.le_refl _
    · split
      · exact Nat.le_refl _
      · rename_i long
        split
        · exact Nat.le_refl _
        · exact Nat.le_of_not_lt long
  · exact Nat.le_refl _

theorem pickle_records_used (crc : Crc32c) (startSeq blockSize : Nat) (partialValue : Bool) (fuel : Nat) (buf value : Bytes) (used : Nat)
    (fake : Bool) (found : Bytes) (ends : Nat)
    (ran : pickleRecords crc startSeq blockSize partialValue fuel buf value used fake = some (.complete found ends)) :
    used ≤ ends ∧ ends ≤ used + buf.length := by
  induction fuel generalizing buf value used fake with
  | zero =>
    cases buf with
    | nil => simp [pickleRecords] at ran
    | cons byte rest => cases ran
  | succ fuel ih =>
    cases buf with
    | nil => simp [pickleRecords] at ran
    | cons byte rest =>
      have bound := pickle_size_le crc (byte :: rest) true
      rw [pickleRecords] at ran
      generalize pickleLevelDBRecord crc (byte :: rest) true = read at ran bound
      obtain ⟨record, size⟩ := read
      obtain ⟨checked, -, later⟩ := Option.bind_eq_some_iff.mp ran
      cases checked with
      | error code => cases later
      | ok complete =>
        obtain ⟨-, later⟩ := (asserting_some _ _ _).mp later
        cases complete with
        | true =>
          simp only [if_true] at later
          obtain ⟨-, later⟩ := (asserting_some _ _ _).mp later
          cases later
          dsimp only at bound
          omega
        | false =>
          have step := ih _ _ _ _ later
          rw [List.length_drop] at step
          dsimp only at bound
          omega

theorem pickle_block_used (crc : Crc32c) (startSeq blockSize : Nat) (buf value found : Bytes) (used : Nat)
    (ran : pickleLevelDBLogBlock crc startSeq blockSize buf value = some (.complete found used)) : used ≤ buf.length := by
  obtain ⟨-, ran⟩ := (asserting_some _ _ _).mp ran
  simpa using (pickle_records_used crc startSeq blockSize _ _ buf value 0 false found used ran).2

section Reload

variable {blockSize startSeq : Nat} {file : Bytes} {info : ReadInfo} (attuned : Attuned blockSize startSeq file info)
  (positive : 0 < blockSize) (whole : file.length % blockSize = 0)
include attuned positive whole

omit whole in
theorem reload_end (offset expected : Nat) (past : file.length ≤ offset) :
    { info with directOffset := offset }.reload file expected = ({ info with directOffset := offset, buffer := [] }, 0) := by
  have none_left : pread file (max (min (min expected info.maxBuf) (info.buffer.length * 2)) info.blockSize) offset = [] := by
    rw [pread, List.drop_of_length_le past, List.take_nil]
  unfold ReadInfo.reload
  dsimp only
  rw [none_left, List.length_nil, attuned.block, if_pos positive, if_pos rfl]

theorem reload_some (offset expected : Nat) (aligned : offset % blockSize = 0) (inside : offset < file.length) :
    ∃ size, 0 < size ∧ size % blockSize = 0 ∧ offset + size ≤ file.length ∧
      (2 * blockSize ≤ expected → blockSize ≤ info.buffer.length → offset + blockSize < file.length → 2 * blockSize ≤ size) ∧
      (expected ≤ blockSize → size = blockSize) ∧
      { info with directOffset := offset }.reload file expected =
        ({ info with directOffset := offset, buffer := pread file size offset }, (size : Int)) := by
  have room := multiple_above blockSize offset file.length aligned whole inside
  generalize want_eq : max (min (min expected info.maxBuf) (info.buffer.length * 2)) blockSize = want
  have want_large : blockSize ≤ want := by omega
  have got : (pread file want offset).length = min want (file.length - offset) := pread_length file want offset
  generalize count_eq : min want (file.length - offset) = count at got
  have large : blockSize ≤ count := by omega
  have rounded : count / blockSize * blockSize ≤ count := Nat.div_mul_le_self _ _
  have least : blockSize ≤ count / blockSize * blockSize :=
    Nat.le_mul_of_pos_left _ (Nat.div_pos large positive)
  refine ⟨count / blockSize * blockSize, by omega, Nat.mul_mod_left _ _, by omega, ?_, ?_, ?_⟩
  · intro wide loaded more
    have next := multiple_above blockSize (offset + blockSize) file.length (by rw [Nat.add_mod_right]; exact aligned) whole more
    have two : 2 * blockSize ≤ count := by
      have := attuned.roomy
      omega
    have := Nat.div_le_div_right (c := blockSize) two
    rw [Nat.mul_div_cancel _ positive] at this
    exact Nat.mul_le_mul_right _ this
  · intro narrow
    have one : count = blockSize := by omega
    rw [one, Nat.div_self positive, Nat.one_mul]
  · have inner : pread (pread file want offset) (count / blockSize * blockSize) 0 = pread file (count / blockSize * blockSize) offset :=
      pread_pread file want offset _ 0 (by omega)
    simp only [pread, List.drop_zero] at inner
    have size_eq : (pread file (count / blockSize * blockSize) offset).length = count / blockSize * blockSize := by
      rw [pread_length]
      omega
    simp only [ReadInfo.reload, attuned.block, want_eq, got]
    rw [if_neg (Nat.not_lt.mpr large)]
    simp only [pread] at size_eq ⊢
    rw [inner, size_eq]

omit positive whole in
theorem attuned_moved (offset size : Nat) (aligned : offset % blockSize = 0) (multiple : size % blockSize = 0)
    (inside : offset + size ≤ file.length) (low : blockSize ≤ offset) :
    Attuned blockSize startSeq file { info with directOffset := offset, buffer := pread file size offset } := by
  have exact_size : (pread file size offset).length = size := by
    rw [pread_length]
    omega
  refine ⟨attuned.block, attuned.start, attuned.normal, aligned, by rw [exact_size]; exact multiple, ?_, attuned.roomy, low⟩
  rw [exact_size]

end Reload

-- How the end of a read stands to the end of a scan.
def Agrees (info : ReadInfo) : Scanned → ReadEnd → Prop
  | .failed code, .failed code' => code = code'
  | .eof, .eof => True
  | .found value offset, .found value' pos => value = value' ∧ offset = info.directOffset + pos ∧ pos ≤ info.buffer.length
  | _, _ => False

-- A read changes nothing of a reader but its window.
def SameReader (info after : ReadInfo) : Prop :=
  after.offset = info.offset ∧ after.status = info.status ∧ after.checkBlock = info.checkBlock ∧ after.maxBuf = info.maxBuf

section Loop

variable {crc : Crc32c} {blockSize startSeq : Nat} {file : Bytes} (positive : 0 < blockSize) (whole : file.length % blockSize = 0)
include positive whole

omit whole in
theorem next_block_pos (info : ReadInfo) (attuned : Attuned blockSize startSeq file info) (pos : Nat) (inside : pos < info.buffer.length) :
    info.nextBlockPos pos = pos + (blockSize - pos % blockSize) ∧ info.nextBlockPos pos ≤ info.buffer.length ∧
      info.nextBlockPos pos % blockSize = 0 := by
  have small := Nat.mod_lt pos positive
  have below := Nat.mod_le pos blockSize
  have value : info.nextBlockPos pos = pos + (blockSize - pos % blockSize) := by
    rw [ReadInfo.nextBlockPos, attuned.block]
    by_cases middle : pos % blockSize ≠ 0
    · rw [if_pos middle]
      omega
    · rw [if_neg middle, if_neg (Nat.ne_of_lt inside), not_not.mp middle, Nat.sub_zero]
  have base : (pos - pos % blockSize) % blockSize = 0 := Nat.mod_eq_zero_of_dvd (Nat.dvd_sub_mod pos)
  have shifted : pos + (blockSize - pos % blockSize) = pos - pos % blockSize + blockSize := by omega
  refine ⟨value, ?_, ?_⟩
  · rw [value, shifted]
    exact multiple_above blockSize _ _ base attuned.whole (by omega)
  · rw [value, shifted, Nat.add_mod_right]
    exact base

omit positive whole in
theorem window_offset (info : ReadInfo) (attuned : Attuned blockSize startSeq file info) (pos : Nat) :
    (info.directOffset + pos) % blockSize = pos % blockSize := by
  rw [Nat.add_mod, attuned.aligned, Nat.zero_add, Nat.mod_mod]

omit positive whole in
theorem window_end (info : ReadInfo) (attuned : Attuned blockSize startSeq file info) :
    info.buffer = [] ∨ info.directOffset + info.buffer.length ≤ file.length := by
  have size := congrArg List.length attuned.window
  rw [pread_length] at size
  by_cases empty : info.buffer = []
  · exact .inl empty
  · have := List.length_pos_iff.mpr empty
    right
    omega

omit whole in
-- The bytes of the block a reader is in.
theorem block_in_window (info : ReadInfo) (attuned : Attuned blockSize startSeq file info) (pos : Nat) (inside : pos < info.buffer.length) :
    pread info.buffer (info.nextBlockPos pos - pos) pos = blockRest file blockSize (info.directOffset + pos) := by
  obtain ⟨value, bound, -⟩ := next_block_pos positive info attuned pos inside
  rw [blockRest, window_offset info attuned pos]
  conv_lhs => rw [attuned.window]
  rw [pread_pread file _ _ _ _ (by omega), value, Nat.add_sub_cancel_left]

omit whole in
theorem rest_of_block_valid (offset place : Nat) (tame : Tame crc startSeq blockSize file offset) (low : blockSize ≤ place)
    (inside : place < file.length) : isValidBlock crc blockSize (blockRest file blockSize place) = true := by
  by_cases head : place % blockSize = 0
  · exact tame.valid place head low inside
  · have short : (blockRest file blockSize place).length ≠ blockSize := by
      rw [blockRest, pread_length]
      omega
    simp [isValidBlock, short]

omit whole in
-- The body of the loop at a place inside the buffer, in terms of the block there.
theorem read_block_eq (info : ReadInfo) (attuned : Attuned blockSize startSeq file info) (tame : Tame crc startSeq blockSize file info.offset)
    (pos : Nat) (inside : pos < info.buffer.length) (low : blockSize ≤ info.directOffset + pos) (value : Bytes)
    (again : Nat → Nat → Bytes → Bool → Option (ReadInfo × ReadEnd)) :
    readBlock crc info pos (info.nextBlockPos pos) value again =
      (pickleLevelDBLogBlock crc startSeq blockSize (blockRest file blockSize (info.directOffset + pos)) value).bind fun
      | .failed code => some (info, .failed code)
      | .complete value used => some (info, .found value (pos + used))
      | .more value fake => again (info.nextBlockPos pos) (info.nextBlockPos (info.nextBlockPos pos)) value fake := by
  obtain ⟨value_eq, bound, multiple⟩ := next_block_pos positive info attuned pos inside
  have small := Nat.mod_lt pos positive
  have in_file : info.directOffset + pos < file.length := by
    rcases window_end info attuned with empty | ends
    · rw [empty, List.length_nil] at inside
      omega
    · omega
  have after : (if info.nextBlockPos pos = info.buffer.length then info.buffer.length else info.nextBlockPos pos + blockSize) =
      info.nextBlockPos (info.nextBlockPos pos) := by
    conv_rhs => rw [ReadInfo.nextBlockPos, attuned.block, if_neg (by rw [multiple]; simp)]
    by_cases last : info.nextBlockPos pos = info.buffer.length
    · rw [if_pos last, if_pos last, last]
    · rw [if_neg last, if_neg last]
  rw [readBlock, asserting, if_pos ⟨by omega, by rw [attuned.block]; omega⟩]
  simp only [block_in_window positive info attuned pos inside, attuned.block, attuned.start, after,
    rest_of_block_valid positive info.offset _ tame low in_file]
  exact if_neg (by simp)

omit positive whole in
theorem next_pos_end (info : ReadInfo) (attuned : Attuned blockSize startSeq file info) :
    info.nextBlockPos info.buffer.length = info.buffer.length := by
  rw [ReadInfo.nextBlockPos, attuned.block, if_neg (by rw [attuned.whole]; simp), if_pos rfl]

omit positive whole in
theorem read_loop_inside (fuel : Nat) (info : ReadInfo) (pos next : Nat) (value : Bytes) (fake : Bool) (apart : pos ≠ next) :
    readLoop crc file (fuel + 1) info pos next value fake = readBlock crc info pos next value (readLoop crc file fuel info) := by
  rw [readLoop, if_neg apart]

omit positive whole in
theorem agrees_end (info : ReadInfo) (value : Bytes) :
    Agrees info (if value = [] then .eof else .failed LogError.unexpectedEof) (endOfFile value) := by
  by_cases empty : value = []
  · simp [empty, endOfFile, Agrees]
  · simp [empty, endOfFile, Agrees]

-- A block that did not end in a fake record, at the end of the buffer.
theorem read_loop_reload (fuel : Nat) (info : ReadInfo) (attuned : Attuned blockSize startSeq file info) (value : Bytes)
    (inside : info.directOffset + info.buffer.length < file.length) :
    ∃ after, Attuned blockSize startSeq file after ∧ SameReader info after ∧
      after.directOffset = info.directOffset + info.buffer.length ∧ 0 < after.buffer.length ∧
      readLoop crc file (fuel + 1) info info.buffer.length info.buffer.length value false =
        readBlock crc after 0 (after.nextBlockPos 0) value (readLoop crc file fuel after) := by
  have aligned : (info.directOffset + info.buffer.length) % blockSize = 0 := by
    rw [window_offset info attuned, attuned.whole]
  obtain ⟨size, some_size, multiple, bound, -, -, loaded⟩ := reload_some attuned positive whole _ info.maxBuf aligned inside
  have size_eq : (pread file size (info.directOffset + info.buffer.length)).length = size := by
    rw [pread_length]
    omega
  have low := Nat.le_trans attuned.data (Nat.le_add_right _ info.buffer.length)
  refine ⟨_, attuned_moved attuned _ size aligned multiple bound low, ⟨rfl, rfl, rfl, rfl⟩, rfl, by dsimp only; omega, ?_⟩
  rw [readLoop, if_pos rfl, asserting, if_pos rfl, if_neg (by rw [attuned.normal]; exact Bool.false_ne_true), asserting,
    if_pos ⟨by rw [attuned.block]; exact attuned.roomy, fun wrong => absurd wrong Bool.false_ne_true⟩]
  simp only [Bool.false_eq_true, if_false, Nat.sub_zero, loaded]
  rw [if_neg (by omega), if_neg (by omega), asserting, if_pos (fun wrong => wrong.elim)]
  simp

omit whole in
theorem read_loop_past (fuel : Nat) (info : ReadInfo) (attuned : Attuned blockSize startSeq file info) (value : Bytes)
    (past : file.length ≤ info.directOffset + info.buffer.length) :
    ∃ after, Attuned blockSize startSeq file after ∧ SameReader info after ∧
      readLoop crc file (fuel + 1) info info.buffer.length info.buffer.length value false = some (after, endOfFile value) := by
  have loaded := reload_end attuned positive _ info.maxBuf past
  have aligned : (info.directOffset + info.buffer.length) % blockSize = 0 := by
    rw [window_offset info attuned, attuned.whole]
  refine ⟨{ info with directOffset := info.directOffset + info.buffer.length, buffer := [] },
    ⟨attuned.block, attuned.start, attuned.normal, aligned, Nat.zero_mod _, rfl, attuned.roomy,
      Nat.le_trans attuned.data (Nat.le_add_right _ _)⟩, ⟨rfl, rfl, rfl, rfl⟩, ?_⟩
  rw [readLoop, if_pos rfl, asserting, if_pos rfl, if_neg (by rw [attuned.normal]; exact Bool.false_ne_true), asserting,
    if_pos ⟨by rw [attuned.block]; exact attuned.roomy, fun wrong => absurd wrong Bool.false_ne_true⟩]
  simp only [Bool.false_eq_true, if_false, Nat.sub_zero, loaded]
  rw [if_neg (by omega), if_pos trivial]

-- A block that ended in a fake record, at the end of the buffer: it is loaded again, and
-- the read goes on behind it if the file does.
theorem read_loop_fake (fuel : Nat) (info : ReadInfo) (attuned : Attuned blockSize startSeq file info)
    (tame : Tame crc startSeq blockSize file info.offset) (low : blockSize ≤ info.offset) (some_buffer : info.buffer ≠ [])
    (last : info.directOffset + info.buffer.length = info.offset - info.offset % blockSize + blockSize) (middle : info.offset % blockSize ≠ 0)
    (ends : pickleLevelDBLogBlock crc startSeq blockSize (blockRest file blockSize info.offset) [] = some (.more [] true)) :
    ∃ after, Attuned blockSize startSeq file after ∧ SameReader info after ∧
      if file.length ≤ info.directOffset + info.buffer.length then
        readLoop crc file (fuel + 2) info info.buffer.length info.buffer.length [] true = some (after, .eof)
      else
        after.directOffset + blockSize = info.directOffset + info.buffer.length ∧ blockSize < after.buffer.length ∧
          readLoop crc file (fuel + 2) info info.buffer.length info.buffer.length [] true =
            readBlock crc after blockSize (after.nextBlockPos blockSize) [] (readLoop crc file fuel after) := by
  have small := Nat.mod_lt info.offset positive
  have below := Nat.mod_le info.offset blockSize
  have loaded_size : blockSize ≤ info.buffer.length :=
    Nat.le_of_dvd (List.length_pos_iff.mpr some_buffer) (Nat.dvd_of_mod_eq_zero attuned.whole)
  have start_eq : info.directOffset + info.buffer.length - blockSize = info.offset - info.offset % blockSize := by omega
  have aligned : (info.directOffset + info.buffer.length - blockSize) % blockSize = 0 := by
    rw [start_eq]
    exact Nat.mod_eq_zero_of_dvd (Nat.dvd_sub_mod info.offset)
  have in_file : info.directOffset + info.buffer.length ≤ file.length := by
    rcases window_end info attuned with empty | bound
    · exact absurd empty some_buffer
    · exact bound
  obtain ⟨size, some_size, multiple, bound, wide, -, loaded⟩ := reload_some attuned positive whole _ info.maxBuf aligned (by omega)
  have size_eq : (pread file size (info.directOffset + info.buffer.length - blockSize)).length = size := by
    rw [pread_length]
    omega
  have head_low : blockSize ≤ info.directOffset + info.buffer.length - blockSize := by
    rw [start_eq]
    by_cases more : info.offset % blockSize = 0
    · exact absurd more middle
    · exact Nat.le_of_dvd (by omega) (Nat.dvd_sub_mod info.offset)
  have again := attuned_moved attuned _ size aligned multiple bound head_low
  generalize after_eq : ({ info with directOffset := info.directOffset + info.buffer.length - blockSize, buffer := pread file size (info.directOffset + info.buffer.length - blockSize) } : ReadInfo) = after at again loaded
  have after_offset : after.offset = info.offset := by rw [← after_eq]
  have after_direct : after.directOffset = info.directOffset + info.buffer.length - blockSize := by rw [← after_eq]
  have after_size : after.buffer.length = size := by rw [← after_eq]; exact size_eq
  have same : SameReader info after := by rw [← after_eq]; exact ⟨rfl, rfl, rfl, rfl⟩
  have pos_eq : after.offset - after.directOffset = info.offset % blockSize := by omega
  have size_large := Nat.le_of_dvd some_size (Nat.dvd_of_mod_eq_zero multiple)
  obtain ⟨next_eq, next_bound, -⟩ := next_block_pos positive after again (info.offset % blockSize) (by omega)
  rw [Nat.mod_mod] at next_eq
  have place : after.directOffset + info.offset % blockSize = info.offset := by omega
  have block_eq := block_in_window positive after again (info.offset % blockSize) (by omega)
  rw [place] at block_eq
  have looped : readLoop crc file (fuel + 2) info info.buffer.length info.buffer.length [] true =
      if blockSize = after.buffer.length then some (after, .eof)
      else readBlock crc after (info.offset % blockSize) (after.nextBlockPos (info.offset % blockSize)) [] (readLoop crc file (fuel + 1) after) := by
    rw [readLoop, if_pos rfl, asserting, if_pos rfl, if_neg (by rw [attuned.normal]; exact Bool.false_ne_true), asserting,
      if_pos ⟨by rw [attuned.block]; exact attuned.roomy, fun _ => by rw [attuned.block]; exact loaded_size⟩]
    simp only [if_true, attuned.block] at loaded ⊢
    rw [loaded]
    dsimp only
    rw [if_neg (by omega), if_neg (by omega), asserting, if_pos (fun _ => by omega), pos_eq, again.block]
    by_cases one : blockSize = after.buffer.length
    · rw [if_pos ⟨trivial, one⟩, if_pos one, asserting, if_pos ⟨by omega, by omega⟩, block_eq, (tame.here [] ends).2]
      dsimp only
      rw [if_pos ⟨by rw [← block_eq, pread_length]; omega, rfl⟩]
    · rw [if_neg (fun wrong => one wrong.2), if_neg one]
  refine ⟨after, again, same, ?_⟩
  by_cases past : file.length ≤ info.directOffset + info.buffer.length
  · rw [if_pos past, looped, if_pos (by omega)]
  · have two := wide attuned.roomy loaded_size (by omega)
    rw [if_neg past, looped, if_neg (by omega)]
    refine ⟨by omega, by omega, ?_⟩
    have low_place : blockSize ≤ after.directOffset + info.offset % blockSize := by omega
    rw [read_block_eq positive after again (by rw [after_offset]; exact tame) _ (by omega) low_place, place, ends, Option.bind_some]
    dsimp only
    have next_one : after.nextBlockPos (info.offset % blockSize) = blockSize := by omega
    obtain ⟨next_two, -, -⟩ := next_block_pos positive after again blockSize (by omega)
    rw [next_one, read_loop_inside fuel after blockSize _ [] true (by rw [next_two, Nat.mod_self]; omega)]

omit positive whole in
theorem same_trans (first second third : ReadInfo) (before : SameReader first second) (after : SameReader second third) :
    SameReader first third :=
  ⟨after.1.trans before.1, after.2.1.trans before.2.1, after.2.2.1.trans before.2.2.1, after.2.2.2.trans before.2.2.2⟩

-- What a read from a place in the buffer comes to.
def Follows (blockSize startSeq : Nat) (file : Bytes) (info : ReadInfo) (result : Scanned) (read : Option (ReadInfo × ReadEnd)) : Prop :=
  ∃ after end_, read = some (after, end_) ∧ Attuned blockSize startSeq file after ∧ SameReader info after ∧ Agrees after result end_

omit positive whole in
theorem follows_from (info after : ReadInfo) (same : SameReader info after) (result : Scanned) (read : Option (ReadInfo × ReadEnd))
    (follows : Follows blockSize startSeq file after result read) : Follows blockSize startSeq file info result read := by
  obtain ⟨last, end_, ran, attuned, later, agrees⟩ := follows
  exact ⟨last, end_, ran, attuned, same_trans info after last same later, agrees⟩

-- The loop with its buffer finds what the scan of the file finds: by induction on the
-- blocks the scan passes. A mid-block place is the reader's own offset.
theorem read_loop_follows (turns : Nat) (offset : Nat) (value : Bytes) (result : Scanned)
    (scanned : scanFrom crc startSeq blockSize file turns offset value = some result) (info : ReadInfo)
    (attuned : Attuned blockSize startSeq file info) (tame : Tame crc startSeq blockSize file info.offset) (pos : Nat)
    (place : info.directOffset + pos = offset) (bound : pos ≤ info.buffer.length) (low : blockSize ≤ offset)
    (entered : offset % blockSize = 0 ∨ offset = info.offset ∧ value = []) (fuel : Nat) (enough : 2 * turns < fuel) :
    Follows blockSize startSeq file info result (readLoop crc file fuel info pos (info.nextBlockPos pos) value false) := by
  induction turns generalizing offset value info pos fuel with
  | zero => cases scanned
  | succ turns ih =>
    obtain ⟨fuel, rfl⟩ : ∃ less, fuel = less + 2 := ⟨fuel - 2, by omega⟩
    -- the block at a place of a reader whose buffer goes on behind the place
    have block : ∀ (reader : ReadInfo) (at_ : Nat), Attuned blockSize startSeq file reader → SameReader info reader →
        reader.directOffset + at_ = offset → at_ < reader.buffer.length →
        Follows blockSize startSeq file reader result
          (readBlock crc reader at_ (reader.nextBlockPos at_) value (readLoop crc file (fuel + 1) reader)) := by
      intro reader at_ tuned same at_place inside
      have reader_tame : Tame crc startSeq blockSize file reader.offset := by rw [same.1]; exact tame
      obtain ⟨next_eq, next_bound, next_multiple⟩ := next_block_pos positive reader tuned at_ inside
      have in_file : offset < file.length := by
        rcases window_end reader tuned with empty | ends
        · rw [empty, List.length_nil] at inside
          omega
        · omega
      have offset_mod : offset % blockSize = at_ % blockSize := by rw [← at_place, window_offset reader tuned]
      have next_place : reader.directOffset + reader.nextBlockPos at_ = offset + (blockSize - offset % blockSize) := by omega
      have next_aligned : (offset + (blockSize - offset % blockSize)) % blockSize = 0 := by
        rw [← next_place, window_offset reader tuned, next_multiple]
      rw [scanFrom, if_neg (Nat.not_le.mpr in_file)] at scanned
      obtain ⟨picked, ran, rest⟩ := Option.bind_eq_some_iff.mp scanned
      rw [read_block_eq positive reader tuned reader_tame at_ inside (by omega), at_place, ran, Option.bind_some]
      cases picked with
      | failed code =>
        cases rest
        exact ⟨reader, _, rfl, tuned, ⟨rfl, rfl, rfl, rfl⟩, rfl⟩
      | complete found used =>
        cases rest
        refine ⟨reader, _, rfl, tuned, ⟨rfl, rfl, rfl, rfl⟩, rfl, by omega, ?_⟩
        have used_le := pickle_block_used crc startSeq blockSize _ value found used ran
        rw [blockRest, pread_length] at used_le
        omega
      | more found fake =>
        cases fake with
        | false => exact ih _ found rest reader tuned reader_tame _ next_place next_bound (by omega) (.inl next_aligned) (fuel + 1) (by omega)
        | true =>
          have middle : offset % blockSize ≠ 0 := fun head => tame.heads offset value found head low in_file ran
          obtain ⟨own, rfl⟩ := entered.resolve_left middle
          rw [own] at ran
          obtain ⟨rfl, -⟩ := tame.here found ran
          dsimp only at rest ⊢
          by_cases last : reader.nextBlockPos at_ = reader.buffer.length
          · have some_buffer : reader.buffer ≠ [] := fun empty => by simp [empty] at inside
            have base : offset - offset % blockSize + blockSize = offset + (blockSize - offset % blockSize) := by
              have := Nat.mod_lt offset positive
              have := Nat.mod_le offset blockSize
              omega
            have reader_own : reader.offset = offset := by rw [same.1, own]
            obtain ⟨turns, rfl⟩ : ∃ less, turns = less + 1 := by
              cases turns with
              | zero => cases rest
              | succ turns => exact ⟨turns, rfl⟩
            obtain ⟨fuel, rfl⟩ : ∃ less, fuel = less + 1 := ⟨fuel - 1, by omega⟩
            obtain ⟨after, after_tuned, after_same, looped⟩ := read_loop_fake positive whole fuel reader tuned reader_tame
              (by omega) some_buffer (by rw [reader_own, base, ← next_place, last]) (by rw [reader_own]; exact middle)
              (by rw [same.1]; exact ran)
            rw [last, next_pos_end reader tuned]
            by_cases past : file.length ≤ reader.directOffset + reader.buffer.length
            · rw [if_pos past] at looped
              rw [scanFrom, if_pos (by rw [← next_place, last]; exact past), if_pos rfl] at rest
              cases rest
              exact ⟨after, .eof, looped, after_tuned, after_same, trivial⟩
            · rw [if_neg past] at looped
              obtain ⟨after_place, after_size, looped⟩ := looped
              rw [looped, ← read_loop_inside fuel after blockSize (after.nextBlockPos blockSize) [] false ?_]
              · refine follows_from reader after after_same result _ (ih _ [] rest after after_tuned ?_ blockSize ?_ (by omega) (by omega)
                  (.inl next_aligned) (fuel + 1) (by omega))
                · rw [after_same.1]
                  exact reader_tame
                · omega
              · obtain ⟨next_two, -, -⟩ := next_block_pos positive after after_tuned blockSize after_size
                rw [next_two, Nat.mod_self]
                omega
          · obtain ⟨after_eq, -, -⟩ := next_block_pos positive reader tuned (reader.nextBlockPos at_) (by omega)
            have apart : reader.nextBlockPos at_ ≠ reader.nextBlockPos (reader.nextBlockPos at_) := by
              have := Nat.mod_lt (reader.nextBlockPos at_) positive
              omega
            have plain := ih _ [] rest reader tuned reader_tame _ next_place next_bound (by omega) (.inl next_aligned) (fuel + 1) (by omega)
            rw [read_loop_inside fuel reader _ _ [] false apart] at plain
            rw [read_loop_inside fuel reader _ _ [] true apart]
            exact plain
    by_cases inside : pos < info.buffer.length
    · obtain ⟨next_eq, -, -⟩ := next_block_pos positive info attuned pos inside
      have := Nat.mod_lt pos positive
      rw [read_loop_inside (fuel + 1) info pos _ value false (by omega)]
      exact block info pos attuned ⟨rfl, rfl, rfl, rfl⟩ place inside
    · have at_end : pos = info.buffer.length := by omega
      subst at_end
      rw [next_pos_end info attuned]
      by_cases past : file.length ≤ offset
      · obtain ⟨after, after_tuned, same, looped⟩ := read_loop_past positive (fuel + 1) info attuned value (by omega)
        rw [scanFrom, if_pos past] at scanned
        cases scanned
        exact ⟨after, _, looped, after_tuned, same, agrees_end after value⟩
      · obtain ⟨after, after_tuned, same, direct, some_buffer, looped⟩ := read_loop_reload positive whole (fuel + 1) info attuned value (by omega)
        rw [looped]
        exact follows_from info after same result _ (block after 0 after_tuned same (by omega) some_buffer)

omit positive whole in
theorem set_status_positive (info : ReadInfo) (code : Int) (good : 0 < code) : info.setStatus code = { info with status := 0 } := by
  rw [ReadInfo.setStatus, if_pos good]

-- What a read at a place comes to, given what a scan finds there. The next read of a
-- reader starts where this one ended.
def Answers (blockSize startSeq : Nat) (file : Bytes) (offset : Nat) (result : Scanned) (read : Option (ReadInfo × ReadResult)) : Prop :=
  ∃ after answer, read = some (after, answer) ∧ Attuned blockSize startSeq file after ∧
    (after.status = 0 → after.directOffset ≤ after.offset ∧ after.offset ≤ after.directOffset + after.buffer.length) ∧
    match result with
    | .eof => answer = .eof ∧ after.offset = offset
    | .failed code => answer = (if code = LogError.deprecateBlk then .eof else .failed code) ∧ after.offset = offset
    | .found value next => answer = .value value offset next ∧ after.offset = next ∧ after.status = 0

omit positive whole in
theorem attuned_status (info : ReadInfo) (attuned : Attuned blockSize startSeq file info) (offset : Nat) (status : Int) :
    Attuned blockSize startSeq file { info with offset := offset, status := status } :=
  ⟨attuned.block, attuned.start, attuned.normal, attuned.aligned, attuned.whole, attuned.window, attuned.roomy, attuned.data⟩

theorem read_impl_answers (info : ReadInfo) (attuned : Attuned blockSize startSeq file info)
    (tame : Tame crc startSeq blockSize file info.offset) (small : file.length ≤ maxLogFileSize) (good : info.status = 0)
    (ready : info.directOffset ≤ info.offset ∧ info.offset ≤ info.directOffset + info.buffer.length) (turns : Nat) (result : Scanned)
    (few : turns ≤ file.length + 1) (scanned : scanFrom crc startSeq blockSize file turns info.offset [] = some result)
    (longer : ∀ value next, result = .found value next → info.offset + value.length < next) (known : ∀ code, result = .failed code → code < 0) :
    Answers blockSize startSeq file info.offset result ((directIOReadImpl crc file info).bind fun (info, result) => info.finish result) := by
  have low := Nat.le_trans attuned.data ready.1
  have pos_bound : info.offset - info.directOffset ≤ info.buffer.length := by omega
  by_cases far : maxLogFileSize ≤ info.offset
  · have eof : result = .eof := by
      obtain ⟨turns, rfl⟩ : ∃ less, turns = less + 1 := by
        cases turns with
        | zero => cases scanned
        | succ turns => exact ⟨turns, rfl⟩
      rw [scanFrom, if_pos (Nat.le_trans small far), if_pos rfl] at scanned
      cases scanned
      rfl
    subst eof
    rw [directIOReadImpl, asserting, if_pos good, if_pos far]
    exact ⟨_, _, rfl, attuned_status info attuned _ _, fun wrong => by simp [ReadInfo.setStatus] at wrong, rfl, rfl⟩
  · have bounds : info.offset - info.directOffset ≤ info.nextBlockPos (info.offset - info.directOffset) ∧
        info.nextBlockPos (info.offset - info.directOffset) ≤ info.buffer.length := by
      by_cases inside : info.offset - info.directOffset < info.buffer.length
      · obtain ⟨value, bound, -⟩ := next_block_pos positive info attuned _ inside
        exact ⟨by omega, bound⟩
      · have at_end : info.offset - info.directOffset = info.buffer.length := by omega
        rw [at_end, next_pos_end info attuned]
        exact ⟨Nat.le_refl _, Nat.le_refl _⟩
    obtain ⟨after, end_, looped, tuned, same, agrees⟩ := read_loop_follows positive whole turns info.offset [] result scanned info attuned tame
      (info.offset - info.directOffset) (by omega) pos_bound low (.inr ⟨rfl, rfl⟩) (2 * file.length + 3) (by omega)
    rw [directIOReadImpl, asserting, if_pos good, if_neg far, asserting, if_pos ready]
    dsimp only
    rw [asserting, if_pos bounds, looped, Option.bind_some]
    dsimp only
    cases result with
    | failed code =>
      cases end_ with
      | failed code' =>
        cases agrees
        have negative := known code rfl
        refine ⟨_, _, rfl, attuned_status after tuned _ _, fun wrong => ?_, rfl, same.1⟩
        simp only [ReadInfo.setStatus, if_neg (show ¬ 0 < code by omega), if_neg (show ¬ code = 0 by omega)] at wrong
        omega
      | eof => exact agrees.elim
      | found => exact agrees.elim
    | eof =>
      cases end_ with
      | failed => exact agrees.elim
      | eof => exact ⟨_, _, rfl, attuned_status after tuned _ _, fun wrong => by simp [ReadInfo.setStatus] at wrong, rfl, same.1⟩
      | found => exact agrees.elim
    | found value next =>
      cases end_ with
      | failed => exact agrees.elim
      | eof => exact agrees.elim
      | found value' pos =>
        obtain ⟨rfl, rfl, bound⟩ := agrees
        have long := longer value _ rfl
        rw [ReadInfo.finish, asserting, if_pos ⟨by rw [same.1]; omega, by rw [same.1]; omega, bound⟩]
        refine ⟨_, _, rfl, attuned_status after tuned _ _, fun _ => ?_, ?_, rfl, rfl⟩
        · dsimp only [ReadInfo.setStatus]
          omega
        · rw [same.1]

end Loop

end PaxosStore.DbComm
