import PaxosStore.DbComm.LogTame

set_option autoImplicit false

namespace PaxosStore.DbComm

open PaxosStore.Codec
open PaxosStore.PaxosKv

-- The first bytes of a file.
def fileMetaHead (startSeq blockSize : Nat) : Bytes := recordBytes (fileMetaRecord startSeq blockSize) fileMetaSize

theorem file_meta_length (startSeq blockSize : Nat) : (fileMetaBytes startSeq blockSize).length = 13 := by
  simp [fileMetaBytes, little_length]

theorem file_meta_size (startSeq blockSize : Nat) :
    recordSize (fileMetaRecord startSeq blockSize).key.length (fileMetaRecord startSeq blockSize).val.length = fileMetaSize := by
  simp [fileMetaRecord, file_meta_length, record_size_eq, fileMetaSize]

theorem file_meta_admitted (startSeq blockSize : Nat) : Admitted (fileMetaRecord startSeq blockSize) := by
  refine ⟨by simp [fileMetaRecord, keyRoom], ?_⟩
  rw [file_meta_size]
  decide

theorem meta_head_length (startSeq blockSize : Nat) : (fileMetaHead startSeq blockSize).length = fileMetaSize := by
  rw [fileMetaHead, record_bytes_length, file_meta_size]

theorem meta_written (startSeq blockSize : Nat) (large : fileMetaSize < blockSize) :
    dumpFileMetaInfo startSeq blockSize = some (fileMetaHead startSeq blockSize) := by
  have size : calculateRecordSize (fileMetaRecord startSeq blockSize) = (fileMetaSize : Int) := by
    rw [admitted_size _ (file_meta_admitted startSeq blockSize), file_meta_size]
  rw [dumpFileMetaInfo, asserting, if_pos (by rw [size]; omega),
    to_buffer_admitted _ (file_meta_admitted startSeq blockSize) _ (by rw [size]; omega), file_meta_size]
  rfl

theorem meta_fields (startSeq blockSize : Nat) (seq_small : startSeq < 2 ^ 64) (size_small : blockSize < 2 ^ 31) :
    (⟨fromLittle (((fileMetaBytes startSeq blockSize).drop 1).take 8), int32 (fromLittle ((fileMetaBytes startSeq blockSize).drop 9))⟩ : FileMeta) =
      ⟨startSeq, blockSize⟩ := by
  have first : ((fileMetaBytes startSeq blockSize).drop 1).take 8 = little 8 startSeq := by
    rw [fileMetaBytes, List.drop_succ_cons, List.drop_zero, List.take_left' (little_length 8 startSeq)]
  have second : (fileMetaBytes startSeq blockSize).drop 9 = little 4 blockSize := by
    rw [fileMetaBytes, List.drop_succ_cons, List.drop_left' (little_length 8 startSeq)]
  rw [first, second, from_little 8 startSeq seq_small, from_little 4 blockSize (by omega), int32_small blockSize size_small]

theorem meta_found (startSeq blockSize : Nat) (rest : Bytes) (seq_small : startSeq < 2 ^ 64) (size_small : blockSize < 2 ^ 31) :
    tryPickleFileMetaInfo (fileMetaHead startSeq blockSize ++ rest) = some (.found ⟨startSeq, blockSize⟩) := by
  have read := to_record_of_bytes (fileMetaRecord startSeq blockSize) (file_meta_admitted startSeq blockSize) rest
  rw [file_meta_size] at read
  have shape : ∃ a b c d e f tail, fileMetaHead startSeq blockSize ++ rest = startFlag :: 0xFF :: a :: b :: c :: d :: e :: f :: tail := by
    rw [fileMetaHead, record_bytes_append]
    exact ⟨_, _, _, _, _, _, _, rfl⟩
  rw [← fileMetaHead] at read
  obtain ⟨a, b, c, d, e, f, tail, shape⟩ := shape
  rw [shape] at read ⊢
  rw [tryPickleFileMetaInfo, if_neg (not_not.mpr rfl), if_neg (not_not.mpr rfl), read]
  dsimp only [fileMetaRecord]
  rw [if_neg (not_not.mpr (file_meta_length startSeq blockSize)), meta_fields startSeq blockSize seq_small size_small]

-- A file that a reader can be opened on: its meta info, and blocks that spell `values`.
structure Readable (crc : Crc32c) (blockSize startSeq : Nat) (file : Bytes) (blocks : List Block) (values : List Bytes) : Prop where
  started : startSeq ≠ 0
  numbered : startSeq < 2 ^ 64
  paged : pageSize ≤ blockSize
  small : blockSize ≤ 256 * 1024 * 1024
  bounded : file.length ≤ maxLogFileSize
  head : ∃ rest, file = fileMetaHead startSeq blockSize ++ rest
  image : Image crc blockSize startSeq file blocks
  spelt : Spells [] blocks values

-- An offset where `values` start.
def Placed (blockSize : Nat) (blocks : List Block) (offset : Nat) (values : List Bytes) : Prop :=
  ∃ todo after, Stands blockSize blocks offset todo after ∧ Spells todo after values

-- A reader that has `values` left.
def Reads (blockSize startSeq : Nat) (file : Bytes) (blocks : List Block) (info : ReadInfo) (values : List Bytes) : Prop :=
  Attuned blockSize startSeq file info ∧
    (info.status = 0 → info.directOffset ≤ info.offset ∧ info.offset ≤ info.directOffset + info.buffer.length) ∧
    Placed blockSize blocks info.offset values

section Sessions

variable {crc : Crc32c} {blockSize startSeq : Nat} {file : Bytes} {blocks : List Block} {written : List Bytes}
  (readable : Readable crc blockSize startSeq file blocks written)
include readable

theorem block_positive : 0 < blockSize := Nat.lt_of_lt_of_le (by decide) readable.paged

theorem whole_blocks : file.length % blockSize = 0 := by
  rw [image_length readable.image, Nat.mul_mod_left]

omit readable in
theorem stands_low (offset : Nat) (todo : List Part) (after : List Block) (stands : Stands blockSize blocks offset todo after) :
    blockSize ≤ offset := by
  obtain ⟨before, seq, done, -, rfl⟩ := stands
  rw [Nat.add_mul]
  omega

-- What a scan finds at a place, within as many turns as a reader makes.
theorem placed_scan (offset : Nat) (values : List Bytes) (placed : Placed blockSize blocks offset values) :
    Tame crc startSeq blockSize file offset ∧ blockSize ≤ offset ∧
      ∃ turns result, turns ≤ file.length + 1 ∧ scanFrom crc startSeq blockSize file turns offset [] = some result ∧
        Finds blockSize blocks offset values result := by
  have positive := block_positive readable
  obtain ⟨todo, after, stands, spelt⟩ := placed
  have tame := image_tame readable.image readable.started positive offset todo after stands
  have low := stands_low offset todo after stands
  obtain ⟨before, seq, done, split, rfl⟩ := stands
  have count : blocks.length = before.length + (after.length + 1) := by rw [split, List.length_append, List.length_cons]
  have size := image_length readable.image
  have long : blocks.length + 1 ≤ file.length := by
    rw [size]
    exact Nat.le_mul_of_pos_right _ positive
  obtain ⟨result, scanned, finds⟩ := scan_spells readable.image readable.started todo after values spelt before seq done split
    (blocks.length + 1) (by omega)
  exact ⟨tame, low, blocks.length + 1, result, by omega, scanned, finds⟩

-- What a call answers when `values` are left at its place.
def Returns (blockSize startSeq : Nat) (file : Bytes) (blocks : List Block) (offset : Nat) (read : Option (ReadInfo × ReadResult)) :
    List Bytes → Prop
  | [] => ∃ after, read = some (after, .eof) ∧ Reads blockSize startSeq file blocks after []
  | value :: values => ∃ after next, read = some (after, .value value offset next) ∧ Reads blockSize startSeq file blocks after values

omit readable in
theorem answers_return (offset : Nat) (values : List Bytes) (placed : Placed blockSize blocks offset values) (result : Scanned)
    (finds : Finds blockSize blocks offset values result) (read : Option (ReadInfo × ReadResult))
    (answers : Answers blockSize startSeq file offset result read) : Returns blockSize startSeq file blocks offset read values := by
  obtain ⟨after, answer, ran, attuned, ready, rest⟩ := answers
  cases values with
  | nil =>
    cases finds
    obtain ⟨rfl, same⟩ := rest
    exact ⟨after, ran, attuned, ready, by rw [same]; exact placed⟩
  | cons value values =>
    obtain ⟨next, todo, behind, rfl, stands, -, spelt⟩ := finds
    obtain ⟨rfl, same, -⟩ := rest
    exact ⟨after, next, ran, attuned, ready, by rw [same]; exact ⟨todo, behind, stands, spelt⟩⟩

omit readable in
theorem finds_known (offset : Nat) (values : List Bytes) (result : Scanned) (finds : Finds blockSize blocks offset values result) :
    (∀ value next, result = .found value next → offset + value.length < next) ∧ ∀ code, result = .failed code → code < 0 := by
  cases values with
  | nil =>
    cases finds
    exact ⟨fun _ _ wrong => Scanned.noConfusion wrong, fun _ wrong => Scanned.noConfusion wrong⟩
  | cons value values =>
    obtain ⟨next, todo, behind, rfl, -, long, -⟩ := finds
    refine ⟨fun found place same => ?_, fun _ wrong => Scanned.noConfusion wrong⟩
    cases same
    exact long

theorem read_returns (info : ReadInfo) (values : List Bytes) (reads : Reads blockSize startSeq file blocks info values) :
    Returns blockSize startSeq file blocks info.offset (directIORead crc file info) values := by
  obtain ⟨attuned, ready, placed⟩ := reads
  obtain ⟨tame, low, turns, result, few, scanned, finds⟩ := placed_scan readable info.offset values placed
  obtain ⟨longer, known⟩ := finds_known info.offset values result finds
  exact answers_return info.offset values placed result finds _
    (read_answers (block_positive readable) (whole_blocks readable) readable.bounded info attuned tame low ready turns result few scanned longer known)

theorem read_at_returns (info : ReadInfo) (left : List Bytes) (reads : Reads blockSize startSeq file blocks info left) (offset : Nat)
    (values : List Bytes) (placed : Placed blockSize blocks offset values) :
    Returns blockSize startSeq file blocks offset (directIOReadAt crc file info offset) values := by
  obtain ⟨tame, low, turns, result, few, scanned, finds⟩ := placed_scan readable offset values placed
  obtain ⟨longer, known⟩ := finds_known offset values result finds
  exact answers_return offset values placed result finds _
    (read_at_answers (block_positive readable) (whole_blocks readable) readable.bounded info reads.1 offset tame low turns result few scanned
      longer known)

-- The place after the meta info.
theorem placed_first (some_blocks : blocks ≠ []) : Placed blockSize blocks blockSize written := by
  obtain ⟨block, rest, rfl⟩ := List.exists_cons_of_ne_nil some_blocks
  cases readable.spelt with
  | next _ _ _ spelt =>
    exact ⟨block.parts, rest, ⟨[], block.seq, [], rfl, by simp [reach]⟩, spelt⟩

theorem page_inside : pageSize ≤ file.length := by
  have paged := readable.paged
  rw [image_length readable.image, Nat.add_mul]
  omega

-- CreateADirectIOReadInfo finds the meta info.
theorem opens (maxBuf : Nat) (pages : maxBuf % pageSize = 0) :
    createADirectIOReadInfo file maxBuf = some (.reader ⟨false, false, blockSize, startSeq,
      max (max pageSize maxBuf / blockSize * blockSize) (2 * blockSize), blockSize, blockSize, [], 0⟩) := by
  obtain ⟨rest, shape⟩ := readable.head
  have paged := readable.paged
  have limit := readable.small
  have long := page_inside readable
  have page_length : (pread file pageSize 0).length = pageSize := by
    rw [pread_length]
    omega
  have page : pread file pageSize 0 = fileMetaHead startSeq blockSize ++ rest.take (pageSize - fileMetaSize) := by
    rw [pread, List.drop_zero, shape, List.take_append, meta_head_length,
      List.take_of_length_le (by rw [meta_head_length]; decide)]
  have buffer_pages : max pageSize maxBuf % pageSize = 0 := by
    rcases Nat.le_total pageSize maxBuf with more | less
    · rw [Nat.max_eq_right more]
      exact pages
    · rw [Nat.max_eq_left less, Nat.mod_self]
  rw [createADirectIOReadInfo]
  dsimp only
  rw [asserting, if_pos buffer_pages, if_neg (not_not.mpr page_length), page,
    meta_found startSeq blockSize _ readable.numbered (by omega), Option.bind_some]
  dsimp only
  rw [if_neg, Int.toNat_natCast]
  rintro (wrong | wrong | wrong)
  · omega
  · omega
  · exact readable.started wrong

theorem open_reads (some_blocks : blocks ≠ []) (maxBuf : Nat) (pages : maxBuf % pageSize = 0) :
    ∃ info, createADirectIOReadInfo file maxBuf = some (.reader info) ∧ Reads blockSize startSeq file blocks info written :=
  ⟨_, opens readable maxBuf pages,
    ⟨rfl, rfl, rfl, Nat.mod_self _, Nat.zero_mod _, rfl, Nat.le_max_right _ _, Nat.le_refl _⟩,
    fun _ => ⟨Nat.le_refl _, Nat.le_refl _⟩, placed_first readable some_blocks⟩

end Sessions

-- A caller that reads until there is no value.
def readValues (crc : Crc32c) (file : Bytes) : Nat → ReadInfo → Option (List Bytes × ReadInfo × ReadResult)
  | 0, _ => none
  | fuel + 1, info =>
      (directIORead crc file info).bind fun
      | (info, .value bytes _ _) => (readValues crc file fuel info).map fun (values, rest) => (bytes :: values, rest)
      | (info, result) => some ([], info, result)

theorem read_values_all {crc : Crc32c} {blockSize startSeq : Nat} {file : Bytes} {blocks : List Block} {written : List Bytes}
    (readable : Readable crc blockSize startSeq file blocks written) (values : List Bytes) (info : ReadInfo)
    (reads : Reads blockSize startSeq file blocks info values) (fuel : Nat) (enough : values.length < fuel) :
    ∃ after, readValues crc file fuel info = some (values, after, .eof) ∧ Reads blockSize startSeq file blocks after [] := by
  induction values generalizing info fuel with
  | nil =>
    obtain ⟨fuel, rfl⟩ : ∃ less, fuel = less + 1 := ⟨fuel - 1, by omega⟩
    obtain ⟨after, ran, left⟩ := read_returns readable info [] reads
    exact ⟨after, by rw [readValues, ran]; rfl, left⟩
  | cons value values ih =>
    obtain ⟨fuel, rfl⟩ : ∃ less, fuel = less + 1 := ⟨fuel - 1, by omega⟩
    obtain ⟨after, next, ran, left⟩ := read_returns readable info (value :: values) reads
    obtain ⟨last, later, none_left⟩ := ih after left fuel (by simpa using enough)
    refine ⟨last, ?_, none_left⟩
    rw [readValues, ran]
    dsimp only [Option.bind_some]
    rw [later]
    rfl

end PaxosStore.DbComm
