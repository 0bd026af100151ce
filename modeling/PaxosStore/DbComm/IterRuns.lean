import PaxosStore.DbComm.IterWriter

set_option autoImplicit false

namespace PaxosStore.DbComm

open PaxosStore.Codec
open PaxosStore.PaxosKv

-- The block size of a log, and the buffer of a writer of it.
structure BlockSound (blockSize : Nat) : Prop where
  paged : pageSize ≤ blockSize
  pages : blockSize % pageSize = 0
  limit : blockSize ≤ 2 ^ 16

structure Settings.Sound (blockSize : Nat) (settings : Settings) : Prop where
  memory : settings.memory.length = settings.maxBuf
  whole : settings.maxBuf % blockSize = 0
  roomy : 3 * blockSize ≤ settings.maxBuf
  bounded : settings.maxBuf < 2 ^ 31

-- What CreateADirectIOWriteInfo makes of sound settings.
def Settings.writer (settings : Settings) (blockSize seq offset : Nat) : WriteInfo :=
  ⟨blockSize, settings.maxBuf, max 0 (headerSize + recordSize 0 0 + 8), seq, seq, offset, offset, settings.memory, settings.strategy, 0⟩

section Starts

variable {blockSize : Nat} (sound : BlockSound blockSize) (settings : Settings) (fits : settings.Sound blockSize)
include sound fits

theorem settings_tuned (startSeq : Nat) (started : startSeq ≠ 0) (numbered : startSeq + 2 ^ 32 < 2 ^ 64) :
    Tuned blockSize settings.maxBuf (max 0 (headerSize + recordSize 0 0 + 8)) startSeq :=
  ⟨sound.paged, sound.limit, by decide, Nat.lt_of_lt_of_le (by decide) sound.paged, fits.whole, fits.roomy, fits.bounded, started, numbered⟩

theorem init_writes (older : List Bytes) (file : Bytes) (seq offset : Nat) (started : seq ≠ 0) (aligned : offset % blockSize = 0)
    (bound : offset ≤ maxLogFileSize) :
    initLogIterWriter blockSize settings older file seq offset = some ⟨settings.writer blockSize seq offset, older, file⟩ := by
  have positive : 0 < blockSize := Nat.lt_of_lt_of_le (by decide) sound.paged
  have short : max 0 (headerSize + recordSize 0 0 + 8) < blockSize := Nat.lt_of_lt_of_le (by decide) sound.paged
  have start : (min maxLogFileSize offset + blockSize - 1) / blockSize * blockSize = offset := by
    obtain ⟨count, total⟩ := Nat.dvd_of_mod_eq_zero aligned
    rw [Nat.min_eq_right bound, total, Nat.add_sub_assoc positive, Nat.mul_add_div positive,
      Nat.div_eq_of_lt (Nat.sub_lt positive Nat.one_pos), Nat.add_zero, Nat.mul_comm]
  have roomy := fits.roomy
  rw [initLogIterWriter, createADirectIOWriteInfo]
  dsimp only
  rw [asserting_pos _ _ ⟨started, by omega, sound.paged, sound.pages, fits.whole, short, fits.memory⟩, start]
  rfl

end Starts

-- A writer at the begin of an empty file.
theorem kept_empty {crc : Crc32c} {fileSeq : Nat} {info : WriteInfo} (tuned : Tuned info.blockSize info.maxBuf info.minTail fileSeq)
    (size : info.buffer.length = info.maxBuf) (offset : info.offset = 0) (direct : info.directOffset = 0) (started : info.startSeq = fileSeq)
    (seq : info.seq = fileSeq) : Kept crc fileSeq info [] [] [] [] [] := by
  have positive := tuned_positive tuned
  have head := enters_head tuned
  refine ⟨⟨tuned, size, offset.symm, by rw [direct, Nat.zero_mod], by rw [direct]; exact Nat.zero_le _, by rw [offset]; exact Nat.zero_le _, ?_, ?_,
    .inl ⟨rfl, started, seq, rfl, rfl, rfl⟩⟩, Nat.zero_le _, fun _ => rfl, 0, positive, Nat.zero_mod _, rfl⟩
  · rw [offset, Nat.zero_mod]
    exact head
  · rw [offset, direct, Nat.sub_self, List.take_zero, List.drop_nil, List.drop_nil]

-- What a file holds: nothing was written to it, or its blocks spell the values.
def FileHolds (crc : Crc32c) (file : Bytes) (values : List Bytes) (offsets : List Nat) : Prop :=
  (file = [] ∧ values = [] ∧ offsets = []) ∨
    ∃ blockSize startSeq blocks, blocks ≠ [] ∧ Readable crc blockSize startSeq file blocks values ∧ offsets.length = values.length ∧
      ∀ i offset, offsets[i]? = some offset → Placed blockSize blocks offset (values.drop i)

section Files

variable {crc : Crc32c} {fileSeq : Nat} {info : WriteInfo} {file content : Bytes} {blocks : List Block} {values : List Bytes} {offsets : List Nat}
  (kept : Kept crc fileSeq info file content blocks values offsets)
include kept

-- The whole of a file that has been written to.
theorem kept_whole (some_values : values ≠ []) : Content crc info.blockSize fileSeq file info.seq blocks values offsets ∧
    file.length % info.blockSize = 0 ∧ blocks ≠ [] := by
  rcases kept.holds with ⟨_, _, _, _, none_left, _⟩ | holds
  · exact absurd none_left some_values
  · obtain ⟨room, short, filled, rfl⟩ := kept.stored
    refine ⟨content_padded holds room filled short, ?_, content_blocks holds some_values⟩
    rw [List.length_append, List.length_replicate]
    exact filled

theorem kept_untouched (none_left : values = []) : file = [] ∧ offsets = [] := by
  have empty := kept.filled none_left
  rcases kept.holds with ⟨_, _, _, _, _, none_offsets⟩ | holds
  · obtain ⟨room, short, filled, rfl⟩ := kept.stored
    rw [empty, List.length_nil, Nat.zero_add, Nat.mod_eq_of_lt short] at filled
    exact ⟨by rw [empty, filled]; rfl, none_offsets⟩
  · have least := content_head holds
    have positive := tuned_positive kept.tuned
    rw [empty, List.length_nil] at least
    omega

theorem kept_readable (some_values : values ≠ []) : Readable crc info.blockSize fileSeq file blocks values := by
  obtain ⟨holds, aligned, _⟩ := kept_whole kept some_values
  exact content_readable kept.tuned holds aligned kept.bound

theorem kept_file_holds : FileHolds crc file values offsets := by
  by_cases some_values : values = []
  · obtain ⟨empty, none_offsets⟩ := kept_untouched kept some_values
    exact .inl ⟨empty, some_values, none_offsets⟩
  · obtain ⟨holds, _, some_blocks⟩ := kept_whole kept some_values
    exact .inr ⟨info.blockSize, fileSeq, blocks, some_blocks, kept_readable kept some_values, holds.count, holds.placed⟩

-- The numbers of one file.
theorem kept_numbers : fileSeq ≤ info.seq ∧ info.seq ≤ fileSeq + 2 ^ 19 := by
  rcases kept.holds with ⟨_, _, seq, _⟩ | holds
  · omega
  · have bound := content_seq holds kept.tuned
    have least := holds.seq.1
    have file_bound := kept.bound
    obtain ⟨room, _, _, stored⟩ := kept.stored
    rw [stored, List.length_append] at file_bound
    simp only [maxLogFileSize] at file_bound
    omega

-- IterIntoNextFile
theorem kept_next (started : fileSeq ≠ 0) (numbered : fileSeq + 2 ^ 19 + 2 ^ 32 < 2 ^ 64) :
    Kept crc info.seq { info with startSeq := info.seq, offset := 0, directOffset := 0 } [] [] [] [] [] := by
  obtain ⟨least, most⟩ := kept_numbers kept
  have tuned := kept.tuned
  refine kept_empty ⟨tuned.paged, tuned.limit, tuned.header, tuned.short, tuned.whole, tuned.roomy, tuned.bounded, ?_, ?_⟩ kept.size rfl rfl rfl rfl
  · omega
  · omega

-- A start over the file goes on behind its last block.
theorem kept_reopened (some_values : values ≠ []) (sound : BlockSound info.blockSize) (settings : Settings) (fits : settings.Sound info.blockSize) :
    Kept crc fileSeq (settings.writer info.blockSize (lastSeq fileSeq blocks + 1) file.length) file file blocks values offsets := by
  obtain ⟨holds, aligned, some_blocks⟩ := kept_whole kept some_values
  have tuned := settings_tuned sound settings fits fileSeq kept.tuned.started kept.tuned.numbered
  have positive := tuned_positive tuned
  obtain ⟨last, there, last_seq⟩ := last_seq_mem fileSeq blocks some_blocks
  have current := holds.current last there
  have head := enters_head tuned
  refine ⟨⟨tuned, fits.memory, rfl, aligned, Nat.le_refl _, Nat.le_add_right _ _, ?_, ?_, .inr ?_⟩, kept.bound, fun none_left => absurd none_left some_values,
    0, positive, aligned, ?_⟩
  · rw [show (settings.writer info.blockSize (lastSeq fileSeq blocks + 1) file.length).offset %
      (settings.writer info.blockSize (lastSeq fileSeq blocks + 1) file.length).blockSize = 0 from aligned]
    exact head
  · dsimp only [Settings.writer]
    rw [Nat.sub_self, List.take_zero, List.drop_nil, List.drop_eq_nil_of_le (Nat.le_add_right _ _)]
  · refine ⟨holds.parts, ?_, holds.current, holds.spelt, holds.count, holds.placed⟩
    dsimp only [Settings.writer]
    rw [last_seq]
    omega
  · rw [List.replicate_zero, List.append_nil]

end Files

-- The pieces of the blocks.
def partCount (blocks : List Block) : Nat := (blocks.map (fun block => block.parts.length)).sum

theorem part_count_cons (block : Block) (rest : List Block) : partCount (block :: rest) = block.parts.length + partCount rest := by
  rw [partCount, List.map_cons, List.sum_cons]
  rfl

theorem continues_fewer (before value : Bytes) (blocks after : List Block) (todo : List Part) (goes : Continues before blocks value todo after) :
    todo.length + partCount after ≤ partCount blocks := by
  induction goes with
  | last before bytes todo seq after =>
      rw [part_count_cons, List.length_cons]
      omega
  | middle before bytes value todo seq blocks after rest ih =>
      rw [part_count_cons]
      exact Nat.le_trans ih (Nat.le_add_left _ _)

-- Every value has a piece of its own.
theorem spells_fewer (todo : List Part) (blocks : List Block) (values : List Bytes) (spelt : Spells todo blocks values) :
    values.length ≤ todo.length + partCount blocks := by
  induction spelt with
  | done => exact Nat.zero_le _
  | next block blocks values rest ih =>
      rw [part_count_cons]
      exact Nat.le_trans ih (Nat.le_add_left _ _)
  | full bytes todo blocks values rest ih =>
      rw [List.length_cons, List.length_cons]
      omega
  | split bytes value todo blocks after values goes rest ih =>
      have fewer := continues_fewer bytes value blocks after todo goes
      rw [List.length_cons, List.length_singleton]
      omega

theorem parts_fewer (parts : List Part) : parts.length ≤ partsSize parts := by
  induction parts with
  | nil => exact Nat.zero_le _
  | cons part rest ih =>
      rw [show partsSize (part :: rest) = part.size + partsSize rest from rfl, Part.size, List.length_cons]
      simp only [headerSize]
      omega

theorem part_count_bound (blocks : List Block) (blockSize : Nat) (small : ∀ block ∈ blocks, block.parts.length ≤ blockSize) :
    partCount blocks ≤ blocks.length * blockSize := by
  induction blocks with
  | nil => exact Nat.zero_le _
  | cons block rest ih =>
      have first := small block (List.mem_cons_self ..)
      have later := ih (fun other there => small other (List.mem_cons_of_mem _ there))
      rw [part_count_cons, List.length_cons, Nat.add_mul]
      omega

theorem values_fewer {crc : Crc32c} {blockSize startSeq : Nat} {file : Bytes} {blocks : List Block} {values : List Bytes}
    (readable : Readable crc blockSize startSeq file blocks values) : values.length ≤ file.length := by
  have fewer := spells_fewer [] blocks values readable.spelt
  have bound := part_count_bound blocks blockSize (fun block there => by
    obtain ⟨before, after, split⟩ := List.append_of_mem there
    have fits := parts_fit readable.image before block after split
    have parts := parts_fewer block.parts
    omega)
  have size := image_length readable.image
  rw [Nat.add_mul] at size
  rw [List.length_nil] at fewer
  omega

section Restarts

variable {crc : Crc32c} {blockSize : Nat} (sound : BlockSound blockSize) (settings : Settings) (fits : settings.Sound blockSize)
include sound fits

-- A start without files, or behind a file that nothing was written to.
theorem restart_fresh (files : List Bytes) (fresh : files = [] ∨ ∃ older, files = older ++ [[]]) :
    restart crc blockSize settings files = some (.ok ⟨settings.writer blockSize 1 0, files, []⟩) := by
  have init := init_writes sound settings fits files [] 1 0 Nat.one_ne_zero (Nat.zero_mod _) (Nat.zero_le _)
  rcases fresh with rfl | ⟨older, rfl⟩
  · rw [restart, List.getLast?_nil]
    dsimp only
    rw [init]
    rfl
  · have empty : isLevelDBLogFormat [] = some 0 := by
      rw [isLevelDBLogFormat, pread, List.drop_nil, List.take_nil]
      rfl
    rw [restart, List.getLast?_append, List.getLast?_singleton, Option.some_or]
    dsimp only
    rw [empty, Option.bind_some, if_neg (by decide), if_pos rfl, init]
    rfl

theorem restart_finds {startSeq : Nat} {file : Bytes} {blocks : List Block} {values : List Bytes}
    (readable : Readable crc blockSize startSeq file blocks values) (some_blocks : blocks ≠ []) (older : List Bytes) :
    restart crc blockSize settings (older ++ [file]) =
      some (.ok ⟨settings.writer blockSize (lastSeq startSeq blocks + 1) file.length, older, file⟩) := by
  have inside := page_inside readable
  have large : blockMetaSize < blockSize := Nat.lt_of_lt_of_le (by decide) sound.paged
  obtain ⟨rest, shape⟩ := readable.head
  have page : pread file pageSize 0 = fileMetaHead startSeq blockSize ++ rest.take (pageSize - fileMetaSize) := by
    rw [pread, List.drop_zero, shape, List.take_append, meta_head_length, List.take_of_length_le (by rw [meta_head_length]; decide)]
  have limit := sound.limit
  have format : isLevelDBLogFormat file = some 1 := by
    have length : (pread file pageSize 0).length = pageSize := by
      rw [pread_length]
      omega
    rw [isLevelDBLogFormat, if_neg (not_not.mpr length), page, meta_found startSeq blockSize _ readable.numbered (by omega)]
    rfl
  have pages : 1024 * blockSize % pageSize = 0 := by rw [Nat.mul_mod, sound.pages, Nat.mul_zero, Nat.zero_mod]
  have found : readMetaInfo crc file (1024 * (blockSize : Int)) = some (.found blockSize (lastSeq startSeq blocks) file.length) :=
    read_meta_info_finds readable large (1024 * blockSize) pages
  obtain ⟨reader, attached, mapped, good, ready, placed⟩ := attaches readable some_blocks
  have check : finalCheck crc file = some true := by
    rw [finalCheck, attached, Option.bind_some]
    exact reads_to_end readable values reader mapped good ready placed (file.length + 1) (Nat.lt_succ_of_le (values_fewer readable))
  obtain ⟨last, there, last_seq⟩ := last_seq_mem startSeq blocks some_blocks
  have current := readable.image.current last there
  have init := init_writes sound settings fits older file (lastSeq startSeq blocks + 1) file.length (Nat.succ_ne_zero _) (whole_blocks readable)
    readable.bounded
  rw [restart, List.getLast?_append, List.getLast?_singleton, Option.some_or]
  dsimp only
  rw [format, Option.bind_some, if_neg (by decide), if_neg (by decide)]
  rw [found, Option.bind_some]
  dsimp only
  rw [asserting_pos _ _ ⟨by omega, rfl⟩, check, Option.bind_some, if_pos rfl, List.dropLast_concat, init]
  rfl

end Restarts

-- The values of the files, and where each of them is.
def gathered (held : List (List Bytes × List Nat)) : List Bytes := held.flatMap Prod.fst

def placesFrom : Nat → List (List Bytes × List Nat) → List (Nat × Nat)
  | _, [] => []
  | fileNo, held :: rest => held.2.map (fun offset => (fileNo, offset)) ++ placesFrom (fileNo + 1) rest

theorem gathered_snoc (closed : List (List Bytes × List Nat)) (values : List Bytes) (offsets : List Nat) :
    gathered (closed ++ [(values, offsets)]) = gathered closed ++ values := by
  rw [gathered, List.flatMap_append, List.flatMap_singleton]
  rfl

theorem places_snoc (fileNo : Nat) (closed : List (List Bytes × List Nat)) (values : List Bytes) (offsets : List Nat) :
    placesFrom fileNo (closed ++ [(values, offsets)]) =
      placesFrom fileNo closed ++ offsets.map (fun offset => (fileNo + closed.length, offset)) := by
  induction closed generalizing fileNo with
  | nil => exact List.append_nil _
  | cons held rest ih =>
      rw [List.cons_append, placesFrom, placesFrom, ih, List.append_assoc, List.length_cons, Nat.add_assoc, Nat.add_comm 1]

-- A log between two events. `spare` is how many more block numbers there are, and `room` what
-- every buffer has.
structure LogHolds (crc : Crc32c) (blockSize room spare : Nat) (writer : IterWriter) (closed : List (List Bytes × List Nat)) (values : List Bytes)
    (offsets : List Nat) : Prop where
  block : writer.info.blockSize = blockSize
  room : room ≤ writer.info.maxBuf
  older : List.Forall₂ (fun file held => FileHolds crc file held.1 held.2) writer.older closed
  current : ∃ fileSeq content blocks, Kept crc fileSeq writer.info writer.file content blocks values offsets ∧
    fileSeq + spare + 2 ^ 32 < 2 ^ 64

-- What an event adds to the values of a log.
def Adds (crc : Crc32c) (blockSize room spare : Nat) (writer : IterWriter) (held : List (List Bytes × List Nat)) (added : List Bytes)
    (places : List (Nat × Nat)) : Prop :=
  ∃ closed values offsets, LogHolds crc blockSize room spare writer closed values offsets ∧
    gathered (closed ++ [(values, offsets)]) = gathered held ++ added ∧
    placesFrom 1 (closed ++ [(values, offsets)]) = placesFrom 1 held ++ places

section Events

variable {crc : Crc32c} {blockSize room spare : Nat} {writer : IterWriter} {closed : List (List Bytes × List Nat)} {values : List Bytes}
  {offsets : List Nat}

theorem file_number (older : List.Forall₂ (fun file held => FileHolds crc file held.1 held.2) writer.older closed) :
    writer.fileNo = 1 + closed.length := by
  rw [IterWriter.fileNo, older.length_eq]
  exact Nat.add_comm _ _

-- A call that stays in its file.
theorem adds_here (older : List.Forall₂ (fun file held => FileHolds crc file held.1 held.2) writer.older closed) (info : WriteInfo) (file : Bytes)
    (block : info.blockSize = blockSize) (roomy : room ≤ info.maxBuf) (added : List Bytes) (reports : List Nat)
    (current : ∃ fileSeq content blocks, Kept crc fileSeq info file content blocks (values ++ added) (offsets ++ reports) ∧
      fileSeq + spare + 2 ^ 32 < 2 ^ 64) :
    Adds crc blockSize room spare ⟨info, writer.older, file⟩ (closed ++ [(values, offsets)]) added
      (reports.map (fun offset => (writer.fileNo, offset))) := by
  refine ⟨closed, values ++ added, offsets ++ reports, ⟨block, roomy, older, current⟩, ?_, ?_⟩
  · rw [gathered_snoc, gathered_snoc, List.append_assoc]
  · rw [places_snoc, places_snoc, List.map_append, List.append_assoc, file_number older]

-- What a call leaves, of a log with the values it had or with those of the call. Only a call
-- that is too large is refused.
def Called (crc : Crc32c) (blockSize room spare : Nat) (held : List (List Bytes × List Nat)) (call : LogCall)
    (result : IterWriter × Except Int (Nat × List Nat)) : Prop :=
  match result.2 with
  | .error _ => Adds crc blockSize room spare result.1 held [] [] ∧ min room maxLogFileSize < call.load.bound blockSize
  | .ok (fileNo, offsets) => Adds crc blockSize room spare result.1 held call.values (offsets.map (fun offset => (fileNo, offset)))

theorem called_here (older : List.Forall₂ (fun file held => FileHolds crc file held.1 held.2) writer.older closed) {fileSeq : Nat}
    (numbered : fileSeq + spare + 2 ^ 32 < 2 ^ 64) (call : LogCall) (info : WriteInfo) (file : Bytes)
    (result : Except Int (List Nat)) (block : info.blockSize = blockSize) (roomy : room ≤ info.maxBuf) (content : Bytes) (blocks : List Block)
    (leaves : match result with
      | .error _ => Kept crc fileSeq info file content blocks values offsets ∧ min room maxLogFileSize < call.load.bound blockSize
      | .ok reports => Kept crc fileSeq info file content blocks (values ++ call.values) (offsets ++ reports)) :
    Called crc blockSize room spare (closed ++ [(values, offsets)]) call (writer.after (info, file, result)) := by
  cases result with
  | error code =>
      refine ⟨adds_here older info file block roomy [] [] ⟨fileSeq, content, blocks, ?_, numbered⟩, leaves.2⟩
      rw [List.append_nil, List.append_nil]
      exact leaves.1
  | ok reports => exact adds_here older info file block roomy call.values reports ⟨fileSeq, content, blocks, leaves, numbered⟩

theorem admitted_filled (call : LogCall) (admitted : call.Admitted blockSize) : call.vacant = false := by
  obtain ⟨some_values, filled, _⟩ := admitted
  cases call with
  | write value => exact List.isEmpty_eq_false_iff.mpr (filled value (List.mem_singleton_self _))
  | batch values => exact List.isEmpty_eq_false_iff.mpr some_values

-- A file that holds nothing yet makes no difference.
theorem gathered_fresh (held : List (List Bytes × List Nat)) : gathered (held ++ [([], [])]) = gathered held := by
  rw [gathered_snoc, List.append_nil]

theorem places_fresh (held : List (List Bytes × List Nat)) : placesFrom 1 (held ++ [([], [])]) = placesFrom 1 held := by
  rw [places_snoc, List.map_nil, List.append_nil]

theorem called_fresh (held : List (List Bytes × List Nat)) (call : LogCall) (result : IterWriter × Except Int (Nat × List Nat))
    (called : Called crc blockSize room spare (held ++ [([], [])]) call result) : Called crc blockSize room spare held call result := by
  obtain ⟨next, answer⟩ := result
  cases answer with
  | error code =>
      obtain ⟨⟨closed, values, offsets, holds, values_same, places_same⟩, large⟩ := called
      rw [gathered_fresh] at values_same
      rw [places_fresh] at places_same
      exact ⟨⟨closed, values, offsets, holds, values_same, places_same⟩, large⟩
  | ok reports =>
      obtain ⟨closed, values, offsets, holds, values_same, places_same⟩ := called
      rw [gathered_fresh] at values_same
      rw [places_fresh] at places_same
      exact ⟨closed, values, offsets, holds, values_same, places_same⟩

theorem older_closed (holds : LogHolds crc blockSize room spare writer closed values offsets) :
    List.Forall₂ (fun file held => FileHolds crc file held.1 held.2) writer.files (closed ++ [(values, offsets)]) := by
  obtain ⟨fileSeq, content, blocks, kept, _⟩ := holds.current
  exact List.rel_append holds.older (List.Forall₂.cons (kept_file_holds kept) List.Forall₂.nil)

variable (holds : LogHolds crc blockSize room (spare + 2 ^ 19) writer closed values offsets)
include holds

theorem iter_write_adds (call : LogCall) (admitted : call.Admitted blockSize) :
    ∃ next, iterWrite crc writer call = some next ∧ Called crc blockSize room spare (closed ++ [(values, offsets)]) call next := by
  obtain ⟨fileSeq, content, blocks, kept, numbered⟩ := holds.current
  have block := holds.block
  have roomy := holds.room
  obtain ⟨after, stored, result, content', blocks', ran, same, leaves⟩ := call_leaves kept call (by rw [block]; exact admitted)
  have here : fileSeq + spare + 2 ^ 32 < 2 ^ 64 := by omega
  rw [iterWrite, if_neg (by rw [admitted_filled call admitted]; exact Bool.false_ne_true), ran, Option.bind_some]
  cases result with
  | ok reports => exact ⟨_, rfl, called_here holds.older here call after stored (.ok reports) (same.1.trans block) (same.2.1 ▸ roomy) content' blocks' leaves⟩
  | error code =>
      obtain ⟨untouched, again, refused⟩ := leaves
      rw [block] at refused
      dsimp only
      by_cases next_file : code = LogError.nextFile
      · have numbers := kept_numbers again
        have enough : fileSeq + 2 ^ 19 + 2 ^ 32 < 2 ^ 64 :=
          Nat.lt_of_le_of_lt (Nat.add_le_add_right (Nat.add_le_add_left (Nat.le_add_left _ _) _) _) numbered
        have next := kept_next again again.tuned.started enough
        have further : after.seq + spare + 2 ^ 32 < 2 ^ 64 := by omega
        have older := older_closed holds
        rw [IterWriter.files, ← untouched] at older
        obtain ⟨last, final, answer, content'', blocks'', ran, same_last, leaves⟩ := call_leaves next call (by rw [show _ = blockSize from same.1.trans block]; exact admitted)
        rw [if_pos next_file]
        refine ⟨_, by rw [show call.run crc (IterWriter.mk after writer.older stored).iterIntoNextFile.info
          (IterWriter.mk after writer.older stored).iterIntoNextFile.file = _ from ran]; rfl, ?_⟩
        refine called_fresh _ call _ ?_
        refine @called_here crc blockSize room spare (IterWriter.mk after writer.older stored).iterIntoNextFile _ [] [] older after.seq further call last
          final answer (same_last.1.trans (same.1.trans block)) (same_last.2.1.trans same.2.1 ▸ roomy) content'' blocks'' ?_
        cases answer with
        | error other =>
            refine ⟨leaves.2.1, ?_⟩
            have large := leaves.2.2
            rw [Refused, show _ = blockSize from same.1.trans block, show _ = writer.info.maxBuf from same.2.1] at large
            rcases large with ⟨_, large⟩ | ⟨_, large⟩
            · exact Nat.lt_of_le_of_lt (Nat.le_trans (Nat.min_le_left _ _) roomy) large
            · exact Nat.lt_of_le_of_lt (Nat.min_le_right _ _) (large rfl)
        | ok reports => exact leaves
      · rw [if_neg next_file]
        refine ⟨_, rfl, called_here holds.older here call after stored (.error code) (same.1.trans block) (same.2.1 ▸ roomy) content' blocks' ⟨again, ?_⟩⟩
        rcases refused with ⟨_, large⟩ | ⟨same_code, _⟩
        · exact Nat.lt_of_le_of_lt (Nat.le_trans (Nat.min_le_left _ _) roomy) large
        · exact absurd same_code next_file

theorem restart_adds (sound : BlockSound blockSize) (settings : Settings) (fits : settings.Sound blockSize) (roomy : room ≤ settings.maxBuf) :
    ∃ next, restart crc blockSize settings writer.files = some (.ok next) ∧
      Adds crc blockSize room spare next (closed ++ [(values, offsets)]) [] [] := by
  obtain ⟨fileSeq, content, blocks, kept, numbered⟩ := holds.current
  have block := holds.block
  have started := kept.tuned.started
  have older := older_closed holds
  have here : fileSeq + spare + 2 ^ 32 < 2 ^ 64 := by omega
  by_cases none_left : values = []
  · obtain ⟨empty, none_offsets⟩ := kept_untouched kept none_left
    have again : 1 + spare + 2 ^ 32 < 2 ^ 64 := by omega
    have fresh := @restart_fresh crc blockSize sound settings fits writer.files (.inr ⟨writer.older, by rw [IterWriter.files, empty]⟩)
    refine ⟨_, fresh, closed ++ [(values, offsets)], [], [], ⟨rfl, roomy, older, 1, [], [], ?_, again⟩, ?_, ?_⟩
    · exact kept_empty (settings_tuned sound settings fits 1 Nat.one_ne_zero (by decide)) fits.memory rfl rfl rfl rfl
    · rw [gathered_fresh, List.append_nil]
    · rw [places_fresh, List.append_nil]
  · have readable := kept_readable kept none_left
    obtain ⟨_, _, some_blocks⟩ := kept_whole kept none_left
    have reopened := kept_reopened kept none_left (by rw [block]; exact sound) settings (by rw [block]; exact fits)
    rw [block] at readable reopened
    refine ⟨_, restart_finds sound settings fits readable some_blocks writer.older, closed, values, offsets,
      ⟨rfl, roomy, holds.older, fileSeq, writer.file, blocks, reopened, here⟩, (List.append_nil _).symm, (List.append_nil _).symm⟩

end Events

def LogEvent.Admitted (blockSize room : Nat) : LogEvent → Prop
  | .call made => made.Admitted blockSize
  | .restart settings => settings.Sound blockSize ∧ room ≤ settings.maxBuf

def LogEvent.values : LogEvent → List Bytes
  | .call made => made.values
  | .restart _ => []

-- The calls that no buffer and no file is too small for.
def Fitting (blockSize room : Nat) (events : List LogEvent) : Prop :=
  ∀ made, .call made ∈ events → made.load.bound blockSize ≤ min room maxLogFileSize

section Runs

variable {crc : Crc32c} {blockSize room : Nat}

theorem adds_after {spare : Nat} {last : IterWriter} {before held : List (List Bytes × List Nat)} {added more : List Bytes}
    {places further : List (Nat × Nat)} (values_same : gathered held = gathered before ++ added)
    (places_same : placesFrom 1 held = placesFrom 1 before ++ places) (adds : Adds crc blockSize room spare last held more further) :
    Adds crc blockSize room spare last before (added ++ more) (places ++ further) := by
  obtain ⟨closed, values, offsets, holds, values_more, places_more⟩ := adds
  refine ⟨closed, values, offsets, holds, ?_, ?_⟩
  · rw [values_more, values_same, List.append_assoc]
  · rw [places_more, places_same, List.append_assoc]

-- No event is cut short, whatever it is, and no call that fits is refused.
theorem events_add (sound : BlockSound blockSize) (events : List LogEvent) (admitted : ∀ event ∈ events, event.Admitted blockSize room)
    (writer : IterWriter) (closed : List (List Bytes × List Nat)) (values : List Bytes) (offsets : List Nat)
    (holds : LogHolds crc blockSize room (events.length * 2 ^ 19) writer closed values offsets) :
    ∃ last added places, runEvents crc blockSize events writer = some (last, added, places) ∧
      Adds crc blockSize room 0 last (closed ++ [(values, offsets)]) added places ∧
      (Fitting blockSize room events → added = events.flatMap LogEvent.values) := by
  induction events generalizing writer closed values offsets with
  | nil =>
      rw [List.length_nil, Nat.zero_mul] at holds
      exact ⟨writer, [], [], rfl, ⟨closed, values, offsets, holds, (List.append_nil _).symm, (List.append_nil _).symm⟩, fun _ => rfl⟩
  | cons event rest ih =>
      rw [List.length_cons, Nat.succ_mul] at holds
      have others := ih (fun other there => admitted other (List.mem_cons_of_mem _ there))
      have fine := admitted event (List.mem_cons_self ..)
      rw [List.flatMap_cons]
      cases event with
      | call call =>
          obtain ⟨⟨next, answer⟩, ran, called⟩ := iter_write_adds holds call fine
          cases answer with
          | error code =>
              obtain ⟨⟨closed', values', offsets', still, values_same, places_same⟩, large⟩ := called
              obtain ⟨last, added, places, whole, adds, _⟩ := others next closed' values' offsets' still
              refine ⟨last, added, places, by rw [runEvents, ran]; exact whole, adds_after values_same places_same adds, fun fitting => ?_⟩
              exact absurd large (Nat.not_lt.mpr (fitting call (List.mem_cons_self ..)))
          | ok reports =>
              obtain ⟨fileNo, offsets'⟩ := reports
              obtain ⟨closed', values', offsets'', still, values_same, places_same⟩ := called
              obtain ⟨last, added, places, whole, adds, all⟩ := others next closed' values' offsets'' still
              refine ⟨last, _, _, ?_, adds_after values_same places_same adds, fun fitting => ?_⟩
              · rw [runEvents, ran, Option.bind_some]
                dsimp only
                rw [whole]
                rfl
              · rw [all (fun made there => fitting made (List.mem_cons_of_mem _ there)), LogEvent.values]
      | restart settings =>
          obtain ⟨next, ran, closed', values', offsets', still, values_same, places_same⟩ := restart_adds holds sound settings fine.1 fine.2
          obtain ⟨last, added, places, whole, adds, all⟩ := others next closed' values' offsets' still
          refine ⟨last, added, places, by rw [runEvents, ran]; exact whole, adds_after values_same places_same adds, fun fitting => ?_⟩
          rw [all (fun made there => fitting made (List.mem_cons_of_mem _ there)), LogEvent.values, List.nil_append]

end Runs

section Reading

variable {crc : Crc32c} (maxRead : Nat) (pages : maxRead % pageSize = 0)
include pages

theorem empty_file : createADirectIOReadInfo [] maxRead = some (.refused 2) := by
  have buffer_pages : max pageSize maxRead % pageSize = 0 := by
    rcases Nat.le_total pageSize maxRead with more | less
    · rw [Nat.max_eq_right more]
      exact pages
    · rw [Nat.max_eq_left less, Nat.mod_self]
  rw [createADirectIOReadInfo]
  dsimp only
  rw [asserting_pos _ _ buffer_pages, pread, List.drop_nil, List.take_nil]
  rfl

theorem file_reads (file : Bytes) (values : List Bytes) (offsets : List Nat) (holds : FileHolds crc file values offsets) :
    readFile crc maxRead file = some values := by
  rcases holds with ⟨rfl, rfl, -⟩ | ⟨blockSize, startSeq, blocks, some_blocks, readable, -, -⟩
  · rw [readFile, empty_file maxRead pages]
    rfl
  · obtain ⟨reader, opened, reads⟩ := open_reads readable some_blocks maxRead pages
    obtain ⟨after, ran, _⟩ := read_values_all readable values reader reads (file.length + 1) (Nat.lt_succ_of_le (values_fewer readable))
    rw [readFile, opened, Option.bind_some]
    dsimp only
    rw [ran]
    rfl

-- Every value is at the offset that was reported for it.
theorem file_places (file : Bytes) (values : List Bytes) (offsets : List Nat) (holds : FileHolds crc file values offsets) (fileNo : Nat)
    (files : List Bytes) (there : files[fileNo - 1]? = some file) :
    List.Forall₂ (fun value place => readPlace crc maxRead files place = some value) values (offsets.map (fun offset => (fileNo, offset))) := by
  rcases holds with ⟨rfl, rfl, rfl⟩ | ⟨blockSize, startSeq, blocks, some_blocks, readable, count, placed⟩
  · exact List.Forall₂.nil
  · obtain ⟨reader, opened, reads⟩ := open_reads readable some_blocks maxRead pages
    refine List.forall₂_iff_get.mpr ⟨by rw [List.length_map, count], fun i inside _ => ?_⟩
    have reported : i < offsets.length := by omega
    have offset := List.getElem?_eq_getElem reported
    have returns := read_at_returns readable reader values reads _ _ (placed i _ offset)
    rw [List.drop_eq_getElem_cons inside] at returns
    obtain ⟨after, next, ran, _⟩ := returns
    rw [List.get_eq_getElem, List.get_eq_getElem, List.getElem_map, readPlace, there, Option.bind_some, opened, Option.bind_some]
    dsimp only
    rw [ran]
    rfl

theorem files_read (files : List Bytes) (held : List (List Bytes × List Nat))
    (holds : List.Forall₂ (fun file held => FileHolds crc file held.1 held.2) files held) : readFiles crc maxRead files = some (gathered held) := by
  induction holds with
  | nil => rfl
  | cons first rest ih =>
      rw [readFiles, file_reads maxRead pages _ _ _ first, Option.bind_some, ih, Option.map_some]
      rfl

theorem files_places (before files : List Bytes) (held : List (List Bytes × List Nat))
    (holds : List.Forall₂ (fun file held => FileHolds crc file held.1 held.2) files held) :
    List.Forall₂ (fun value place => readPlace crc maxRead (before ++ files) place = some value) (gathered held)
      (placesFrom (before.length + 1) held) := by
  induction holds generalizing before with
  | nil => exact List.Forall₂.nil
  | @cons file held files rest first later ih =>
      have there : (before ++ file :: files)[before.length + 1 - 1]? = some file := by
        rw [Nat.add_sub_cancel, List.getElem?_append_right (Nat.le_refl _), Nat.sub_self]
        rfl
      have others := ih (before ++ [file])
      rw [List.append_assoc, List.length_append, List.length_singleton] at others
      exact List.rel_append (file_places maxRead pages file held.1 held.2 first (before.length + 1) _ there) others

end Reading

def plainSettings : Settings := ⟨List.replicate 49152 0, 49152, .minWrite⟩

theorem plain_settings : plainSettings.Sound 4096 :=
  ⟨List.length_replicate, by decide, by decide, by decide⟩

end PaxosStore.DbComm
