import PaxosStore.DbComm.LogBatches

set_option autoImplicit false

namespace PaxosStore.DbComm

open PaxosStore.Codec
open PaxosStore.PaxosKv

section Stored

variable {crc : Crc32c} {blockSize maxBuf minTail startSeq seq : Nat} {content : Bytes} {blocks : List Block} {values : List Bytes}
  {offsets : List Nat} (tuned : Tuned blockSize maxBuf minTail startSeq)
  (holds : Content crc blockSize startSeq content seq blocks values offsets)
include tuned holds

-- A file of whole blocks.
theorem content_readable (aligned : content.length % blockSize = 0) (bound : content.length ≤ maxLogFileSize) :
    Readable crc blockSize startSeq content blocks values := by
  have numbered := tuned.numbered
  have limit := tuned.limit
  obtain ⟨head, data, rfl, size, ⟨rest, begins⟩, laid⟩ := holds.parts
  rw [List.length_append, size, Nat.add_mod_left] at aligned
  refine ⟨tuned.started, by omega, tuned.paged, by omega, bound, ⟨rest ++ data, ?_⟩, laid_image crc startSeq head data blocks laid aligned size
      (fun block there => (holds.current block there).1), holds.spelt⟩
  rw [begins, List.append_assoc]

omit tuned in
theorem content_blocks (some_values : values ≠ []) : blocks ≠ [] := by
  rintro rfl
  cases holds.spelt
  exact some_values rfl

end Stored

-- What a reader is asked for: the next value, or the value that was reported at an offset.
inductive Ask where
  | next
  | reported (index : Nat)
deriving DecidableEq

def Ask.run (crc : Crc32c) (file : Bytes) (offsets : List Nat) (info : ReadInfo) : Ask → Option (ReadInfo × ReadResult)
  | .next => directIORead crc file info
  | .reported index => offsets[index]?.bind fun offset => directIOReadAt crc file info offset

-- The answers, of which `none` is the end of the file.
def readAll (crc : Crc32c) (file : Bytes) (offsets : List Nat) : List Ask → ReadInfo → Option (List (Option Bytes))
  | [], _ => some []
  | ask :: rest, info =>
      (ask.run crc file offsets info).bind fun
      | (_, .failed _) => none
      | (info, .eof) => (readAll crc file offsets rest info).map fun answers => none :: answers
      | (info, .value bytes _ _) => (readAll crc file offsets rest info).map fun answers => some bytes :: answers

-- A cursor over the values.
def cursor (values : List Bytes) : Nat → List Ask → List (Option Bytes)
  | _, [] => []
  | at_, .next :: rest => values[at_]? :: cursor values (at_ + 1) rest
  | _, .reported index :: rest => values[index]? :: cursor values (index + 1) rest

section Reading

variable {crc : Crc32c} {blockSize startSeq : Nat} {file : Bytes} {blocks : List Block} {values : List Bytes} {offsets : List Nat}
  (readable : Readable crc blockSize startSeq file blocks values)
  (placed : ∀ i offset, offsets[i]? = some offset → Placed blockSize blocks offset (values.drop i))

-- One answer of a reader that stands before the value `at_`.
def Answers.At (blockSize startSeq : Nat) (file : Bytes) (blocks : List Block) (values : List Bytes) (at_ : Nat)
    (read : Option (ReadInfo × ReadResult)) : Prop :=
  ∃ after result, read = some (after, result) ∧ Reads blockSize startSeq file blocks after (values.drop (at_ + 1)) ∧
    ((∃ value offset next, result = .value value offset next ∧ values[at_]? = some value) ∨ (result = .eof ∧ values[at_]? = none))

theorem returns_at (at_ offset : Nat) (read : Option (ReadInfo × ReadResult))
    (returns : Returns blockSize startSeq file blocks offset read (values.drop at_)) : Answers.At blockSize startSeq file blocks values at_ read := by
  by_cases inside : at_ < values.length
  · rw [List.drop_eq_getElem_cons inside] at returns
    obtain ⟨after, next, ran, left⟩ := returns
    exact ⟨after, _, ran, left, .inl ⟨_, _, _, rfl, List.getElem?_eq_getElem inside⟩⟩
  · rw [List.drop_eq_nil_of_le (Nat.le_of_not_lt inside)] at returns
    obtain ⟨after, ran, left⟩ := returns
    refine ⟨after, _, ran, ?_, .inr ⟨rfl, List.getElem?_eq_none (Nat.le_of_not_lt inside)⟩⟩
    rw [List.drop_eq_nil_of_le (by omega)]
    exact left

theorem answered (ask : Ask) (at_ : Nat) (rest : List Ask) (info : ReadInfo) (index : Nat)
    (reads : Answers.At blockSize startSeq file blocks values index (ask.run crc file offsets info))
    (later : ∀ after, Reads blockSize startSeq file blocks after (values.drop (index + 1)) →
      readAll crc file offsets rest after = some (cursor values (index + 1) rest))
    (cursor_step : cursor values at_ (ask :: rest) = values[index]? :: cursor values (index + 1) rest) :
    readAll crc file offsets (ask :: rest) info = some (cursor values at_ (ask :: rest)) := by
  obtain ⟨after, result, ran, left, ⟨value, offset, next, rfl, found⟩ | ⟨rfl, ends⟩⟩ := reads
  · rw [readAll, ran, Option.bind_some]
    dsimp only
    rw [later after left, cursor_step, found]
    rfl
  · rw [readAll, ran, Option.bind_some]
    dsimp only
    rw [later after left, cursor_step, ends]
    rfl

include readable placed

-- A reader goes through the file like a cursor through the values.
theorem reads_cursor (count : offsets.length = values.length) (asks : List Ask) (known : ∀ index, .reported index ∈ asks → index < values.length)
    (at_ : Nat) (info : ReadInfo) (reads : Reads blockSize startSeq file blocks info (values.drop at_)) :
    readAll crc file offsets asks info = some (cursor values at_ asks) := by
  induction asks generalizing at_ info with
  | nil => rfl
  | cons ask rest ih =>
      have later : ∀ index after, Reads blockSize startSeq file blocks after (values.drop index) →
          readAll crc file offsets rest after = some (cursor values index rest) :=
        fun index after left => ih (fun other there => known other (List.mem_cons_of_mem _ there)) index after left
      cases ask with
      | next =>
          refine answered .next at_ rest info at_ (returns_at at_ info.offset _ (read_returns readable info _ reads)) ?_ rfl
          exact fun after left => later (at_ + 1) after left
      | reported index =>
          have inside := known index (List.mem_cons_self ..)
          have reported : index < offsets.length := by omega
          have there := List.getElem?_eq_getElem reported
          refine answered (.reported index) at_ rest info index ?_ (fun after left => later (index + 1) after left) rfl
          rw [Ask.run, there, Option.bind_some]
          exact returns_at index _ _ (read_at_returns readable info _ reads _ _ (placed index _ there))

end Reading

-- The calls of a writer that writes every value through.
inductive LogCall where
  | write (value : Bytes)
  | batch (values : List Bytes)
deriving DecidableEq

namespace LogCall

def values : LogCall → List Bytes
  | .write value => [value]
  | .batch values => values

def load : LogCall → Load
  | .write value => .one value.length
  | .batch values => .batch (values.map List.length)

def run (crc : Crc32c) (info : WriteInfo) (file : Bytes) : LogCall → Option (Written (List Nat))
  | .write value =>
      (directIOWrite crc info file value).map fun (info, file, result) => (info, file, result.map fun offset => [offset])
  | .batch values => batchDirectIOWrite crc info file values

-- There is a value and none is empty, and the sizes of the call are ints.
def Admitted (blockSize : Nat) (call : LogCall) : Prop :=
  call.values ≠ [] ∧ (∀ value ∈ call.values, value ≠ []) ∧ call.load.bound blockSize < 2 ^ 31

end LogCall

-- The file after the calls, and the values that were accepted with the offsets reported for them.
def writeAll (crc : Crc32c) : List LogCall → WriteInfo → Bytes → Option (WriteInfo × Bytes × List Bytes × List Nat)
  | [], info, file => some (info, file, [], [])
  | call :: rest, info, file =>
      (call.run crc info file).bind fun
      | (info, file, .error _) => writeAll crc rest info file
      | (info, file, .ok offsets) =>
          (writeAll crc rest info file).map fun (info, file, values, reports) => (info, file, call.values ++ values, offsets ++ reports)

section Runs

variable {crc : Crc32c}

theorem call_leaves {fileSeq : Nat} {info : WriteInfo} {file content : Bytes} {blocks : List Block} {values : List Bytes} {offsets : List Nat}
    (kept : Kept crc fileSeq info file content blocks values offsets) (call : LogCall) (admitted : call.Admitted info.blockSize) :
    Leaves crc fileSeq info file values offsets call.load call.values (fun reports => reports) (call.run crc info file) := by
  obtain ⟨some_values, filled, bound⟩ := admitted
  cases call with
  | write value =>
      obtain ⟨after, stored, result, content', blocks', ran, same, leaves⟩ :=
        write_leaves kept value (filled value (List.mem_singleton_self _)) bound
      rw [LogCall.run, ran]
      cases result with
      | error code => exact ⟨after, stored, .error code, content', blocks', rfl, same, leaves⟩
      | ok offset => exact ⟨after, stored, .ok [offset], content', blocks', rfl, same, leaves⟩
  | batch added => exact batch_leaves kept added ⟨some_values, filled⟩ bound

-- No call of a run is cut short, and what is accepted is kept.
theorem calls_kept {fileSeq : Nat} (calls : List LogCall) (blockSize : Nat) (admitted : ∀ call ∈ calls, call.Admitted blockSize) (info : WriteInfo)
    (same_block : info.blockSize = blockSize) (file content : Bytes) (blocks : List Block) (values : List Bytes) (offsets : List Nat)
    (kept : Kept crc fileSeq info file content blocks values offsets) :
    ∃ after stored added reports content' blocks', writeAll crc calls info file = some (after, stored, added, reports) ∧ SameWriter info after ∧
      Kept crc fileSeq after stored content' blocks' (values ++ added) (offsets ++ reports) := by
  induction calls generalizing info file content blocks values offsets with
  | nil =>
      refine ⟨info, file, [], [], content, blocks, rfl, ⟨rfl, rfl, rfl, rfl, rfl⟩, ?_⟩
      rw [List.append_nil, List.append_nil]
      exact kept
  | cons call rest ih =>
      obtain ⟨after, stored, result, content', blocks', ran, same, leaves⟩ :=
        call_leaves kept call (same_block.symm ▸ admitted call (List.mem_cons_self ..))
      have later := ih (fun other there => admitted other (List.mem_cons_of_mem _ there)) after (same.1.trans same_block) stored content' blocks'
      cases result with
      | error code =>
          obtain ⟨last, final, added, reports, content'', blocks'', whole, again, kept⟩ := later values offsets leaves.2.1
          refine ⟨last, final, added, reports, content'', blocks'', ?_, same_trans_writer info after last same again, kept⟩
          rw [writeAll, ran]
          exact whole
      | ok answer =>
          obtain ⟨last, final, added, reports, content'', blocks'', whole, again, kept⟩ := later _ _ leaves
          rw [List.append_assoc, List.append_assoc] at kept
          refine ⟨last, final, call.values ++ added, answer ++ reports, content'', blocks'', ?_, same_trans_writer info after last same again, kept⟩
          rw [writeAll, ran, Option.bind_some]
          dsimp only
          rw [whole]
          rfl

-- A configuration that CreateADirectIOWriteInfo accepts, for a file that is empty.
structure Configured (memory : Bytes) (blockSize maxBuf minTail startSeq : Nat) (strategy : AdjustStrategy) (writer : WriteInfo) : Prop where
  created : createADirectIOWriteInfo memory blockSize maxBuf minTail startSeq strategy 0 = some writer
  limit : blockSize ≤ 2 ^ 16
  roomy : 3 * blockSize ≤ maxBuf
  bounded : maxBuf < 2 ^ 31
  numbered : startSeq + 2 ^ 32 < 2 ^ 64

theorem configured_holds {memory : Bytes} {blockSize maxBuf minTail startSeq : Nat} {strategy : AdjustStrategy} {writer : WriteInfo}
    (configured : Configured memory blockSize maxBuf minTail startSeq strategy writer) (base : Nat) :
    writer.blockSize = blockSize ∧ writer.startSeq = startSeq ∧ writer.strategy = strategy ∧ writer.offset = 0 ∧ writer.directOffset = 0 ∧
      Holding crc startSeq writer base [] [] [] [] := by
  have created := configured.created
  rw [createADirectIOWriteInfo] at created
  dsimp only at created
  obtain ⟨⟨started, _, paged, _, whole, short, size⟩, same⟩ := (asserting_some _ _ _).mp created
  have positive : 0 < blockSize := Nat.lt_of_lt_of_le (by decide) paged
  have start : (min maxLogFileSize 0 + blockSize - 1) / blockSize * blockSize = 0 := by
    rw [Nat.min_zero, Nat.zero_add, Nat.div_eq_of_lt (Nat.sub_lt positive Nat.one_pos), Nat.zero_mul]
  rw [start] at same
  have tuned : Tuned blockSize maxBuf (max minTail (headerSize + recordSize 0 0 + 8)) startSeq :=
    ⟨paged, configured.limit, Nat.le_trans (by decide) (Nat.le_max_right _ _), short, whole, configured.roomy, configured.bounded, started,
      configured.numbered⟩
  cases same
  refine ⟨rfl, rfl, rfl, rfl, rfl, tuned, size, rfl, Nat.zero_mod _, Nat.le_refl _, Nat.zero_le _, ?_, ?_, .inl ⟨rfl, rfl, rfl, rfl, rfl, rfl⟩⟩
  · dsimp only
    rw [Nat.zero_mod]
    exact enters_head tuned
  · dsimp only
    rw [List.drop_nil, Nat.sub_self, List.take_zero, List.drop_nil]

theorem configured_kept {memory : Bytes} {blockSize maxBuf minTail startSeq : Nat} {strategy : AdjustStrategy} {writer : WriteInfo}
    (configured : Configured memory blockSize maxBuf minTail startSeq strategy writer) : Kept crc startSeq writer [] [] [] [] [] := by
  obtain ⟨same, _, _, _, _, holding⟩ := @configured_holds crc _ _ _ _ _ _ _ configured writer.beginBlock
  have positive := tuned_positive holding.tuned
  exact ⟨holding, Nat.zero_le _, fun _ => rfl, 0, positive, Nat.zero_mod _, rfl⟩

-- What a reader answers about a file.
def ReadsBack (crc : Crc32c) (file : Bytes) (values : List Bytes) (offsets : List Nat) : Prop :=
  ∀ maxRead, maxRead % pageSize = 0 → ∃ reader, createADirectIOReadInfo file maxRead = some (.reader reader) ∧
    ∀ asks, (∀ index, .reported index ∈ asks → index < values.length) → readAll crc file offsets asks reader = some (cursor values 0 asks)

theorem content_reads_back {blockSize maxBuf minTail startSeq seq : Nat} (tuned : Tuned blockSize maxBuf minTail startSeq) {content : Bytes}
    {blocks : List Block} {values : List Bytes} {offsets : List Nat} (holds : Content crc blockSize startSeq content seq blocks values offsets)
    (some_values : values ≠ []) (pad : Bytes) (padding : Padding crc pad) (aligned : (content ++ pad).length % blockSize = 0)
    (short : pad.length < blockSize) (bound : (content ++ pad).length ≤ maxLogFileSize) : ReadsBack crc (content ++ pad) values offsets := by
  have readable := content_readable tuned (content_filled holds pad padding aligned short) aligned bound
  intro maxRead pages
  obtain ⟨reader, opened, reads⟩ := open_reads readable (content_blocks holds some_values) maxRead pages
  exact ⟨reader, opened, fun asks known => reads_cursor readable holds.placed holds.count asks known 0 reader reads⟩

end Runs

-- One bit of CRC-32C, from the low end.
def castagnoliTurn (n : UInt32) : UInt32 := if n &&& 1 = 1 then n >>> 1 ^^^ 0x82f63b78 else n >>> 1

def castagnoliStep (n : UInt32) (byte : UInt8) : UInt32 := Nat.repeat castagnoliTurn 8 (n ^^^ byte.toUInt32)

def castagnoli : Crc32c where
  extend n bytes := bytes.foldl castagnoliStep (n ^^^ 0xffffffff) ^^^ 0xffffffff
  extend_append before after := by rw [List.foldl_append, UInt32.xor_assoc, UInt32.xor_self, UInt32.xor_zero]

example : castagnoli.value [0x31, 0x32, 0x33, 0x34, 0x35, 0x36, 0x37, 0x38, 0x39] = 0xe3069283 := by decide +kernel

-- Three blocks of the least size.
def plainWriter (strategy : AdjustStrategy) : WriteInfo :=
  ⟨4096, 12288, headerSize + recordSize 0 0 + 8, 1, 1, 0, 0, List.replicate 12288 0, strategy, 0⟩

theorem plain_configured (strategy : AdjustStrategy) : Configured (List.replicate 12288 0) 4096 12288 0 1 strategy (plainWriter strategy) := by
  refine ⟨?_, by decide, by decide, by decide, by decide⟩
  rw [createADirectIOWriteInfo]
  dsimp only
  rw [asserting_pos _ _ ⟨by decide, by decide, by decide, by decide, by decide, by decide, List.length_replicate⟩]
  rfl

end PaxosStore.DbComm
