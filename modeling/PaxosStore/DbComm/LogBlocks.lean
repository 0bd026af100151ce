import PaxosStore.DbComm.LogFormat

set_option autoImplicit false

namespace PaxosStore.DbComm

open PaxosStore.Codec
open PaxosStore.PaxosKv

theorem little_length (count n : Nat) : (little count n).length = count := by
  induction count generalizing n with
  | zero => rfl
  | succ count ih => simp [little, ih]

theorem from_little (count n : Nat) (small : n < 256 ^ count) : fromLittle (little count n) = n := by
  induction count generalizing n with
  | zero =>
    simp only [Nat.pow_zero] at small
    simp only [little, fromLittle]
    omega
  | succ count ih =>
    have lower : n / 256 < 256 ^ count := by
      rw [Nat.div_lt_iff_lt_mul (by decide)]
      rwa [Nat.pow_succ] at small
    simp only [little, fromLittle, ih _ lower, UInt8.toNat_ofNat']
    omega

theorem rotate_back (n : BitVec 32) : ((n >>> 15 ||| n <<< 17) >>> 17 ||| (n >>> 15 ||| n <<< 17) <<< 15) = n := by
  apply BitVec.eq_of_getLsbD_eq
  intro i small
  simp only [BitVec.getLsbD_or, BitVec.getLsbD_ushiftRight, BitVec.getLsbD_shiftLeft]
  by_cases low : i < 15
  · simp [low]
    grind
  · simp [low]
    grind

theorem unmask_mask (n : UInt32) : Crc32c.unmask (Crc32c.mask n) = n := by
  unfold Crc32c.unmask Crc32c.mask
  rw [UInt32.add_sub_cancel]
  apply UInt32.toBitVec_inj.mp
  simpa using rotate_back n.toBitVec

-- The types a writer gives to a piece of a value.
inductive PartKind where
  | full
  | first
  | middle
  | last
deriving DecidableEq, Repr

def PartKind.type : PartKind → RecordType
  | full => .full
  | first => .first
  | middle => .middle
  | last => .last

structure Part where
  kind : PartKind
  bytes : Bytes
deriving DecidableEq, Repr

-- A data block: the number in its head and the pieces that follow.
structure Block where
  seq : Nat
  parts : List Part
deriving DecidableEq, Repr

def Part.size (part : Part) : Nat := headerSize + part.bytes.length

def partsSize (parts : List Part) : Nat := (parts.map Part.size).sum

-- A piece that a record can hold.
def Part.Sized (part : Part) : Prop := part.bytes ≠ [] ∧ part.bytes.length ≤ 0xFFFF

section Bytes

variable (crc : Crc32c)

def recordBytesOf (kind : RecordType) (value : Bytes) : Bytes := recordHeader crc kind value ++ value

def headBytes (seq : Nat) : Bytes := recordBytesOf crc .blockMeta (blockMetaBytes seq)

def partBytes (part : Part) : Bytes := recordBytesOf crc part.kind.type part.bytes

def partsBytes (parts : List Part) : Bytes := parts.flatMap (partBytes crc)

-- What may stand between the last piece and the end of a block.
def Padding (pad : Bytes) : Prop :=
  pad = [] ∨ ∃ kind, (kind = .zero ∨ kind = .fake) ∧ ∀ checkCrc, pickleLevelDBRecord crc pad checkCrc = (⟨kind, []⟩, pad.length)

theorem record_header_length (kind : RecordType) (value : Bytes) : (recordHeader crc kind value).length = headerSize := by
  simp [recordHeader, little_length, headerSize]

theorem record_bytes_size (kind : RecordType) (value : Bytes) : (recordBytesOf crc kind value).length = headerSize + value.length := by
  rw [recordBytesOf, List.length_append, record_header_length]

theorem block_meta_length (seq : Nat) : (blockMetaBytes seq).length = 9 := by
  simp [blockMetaBytes, little_length]

theorem head_bytes_length (seq : Nat) : (headBytes crc seq).length = blockMetaSize := by
  rw [headBytes, record_bytes_size, block_meta_length]
  rfl

theorem part_bytes_length (part : Part) : (partBytes crc part).length = part.size := record_bytes_size crc _ _

theorem parts_bytes_length (parts : List Part) : (partsBytes crc parts).length = partsSize parts := by
  induction parts with
  | nil => rfl
  | cons part rest ih =>
    simp only [partsBytes, List.flatMap_cons, List.length_append, part_bytes_length] at ih ⊢
    rw [ih]
    simp [partsSize]

theorem parts_bytes_append (before after : List Part) :
    partsBytes crc (before ++ after) = partsBytes crc before ++ partsBytes crc after := List.flatMap_append

theorem parts_size_append (before after : List Part) : partsSize (before ++ after) = partsSize before + partsSize after := by
  simp [partsSize]

theorem dump_record_some (kind : RecordType) (value bytes : Bytes) (room : Nat) :
    dumpLevelDBRecord crc kind value room = some bytes ↔
      (value.length ≤ 0xFFFF ∧ headerSize + value.length ≤ room) ∧ bytes = recordBytesOf crc kind value := by
  rw [dumpLevelDBRecord, asserting_some, Option.some.injEq]
  exact and_congr_right fun _ => eq_comm

theorem little_four (n : Nat) : ∃ a b c d, little 4 n = [a, b, c, d] := ⟨_, _, _, _, rfl⟩

theorem length_bytes (n : Nat) (small : n ≤ 0xFFFF) : (UInt8.ofNat n).toNat + 256 * (UInt8.ofNat (n / 256)).toNat = n := by
  rw [UInt8.toNat_ofNat', UInt8.toNat_ofNat']
  omega

-- What was dumped is what is read, whatever follows in the block.
theorem pickle_dumped (kind : RecordType) (value rest : Bytes) (checkCrc : Bool) (small : value.length ≤ 0xFFFF)
    (known : RecordType.ofCode kind.code = kind) (shown : kind ≠ .zero ∧ kind ≠ .fake) :
    pickleLevelDBRecord crc (recordBytesOf crc kind value ++ rest) checkCrc = (⟨kind, value⟩, headerSize + value.length) := by
  obtain ⟨a, b, c, d, four⟩ := little_four (Crc32c.mask (crc.extend (crc.value [kind.code]) value)).toNat
  have shape : recordBytesOf crc kind value ++ rest =
      a :: b :: c :: d :: UInt8.ofNat value.length :: UInt8.ofNat (value.length / 256) :: kind.code :: (value ++ rest) := by
    simp [recordBytesOf, recordHeader, four]
  have sum : fromLittle [a, b, c, d] = (Crc32c.mask (crc.extend (crc.value [kind.code]) value)).toNat := by
    rw [← four]
    exact from_little 4 _ (UInt32.toNat_lt _)
  have long : ¬ (recordBytesOf crc kind value ++ rest).length < headerSize + value.length := by
    rw [List.length_append, record_bytes_size]
    omega
  have same : crc.value (kind.code :: value) = Crc32c.unmask (UInt32.ofNat (fromLittle [a, b, c, d])) := by
    rw [sum, UInt32.ofNat_toNat, unmask_mask]
    exact (crc.extend_append [kind.code] value).symm
  rw [shape] at long ⊢
  simp only [pickleLevelDBRecord, known, length_bytes value.length small, List.take_left]
  rw [if_neg (by rintro (zero | fake); exacts [shown.1 zero, shown.2 fake]), if_neg long, if_neg (fun wrong => wrong.2 same)]

theorem part_kind_known (kind : PartKind) : RecordType.ofCode kind.type.code = kind.type := by
  cases kind <;> decide

theorem part_kind_shown (kind : PartKind) : kind.type ≠ .zero ∧ kind.type ≠ .fake := by
  cases kind <;> decide

theorem pickle_part (part : Part) (sized : part.Sized) (rest : Bytes) :
    pickleLevelDBRecord crc (partBytes crc part ++ rest) true = (⟨part.kind.type, part.bytes⟩, part.size) :=
  pickle_dumped crc _ _ rest true sized.2 (part_kind_known part.kind) (part_kind_shown part.kind)

theorem pickle_head (seq : Nat) (rest : Bytes) :
    pickleLevelDBRecord crc (headBytes crc seq ++ rest) true = (⟨.blockMeta, blockMetaBytes seq⟩, blockMetaSize) := by
  have read := pickle_dumped crc .blockMeta (blockMetaBytes seq) rest true (by rw [block_meta_length]; decide) (by decide) (by decide)
  rw [block_meta_length] at read
  exact read

theorem meta_read_back (seq : Nat) (small : seq < 2 ^ 64) : pickleBlockMetaInfo (blockMetaBytes seq) = some seq := by
  rw [pickleBlockMetaInfo, asserting, if_pos (Nat.le_of_eq (block_meta_length seq).symm)]
  simp only [blockMetaBytes, List.drop_succ_cons, List.drop_zero]
  rw [List.take_of_length_le (Nat.le_of_eq (little_length 8 seq)), from_little 8 seq small]

-- A byte of the type of a record that is skipped makes the rest of the block padding.
theorem padding_of_skipped (a b c d low high code : UInt8) (rest : Bytes) (kind : RecordType) (named : RecordType.ofCode code = kind)
    (skipped : kind = .zero ∨ kind = .fake) : Padding crc (a :: b :: c :: d :: low :: high :: code :: rest) := by
  refine .inr ⟨kind, skipped, fun checkCrc => ?_⟩
  simp only [pickleLevelDBRecord, named]
  rw [if_pos skipped]

theorem pickle_short (buf : Bytes) (checkCrc : Bool) (short : buf.length < headerSize) :
    pickleLevelDBRecord crc buf checkCrc = (⟨.zero, []⟩, buf.length) := by
  unfold pickleLevelDBRecord
  split
  · simp only [List.length_cons, headerSize] at short
    omega
  · rfl

theorem padding_zeros (count : Nat) : Padding crc (List.replicate count 0) := by
  by_cases long : 7 ≤ count
  · obtain ⟨more, rfl⟩ := Nat.exists_eq_add_of_le long
    rw [show List.replicate (7 + more) (0 : UInt8) = 0 :: 0 :: 0 :: 0 :: 0 :: 0 :: 0 :: List.replicate more 0 by
      rw [List.replicate_add]
      rfl]
    exact padding_of_skipped crc 0 0 0 0 0 0 0 _ .zero (by decide) (.inl rfl)
  · refine .inr ⟨.zero, .inl rfl, fun checkCrc => pickle_short crc _ checkCrc ?_⟩
    rw [List.length_replicate]
    exact Nat.lt_of_not_le long

theorem padding_fake (rest : Bytes) : Padding crc (recordBytesOf crc .fake [] ++ rest) := by
  obtain ⟨a, b, c, d, four⟩ := little_four (Crc32c.mask (crc.extend (crc.value [RecordType.fake.code]) [])).toNat
  have shape : recordBytesOf crc .fake [] ++ rest = a :: b :: c :: d :: 0 :: 0 :: RecordType.fake.code :: rest := by
    simp [recordBytesOf, recordHeader, four]
  rw [shape]
  exact padding_of_skipped crc a b c d 0 0 _ rest .fake (by decide) (.inr rfl)

end Bytes

-- PickleLevelDBLogBlock in terms of pieces: an error, a value and the pieces left, or
-- a block that has been used up.
inductive Taken where
  | failed (code : Int)
  | complete (value : Bytes) (left : List Part)
  | more (value : Bytes)
deriving DecidableEq, Repr

-- `padded` says that there is padding after the pieces.
def takeParts (partialValue padded : Bool) : List Part → Bytes → Taken
  | [], value => if padded && partialValue then .failed LogError.unexpectedType1 else .more value
  | part :: rest, value =>
      match part.kind with
      | .full => if partialValue then .failed LogError.unexpectedType1 else .complete (value ++ part.bytes) rest
      | .first => if partialValue then .failed LogError.unexpectedType1 else takeParts partialValue padded rest (value ++ part.bytes)
      | .middle => if partialValue then takeParts partialValue padded rest (value ++ part.bytes) else .failed LogError.unexpectedType2
      | .last => if partialValue then .complete (value ++ part.bytes) rest else .failed LogError.unexpectedType2

-- How what is read of the bytes of a block stands to what is taken of its pieces;
-- `reached` is where the pieces end.
def Renders (reached : Nat) (padded : Bool) : Taken → Picked → Prop
  | .failed code, .failed code' => code = code'
  | .complete value left, .complete value' used => value = value' ∧ used + partsSize left = reached
  | .more value, .more value' fake => value = value' ∧ (fake = true → padded = true)
  | _, _ => False

section Picking

variable (crc : Crc32c) (startSeq blockSize : Nat) (partialValue : Bool)

theorem check_part (part : Part) (headOfBlk : Bool) (inside : headOfBlk = false) :
    checkLevelDBRecord startSeq ⟨part.kind.type, part.bytes⟩ headOfBlk partialValue =
      match part.kind with
      | .full => if partialValue then some (.error LogError.unexpectedType1) else some (.ok true)
      | .first => if partialValue then some (.error LogError.unexpectedType1) else some (.ok false)
      | .middle => if partialValue then some (.ok false) else some (.error LogError.unexpectedType2)
      | .last => if partialValue then some (.ok true) else some (.error LogError.unexpectedType2) := by
  subst inside
  rcases part with ⟨kind, bytes⟩
  cases kind <;> cases partialValue <;> simp [checkLevelDBRecord, PartKind.type]

theorem part_bytes_cons (part : Part) (rest : Bytes) : ∃ byte tail, partBytes crc part ++ rest = byte :: tail := by
  cases shape : partBytes crc part ++ rest with
  | nil =>
    have long := congrArg List.length shape
    rw [List.length_append, part_bytes_length] at long
    simp [Part.size, headerSize] at long
  | cons byte tail => exact ⟨byte, tail, rfl⟩

-- One turn of the loop at a piece.
theorem pickle_records_part (part : Part) (sized : part.Sized) (rest : Bytes) (fuel used : Nat) (value : Bytes) (fake : Bool)
    (inside : (partBytes crc part ++ rest).length ≠ blockSize) :
    pickleRecords crc startSeq blockSize partialValue (fuel + 1) (partBytes crc part ++ rest) value used fake =
      match part.kind with
      | .full => if partialValue then some (.failed LogError.unexpectedType1) else some (.complete (value ++ part.bytes) (used + part.size))
      | .first =>
          if partialValue then some (.failed LogError.unexpectedType1)
          else pickleRecords crc startSeq blockSize partialValue fuel rest (value ++ part.bytes) (used + part.size) false
      | .middle =>
          if partialValue then pickleRecords crc startSeq blockSize partialValue fuel rest (value ++ part.bytes) (used + part.size) false
          else some (.failed LogError.unexpectedType2)
      | .last => if partialValue then some (.complete (value ++ part.bytes) (used + part.size)) else some (.failed LogError.unexpectedType2) := by
  obtain ⟨byte, tail, shape⟩ := part_bytes_cons crc part rest
  have read := pickle_part crc part sized rest
  have left : (byte :: tail).drop part.size = rest := by
    rw [← shape, ← part_bytes_length crc part, List.drop_left]
  have some_value : value ++ part.bytes ≠ [] := by
    intro empty
    exact sized.1 (List.append_eq_nil_iff.mp empty).2
  rw [shape] at read inside ⊢
  conv_lhs => rw [pickleRecords, read]
  simp only [left]
  rw [check_part startSeq partialValue part _ (by simpa using inside)]
  rcases part with ⟨kind, bytes⟩
  have data : bytes ≠ [] := sized.1
  cases kind <;> cases partialValue <;> simp [PartKind.type, RecordType.carriesData, asserting, data]

theorem pickle_records_pad (pad : Bytes) (padding : Padding crc pad) (fuel used : Nat) (value : Bytes)
    (enough : pad.length ≤ fuel) (inside : pad.length ≠ blockSize) :
    ∃ picked, pickleRecords crc startSeq blockSize partialValue fuel pad value used false = some picked ∧
      Renders used (pad ≠ []) (takeParts partialValue (pad ≠ []) [] value) picked := by
  rcases padding with rfl | ⟨kind, skipped, read⟩
  · refine ⟨.more value false, by rw [pickleRecords], ?_⟩
    simp [takeParts, Renders]
  · cases pad with
    | nil => exact ⟨.more value false, by rw [pickleRecords], by simp [takeParts, Renders]⟩
    | cons byte rest =>
      cases fuel with
      | zero => simp at enough
      | succ fuel =>
        have head : decide ((byte :: rest).length = blockSize) = false := by simpa using inside
        unfold pickleRecords
        rw [read true]
        simp only [head, List.drop_length]
        rcases skipped with rfl | rfl
        · cases partialValue
          · exact ⟨_, by simp [checkLevelDBRecord, RecordType.carriesData, asserting, pickleRecords]; rfl, by simp [takeParts, Renders]⟩
          · exact ⟨_, by simp [checkLevelDBRecord]; rfl, by simp [takeParts, Renders]⟩
        · cases partialValue
          · exact ⟨_, by simp [checkLevelDBRecord, RecordType.carriesData, asserting, pickleRecords]; rfl, by simp [takeParts, Renders]⟩
          · exact ⟨_, by simp [checkLevelDBRecord]; rfl, by simp [takeParts, Renders]⟩

theorem pickle_records_parts (parts : List Part) (sized : ∀ part ∈ parts, part.Sized) (pad : Bytes) (padding : Padding crc pad)
    (fuel used : Nat) (value : Bytes) (enough : (partsBytes crc parts ++ pad).length ≤ fuel)
    (inside : (partsBytes crc parts ++ pad).length < blockSize) :
    ∃ picked, pickleRecords crc startSeq blockSize partialValue fuel (partsBytes crc parts ++ pad) value used false = some picked ∧
      Renders (used + partsSize parts) (pad ≠ []) (takeParts partialValue (pad ≠ []) parts value) picked := by
  induction parts generalizing fuel used value with
  | nil =>
    simp only [partsBytes, List.flatMap_nil, List.nil_append] at enough inside ⊢
    exact pickle_records_pad crc startSeq blockSize partialValue pad padding fuel used value enough (Nat.ne_of_lt inside)
  | cons part rest ih =>
    have split : partsBytes crc (part :: rest) ++ pad = partBytes crc part ++ (partsBytes crc rest ++ pad) := by
      simp [partsBytes]
    rw [split] at enough inside ⊢
    have long := part_bytes_length crc part
    rw [List.length_append, long] at enough inside
    have part_sized := sized part (List.mem_cons_self ..)
    cases fuel with
    | zero =>
      simp [Part.size, headerSize] at enough
    | succ fuel =>
      have positive : 0 < part.size := by
        unfold Part.size headerSize
        omega
      have total : used + partsSize (part :: rest) = used + part.size + partsSize rest := by
        simp [partsSize]
        omega
      rw [pickle_records_part crc startSeq blockSize partialValue part part_sized _ fuel used value false
        (by rw [List.length_append, long]; omega), total]
      obtain ⟨picked, ran, rendered⟩ := ih (fun other member => sized other (List.mem_cons_of_mem _ member)) fuel (used + part.size)
        (value ++ part.bytes) (by omega) (by omega)
      rcases part with ⟨kind, bytes⟩
      cases kind <;> cases partialValue <;> simp only [takeParts, Bool.false_eq_true, if_true, if_false]
      · exact ⟨_, rfl, rfl, rfl⟩
      · exact ⟨_, rfl, rfl⟩
      · exact ⟨picked, ran, rendered⟩
      · exact ⟨_, rfl, rfl⟩
      · exact ⟨_, rfl, rfl⟩
      · exact ⟨picked, ran, rendered⟩
      · exact ⟨_, rfl, rfl⟩
      · exact ⟨_, rfl, rfl, rfl⟩

-- The rest of a block whose head has been passed.
theorem pickle_block_rest (parts : List Part) (sized : ∀ part ∈ parts, part.Sized) (pad : Bytes) (padding : Padding crc pad) (value : Bytes)
    (started : startSeq ≠ 0) (some_rest : partsBytes crc parts ++ pad ≠ []) (inside : (partsBytes crc parts ++ pad).length < blockSize) :
    ∃ picked, pickleLevelDBLogBlock crc startSeq blockSize (partsBytes crc parts ++ pad) value = some picked ∧
      Renders (partsSize parts) (pad ≠ []) (takeParts (value ≠ []) (pad ≠ []) parts value) picked := by
  have positive := List.length_pos_iff.mpr some_rest
  obtain ⟨picked, ran, rendered⟩ := pickle_records_parts crc startSeq blockSize (value ≠ []) parts sized pad padding _ 0 value
    (Nat.le_refl _) inside
  refine ⟨picked, ?_, by simpa using rendered⟩
  rw [pickleLevelDBLogBlock, asserting, if_pos ⟨started, by omega, positive, by omega⟩]
  exact ran

theorem head_bytes_cons (seq : Nat) (rest : Bytes) : ∃ byte tail, headBytes crc seq ++ rest = byte :: tail := by
  cases shape : headBytes crc seq ++ rest with
  | nil =>
    have long := congrArg List.length shape
    rw [List.length_append, head_bytes_length] at long
    simp [blockMetaSize] at long
  | cons byte tail => exact ⟨byte, tail, rfl⟩

theorem check_head (seq : Nat) (small : seq < 2 ^ 64) (started : startSeq ≠ 0) :
    checkLevelDBRecord startSeq ⟨.blockMeta, blockMetaBytes seq⟩ true partialValue =
      if seq ≤ startSeq then some (.error LogError.deprecateBlk) else some (.ok false) := by
  simp [checkLevelDBRecord, meta_read_back seq small, asserting, started, isDeprecateBlock]

-- A whole block: an old one ends the file, any other is a head and its pieces.
theorem pickle_block_head (block : Block) (sized : ∀ part ∈ block.parts, part.Sized) (pad : Bytes) (padding : Padding crc pad) (value : Bytes)
    (started : startSeq ≠ 0) (small : block.seq < 2 ^ 64)
    (whole : (headBytes crc block.seq ++ (partsBytes crc block.parts ++ pad)).length = blockSize) :
    ∃ picked, pickleLevelDBLogBlock crc startSeq blockSize (headBytes crc block.seq ++ (partsBytes crc block.parts ++ pad)) value = some picked ∧
      if block.seq ≤ startSeq then picked = .failed LogError.deprecateBlk
      else Renders (blockMetaSize + partsSize block.parts) (pad ≠ []) (takeParts (value ≠ []) (pad ≠ []) block.parts value) picked := by
  have parted := whole
  rw [List.length_append, head_bytes_length] at parted
  obtain ⟨byte, tail, shape⟩ := head_bytes_cons crc block.seq (partsBytes crc block.parts ++ pad)
  have read := pickle_head crc block.seq (partsBytes crc block.parts ++ pad)
  have left : (byte :: tail).drop blockMetaSize = partsBytes crc block.parts ++ pad := by
    rw [← shape, ← head_bytes_length crc block.seq, List.drop_left]
  have guards : startSeq ≠ 0 ∧ 0 < blockSize ∧ 0 < (byte :: tail).length ∧ (byte :: tail).length ≤ blockSize := by
    rw [← shape, whole]
    simp only [blockMetaSize] at parted
    omega
  rw [shape] at read whole ⊢
  have size : (byte :: tail).length = tail.length + 1 := rfl
  rw [pickleLevelDBLogBlock, asserting, if_pos guards, size, pickleRecords, read]
  simp only [left]
  rw [show decide ((byte :: tail).length = blockSize) = true by simpa using whole, check_head startSeq _ block.seq small started]
  by_cases old : block.seq ≤ startSeq
  · simp [old]
  · obtain ⟨picked, ran, rendered⟩ := pickle_records_parts crc startSeq blockSize (value ≠ []) block.parts sized pad padding tail.length
      (0 + blockMetaSize) value (by simp only [List.length_cons, blockMetaSize] at whole parted; omega)
      (by simp only [blockMetaSize] at parted; omega)
    refine ⟨picked, ?_, ?_⟩
    · simp only [if_neg old, Option.bind_some, asserting, RecordType.carriesData, Bool.false_eq_true, false_implies, if_true, if_false]
      have plain : decide (blockMetaSize = (byte :: tail).length ∧ RecordType.blockMeta = RecordType.fake) = false := by simp
      rw [plain]
      exact ran
    · rw [if_neg old]
      simpa using rendered

end Picking

end PaxosStore.DbComm
