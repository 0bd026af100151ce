import PaxosStore.DbComm.BitCaskRecord
import PaxosStore.PaxosKv.PropNum

set_option autoImplicit false

namespace PaxosStore.DbComm.BitCask

open PaxosStore.Codec PaxosStore.PaxosKv

def BDB_FORMAT_ERROR_BROKEN_START_FLAG : Int := -100

def BDB_FORMAT_ERROR_BROKEN_HEAD : Int := -101

def BDB_FORMAT_ERROR_BROKEN_RECORD : Int := -102

def BDB_READ_ERROR_UNEXPECTED_EOF : Int := -1002

def BDB_READ_ERROR_POOR_READ : Int := -1003

def isBitCaskFormatError (retCode : Int) : Bool := decide (-100 ≥ retCode ∧ -1000 ≤ retCode)

-- GetRecordLen of a buffer of RECORD_HEAD_SIZE bytes
def getRecordLen (buf : Bytes) : Except Fault Int :=
  if recordHeadSize > buf.length then .ok (-1)
  else
    readByte buf fun start rest =>
      if start ≠ startFlag then .ok BDB_FORMAT_ERROR_BROKEN_START_FLAG
      else
        readByte rest fun _ rest =>
          readByte rest fun keyLen rest =>
            readNet32 rest fun valLen _ =>
              if 2 ^ 7 ≤ keyLen.toNat ∨ int32 valLen < 0 then .ok BDB_FORMAT_ERROR_BROKEN_HEAD
              else .ok (int32 (recordSize keyLen.toNat valLen))

-- `start` is the offset at which sRawRecord was read; what a failed read leaves in
-- the two outputs is not looked at.
structure RawRead where
  ret : Int
  rawRecord : Bytes := []
  nextOffset : Nat := 0
  start : Nat := 0
deriving DecidableEq, Repr

-- pread returns the bytes there are up to the end of the file.
def preadFile (file : Bytes) (count offset : Nat) : Bytes := (file.drop offset).take count

def readARawRecord (file : Bytes) (offset : Nat) : Except Fault RawRead :=
  let head := preadFile file recordHeadSize offset
  if recordHeadSize ≠ head.length then
    if 0 = head.length then .ok { ret := 1 } else .ok { ret := BDB_READ_ERROR_POOR_READ }
  else
    (getRecordLen head).bind fun recLen =>
      if 0 > recLen then if -1 = recLen then .error .failedAssert else .ok { ret := recLen }
      else if ¬ (0 < recLen ∧ (recordHeadSize : Int) < recLen) then .error .failedAssert
      else
        let raw := preadFile file recLen.toNat offset
        if raw.length ≠ recLen.toNat then
          if 0 = raw.length then .ok { ret := BDB_READ_ERROR_UNEXPECTED_EOF } else .ok { ret := BDB_READ_ERROR_POOR_READ }
        else
          (isAValidRecord raw).bind fun valid =>
            if valid = false then .ok { ret := BDB_FORMAT_ERROR_BROKEN_RECORD }
            else .ok { ret := 0, rawRecord := raw, nextOffset := wrap32 (offset + raw.length), start := offset }

-- What ends a pass over the bytes of sReadBuf: a return, or all of them are done.
inductive Scanned where
  | returned (read : RawRead)
  | passed (skipCnt : Nat)
deriving DecidableEq, Repr

-- The for loop over what one pread has put in sReadBuf.
def scanBytes (file : Bytes) (offset : Nat) : Bytes → Nat → Option Scanned
  | [], skipCnt => some (.passed skipCnt)
  | byte :: rest, skipCnt =>
      let skipCnt := if startFlag ≠ byte then wrap32 (skipCnt + 1) else skipCnt
      (readARawRecord file (wrap32 (offset + skipCnt))).toOption.bind fun read =>
        if 0 = read.ret then some (.returned read)
        else if isBitCaskFormatError read.ret = false then
          some (.returned { read with ret := if 1 = read.ret then BDB_READ_ERROR_UNEXPECTED_EOF else read.ret })
        else scanBytes file offset rest (wrap32 (skipCnt + 1))

def readBufSize : Nat := 4096

def scanLoop (file : Bytes) (offset : Nat) : Nat → Nat → Option RawRead
  | 0, _ => none
  | fuel + 1, skipCnt =>
      let buf := preadFile file readBufSize (wrap32 (offset + skipCnt))
      if 0 = buf.length then some { ret := 1 }
      else
        (scanBytes file offset buf skipCnt).bind fun scanned =>
          match scanned with
          | .returned read => some read
          | .passed newSkipCnt => asserting (wrap32 (skipCnt + buf.length) = newSkipCnt) (scanLoop file offset fuel newSkipCnt)

-- The descriptor is open.
def readARawRecordSkipError (fuel : Nat) (file : Bytes) (offset : Nat) : Option RawRead :=
  (readARawRecord file offset).toOption.bind fun read =>
    if 0 = read.ret then some read
    else if isBitCaskFormatError read.ret = false then some read
    else scanLoop file offset fuel 0

-- A valid record of `len` bytes at a place of a file; its key may be longer than the
-- array that keys are copied to.
def RecordAt (file : Bytes) (place len : Nat) : Prop :=
  ∃ record : Record, record.key.length < 2 ^ 7 ∧ len = recordSize record.key.length record.val.length ∧ len < 2 ^ 31 ∧
    ∃ rest, file.drop place = recordBytes record len ++ rest

-- There is a head, but no start flag, a negative length, or a record that ends within
-- the file and not with its size and the end flag.
def Damaged (file : Bytes) (place : Nat) : Prop :=
  place + recordHeadSize ≤ file.length ∧
    (headOf (file.drop place) = none ∨
      ∃ flag keyLen valLen body, headOf (file.drop place) = some (flag, keyLen, valLen, body) ∧
        (2 ^ 7 ≤ keyLen ∨ 2 ^ 31 ≤ valLen ∨
          recordSize keyLen valLen < 2 ^ 31 ∧ place + recordSize keyLen valLen ≤ file.length ∧ ¬ TailAgrees keyLen valLen body))

theorem head_of_take (buf : Bytes) (count : Nat) (flag : UInt8) (keyLen valLen : Nat) (body : Bytes)
    (head : headOf buf = some (flag, keyLen, valLen, body)) :
    headOf (buf.take (count + 7)) = some (flag, keyLen, valLen, body.take count) := by
  obtain ⟨key, a, b, c, d, rfl, rfl, rfl⟩ := head_shape buf flag keyLen valLen body head
  rfl

theorem head_of_length (buf : Bytes) (flag : UInt8) (keyLen valLen : Nat) (body : Bytes) (head : headOf buf = some (flag, keyLen, valLen, body)) :
    buf.length = recordHeadSize + body.length := by
  obtain ⟨key, a, b, c, d, rfl, rfl, rfl⟩ := head_shape buf flag keyLen valLen body head
  simp only [List.length_cons, recordHeadSize]
  omega

theorem get_record_len_head (buf : Bytes) (flag : UInt8) (keyLen valLen : Nat) (body : Bytes)
    (head : headOf buf = some (flag, keyLen, valLen, body)) :
    getRecordLen (buf.take recordHeadSize) =
      if 2 ^ 7 ≤ keyLen ∨ 2 ^ 31 ≤ valLen then .ok BDB_FORMAT_ERROR_BROKEN_HEAD else .ok (int32 (recordSize keyLen valLen)) := by
  obtain ⟨key, a, b, c, d, rfl, rfl, rfl⟩ := head_shape buf flag keyLen valLen body head
  have sign := int32_sign (fromNet32 a b c d) (from_net32_lt a b c d)
  show (if 2 ^ 7 ≤ key.toNat ∨ int32 (fromNet32 a b c d) < 0 then _ else _) = _
  by_cases wrong : 2 ^ 7 ≤ key.toNat ∨ int32 (fromNet32 a b c d) < 0
  · rw [if_pos wrong, if_pos (by rwa [sign] at wrong)]
  · rw [if_neg wrong, if_neg (by rwa [sign] at wrong)]

theorem get_record_len_headless (buf : Bytes) (long : recordHeadSize ≤ buf.length) (head : headOf buf = none) :
    getRecordLen (buf.take recordHeadSize) = .ok BDB_FORMAT_ERROR_BROKEN_START_FLAG := by
  obtain ⟨start, flag, key, a, b, c, d, body, rfl⟩ := long_shape buf long
  have different : start ≠ startFlag := by
    intro same
    rw [headOf, if_pos same] at head
    cases head
  show (if start ≠ startFlag then _ else _) = _
  rw [if_pos different]

theorem tail_agrees_take (keyLen valLen count : Nat) (body : Bytes) (inside : keyLen + valLen + 13 ≤ count) :
    TailAgrees keyLen valLen (body.take count) ↔ TailAgrees keyLen valLen body := by
  rw [TailAgrees, TailAgrees, List.drop_take, List.take_take, Nat.min_eq_left (by omega)]

-- A buffer of the size its head asks for is valid when its tail agrees.
theorem is_a_valid_record_sized (buf : Bytes) (flag : UInt8) (keyLen valLen : Nat) (body : Bytes)
    (head : headOf buf = some (flag, keyLen, valLen, body)) (key : keyLen < 2 ^ 7) (val : valLen < 2 ^ 31)
    (small : recordSize keyLen valLen < 2 ^ 31) (size : buf.length = recordSize keyLen valLen) :
    ∃ valid, isAValidRecord buf = .ok valid ∧ (valid = true ↔ TailAgrees keyLen valLen body) := by
  have sum := record_size_eq keyLen valLen
  have length := head_of_length buf flag keyLen valLen body head
  have sign := int32_sign valLen (by omega)
  have exactly := int32_small (recordSize keyLen valLen) small
  obtain ⟨keyBytes, valBytes, verA, verB, decodeSize, stop, rest, rfl, rfl, -, -, smallC, rfl⟩ :=
    body_shape keyLen valLen body (by unfold recordHeadSize at length; omega)
  have parts : keyBytes ++ (valBytes ++ (net32 verA ++ (net32 verB ++ (net32 decodeSize ++ stop :: rest)))) =
      (keyBytes ++ valBytes) ++ ((net32 verA ++ net32 verB) ++ (net32 decodeSize ++ stop :: rest)) := by
    simp only [List.append_assoc]
  rw [(to_record_head buf flag _ _ _ head).2, isAValidBody, if_neg (by rw [sign]; omega), exactly]
  dsimp only
  rw [if_neg (by omega), if_neg (by omega), parts, ← List.length_append, List.drop_left, ← parts,
    show 8 = (net32 verA ++ net32 verB).length from rfl, List.drop_left, read_net32_append decodeSize smallC, read_byte_cons]
  refine ⟨_, rfl, ?_⟩
  rw [decide_eq_true_iff, tail_agrees_shape keyBytes valBytes verA verB decodeSize smallC stop rest, Nat.mod_eq_of_lt (by omega)]
  have same := int32_same_size decodeSize _ smallC small
  rw [exactly] at same
  exact ⟨fun both => ⟨same.mp both.2.symm, both.1⟩, fun both => ⟨both.2, (same.mpr both.1).symm⟩⟩

theorem record_at_iff (file : Bytes) (place len : Nat) (flag : UInt8) (keyLen valLen : Nat) (body : Bytes)
    (head : headOf (file.drop place) = some (flag, keyLen, valLen, body)) :
    RecordAt file place len ↔
      keyLen < 2 ^ 7 ∧ valLen < 2 ^ 31 ∧ len = recordSize keyLen valLen ∧ len < 2 ^ 31 ∧ place + len ≤ file.length ∧
        TailAgrees keyLen valLen body := by
  have length := head_of_length _ flag keyLen valLen body head
  rw [List.length_drop] at length
  constructor
  · rintro ⟨record, key, rfl, small, rest, shape⟩
    have sum := record_size_eq record.key.length record.val.length
    rw [shape, record_bytes_append, head_of_append _ _ _ _ (by omega) (by omega)] at head
    simp only [Option.some.injEq, Prod.mk.injEq] at head
    obtain ⟨rfl, rfl, rfl, rfl⟩ := head
    have whole := congrArg List.length shape
    rw [List.length_append, record_bytes_length, List.length_drop] at whole
    refine ⟨key, by omega, rfl, small, by omega, ?_⟩
    rw [tail_agrees_shape _ _ _ _ _ (by omega)]
    exact ⟨(Nat.mod_eq_of_lt (by omega)).symm, rfl⟩
  · rintro ⟨key, val, rfl, small, inside, agrees⟩
    have sum := record_size_eq keyLen valLen
    obtain ⟨shape, -, -⟩ := head_of_some _ flag keyLen valLen body head
    obtain ⟨keyBytes, valBytes, verA, verB, decodeSize, stop, rest, rfl, rfl, smallA, smallB, smallC, rfl⟩ :=
      body_shape keyLen valLen body (by unfold recordHeadSize at length; omega)
    rw [tail_agrees_shape _ _ _ _ _ smallC, Nat.mod_eq_of_lt (by omega)] at agrees
    obtain ⟨rfl, rfl⟩ := agrees
    refine ⟨⟨flag, keyBytes, valBytes, UInt32.ofNat verA, UInt32.ofNat verB⟩, key, rfl, small, rest, ?_⟩
    rw [shape, record_bytes_append, UInt32.toNat_ofNat_of_lt' smallA, UInt32.toNat_ofNat_of_lt' smallB]

theorem record_at_head (file : Bytes) (place len : Nat) (record : RecordAt file place len) :
    ∃ flag keyLen valLen body, headOf (file.drop place) = some (flag, keyLen, valLen, body) := by
  obtain ⟨record, key, rfl, small, rest, shape⟩ := record
  have sum := record_size_eq record.key.length record.val.length
  rw [shape, record_bytes_append]
  exact ⟨_, _, _, _, head_of_append _ _ _ _ (by omega) (by omega)⟩

theorem record_at_inside (file : Bytes) (place len : Nat) (record : RecordAt file place len) :
    place + len ≤ file.length ∧ 20 ≤ len ∧ ¬ Damaged file place := by
  obtain ⟨flag, keyLen, valLen, body, head⟩ := record_at_head file place len record
  obtain ⟨key, val, rfl, small, inside, agrees⟩ := (record_at_iff file place len flag keyLen valLen body head).mp record
  have sum := record_size_eq keyLen valLen
  refine ⟨inside, by omega, ?_⟩
  rintro ⟨-, none | ⟨_, _, _, _, same, wrong⟩⟩
  · rw [head] at none
    cases none
  · rw [head] at same
    obtain ⟨rfl, rfl, rfl, rfl⟩ : _ ∧ _ ∧ _ ∧ _ := by simpa only [Option.some.injEq, Prod.mk.injEq] using same
    rcases wrong with low | high | ⟨-, -, differs⟩
    · omega
    · omega
    · exact differs agrees

-- What one read makes of a place: the end of the file, a record, damage that is a
-- format error, or a record that is cut by the end of the file.
inductive Placed (file : Bytes) (place : Nat) : RawRead → Prop where
  | past (behind : file.length ≤ place) : Placed file place { ret := 1 }
  | record (len : Nat) (whole : RecordAt file place len) :
      Placed file place { ret := 0, rawRecord := (file.drop place).take len, nextOffset := wrap32 (place + len), start := place }
  | damaged (read : RawRead) (damaged : Damaged file place) (format : isBitCaskFormatError read.ret = true) : Placed file place read
  | cut (read : RawRead) (sound : ¬ Damaged file place) (inside : place < file.length) (none : ∀ len, ¬ RecordAt file place len)
      (other : isBitCaskFormatError read.ret = false) (failed : read.ret ≠ 0 ∧ read.ret ≠ 1) : Placed file place read

theorem read_a_raw_record_placed (file : Bytes) (place : Nat) : ∃ read, readARawRecord file place = .ok read ∧ Placed file place read := by
  have available : (preadFile file recordHeadSize place).length = min recordHeadSize (file.length - place) := by
    rw [preadFile, List.length_take, List.length_drop]
  unfold readARawRecord
  dsimp only
  by_cases short : recordHeadSize ≠ (preadFile file recordHeadSize place).length
  · rw [if_pos short]
    by_cases nothing : 0 = (preadFile file recordHeadSize place).length
    · rw [if_pos nothing]
      rw [available] at nothing
      exact ⟨_, rfl, .past (by unfold recordHeadSize at nothing; omega)⟩
    · rw [if_neg nothing]
      rw [available] at nothing
      refine ⟨_, rfl, .cut _ ?_ (by unfold recordHeadSize at nothing; omega) ?_ rfl (by simp [BDB_READ_ERROR_POOR_READ])⟩
      · rintro ⟨long, -⟩
        omega
      · intro len whole
        obtain ⟨inside, long, -⟩ := record_at_inside file place len whole
        unfold recordHeadSize at available short
        omega
  · rw [if_neg short]
    have long : place + recordHeadSize ≤ file.length := by
      rw [not_not, available] at short
      unfold recordHeadSize at short ⊢
      omega
    cases head : headOf (file.drop place) with
    | none =>
        rw [preadFile, get_record_len_headless _ (by rw [List.length_drop]; omega) head]
        exact ⟨_, rfl, .damaged _ ⟨long, .inl head⟩ rfl⟩
    | some parts =>
        obtain ⟨flag, keyLen, valLen, body⟩ := parts
        have length := head_of_length _ flag keyLen valLen body head
        rw [List.length_drop] at length
        have sum := record_size_eq keyLen valLen
        rw [preadFile, get_record_len_head _ flag keyLen valLen body head]
        by_cases wrong : 2 ^ 7 ≤ keyLen ∨ 2 ^ 31 ≤ valLen
        · rw [if_pos wrong]
          refine ⟨_, rfl, .damaged _ ⟨long, .inr ⟨flag, keyLen, valLen, body, head, ?_⟩⟩ rfl⟩
          rcases wrong with low | high
          · exact .inl low
          · exact .inr (.inl high)
        · rw [if_neg wrong]
          rw [not_or, Nat.not_le, Nat.not_le] at wrong
          obtain ⟨key, val⟩ := wrong
          dsimp only [Except.bind]
          have sound : ¬ (recordSize keyLen valLen < 2 ^ 31 ∧ place + recordSize keyLen valLen ≤ file.length) →
              ¬ Damaged file place ∧ ∀ len, ¬ RecordAt file place len := by
            intro past
            constructor
            · rintro ⟨-, none | ⟨_, _, _, _, same, damage⟩⟩
              · rw [head] at none
                cases none
              · rw [head] at same
                obtain ⟨rfl, rfl, rfl, rfl⟩ : _ ∧ _ ∧ _ ∧ _ := by simpa only [Option.some.injEq, Prod.mk.injEq] using same
                rcases damage with low | high | ⟨small, inside, -⟩
                · omega
                · omega
                · exact past ⟨small, inside⟩
            · intro len whole
              obtain ⟨-, -, rfl, small, inside, -⟩ := (record_at_iff file place len flag keyLen valLen body head).mp whole
              exact past ⟨small, inside⟩
          by_cases large : 2 ^ 31 ≤ recordSize keyLen valLen
          · have value : int32 (recordSize keyLen valLen) = (recordSize keyLen valLen : Int) - 2 ^ 32 := by
              unfold int32
              rw [Nat.mod_eq_of_lt (by omega), if_neg (by omega)]
            rw [value, if_pos (by omega), if_neg (by omega)]
            obtain ⟨fine, none⟩ := sound (by omega)
            refine ⟨_, rfl, .cut _ fine (by unfold recordHeadSize at long; omega) none ?_ ⟨?_, ?_⟩⟩
            · rw [isBitCaskFormatError, decide_eq_false_iff_not]
              dsimp only
              omega
            · dsimp only
              omega
            · dsimp only
              omega
          · rw [int32_small _ (by omega), if_neg (by omega), if_neg (by rw [not_not]; unfold recordHeadSize; omega), Int.toNat_natCast]
            have taken : (preadFile file (recordSize keyLen valLen) place).length = min (recordSize keyLen valLen) (file.length - place) := by
              rw [preadFile, List.length_take, List.length_drop]
            by_cases past : (preadFile file (recordSize keyLen valLen) place).length ≠ recordSize keyLen valLen
            · rw [if_pos past]
              obtain ⟨fine, none⟩ := sound (by omega)
              rw [if_neg (by unfold recordHeadSize at long; omega)]
              exact ⟨_, rfl, .cut _ fine (by unfold recordHeadSize at long; omega) none rfl (by simp [BDB_READ_ERROR_POOR_READ])⟩
            · rw [if_neg past]
              rw [not_not] at past
              obtain ⟨count, size⟩ : ∃ count, recordSize keyLen valLen = count + 7 := ⟨13 + keyLen + valLen, by omega⟩
              have cutHead : headOf (preadFile file (recordSize keyLen valLen) place) = some (flag, keyLen, valLen, body.take count) := by
                rw [preadFile, size]
                exact head_of_take _ count flag keyLen valLen body head
              obtain ⟨valid, checked, agrees⟩ := is_a_valid_record_sized _ flag keyLen valLen _ cutHead key val (by omega) past
              rw [tail_agrees_take keyLen valLen count body (by omega)] at agrees
              rw [checked]
              dsimp only [Except.bind]
              cases valid with
              | false =>
                  refine ⟨_, rfl, .damaged _ ⟨long, .inr ⟨flag, keyLen, valLen, body, head, .inr (.inr ⟨by omega, by omega, ?_⟩)⟩⟩ rfl⟩
                  intro agree
                  cases agrees.mpr agree
              | true =>
                  rw [if_neg (by simp), past]
                  have whole : RecordAt file place (recordSize keyLen valLen) :=
                    (record_at_iff file place _ flag keyLen valLen body head).mpr
                      ⟨key, val, rfl, by omega, by omega, agrees.mp rfl⟩
                  exact ⟨_, rfl, .record _ whole⟩

end PaxosStore.DbComm.BitCask
