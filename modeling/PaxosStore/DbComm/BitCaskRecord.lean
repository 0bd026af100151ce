import PaxosStore.Codec.Bytes

set_option autoImplicit false

namespace PaxosStore.DbComm

open PaxosStore.Codec

def startFlag : UInt8 := 0x12

def endFlag : UInt8 := 0x34

-- The key is what cKeyLen says of sKey, the value the iValLen bytes at pVal.
structure Record where
  flag : UInt8
  key : Bytes
  val : Bytes
  verA : UInt32
  verB : UInt32
deriving DecidableEq, Repr

-- sizeof(sKey)
def keyRoom : Nat := 8

def recordHeadSize : Nat := 7

-- RECORD_SIZE, in 64 bits
def recordSize (keyLen valLen : Nat) : Nat := recordHeadSize + keyLen + valLen + 13

def calculateRecordSize (record : Record) : Int := int32 (recordSize record.key.length record.val.length)

-- The key fits its array and the size is an int.
def Admitted (record : Record) : Prop :=
  record.key.length ≤ keyRoom ∧ recordSize record.key.length record.val.length < 2 ^ 31

def recordBytes (record : Record) (size : Nat) : Bytes :=
  [startFlag, record.flag, UInt8.ofNat record.key.length] ++ (net32 record.val.length ++ (record.key ++ (record.val ++
    (net32 record.verA.toNat ++ (net32 record.verB.toNat ++ (net32 size ++ [endFlag]))))))

def toBufferImpl (record : Record) (size bufLen : Int) : Except Fault Bytes :=
  if 0 < size ∧ size ≤ bufLen ∧ size = recordSize record.key.length record.val.length then
    if record.key.length ≤ keyRoom then .ok (recordBytes record size.toNat) else .error .readOutside
  else .error .failedAssert

inductive Decoded where
  | refused (code : Int)
  | accepted (record : Record) (size : Int)
deriving DecidableEq, Repr

-- ToRecordImpl once the head has been read; `room` is iBufLen. A negative size is
-- larger than any buffer once it is converted to size_t. The value is not read:
-- pVal points to it.
def toRecordBody (room : Nat) (flag : UInt8) (keyLen valLen : Nat) (body : Bytes) : Except Fault Decoded :=
  let size := int32 (recordSize keyLen valLen)
  if size < 0 ∨ (room : Int) < size then .ok (.refused (-3))
  else if keyRoom < keyLen then .error .writeOutside
  else
    readBytes keyLen body fun key rest =>
      readNet32 (rest.drop valLen) fun verA tail =>
        readNet32 tail fun verB tail =>
          readNet32 tail fun decodeSize tail =>
            readByte tail fun stop _ =>
              if stop ≠ endFlag ∨ int32 decodeSize ≠ size then .ok (.refused (-4))
              else .ok (.accepted ⟨flag, key, rest.take valLen, UInt32.ofNat verA, UInt32.ofNat verB⟩ size)

def toRecordImpl (buf : Bytes) : Except Fault Decoded :=
  if buf.length < recordHeadSize then .ok (.refused (-1))
  else
    readByte buf fun start rest =>
      if start ≠ startFlag then .ok (.refused (-2))
      else
        readByte rest fun flag rest =>
          readByte rest fun keyLen rest =>
            readNet32 rest fun valLen rest => toRecordBody buf.length flag keyLen.toNat valLen rest

-- The key length is a signed char here, the value length an int.
def isAValidBody (room keyLen valLen : Nat) (body : Bytes) : Except Fault Bool :=
  if 2 ^ 7 ≤ keyLen ∨ int32 valLen < 0 then .ok false
  else
    let size := int32 (recordSize keyLen valLen)
    if size ≤ 0 then .error .failedAssert
    else if (room : Int) < size then .ok false
    else
      readNet32 ((body.drop (keyLen + valLen)).drop 8) fun recLen tail =>
        readByte tail fun stop _ => .ok (stop = endFlag ∧ size = int32 recLen)

def isAValidRecord (buf : Bytes) : Except Fault Bool :=
  if buf.length < recordHeadSize then .ok false
  else
    readByte buf fun start rest =>
      if start ≠ startFlag then .ok false
      else
        readByte rest fun _ rest =>
          readByte rest fun keyLen rest =>
            readNet32 rest fun valLen rest => isAValidBody buf.length keyLen.toNat valLen rest

-- What both functions see of a buffer that has a head: the flag, the two lengths
-- and the bytes after them.
def headOf : Bytes → Option (UInt8 × Nat × Nat × Bytes)
  | start :: flag :: keyLen :: a :: b :: c :: d :: body =>
      if start = startFlag then some (flag, keyLen.toNat, fromNet32 a b c d, body) else none
  | _ => none

theorem record_size_eq (keyLen valLen : Nat) : recordSize keyLen valLen = 20 + keyLen + valLen := by
  unfold recordSize recordHeadSize
  omega

theorem head_shape (buf : Bytes) (flag : UInt8) (keyLen valLen : Nat) (body : Bytes) (head : headOf buf = some (flag, keyLen, valLen, body)) :
    ∃ key a b c d, buf = startFlag :: flag :: key :: a :: b :: c :: d :: body ∧ keyLen = key.toNat ∧ valLen = fromNet32 a b c d := by
  unfold headOf at head
  split at head
  · rename_i start flag' key a b c d tail
    split at head
    · rename_i same
      simp only [Option.some.injEq, Prod.mk.injEq] at head
      obtain ⟨rfl, rfl, rfl, rfl⟩ := head
      exact ⟨key, a, b, c, d, by rw [same], rfl, rfl⟩
    · cases head
  · cases head

theorem head_of_some (buf : Bytes) (flag : UInt8) (keyLen valLen : Nat) (body : Bytes) (head : headOf buf = some (flag, keyLen, valLen, body)) :
    buf = [startFlag, flag, UInt8.ofNat keyLen] ++ (net32 valLen ++ body) ∧ keyLen < 256 ∧ valLen < 2 ^ 32 := by
  obtain ⟨key, a, b, c, d, rfl, rfl, rfl⟩ := head_shape buf flag keyLen valLen body head
  refine ⟨?_, key.toNat_lt, from_net32_lt a b c d⟩
  rw [net32_from]
  simp

theorem head_of_append (flag : UInt8) (keyLen valLen : Nat) (body : Bytes) (small : keyLen < 256) (fits : valLen < 2 ^ 32) :
    headOf ([startFlag, flag, UInt8.ofNat keyLen] ++ (net32 valLen ++ body)) = some (flag, keyLen, valLen, body) := by
  simp only [net32, List.cons_append, List.nil_append, headOf, if_true, from_net32_ofNat valLen fits, UInt8.toNat_ofNat',
    Nat.mod_eq_of_lt small]

theorem to_record_head (buf : Bytes) (flag : UInt8) (keyLen valLen : Nat) (body : Bytes) (head : headOf buf = some (flag, keyLen, valLen, body)) :
    toRecordImpl buf = toRecordBody buf.length flag keyLen valLen body ∧ isAValidRecord buf = isAValidBody buf.length keyLen valLen body := by
  obtain ⟨key, a, b, c, d, rfl, rfl, rfl⟩ := head_shape buf flag keyLen valLen body head
  have long : ¬ (startFlag :: flag :: key :: a :: b :: c :: d :: body).length < recordHeadSize := by
    simp [recordHeadSize]
  constructor
  · rw [toRecordImpl, if_neg long, read_byte_cons, if_neg (fun different => different rfl), read_byte_cons, read_byte_cons, read_net32_cons]
  · rw [isAValidRecord, if_neg long, read_byte_cons, if_neg (fun different => different rfl), read_byte_cons, read_byte_cons, read_net32_cons]

theorem long_shape (buf : Bytes) (long : 7 ≤ buf.length) : ∃ start flag key a b c d body, buf = start :: flag :: key :: a :: b :: c :: d :: body := by
  match buf, long with
  | start :: flag :: key :: a :: b :: c :: d :: body, _ => exact ⟨start, flag, key, a, b, c, d, body, rfl⟩

theorem to_record_headless (buf : Bytes) (head : headOf buf = none) :
    (∃ code, toRecordImpl buf = .ok (.refused code)) ∧ isAValidRecord buf = .ok false := by
  by_cases short : buf.length < recordHeadSize
  · rw [toRecordImpl, if_pos short, isAValidRecord, if_pos short]
    exact ⟨⟨-1, rfl⟩, rfl⟩
  · obtain ⟨start, flag, key, a, b, c, d, body, rfl⟩ := long_shape buf (Nat.le_of_not_lt short)
    have different : ¬ start = startFlag := by
      intro same
      rw [headOf, if_pos same] at head
      cases head
    rw [toRecordImpl, if_neg short, read_byte_cons, if_pos different, isAValidRecord, if_neg short, read_byte_cons, if_pos different]
    exact ⟨⟨-2, rfl⟩, rfl⟩

-- The bytes after the head of a record that lies wholly in the buffer.
theorem body_shape (keyLen valLen : Nat) (body : Bytes) (long : keyLen + valLen + 13 ≤ body.length) :
    ∃ key val verA verB decodeSize stop rest, key.length = keyLen ∧ val.length = valLen ∧ verA < 2 ^ 32 ∧ verB < 2 ^ 32 ∧ decodeSize < 2 ^ 32 ∧
      body = key ++ (val ++ (net32 verA ++ (net32 verB ++ (net32 decodeSize ++ stop :: rest)))) := by
  have first : body = body.take keyLen ++ body.drop keyLen := (List.take_append_drop keyLen body).symm
  have second : body.drop keyLen = (body.drop keyLen).take valLen ++ (body.drop keyLen).drop valLen := (List.take_append_drop valLen _).symm
  have left : ((body.drop keyLen).drop valLen).length = body.length - keyLen - valLen := by rw [List.length_drop, List.length_drop]
  obtain ⟨verA, tailA, smallA, shapeA⟩ := net32_shape ((body.drop keyLen).drop valLen) (by omega)
  rw [shapeA, List.length_append, net32_length] at left
  obtain ⟨verB, tailB, smallB, shapeB⟩ := net32_shape tailA (by omega)
  rw [shapeB, List.length_append, net32_length] at left
  obtain ⟨decodeSize, tailC, smallC, shapeC⟩ := net32_shape tailB (by omega)
  rw [shapeC, List.length_append, net32_length] at left
  obtain ⟨stop, rest, shapeD⟩ := List.exists_cons_of_length_pos (l := tailC) (by omega)
  refine ⟨body.take keyLen, (body.drop keyLen).take valLen, verA, verB, decodeSize, stop, rest, ?_, ?_, smallA, smallB, smallC, ?_⟩
  · rw [List.length_take]
    omega
  · rw [List.length_take, List.length_drop]
    omega
  · rw [← shapeD, ← shapeC, ← shapeB, ← shapeA, ← second, ← first]

section Body

variable (room : Nat) (flag : UInt8) (key val : Bytes) (verA verB decodeSize : Nat) (stop : UInt8) (rest : Bytes)
  (smallA : verA < 2 ^ 32) (smallB : verB < 2 ^ 32) (smallC : decodeSize < 2 ^ 32)
include smallA smallB smallC

-- Decoding where nothing keeps the reads from being made.
theorem to_record_body_reads (fits : 0 ≤ int32 (recordSize key.length val.length) ∧ int32 (recordSize key.length val.length) ≤ room)
    (roomy : key.length ≤ keyRoom) :
    toRecordBody room flag key.length val.length (key ++ (val ++ (net32 verA ++ (net32 verB ++ (net32 decodeSize ++ stop :: rest))))) =
      if stop ≠ endFlag ∨ int32 decodeSize ≠ int32 (recordSize key.length val.length) then .ok (.refused (-4))
      else .ok (.accepted ⟨flag, key, val, UInt32.ofNat verA, UInt32.ofNat verB⟩ (int32 (recordSize key.length val.length))) := by
  have inside : ¬ (int32 (recordSize key.length val.length) < 0 ∨ (room : Int) < int32 (recordSize key.length val.length)) := by
    intro outside
    rcases outside with negative | long
    · exact absurd fits.1 (Int.not_le.mpr negative)
    · exact absurd fits.2 (Int.not_le.mpr long)
  rw [toRecordBody, if_neg inside, if_neg (Nat.not_lt.mpr roomy), read_bytes_append, List.drop_left, read_net32_append verA smallA,
    read_net32_append verB smallB, read_net32_append decodeSize smallC, read_byte_cons, List.take_left]

end Body

theorem int32_same_size (decodeSize size : Nat) (small : decodeSize < 2 ^ 32) (fits : size < 2 ^ 31) : int32 decodeSize = int32 size ↔ decodeSize = size := by
  rw [int32_small size fits]
  unfold int32
  rw [Nat.mod_eq_of_lt small]
  split <;> omega

theorem record_bytes_append (record : Record) (size : Nat) (rest : Bytes) :
    recordBytes record size ++ rest = [startFlag, record.flag, UInt8.ofNat record.key.length] ++ (net32 record.val.length ++
      (record.key ++ (record.val ++ (net32 record.verA.toNat ++ (net32 record.verB.toNat ++ (net32 size ++ endFlag :: rest)))))) := by
  simp only [recordBytes, List.append_assoc, List.cons_append, List.nil_append]

theorem admitted_size (record : Record) (admitted : Admitted record) :
    calculateRecordSize record = recordSize record.key.length record.val.length := int32_small _ admitted.2

theorem record_bytes_length (record : Record) (size : Nat) : (recordBytes record size).length = recordSize record.key.length record.val.length := by
  simp only [recordBytes, recordSize, recordHeadSize, List.length_append, net32_length, List.length_cons, List.length_nil]
  omega

theorem to_record_of_bytes (record : Record) (admitted : Admitted record) (rest : Bytes) :
    toRecordImpl (recordBytes record (recordSize record.key.length record.val.length) ++ rest) =
      .ok (.accepted record (calculateRecordSize record)) := by
  have eight : record.key.length ≤ 8 := admitted.1
  have bound := admitted.2
  have size := record_size_eq record.key.length record.val.length
  have long : (recordBytes record (recordSize record.key.length record.val.length) ++ rest).length =
      recordSize record.key.length record.val.length + rest.length := by rw [List.length_append, record_bytes_length]
  have head := head_of_append record.flag record.key.length record.val.length
    (record.key ++ (record.val ++ (net32 record.verA.toNat ++ (net32 record.verB.toNat ++
      (net32 (recordSize record.key.length record.val.length) ++ endFlag :: rest))))) (by omega) (by omega)
  rw [← record_bytes_append record (recordSize record.key.length record.val.length) rest] at head
  have small := int32_small _ bound
  rw [(to_record_head _ _ _ _ _ head).1, to_record_body_reads _ record.flag record.key record.val record.verA.toNat record.verB.toNat _ endFlag
    rest record.verA.toNat_lt record.verB.toNat_lt (by omega) (by rw [small, long]; omega) admitted.1, if_neg (by simp), calculateRecordSize]
  simp only [UInt32.ofNat_toNat]

-- What the claim on arbitrary bytes says of one buffer: both functions return,
-- and a record is accepted exactly when the buffer begins with its encoding.
def Meets (buf : Bytes) : Prop :=
  (∃ valid, isAValidRecord buf = .ok valid) ∧ ∃ out, toRecordImpl buf = .ok out ∧ ∀ record size, out = .accepted record size ↔
    Admitted record ∧ size = calculateRecordSize record ∧ ∃ rest, buf = recordBytes record (recordSize record.key.length record.val.length) ++ rest

-- The last five bytes of a record of the size the lengths give, cut to 32 bits.
def TailAgrees (keyLen valLen : Nat) (body : Bytes) : Prop :=
  (body.drop (keyLen + valLen + 8)).take 5 = net32 (recordSize keyLen valLen % 2 ^ 32) ++ [endFlag]

-- The two lengths do no harm: they do not add up to a size an int cannot hold
-- (the assertion of IsAValidRecord), no key that is copied is longer than its
-- array, and a size that wraps around does not pass for one that fits.
structure Benign (room keyLen valLen : Nat) (body : Bytes) : Prop where
  size : ¬ (keyLen < 2 ^ 7 ∧ valLen < 2 ^ 31 ∧ 2 ^ 31 ≤ recordSize keyLen valLen)
  key : 0 ≤ int32 (recordSize keyLen valLen) → int32 (recordSize keyLen valLen) ≤ room → keyLen ≤ keyRoom
  wrap : 2 ^ 32 ≤ recordSize keyLen valLen → recordSize keyLen valLen ≤ room + 2 ^ 32 →
    recordSize keyLen valLen ≤ room ∧ ¬ TailAgrees keyLen valLen body

-- Whatever begins with an encoding is accepted, so that only the other half of
-- the last condition is left to see to.
theorem meets_iff (buf : Bytes) :
    Meets buf ↔ (∃ valid, isAValidRecord buf = .ok valid) ∧ ∃ out, toRecordImpl buf = .ok out ∧ ∀ record size, out = .accepted record size →
      Admitted record ∧ size = calculateRecordSize record ∧ ∃ rest, buf = recordBytes record (recordSize record.key.length record.val.length) ++ rest := by
  constructor
  · rintro ⟨valid, out, decoded, exactly⟩
    exact ⟨valid, out, decoded, fun record size accepted => (exactly record size).mp accepted⟩
  · rintro ⟨valid, out, decoded, sound⟩
    refine ⟨valid, out, decoded, ?_⟩
    intro record size
    refine ⟨sound record size, ?_⟩
    rintro ⟨admitted, same, rest, shape⟩
    rw [shape, to_record_of_bytes record admitted rest] at decoded
    rw [same]
    exact (Except.ok.inj decoded).symm

theorem int32_wrapped (n : Nat) (low : 2 ^ 32 ≤ n) (high : n < 2 ^ 32 + 2 ^ 31) : int32 n = ((n - 2 ^ 32 : Nat) : Int) := by
  have cut : n % 2 ^ 32 = n - 2 ^ 32 := by omega
  unfold int32
  rw [cut, if_pos (by omega)]

theorem int32_sign (n : Nat) (small : n < 2 ^ 32) : int32 n < 0 ↔ 2 ^ 31 ≤ n := by
  unfold int32
  rw [Nat.mod_eq_of_lt small]
  split <;> omega

theorem valid_body_ok (room keyLen valLen : Nat) (body : Bytes) (lengths : room = 7 + body.length) (fits : valLen < 2 ^ 32) :
    (∃ valid, isAValidBody room keyLen valLen body = .ok valid) ↔ ¬ (keyLen < 2 ^ 7 ∧ valLen < 2 ^ 31 ∧ 2 ^ 31 ≤ recordSize keyLen valLen) := by
  have sum := record_size_eq keyLen valLen
  have sign := int32_sign valLen fits
  unfold isAValidBody
  by_cases odd : 2 ^ 7 ≤ keyLen ∨ int32 valLen < 0
  · rw [if_pos odd]
    refine ⟨fun _ => ?_, fun _ => ⟨false, rfl⟩⟩
    rw [sign] at odd
    omega
  · rw [if_neg odd]
    rw [sign] at odd
    by_cases large : 2 ^ 31 ≤ recordSize keyLen valLen
    · have negative := int32_negative _ large (by omega)
      rw [if_pos (Int.le_of_lt negative)]
      constructor
      · rintro ⟨valid, wrong⟩
        cases wrong
      · intro absent
        omega
    · have exactly := int32_small (recordSize keyLen valLen) (by omega)
      rw [exactly, if_neg (by omega)]
      refine ⟨fun _ => by omega, fun _ => ?_⟩
      by_cases short : (room : Int) < (recordSize keyLen valLen : Nat)
      · rw [if_pos short]
        exact ⟨false, rfl⟩
      · rw [if_neg short]
        have left : ((body.drop (keyLen + valLen)).drop 8).length = body.length - (keyLen + valLen) - 8 := by
          rw [List.length_drop, List.length_drop]
        obtain ⟨recLen, tail, small, shape⟩ := net32_shape ((body.drop (keyLen + valLen)).drop 8) (by omega)
        rw [shape, List.length_append, net32_length] at left
        obtain ⟨stop, rest, shapeTail⟩ := List.exists_cons_of_length_pos (l := tail) (by omega)
        rw [shape, read_net32_append recLen small, shapeTail, read_byte_cons]
        exact ⟨_, rfl⟩

-- A record read from a body that is long enough for it.
theorem body_decoded (room : Nat) (flag : UInt8) (keyLen valLen : Nat) (body : Bytes) (lengths : room = 7 + body.length)
    (fits : 0 ≤ int32 (recordSize keyLen valLen) ∧ int32 (recordSize keyLen valLen) ≤ room) (roomy : keyLen ≤ keyRoom)
    (whole : recordSize keyLen valLen ≤ room) :
    ∃ key val verA verB decodeSize stop rest, key.length = keyLen ∧ val.length = valLen ∧ verA < 2 ^ 32 ∧ verB < 2 ^ 32 ∧ decodeSize < 2 ^ 32 ∧
      body = key ++ (val ++ (net32 verA ++ (net32 verB ++ (net32 decodeSize ++ stop :: rest)))) ∧
      toRecordBody room flag keyLen valLen body =
        if stop ≠ endFlag ∨ int32 decodeSize ≠ int32 (recordSize keyLen valLen) then .ok (.refused (-4))
        else .ok (.accepted ⟨flag, key, val, UInt32.ofNat verA, UInt32.ofNat verB⟩ (int32 (recordSize keyLen valLen))) := by
  have sum := record_size_eq keyLen valLen
  obtain ⟨key, val, verA, verB, decodeSize, stop, rest, keyEq, valEq, smallA, smallB, smallC, shape⟩ := body_shape keyLen valLen body (by omega)
  subst keyEq
  subst valEq
  refine ⟨key, val, verA, verB, decodeSize, stop, rest, rfl, rfl, smallA, smallB, smallC, shape, ?_⟩
  rw [shape]
  exact to_record_body_reads room flag key val verA verB decodeSize stop rest smallA smallB smallC fits roomy

theorem reads_within (room : Nat) (flag : UInt8) (keyLen valLen : Nat) (body : Bytes) (out : Decoded)
    (fits : 0 ≤ int32 (recordSize keyLen valLen) ∧ int32 (recordSize keyLen valLen) ≤ room)
    (decoded : toRecordBody room flag keyLen valLen body = .ok out) : keyLen ≤ keyRoom ∧ keyLen + valLen + 13 ≤ body.length := by
  have inside : ¬ (int32 (recordSize keyLen valLen) < 0 ∨ (room : Int) < int32 (recordSize keyLen valLen)) := by
    intro outside
    rcases outside with negative | long
    · exact absurd fits.1 (Int.not_le.mpr negative)
    · exact absurd fits.2 (Int.not_le.mpr long)
  rw [toRecordBody, if_neg inside] at decoded
  by_cases roomy : keyRoom < keyLen
  · rw [if_pos roomy] at decoded
    cases decoded
  · rw [if_neg roomy] at decoded
    obtain ⟨key, rest, keyEq, shape, decoded⟩ := read_bytes_ok _ _ _ _ decoded
    obtain ⟨verA, tailA, _, shapeA, decoded⟩ := read_net32_ok _ _ _ decoded
    obtain ⟨verB, tailB, _, shapeB, decoded⟩ := read_net32_ok _ _ _ decoded
    obtain ⟨decodeSize, tailC, _, shapeC, decoded⟩ := read_net32_ok _ _ _ decoded
    obtain ⟨stop, tailD, shapeD, _⟩ := read_byte_ok _ _ _ decoded
    have long : (rest.drop valLen).length = 13 + tailD.length := by
      rw [shapeA, shapeB, shapeC, shapeD]
      simp only [List.length_append, net32_length, List.length_cons]
      omega
    rw [List.length_drop] at long
    have total : body.length = keyLen + rest.length := by rw [shape, List.length_append, keyEq]
    exact ⟨Nat.le_of_not_lt roomy, by omega⟩

theorem tail_agrees_shape (key val : Bytes) (verA verB decodeSize : Nat) (small : decodeSize < 2 ^ 32) (stop : UInt8) (rest : Bytes) :
    TailAgrees key.length val.length (key ++ (val ++ (net32 verA ++ (net32 verB ++ (net32 decodeSize ++ stop :: rest))))) ↔
      decodeSize = recordSize key.length val.length % 2 ^ 32 ∧ stop = endFlag := by
  have parts : key ++ (val ++ (net32 verA ++ (net32 verB ++ (net32 decodeSize ++ stop :: rest)))) =
      (key ++ val ++ net32 verA ++ net32 verB) ++ ((net32 decodeSize ++ [stop]) ++ rest) := by
    simp only [List.append_assoc, List.cons_append, List.nil_append]
  have front : (key ++ val ++ net32 verA ++ net32 verB).length = key.length + val.length + 8 := by
    simp only [List.length_append, net32_length]
  have last : (net32 decodeSize ++ [stop]).length = 5 := rfl
  rw [TailAgrees, parts, ← front, List.drop_left, ← last, List.take_left]
  constructor
  · intro same
    have cut : net32 decodeSize = net32 (recordSize key.length val.length % 2 ^ 32) ∧ [stop] = [endFlag] :=
      List.append_inj same rfl
    have value := read_net32_append (R := Nat) decodeSize small [] fun n _ => .ok n
    rw [cut.1, read_net32_append _ (Nat.mod_lt _ (by decide))] at value
    exact ⟨(Except.ok.inj value).symm, by simpa using cut.2⟩
  · rintro ⟨rfl, rfl⟩
    rfl

-- When ToRecordImpl returns, and accepts nothing but encodings.
theorem to_record_sound_iff (buf : Bytes) (flag : UInt8) (keyLen valLen : Nat) (body : Bytes) (head : headOf buf = some (flag, keyLen, valLen, body)) :
    (∃ out, toRecordImpl buf = .ok out ∧ ∀ record size, out = .accepted record size →
      Admitted record ∧ size = calculateRecordSize record ∧ ∃ rest, buf = recordBytes record (recordSize record.key.length record.val.length) ++ rest) ↔
    (0 ≤ int32 (recordSize keyLen valLen) → int32 (recordSize keyLen valLen) ≤ buf.length → keyLen ≤ keyRoom) ∧
      (2 ^ 32 ≤ recordSize keyLen valLen → recordSize keyLen valLen ≤ buf.length + 2 ^ 32 →
        recordSize keyLen valLen ≤ buf.length ∧ ¬ TailAgrees keyLen valLen body) := by
  obtain ⟨shape, keySmall, valSmall⟩ := head_of_some buf flag keyLen valLen body head
  have sum := record_size_eq keyLen valLen
  have lengths : buf.length = 7 + body.length := by
    rw [shape]
    simp only [List.length_append, net32_length, List.length_cons, List.length_nil]
    omega
  rw [(to_record_head buf flag keyLen valLen body head).1]
  constructor
  · rintro ⟨out, decoded, sound⟩
    refine ⟨fun positive fits => (reads_within buf.length flag keyLen valLen body out ⟨positive, fits⟩ decoded).1, ?_⟩
    intro wrapped fits
    have size := int32_wrapped (recordSize keyLen valLen) wrapped (by omega)
    have inside : 0 ≤ int32 (recordSize keyLen valLen) ∧ int32 (recordSize keyLen valLen) ≤ buf.length := by
      rw [size]
      omega
    obtain ⟨roomy, long⟩ := reads_within buf.length flag keyLen valLen body out inside decoded
    refine ⟨by omega, ?_⟩
    intro agrees
    obtain ⟨key, val, verA, verB, decodeSize, stop, rest, rfl, rfl, _, _, smallC, bodyShape, result⟩ :=
      body_decoded buf.length flag keyLen valLen body lengths inside roomy (by omega)
    rw [bodyShape, tail_agrees_shape key val verA verB decodeSize smallC stop rest] at agrees
    have equal : int32 decodeSize = int32 (recordSize key.length val.length) := by
      rw [agrees.1]
      unfold int32
      rw [Nat.mod_mod]
    rw [result, if_neg (by simp [agrees.2, equal])] at decoded
    have admitted := (sound _ _ (Except.ok.inj decoded).symm).1.2
    simp only at admitted
    omega
  · rintro ⟨keyFits, wrap⟩
    by_cases negative : int32 (recordSize keyLen valLen) < 0 ∨ (buf.length : Int) < int32 (recordSize keyLen valLen)
    · rw [toRecordBody, if_pos negative]
      exact ⟨_, rfl, fun _ _ wrong => by cases wrong⟩
    · have inside : 0 ≤ int32 (recordSize keyLen valLen) ∧ int32 (recordSize keyLen valLen) ≤ buf.length := by
        rw [not_or, Int.not_lt, Int.not_lt] at negative
        exact negative
      have roomy := keyFits inside.1 inside.2
      by_cases wrapped : 2 ^ 32 ≤ recordSize keyLen valLen
      · have size := int32_wrapped (recordSize keyLen valLen) wrapped (by omega)
        obtain ⟨whole, differs⟩ := wrap wrapped (by rw [size] at inside; omega)
        obtain ⟨key, val, verA, verB, decodeSize, stop, rest, rfl, rfl, _, _, smallC, bodyShape, result⟩ :=
          body_decoded buf.length flag keyLen valLen body lengths inside roomy whole
        rw [bodyShape, tail_agrees_shape key val verA verB decodeSize smallC stop rest] at differs
        have refused : stop ≠ endFlag ∨ int32 decodeSize ≠ int32 (recordSize key.length val.length) := by
          by_contra both
          rw [not_or, not_not, not_not] at both
          apply differs
          refine ⟨?_, both.1⟩
          have same := both.2
          rw [size] at same
          unfold int32 at same
          rw [Nat.mod_eq_of_lt smallC] at same
          split at same <;> omega
        rw [result, if_pos refused]
        exact ⟨_, rfl, fun _ _ wrong => by cases wrong⟩
      · have bound : recordSize keyLen valLen < 2 ^ 31 := by
          by_contra large
          have below := int32_negative (recordSize keyLen valLen) (by omega) (by omega)
          exact absurd inside.1 (Int.not_le.mpr below)
        have size := int32_small (recordSize keyLen valLen) bound
        obtain ⟨key, val, verA, verB, decodeSize, stop, rest, rfl, rfl, smallA, smallB, smallC, bodyShape, result⟩ :=
          body_decoded buf.length flag keyLen valLen body lengths inside roomy (by rw [size] at inside; omega)
        by_cases refused : stop ≠ endFlag ∨ int32 decodeSize ≠ int32 (recordSize key.length val.length)
        · rw [result, if_pos refused]
          exact ⟨_, rfl, fun _ _ wrong => by cases wrong⟩
        · rw [result, if_neg refused]
          refine ⟨_, rfl, ?_⟩
          intro record size same
          obtain ⟨rfl, rfl⟩ := Decoded.accepted.inj same
          refine ⟨⟨roomy, bound⟩, rfl, rest, ?_⟩
          rw [not_or, not_not, not_not] at refused
          have exactly := (int32_same_size decodeSize _ smallC bound).mp refused.2
          rw [record_bytes_append, shape, bodyShape, UInt32.toNat_ofNat_of_lt' smallA, UInt32.toNat_ofNat_of_lt' smallB, exactly, refused.1]

theorem meets_iff_benign (buf : Bytes) :
    Meets buf ↔ ∀ flag keyLen valLen body, headOf buf = some (flag, keyLen, valLen, body) → Benign buf.length keyLen valLen body := by
  rw [meets_iff]
  cases found : headOf buf with
  | none =>
      obtain ⟨⟨code, refused⟩, valid⟩ := to_record_headless buf found
      refine ⟨fun _ _ _ _ _ wrong => (by cases wrong), fun _ => ⟨⟨false, valid⟩, .refused code, refused, fun _ _ wrong => (by cases wrong)⟩⟩
  | some parts =>
      obtain ⟨flag, keyLen, valLen, body⟩ := parts
      obtain ⟨shape, _, valSmall⟩ := head_of_some buf flag keyLen valLen body found
      have lengths : buf.length = 7 + body.length := by
        rw [shape]
        simp only [List.length_append, net32_length, List.length_cons, List.length_nil]
        omega
      have valid := valid_body_ok buf.length keyLen valLen body lengths valSmall
      rw [← (to_record_head buf flag keyLen valLen body found).2] at valid
      rw [valid, to_record_sound_iff buf flag keyLen valLen body found]
      constructor
      · rintro ⟨size, key, wrap⟩ _ _ _ _ same
        obtain ⟨rfl, rfl, rfl, rfl⟩ : _ ∧ _ ∧ _ ∧ _ := by simpa only [Option.some.injEq, Prod.mk.injEq] using same
        exact ⟨size, key, wrap⟩
      · intro benign
        obtain ⟨size, key, wrap⟩ := benign flag keyLen valLen body rfl
        exact ⟨size, key, wrap⟩

theorem to_buffer_admitted (record : Record) (admitted : Admitted record) (bufLen : Int) (fits : calculateRecordSize record ≤ bufLen) :
    toBufferImpl record (calculateRecordSize record) bufLen = .ok (recordBytes record (recordSize record.key.length record.val.length)) := by
  have size := admitted_size record admitted
  have sum := record_size_eq record.key.length record.val.length
  rw [toBufferImpl, if_pos ⟨by omega, fits, size⟩, if_pos admitted.1, size, Int.toNat_natCast]

theorem bitcask_codec_iff (record : Record) (bufLen : Int) (buf : Bytes) :
    (Admitted record → calculateRecordSize record ≤ bufLen → ∃ bytes,
      toBufferImpl record (calculateRecordSize record) bufLen = .ok bytes ∧ toRecordImpl bytes = .ok (.accepted record (calculateRecordSize record))) ∧
    (Meets buf ↔ ∀ flag keyLen valLen body, headOf buf = some (flag, keyLen, valLen, body) → Benign buf.length keyLen valLen body) := by
  refine ⟨?_, meets_iff_benign buf⟩
  intro admitted fits
  refine ⟨_, to_buffer_admitted record admitted bufLen fits, ?_⟩
  have decoded := to_record_of_bytes record admitted []
  rw [List.append_nil] at decoded
  exact decoded

-- A head that asks for 2^31 - 1 bytes, a record with a key of nine bytes, and a
-- head whose size comes to 8 in 32 bits.
def hugeHead : Bytes := [0x12, 0, 0, 0x7f, 0xff, 0xff, 0xff]

def longKey : Bytes := recordBytes ⟨0, [1, 2, 3, 4, 5, 6, 7, 8, 9], [], 0, 0⟩ 29

def wrappedHead : Bytes := [0x12, 0, 0, 0xff, 0xff, 0xff, 0xf4, 0]

theorem corrupt_buffers_fail :
    isAValidRecord hugeHead = .error .failedAssert ∧ toRecordImpl longKey = .error .writeOutside ∧
      toRecordImpl wrappedHead = .error .readOutside ∧ ¬ ∀ buf, Meets buf := by
  have huge : isAValidRecord hugeHead = .error .failedAssert := by decide +kernel
  refine ⟨huge, by decide +kernel, by decide +kernel, ?_⟩
  intro all
  obtain ⟨⟨valid, returned⟩, _⟩ := all hugeHead
  rw [huge] at returned
  cases returned

end PaxosStore.DbComm
