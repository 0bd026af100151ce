import PaxosStore.DbComm.RawRecords

set_option autoImplicit false

namespace PaxosStore.DbComm.BitCask

open PaxosStore.Codec PaxosStore.PaxosKv

-- How many of the first bytes are no start flag: each of them makes the scan step twice.
def strays (bytes : Bytes) (count : Nat) : Nat := (bytes.take count).countP fun byte => decide (startFlag ≠ byte)

theorem strays_cons (byte : UInt8) (rest : Bytes) (count : Nat) :
    strays (byte :: rest) (count + 1) = (if startFlag ≠ byte then 1 else 0) + strays rest count := by
  rw [strays, List.take_succ_cons, List.countP_cons, Nat.add_comm, strays]
  simp only [decide_eq_true_eq]

theorem strays_zero (bytes : Bytes) : strays bytes 0 = 0 := by
  rw [strays, List.take_zero, List.countP_nil]

theorem strays_le (bytes : Bytes) (count : Nat) : strays bytes count ≤ count := by
  have le := List.countP_le_length (p := fun byte => decide (startFlag ≠ byte)) (l := bytes.take count)
  rw [List.length_take] at le
  exact Nat.le_trans le (Nat.min_le_left _ _)

theorem strays_take (bytes : Bytes) (size count : Nat) (inside : count ≤ size) : strays (bytes.take size) count = strays bytes count := by
  rw [strays, strays, List.take_take, Nat.min_eq_left inside]

theorem strays_mono (bytes : Bytes) (count more : Nat) (le : count ≤ more) : strays bytes count ≤ strays bytes more :=
  (List.take_sublist_take_left le).countP_le

theorem strays_none (bytes : Bytes) (count : Nat) :
    (count ≤ bytes.length ∧ strays bytes count = 0) ↔ ∀ k < count, bytes[k]? = some startFlag := by
  induction count generalizing bytes with
  | zero => simp [strays_zero]
  | succ count ih =>
      cases bytes with
      | nil =>
          constructor
          · rintro ⟨long, -⟩
            cases long
          · intro flags
            cases flags 0 (Nat.zero_lt_succ count)
      | cons byte rest =>
          rw [strays_cons, List.length_cons]
          constructor
          · rintro ⟨long, none⟩ k within
            by_cases stray : startFlag ≠ byte
            · rw [if_pos stray] at none
              omega
            · rw [if_neg stray] at none
              rw [not_not] at stray
              cases k with
              | zero => rw [List.getElem?_cons_zero, stray]
              | succ k =>
                  rw [List.getElem?_cons_succ]
                  exact (ih rest).mp ⟨by omega, by omega⟩ k (by omega)
          · intro flags
            have first := flags 0 (Nat.zero_lt_succ count)
            rw [List.getElem?_cons_zero] at first
            obtain ⟨long, none⟩ := (ih rest).mpr fun k within => by
              have next := flags (k + 1) (by omega)
              rwa [List.getElem?_cons_succ] at next
            exact ⟨by omega, by rw [if_neg (by rw [Option.some.inj first]; exact fun wrong => wrong rfl), none]⟩

theorem placed_format (file : Bytes) (place : Nat) (read : RawRead) (placed : Placed file place read) :
    isBitCaskFormatError read.ret = true ↔ Damaged file place := by
  cases placed with
  | past behind =>
      refine ⟨fun format => (by cases format), ?_⟩
      rintro ⟨inside, -⟩
      unfold recordHeadSize at inside
      omega
  | record len whole =>
      obtain ⟨-, -, sound⟩ := record_at_inside file place len whole
      exact ⟨fun format => (by cases format), fun damaged => absurd damaged sound⟩
  | damaged read damaged format => exact ⟨fun _ => damaged, fun _ => format⟩
  | cut read sound _ _ other _ => exact ⟨fun format => (by rw [other] at format; cases format), fun damaged => absurd damaged sound⟩

-- The return value of a read that ends the scan.
def closing (read : RawRead) : RawRead :=
  if 0 = read.ret then read else { read with ret := if 1 = read.ret then BDB_READ_ERROR_UNEXPECTED_EOF else read.ret }

-- The places that the for loop tries, until one is not damaged.
theorem scan_bytes_cases (file : Bytes) (offset : Nat) (buf : Bytes) (skip : Nat) :
    (∃ idx read, idx < buf.length ∧ (∀ j < idx, Damaged file (wrap32 (offset + (skip + j + strays buf (j + 1))))) ∧
        Placed file (wrap32 (offset + (skip + idx + strays buf (idx + 1)))) read ∧ isBitCaskFormatError read.ret = false ∧
        scanBytes file offset buf (wrap32 skip) = some (.returned (closing read))) ∨
      ((∀ j < buf.length, Damaged file (wrap32 (offset + (skip + j + strays buf (j + 1))))) ∧
        scanBytes file offset buf (wrap32 skip) = some (.passed (wrap32 (skip + buf.length + strays buf buf.length)))) := by
  induction buf generalizing skip with
  | nil => exact .inr ⟨fun j within => (by cases within), by rw [scanBytes, List.length_nil, strays_zero]; rfl⟩
  | cons byte rest ih =>
      obtain ⟨step, stepEq⟩ : ∃ step, step = if startFlag ≠ byte then 1 else 0 := ⟨_, rfl⟩
      have counted : ∀ count, strays (byte :: rest) (count + 1) = step + strays rest count := by
        intro count
        rw [strays_cons, ← stepEq]
      have moved : (if startFlag ≠ byte then wrap32 (wrap32 skip + 1) else wrap32 skip) = wrap32 (skip + step) := by
        rw [stepEq]
        by_cases stray : startFlag ≠ byte
        · rw [if_pos stray, if_pos stray, wrap32_add_left]
        · rw [if_neg stray, if_neg stray, Nat.add_zero]
      obtain ⟨read, done, placed⟩ := read_a_raw_record_placed file (wrap32 (offset + (skip + step)))
      have here : skip + 0 + strays (byte :: rest) (0 + 1) = skip + step := by
        rw [counted, strays_zero, Nat.add_zero, Nat.add_zero]
      have run : scanBytes file offset (byte :: rest) (wrap32 skip) =
          if 0 = read.ret then some (.returned read)
          else if isBitCaskFormatError read.ret = false then
            some (.returned { read with ret := if 1 = read.ret then BDB_READ_ERROR_UNEXPECTED_EOF else read.ret })
          else scanBytes file offset rest (wrap32 (skip + step + 1)) := by
        rw [scanBytes, moved, wrap32_add, done]
        dsimp only [Except.toOption, Option.bind]
        rw [wrap32_add_left]
      by_cases format : isBitCaskFormatError read.ret = true
      · have damaged := (placed_format file _ read placed).mp format
        have failed : ¬ 0 = read.ret := by
          intro success
          rw [← success] at format
          cases format
        rw [if_neg failed, if_neg (by rw [format]; exact fun wrong => by cases wrong)] at run
        have later : ∀ j, skip + step + 1 + j + strays rest (j + 1) = skip + (j + 1) + strays (byte :: rest) (j + 1 + 1) := by
          intro j
          rw [counted]
          omega
        rcases ih (skip + step + 1) with ⟨idx, final, within, before, found, other, scanned⟩ | ⟨before, scanned⟩
        · refine .inl ⟨idx + 1, final, by rw [List.length_cons]; omega, ?_, by rw [← later]; exact found, other, run.trans scanned⟩
          intro j less
          cases j with
          | zero => rw [here]; exact damaged
          | succ j =>
              rw [← later]
              exact before j (by omega)
        · refine .inr ⟨?_, ?_⟩
          · intro j less
            cases j with
            | zero => rw [here]; exact damaged
            | succ j =>
                rw [← later]
                exact before j (by rw [List.length_cons] at less; omega)
          · rw [run, scanned, List.length_cons, counted]
            congr 3
            omega
      · rw [Bool.not_eq_true] at format
        refine .inl ⟨0, read, by rw [List.length_cons]; omega, fun j less => (by omega), by rw [here]; exact placed, format, ?_⟩
        rw [run, closing]
        by_cases success : 0 = read.ret
        · rw [if_pos success, if_pos success]
        · rw [if_neg success, if_neg success, if_pos format]

-- Where a pass of the outer loop begins: only damaged places with a start flag lie
-- before it, and it is a whole number of buffers away while offsets have not wrapped.
structure Passed (file : Bytes) (offset skip : Nat) : Prop where
  damaged : ∀ k < skip, Damaged file (wrap32 (offset + k))
  flags : ∀ k < skip, offset + k < 2 ^ 32 → file[offset + k]? = some startFlag
  aligned : offset + skip < 2 ^ 32 → readBufSize ∣ skip

theorem passed_more (file : Bytes) (offset skip : Nat) (first : Damaged file (wrap32 offset)) (passed : Passed file offset skip) :
    wrap32 (offset + skip) < file.length := by
  have before : ∃ k, (offset + skip = k ∨ offset + skip = k + 1) ∧ Damaged file (wrap32 k) := by
    cases skip with
    | zero => exact ⟨offset, .inl rfl, first⟩
    | succ skip => exact ⟨offset + skip, .inr rfl, passed.damaged skip (Nat.lt_succ_self skip)⟩
  obtain ⟨k, place, inside, -⟩ := before
  unfold recordHeadSize at inside
  unfold wrap32 at inside ⊢
  omega

theorem passed_next (file : Bytes) (offset skip : Nat) (passed : Passed file offset skip)
    (damaged : ∀ j < (preadFile file readBufSize (wrap32 (offset + skip))).length,
      Damaged file (wrap32 (offset + (skip + j + strays (preadFile file readBufSize (wrap32 (offset + skip))) (j + 1)))))
    (flat : strays (preadFile file readBufSize (wrap32 (offset + skip))) (preadFile file readBufSize (wrap32 (offset + skip))).length = 0) :
    Passed file offset (skip + (preadFile file readBufSize (wrap32 (offset + skip))).length) := by
  obtain ⟨buf, bufEq⟩ : ∃ buf, buf = preadFile file readBufSize (wrap32 (offset + skip)) := ⟨_, rfl⟩
  have size : buf.length = min readBufSize (file.length - wrap32 (offset + skip)) := by
    rw [bufEq, preadFile, List.length_take, List.length_drop]
  rw [← bufEq] at damaged flat ⊢
  have flags := (strays_none buf buf.length).mp ⟨Nat.le_refl _, flat⟩
  have straight : ∀ j < buf.length, strays buf (j + 1) = 0 := fun j within =>
    ((strays_none buf (j + 1)).mpr fun k less => flags k (by omega)).2
  refine ⟨fun k within => ?_, fun k within small => ?_, fun small => ?_⟩
  · by_cases old : k < skip
    · exact passed.damaged k old
    · have new := damaged (k - skip) (by omega)
      rwa [straight (k - skip) (by omega), Nat.add_zero, Nat.add_sub_cancel' (by omega)] at new
  · by_cases old : k < skip
    · exact passed.flags k old small
    · have new := flags (k - skip) (by omega)
      rw [bufEq, wrap32_small _ (by omega), preadFile, List.getElem?_take_of_lt (by omega), List.getElem?_drop] at new
      rwa [show offset + k = offset + skip + (k - skip) by omega]
  · obtain ⟨count, multiple⟩ := passed.aligned (by omega)
    rw [wrap32_small _ (by omega)] at size
    by_cases full : buf.length = readBufSize
    · exact ⟨count + 1, by rw [full, multiple, Nat.mul_add, Nat.mul_one]⟩
    · by_cases empty : buf.length = 0
      · exact ⟨count, by rw [empty, multiple, Nat.add_zero]⟩
      · obtain ⟨inside, -⟩ := damaged (buf.length - 1) (by omega)
        rw [straight _ (by omega), wrap32_small _ (by omega)] at inside
        unfold recordHeadSize at inside
        omega

-- One pread of the scan that returns a record, and one that finds none.
theorem scan_loop_returned (file : Bytes) (offset fuel skip : Nat) (read : RawRead)
    (more : ¬ 0 = (preadFile file readBufSize (wrap32 (offset + skip))).length)
    (scanned : scanBytes file offset (preadFile file readBufSize (wrap32 (offset + skip))) (wrap32 skip) = some (.returned read)) :
    scanLoop file offset (fuel + 1) (wrap32 skip) = some read := by
  simp only [scanLoop, wrap32_add, if_neg more, scanned, Option.bind_some]

theorem scan_loop_passed (file : Bytes) (offset fuel skip newSkipCnt : Nat)
    (more : ¬ 0 = (preadFile file readBufSize (wrap32 (offset + skip))).length)
    (scanned : scanBytes file offset (preadFile file readBufSize (wrap32 (offset + skip))) (wrap32 skip) = some (.passed newSkipCnt)) :
    scanLoop file offset (fuel + 1) (wrap32 skip) =
      asserting (wrap32 (skip + (preadFile file readBufSize (wrap32 (offset + skip))).length) = newSkipCnt)
        (scanLoop file offset fuel newSkipCnt) := by
  simp only [scanLoop, wrap32_add, if_neg more, scanned, Option.bind_some, wrap32_add_left]

-- One pass of the outer loop ends the scan, fails its assertion or begins the next.
theorem scan_loop_cases (file : Bytes) (offset fuel skip : Nat) (first : Damaged file (wrap32 offset)) (passed : Passed file offset skip) :
    (∃ idx read, idx < readBufSize ∧
        (∀ j < idx, Damaged file (wrap32 (offset + (skip + j + strays (file.drop (wrap32 (offset + skip))) (j + 1))))) ∧
        Placed file (wrap32 (offset + (skip + idx + strays (file.drop (wrap32 (offset + skip))) (idx + 1)))) read ∧
        isBitCaskFormatError read.ret = false ∧ scanLoop file offset (fuel + 1) (wrap32 skip) = some (closing read)) ∨
      ((∀ j < (preadFile file readBufSize (wrap32 (offset + skip))).length,
          Damaged file (wrap32 (offset + (skip + j + strays (file.drop (wrap32 (offset + skip))) (j + 1))))) ∧
        0 < strays (file.drop (wrap32 (offset + skip))) (preadFile file readBufSize (wrap32 (offset + skip))).length ∧
        scanLoop file offset (fuel + 1) (wrap32 skip) = none) ∨
      (strays (file.drop (wrap32 (offset + skip))) (preadFile file readBufSize (wrap32 (offset + skip))).length = 0 ∧
        Passed file offset (skip + (preadFile file readBufSize (wrap32 (offset + skip))).length) ∧
        scanLoop file offset (fuel + 1) (wrap32 skip) =
          scanLoop file offset fuel (wrap32 (skip + (preadFile file readBufSize (wrap32 (offset + skip))).length))) := by
  have more := passed_more file offset skip first passed
  have size : (preadFile file readBufSize (wrap32 (offset + skip))).length = min readBufSize (file.length - wrap32 (offset + skip)) := by
    rw [preadFile, List.length_take, List.length_drop]
  have same : ∀ count ≤ readBufSize, strays (preadFile file readBufSize (wrap32 (offset + skip))) count = strays (file.drop (wrap32 (offset + skip))) count :=
    fun count inside => strays_take _ _ _ inside
  have reads : ¬ 0 = (preadFile file readBufSize (wrap32 (offset + skip))).length := by
    rw [size]
    unfold readBufSize
    omega
  rcases scan_bytes_cases file offset (preadFile file readBufSize (wrap32 (offset + skip))) skip with
    ⟨idx, read, within, before, found, other, scanned⟩ | ⟨before, scanned⟩
  · refine .inl ⟨idx, read, by omega, fun j less => ?_, ?_, other, scan_loop_returned file offset fuel skip _ reads scanned⟩
    · rw [← same (j + 1) (by omega)]
      exact before j less
    · rw [← same (idx + 1) (by omega)]
      exact found
  · rw [scan_loop_passed file offset fuel skip _ reads scanned]
    have few := strays_le (preadFile file readBufSize (wrap32 (offset + skip))) (preadFile file readBufSize (wrap32 (offset + skip))).length
    have counted := same (preadFile file readBufSize (wrap32 (offset + skip))).length (by omega)
    by_cases flat : strays (file.drop (wrap32 (offset + skip))) (preadFile file readBufSize (wrap32 (offset + skip))).length = 0
    · refine .inr (.inr ⟨flat, passed_next file offset skip passed before (counted.trans flat), ?_⟩)
      rw [counted, flat, Nat.add_zero, asserting, if_pos rfl]
    · refine .inr (.inl ⟨fun j less => ?_, by omega, ?_⟩)
      · rw [← same (j + 1) (by omega)]
        exact before j less
      · rw [counted] at few ⊢
        rw [asserting, if_neg]
        unfold wrap32 readBufSize at *
        omega

theorem scan_loop_mono (file : Bytes) (offset fuel skip : Nat) (read : RawRead) (done : scanLoop file offset fuel skip = some read) :
    scanLoop file offset (fuel + 1) skip = some read := by
  induction fuel generalizing skip with
  | zero => cases done
  | succ fuel ih =>
      rw [scanLoop] at done ⊢
      by_cases empty : 0 = (preadFile file readBufSize (wrap32 (offset + skip))).length
      · rwa [if_pos empty] at done ⊢
      · rw [if_neg empty] at done ⊢
        obtain ⟨scanned, step, rest⟩ := Option.bind_eq_some_iff.mp done
        rw [step, Option.bind_some]
        cases scanned with
        | returned found => exact rest
        | passed newSkipCnt =>
            obtain ⟨holds, rest⟩ := (asserting_some _ _ _).mp rest
            dsimp only
            rw [asserting, if_pos holds]
            exact ih newSkipCnt rest

-- What the scan tries: every place behind whole buffers of start flags, and then one
-- place further with every start flag and two with every other byte, all damaged.
def Reached (file : Bytes) (offset place : Nat) : Prop :=
  ∃ skip idx, readBufSize ∣ skip ∧ idx < readBufSize ∧ (∀ k < skip, file[offset + k]? = some startFlag ∧ Damaged file (offset + k)) ∧
    (∀ j < idx, Damaged file (offset + (skip + j + strays (file.drop (offset + skip)) (j + 1)))) ∧
    place = offset + (skip + idx + strays (file.drop (offset + skip)) (idx + 1))

def First (file : Bytes) (offset place len : Nat) : Prop :=
  offset ≤ place ∧ RecordAt file place len ∧ ∀ earlier, offset ≤ earlier → earlier < place → ∀ other, ¬ RecordAt file earlier other

-- The call returns the first record at or after the offset, or the end of the file
-- when there is none.
def Finds (file : Bytes) (offset : Nat) : Prop :=
  ∃ fuel read, readARawRecordSkipError fuel file offset = some read ∧
    ((∃ place len, First file offset place len ∧
        read = { ret := 0, rawRecord := (file.drop place).take len, nextOffset := wrap32 (place + len), start := place }) ∨
      (∀ place len, offset ≤ place → ¬ RecordAt file place len) ∧ read.ret = 1)

theorem closing_found (file : Bytes) (place : Nat) (read : RawRead) (placed : Placed file place read) (other : isBitCaskFormatError read.ret = false) :
    (closing read).ret ≠ 1 ∧ ((closing read).ret = 0 → ∃ len, RecordAt file place len ∧
      closing read = { ret := 0, rawRecord := (file.drop place).take len, nextOffset := wrap32 (place + len), start := place }) := by
  cases placed with
  | past behind => exact ⟨fun wrong => (by cases wrong), fun wrong => (by cases wrong)⟩
  | record len whole => exact ⟨fun wrong => (by cases wrong), fun _ => ⟨len, whole, rfl⟩⟩
  | damaged read damaged format => rw [format] at other; cases other
  | cut read _ _ _ _ failed =>
      rw [closing, if_neg (fun same => failed.1 same.symm), if_neg (fun same => failed.2 same.symm)]
      exact ⟨failed.2, fun success => absurd success failed.1⟩

-- A scan that returns a record behind the offset has reached it.
theorem scan_loop_reached (file : Bytes) (offset : Nat) (small : offset < 2 ^ 32) (first : Damaged file offset) (fuel skip : Nat)
    (passed : Passed file offset skip) (read : RawRead) (done : scanLoop file offset fuel (wrap32 skip) = some read) :
    read.ret ≠ 1 ∧ ∀ place, read.ret = 0 → read.start = place → offset ≤ place → place < 2 ^ 32 ∧ Reached file offset place := by
  induction fuel generalizing skip with
  | zero => cases done
  | succ fuel ih =>
      rcases scan_loop_cases file offset fuel skip (by rw [wrap32_small offset small]; exact first) passed with
        ⟨idx, found, within, before, placed, other, same⟩ | ⟨-, -, same⟩ | ⟨-, next, same⟩
      · obtain rfl := Option.some.inj (same.symm.trans done)
        obtain ⟨notOver, record⟩ := closing_found file _ found placed other
        refine ⟨notOver, ?_⟩
        rintro place success rfl behind
        obtain ⟨len, whole, result⟩ := record success
        have start := congrArg RawRead.start result
        dsimp only at start
        have bounded := wrap32_lt (offset + (skip + idx + strays (file.drop (wrap32 (offset + skip))) (idx + 1)))
        have few := strays_le (file.drop (wrap32 (offset + skip))) (idx + 1)
        -- A place reached after the offsets have wrapped has been tried before.
        have straight : offset + (skip + idx + strays (file.drop (wrap32 (offset + skip))) (idx + 1)) < 2 ^ 32 := by
          by_contra wrapped
          have early : wrap32 (offset + (skip + idx + strays (file.drop (wrap32 (offset + skip))) (idx + 1))) - offset < skip := by
            rw [start] at behind
            unfold wrap32 readBufSize at *
            omega
          have damaged := passed.damaged _ early
          rw [Nat.add_sub_cancel' (by rw [← start]; exact behind), wrap32_small _ bounded] at damaged
          exact (record_at_inside file _ len whole).2.2 damaged
        have base : wrap32 (offset + skip) = offset + skip := wrap32_small _ (by omega)
        rw [base] at start before straight
        rw [start, wrap32_small _ straight]
        refine ⟨straight, skip, idx, passed.aligned (by omega), within, fun k less => ⟨passed.flags k less (by omega), ?_⟩, fun j less => ?_, rfl⟩
        · have damaged := passed.damaged k less
          rwa [wrap32_small _ (by omega)] at damaged
        · have damaged := before j less
          have fewer := strays_mono (file.drop (offset + skip)) (j + 1) (idx + 1) (by omega)
          rwa [wrap32_small _ (by omega)] at damaged
      · rw [same] at done
        cases done
      · rw [same] at done
        exact ih _ next done

-- A place that can be reached is returned when a record begins there.
theorem scan_loop_reaches (file : Bytes) (offset place len skip idx : Nat) (small : place < 2 ^ 32) (first : Damaged file offset)
    (whole : RecordAt file place len) (within : idx < readBufSize)
    (flags : ∀ k < skip, file[offset + k]? = some startFlag ∧ Damaged file (offset + k))
    (before : ∀ j < idx, Damaged file (offset + (skip + j + strays (file.drop (offset + skip)) (j + 1))))
    (lands : place = offset + (skip + idx + strays (file.drop (offset + skip)) (idx + 1))) (passes at_ : Nat)
    (ahead : at_ + readBufSize * passes = skip) (passed : Passed file offset at_) :
    ∃ fuel, scanLoop file offset fuel (wrap32 at_) =
      some { ret := 0, rawRecord := (file.drop place).take len, nextOffset := wrap32 (place + len), start := place } := by
  obtain ⟨inside, long, sound⟩ := record_at_inside file place len whole
  have begin_ : Damaged file (wrap32 offset) := by rw [wrap32_small _ (by omega)]; exact first
  have base : wrap32 (offset + at_) = offset + at_ := wrap32_small _ (by omega)
  induction passes generalizing at_ with
  | zero =>
      obtain rfl : at_ = skip := by omega
      rcases scan_loop_cases file offset 0 at_ begin_ passed with ⟨other, read, _, earlier, placed, format, done⟩ | ⟨earlier, -, -⟩ | ⟨flat, next, -⟩
      · rw [base] at earlier placed
        have same : other = idx := by
          rcases Nat.lt_trichotomy other idx with less | equal | more
          · have damaged := before other less
            have fewer := strays_mono (file.drop (offset + at_)) (other + 1) (idx + 1) (by omega)
            rw [wrap32_small _ (by omega)] at placed
            rw [(placed_format file _ read placed).mpr damaged] at format
            cases format
          · exact equal
          · have damaged := earlier idx more
            rw [← lands, wrap32_small _ small] at damaged
            exact absurd damaged sound
        rw [same, ← lands, wrap32_small _ small] at placed
        refine ⟨1, done.trans ?_⟩
        cases placed with
        | past behind => omega
        | record other again =>
            obtain ⟨flag, keyLen, valLen, body, head⟩ := record_at_head file place len whole
            obtain ⟨-, -, rfl, -⟩ := (record_at_iff file place len flag keyLen valLen body head).mp whole
            obtain ⟨-, -, rfl, -⟩ := (record_at_iff file place other flag keyLen valLen body head).mp again
            rfl
        | damaged read damaged _ => exact absurd damaged sound
        | cut read _ _ none _ _ => exact absurd whole (none len)
      · rw [base] at earlier
        have size : (preadFile file readBufSize (offset + at_)).length = min readBufSize (file.length - (offset + at_)) := by
          rw [preadFile, List.length_take, List.length_drop]
        have damaged := earlier idx (by omega)
        rw [← lands, wrap32_small _ small] at damaged
        exact absurd damaged sound
      · rw [base] at flat next
        have size : (preadFile file readBufSize (offset + at_)).length = min readBufSize (file.length - (offset + at_)) := by
          rw [preadFile, List.length_take, List.length_drop]
        have none := strays_mono (file.drop (offset + at_)) (idx + 1) (preadFile file readBufSize (offset + at_)).length (by omega)
        have damaged := next.damaged (at_ + idx) (by omega)
        rw [show offset + (at_ + idx) = place by omega, wrap32_small _ small] at damaged
        exact absurd damaged sound
  | succ passes ih =>
      rw [Nat.mul_add, Nat.mul_one] at ahead
      have size : (preadFile file readBufSize (offset + at_)).length = readBufSize := by
        rw [preadFile, List.length_take, List.length_drop]
        omega
      have flat : strays (file.drop (offset + at_)) readBufSize = 0 := by
        refine ((strays_none (file.drop (offset + at_)) readBufSize).mpr fun k less => ?_).2
        rw [List.getElem?_drop, Nat.add_assoc]
        exact (flags (at_ + k) (by omega)).1
      rcases scan_loop_cases file offset 0 at_ begin_ passed with ⟨other, read, less, -, placed, format, -⟩ | ⟨-, stray, -⟩ | ⟨-, next, -⟩
      · rw [base] at placed
        have none := strays_mono (file.drop (offset + at_)) (other + 1) readBufSize (by omega)
        rw [show offset + (at_ + other + strays (file.drop (offset + at_)) (other + 1)) = offset + (at_ + other) by omega,
          wrap32_small _ (by omega)] at placed
        rw [(placed_format file _ read placed).mpr (flags (at_ + other) (by omega)).2] at format
        cases format
      · rw [base, size, flat] at stray
        omega
      · rw [base, size] at next
        obtain ⟨fuel, done⟩ := ih (at_ + readBufSize) (by omega) next (wrap32_small _ (by omega))
        refine ⟨fuel + 1, ?_⟩
        rcases scan_loop_cases file offset fuel at_ begin_ passed with ⟨other, read, less, -, placed, format, -⟩ | ⟨-, stray, -⟩ | ⟨-, -, run⟩
        · rw [base] at placed
          have none := strays_mono (file.drop (offset + at_)) (other + 1) readBufSize (by omega)
          rw [show offset + (at_ + other + strays (file.drop (offset + at_)) (other + 1)) = offset + (at_ + other) by omega,
            wrap32_small _ (by omega)] at placed
          rw [(placed_format file _ read placed).mpr (flags (at_ + other) (by omega)).2] at format
          cases format
        · rw [base, size, flat] at stray
          omega
        · rw [run, base, size, done]

theorem first_passed (file : Bytes) (offset : Nat) : Passed file offset 0 :=
  ⟨fun k less => by omega, fun k less => by omega, fun _ => ⟨0, rfl⟩⟩

theorem skip_error_iff (file : Bytes) (offset : UInt32) :
    Finds file offset.toNat ↔
      file.length ≤ offset.toNat ∨ (∃ len, RecordAt file offset.toNat len) ∨
        Damaged file offset.toNat ∧ ∃ place len, First file offset.toNat place len ∧ place < 2 ^ 32 ∧ Reached file offset.toNat place := by
  have addressed := offset.toNat_lt
  obtain ⟨read, done, placed⟩ := read_a_raw_record_placed file offset.toNat
  have run : ∀ fuel, readARawRecordSkipError fuel file offset.toNat =
      if 0 = read.ret then some read
      else if isBitCaskFormatError read.ret = false then some read else scanLoop file offset.toNat fuel (wrap32 0) := by
    intro fuel
    rw [readARawRecordSkipError, done]
    rfl
  constructor
  · rintro ⟨fuel, result, same, right⟩
    rw [run] at same
    cases placed with
    | past behind => exact .inl behind
    | record len whole => exact .inr (.inl ⟨len, whole⟩)
    | damaged read damaged format =>
        have failed : ¬ 0 = read.ret := by
          intro success
          rw [← success] at format
          cases format
        rw [if_neg failed, if_neg (by rw [format]; exact nofun)] at same
        obtain ⟨notOver, reached⟩ := scan_loop_reached file offset.toNat addressed damaged fuel 0 (first_passed file _) result same
        rcases right with ⟨place, len, first, rfl⟩ | ⟨-, past⟩
        · obtain ⟨small, tried⟩ := reached place rfl rfl first.1
          exact .inr (.inr ⟨damaged, place, len, first, small, tried⟩)
        · exact absurd past notOver
    | cut read sound inside none other failed =>
        rw [if_neg (fun success => failed.1 success.symm), if_pos other] at same
        obtain rfl := Option.some.inj same
        rcases right with ⟨place, len, first, rfl⟩ | ⟨-, past⟩
        · exact absurd rfl failed.1
        · exact absurd past failed.2
  · rintro (behind | ⟨len, whole⟩ | ⟨damaged, place, len, first, small, skip, idx, multiple, within, flags, before, lands⟩)
    · have past : read = { ret := 1 } := by
        cases placed with
        | past _ => rfl
        | record len whole => have inside := record_at_inside file _ len whole; omega
        | damaged read damaged _ => exact absurd damaged.1 (by unfold recordHeadSize; omega)
        | cut read _ inside _ _ _ => omega
      refine ⟨0, read, by rw [run, past]; rfl, .inr ⟨?_, by rw [past]⟩⟩
      intro place len later whole
      have inside := record_at_inside file place len whole
      omega
    · have found : ∃ len, RecordAt file offset.toNat len ∧
          read = { ret := 0, rawRecord := (file.drop offset.toNat).take len, nextOffset := wrap32 (offset.toNat + len), start := offset.toNat } := by
        obtain ⟨inside, long, sound⟩ := record_at_inside file _ len whole
        cases placed with
        | past _ => omega
        | record len whole => exact ⟨len, whole, rfl⟩
        | damaged read damaged _ => exact absurd damaged sound
        | cut read _ _ none _ _ => exact absurd whole (none len)
      obtain ⟨len, whole, same⟩ := found
      refine ⟨0, read, by rw [run, same]; rfl, .inl ⟨offset.toNat, len, ⟨Nat.le_refl _, whole, fun earlier low high => ?_⟩, same⟩⟩
      omega
    · have format := (placed_format file _ read placed).mpr damaged
      have failed : ¬ 0 = read.ret := by
        intro success
        rw [← success] at format
        cases format
      obtain ⟨passes, rfl⟩ := multiple
      obtain ⟨fuel, found⟩ := scan_loop_reaches file offset.toNat place len (readBufSize * passes) idx small damaged first.2.1 within flags before
        lands passes 0 (by omega) (first_passed file _)
      refine ⟨fuel, _, ?_, .inl ⟨place, len, first, rfl⟩⟩
      rw [run, if_neg failed, if_neg (by rw [format]; exact nofun)]
      exact found

theorem skip_error_mono (file : Bytes) (offset fuel more : Nat) (read : RawRead) (done : readARawRecordSkipError fuel file offset = some read) :
    readARawRecordSkipError (fuel + more) file offset = some read := by
  obtain ⟨first, ran, rest⟩ := Option.bind_eq_some_iff.mp done
  rw [readARawRecordSkipError, ran, Option.bind_some]
  by_cases success : 0 = first.ret
  · rwa [if_pos success] at rest ⊢
  · rw [if_neg success] at rest ⊢
    by_cases other : isBitCaskFormatError first.ret = false
    · rwa [if_pos other] at rest ⊢
    · rw [if_neg other] at rest ⊢
      induction more with
      | zero => exact rest
      | succ more ih => exact scan_loop_mono file offset (fuel + more) 0 read ih

-- Two bytes of no record in front of a record.
theorem second_stray_misses : ¬ ∀ file (offset : UInt32), Finds file offset.toNat := by
  intro all
  obtain ⟨fuel, read, done, right⟩ := all ([0, 0] ++ recordBytes ⟨0, [], [], 0, 0⟩ 20) 0
  have ended : readARawRecordSkipError 1 ([0, 0] ++ recordBytes ⟨0, [], [], 0, 0⟩ 20) 0 = some { ret := BDB_READ_ERROR_POOR_READ } := by
    decide +kernel
  have same := (skip_error_mono _ _ fuel 1 read done).symm.trans (Nat.add_comm 1 fuel ▸ skip_error_mono _ _ 1 fuel _ ended)
  obtain rfl := Option.some.inj same
  rcases right with ⟨place, len, -, wrong⟩ | ⟨-, wrong⟩
  · exact absurd (congrArg RawRead.ret wrong) (by dsimp only [BDB_READ_ERROR_POOR_READ]; omega)
  · exact absurd wrong (by decide)

end PaxosStore.DbComm.BitCask
