import PaxosStore.DbComm.LogReads

set_option autoImplicit false

namespace PaxosStore.DbComm

open PaxosStore.Codec
open PaxosStore.PaxosKv

-- A record of a file, and whether it stands at the head of a block.
structure HeadedRecord where
  head : Bool
  record : LogRecord
deriving DecidableEq, Repr

-- How much of the block that `rest` begins in is left, where `rest` goes on to the end of a block.
def blockRoom (blockSize : Nat) (rest : Bytes) : Nat := if rest.length % blockSize = 0 then blockSize else rest.length % blockSize

-- The records of such bytes one after the other.
def recordsWithin (crc : Crc32c) (blockSize : Nat) : Nat → Bytes → List HeadedRecord
  | _, [] => []
  | 0, _ :: _ => []
  | fuel + 1, byte :: rest =>
      let (record, size) := pickleLevelDBRecord crc ((byte :: rest).take (blockRoom blockSize (byte :: rest))) true
      ⟨(byte :: rest).length % blockSize = 0, record⟩ :: recordsWithin crc blockSize fuel ((byte :: rest).drop size)

def recordsOf (crc : Crc32c) (blockSize : Nat) (rest : Bytes) : List HeadedRecord := recordsWithin crc blockSize rest.length rest

-- What the next value comes to, taken off the records; `entered` is whether a value was
-- held when the block was entered.
inductive TakenOff where
  | failed (code : Int)
  | eof
  | found (value : Bytes) (rest : List HeadedRecord)
deriving DecidableEq, Repr

def takeValue (startSeq : Nat) : Bool → Bytes → List HeadedRecord → Option TakenOff
  | _, value, [] => some (if value = [] then .eof else .failed LogError.unexpectedEof)
  | entered, value, ⟨head, record⟩ :: rest =>
      let entered := if head then decide (value ≠ []) else entered
      (checkLevelDBRecord startSeq record head entered).bind fun
      | .error code => some (.failed code)
      | .ok complete =>
          asserting (record.kind.carriesData = true → record.value ≠ []) <|
            let value := if record.kind.carriesData then value ++ record.value else value
            if complete then some (.found value rest) else takeValue startSeq entered value rest

theorem pickle_size_pos (crc : Crc32c) (byte : UInt8) (rest : Bytes) (checkCrc : Bool) :
    0 < (pickleLevelDBRecord crc (byte :: rest) checkCrc).2 := by
  unfold pickleLevelDBRecord
  split
  · dsimp only
    split
    · exact Nat.succ_pos _
    · split
      · exact Nat.succ_pos _
      · split
        · exact Nat.succ_pos _
        · rw [headerSize]
          omega
  · exact Nat.succ_pos _

section Records

variable (crc : Crc32c) {blockSize : Nat} (positive : 0 < blockSize)

include positive

theorem room_positive (rest : Bytes) : 0 < blockRoom blockSize rest := by
  rw [blockRoom]
  split
  · exact positive
  · omega

-- What is left after a record is shorter.
theorem record_consumes (byte : UInt8) (rest : Bytes) :
    0 < (pickleLevelDBRecord crc ((byte :: rest).take (blockRoom blockSize (byte :: rest))) true).2 := by
  obtain ⟨room, count⟩ := Nat.exists_eq_succ_of_ne_zero (Nat.pos_iff_ne_zero.mp (room_positive positive (byte :: rest)))
  rw [count, List.take_succ_cons]
  exact pickle_size_pos crc byte _ true

-- The fuel is nothing but a bound.
theorem records_within (fuel other : Nat) (rest : Bytes) (enough : rest.length ≤ fuel) (plenty : rest.length ≤ other) :
    recordsWithin crc blockSize fuel rest = recordsWithin crc blockSize other rest := by
  induction fuel generalizing other rest with
  | zero =>
    have empty := List.eq_nil_of_length_eq_zero (Nat.le_zero.mp enough)
    subst empty
    cases other <;> rfl
  | succ fuel ih =>
    cases rest with
    | nil => cases other <;> rfl
    | cons byte rest =>
      cases other with
      | zero => exact absurd plenty (Nat.not_succ_le_zero _)
      | succ other =>
        rw [List.length_cons] at enough plenty
        have consumed := record_consumes crc positive byte rest
        rw [recordsWithin, recordsWithin]
        generalize pickleLevelDBRecord crc ((byte :: rest).take (blockRoom blockSize (byte :: rest))) true = read at consumed ⊢
        obtain ⟨record, size⟩ := read
        dsimp only at consumed ⊢
        have shorter : ((byte :: rest).drop size).length ≤ rest.length := by
          rw [List.length_drop, List.length_cons]
          omega
        rw [ih other _ (by omega) (by omega)]

theorem records_cons (byte : UInt8) (rest : Bytes) (record : LogRecord) (size : Nat)
    (read : pickleLevelDBRecord crc ((byte :: rest).take (blockRoom blockSize (byte :: rest))) true = (record, size)) :
    recordsOf crc blockSize (byte :: rest) =
      ⟨(byte :: rest).length % blockSize = 0, record⟩ :: recordsOf crc blockSize ((byte :: rest).drop size) := by
  have consumed := record_consumes crc positive byte rest
  rw [read] at consumed
  have shorter : ((byte :: rest).drop size).length ≤ rest.length := by
    dsimp only at consumed
    rw [List.length_drop, List.length_cons]
    omega
  have unfolded : recordsOf crc blockSize (byte :: rest) =
      ⟨(byte :: rest).length % blockSize = 0, record⟩ :: recordsWithin crc blockSize rest.length ((byte :: rest).drop size) := by
    rw [recordsOf, List.length_cons, recordsWithin, read]
    rfl
  rw [unfolded, records_within crc positive rest.length ((byte :: rest).drop size).length _ shorter (Nat.le_refl _)]
  rfl

theorem records_headed (rest : Bytes) (whole : rest.length % blockSize = 0) (first : HeadedRecord) (later : List HeadedRecord)
    (split : recordsOf crc blockSize rest = first :: later) : first.head = true := by
  cases rest with
  | nil => cases split
  | cons byte rest =>
    rw [records_cons crc positive byte rest _ _ rfl] at split
    injection split with same
    rw [← same]
    exact decide_eq_true whole

omit positive in
-- The room and the head of a block that begins in `buf`, with whole blocks behind it.
theorem room_of_block (buf more : Bytes) (filled : buf ≠ []) (short : buf.length ≤ blockSize) (whole : more.length % blockSize = 0) :
    blockRoom blockSize (buf ++ more) = buf.length ∧ ((buf ++ more).length % blockSize = 0 ↔ buf.length = blockSize) := by
  have some_ := List.length_pos_iff.mpr filled
  have rem : (buf ++ more).length % blockSize = buf.length % blockSize := by
    rw [List.length_append, Nat.add_mod, whole, Nat.add_zero, Nat.mod_mod]
  rw [blockRoom, rem]
  rcases Nat.lt_or_eq_of_le short with less | full
  · rw [Nat.mod_eq_of_lt less, if_neg (by omega)]
    exact ⟨rfl, by omega, by omega⟩
  · rw [full, Nat.mod_self, if_pos rfl]
    exact ⟨rfl, fun _ => rfl, fun _ => rfl⟩

theorem records_of_block (buf more : Bytes) (byte : UInt8) (rest : Bytes) (shape : buf = byte :: rest) (short : buf.length ≤ blockSize)
    (whole : more.length % blockSize = 0) (record : LogRecord) (size : Nat) (read : pickleLevelDBRecord crc buf true = (record, size)) :
    recordsOf crc blockSize (buf ++ more) = ⟨buf.length = blockSize, record⟩ :: recordsOf crc blockSize (buf.drop size ++ more) := by
  obtain ⟨room, head⟩ := room_of_block buf more (by rw [shape]; exact List.cons_ne_nil _ _) short whole
  have bound : size ≤ buf.length := by
    have le := pickle_size_le crc buf true
    rw [read] at le
    exact le
  have cut : (buf ++ more).take (blockRoom blockSize (buf ++ more)) = buf := by rw [room, List.take_left]
  rw [← List.drop_append_of_le_length bound]
  subst shape
  rw [List.cons_append] at cut head ⊢
  rw [records_cons crc positive byte (rest ++ more) record size (by rw [cut]; exact read)]
  congr 2
  exact decide_eq_decide.mpr head

end Records

-- A record that completes a value carries data.
theorem complete_carries (startSeq : Nat) (record : LogRecord) (head partialValue : Bool)
    (checked : checkLevelDBRecord startSeq record head partialValue = some (.ok true)) : record.kind.carriesData = true := by
  rw [checkLevelDBRecord] at checked
  split at checked
  · cases checked
  · split at checked
    · cases checked
    · split at checked
      · rename_i kind
        rw [kind]
        rfl
      · cases checked
      · cases checked
      · cases checked
      · rename_i kind
        rw [kind]
        rfl
      · rename_i kind
        rw [kind]
        rfl
      · split at checked
        · cases checked
        · obtain ⟨seq, -, checked⟩ := Option.bind_eq_some_iff.mp checked
          obtain ⟨-, checked⟩ := (asserting_some _ _ _).mp checked
          split at checked <;> cases checked
      · cases checked
      · cases checked

section Picking

variable {crc : Crc32c} {blockSize : Nat} (startSeq : Nat)

theorem pickle_records_step (partialValue : Bool) (fuel : Nat) (buf value : Bytes) (used : Nat) (fake : Bool) (filled : buf ≠ [])
    (record : LogRecord) (size : Nat) (read : pickleLevelDBRecord crc buf true = (record, size)) :
    pickleRecords crc startSeq blockSize partialValue (fuel + 1) buf value used fake =
      (checkLevelDBRecord startSeq record (buf.length = blockSize) partialValue).bind fun
      | .error code => some (.failed code)
      | .ok complete =>
          asserting (record.kind.carriesData = true → record.value ≠ []) <|
            let value := if record.kind.carriesData then value ++ record.value else value
            if complete then asserting (value ≠ []) <| some (.complete value (used + size))
            else
              pickleRecords crc startSeq blockSize partialValue fuel (buf.drop size) value (used + size)
                (size = buf.length ∧ record.kind = .fake) := by
  cases buf with
  | nil => exact absurd rfl filled
  | cons byte rest =>
    rw [pickleRecords, read] <;> rfl

-- The loop over the records of a block takes them off one by one.
theorem pickle_records_take (positive : 0 < blockSize) (partialValue : Bool) (fuel : Nat) (buf value more : Bytes) (used : Nat) (fake : Bool)
    (enough : buf.length ≤ fuel) (short : buf.length ≤ blockSize) (whole : more.length % blockSize = 0)
    (entered : buf.length = blockSize → partialValue = decide (value ≠ [])) :
    takeValue startSeq partialValue value (recordsOf crc blockSize (buf ++ more)) =
      (pickleRecords crc startSeq blockSize partialValue fuel buf value used fake).bind fun
      | .failed code => some (.failed code)
      | .complete found ends => some (.found found (recordsOf crc blockSize (buf.drop (ends - used) ++ more)))
      | .more left _ => takeValue startSeq partialValue left (recordsOf crc blockSize more) := by
  induction fuel generalizing buf value used fake with
  | zero =>
    have empty := List.eq_nil_of_length_eq_zero (Nat.le_zero.mp enough)
    subst empty
    rfl
  | succ fuel ih =>
    cases shape : buf with
    | nil => rfl
    | cons byte rest =>
      have consumed := pickle_size_pos crc byte rest true
      have bound := pickle_size_le crc (byte :: rest) true
      rw [← shape] at consumed bound
      obtain ⟨record, size, read⟩ : ∃ record size, pickleLevelDBRecord crc buf true = (record, size) := ⟨_, _, rfl⟩
      rw [read] at consumed bound
      dsimp only at consumed bound
      have filled : buf ≠ [] := by
        rw [shape]
        exact List.cons_ne_nil _ _
      have headed : (if decide (buf.length = blockSize) = true then decide (value ≠ []) else partialValue) = partialValue := by
        by_cases full : buf.length = blockSize
        · rw [if_pos (decide_eq_true full), entered full]
        · rw [if_neg (by rw [decide_eq_true_iff]; exact full)]
      rw [← shape, records_of_block crc positive buf more byte rest shape short whole record size read, takeValue,
        pickle_records_step startSeq partialValue fuel buf value used fake filled record size read]
      dsimp only
      rw [headed]
      cases checked : checkLevelDBRecord startSeq record (decide (buf.length = blockSize)) partialValue with
      | none => rfl
      | some outcome =>
        cases outcome with
        | error code => rfl
        | ok complete =>
          rw [Option.bind_some, Option.bind_some]
          dsimp only
          by_cases data : record.kind.carriesData = true → record.value ≠ []
          · rw [asserting_pos _ _ data, asserting_pos _ _ data]
            cases complete with
            | true =>
              have carries := complete_carries startSeq record _ _ checked
              have held : (if record.kind.carriesData = true then value ++ record.value else value) ≠ [] := by
                rw [if_pos carries]
                exact List.append_ne_nil_of_right_ne_nil _ (data carries)
              rw [if_pos rfl, if_pos rfl, asserting_pos _ _ held, Option.bind_some]
              dsimp only
              rw [Nat.add_sub_cancel_left]
            | false =>
              rw [if_neg Bool.false_ne_true, if_neg Bool.false_ne_true]
              have dropped : (buf.drop size).length < buf.length := by
                rw [List.length_drop]
                omega
              rw [ih (buf.drop size) _ (used + size) (decide (size = buf.length ∧ record.kind = .fake)) (by omega) (by omega)
                (fun full => absurd full (by omega))]
              cases ran : pickleRecords crc startSeq blockSize partialValue fuel (buf.drop size)
                  (if record.kind.carriesData = true then value ++ record.value else value) (used + size)
                  (decide (size = buf.length ∧ record.kind = .fake)) with
              | none => rfl
              | some picked =>
                cases picked with
                | failed code => rfl
                | more left tailingFake => rfl
                | complete found ends =>
                  have beyond := (pickle_records_used crc startSeq blockSize _ _ _ _ _ _ _ _ ran).1
                  rw [Option.bind_some, Option.bind_some]
                  dsimp only
                  rw [List.drop_drop, show size + (ends - (used + size)) = ends - used by omega]
          · rw [asserting, if_neg data, asserting, if_neg data]
            rfl

-- A record that carries data is longer than its data.
theorem pickle_value_size (buf : Bytes) (checkCrc : Bool) :
    (pickleLevelDBRecord crc buf checkCrc).1.value.length ≤ (pickleLevelDBRecord crc buf checkCrc).2 ∧
      ((pickleLevelDBRecord crc buf checkCrc).1.kind.carriesData = true →
        (pickleLevelDBRecord crc buf checkCrc).1.value.length + headerSize ≤ (pickleLevelDBRecord crc buf checkCrc).2) := by
  unfold pickleLevelDBRecord
  split
  · dsimp only
    split
    · rename_i skipped
      refine ⟨Nat.zero_le _, fun carries => ?_⟩
      rcases skipped with zero | fake
      · rw [zero] at carries
        cases carries
      · rw [fake] at carries
        cases carries
    · split
      · exact ⟨Nat.zero_le _, nofun⟩
      · split
        · exact ⟨Nat.zero_le _, nofun⟩
        · dsimp only
          rw [List.length_take]
          omega
  · exact ⟨Nat.zero_le _, nofun⟩

-- A value is shorter than the records it was put together from.
def Picked.Short (value buf : Bytes) (used : Nat) : Picked → Prop
  | .failed _ => True
  | .complete found ends => found.length + headerSize + used ≤ value.length + ends
  | .more left _ => left.length ≤ value.length + buf.length

theorem pickle_records_value (partialValue : Bool) (fuel : Nat) (buf value : Bytes) (used : Nat) (fake : Bool) (picked : Picked)
    (ran : pickleRecords crc startSeq blockSize partialValue fuel buf value used fake = some picked) :
    picked.Short value buf used := by
  induction fuel generalizing buf value used fake with
  | zero =>
    cases buf with
    | nil =>
      cases ran
      exact Nat.le_add_right _ _
    | cons byte rest => cases ran
  | succ fuel ih =>
    cases shape : buf with
    | nil =>
      subst shape
      cases ran
      exact Nat.le_add_right _ _
    | cons byte rest =>
      rw [← shape]
      have sized := @pickle_value_size crc buf true
      have bound := pickle_size_le crc buf true
      obtain ⟨record, size, read⟩ : ∃ record size, pickleLevelDBRecord crc buf true = (record, size) := ⟨_, _, rfl⟩
      rw [read] at sized bound
      dsimp only at sized bound
      rw [pickle_records_step startSeq partialValue fuel buf value used fake (by rw [shape]; exact List.cons_ne_nil _ _) record size read] at ran
      obtain ⟨outcome, checked, ran⟩ := Option.bind_eq_some_iff.mp ran
      cases outcome with
      | error code =>
        cases ran
        trivial
      | ok complete =>
        obtain ⟨-, ran⟩ := (asserting_some _ _ _).mp ran
        have longer : (if record.kind.carriesData = true then value ++ record.value else value).length ≤ value.length + size := by
          split
          · rw [List.length_append]
            omega
          · omega
        cases complete with
        | true =>
          dsimp only at ran
          rw [if_pos rfl] at ran
          obtain ⟨-, ran⟩ := (asserting_some _ _ _).mp ran
          cases ran
          have carries := complete_carries startSeq record _ _ checked
          have apart := sized.2 carries
          rw [Picked.Short, if_pos carries, List.length_append]
          omega
        | false =>
          dsimp only at ran
          rw [if_neg Bool.false_ne_true] at ran
          have later := ih _ _ _ _ ran
          cases picked with
          | failed code => trivial
          | complete found ends =>
            rw [Picked.Short] at later ⊢
            omega
          | more left tailingFake =>
            rw [Picked.Short, List.length_drop] at later
            rw [Picked.Short]
            omega

end Picking

-- Where a value is held matters at the head of a block only.
theorem take_value_entered (startSeq : Nat) (one other : Bool) (value : Bytes) (records : List HeadedRecord)
    (headed : ∀ first rest, records = first :: rest → first.head = true) :
    takeValue startSeq one value records = takeValue startSeq other value records := by
  cases records with
  | nil => rfl
  | cons first rest =>
    obtain ⟨head, record⟩ := first
    have at_head : head = true := headed _ _ rfl
    subst at_head
    rfl

-- What reading value after value comes to: the end, an error, or a failed assertion.
inductive Walk where
  | ended
  | refused
  | tripped
deriving DecidableEq, Repr

-- The records one after the other; `held` is whether part of a value has been read.
def walk (startSeq : Nat) : Bool → Bool → List HeadedRecord → Walk
  | _, held, [] => if held then .refused else .ended
  | entered, held, ⟨head, record⟩ :: rest =>
      let entered := if head then held else entered
      match checkLevelDBRecord startSeq record head entered with
      | none => .tripped
      | some (.error code) => if code = LogError.deprecateBlk then .ended else .refused
      | some (.ok complete) =>
          if record.kind.carriesData = true ∧ record.value = [] then .tripped
          else if complete then walk startSeq false false rest
          else walk startSeq entered (held || record.kind.carriesData) rest

theorem walk_take (startSeq : Nat) (entered : Bool) (value : Bytes) (records : List HeadedRecord) :
    walk startSeq entered (decide (value ≠ [])) records =
      match takeValue startSeq entered value records with
      | none => .tripped
      | some (.failed code) => if code = LogError.deprecateBlk then .ended else .refused
      | some .eof => .ended
      | some (.found _ rest) => walk startSeq false false rest := by
  induction records generalizing entered value with
  | nil =>
    by_cases empty : value = []
    · subst empty
      rfl
    · rw [walk, takeValue, if_pos (decide_eq_true empty), if_neg empty]
      rfl
  | cons first rest ih =>
    obtain ⟨head, record⟩ := first
    rw [walk, takeValue]
    dsimp only
    cases checked : checkLevelDBRecord startSeq record head (if head = true then decide (value ≠ []) else entered) with
    | none => rfl
    | some outcome =>
      cases outcome with
      | error code => rfl
      | ok complete =>
        rw [Option.bind_some]
        dsimp only
        by_cases hollow : record.kind.carriesData = true ∧ record.value = []
        · rw [if_pos hollow, asserting, if_neg (fun solid => solid hollow.1 hollow.2)]
        · have solid : record.kind.carriesData = true → record.value ≠ [] := fun carries empty => hollow ⟨carries, empty⟩
          rw [if_neg hollow, asserting_pos _ _ solid]
          cases complete with
          | true => rfl
          | false =>
            rw [if_neg Bool.false_ne_true, if_neg Bool.false_ne_true, ← ih]
            congr 1
            by_cases carries : record.kind.carriesData = true
            · rw [if_pos carries, carries, Bool.or_true]
              exact (decide_eq_true (List.append_ne_nil_of_right_ne_nil _ (solid carries))).symm
            · rw [if_neg carries, Bool.eq_false_iff.mpr carries, Bool.or_false]

end PaxosStore.DbComm
