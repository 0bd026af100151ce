import PaxosStore.MemKv.MemComm
import PaxosStore.PaxosKv.DbRuns

set_option autoImplicit false

namespace PaxosStore.MemKv

open PaxosStore.PaxosKv
open PaxosStore.Consensus

-- A record of the key in one of the files.
structure FileRecord where
  fileNo : Int
  offset : Nat
  log : PaxosLog
deriving DecidableEq

structure HardWrite where
  info : NewBasic
  log : PaxosLog
deriving DecidableEq

-- A record that the merge has copied from memory to a merge file. What was
-- copied is not kept by the source.
structure HitRecord where
  oldFileNo : Int
  fileNo : Int
  offset : Nat
  copied : PaxosLog
deriving DecidableEq

-- One key: its record in memory, its records in the files, the Writes that are
-- in a file but not yet in memory, the merge's hit for the key, the info
-- UpdateShmHash is about to write back, and the last Write that has completed.
structure MergeState where
  record : Option Head := none
  files : List FileRecord := []
  writing : List HardWrite := []
  hit : Option HitRecord := none
  updating : Option NewBasic := none
  last : Option HardWrite := none
deriving DecidableEq

inductive MergeStep where
  | add (header : PaxosLogHeader) (log : PaxosLog) (fileNo : Int) (offset : Nat)
  | set (write : HardWrite) (code : Int)
  | visit (vecFile : List Int) (fileNo : Int) (offset : Nat)
  | get
  | update
  | giveUp
deriving DecidableEq

def toInfo (header : PaxosLogHeader) : NewBasic :=
  { maxIndex := header.maxIndex, chosenIndex := header.chosenIndex, reqid := header.reqid
    version := header.version % 2 ^ 32, pending := header.maxIndex ≠ header.chosenIndex }

namespace MergeState

variable (codec : DataCodec) (byteSize dumpLen : PaxosLog → Nat)

-- The first half of clsHardMemKv::Write: the record goes to the write file. DBImpl
-- writes no log with the index 0.
def add (s : MergeState) (header : PaxosLogHeader) (log : PaxosLog) (fileNo : Int) (offset : Nat) : Option MergeState :=
  if log.any (·.1 = 0) then none
  else
    asserting (0 < fileNo) <|
      some { s with
        files := s.files ++ [⟨fileNo, offset, log⟩]
        writing := s.writing ++ [⟨{ toInfo header with fileNo := fileNo, offset := offset }, log⟩] }

-- The second half: the record goes to memory, unless there is an error.
def set (s : MergeState) (write : HardWrite) (code : Int) : Option MergeState :=
  if write ∉ s.writing then none
  else
    asserting (checkConsistency codec write.info write.log) <|
      if code ≠ 0 then some { s with writing := s.writing.erase write }
      else
        some { s with
          record := some (setRecord byteSize dumpLen write.info write.log s.record)
          writing := s.writing.erase write
          last := some write }

-- The merge looks at one key and copies it if it is in one of the files to merge.
def visit (s : MergeState) (vecFile : List Int) (fileNo : Int) (offset : Nat) : Option MergeState :=
  if s.hit.isSome ∨ 0 ≤ fileNo then none
  else
    match s.record with
    | none => some s
    | some head =>
        (head.getBasicInfo codec).map fun _ =>
          if head.info.fileNo ∈ vecFile then
            { s with
              files := s.files ++ [⟨fileNo, offset, head.log⟩]
              hit := some ⟨head.info.fileNo, fileNo, offset, head.log⟩ }
          else s

-- UpdateShmHash up to the comparison of the file numbers.
def get (s : MergeState) : Option MergeState :=
  if s.updating.isSome then none
  else
    s.hit.bind fun hit =>
      (match s.record with
        | none => some ({} : NewBasic)
        | some head => head.getBasicInfo codec).map fun (info : NewBasic) =>
        if hit.oldFileNo ≠ info.fileNo then { s with hit := none }
        else { s with updating := some { info with fileNo := hit.fileNo, offset := hit.offset } }

-- The rest of UpdateShmHash.
def update (s : MergeState) : Option MergeState :=
  s.updating.map fun info =>
    { s with record := s.record.map (·.setBasicInfo info), hit := none, updating := none }

def act (s : MergeState) : MergeStep → Option MergeState
  | .add header log fileNo offset => s.add header log fileNo offset
  | .set write code => s.set codec byteSize dumpLen write code
  | .visit vecFile fileNo offset => s.visit codec vecFile fileNo offset
  | .get => s.get codec
  | .update => s.update
  | .giveUp => some { s with hit := none, updating := none }

-- What two infos of one Write have in common.
structure SameWrite (left right : NewBasic) : Prop where
  maxIndex : left.maxIndex = right.maxIndex
  chosenIndex : left.chosenIndex = right.chosenIndex
  reqid : left.reqid = right.reqid
  version : left.version = right.version
  pending : left.pending = right.pending

-- A file with this number holds this log.
def Holds (s : MergeState) (fileNo : Int) (log : PaxosLog) : Prop := ∃ stored, stored ∈ s.files ∧ stored.fileNo = fileNo ∧ stored.log = log

-- The record in memory is that of the last completed Write, with the number of
-- a file that has a copy of it.
def KeepsLast (s : MergeState) : Prop :=
  match s.last with
  | none => s.record = none
  | some write => ∃ head info, s.record = some head ∧ head.log = write.log ∧ head.getBasicInfo codec = some info ∧
      SameWrite info write.info ∧ s.Holds info.fileNo write.log

-- No Write reaches memory between the two halves of UpdateShmHash, nor between
-- the copy and UpdateShmHash with the file number of what was copied.
def careful (s : MergeState) : MergeStep → Bool
  | .set write code => code ≠ 0 || s.updating.isNone && s.hit.all (·.oldFileNo ≠ write.info.fileNo)
  | _ => true

def carefulAct (s : MergeState) (step : MergeStep) : Option MergeState :=
  if s.careful step then s.act codec byteSize dumpLen step else none

-- What a lite head can tell of the chosen instance of a log that passed CheckConsistency.
theorem chosen_info_found (info : NewBasic) (log : PaxosLog) (positive : ∀ index pins, (index, pins) ∈ log → index ≠ 0)
    (small : info.version < 2 ^ 32) (checked : checkConsistency codec info log = true) :
    ∃ found, Head.chosenInfo codec log = some found ∧ found.maxIndex = getChosenIndex log ∧ found.chosenIndex = getChosenIndex log ∧
      found.reqid = getChosenReqid log ∧ found.version = info.version ∧ found.pending = false := by
  simp only [checkConsistency, Bool.and_eq_true] at checked
  have version := checked.2
  unfold Head.chosenInfo getChosenIndex getChosenReqid
  cases chosen : getChosenIns log with
  | none =>
      rw [chosen] at version
      exact ⟨{}, rfl, rfl, rfl, rfl, (of_decide_eq_true version).symm, rfl⟩
  | some entry =>
      obtain ⟨index, pins⟩ := entry
      have member := (chosen_ins_member log index pins chosen).1
      rw [chosen] at version
      dsimp only at version
      rw [if_neg (positive index pins member), Bool.and_eq_true] at version
      obtain ⟨valued, parsed⟩ := version
      dsimp only
      cases known : codec.parseFromString (entryData pins) with
      | none =>
          rw [known] at parsed
          cases parsed
      | some data =>
          rw [known] at parsed
          have same : data.version = info.version := of_decide_eq_true parsed
          refine ⟨_, asserting_pos _ _ valued, rfl, rfl, rfl, ?_, rfl⟩
          dsimp only
          rw [same, Nat.mod_eq_of_lt small]

theorem consistent_info (info : NewBasic) (head : Head) (positive : ∀ index pins, (index, pins) ∈ head.log → index ≠ 0)
    (small : info.version < 2 ^ 32) (checked : checkConsistency codec info head.log = true) (lite : head.lite = true) :
    ∃ found, head.getBasicInfo codec = some found ∧ SameWrite found info ∧ found.fileNo = head.info.fileNo := by
  obtain ⟨base, known, first, second, third, fourth, fifth⟩ := chosen_info_found codec info head.log positive small checked
  simp only [checkConsistency, Bool.and_eq_true, decide_eq_true_eq] at checked
  obtain ⟨⟨⟨⟨⟨max, chosen⟩, reqid⟩, pending⟩, order⟩, _⟩ := checked
  have ordered : getChosenIndex head.log ≤ getMaxIndex head.log := by
    rw [← max, ← chosen]
    split at order
    · exact Nat.le_of_lt (of_decide_eq_true order)
    · exact Nat.le_of_eq (of_decide_eq_true order)
  unfold Head.getBasicInfo
  rw [lite, if_neg (by simp), known, Option.bind_some]
  rw [getMaxIndex] at max ordered
  rw [hasPendingIns] at pending
  unfold getMaxIns at pending ⊢
  cases last : head.log.getLast? with
  | none =>
      rw [last] at max ordered pending
      have zero : getChosenIndex head.log = 0 := Nat.le_zero.mp ordered
      refine ⟨{ base with fileNo := head.info.fileNo }, asserting_pos _ _ ?_, ⟨?_, ?_, ?_, fourth, ?_⟩, rfl⟩
      · dsimp only
        rw [first, second]
      · dsimp only
        rw [first, zero, max]
        rfl
      · dsimp only
        rw [second, chosen]
      · dsimp only
        rw [third, reqid]
      · dsimp only
        rw [fifth, pending]
        rfl
  | some entry =>
      rw [last] at max ordered pending
      refine ⟨{ base with fileNo := head.info.fileNo, maxIndex := entry.1, pending := !entry.2.chosen }, asserting_pos _ _ ?_,
        ⟨?_, ?_, ?_, fourth, ?_⟩, rfl⟩
      · dsimp only
        rw [second]
        exact ordered
      · exact max.symm
      · dsimp only
        rw [second, chosen]
      · dsimp only
        rw [third, reqid]
      · exact pending.symm

-- A Write puts a log with its own info in memory.
theorem set_record_spec (write : HardWrite) (record : Option Head) (positive : ∀ index pins, (index, pins) ∈ write.log → index ≠ 0)
    (small : write.info.version < 2 ^ 32) (checked : checkConsistency codec write.info write.log = true) :
    (setRecord byteSize dumpLen write.info write.log record).log = write.log ∧
    (setRecord byteSize dumpLen write.info write.log record).info.fileNo = write.info.fileNo ∧
    ∃ info, (setRecord byteSize dumpLen write.info write.log record).getBasicInfo codec = some info ∧ SameWrite info write.info ∧
      info.fileNo = write.info.fileNo := by
  have appended : ∃ info, (appendDumpRecord dumpLen write.info write.log).getBasicInfo codec = some info ∧ SameWrite info write.info ∧
      info.fileNo = write.info.fileNo :=
    consistent_info codec write.info (appendDumpRecord dumpLen write.info write.log) positive small checked rfl
  cases record with
  | none => exact ⟨rfl, rfl, appended⟩
  | some head =>
      unfold setRecord
      dsimp only
      split
      · cases lite : head.lite with
        | true =>
            have kept : (head.setBasicInfo write.info).info.fileNo = write.info.fileNo := by simp [Head.setBasicInfo, lite]
            refine ⟨rfl, kept, ?_⟩
            obtain ⟨info, found, same, number⟩ := consistent_info codec write.info { head.setBasicInfo write.info with log := write.log }
              positive small checked (by simp [Head.setBasicInfo, lite])
            exact ⟨info, found, same, number.trans kept⟩
        | false =>
            refine ⟨rfl, by simp [Head.setBasicInfo, lite], write.info, by simp [Head.getBasicInfo, Head.setBasicInfo, lite], ?_, rfl⟩
            exact ⟨rfl, rfl, rfl, rfl, rfl⟩
      · exact ⟨rfl, rfl, appended⟩

-- Writing back what was read, with another place, changes the place only.
theorem write_back (head : Head) (info : NewBasic) (fileNo : Int) (offset : Nat) (read : head.getBasicInfo codec = some info) :
    ∃ found, (head.setBasicInfo { info with fileNo := fileNo, offset := offset }).getBasicInfo codec = some found ∧
      SameWrite found info ∧ found.fileNo = fileNo := by
  cases lite : head.lite with
  | false =>
      simp only [Head.getBasicInfo, lite, Bool.not_false, if_true, Option.some.injEq] at read
      refine ⟨{ info with fileNo := fileNo, offset := offset }, by simp [Head.getBasicInfo, Head.setBasicInfo, lite], ?_, rfl⟩
      exact ⟨rfl, rfl, rfl, rfl, rfl⟩
  | true =>
      have still : (head.setBasicInfo { info with fileNo := fileNo, offset := offset }) = { head with info := { head.info with fileNo := fileNo } } := by
        simp [Head.setBasicInfo, lite]
      rw [still]
      unfold Head.getBasicInfo at read ⊢
      rw [lite] at read ⊢
      rw [if_neg (by simp)] at read ⊢
      obtain ⟨base, known, rest⟩ := Option.bind_eq_some_iff.mp read
      rw [known, Option.bind_some]
      dsimp only at rest ⊢
      obtain ⟨ordered, same⟩ := (asserting_some _ _ _).mp rest
      cases last : getMaxIns head.log with
      | none =>
          rw [last] at same ordered
          cases same
          exact ⟨_, asserting_pos _ _ ordered, ⟨rfl, rfl, rfl, rfl, rfl⟩, rfl⟩
      | some entry =>
          rw [last] at same ordered
          cases same
          exact ⟨_, asserting_pos _ _ ordered, ⟨rfl, rfl, rfl, rfl, rfl⟩, rfl⟩

-- Getting the info of a head gives its file number.
theorem read_number (head : Head) (info : NewBasic) (read : head.getBasicInfo codec = some info) : info.fileNo = head.info.fileNo := by
  unfold Head.getBasicInfo at read
  split at read
  · cases read
    rfl
  · obtain ⟨base, _, rest⟩ := Option.bind_eq_some_iff.mp read
    obtain ⟨_, same⟩ := (asserting_some _ _ _).mp rest
    cases last : getMaxIns head.log with
    | none =>
        rw [last] at same
        cases same
        rfl
    | some entry =>
        rw [last] at same
        cases same
        rfl

-- What holds of the key between any two steps of a careful run.
structure Merging (s : MergeState) : Prop where
  writes : ∀ write, write ∈ s.writing → s.Holds write.info.fileNo write.log ∧ (∀ index pins, (index, pins) ∈ write.log → index ≠ 0) ∧
    write.info.version < 2 ^ 32
  keeps : KeepsLast codec s
  copied : ∀ hit, s.hit = some hit → s.Holds hit.fileNo hit.copied ∧ s.record.isSome = true ∧
    ∀ head, s.record = some head → head.info.fileNo = hit.oldFileNo → head.log = hit.copied
  reads : ∀ info, s.updating = some info → ∃ hit head old, s.hit = some hit ∧ s.record = some head ∧
    head.getBasicInfo codec = some old ∧ old.fileNo = hit.oldFileNo ∧ info = { old with fileNo := hit.fileNo, offset := hit.offset }

theorem holds_append (s : MergeState) (stored : FileRecord) (fileNo : Int) (log : PaxosLog) (held : s.Holds fileNo log) :
    ({ s with files := s.files ++ [stored] } : MergeState).Holds fileNo log := by
  obtain ⟨old, member, number, same⟩ := held
  exact ⟨old, List.mem_append_left _ member, number, same⟩

-- New records in the files do not hurt.
theorem keeps_append (s : MergeState) (stored : FileRecord) (keeps : KeepsLast codec s) :
    KeepsLast codec { s with files := s.files ++ [stored] } := by
  unfold KeepsLast at keeps ⊢
  dsimp only
  cases last : s.last with
  | none =>
      rw [last] at keeps
      exact keeps
  | some write =>
      rw [last] at keeps
      obtain ⟨head, info, held, log, read, same, copy⟩ := keeps
      exact ⟨head, info, held, log, read, same, holds_append s stored _ _ copy⟩

section Steps

variable (s : MergeState) (inv : Merging codec s)

include inv

theorem add_merging (header : PaxosLogHeader) (log : PaxosLog) (fileNo : Int) (offset : Nat) (next : MergeState)
    (done : s.add header log fileNo offset = some next) : Merging codec next := by
  unfold add at done
  split at done
  · cases done
  · rename_i named
    obtain ⟨_, same⟩ := (asserting_some _ _ _).mp done
    cases same
    refine ⟨fun write member => ?_, keeps_append codec s _ inv.keeps, fun hit known => ?_, inv.reads⟩
    · rcases List.mem_append.mp member with old | new
      · obtain ⟨held, rest⟩ := inv.writes write old
        exact ⟨holds_append s _ _ _ held, rest⟩
      · cases List.mem_singleton.mp new
        refine ⟨⟨_, List.mem_append_right _ (List.mem_singleton.mpr rfl), rfl, rfl⟩, fun index pins here zero => ?_, ?_⟩
        · exact named (List.any_eq_true.mpr ⟨(index, pins), here, by simpa using zero⟩)
        · exact Nat.mod_lt _ (by decide)
    · obtain ⟨held, rest⟩ := inv.copied hit known
      exact ⟨holds_append s _ _ _ held, rest⟩

theorem set_merging (write : HardWrite) (code : Int) (next : MergeState) (allowed : s.careful (.set write code) = true)
    (done : s.set codec byteSize dumpLen write code = some next) : Merging codec next := by
  unfold set at done
  split at done
  · cases done
  · rename_i known
    obtain ⟨checked, rest⟩ := (asserting_some _ _ _).mp done
    have present : write ∈ s.writing := by simpa using known
    have older : ∀ other, other ∈ s.writing.erase write → other ∈ s.writing := fun other member => List.mem_of_mem_erase member
    split at rest
    · cases rest
      exact ⟨fun other member => inv.writes other (older other member), inv.keeps, inv.copied, inv.reads⟩
    · rename_i fine
      cases rest
      have zero : code = 0 := by simpa using fine
      simp only [careful, zero, ne_eq, not_true, decide_false, Bool.false_or, Bool.and_eq_true, Option.isNone_iff_eq_none] at allowed
      obtain ⟨idle, apart⟩ := allowed
      obtain ⟨held, positive, small⟩ := inv.writes write present
      obtain ⟨log, number, info, read, same, place⟩ := set_record_spec codec byteSize dumpLen write s.record positive small checked
      refine ⟨fun other member => inv.writes other (older other member), ⟨_, info, rfl, log, read, same, ?_⟩, fun hit seen => ?_,
        fun wrong busy => ?_⟩
      · rw [place]
        exact held
      · refine ⟨(inv.copied hit seen).1, rfl, fun head now equal => ?_⟩
        cases now
        rw [number] at equal
        rw [seen] at apart
        exact absurd equal.symm (of_decide_eq_true apart)
      · dsimp only at busy
        rw [idle] at busy
        cases busy

theorem visit_merging (vecFile : List Int) (fileNo : Int) (offset : Nat) (next : MergeState)
    (done : s.visit codec vecFile fileNo offset = some next) : Merging codec next := by
  unfold visit at done
  split at done
  · cases done
  · rename_i free
    have none_ : s.hit = none := by
      cases seen : s.hit with
      | none => rfl
      | some hit => exact absurd (.inl (by rw [seen]; rfl)) free
    split at done
    · cases done
      exact inv
    · rename_i head present
      obtain ⟨_, _, same⟩ := Option.map_eq_some_iff.mp done
      split at same
      · cases same
        refine ⟨fun write member => ?_, keeps_append codec s _ inv.keeps, fun hit seen => ?_, fun info busy => ?_⟩
        · obtain ⟨held, rest⟩ := inv.writes write member
          exact ⟨holds_append s _ _ _ held, rest⟩
        · cases seen
          refine ⟨⟨_, List.mem_append_right _ (List.mem_singleton.mpr rfl), rfl, rfl⟩, by rw [present]; rfl, fun other now _ => ?_⟩
          dsimp only at now
          rw [present] at now
          cases now
          rfl
        · obtain ⟨hit, _, _, seen, _⟩ := inv.reads info busy
          rw [none_] at seen
          cases seen
      · cases same
        exact inv

theorem get_merging (next : MergeState) (done : s.get codec = some next) : Merging codec next := by
  unfold get at done
  split at done
  · cases done
  · rename_i idle
    have free : s.updating = none := by simpa using idle
    obtain ⟨hit, seen, rest⟩ := Option.bind_eq_some_iff.mp done
    obtain ⟨info, read, same⟩ := Option.map_eq_some_iff.mp rest
    split at same
    · cases same
      refine ⟨inv.writes, inv.keeps, fun _ wrong => (by cases wrong), fun _ busy => ?_⟩
      dsimp only at busy
      rw [free] at busy
      cases busy
    · rename_i equal
      cases same
      refine ⟨inv.writes, inv.keeps, inv.copied, fun found known => ?_⟩
      cases known
      have number : info.fileNo = hit.oldFileNo := by
        by_contra other
        exact equal fun wrong => other wrong.symm
      cases present : s.record with
      | none =>
          have wrong := (inv.copied hit seen).2.1
          rw [present] at wrong
          cases wrong
      | some head =>
          rw [present] at read
          exact ⟨hit, head, info, seen, rfl, read, number, rfl⟩

theorem update_merging (next : MergeState) (done : s.update = some next) : Merging codec next := by
  obtain ⟨info, busy, same⟩ := Option.map_eq_some_iff.mp done
  cases same
  obtain ⟨hit, head, old, seen, present, read, number, equal⟩ := inv.reads info busy
  obtain ⟨copy, _, same⟩ := inv.copied hit seen
  have log : head.log = hit.copied := same head present (by rw [← read_number codec head old read]; exact number)
  subst equal
  obtain ⟨found, again, agrees, place⟩ := write_back codec head old hit.fileNo hit.offset read
  have still : (head.setBasicInfo { old with fileNo := hit.fileNo, offset := hit.offset }).log = head.log := by
    unfold Head.setBasicInfo
    split <;> rfl
  refine ⟨inv.writes, ?_, fun _ wrong => (by cases wrong), fun _ wrong => by cases wrong⟩
  have keeps := inv.keeps
  unfold KeepsLast at keeps ⊢
  dsimp only
  rw [present]
  cases last : s.last with
  | none =>
      rw [last, present] at keeps
      cases keeps
  | some write =>
      rw [last, present] at keeps
      obtain ⟨other, known, equal, stored, asked, sameWrite, _⟩ := keeps
      cases equal
      rw [read] at asked
      cases asked
      refine ⟨_, found, rfl, still.trans stored, again, ?_, ?_⟩
      · exact ⟨agrees.maxIndex.trans sameWrite.maxIndex, agrees.chosenIndex.trans sameWrite.chosenIndex, agrees.reqid.trans sameWrite.reqid,
          agrees.version.trans sameWrite.version, agrees.pending.trans sameWrite.pending⟩
      · rw [place, ← stored, log]
        exact copy

end Steps

theorem careful_merging (s next : MergeState) (step : MergeStep) (inv : Merging codec s)
    (done : s.carefulAct codec byteSize dumpLen step = some next) : Merging codec next := by
  unfold carefulAct at done
  split at done
  · rename_i allowed
    cases step with
    | add header log fileNo offset => exact add_merging codec s inv header log fileNo offset next done
    | set write code => exact set_merging codec byteSize dumpLen s inv write code next allowed done
    | visit vecFile fileNo offset => exact visit_merging codec s inv vecFile fileNo offset next done
    | get => exact get_merging codec s inv next done
    | update => exact update_merging codec s inv next done
    | giveUp =>
        cases done
        exact ⟨inv.writes, inv.keeps, fun _ wrong => (by cases wrong), fun _ wrong => by cases wrong⟩
  · cases done

theorem merging_start : Merging codec {} :=
  ⟨fun _ wrong => (by cases wrong), rfl, fun _ wrong => (by cases wrong), fun _ wrong => by cases wrong⟩

-- As long as no Write slips between the steps of the merge, the record in memory
-- is that of the last completed Write and its file number leads to a copy of it.
theorem merge_keeps_writes (s : MergeState) (run : Reaches (carefulAct codec byteSize dumpLen) {} s) : KeepsLast codec s :=
  (run_invariant (carefulAct codec byteSize dumpLen) (Merging codec) (fun u step v inv done => careful_merging codec byteSize dumpLen u v step inv done)
    {} s (merging_start codec) run).keeps

-- A promise and then a larger one, for the first index of a key.
def oldLog : PaxosLog := [(1, { promisedNum := some 65537 })]

def newLog : PaxosLog := [(1, { promisedNum := some 131074 })]

def oldWrite : HardWrite := ⟨{ toInfo { maxIndex := 1 } with fileNo := 1 }, oldLog⟩

def newWrite : HardWrite := ⟨{ toInfo { maxIndex := 1 } with fileNo := 2 }, newLog⟩

-- The second Write reaches memory between the halves of UpdateShmHash.
def overtakenRun : List MergeStep :=
  [.add { maxIndex := 1 } oldLog 1 0, .set oldWrite 0, .visit [1] (-1) 0, .add { maxIndex := 1 } newLog 2 0, .get, .set newWrite 0, .update]

def overtaken : MergeState := endOf (act DBImpl.wireCodec List.length List.length) {} overtakenRun

theorem merge_overtaken : ¬ ∀ codec byteSize dumpLen s, Reaches (act codec byteSize dumpLen) {} s → KeepsLast codec s := by
  intro always
  have keeps := always DBImpl.wireCodec List.length List.length overtaken (reaches_end _ _ _ (by decide +kernel))
  have last : overtaken.last = some newWrite := by decide +kernel
  have moved : overtaken.record.map (·.info.fileNo) = some (-1) := by decide +kernel
  have older : ∀ stored, stored ∈ overtaken.files → stored.fileNo = -1 → stored.log ≠ newLog := by decide +kernel
  unfold KeepsLast at keeps
  rw [last] at keeps
  obtain ⟨head, info, held, _, read, _, stored, member, number, same⟩ := keeps
  rw [held, Option.map_some, Option.some.injEq] at moved
  rw [read_number _ head info read, moved] at number
  exact older stored member number same

-- The same steps with the second Write after UpdateShmHash.
def inTurn : MergeState :=
  endOf (carefulAct DBImpl.wireCodec List.length List.length) {}
    [.add { maxIndex := 1 } oldLog 1 0, .set oldWrite 0, .visit [1] (-1) 0, .add { maxIndex := 1 } newLog 2 0, .get, .update, .set newWrite 0]

theorem in_turn_keeps : KeepsLast DBImpl.wireCodec inTurn :=
  merge_keeps_writes DBImpl.wireCodec List.length List.length inTurn (reaches_end _ _ _ (by decide +kernel))

end MergeState

end PaxosStore.MemKv
