import PaxosStore.MemKv.Restart

set_option autoImplicit false

namespace PaxosStore.MemKv

open PaxosStore.PaxosKv
open PaxosStore.Consensus

variable {S : Type}

-- A file number and records of that file.
abbrev FilePart := Int × List (Nat × RawRecord)

def partItems (part : FilePart) : List Item := part.2.map fun (offset, record) => ⟨part.1, offset, record⟩

-- The loop over the write files from the last to the first, with iRawRecordCnt and
-- lstRawRecord.
def gatherRecent (maxReloadRecordCnt : Nat) : Nat → List FilePart → List DataFile → Option (Nat × List FilePart)
  | rawRecordCnt, lstRawRecord, [] => some (rawRecordCnt, lstRawRecord)
  | rawRecordCnt, lstRawRecord, file :: older =>
      asserting (rawRecordCnt < maxReloadRecordCnt) <|
        asserting (file.fileNo ≠ 0) <|
          if file.records = [] then gatherRecent maxReloadRecordCnt rawRecordCnt lstRawRecord older
          else if file.records.length + rawRecordCnt ≤ maxReloadRecordCnt then
            asserting (rawRecordCnt + file.records.length ≤ maxReloadRecordCnt) <|
              gatherRecent maxReloadRecordCnt (rawRecordCnt + file.records.length) (lstRawRecord ++ [(file.fileNo, file.records)]) older
          else
            let begin_ := file.records.length - (maxReloadRecordCnt - rawRecordCnt)
            let newRawRecord := file.records.drop begin_
            asserting (file.records.length + rawRecordCnt > maxReloadRecordCnt) <|
              asserting (0 < begin_ ∧ begin_ < file.records.length) <|
                asserting (newRawRecord.length + rawRecordCnt = maxReloadRecordCnt) <|
                  some (rawRecordCnt + newRawRecord.length, lstRawRecord ++ [(file.fileNo, newRawRecord)])

-- DoReloadRecord, where `feed` is what is done with one record. A record that cannot be
-- taken fails an assertion, at once or at the end.
def doReloadRecord (feed : S → Item → Option S) (part : FilePart) (s : S) : Option S := (partItems part).foldlM feed s

def replayParts (feed : S → Item → Option S) : List FilePart → S → Option S
  | [], s => some s
  | part :: later, s =>
      asserting (0 ≠ part.1) <| asserting (part.2 ≠ []) <| (doReloadRecord feed part s).bind fun next => replayParts feed later next

def DataPath.loadMostRecent (path : DataPath) (feed : S → Item → Option S) (maxReloadRecordCnt : Nat) (s : S) : Option S :=
  asserting (0 < maxReloadRecordCnt) <|
    if path.writeFiles = [] then some s
    else
      asserting (∀ file ∈ path.writeFiles, 0 < file.fileNo) <|
        (gatherRecent maxReloadRecordCnt 0 [] path.newestFirst).bind fun (rawRecordCnt, lstRawRecord) =>
          asserting (rawRecordCnt ≤ maxReloadRecordCnt) (replayParts feed lstRawRecord.reverse s)

-- The records of the write files, from the oldest to the newest.
def DataPath.written (path : DataPath) : List Item := path.newestFirst.reverse.flatMap (·.items)

def DataPath.lastWritten (path : DataPath) (count : Nat) : List Item := path.written.drop (path.written.length - count)

theorem items_length (file : DataFile) : file.items.length = file.records.length := by
  rw [DataFile.items, List.length_map]

theorem gather_recent_last (maxReloadRecordCnt rawRecordCnt : Nat) (lstRawRecord : List FilePart) (files : List DataFile)
    (named : ∀ file ∈ files, file.fileNo ≠ 0) (most : rawRecordCnt ≤ maxReloadRecordCnt)
    (never : NeverExact maxReloadRecordCnt rawRecordCnt files) :
    ∃ total parts, gatherRecent maxReloadRecordCnt rawRecordCnt lstRawRecord files = some (total, lstRawRecord ++ parts) ∧
      total ≤ maxReloadRecordCnt ∧ (∀ part ∈ parts, part.1 ≠ 0 ∧ part.2 ≠ []) ∧
      parts.reverse.flatMap partItems = (files.reverse.flatMap (·.items)).drop
        ((files.reverse.flatMap (·.items)).length - (maxReloadRecordCnt - rawRecordCnt)) := by
  induction files generalizing rawRecordCnt lstRawRecord with
  | nil => exact ⟨rawRecordCnt, [], by rw [gatherRecent, List.append_nil], most, nofun, by simp⟩
  | cons file older ih =>
      have rest := never_exact_tail maxReloadRecordCnt rawRecordCnt file older never
      have less : rawRecordCnt < maxReloadRecordCnt := by
        have other := never [] (file :: older) rfl (List.cons_ne_nil _ _)
        rw [List.map_nil, List.sum_nil] at other
        omega
      have name := named file List.mem_cons_self
      have others : ∀ file ∈ older, file.fileNo ≠ 0 := fun other member => named other (List.mem_cons_of_mem _ member)
      have whole : (file :: older).reverse.flatMap (·.items) = older.reverse.flatMap (·.items) ++ file.items := by
        rw [List.reverse_cons, List.flatMap_append, List.flatMap_singleton]
      have size := items_length file
      rw [gatherRecent, asserting_pos _ _ less, asserting_pos _ _ name, whole, List.length_append]
      by_cases empty : file.records = []
      · rw [if_pos empty]
        rw [empty, List.length_nil] at rest size
        obtain ⟨total, parts, found, bounded, named, same⟩ := ih rawRecordCnt lstRawRecord others most rest
        refine ⟨total, parts, found, bounded, named, ?_⟩
        rw [same, List.eq_nil_of_length_eq_zero size, List.append_nil, List.length_nil, Nat.add_zero]
      · rw [if_neg empty]
        by_cases fits : file.records.length + rawRecordCnt ≤ maxReloadRecordCnt
        · rw [if_pos fits, asserting_pos _ _ (by omega)]
          obtain ⟨total, parts, found, bounded, named, same⟩ :=
            ih (rawRecordCnt + file.records.length) (lstRawRecord ++ [(file.fileNo, file.records)]) others (by omega) rest
          refine ⟨total, (file.fileNo, file.records) :: parts, by rw [found, List.append_assoc]; rfl, bounded, ?_, ?_⟩
          · intro part member
            rcases List.mem_cons.mp member with rfl | later
            · exact ⟨name, empty⟩
            · exact named part later
          · rw [List.reverse_cons, List.flatMap_append, List.flatMap_singleton, same, List.drop_append_of_le_length (by omega)]
            congr 2
            omega
        · rw [if_neg fits]
          dsimp only
          have kept : (file.records.drop (file.records.length - (maxReloadRecordCnt - rawRecordCnt))).length = maxReloadRecordCnt - rawRecordCnt := by
            rw [List.length_drop]
            omega
          rw [asserting_pos _ _ (by omega), asserting_pos _ _ (by omega), asserting_pos _ _ (by omega)]
          refine ⟨_, [(file.fileNo, file.records.drop (file.records.length - (maxReloadRecordCnt - rawRecordCnt)))], rfl, by omega, ?_, ?_⟩
          · intro part member
            rw [List.mem_singleton.mp member]
            exact ⟨name, List.ne_nil_of_length_pos (by dsimp only; omega)⟩
          · have start : (older.reverse.flatMap (·.items)).length + file.items.length - (maxReloadRecordCnt - rawRecordCnt) =
                (older.reverse.flatMap (·.items)).length + (file.records.length - (maxReloadRecordCnt - rawRecordCnt)) := by omega
            rw [List.reverse_singleton, List.flatMap_singleton, partItems, List.map_drop, start, List.drop_length_add_append]
            rfl

theorem gather_recent_never (maxReloadRecordCnt rawRecordCnt : Nat) (lstRawRecord : List FilePart) (files : List DataFile)
    (gathers : (gatherRecent maxReloadRecordCnt rawRecordCnt lstRawRecord files).isSome = true) :
    NeverExact maxReloadRecordCnt rawRecordCnt files := by
  induction files generalizing rawRecordCnt lstRawRecord with
  | nil =>
      intro front back split left
      exact absurd (List.append_eq_nil_iff.mp split.symm).2 left
  | cons file older ih =>
      rw [gatherRecent] at gathers
      obtain ⟨done, gathers⟩ := Option.isSome_iff_exists.mp gathers
      obtain ⟨less, gathers⟩ := (asserting_some _ _ _).mp gathers
      obtain ⟨-, gathers⟩ := (asserting_some _ _ _).mp gathers
      intro front back split left
      cases front with
      | nil =>
          rw [List.map_nil, List.sum_nil]
          omega
      | cons first front =>
          obtain ⟨rfl, rfl⟩ := List.cons.inj split
          rw [List.map_cons, List.sum_cons]
          by_cases empty : file.records = []
          · rw [if_pos empty] at gathers
            rw [empty, List.length_nil, Nat.zero_add]
            exact ih rawRecordCnt lstRawRecord (by rw [gathers]; rfl) front back rfl left
          · rw [if_neg empty] at gathers
            by_cases fits : file.records.length + rawRecordCnt ≤ maxReloadRecordCnt
            · rw [if_pos fits] at gathers
              obtain ⟨-, gathers⟩ := (asserting_some _ _ _).mp gathers
              have later := ih _ _ (by rw [gathers]; rfl) front back rfl left
              omega
            · omega

theorem replay_parts_feed (feed : S → Item → Option S) (parts : List FilePart) (s : S) (named : ∀ part ∈ parts, part.1 ≠ 0 ∧ part.2 ≠ []) :
    replayParts feed parts s = (parts.flatMap partItems).foldlM feed s := by
  induction parts generalizing s with
  | nil => rfl
  | cons part later ih =>
      obtain ⟨name, filled⟩ := named part List.mem_cons_self
      rw [replayParts, asserting_pos _ _ name.symm, asserting_pos _ _ filled, List.flatMap_cons, List.foldlM_append]
      exact congrArg _ (funext fun next => ih next fun other member => named other (List.mem_cons_of_mem _ member))

theorem newest_first_member (path : DataPath) (file : DataFile) : file ∈ path.newestFirst ↔ file ∈ path.writeFiles := List.mem_mergeSort

-- Whatever the loader is: it is fed the last records of the write files from the
-- oldest to the newest, and nothing but the loader itself stops the reload.
def DataPath.Reloads (path : DataPath) (maxReloadRecordCnt : Nat) : Prop :=
  ∀ (S : Type) (feed : S → Item → Option S) (s : S),
    path.loadMostRecent feed maxReloadRecordCnt s = (path.lastWritten (min path.written.length maxReloadRecordCnt)).foldlM feed s

theorem reloads_iff (path : DataPath) (maxReloadRecordCnt : Nat) :
    path.Reloads maxReloadRecordCnt ↔ 0 < maxReloadRecordCnt ∧ NeverExact maxReloadRecordCnt 0 path.newestFirst := by
  constructor
  · intro reloads
    -- A loader that takes every record.
    have done := reloads Unit (fun _ _ => some ()) ()
    have taken : ∀ items : List Item, items.foldlM (fun _ _ => some ()) () = some () := by
      intro items
      induction items with
      | nil => rfl
      | cons item later ih => exact ih
    rw [taken] at done
    obtain ⟨positive, done⟩ := (asserting_some _ _ _).mp done
    refine ⟨positive, ?_⟩
    by_cases none : path.writeFiles = []
    · intro front back split left
      have empty : path.newestFirst = [] := by rw [DataPath.newestFirst, none, List.mergeSort_nil]
      rw [empty] at split
      exact absurd (List.append_eq_nil_iff.mp split.symm).2 left
    · rw [if_neg none] at done
      obtain ⟨-, done⟩ := (asserting_some _ _ _).mp done
      obtain ⟨gathered, found, -⟩ := Option.bind_eq_some_iff.mp done
      exact gather_recent_never maxReloadRecordCnt 0 [] path.newestFirst (by rw [found]; rfl)
  · rintro ⟨positive, never⟩ S feed s
    have last : path.lastWritten (min path.written.length maxReloadRecordCnt) = path.lastWritten maxReloadRecordCnt := by
      rw [DataPath.lastWritten, DataPath.lastWritten]
      congr 1
      omega
    rw [last, DataPath.loadMostRecent, asserting_pos _ _ positive]
    by_cases none : path.writeFiles = []
    · have empty : path.newestFirst = [] := by rw [DataPath.newestFirst, none, List.mergeSort_nil]
      rw [if_pos none, DataPath.lastWritten, DataPath.written, empty, List.reverse_nil, List.flatMap_nil, List.drop_nil]
      rfl
    · rw [if_neg none, asserting_pos _ _ path.positive]
      have named : ∀ file ∈ path.newestFirst, file.fileNo ≠ 0 := fun file member =>
        Int.ne_of_gt (path.positive file ((newest_first_member path file).mp member))
      obtain ⟨total, parts, found, bounded, filled, same⟩ :=
        gather_recent_last maxReloadRecordCnt 0 [] path.newestFirst named (Nat.zero_le _) never
      rw [found, Option.bind_some]
      dsimp only
      rw [asserting_pos _ _ bounded, List.nil_append,
        replay_parts_feed feed parts.reverse s fun part member => filled part (List.mem_reverse.mp member), same]
      rfl

-- The reload of the model of the restart is this one, with the loader that sets the
-- record in memkv.
theorem load_most_recent_reloads (codec : DataCodec) (packing : LogPacking) (alloc : Allocator) (path : DataPath)
    (maxReloadRecordCnt : Nat) (s : MemStore) (positive : 0 < maxReloadRecordCnt) (never : NeverExact maxReloadRecordCnt 0 path.newestFirst) :
    loadMostRecentWriteFile codec packing alloc path maxReloadRecordCnt s = path.loadMostRecent (reloadRecord codec packing alloc) maxReloadRecordCnt s := by
  obtain ⟨items, found, same⟩ := recent_records_last maxReloadRecordCnt 0 path.newestFirst (Nat.zero_le _) never
  have order : path.newestFirst.flatMap (·.readOneFile) = path.written.reverse := by
    rw [DataPath.written, List.reverse_flatMap, List.reverse_reverse]
    rfl
  have last : items = path.lastWritten (min path.written.length maxReloadRecordCnt) := by
    rw [order, Nat.sub_zero, List.take_reverse] at same
    rw [List.reverse_inj.mp same, DataPath.lastWritten]
    congr 1
    omega
  rw [loadMostRecentWriteFile, found, Option.bind_some, last]
  exact ((reloads_iff path maxReloadRecordCnt).mpr ⟨positive, never⟩ MemStore (reloadRecord codec packing alloc) s).symm

-- The newer of two files has as many records as are asked for.
def exactFile : DataPath where
  writeFiles := [⟨2, [(0, ⟨7, 0, 0, 0, []⟩)], List.pairwise_singleton _ _⟩, ⟨1, [], List.Pairwise.nil⟩]
  mergeFiles := []
  positive := by simp
  negative := no_merge_files
  writeNames := by decide
  mergeNames := no_merge_names

theorem exact_file_stops : ¬ ∀ (path : DataPath) (maxReloadRecordCnt : Nat), 0 < maxReloadRecordCnt → path.Reloads maxReloadRecordCnt := by
  intro all
  have never := ((reloads_iff exactFile 1).mp (all exactFile 1 (by decide))).2
  have sorted : exactFile.newestFirst = exactFile.writeFiles := List.mergeSort_of_pairwise (by simp [exactFile])
  rw [sorted] at never
  exact never [_] [_] rfl (List.cons_ne_nil _ _) rfl

end PaxosStore.MemKv
