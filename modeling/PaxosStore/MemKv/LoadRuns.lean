import PaxosStore.MemKv.MemLoader
import PaxosStore.PaxosKv.DbRuns

set_option autoImplicit false

namespace PaxosStore.MemKv

open PaxosStore.PaxosKv
open PaxosStore.Consensus

-- Merge files come before write files, files of one kind by their names, and
-- records of one file by their offsets.
def Item.Before (left right : Item) : Prop :=
  left.fileNo < 0 ∧ 0 < right.fileNo ∨
  left.fileNo < 0 ∧ right.fileNo < left.fileNo ∨
  0 < left.fileNo ∧ left.fileNo < right.fileNo ∨
  left.fileNo = right.fileNo ∧ left.offset < right.offset

namespace DataFile

theorem item_file (file : DataFile) (item : Item) (here : item ∈ file.items) : item.fileNo = file.fileNo := by
  obtain ⟨_, _, rfl⟩ := List.mem_map.mp here
  rfl

theorem read_member (file : DataFile) (item : Item) : item ∈ file.readOneFile ↔ item ∈ file.items := List.mem_reverse

theorem read_pairwise (file : DataFile) : file.readOneFile.Pairwise fun first second => second.Before first := by
  rw [readOneFile, List.pairwise_reverse, items, List.pairwise_map]
  have ascending := file.ascending
  rw [List.pairwise_map] at ascending
  exact ascending.imp fun less => .inr (.inr (.inr ⟨rfl, less⟩))

end DataFile

-- Files with different numbers stay apart when they are sorted.
theorem sorted_apart (files : List DataFile) (le : Int → Int → Bool) (trans : ∀ a b c, le a b = true → le b c = true → le a c = true)
    (total : ∀ a b, (le a b || le b a) = true) (names : (files.map (·.fileNo)).Nodup) :
    (files.mergeSort fun left right => le left.fileNo right.fileNo).Pairwise fun left right =>
      le left.fileNo right.fileNo = true ∧ left.fileNo ≠ right.fileNo := by
  have sorted := @List.pairwise_mergeSort DataFile (fun left right => le left.fileNo right.fileNo)
    (fun a b c => trans a.fileNo b.fileNo c.fileNo) (fun a b => total a.fileNo b.fileNo) files
  have perm := List.mergeSort_perm files fun left right => le left.fileNo right.fileNo
  have apart := (perm.map (·.fileNo)).nodup_iff.mpr names
  rw [List.Nodup, List.pairwise_map] at apart
  exact sorted.and apart

namespace DataPath

variable (path : DataPath)

theorem write_member (item : Item) : item ∈ path.readAllWriteFiles ↔ ∃ file ∈ path.writeFiles, item ∈ file.items := by
  simp only [readAllWriteFiles, List.mem_flatMap, List.mem_mergeSort, DataFile.read_member]

theorem merge_member (item : Item) : item ∈ path.readAllMergeFiles ↔ ∃ file ∈ path.mergeFiles, item ∈ file.items := by
  simp only [readAllMergeFiles, List.mem_flatMap, List.mem_mergeSort, DataFile.read_member]

theorem read_all_member (item : Item) : item ∈ path.readAllDiskFile ↔ item ∈ path.items := by
  rw [readAllDiskFile, List.mem_append, write_member, merge_member, items, List.flatMap_append, List.mem_append, List.mem_flatMap,
    List.mem_flatMap, or_comm]

theorem sorted_length (files : List DataFile) (le : DataFile → DataFile → Bool) :
    ((files.mergeSort le).flatMap (·.readOneFile)).length = (files.flatMap (·.items)).length := by
  have same : (fun file : DataFile => file.readOneFile.length) = fun file => file.items.length := by
    funext file
    exact List.length_reverse
  rw [List.length_flatMap, List.length_flatMap, same]
  exact ((List.mergeSort_perm files le).map _).sum_eq

theorem read_all_length : path.readAllDiskFile.length = path.items.length := by
  rw [readAllDiskFile, items, List.flatMap_append, List.length_append, List.length_append, readAllWriteFiles, readAllMergeFiles, sorted_length,
    sorted_length, Nat.add_comm]

theorem write_pairwise : path.readAllWriteFiles.Pairwise fun first second => second.Before first := by
  have apart := sorted_apart path.writeFiles (fun left right => decide (right ≤ left)) (by simp only [decide_eq_true_eq]; omega)
    (by simp only [Bool.or_eq_true, decide_eq_true_eq]; omega) path.writeNames
  rw [readAllWriteFiles, List.pairwise_flatMap]
  refine ⟨fun file _ => file.read_pairwise, apart.imp_of_mem fun {left right} first second both item here other there => ?_⟩
  have positive := path.positive right (List.mem_mergeSort.mp second)
  rw [DataFile.read_member] at here there
  have order := of_decide_eq_true both.1
  rw [← left.item_file item here, ← right.item_file other there] at both order
  rw [← right.item_file other there] at positive
  exact .inr (.inr (.inl ⟨positive, by omega⟩))

theorem merge_pairwise : path.readAllMergeFiles.Pairwise fun first second => second.Before first := by
  have apart := sorted_apart path.mergeFiles (fun left right => decide (left ≤ right)) (by simp only [decide_eq_true_eq]; omega)
    (by simp only [Bool.or_eq_true, decide_eq_true_eq]; omega) path.mergeNames
  rw [readAllMergeFiles, List.pairwise_flatMap]
  refine ⟨fun file _ => file.read_pairwise, apart.imp_of_mem fun {left right} first second both item here other there => ?_⟩
  have negative := path.negative right (List.mem_mergeSort.mp second)
  rw [DataFile.read_member] at here there
  have order := of_decide_eq_true both.1
  rw [← left.item_file item here, ← right.item_file other there] at both order
  rw [← right.item_file other there] at negative
  exact .inr (.inl ⟨negative, by omega⟩)

-- The reader goes through the records from the last one to the first.
theorem read_all_pairwise : path.readAllDiskFile.Pairwise fun first second => second.Before first := by
  rw [readAllDiskFile, List.pairwise_append]
  refine ⟨path.write_pairwise, path.merge_pairwise, fun item here other there => ?_⟩
  obtain ⟨file, member, inside⟩ := (path.write_member item).mp here
  obtain ⟨older, known, within⟩ := (path.merge_member other).mp there
  have positive := path.positive file member
  have negative := path.negative older known
  rw [← file.item_file item inside] at positive
  rw [← older.item_file other within] at negative
  exact .inl ⟨negative, positive⟩

end DataPath

-- The records of one key in a list.
def ofKey (key : UInt64) (items : List Item) : List Item := items.filter (·.record.key = key)

theorem of_key_append (key : UInt64) (left right : List Item) : ofKey key (left ++ right) = ofKey key left ++ ofKey key right :=
  List.filter_append ..

theorem of_key_cons (key : UInt64) (item : Item) (rest : List Item) (same : item.record.key = key) :
    ofKey key (item :: rest) = item :: ofKey key rest := List.filter_cons_of_pos (by simpa using same)

theorem of_key_other (key : UInt64) (item : Item) (rest : List Item) (other : item.record.key ≠ key) :
    ofKey key (item :: rest) = ofKey key rest := List.filter_cons_of_neg (by simpa using other)

namespace Loading

variable (codec : DataCodec) (logs : LogCodec) (dumpLen : PaxosLog → Nat) (memIdxSize workerCnt : Nat)

-- The record that memkv gets from a record of a file.
def Loads (item : Item) (head : Head) : Prop :=
  ∃ info log, readRecord codec logs item.fileNo item.offset item.record = some (some (info, log)) ∧
    setAllowed codec info log = true ∧ head = appendDumpRecord dumpLen info log

-- Between any two steps: a queue holds the records of its own keys; of a key not
-- yet in memory no record has been taken; a key in memory has the first one read.
structure Fair (order : List Item) (s : Loading) : Prop where
  routed : ∀ worker item, item ∈ s.queues worker → queueIdx memIdxSize workerCnt item.record.key = worker
  known : ∀ worker item, item ∈ s.queues worker → item ∈ order
  unread : ∀ item, item ∈ s.unread → item ∈ order
  waits : ∀ key, s.memkv key = none → ofKey key (s.queues (queueIdx memIdxSize workerCnt key)) ++ ofKey key s.unread = ofKey key order
  loaded : ∀ key head, s.memkv key = some head → ∃ item, (ofKey key order).head? = some item ∧ Loads codec logs dumpLen item head

section Steps

variable (order : List Item) (s : Loading) (fair : Fair codec logs dumpLen memIdxSize workerCnt order s)

include fair

theorem push_fair (next : Loading) (done : s.push memIdxSize workerCnt = some next) :
    Fair codec logs dumpLen memIdxSize workerCnt order next := by
  unfold push at done
  split at done
  · cases done
  · rename_i item rest left
    dsimp only at done
    split at done
    · cases done
    · cases done
      have present : item ∈ s.unread := by
        rw [left]
        exact List.mem_cons_self
      have grown : ∀ worker place, place ∈ Function.update s.queues (queueIdx memIdxSize workerCnt item.record.key)
          (s.queues (queueIdx memIdxSize workerCnt item.record.key) ++ [item]) worker →
          place ∈ s.queues worker ∨ place = item ∧ worker = queueIdx memIdxSize workerCnt item.record.key := by
        intro worker place here
        by_cases same : worker = queueIdx memIdxSize workerCnt item.record.key
        · subst same
          rw [Function.update_self] at here
          rcases List.mem_append.mp here with old | new
          · exact .inl old
          · exact .inr ⟨List.mem_singleton.mp new, rfl⟩
        · rw [Function.update_of_ne same] at here
          exact .inl here
      refine ⟨fun worker other here => ?_, fun worker other here => ?_, fun other here => fair.unread other ?_, fun key free => ?_, fair.loaded⟩
      · rcases grown worker other here with old | ⟨rfl, same⟩
        · exact fair.routed worker other old
        · exact same.symm
      · rcases grown worker other here with old | ⟨rfl, _⟩
        · exact fair.known worker other old
        · exact fair.unread _ present
      · rw [left]
        exact List.mem_cons_of_mem _ here
      · have before := fair.waits key free
        rw [left] at before
        dsimp only
        by_cases same : item.record.key = key
        · rw [of_key_cons key item rest same] at before
          rw [← same, Function.update_self, of_key_append, same, of_key_cons key item [] same, List.append_assoc]
          exact before
        · rw [of_key_other key item rest same] at before
          by_cases shared : queueIdx memIdxSize workerCnt key = queueIdx memIdxSize workerCnt item.record.key
          · rw [shared, Function.update_self, of_key_append, of_key_other key item [] same, ← shared]
            simpa [ofKey] using before
          · rw [Function.update_of_ne shared]
            exact before

theorem take_fair (worker : Nat) (next : Loading) (done : s.take codec logs dumpLen worker = some next) :
    Fair codec logs dumpLen memIdxSize workerCnt order next := by
  unfold take at done
  split at done
  · cases done
  · rename_i item rest queue
    have present : item ∈ s.queues worker := by
      rw [queue]
      exact List.mem_cons_self
    have home := fair.routed worker item present
    have fewer : ∀ other place, place ∈ Function.update s.queues worker rest other → place ∈ s.queues other := by
      intro other place here
      by_cases same : other = worker
      · subst same
        rw [Function.update_self] at here
        rw [queue]
        exact List.mem_cons_of_mem _ here
      · rwa [Function.update_of_ne same] at here
    -- Of the other keys nothing leaves the queue.
    have others : ∀ key, item.record.key ≠ key → s.memkv key = none →
        ofKey key (Function.update s.queues worker rest (queueIdx memIdxSize workerCnt key)) ++ ofKey key s.unread = ofKey key order := by
      intro key other free
      rw [← fair.waits key free]
      by_cases same : queueIdx memIdxSize workerCnt key = worker
      · rw [same, Function.update_self, queue, of_key_other key item rest other]
      · rw [Function.update_of_ne same]
    dsimp only at done
    split at done
    · rename_i taken
      cases done
      refine ⟨fun other place here => fair.routed other place (fewer other place here), fun other place here => fair.known other place (fewer other place here),
        fair.unread, fun key free => others key ?_ free, fair.loaded⟩
      rintro rfl
      dsimp only at free
      rw [free] at taken
      cases taken
    · rename_i taken
      have free : s.memkv item.record.key = none := by simpa using taken
      obtain ⟨result, read, rest'⟩ := Option.bind_eq_some_iff.mp done
      obtain ⟨⟨info, log⟩, rfl, rest'⟩ := Option.bind_eq_some_iff.mp rest'
      obtain ⟨checked, same⟩ := (asserting_some _ _ _).mp rest'
      cases same
      refine ⟨fun other place here => fair.routed other place (fewer other place here), fun other place here => fair.known other place (fewer other place here),
        fair.unread, fun key empty => ?_, fun key head held => ?_⟩
      · dsimp only at empty
        by_cases same : item.record.key = key
        · subst same
          rw [Function.update_self] at empty
          cases empty
        · rw [Function.update_of_ne (Ne.symm same)] at empty
          exact others key same empty
      · dsimp only at held
        by_cases same : item.record.key = key
        · subst same
          rw [Function.update_self] at held
          cases held
          refine ⟨item, ?_, info, log, read, checked, rfl⟩
          rw [← fair.waits _ free, home, queue, of_key_cons _ item rest rfl]
          rfl
        · rw [Function.update_of_ne (Ne.symm same)] at held
          exact fair.loaded key head held

theorem act_fair (step : LoadStep) (next : Loading) (done : s.act codec logs dumpLen memIdxSize workerCnt step = some next) :
    Fair codec logs dumpLen memIdxSize workerCnt order next := by
  cases step with
  | push => exact push_fair codec logs dumpLen memIdxSize workerCnt order s fair next done
  | take worker =>
      rw [act] at done
      split at done
      · exact take_fair codec logs dumpLen memIdxSize workerCnt order s fair worker next done
      · cases done

-- A worker never stops at a valid record.
theorem take_runs (valid : ∀ item ∈ order, ∃ head, Loads codec logs dumpLen item head) (worker : Nat) (item : Item) (rest : List Item)
    (queue : s.queues worker = item :: rest) : ∃ next, s.take codec logs dumpLen worker = some next := by
  have present : item ∈ s.queues worker := by
    rw [queue]
    exact List.mem_cons_self
  obtain ⟨head, info, log, read, checked, _⟩ := valid item (fair.known worker item present)
  unfold take
  rw [queue]
  dsimp only
  split
  · exact ⟨_, rfl⟩
  · rw [read, Option.bind_some, Option.bind_some]
    exact ⟨_, asserting_pos _ _ checked⟩

end Steps

def Finished (s : Loading) : Prop := s.unread = [] ∧ ∀ worker, s.queues worker = []

-- As long as there are records, the reader or a worker has something to do.
theorem load_progress (order : List Item) (s : Loading) (fair : Fair codec logs dumpLen memIdxSize workerCnt order s)
    (workers : 0 < workerCnt) (valid : ∀ item ∈ order, ∃ head, Loads codec logs dumpLen item head) (more : ¬ s.Finished) :
    ∃ step next, s.act codec logs dumpLen memIdxSize workerCnt step = some next := by
  by_cases waiting : ∃ worker, s.queues worker ≠ []
  · obtain ⟨worker, filled⟩ := waiting
    obtain ⟨item, rest, queue⟩ := List.exists_cons_of_ne_nil filled
    obtain ⟨next, done⟩ := take_runs codec logs dumpLen memIdxSize workerCnt order s fair valid worker item rest queue
    have home := fair.routed worker item (by rw [queue]; exact List.mem_cons_self)
    refine ⟨.take worker, next, ?_⟩
    rw [act, if_pos (by rw [← home]; exact Nat.mod_lt _ workers)]
    exact done
  · have empty : ∀ worker, s.queues worker = [] := by
      intro worker
      by_contra filled
      exact waiting ⟨worker, filled⟩
    obtain ⟨item, rest, left⟩ := List.exists_cons_of_ne_nil fun none_ => more ⟨none_, empty⟩
    have pushed : (s.push memIdxSize workerCnt).isSome = true := by
      rw [push, left]
      dsimp only
      rw [empty, if_neg (by decide)]
      rfl
    obtain ⟨next, done⟩ := Option.isSome_iff_exists.mp pushed
    exact ⟨.push, next, done⟩

-- What is left to do: every record is pushed once and taken once.
def work (s : Loading) : Nat := 2 * s.unread.length + ∑ worker ∈ Finset.range workerCnt, (s.queues worker).length

theorem queue_sum (queues : Nat → List Item) (worker : Nat) (items : List Item) (inside : worker < workerCnt) :
    ∑ other ∈ Finset.range workerCnt, (Function.update queues worker items other).length + (queues worker).length =
      ∑ other ∈ Finset.range workerCnt, (queues other).length + items.length := by
  have member : worker ∈ Finset.range workerCnt := Finset.mem_range.mpr inside
  rw [← Finset.sum_erase_add _ _ member, ← Finset.sum_erase_add _ _ member, Function.update_self]
  have same : ∑ other ∈ (Finset.range workerCnt).erase worker, (Function.update queues worker items other).length =
      ∑ other ∈ (Finset.range workerCnt).erase worker, (queues other).length := by
    apply Finset.sum_congr rfl
    intro other here
    rw [Function.update_of_ne (Finset.ne_of_mem_erase here)]
  rw [same]
  omega

theorem act_work (workers : 0 < workerCnt) (s next : Loading) (step : LoadStep)
    (done : s.act codec logs dumpLen memIdxSize workerCnt step = some next) : next.work workerCnt + 1 = s.work workerCnt := by
  cases step with
  | push =>
      rw [act, push] at done
      split at done
      · cases done
      · rename_i item rest left
        dsimp only at done
        split at done
        · cases done
        · cases done
          have sum := queue_sum workerCnt s.queues (queueIdx memIdxSize workerCnt item.record.key)
            (s.queues (queueIdx memIdxSize workerCnt item.record.key) ++ [item]) (Nat.mod_lt _ workers)
          rw [List.length_append, List.length_singleton] at sum
          simp only [work, left, List.length_cons]
          omega
  | take worker =>
      rw [act] at done
      split at done
      · rename_i inside
        unfold take at done
        split at done
        · cases done
        · rename_i item rest queue
          have sum := queue_sum workerCnt s.queues worker rest inside
          rw [queue, List.length_cons] at sum
          have fewer : ∀ memkv, work workerCnt { s with queues := Function.update s.queues worker rest, memkv := memkv } + 1 = s.work workerCnt := by
            intro memkv
            simp only [work]
            omega
          dsimp only at done
          split at done
          · cases done
            exact fewer s.memkv
          · obtain ⟨_, _, done⟩ := Option.bind_eq_some_iff.mp done
            obtain ⟨_, _, done⟩ := Option.bind_eq_some_iff.mp done
            obtain ⟨_, same⟩ := (asserting_some _ _ _).mp done
            cases same
            exact fewer _
      · cases done

-- What memkv has once it keeps.
theorem act_keeps (s next : Loading) (step : LoadStep) (key : UInt64) (head : Head) (held : s.memkv key = some head)
    (done : s.act codec logs dumpLen memIdxSize workerCnt step = some next) : next.memkv key = some head := by
  cases step with
  | push =>
      rw [act, push] at done
      split at done
      · cases done
      · dsimp only at done
        split at done
        · cases done
        · cases done
          exact held
  | take worker =>
      rw [act] at done
      split at done
      · unfold take at done
        split at done
        · cases done
        · rename_i item rest queue
          dsimp only at done
          split at done
          · cases done
            exact held
          · rename_i free
            obtain ⟨_, _, done⟩ := Option.bind_eq_some_iff.mp done
            obtain ⟨_, _, done⟩ := Option.bind_eq_some_iff.mp done
            obtain ⟨_, same⟩ := (asserting_some _ _ _).mp done
            cases same
            have other : key ≠ item.record.key := by
              rintro rfl
              rw [held] at free
              exact free rfl
            dsimp only
            rw [Function.update_of_ne other]
            exact held
      · cases done

end Loading

-- A record of the key that all other records of the key come before.
def LastOf (path : DataPath) (key : UInt64) (item : Item) : Prop :=
  item ∈ path.items ∧ item.record.key = key ∧ ∀ other ∈ path.items, other.record.key = key → other = item ∨ other.Before item

theorem first_read_last (path : DataPath) (key : UInt64) (item : Item) (first : (ofKey key path.readAllDiskFile).head? = some item) :
    LastOf path key item := by
  have ordered := path.read_all_pairwise.sublist (List.filter_sublist (p := fun item => decide (item.record.key = key)))
  cases list : ofKey key path.readAllDiskFile with
  | nil =>
      rw [list] at first
      cases first
  | cons head rest =>
      rw [list] at first
      cases first
      have member : ∀ other, other ∈ path.items → other.record.key = key → other ∈ item :: rest := by
        intro other here same
        rw [← list]
        exact List.mem_filter.mpr ⟨(path.read_all_member other).mpr here, by simpa using same⟩
      have present : item ∈ ofKey key path.readAllDiskFile := by
        rw [list]
        exact List.mem_cons_self
      obtain ⟨known, same⟩ := List.mem_filter.mp present
      refine ⟨(path.read_all_member item).mp known, by simpa using same, fun other here equal => ?_⟩
      rcases List.mem_cons.mp (member other here equal) with rfl | later
      · exact .inl rfl
      · rw [ofKey] at list
        rw [list] at ordered
        exact .inr ((List.pairwise_cons.mp ordered).1 other later)

namespace Loading

variable (codec : DataCodec) (logs : LogCodec) (dumpLen : PaxosLog → Nat) (memIdxSize workerCnt : Nat)

theorem start_fair (path : DataPath) : Fair codec logs dumpLen memIdxSize workerCnt path.readAllDiskFile path.start :=
  ⟨fun _ _ wrong => (by cases wrong), fun _ _ wrong => (by cases wrong), fun _ here => here, fun _ _ => rfl, fun _ _ wrong => by cases wrong⟩

theorem run_fair (path : DataPath) (s : Loading) (run : Reaches (act codec logs dumpLen memIdxSize workerCnt) path.start s) :
    Fair codec logs dumpLen memIdxSize workerCnt path.readAllDiskFile s :=
  run_invariant (act codec logs dumpLen memIdxSize workerCnt) (Fair codec logs dumpLen memIdxSize workerCnt path.readAllDiskFile)
    (fun u step v fair done => act_fair codec logs dumpLen memIdxSize workerCnt _ u fair step v done) path.start s
    (start_fair codec logs dumpLen memIdxSize workerCnt path) run

-- In the end a key is in memory exactly if it has a record, and has what was read
-- of it first.
theorem loaded_first (path : DataPath) (s : Loading) (run : Reaches (act codec logs dumpLen memIdxSize workerCnt) path.start s)
    (ended : s.Finished) (key : UInt64) :
    (s.memkv key = none ∧ ∀ item ∈ path.items, item.record.key ≠ key) ∨
    ∃ head item, s.memkv key = some head ∧ (ofKey key path.readAllDiskFile).head? = some item ∧ Loads codec logs dumpLen item head := by
  have fair := run_fair codec logs dumpLen memIdxSize workerCnt path s run
  cases free : s.memkv key with
  | some head =>
      obtain ⟨item, first, loads⟩ := fair.loaded key head free
      exact .inr ⟨head, item, rfl, first, loads⟩
  | none =>
      have waits := fair.waits key free
      rw [ended.1, ended.2] at waits
      refine .inl ⟨rfl, fun item here same => ?_⟩
      have present : item ∈ ofKey key path.readAllDiskFile := List.mem_filter.mpr ⟨(path.read_all_member item).mpr here, by simpa using same⟩
      rw [← waits] at present
      cases present

theorem run_length (workers : 0 < workerCnt) (steps : List LoadStep) (s t : Loading)
    (run : steps.foldlM (act codec logs dumpLen memIdxSize workerCnt) s = some t) : t.work workerCnt + steps.length = s.work workerCnt := by
  induction steps generalizing s with
  | nil =>
      cases run
      rfl
  | cons step rest ih =>
      rw [List.foldlM_cons] at run
      obtain ⟨middle, first, later⟩ := Option.bind_eq_some_iff.mp run
      have shorter := act_work codec logs dumpLen memIdxSize workerCnt workers s middle step first
      have rest' := ih middle later
      rw [List.length_cons]
      omega

-- However the reader and the workers take turns: a key in memory has the data of
-- its last record and keeps it, in the end every key of the files is in memory,
-- and loading comes to its end.
theorem load_last_writer_wins (path : DataPath) (workers : 0 < workerCnt)
    (valid : ∀ item ∈ path.items, ∃ head, Loads codec logs dumpLen item head) (s : Loading) (steps : List LoadStep)
    (run : steps.foldlM (act codec logs dumpLen memIdxSize workerCnt) path.start = some s) :
    (∀ key head, s.memkv key = some head → ∃ item, LastOf path key item ∧ Loads codec logs dumpLen item head) ∧
    (∀ step next key head, s.memkv key = some head → s.act codec logs dumpLen memIdxSize workerCnt step = some next →
      next.memkv key = some head) ∧
    (s.Finished → ∀ item ∈ path.items, (s.memkv item.record.key).isSome = true) ∧
    (¬ s.Finished → ∃ step next, s.act codec logs dumpLen memIdxSize workerCnt step = some next) ∧
    steps.length ≤ 2 * path.items.length := by
  have fair := run_fair codec logs dumpLen memIdxSize workerCnt path s ⟨steps, run⟩
  refine ⟨fun key head held => ?_, fun step next key head held done => act_keeps codec logs dumpLen memIdxSize workerCnt s next step key head held done,
    fun ended item here => ?_, fun more => ?_, ?_⟩
  · obtain ⟨item, first, loads⟩ := fair.loaded key head held
    exact ⟨item, first_read_last path key item first, loads⟩
  · rcases loaded_first codec logs dumpLen memIdxSize workerCnt path s ⟨steps, run⟩ ended item.record.key with ⟨_, none_⟩ | ⟨head, _, held, _⟩
    · exact absurd rfl (none_ item here)
    · rw [held]
      rfl
  · exact load_progress codec logs dumpLen memIdxSize workerCnt _ s fair workers
      (fun item here => valid item ((path.read_all_member item).mp here)) more
  · have total := run_length codec logs dumpLen memIdxSize workerCnt workers steps path.start s run
    have whole : path.start.work workerCnt = 2 * path.readAllDiskFile.length := by simp [work, DataPath.start]
    rw [whole, path.read_all_length] at total
    omega

-- A promise of the first index and a larger one, as the generated code writes them.
def oldRecord : RawRecord := ⟨7, 0, 0, 0, [10, 6, 8, 1, 24, 129, 128, 4]⟩

def newRecord : RawRecord := ⟨7, 0, 0, 0, [10, 6, 8, 1, 24, 130, 128, 8]⟩

def sampleLogs : LogCodec where
  unCompresse := fun _ => none
  parseFromArray := fun raw =>
    if raw = oldRecord.body then some [(1, { promisedNum := some 65537 })]
    else if raw = newRecord.body then some [(1, { promisedNum := some 131074 })]
    else none

def samplePath : DataPath where
  writeFiles := [⟨1, [(4108, oldRecord), (4160, newRecord)], by decide⟩]
  mergeFiles := [⟨-1, [(4108, oldRecord)], by decide⟩]
  positive := by decide
  negative := by decide
  writeNames := by decide
  mergeNames := by decide

def sampleSteps : List LoadStep := [.push, .take 0, .push, .push, .take 0, .take 0]

theorem sample_valid : ∀ item ∈ samplePath.items, ∃ head, Loads DBImpl.wireCodec sampleLogs List.length item head := by
  intro item here
  have cases_ : item = ⟨-1, 4108, oldRecord⟩ ∨ item = ⟨1, 4108, oldRecord⟩ ∨ item = ⟨1, 4160, newRecord⟩ := by
    simpa [DataPath.items, samplePath, DataFile.items] using here
  rcases cases_ with rfl | rfl | rfl
  · exact ⟨_, _, _, rfl, by decide +kernel, rfl⟩
  · exact ⟨_, _, _, rfl, by decide +kernel, rfl⟩
  · exact ⟨_, _, _, rfl, by decide +kernel, rfl⟩

-- The newer promise is what memkv ends with.
theorem sample_loads_last : ∃ s, sampleSteps.foldlM (act DBImpl.wireCodec sampleLogs List.length 16 1) samplePath.start = some s ∧
    ∀ key head, s.memkv key = some head → ∃ item, LastOf samplePath key item ∧ Loads DBImpl.wireCodec sampleLogs List.length item head := by
  have allowed : (sampleSteps.foldlM (act DBImpl.wireCodec sampleLogs List.length 16 1) samplePath.start).isSome = true := by decide +kernel
  obtain ⟨s, run⟩ := Option.isSome_iff_exists.mp allowed
  exact ⟨s, run, (load_last_writer_wins DBImpl.wireCodec sampleLogs List.length 16 1 samplePath Nat.one_pos sample_valid s sampleSteps run).1⟩

end Loading

end PaxosStore.MemKv
