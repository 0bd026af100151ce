import Mathlib.Data.List.Find
import PaxosStore.MemKv.HardMemKvSteps

set_option autoImplicit false

namespace PaxosStore.MemKv

open PaxosStore.PaxosKv
open PaxosStore.Consensus

-- No number of last files holds exactly the records that are asked for, except all of them.
def NeverExact (maxReloadRecordCnt count : Nat) (files : List DataFile) : Prop :=
  ∀ front back, files = front ++ back → back ≠ [] → count + (front.map (·.records.length)).sum ≠ maxReloadRecordCnt

theorem never_exact_tail (maxReloadRecordCnt count : Nat) (file : DataFile) (older : List DataFile)
    (never : NeverExact maxReloadRecordCnt count (file :: older)) : NeverExact maxReloadRecordCnt (count + file.records.length) older := by
  intro front back same left
  have more := never (file :: front) back (by rw [same]; rfl) left
  rw [List.map_cons, List.sum_cons] at more
  omega

-- The records that are reloaded are the last ones.
theorem recent_records_last (maxReloadRecordCnt count : Nat) (files : List DataFile) (most : count ≤ maxReloadRecordCnt)
    (never : NeverExact maxReloadRecordCnt count files) :
    ∃ items, recentRecords maxReloadRecordCnt count files = some items ∧
      items.reverse = (files.flatMap (·.readOneFile)).take (maxReloadRecordCnt - count) := by
  induction files generalizing count with
  | nil => exact ⟨[], rfl, by simp⟩
  | cons file older ih =>
      have rest := never_exact_tail maxReloadRecordCnt count file older never
      have less : count < maxReloadRecordCnt := by
        have other := never [] (file :: older) rfl (List.cons_ne_nil _ _)
        rw [List.map_nil, List.sum_nil] at other
        omega
      have length : file.readOneFile.length = file.records.length := by rw [DataFile.readOneFile, List.length_reverse, DataFile.items, List.length_map]
      rw [recentRecords, asserting_pos _ _ less, List.flatMap_cons]
      split
      · rename_i empty
        rw [empty, List.length_nil, Nat.add_zero] at rest
        obtain ⟨items, found, same⟩ := ih count most rest
        refine ⟨items, found, ?_⟩
        rw [same, List.eq_nil_of_length_eq_zero (length.trans (by rw [empty]; rfl)), List.nil_append]
      · split
        · rename_i fits
          obtain ⟨items, found, same⟩ := ih (count + file.records.length) (by omega) rest
          refine ⟨items ++ file.items, by rw [found]; rfl, ?_⟩
          have whole : file.readOneFile.take (maxReloadRecordCnt - count) = file.readOneFile := List.take_of_length_le (by omega)
          rw [List.reverse_append, same, List.take_append, whole, length, Nat.sub_sub, DataFile.readOneFile]
        · rename_i past
          refine ⟨_, rfl, ?_⟩
          rw [List.take_append_of_le_length (by omega), DataFile.readOneFile, List.take_reverse]
          rw [DataFile.readOneFile, List.length_reverse] at length
          rw [length]

section Replay

variable (codec : DataCodec) (packing : LogPacking) (alloc : Allocator)

-- What the loader takes, it also reloads.
theorem reload_one (s : MemStore) (placed : Placed s) (item : Item) (allowed : recordAllowed codec packing.toLogCodec item = true)
    (log : PaxosLog) (raw : List UInt8) (decodes : decodeLog packing.toLogCodec item.record = some log)
    (written : packing.serializeToString log = some raw) (filled : raw ≠ []) :
    ∃ next, reloadRecord codec packing alloc s item = some next ∧ Placed next ∧
      (∃ slot, next.find item.record.key = some slot ∧ Packed packing slot.record log) ∧
      ∀ other, other ≠ item.record.key → next.find other = s.find other := by
  rw [recordAllowed] at allowed
  split at allowed
  · rename_i info text read
    have same := loads_log codec packing.toLogCodec (fun _ => 0) item _ ⟨info, text, read, allowed, rfl⟩
    rw [decodes] at same
    obtain rfl : log = text := Option.some.inj same
    have checked : infoCheck info log = true := by
      simp only [setAllowed, checkConsistency, Bool.and_eq_true] at allowed
      obtain ⟨_, ⟨⟨⟨⟨max, chosen⟩, reqid⟩, pending⟩, _⟩, _⟩ := allowed
      simp only [infoCheck, Bool.and_eq_true]
      exact ⟨⟨⟨max, chosen⟩, reqid⟩, pending⟩
    obtain ⟨next, done, after, found, others⟩ := s.set_spec packing placed (alloc.place s) (alloc.fresh s) item.record.key item.fileNo log raw written filled
    refine ⟨next, ?_, after, found, others⟩
    change (readRecord codec packing.toLogCodec item.fileNo item.offset item.record).bind _ = _
    rw [read]
    change (asserting _ _) = _
    rw [asserting_pos _ _ ⟨checked, allowed⟩]
    rw [written, Option.bind_some, asserting_pos _ _ filled]
    exact done
  · cases allowed

-- After the reload a key has its last record among those that were reloaded.
theorem reload_all (items : List Item) (s : MemStore) (placed : Placed s)
    (allowed : ∀ item ∈ items, recordAllowed codec packing.toLogCodec item = true)
    (writable : ∀ item ∈ items, ∃ log raw, decodeLog packing.toLogCodec item.record = some log ∧ packing.serializeToString log = some raw ∧ raw ≠ []) :
    ∃ next, items.foldlM (reloadRecord codec packing alloc) s = some next ∧ Placed next ∧
      ∀ key, (items.reverse.find? (·.record.key = key) = none ∧ next.find key = s.find key) ∨
        ∃ item slot log, items.reverse.find? (·.record.key = key) = some item ∧ next.find key = some slot ∧
          decodeLog packing.toLogCodec item.record = some log ∧ Packed packing slot.record log := by
  induction items generalizing s with
  | nil => exact ⟨s, rfl, placed, fun key => .inl ⟨rfl, rfl⟩⟩
  | cons item rest ih =>
      obtain ⟨log, raw, decodes, written, filled⟩ := writable item List.mem_cons_self
      obtain ⟨middle, done, after, found, others⟩ := reload_one codec packing alloc s placed item (allowed item List.mem_cons_self) log raw decodes written filled
      obtain ⟨next, run, final, known⟩ := ih middle after (fun other here => allowed other (List.mem_cons_of_mem _ here))
        (fun other here => writable other (List.mem_cons_of_mem _ here))
      refine ⟨next, by rw [List.foldlM_cons, done]; exact run, final, fun key => ?_⟩
      rw [List.reverse_cons, List.find?_append]
      rcases known key with ⟨none_, still⟩ | ⟨last, slot, text, found', at_, decoded, packed⟩
      · rw [none_]
        by_cases own : item.record.key = key
        · subst own
          obtain ⟨slot, at_, packed⟩ := found
          exact .inr ⟨item, slot, log, by simp, still.trans at_, decodes, packed⟩
        · exact .inl ⟨by simp [own], still.trans (others key (Ne.symm own))⟩
      · exact .inr ⟨last, slot, text, by rw [found']; rfl, at_, decoded, packed⟩

-- What a lite head answers comes from its log alone.
theorem answer_of_log (one two : Head) (first : one.lite = true) (second : two.lite = true) (same : one.log = two.log) :
    one.answer codec = two.answer codec := by
  rw [Head.answer, Head.answer, Head.getBasicInfo, Head.getBasicInfo, first, second, same]
  cases Head.chosenInfo codec two.log with
  | none => rfl
  | some info =>
      rw [if_neg (by simp), if_neg (by simp), Option.bind_some, Option.bind_some]
      cases getMaxIns two.log with
      | none =>
          by_cases ordered : info.chosenIndex ≤ info.maxIndex
          · rw [asserting_pos _ _ ordered, asserting_pos _ _ ordered]
            rfl
          · rw [asserting, asserting, if_neg ordered, if_neg ordered]
      | some entry =>
          by_cases ordered : info.chosenIndex ≤ entry.1
          · rw [asserting_pos _ _ ordered, asserting_pos _ _ ordered]
            rfl
          · rw [asserting, asserting, if_neg ordered, if_neg ordered]

theorem answer_found (s : MemStore) (key : UInt64) (slot : Slot) (log : PaxosLog) (head : Head) (found : s.find key = some slot)
    (packed : Packed packing slot.record log) (lite : head.lite = true) (same : head.log = log) : s.answer codec packing key = head.answer codec := by
  rw [MemStore.answer, found, Option.bind_some, MemRecord.head, packed_log packing slot.record log packed, Option.map_some, Option.bind_some]
  exact answer_of_log codec _ head rfl lite same.symm

end Replay

section Results

variable (codec : DataCodec) (packing : LogPacking) (alloc : Allocator)

-- The records whose Set has not come to a good end.
def HardMemKv.Unset (s : HardMemKv) (item : Item) : Prop := item ∈ s.failed ∨ ∃ write ∈ s.writing, item = write.item

theorem loads_lite (dumpLen : PaxosLog → Nat) (item : Item) (head : Head) (loads : Loading.Loads codec packing.toLogCodec dumpLen item head) :
    head.lite = true := by
  obtain ⟨_, _, _, _, rfl⟩ := loads
  rfl

-- After a stop at any point, the restart from shared memory gives the same answers
-- as the restart from the files: if every record whose Set did not come to a good
-- end is among the last ones, the records of a key that are in use can be
-- compared, and the number of records to reload is not reached exactly.
theorem restart_paths_agree (s t : HardMemKv) (start : Restartable packing codec s) (run : Reaches (HardMemKv.act codec packing) s t) (path : DataPath)
    (same : ∀ item, item ∈ path.items ↔ item ∈ t.files) (order : List Slot) (all : order.Perm t.store.slots)
    (sortable : t.store.Sortable codec packing) (recent : ∀ item, t.Unset item → item ∈ path.readAllWriteFiles.take reloadRecordCnt)
    (never : NeverExact reloadRecordCnt 0 path.newestFirst) :
    ∃ store, restart codec packing alloc t.store order path = some store ∧
      ∀ (dumpLen : PaxosLog → Nat) (memIdxSize workerCnt : Nat) (loading : Loading),
        Reaches (Loading.act codec packing.toLogCodec dumpLen memIdxSize workerCnt) path.start loading → loading.Finished →
        ∀ key, store.answer codec packing key = (loading.memkv key).bind (Head.answer codec) := by
  have whole := run_invariant (HardMemKv.act codec packing) (Restartable packing codec)
    (fun u step v inv done => HardMemKv.act_restartable codec packing u inv step v done) s t start run
  obtain ⟨built, build, _, placed, dead, sole⟩ := t.store.start_build_spec codec packing whole.placed sortable order all
  obtain ⟨items, taken, window⟩ := recent_records_last reloadRecordCnt 0 path.newestFirst (Nat.zero_le _) never
  have window : items.reverse = path.readAllWriteFiles.take reloadRecordCnt := window
  have inside : ∀ item, item ∈ items → item ∈ t.files := by
    intro item here
    rw [← List.mem_reverse, window] at here
    exact (same item).mp ((path.read_all_member item).mp (List.mem_append_left _ (List.mem_of_mem_take here)))
  obtain ⟨store, replay, _, known⟩ := reload_all codec packing alloc items built placed (fun item here => whole.allowed item (inside item here))
    (fun item here => whole.writable item (inside item here))
  refine ⟨store, ?_, fun dumpLen memIdxSize workerCnt loading load finished key => ?_⟩
  · rw [restart, build, Option.bind_some, loadMostRecentWriteFile, taken, Option.bind_some]
    exact replay
  · have loaded := Loading.loaded_first codec packing.toLogCodec dumpLen memIdxSize workerCnt path loading load finished key
    rcases known key with ⟨none_, still⟩ | ⟨item, slot, log, first, found, decodes, packed⟩
    · -- No record of the key is reloaded, so that its last Set is over.
      have idle : ∀ item, t.Unset item → item.record.key ≠ key := by
        intro item unset equal
        have member := recent item unset
        rw [← window] at member
        simpa [equal] using List.find?_eq_none.mp none_ item member
      have settled : ∀ item : Item, item.record.key = key → Settled t.writing item :=
        fun item equal write here wrong => idle item (.inr ⟨write, here, wrong⟩) equal
      have current := whole.kept key (fun item here => idle item (.inl here)) (fun write here => idle write.item (.inr ⟨write, here, rfl⟩))
      rw [MemStore.answer, still, ← MemStore.answer]
      cases current with
      | absent _ gone nothing =>
          rw [MemStore.answer, dead key gone]
          rcases loaded with ⟨empty, _⟩ | ⟨head, item, _, first, _⟩
          · rw [empty]
            rfl
          · obtain ⟨here, own, _⟩ := first_read_last path key item first
            exact absurd (settled item own) (nothing item ((same item).mp here) own)
      | held slot log only packed latest =>
          obtain ⟨top, above⟩ := latest
          have found : built.find key = some slot := by
            have own := only.own
            subst own
            exact sole slot only.member only.live only.only
          rcases loaded with ⟨_, nothing⟩ | ⟨head, item, held, first, loads⟩
          · exact absurd above.2.1 (nothing top ((same top).mpr above.1))
          · have last := first_read_last path key item first
            have equal := last_decodes packing path t.files (Settled t.writing) key log top item same above last (settled item last.2.1)
            rw [loads_log codec packing.toLogCodec dumpLen item head loads, Option.some.injEq] at equal
            rw [held, Option.bind_some]
            exact answer_found codec packing built key slot log head found packed (loads_lite codec packing dumpLen item head loads) equal
    · -- The last record of the key is reloaded last.
      have read : (ofKey key path.readAllDiskFile).head? = some item := by
        rw [ofKey, List.head?_filter, DataPath.readAllDiskFile, List.find?_append]
        rw [window] at first
        rw [← List.take_append_drop reloadRecordCnt path.readAllWriteFiles, List.find?_append, first]
        rfl
      rcases loaded with ⟨_, nothing⟩ | ⟨head, other, held, again, loads⟩
      · obtain ⟨here, own, _⟩ := first_read_last path key item read
        exact absurd own (nothing item here)
      · rw [read, Option.some.injEq] at again
        subst again
        have equal := loads_log codec packing.toLogCodec dumpLen item head loads
        rw [decodes, Option.some.injEq] at equal
        rw [held, Option.bind_some]
        exact answer_found codec packing store key slot log head found packed (loads_lite codec packing dumpLen item head loads) equal.symm

theorem restartable_start : Restartable packing codec {} :=
  ⟨by decide, fun _ wrong => (by cases wrong), fun _ wrong => (by cases wrong), fun _ wrong => (by cases wrong),
    ⟨List.nodup_nil, fun _ _ wrong => by cases wrong⟩, fun _ wrong => (by cases wrong), fun _ wrong => (by cases wrong), fun _ wrong => (by cases wrong),
    fun _ _ _ => .absent rfl (fun _ wrong => by cases wrong) (fun _ wrong => by cases wrong), fun _ wrong => by cases wrong⟩

end Results

-- A promise for the first index, and the value that is then chosen there, as the
-- generated code writes them. snappy would make neither of them shorter.
def promiseLog : PaxosLog := [(1, { promisedNum := some 65537 })]

def promiseBody : List UInt8 := [10, 6, 8, 1, 24, 129, 128, 4]

def chosenLog : PaxosLog :=
  [(1, { promisedNum := some 65537, acceptedNum := some 65537, acceptedValue := some ⟨1, [8, 1, 16, 0, 26, 1, 1, 32, 0]⟩, chosen := true })]

def chosenBody : List UInt8 :=
  [10, 27, 8, 1, 24, 129, 128, 4, 32, 129, 128, 4, 42, 13, 8, 1, 18, 9, 8, 1, 16, 0, 26, 1, 1, 32, 0, 64, 1]

def twoLogs : LogPacking where
  unCompresse := List.tail?
  parseFromArray := fun raw => if raw = promiseBody then some promiseLog else if raw = chosenBody then some chosenLog else none
  serializeToString := fun log => if log = promiseLog then some promiseBody else if log = chosenLog then some chosenBody else none
  rawCompress := List.cons 0
  parse_serialize := by
    intro log raw written
    split at written
    · rename_i same
      cases written
      rw [same]
      rfl
    · split at written
      · rename_i same
        cases written
        rw [same]
        rfl
      · cases written
  expand_compress := zero_head_expands

def nextPlace : Allocator where
  place := fun s => (0, (s.slots.map (·.place.2)).sum + 1)
  fresh := by
    intro s slot here same
    have less : slot.place.2 ≤ (s.slots.map (·.place.2)).sum := List.single_le_sum (fun _ _ => Nat.zero_le _) _ (List.mem_map_of_mem here)
    rw [same] at less
    exact Nat.not_succ_le_self _ less

def twoRecords : DataPath where
  writeFiles := [⟨1, [(4108, ⟨7, 0, 0, 0, promiseBody⟩), (4160, ⟨7, 0, 1, 1, chosenBody⟩)], by decide⟩]
  mergeFiles := []
  positive := by decide
  negative := no_merge_files
  writeNames := by decide
  mergeNames := no_merge_names

-- The Write of the chosen value stops between the append and the flag FLAG_DELETE.
def halfDone : HardMemKv :=
  endOf (HardMemKv.act DBImpl.wireCodec twoLogs) {}
    [.add 7 promiseLog 0 4108, .append 7 (0, 0), .setIndex 7, .finish 7, .add 7 chosenLog 1 4160, .append 7 (0, 27)]

theorem restart_stops_half_done :
    ¬ ∀ codec packing alloc s t path order, Restartable packing codec s → Reaches (HardMemKv.act codec packing) s t →
      (∀ item, item ∈ path.items ↔ item ∈ t.files) → order.Perm t.store.slots → t.writing.length + t.failed.length < reloadRecordCnt →
      ∃ store, restart codec packing alloc t.store order path = some store ∧
        ∀ (dumpLen : PaxosLog → Nat) (memIdxSize workerCnt : Nat) (loading : Loading),
          Reaches (Loading.act codec packing.toLogCodec dumpLen memIdxSize workerCnt) path.start loading → loading.Finished →
          ∀ key, store.answer codec packing key = (loading.memkv key).bind (Head.answer codec) := by
  intro always
  have same : twoRecords.items = halfDone.files := by decide +kernel
  obtain ⟨store, done, _⟩ := always DBImpl.wireCodec twoLogs nextPlace {} halfDone twoRecords halfDone.store.slots (restartable_start _ _)
    (reaches_end _ _ _ (by decide +kernel)) (fun item => by rw [same]) (List.Perm.refl _) (by decide +kernel)
  have stops : (restart DBImpl.wireCodec twoLogs nextPlace halfDone.store halfDone.store.slots twoRecords).isNone = true := by decide +kernel
  rw [done] at stops
  cases stops

-- The Write of the chosen value stops before its Set.
def notBegun : HardMemKv :=
  endOf (HardMemKv.act DBImpl.wireCodec twoLogs) {}
    [.add 7 promiseLog 0 4108, .append 7 (0, 0), .setIndex 7, .finish 7, .add 7 chosenLog 1 4160]

theorem restart_not_begun :
    ∃ store, restart DBImpl.wireCodec twoLogs nextPlace notBegun.store notBegun.store.slots twoRecords = some store ∧
      ∀ (dumpLen : PaxosLog → Nat) (memIdxSize workerCnt : Nat) (loading : Loading),
        Reaches (Loading.act DBImpl.wireCodec twoLogs.toLogCodec dumpLen memIdxSize workerCnt) twoRecords.start loading → loading.Finished →
        ∀ key, store.answer DBImpl.wireCodec twoLogs key = (loading.memkv key).bind (Head.answer DBImpl.wireCodec) := by
  have same : twoRecords.items = notBegun.files := by decide +kernel
  have one : notBegun.store.slots = [⟨(0, 0), 7, false, ⟨1, false, promiseBody⟩⟩] := by decide +kernel
  have waits : notBegun.failed = [] ∧ notBegun.writing.map (·.item) = [⟨1, 4160, ⟨7, 0, 1, 1, chosenBody⟩⟩] := by decide +kernel
  refine restart_paths_agree DBImpl.wireCodec twoLogs nextPlace {} notBegun (restartable_start _ _) (reaches_end _ _ _ (by decide +kernel)) twoRecords
    (fun item => by rw [same]) notBegun.store.slots (List.Perm.refl _) ?_ ?_ ?_
  · intro first here second there _ _ _ apart
    rw [one, List.mem_singleton] at here there
    rw [here, there] at apart
    exact absurd rfl apart
  · rintro item (lost | ⟨write, here, rfl⟩)
    · rw [waits.1] at lost
      cases lost
    · have member : write.item ∈ notBegun.writing.map (·.item) := List.mem_map_of_mem here
      rw [waits.2, List.mem_singleton] at member
      rw [member]
      decide +kernel
  · intro front back split left
    cases front with
    | nil => decide
    | cons file rest =>
        rw [DataPath.newestFirst, twoRecords, List.mergeSort_singleton] at split
        have none_ : rest ++ back = [] := (List.cons.inj split).2.symm
        exact absurd (List.append_eq_nil_iff.mp none_).2 left

end PaxosStore.MemKv
