import PaxosStore.Certain.PlogAnswers
import PaxosStore.Certain.PlogWorker
import PaxosStore.Certain.DurableRuns

set_option autoImplicit false

namespace PaxosStore.Certain

open PaxosStore.Codec PaxosStore.Ordered PaxosStore.Consensus

-- How records are turned into bytes; protobuf can refuse to.
structure RecordCodec where
  serializeToString : EntryRecord → Option Bytes
  parseFromString : Bytes → Option EntryRecord

-- What it writes it can read.
def RecordCodec.Keeps (codec : RecordCodec) : Prop :=
  ∀ record buffer, codec.serializeToString record = some buffer → codec.parseFromString buffer = some record

section Worker

variable {S : Type} {count : Nat} (codec : RecordCodec) (db : KvDb S) (hash : Nat → Fin count)

-- The records of one group of a batch.
def groupOf (cmds : List PaxosCmd) (hashId : Fin count) : List PlogRecord :=
  (cmds.filter fun cmd => hash cmd.entityId = hashId).filterMap fun cmd =>
    (codec.serializeToString cmd.localEntryRecord).map fun buffer => ⟨cmd.entityId, cmd.entry, buffer⟩

-- The commands of a group get the code of its write.
def setResults (hashId : Fin count) (code : RetCode) (cmds : List PaxosCmd) : List PaxosCmd :=
  if code = .ok then cmds
  else
    cmds.map fun cmd =>
      if hash cmd.entityId = hashId ∧ (codec.serializeToString cmd.localEntryRecord).isSome then { cmd with result := code } else cmd

def setGroups (cmds : List PaxosCmd) (statuses : Fin count → KvStatus) : List (Fin count) → List PaxosCmd → PlogImpl S count →
    List PaxosCmd × PlogImpl S count
  | [], done, s => (done, s)
  | hashId :: order, done, s =>
      let result := s.multiSetRecords db hashId (groupOf codec hash cmds hashId) (statuses hashId)
      setGroups cmds statuses order (setResults codec hash hashId result.1 done) result.2

-- PlogWorker::SetRecord for a batch. The groups come in the order of a hash table.
def setRecords (s : PlogImpl S count) (cmds : List PaxosCmd) (order : List (Fin count)) (statuses : Fin count → KvStatus) :
    List PaxosCmd × PlogImpl S count :=
  setGroups codec db hash cmds statuses order
    (cmds.map fun cmd => if (codec.serializeToString cmd.localEntryRecord).isSome then cmd else { cmd with result := .invalidRecord }) s

-- PlogReadonlyWorker::GetRecord
def workerGetRecord (s : PlogImpl S count) (fails : Bool) (cmd : PaxosCmd) : PaxosCmd :=
  match s.getRecord db hash fails cmd.entityId cmd.entry with
  | .error code => { cmd with result := code }
  | .ok buffer =>
      match codec.parseFromString buffer with
      | none => { cmd with result := .invalidRecord }
      | some record => { cmd with localEntryRecord := record }

-- What GetStatus of the Db comes to, after the plog has given the entry.
def takeStatus (cmd : PaxosCmd) (entry : Nat) : Except RetCode Nat → PaxosCmd
  | .ok maxCommittedEntry => { cmd with entry := entry, maxCommittedEntry := maxCommittedEntry }
  | .error code =>
      if code = RetCode.implDbNotFound then { cmd with entry := entry, maxCommittedEntry := 0 } else { cmd with entry := entry, result := code }

-- PlogReadonlyWorker::LoadMaxEntry
def workerLoadMaxEntry (s : PlogImpl S count) (status : Except RetCode Nat) (cmd : PaxosCmd) : Option PaxosCmd :=
  (s.loadMaxEntry db hash cmd.entityId).map fun answer =>
    match answer with
    | .ok entry => takeStatus cmd entry status
    | .error code => if code = RetCode.implPlogNotFound then takeStatus cmd 0 status else { cmd with result := code }

-- One batch of commands, the order of its groups, and how their writes end.
structure PlogBatch (count : Nat) where
  cmds : List PaxosCmd
  order : List (Fin count)
  statuses : Fin count → KvStatus

def wideKey (key : EntryKey) : Bool := key.entityId < 2 ^ 64 ∧ key.entry < 2 ^ 64

-- Every command has its group.
def PlogBatch.fits (batch : PlogBatch count) : Prop := ∀ cmd ∈ batch.cmds, wideKey cmd.key = true ∧ hash cmd.entityId ∈ batch.order

-- How a single command of a batch ends.
def batchOutcome (statuses : Fin count → KvStatus) (cmd : PaxosCmd) : PlogOutcome :=
  if (codec.serializeToString cmd.localEntryRecord).isSome then
    match statuses (hash cmd.entityId) with
    | .ok => .ok
    | .failed applied => .failed .implPlogSetErr applied
  else .failed .invalidRecord false

def PlogBatch.run (s : PlogImpl S count) (batch : PlogBatch count) : List PaxosCmd × PlogImpl S count :=
  setRecords codec db hash s batch.cmds batch.order batch.statuses

end Worker

-- The commands of a batch one after the other.
def Node.setEach {n : Nat} (outcome : PaxosCmd → PlogOutcome) : Node n → List PaxosCmd → List PaxosCmd × Node n
  | s, [] => ([], s)
  | s, cmd :: rest =>
      let first := s.setRecord cmd (outcome cmd)
      let later := setEach outcome first.2 rest
      (first.1 :: later.1, later.2)

section Results

variable {S : Type} {count : Nat} {codec : RecordCodec} {db : KvDb S} {hash : Nat → Fin count}

theorem status_code (s : PlogImpl S count) (hashId : Fin count) (records : List PlogRecord) (status : KvStatus) :
    (s.multiSetRecords db hashId records status).1 = if status = .ok then .ok else .implPlogSetErr := by
  cases status with
  | ok => rfl
  | failed applied =>
      cases applied with
      | true => rfl
      | false => rfl

theorem set_groups_results (cmds : List PaxosCmd) (statuses : Fin count → KvStatus) (order : List (Fin count)) (done : List PaxosCmd)
    (s : PlogImpl S count) : (setGroups codec db hash cmds statuses order done s).1 = done.map fun cmd =>
      if hash cmd.entityId ∈ order ∧ (codec.serializeToString cmd.localEntryRecord).isSome = true ∧ statuses (hash cmd.entityId) ≠ .ok then
        { cmd with result := .implPlogSetErr }
      else cmd := by
  induction order generalizing done s with
  | nil =>
      rw [setGroups]
      refine (List.map_id _).symm.trans (List.map_congr_left fun cmd _ => ?_)
      rw [if_neg (fun wrong => by cases wrong.1)]
      rfl
  | cons hashId order ih =>
      rw [setGroups, ih, status_code, setResults]
      by_cases fine : statuses hashId = .ok
      · rw [if_pos fine, if_pos rfl]
        refine List.map_congr_left fun cmd _ => ?_
        by_cases here : hash cmd.entityId = hashId
        · rw [here, if_neg (fun wrong => wrong.2.2 fine), if_neg (fun wrong => wrong.2.2 fine)]
        · simp only [List.mem_cons, here, false_or]
      · rw [if_neg fine, if_neg (by decide), List.map_map]
        refine List.map_congr_left fun cmd _ => ?_
        rw [Function.comp_apply]
        by_cases here : hash cmd.entityId = hashId ∧ (codec.serializeToString cmd.localEntryRecord).isSome = true
        · have failed : hash cmd.entityId ∈ hashId :: order ∧ (codec.serializeToString cmd.localEntryRecord).isSome = true ∧
              statuses (hash cmd.entityId) ≠ .ok := ⟨by rw [here.1]; exact List.mem_cons_self, here.2, by rw [here.1]; exact fine⟩
          rw [if_pos here, if_pos failed]
          split
          · rfl
          · rfl
        · rw [if_neg here]
          refine if_congr ?_ rfl rfl
          rw [List.mem_cons]
          constructor
          · rintro ⟨later, rest⟩
            exact ⟨.inr later, rest⟩
          · rintro ⟨same | later, rest⟩
            · exact absurd ⟨same, rest.1⟩ here
            · exact ⟨later, rest⟩

theorem set_each_results {n : Nat} (outcome : PaxosCmd → PlogOutcome) (s : Node n) (cmds : List PaxosCmd) :
    (s.setEach outcome cmds).1 = cmds.map fun cmd => (s.setRecord cmd (outcome cmd)).1 := by
  induction cmds generalizing s with
  | nil => rfl
  | cons cmd rest ih =>
      rw [Node.setEach, List.map_cons]
      dsimp only
      rw [ih]
      refine congrArg _ (List.map_congr_left fun other _ => ?_)
      cases outcome other with
      | ok => rfl
      | failed code applied => rfl

def PlogOutcome.stores : PlogOutcome → Bool
  | .ok => true
  | .failed _ applied => applied

-- What a batch adds to the plog of the node.
def setsOf (outcome : PaxosCmd → PlogOutcome) (cmds : List PaxosCmd) : List (EntryKey × EntryRecord) :=
  (cmds.filter fun cmd => (outcome cmd).stores).map fun cmd => (cmd.key, cmd.localEntryRecord)

theorem set_each_plog {n : Nat} (outcome : PaxosCmd → PlogOutcome) (s : Node n) (cmds : List PaxosCmd) :
    (s.setEach outcome cmds).2.plog = (setsOf outcome cmds).reverse ++ s.plog := by
  induction cmds generalizing s with
  | nil => rfl
  | cons cmd rest ih =>
      rw [Node.setEach]
      dsimp only
      rw [ih, setsOf, setsOf, List.filter_cons]
      cases known : outcome cmd with
      | ok => simp [PlogOutcome.stores, Node.setRecord]
      | failed code applied =>
          cases applied with
          | true => simp [PlogOutcome.stores, Node.setRecord]
          | false => simp [PlogOutcome.stores, Node.setRecord]

-- The results of a batch are those of its commands taken one by one.
theorem batch_results {n : Nat} (batch : PlogBatch count) (fits : batch.fits hash) (s : PlogImpl S count) (node : Node n) :
    (batch.run codec db hash s).1 = (node.setEach (batchOutcome codec hash batch.statuses) batch.cmds).1 := by
  rw [PlogBatch.run, setRecords, set_groups_results, set_each_results, List.map_map]
  refine List.map_congr_left fun cmd member => ?_
  rw [Function.comp_apply, batchOutcome]
  by_cases written : (codec.serializeToString cmd.localEntryRecord).isSome = true
  · rw [if_pos written, if_pos written]
    have inside := (fits cmd member).2
    cases status : batch.statuses (hash cmd.entityId) with
    | ok =>
        rw [if_neg (fun wrong => wrong.2.2 rfl)]
        rfl
    | failed applied =>
        rw [if_pos ⟨inside, written, fun wrong => by cases wrong⟩]
        rfl
  · rw [if_neg written, if_neg written, if_neg (fun wrong => written wrong.2.1)]
    rfl

end Results

-- The databases have, in bytes, the records of the node's plog and nothing else.
structure PlogStores {S : Type} {count : Nat} (codec : RecordCodec) (db : KvDb S) (hash : Nat → Fin count) (s : PlogImpl S count)
    (writes : List (PlogKey × Bytes)) (plog : List (EntryKey × EntryRecord)) : Prop where
  holds : PlogHolds db hash s writes
  records : ∀ write ∈ writes, write.1.valueId = 0
  same : ∀ key : EntryKey, (latest writes ⟨key.entityId, key.entry, 0⟩).map some =
    (latest plog.reverse key).map codec.serializeToString

section Stores

variable {S : Type} {count : Nat} {codec : RecordCodec} {db : KvDb S} {hash : Nat → Fin count} {s : PlogImpl S count}

def groupCall (codec : RecordCodec) (hash : Nat → Fin count) (batch : PlogBatch count) (hashId : Fin count) : PlogCall count :=
  .multiSetRecords hashId (groupOf codec hash batch.cmds hashId) (batch.statuses hashId)

theorem group_member (cmds : List PaxosCmd) (hashId : Fin count) (record : PlogRecord) (member : record ∈ groupOf codec hash cmds hashId) :
    ∃ cmd ∈ cmds, hash cmd.entityId = hashId ∧ record.entityId = cmd.entityId ∧ record.entry = cmd.entry := by
  obtain ⟨cmd, there, made⟩ := List.mem_filterMap.mp member
  obtain ⟨inside, here⟩ := List.mem_filter.mp there
  obtain ⟨buffer, _, rfl⟩ := Option.map_eq_some_iff.mp made
  exact ⟨cmd, inside, of_decide_eq_true here, rfl, rfl⟩

theorem group_fits (batch : PlogBatch count) (fits : batch.fits hash) (hashId : Fin count) :
    (groupCall codec hash batch hashId).fits hash = true := by
  refine Bool.and_eq_true_iff.mpr ⟨List.all_eq_true.mpr fun put member => ?_, List.all_eq_true.mpr fun record member => ?_⟩
  · obtain ⟨record, there, rfl⟩ := List.mem_map.mp member
    obtain ⟨cmd, inside, _, entity, entry⟩ := group_member batch.cmds hashId record there
    have wide : _ ∧ _ := of_decide_eq_true (fits cmd inside).1
    refine decide_eq_true ⟨?_, ?_, Nat.two_pow_pos 64⟩
    · rw [entity]
      exact wide.1
    · rw [entry]
      exact wide.2
  · obtain ⟨cmd, _, here, entity, _⟩ := group_member batch.cmds hashId record member
    rw [entity]
    exact decide_eq_true here

theorem set_groups_holds (keeps : db.Keeps) (batch : PlogBatch count) (fits : batch.fits hash) (order : List (Fin count)) (done : List PaxosCmd)
    {writes : List (PlogKey × Bytes)} (holds : PlogHolds db hash s writes) :
    PlogHolds db hash (setGroups codec db hash batch.cmds batch.statuses order done s).2
      (writes ++ order.flatMap fun hashId => (groupCall codec hash batch hashId).applied) := by
  induction order generalizing done s writes with
  | nil =>
      rw [List.flatMap_nil, List.append_nil]
      exact holds
  | cons hashId order ih =>
      rw [setGroups, List.flatMap_cons, ← List.append_assoc]
      refine ih _ (act_holds keeps holds (groupCall codec hash batch hashId) ?_)
      rw [PlogCall.act, if_pos (group_fits batch fits hashId)]
      rfl

-- The records of a group and the commands they are of.
theorem group_sets (outcome : PaxosCmd → PlogOutcome) (cmds : List PaxosCmd) (key : EntryKey)
    (stored : ∀ cmd, hash cmd.entityId = hash key.entityId →
      (outcome cmd).stores = (codec.serializeToString cmd.localEntryRecord).isSome) :
    (latest ((groupOf codec hash cmds (hash key.entityId)).map fun record => (PlogKey.mk record.entityId record.entry 0, record.record))
      ⟨key.entityId, key.entry, 0⟩).map some = (latest (setsOf outcome cmds) key).map codec.serializeToString := by
  induction cmds with
  | nil => rfl
  | cons cmd rest ih =>
      by_cases here : hash cmd.entityId = hash key.entityId
      · have group : groupOf codec hash (cmd :: rest) (hash key.entityId) =
            ((codec.serializeToString cmd.localEntryRecord).map fun buffer => PlogRecord.mk cmd.entityId cmd.entry buffer).toList ++
              groupOf codec hash rest (hash key.entityId) := by
          rw [groupOf, List.filter_cons, if_pos (decide_eq_true here), List.filterMap_cons]
          cases codec.serializeToString cmd.localEntryRecord with
          | none => rfl
          | some buffer => rfl
        have sets : setsOf outcome (cmd :: rest) =
            if (outcome cmd).stores then (cmd.key, cmd.localEntryRecord) :: setsOf outcome rest else setsOf outcome rest := by
          rw [setsOf, List.filter_cons]
          split
          · rfl
          · rfl
        rw [group, sets, stored cmd here]
        cases written : codec.serializeToString cmd.localEntryRecord with
        | none => exact ih
        | some buffer =>
            rw [Option.isSome_some, if_pos rfl, Option.map_some, Option.toList_some, List.singleton_append, List.map_cons, latest_cons, latest_cons, Option.map_or,
              Option.map_or, ih]
            congr 1
            by_cases same : cmd.key = key
            · subst same
              rw [if_pos (rfl : cmd.key = cmd.key), Option.map_some, written]
              exact congrArg _ (if_pos rfl)
            · rw [if_neg same, if_neg, Option.map_none, Option.map_none]
              intro wrong
              obtain ⟨entity, entry, _⟩ := PlogKey.mk.inj wrong
              exact same (EntryKey.mk.injEq _ _ _ _ ▸ ⟨entity, entry⟩)
      · have group : groupOf codec hash (cmd :: rest) (hash key.entityId) = groupOf codec hash rest (hash key.entityId) := by
          rw [groupOf, List.filter_cons, if_neg (fun wrong => here (of_decide_eq_true wrong))]
          rfl
        have sets : latest (setsOf outcome (cmd :: rest)) key = latest (setsOf outcome rest) key := by
          rw [setsOf, List.filter_cons]
          split
          · rw [List.map_cons, latest_cons, if_neg, Option.or_none]
            · rfl
            · rintro rfl
              exact here rfl
          · rfl
        rw [group, sets]
        exact ih

-- What a batch has written under a key.
theorem batch_writes (batch : PlogBatch count) (fits : batch.fits hash) (key : EntryKey) :
    (latest (batch.order.flatMap fun hashId => (groupCall codec hash batch hashId).applied) ⟨key.entityId, key.entry, 0⟩).map some =
      (latest (setsOf (batchOutcome codec hash batch.statuses) batch.cmds) key).map codec.serializeToString := by
  have only (group : Fin count) (other : group ≠ hash key.entityId) :
      latest (groupCall codec hash batch group).applied ⟨key.entityId, key.entry, 0⟩ = none := by
    by_contra wrong
    obtain ⟨buffer, last⟩ := Option.ne_none_iff_exists'.mp wrong
    have member := latest_mem _ _ _ last
    have there : (PlogKey.mk key.entityId key.entry 0, buffer) ∈ (groupCall codec hash batch group).puts := by
      unfold PlogCall.applied at member
      split at member
      · exact member
      · exact member
      · cases member
    obtain ⟨record, inside, same⟩ := List.mem_map.mp there
    obtain ⟨cmd, _, here, entity, _⟩ := group_member batch.cmds group record inside
    have equal := (PlogKey.mk.inj (Prod.mk.inj same).1).1
    rw [← equal, entity] at other
    exact other here.symm
  rw [latest_groups _ batch.order _ (hash key.entityId) only]
  have nothing (absent : ∀ cmd ∈ batch.cmds, hash cmd.entityId = hash key.entityId →
      (batchOutcome codec hash batch.statuses cmd).stores = false) : latest (setsOf (batchOutcome codec hash batch.statuses) batch.cmds) key = none := by
    by_contra wrong
    obtain ⟨record, last⟩ := Option.ne_none_iff_exists'.mp wrong
    obtain ⟨cmd, member, same⟩ := List.mem_map.mp (latest_mem _ _ _ last)
    obtain ⟨inside, stores⟩ := List.mem_filter.mp member
    have equal := (Prod.mk.inj same).1
    rw [absent cmd inside (by rw [← equal]; rfl)] at stores
    cases stores
  by_cases inside : hash key.entityId ∈ batch.order
  · rw [if_pos inside]
    by_cases lost : batch.statuses (hash key.entityId) = .failed false
    · have empty : (groupCall codec hash batch (hash key.entityId)).applied = [] := by
        rw [PlogCall.applied, groupCall, PlogCall.status, lost]
      rw [empty, nothing]
      · rfl
      · intro cmd _ here
        rw [batchOutcome, here, lost]
        split
        · rfl
        · rfl
    · have taken : batch.statuses (hash key.entityId) = .ok ∨ batch.statuses (hash key.entityId) = .failed true := by
        cases status : batch.statuses (hash key.entityId) with
        | ok => exact .inl rfl
        | failed applied =>
            cases applied with
            | true => exact .inr rfl
            | false => exact absurd status lost
      have full : (groupCall codec hash batch (hash key.entityId)).applied = (groupCall codec hash batch (hash key.entityId)).puts := by
        rcases taken with status | status
        · rw [PlogCall.applied, groupCall, PlogCall.status, status]
        · rw [PlogCall.applied, groupCall, PlogCall.status, status]
      rw [full, groupCall, PlogCall.puts]
      refine group_sets _ batch.cmds key fun cmd here => ?_
      rw [batchOutcome, here]
      cases (codec.serializeToString cmd.localEntryRecord).isSome with
      | false => rfl
      | true =>
          rcases taken with status | status
          · rw [status]
            rfl
          · rw [status]
            rfl
  · rw [if_neg inside, nothing, Option.map_none, Option.map_none]
    intro cmd member here
    exact absurd (by rw [← here]; exact (fits cmd member).2) inside

variable {n : Nat} {node : Node n} {writes : List (PlogKey × Bytes)}

theorem stores_start (keeps : db.Keeps) : PlogStores codec db hash (PlogImpl.start db) [] [] :=
  ⟨holds_start keeps, fun _ wrong => (by cases wrong), fun _ => rfl⟩

theorem batch_stores (keeps : db.Keeps) (stores : PlogStores codec db hash s writes node.plog) (batch : PlogBatch count)
    (fits : batch.fits hash) : ∃ later, PlogStores codec db hash (batch.run codec db hash s).2 later
      (node.setEach (batchOutcome codec hash batch.statuses) batch.cmds).2.plog := by
  refine ⟨_, set_groups_holds keeps batch fits batch.order _ stores.holds, fun write member => ?_, fun key => ?_⟩
  · rcases List.mem_append.mp member with old | new
    · exact stores.records write old
    · obtain ⟨hashId, _, there⟩ := List.mem_flatMap.mp new
      have there : write ∈ (groupCall codec hash batch hashId).puts := by
        unfold PlogCall.applied at there
        split at there
        · exact there
        · exact there
        · cases there
      obtain ⟨record, _, rfl⟩ := List.mem_map.mp there
      rfl
  · rw [latest_append, set_each_plog, List.reverse_append, List.reverse_reverse, latest_append, Option.map_or, Option.map_or, stores.same,
      batch_writes batch fits key]

-- A record is read as the plog of the node has it.
theorem get_record_stores (codecKeeps : codec.Keeps) (stores : PlogStores codec db hash s writes node.plog) (fails : Bool) (cmd : PaxosCmd)
    (wide : wideKey cmd.key = true) :
    workerGetRecord codec db hash s fails cmd = node.getRecord cmd (if fails then .failed .implPlogGetErr false else .ok) := by
  have bounds : cmd.entityId < 2 ^ 64 ∧ cmd.entry < 2 ^ 64 := of_decide_eq_true wide
  rw [workerGetRecord, PlogImpl.getRecord]
  cases fails with
  | true => rfl
  | false =>
      rw [read_answers stores.holds _ (decide_eq_true ⟨bounds.1, bounds.2, Nat.two_pow_pos 64⟩), if_neg Bool.false_ne_true, Node.getRecord]
      have same := stores.same cmd.key
      have plog : node.plogRecord cmd.key = latest node.plog.reverse cmd.key := by
        rw [latest, List.reverse_reverse]
        rfl
      rw [← plog] at same
      cases known : node.plogRecord cmd.key with
      | none =>
          rw [known, Option.map_none, Option.map_eq_none_iff] at same
          rw [show latest writes ⟨cmd.entityId, cmd.entry, 0⟩ = none from same]
          rfl
      | some record =>
          rw [known, Option.map_some] at same
          obtain ⟨buffer, last, written⟩ := Option.map_eq_some_iff.mp same
          rw [show latest writes ⟨cmd.entityId, cmd.entry, 0⟩ = some buffer from last, answerOf]
          dsimp only
          rw [codecKeeps record buffer written.symm]

theorem stored_entries (stores : PlogStores codec db hash s writes node.plog) (entityId entry : Nat) :
    (∃ write ∈ writes, write.1.entityId = entityId ∧ write.1.entry = entry) ↔
      ∃ write ∈ node.plog, write.1.entityId = entityId ∧ write.1.entry = entry := by
  have same := congrArg Option.isSome (stores.same ⟨entityId, entry⟩)
  rw [Option.isSome_map, Option.isSome_map] at same
  have left := latest_isSome writes ⟨entityId, entry, 0⟩
  have right := latest_isSome node.plog.reverse ⟨entityId, entry⟩
  rw [same] at left
  constructor
  · rintro ⟨write, member, rfl, rfl⟩
    obtain ⟨record, there⟩ := right.mp (left.mpr ⟨write.2, by rw [← stores.records write member]; exact member⟩)
    exact ⟨_, List.mem_reverse.mp there, rfl, rfl⟩
  · rintro ⟨write, member, rfl, rfl⟩
    obtain ⟨value, there⟩ := left.mp (right.mpr ⟨write.2, List.mem_reverse.mpr member⟩)
    exact ⟨_, there, rfl, rfl⟩

-- The entry that comes out of a plog is the largest of the entity, or 0.
theorem max_entry_largest (plog : List (EntryKey × EntryRecord)) (entityId : Nat) :
    (Site.maxEntryOf plog entityId = 0 ∨ ∃ write ∈ plog, write.1.entityId = entityId ∧ write.1.entry = Site.maxEntryOf plog entityId) ∧
      ∀ write ∈ plog, write.1.entityId = entityId → write.1.entry ≤ Site.maxEntryOf plog entityId := by
  refine ⟨?_, fun write member same => Site.max_entry_bound entityId plog write member same⟩
  have found (start : Nat) (rest : List (EntryKey × EntryRecord)) : rest.foldl
      (fun largest write => if write.1.entityId = entityId then max largest write.1.entry else largest) start = start ∨
      ∃ write ∈ rest, write.1.entityId = entityId ∧ write.1.entry = rest.foldl
        (fun largest write => if write.1.entityId = entityId then max largest write.1.entry else largest) start := by
    induction rest generalizing start with
    | nil => exact .inl rfl
    | cons first rest ih =>
        rw [List.foldl_cons]
        rcases ih (if first.1.entityId = entityId then max start first.1.entry else start) with same | ⟨write, member, mine, largest⟩
        · rw [same]
          split
          · rename_i mine
            rcases Nat.le_total first.1.entry start with low | high
            · exact .inl (Nat.max_eq_left low)
            · exact .inr ⟨first, List.mem_cons_self, mine, (Nat.max_eq_right high).symm⟩
          · exact .inl rfl
        · exact .inr ⟨write, List.mem_cons_of_mem _ member, mine, largest⟩
  exact found 0 plog

theorem load_max_stores (keeps : db.Keeps) (stores : PlogStores codec db hash s writes node.plog) (cmd : PaxosCmd)
    (inside : cmd.entityId + 1 < 2 ^ 64) (status : Except RetCode Nat) :
    workerLoadMaxEntry db hash s status cmd = some (takeStatus cmd (node.maxEntry cmd.entityId) status) := by
  obtain ⟨answer, found, largest⟩ := load_max_answers keeps stores.holds cmd.entityId inside
  obtain ⟨reached, bound⟩ := max_entry_largest node.plog cmd.entityId
  rw [workerLoadMaxEntry, found, Option.map_some]
  cases answer with
  | ok entry =>
      obtain ⟨there, above⟩ := largest
      have same : entry = Site.maxEntryOf node.plog cmd.entityId := by
        obtain ⟨write, member, mine, equal⟩ := (stored_entries stores cmd.entityId entry).mp there
        refine Nat.le_antisymm (equal ▸ bound write member mine) ?_
        rcases reached with zero | top
        · rw [zero]
          exact Nat.zero_le _
        · obtain ⟨write, member, mine, equal⟩ := (stored_entries stores cmd.entityId _).mpr top
          rw [← equal]
          exact above write member mine
      rw [same]
      rfl
  | error code =>
      obtain ⟨rfl, absent⟩ := largest
      have zero : Site.maxEntryOf node.plog cmd.entityId = 0 := by
        refine reached.resolve_right fun top => ?_
        obtain ⟨write, member, mine, _⟩ := (stored_entries stores cmd.entityId _).mpr top
        exact absent write member mine
      dsimp only
      rw [if_pos rfl, ← zero]
      rfl

theorem batches_store (keeps : db.Keeps) (stores : PlogStores codec db hash s writes node.plog) (batches : List (PlogBatch count))
    (fits : ∀ batch ∈ batches, batch.fits hash) : ∃ later,
      PlogStores codec db hash (batches.foldl (fun s batch => (batch.run codec db hash s).2) s) later
        (batches.foldl (fun node batch => (node.setEach (batchOutcome codec hash batch.statuses) batch.cmds).2) node).plog := by
  induction batches generalizing s node writes with
  | nil => exact ⟨writes, stores⟩
  | cons batch rest ih =>
      obtain ⟨later, next⟩ := batch_stores keeps stores batch (fits batch List.mem_cons_self)
      exact ih next fun other member => fits other (List.mem_cons_of_mem _ member)

end Stores

-- The plog workers over the databases do what the node takes its plog to do: after any
-- batches, each grouped by database and each group written or lost as a whole, a further batch
-- ends as its commands would one by one, a record is read as it was set last, and the largest
-- entry of an entity is found, save that of the last entity number.
theorem plog_workers_refine {S : Type} {count n : Nat} (codec : RecordCodec) (codecKeeps : codec.Keeps) (db : KvDb S) (keeps : db.Keeps)
    (hash : Nat → Fin count) (node : Node n) (empty : node.plog = []) (batches : List (PlogBatch count))
    (fits : ∀ batch ∈ batches, batch.fits hash) (s : PlogImpl S count)
    (databases : s = batches.foldl (fun s batch => (batch.run codec db hash s).2) (PlogImpl.start db)) (after : Node n)
    (abstract : after = batches.foldl (fun node batch => (node.setEach (batchOutcome codec hash batch.statuses) batch.cmds).2) node) :
    (∀ batch : PlogBatch count, batch.fits hash →
      (batch.run codec db hash s).1 = (after.setEach (batchOutcome codec hash batch.statuses) batch.cmds).1) ∧
    (∀ fails cmd, wideKey cmd.key = true →
      workerGetRecord codec db hash s fails cmd = after.getRecord cmd (if fails then .failed .implPlogGetErr false else .ok)) ∧
    ∀ cmd maxCommittedEntry, cmd.entityId + 1 < 2 ^ 64 →
      workerLoadMaxEntry db hash s (.ok maxCommittedEntry) cmd = some (after.loadMaxEntry cmd maxCommittedEntry .ok) ∧
      workerLoadMaxEntry db hash s (.error .implDbNotFound) cmd = some (after.loadMaxEntry cmd 0 .ok) := by
  have start : PlogStores codec db hash (PlogImpl.start db) [] node.plog := by
    rw [empty]
    exact stores_start keeps
  obtain ⟨writes, stores⟩ := batches_store keeps start batches fits
  rw [← databases, ← abstract] at stores
  refine ⟨fun batch inside => batch_results batch inside s after, fun fails cmd wide => get_record_stores codecKeeps stores fails cmd wide,
    fun cmd maxCommittedEntry inside => ⟨?_, ?_⟩⟩
  · rw [load_max_stores keeps stores cmd inside]
    rfl
  · rw [load_max_stores keeps stores cmd inside]
    rfl

def promised : EntryRecord := { preparedNum := 3, promisedNum := 3 }

def promisedOnly : RecordCodec where
  serializeToString := fun record => if record = promised then some [8, 3, 16, 3] else none
  parseFromString := fun buffer => if buffer = [8, 3, 16, 3] then some promised else none

theorem promised_only_keeps : promisedOnly.Keeps := by
  intro record buffer written
  change (if record = promised then some [8, 3, 16, 3] else none) = some buffer at written
  split at written
  · rename_i same
    cases written
    rw [same]
    rfl
  · cases written

-- Two groups, of which the second is lost.
def halfBatch : PlogBatch 2 where
  cmds := [{ entityId := 4, entry := 2, localEntryRecord := promised, plogSetRecord := true },
    { entityId := 5, entry := 8, localEntryRecord := promised, plogSetRecord := true }]
  order := [parity 1, parity 0]
  statuses := fun hashId => if hashId = parity 0 then .ok else .failed false

theorem half_batch_refines : ∃ (s : PlogImpl (SortedMap Bytes Bytes) 2) (after : Node 3),
    s = (halfBatch.run promisedOnly sortedDb parity (PlogImpl.start sortedDb)).2 ∧ after.plog = [(⟨4, 2⟩, promised)] ∧
    workerGetRecord promisedOnly sortedDb parity s false { entityId := 4, entry := 2 } = after.getRecord { entityId := 4, entry := 2 } .ok ∧
    workerLoadMaxEntry sortedDb parity s (.ok 1) { entityId := 4 } = some (after.loadMaxEntry { entityId := 4 } 1 .ok) := by
  have fits : ∀ batch ∈ [halfBatch], PlogBatch.fits parity batch := by
    intro batch member
    rw [List.mem_singleton.mp member]
    unfold PlogBatch.fits
    decide
  obtain ⟨_, records, largest⟩ := plog_workers_refine promisedOnly promised_only_keeps sortedDb sorted_db_keeps parity
    (Node.start fun _ => (0 : Fin 3)) rfl [halfBatch] fits _ rfl _ rfl
  exact ⟨_, _, rfl, rfl, records false { entityId := 4, entry := 2 } (by decide), (largest { entityId := 4 } 1 (by decide)).1⟩

end PaxosStore.Certain
