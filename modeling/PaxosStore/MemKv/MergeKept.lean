import PaxosStore.MemKv.MergeFiles

set_option autoImplicit false

namespace PaxosStore.MemKv

open PaxosStore.PaxosKv
open PaxosStore.Consensus

section Records

variable (packing : LogPacking)

-- The data of a record are the serialized log, or that compressed.
def Packed (record : MemRecord) (log : PaxosLog) : Prop :=
  ∃ raw, packing.serializeToString log = some raw ∧ raw ≠ [] ∧
    (record.compressed = false ∧ record.data = raw ∨ record.compressed = true ∧ record.data = packing.rawCompress raw)

theorem packed_log (record : MemRecord) (log : PaxosLog) (packed : Packed packing record log) :
    newHeadToPlog packing.toLogCodec record = some log := by
  obtain ⟨raw, written, filled, ⟨plain, data⟩ | ⟨small, data⟩⟩ := packed
  · rw [newHeadToPlog, plain, if_neg (by decide), data]
    exact packing.parse_serialize log raw written
  · rw [newHeadToPlog, if_pos small, data, (packing.expand_compress raw filled).2, Option.bind_some]
    exact packing.parse_serialize log raw written

theorem set_packed (fileNo : Int) (raw : List UInt8) (old : Option MemRecord) (log : PaxosLog)
    (written : packing.serializeToString log = some raw) (filled : raw ≠ []) :
    Packed packing (setMemRecord packing fileNo raw old) log ∧ (setMemRecord packing fileNo raw old).fileNo = fileNo := by
  have fresh : Packed packing (plogToNewHead packing fileNo raw) log ∧ (plogToNewHead packing fileNo raw).fileNo = fileNo := by
    unfold plogToNewHead
    split
    · exact ⟨⟨raw, written, filled, .inl ⟨rfl, rfl⟩⟩, rfl⟩
    · exact ⟨⟨raw, written, filled, .inr ⟨rfl, rfl⟩⟩, rfl⟩
  unfold setMemRecord
  split
  · exact fresh
  · split
    · exact ⟨⟨raw, written, filled, .inl ⟨rfl, rfl⟩⟩, rfl⟩
    · exact fresh

-- What the merge copies decodes to the log of the record, compressed or not.
theorem copy_decodes (codec : DataCodec) (key : UInt64) (record : MemRecord) (log : PaxosLog) (copy : RawRecord)
    (packed : Packed packing record log) (made : onHead codec packing.toLogCodec key record = some copy) :
    copy.key = key ∧ decodeLog packing.toLogCodec copy = some log := by
  have known := packed_log packing record log packed
  obtain ⟨raw, written, filled, form⟩ := packed
  obtain ⟨clear, same⟩ := (asserting_some _ _ _).mp made
  cases same
  refine ⟨rfl, ?_⟩
  rcases form with ⟨plain, data⟩ | ⟨small, data⟩
  · rw [newHeadToPlog, plain, if_neg (by decide)] at known
    dsimp only [decodeLog]
    rw [plain, if_neg Bool.false_ne_true, Nat.add_zero, if_pos clear]
    exact known
  · obtain ⟨some_, expands⟩ := packing.expand_compress raw filled
    have odd : ¬ (((((newHeadToPlog packing.toLogCodec record).bind (Head.chosenInfo codec)).getD {}).flag + recordCompresse) /
        recordCompresse % 2 = 0) := by
      rw [Nat.add_div_right _ (by decide)]
      omega
    dsimp only [decodeLog]
    rw [if_pos small, if_neg odd, data, if_neg some_, expands, Option.bind_some, if_neg filled]
    exact packing.parse_serialize log raw written

-- A record of the key that decodes to the log; the records of some kind that do
-- not come before it decode to the same.
def Above (files : List Item) (kind : Item → Prop) (key : UInt64) (log : PaxosLog) (item : Item) : Prop :=
  item ∈ files ∧ item.record.key = key ∧ decodeLog packing.toLogCodec item.record = some log ∧
    ∀ other ∈ files, other.record.key = key → kind other → decodeLog packing.toLogCodec other.record = some log ∨ other.Before item

theorem above_frame (files newer : List Item) (kind newKind : Item → Prop) (key : UInt64) (log : PaxosLog) (item : Item)
    (above : Above packing files kind key log item) (stays : item ∈ newer)
    (known : ∀ other ∈ newer, other.record.key = key → newKind other →
      (other ∈ files ∧ kind other) ∨ decodeLog packing.toLogCodec other.record = some log) :
    Above packing newer newKind key log item := by
  obtain ⟨_, same, decodes, rest⟩ := above
  refine ⟨stays, same, decodes, fun other here equal fits => ?_⟩
  rcases known other here equal fits with ⟨old, fitted⟩ | copy
  · exact rest other old equal fitted
  · exact .inl copy

def Merged (item : Item) : Prop := item.fileNo < 0

-- Not the record of a Write that is in flight.
def Settled (writing : List FileWrite) (item : Item) : Prop := ∀ write ∈ writing, item ≠ write.item

structure Kept (files : List Item) (writing : List FileWrite) (stray : List UInt64) (key : UInt64) (record : MemRecord) (log : PaxosLog) :
    Prop where
  packed : Packed packing record log
  stored : ∃ item, Above packing files Merged key log item ∧ item.fileNo = record.fileNo
  latest : key ∉ stray → ∃ item, Above packing files (Settled writing) key log item

structure Flying (files : List Item) (write : FileWrite) : Prop where
  here : write.item ∈ files
  fresh : ∀ item ∈ files, item.record.key = write.key → item = write.item ∨ item.Before write.item
  packs : ∃ log, packing.serializeToString log = some write.raw
  filled : write.raw ≠ []
  positive : 0 < write.fileNo

theorem write_decodes (write : FileWrite) (log : PaxosLog) (written : packing.serializeToString log = some write.raw) :
    decodeLog packing.toLogCodec write.item.record = some log := by
  rw [decodeLog, if_pos (show write.item.record.flag / recordCompresse % 2 = 0 by simp [FileWrite.item])]
  exact packing.parse_serialize log write.raw written

-- A Write is the last of its key.
theorem flying_above (files : List Item) (kind : Item → Prop) (write : FileWrite) (log : PaxosLog) (flying : Flying packing files write)
    (written : packing.serializeToString log = some write.raw) : Above packing files kind write.key log write.item := by
  have own := write_decodes packing write log written
  refine ⟨flying.here, rfl, own, fun other here equal _ => ?_⟩
  rcases flying.fresh other here equal with rfl | before
  · exact .inl own
  · exact .inr before

-- A hit not yet worked off: its copy is the last in the merge files, and the same
-- as the record in memory unless a Write has come in between.
structure Pending (files : List Item) (records : UInt64 → Option MemRecord) (pass : Pass) (hit : Hit) : Prop where
  inside : hit.oldFileNo ∈ pass.vecFile
  outside : hit.fileNo ∉ pass.vecFile
  negative : hit.fileNo < 0
  seen : hit.key ∈ pass.visited
  moved : ∀ record, records hit.key = some record → record.fileNo = hit.oldFileNo ∨ 0 < record.fileNo
  copied : ∃ copy ∈ files, copy.record.key = hit.key ∧ copy.fileNo = hit.fileNo ∧ copy.offset = hit.offset ∧
    (∀ other ∈ files, other.record.key = hit.key → Merged other → other = copy ∨ other.Before copy) ∧
    ∀ record log, records hit.key = some record → record.fileNo = hit.oldFileNo → Packed packing record log →
      decodeLog packing.toLogCodec copy.record = some log

-- The merge of some files. Whatever memory still has in them is to be visited,
-- has a hit, or is being updated.
structure Going (s : MergeWorld) (pass : Pass) : Prop where
  range : ∀ number ∈ pass.vecFile, number < s.current ∧ s.mergeNo < number
  closed : ∀ item ∈ s.files, ∀ number ∈ pass.vecFile, 0 < item.fileNo → item.fileNo ≤ number → item.fileNo ∈ pass.vecFile
  free : ∀ write ∈ s.writing, write.fileNo ∉ pass.vecFile
  hits : ∀ hit ∈ pass.hits, Pending packing s.files s.records pass hit
  single : ((pass.updating.map (·.1)).toList ++ pass.hits.map (·.key)).Nodup
  busy : ∀ key fileNo, pass.updating = some (key, fileNo) → ∃ hit, hit.key = key ∧ hit.fileNo = fileNo ∧
    Pending packing s.files s.records pass hit ∧ ∃ record, s.records key = some record ∧ record.fileNo = hit.oldFileNo
  covered : ∀ key record, s.records key = some record → record.fileNo ∈ pass.vecFile →
    (key ∈ pass.due ∧ key ∉ pass.visited) ∨ (∃ hit ∈ pass.hits, hit.key = key ∧ hit.oldFileNo = record.fileNo) ∨
      ∃ fileNo, pass.updating = some (key, fileNo)

structure Whole (s : MergeWorld) : Prop where
  positive : 0 < s.current
  negative : s.mergeNo < 0
  ranged : ∀ item ∈ s.files, 0 < item.fileNo ∧ item.fileNo ≤ s.current ∨ s.mergeNo ≤ item.fileNo ∧ item.fileNo < 0
  apart : ∀ item ∈ s.files, ∀ other ∈ s.files, item.fileNo = other.fileNo → item.offset = other.offset → item = other
  listed : ∀ key record, s.records key = some record → key ∈ s.keys
  kept : ∀ key record, s.records key = some record → ∃ log, Kept packing s.files s.writing s.stray key record log
  absent : ∀ key, s.records key = none → key ∉ s.stray → ∀ item ∈ s.files, item.record.key = key → ¬ Settled s.writing item
  flying : ∀ write ∈ s.writing, Flying packing s.files write
  going : ∀ pass, s.pass = some pass → Going packing s pass

theorem kept_frame (files newer : List Item) (writing next : List FileWrite) (stray more : List UInt64) (key : UInt64) (record : MemRecord)
    (log : PaxosLog) (kept : Kept packing files writing stray key record log)
    (stays : ∀ item ∈ files, item.record.key = key → item ∈ newer)
    (known : ∀ other ∈ newer, other.record.key = key → (other ∈ files ∧ (Settled next other → Settled writing other)) ∨
      decodeLog packing.toLogCodec other.record = some log ∨ ¬ Merged other ∧ ¬ Settled next other)
    (strays : key ∈ stray → key ∈ more) : Kept packing newer next more key record log := by
  refine ⟨kept.packed, ?_, fun clean => ?_⟩
  · obtain ⟨item, above, place⟩ := kept.stored
    refine ⟨item, above_frame packing _ newer _ _ key log item above (stays item above.1 above.2.1) fun other here same merged => ?_, place⟩
    rcases known other here same with ⟨old, _⟩ | copy | ⟨written, _⟩
    · exact .inl ⟨old, merged⟩
    · exact .inr copy
    · exact absurd merged written
  · obtain ⟨item, above⟩ := kept.latest fun lost => clean (strays lost)
    refine ⟨item, above_frame packing _ newer _ _ key log item above (stays item above.1 above.2.1) fun other here same settled => ?_⟩
    rcases known other here same with ⟨old, settles⟩ | copy | ⟨_, flying⟩
    · exact .inl ⟨old, settles settled⟩
    · exact .inr copy
    · exact absurd settled flying

theorem pending_frame (files newer : List Item) (records next : UInt64 → Option MemRecord) (pass later : Pass) (hit : Hit)
    (pending : Pending packing files records pass hit) (range : later.vecFile = pass.vecFile) (visited : ∀ key ∈ pass.visited, key ∈ later.visited)
    (stays : ∀ item ∈ files, item.record.key = hit.key → item ∈ newer)
    (known : ∀ item ∈ newer, item.record.key = hit.key → Merged item → item ∈ files)
    (writes : ∀ record, next hit.key = some record → records hit.key = some record ∨ 0 < record.fileNo ∧ record.fileNo ∉ pass.vecFile) :
    Pending packing newer next later hit := by
  obtain ⟨copy, present, same, file, place, last, decodes⟩ := pending.copied
  refine ⟨?_, ?_, pending.negative, visited _ pending.seen, fun record held => ?_, copy, stays copy present same, same, file, place,
    fun other here equal merged => last other (known other here equal merged) equal merged, fun record log held old packed => ?_⟩
  · rw [range]
    exact pending.inside
  · rw [range]
    exact pending.outside
  · rcases writes record held with before | ⟨positive, _⟩
    · exact pending.moved record before
    · exact .inr positive
  · rcases writes record held with before | ⟨_, free⟩
    · exact decodes record log before old packed
    · rw [old] at free
      exact absurd pending.inside free

theorem loads_log (codec : DataCodec) (logs : LogCodec) (dumpLen : PaxosLog → Nat) (item : Item) (head : Head) (loads : Loading.Loads codec logs dumpLen item head) :
    decodeLog logs item.record = some head.log := by
  obtain ⟨info, log, read, _, rfl⟩ := loads
  obtain ⟨_, read⟩ := (asserting_some _ _ _).mp read
  split at read
  · cases read
  · rename_i text decoded
    obtain ⟨_, read⟩ := (asserting_some _ _ _).mp read
    obtain ⟨result, _, read⟩ := Option.bind_eq_some_iff.mp read
    split at read
    · cases read
    · obtain ⟨_, read⟩ := (asserting_some _ _ _).mp read
      cases read
      exact decoded

theorem before_irrefl (left right : Item) (one : left.Before right) (two : right.Before left) : False := by
  unfold Item.Before at one two
  omega

-- The record that is loaded last decodes like the one above all others.
theorem last_decodes (path : DataPath) (files : List Item) (kind : Item → Prop) (key : UInt64) (log : PaxosLog) (top item : Item)
    (same : ∀ item, item ∈ path.items ↔ item ∈ files) (above : Above packing files kind key log top) (last : LastOf path key item) (fits : kind item) :
    decodeLog packing.toLogCodec item.record = some log := by
  rcases last.2.2 top ((same top).mpr above.1) above.2.1 with rfl | before
  · exact above.2.2.1
  · rcases above.2.2.2 item ((same item).mp last.1) last.2.1 fits with copy | after
    · exact copy
    · exact (before_irrefl top item before after).elim

-- A record that is appended to its file has a place of its own.
theorem append_apart (files : List Item) (new : Item)
    (apart : ∀ item ∈ files, ∀ other ∈ files, item.fileNo = other.fileNo → item.offset = other.offset → item = other)
    (later : ∀ item ∈ files, item.fileNo = new.fileNo → item.offset < new.offset) :
    ∀ item ∈ files ++ [new], ∀ other ∈ files ++ [new], item.fileNo = other.fileNo → item.offset = other.offset → item = other := by
  intro item here other there file place
  rw [List.mem_append, List.mem_singleton] at here there
  rcases here with old | rfl
  · rcases there with older | rfl
    · exact apart item old other older file place
    · have less := later item old file
      omega
  · rcases there with older | rfl
    · have less := later other older file.symm
      omega
    · rfl

end Records

end PaxosStore.MemKv
