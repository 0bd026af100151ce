import PaxosStore.MemKv.MergeSteps

set_option autoImplicit false

namespace PaxosStore.MemKv

open PaxosStore.PaxosKv
open PaxosStore.Consensus

namespace MergeWorld

section Steps

variable (codec : DataCodec) (packing : LogPacking) (s : MergeWorld) (inv : Whole packing s)

include inv

-- Records may go if those memory refers to and those of Writes in flight stay, and
-- if a record of a write file goes only with the ones before it.
theorem shrink_whole (newer : List Item) (fewer : ∀ item ∈ newer, item ∈ s.files)
    (stored : ∀ key record item, s.records key = some record → item ∈ s.files → item.record.key = key → item.fileNo = record.fileNo → item ∈ newer)
    (flights : ∀ write ∈ s.writing, write.item ∈ newer)
    (order : ∀ item ∈ s.files, item ∉ newer → ∀ other ∈ newer, 0 < other.fileNo → ¬ other.Before item) :
    Whole packing { s with files := newer, pass := none } := by
  refine ⟨inv.positive, inv.negative, fun item here => inv.ranged item (fewer item here),
    fun item here other there => inv.apart item (fewer item here) other (fewer other there), inv.listed, fun key record held => ?_,
    fun key free clean item here => inv.absent key free clean item (fewer item here), fun write here => ?_, fun _ wrong => by cases wrong⟩
  · obtain ⟨log, kept⟩ := inv.kept key record held
    obtain ⟨item, above, place⟩ := kept.stored
    have stays := stored key record item held above.1 above.2.1 place
    refine ⟨log, kept.packed, ⟨item, above_frame packing _ _ _ _ key log item above stays fun other here _ merged => .inl ⟨fewer other here, merged⟩, place⟩,
      fun clean => ?_⟩
    obtain ⟨top, past⟩ := kept.latest clean
    by_cases remains : top ∈ newer
    · exact ⟨top, above_frame packing _ _ _ _ key log top past remains fun other here _ settled => .inl ⟨fewer other here, settled⟩⟩
    · refine ⟨item, stays, above.2.1, above.2.2.1, fun other here same settled => ?_⟩
      rcases past.2.2.2 other (fewer other here) same settled with copy | before
      · exact .inl copy
      · rcases inv.ranged other (fewer other here) with ⟨positive, _⟩ | ⟨_, merged⟩
        · exact absurd before (order top past.1 remains other here positive)
        · exact above.2.2.2 other (fewer other here) same merged
  · have flying := inv.flying write here
    exact ⟨flights write here, fun item there => flying.fresh item (fewer item there), flying.packs, flying.filled, flying.positive⟩

-- What memory refers to has left the merged files.
theorem finish_clear (pass : Pass) (at_ : s.pass = some pass) (due : ∀ key ∈ pass.due, key ∈ pass.visited) (worked : pass.hits = [])
    (idle : pass.updating = none) (key : UInt64) (record : MemRecord) (held : s.records key = some record) : record.fileNo ∉ pass.vecFile := by
  intro inside
  rcases (inv.going pass at_).covered key record held inside with ⟨listed, unseen⟩ | ⟨hit, here, _⟩ | ⟨_, busy⟩
  · exact unseen (due key listed)
  · rw [worked] at here
    cases here
  · rw [idle] at busy
    cases busy

theorem finish_whole (next : MergeWorld) (done : s.finish = some next) : Whole packing next := by
  unfold finish at done
  obtain ⟨pass, at_, done⟩ := Option.bind_eq_some_iff.mp done
  split at done
  · rename_i past
    cases done
    obtain ⟨due, worked, idle⟩ := past
    have going := inv.going pass at_
    refine shrink_whole packing s inv _ (fun item here => (List.mem_filter.mp here).1) (fun key record item held here _ place => ?_)
      (fun write here => ?_) (fun item here gone other there positive before => ?_)
    · refine List.mem_filter.mpr ⟨here, decide_eq_true ?_⟩
      rw [place]
      exact finish_clear packing s inv pass at_ (by simpa using due) worked idle key record held
    · exact List.mem_filter.mpr ⟨(inv.flying write here).here, decide_eq_true (going.free write here)⟩
    · obtain ⟨known, outside⟩ := List.mem_filter.mp there
      have inside : item.fileNo ∈ pass.vecFile := by
        by_contra free
        exact gone (List.mem_filter.mpr ⟨here, decide_eq_true free⟩)
      refine of_decide_eq_true outside (going.closed other known item.fileNo inside positive ?_)
      rcases before with ⟨below, _⟩ | ⟨below, _⟩ | ⟨_, less⟩ | ⟨same, _⟩
      all_goals omega
  · cases done

theorem give_up_whole (lost : List Hit) (next : MergeWorld) (done : s.giveUp lost = some next) : Whole packing next := by
  unfold giveUp at done
  obtain ⟨pass, at_, done⟩ := Option.map_eq_some_iff.mp done
  subst done
  have going := inv.going pass at_
  -- Only copies with a hit go.
  have gone : ∀ item ∈ s.files, item ∉ s.files.filter (fun item => !pass.hits.any fun hit => hit ∈ lost && item.fileNo = hit.fileNo && item.offset = hit.offset) →
      ∃ hit ∈ pass.hits, item.record.key = hit.key ∧ item.fileNo = hit.fileNo := by
    intro item here absent
    have dropped : pass.hits.any (fun hit => hit ∈ lost && item.fileNo = hit.fileNo && item.offset = hit.offset) = true := by
      by_contra stays
      exact absent (List.mem_filter.mpr ⟨here, by simpa using stays⟩)
    obtain ⟨hit, waiting, same⟩ := List.any_eq_true.mp dropped
    simp only [Bool.and_eq_true, decide_eq_true_eq] at same
    obtain ⟨copy, present, name, file, place, _⟩ := (going.hits hit waiting).copied
    have equal := inv.apart item here copy present (same.1.2.trans file.symm) (same.2.trans place.symm)
    exact ⟨hit, waiting, by rw [equal, name], same.1.2⟩
  refine shrink_whole packing s inv _ (fun item here => (List.mem_filter.mp here).1) (fun key record item held here name place => ?_)
    (fun write here => ?_) (fun item here absent other there positive before => ?_)
  · by_contra absent
    obtain ⟨hit, waiting, same, file⟩ := gone item here absent
    have pending := going.hits hit waiting
    rw [name] at same
    subst same
    rw [place] at file
    rcases pending.moved record held with old | positive
    · refine pending.outside ?_
      rw [← file, old]
      exact pending.inside
    · have negative := pending.negative
      omega
  · by_contra absent
    obtain ⟨hit, waiting, _, file⟩ := gone _ (inv.flying write here).here absent
    have negative := (going.hits hit waiting).negative
    have positive := (inv.flying write here).positive
    have same : write.fileNo = hit.fileNo := file
    omega
  · obtain ⟨hit, waiting, _, file⟩ := gone item here absent
    have negative := (going.hits hit waiting).negative
    rcases before with ⟨below, _⟩ | ⟨below, _⟩ | ⟨_, less⟩ | ⟨same, _⟩
    all_goals omega

theorem careful_whole (step : WorldStep) (next : MergeWorld) (done : s.carefulAct codec packing step = some next) : Whole packing next := by
  unfold carefulAct at done
  split at done
  · rename_i allowed
    cases step with
    | add key log version offset => exact add_whole packing s inv key log version offset next done
    | set key code => exact set_whole packing s inv key code next allowed done
    | rotate =>
        cases done
        have more := inv.positive
        refine ⟨by dsimp only; omega, inv.negative, fun item here => ?_, inv.apart, inv.listed, inv.kept, inv.absent, inv.flying, fun pass at_ => ?_⟩
        · have place := inv.ranged item here
          dsimp only
          omega
        · have going := inv.going pass at_
          refine ⟨fun number inside => ?_, going.closed, going.free, going.hits, going.single, going.busy, going.covered⟩
          have bounds := going.range number inside
          dsimp only
          omega
    | rotateMerge =>
        cases done
        have less := inv.negative
        refine ⟨inv.positive, by dsimp only; omega, fun item here => ?_, inv.apart, inv.listed, inv.kept, inv.absent, inv.flying, fun pass at_ => ?_⟩
        · have place := inv.ranged item here
          dsimp only
          omega
        · have going := inv.going pass at_
          refine ⟨fun number inside => ?_, going.closed, going.free, going.hits, going.single, going.busy, going.covered⟩
          have bounds := going.range number inside
          dsimp only
          omega
    | start vecFile => exact start_whole packing s inv vecFile next allowed done
    | visit key broken offset => exact visit_whole codec packing s inv key broken offset next allowed done
    | get => exact get_whole packing s inv next done
    | update => exact update_whole packing s inv next done
    | giveUp lost => exact give_up_whole packing s inv lost next done
    | finish => exact finish_whole packing s inv next done
  · cases done

end Steps

section Results

variable (codec : DataCodec) (packing : LogPacking)

-- The record that memory refers to is in its file, and loading the files gives
-- every key of which no Write is half done the log that memory has.
structure Intact (s : MergeWorld) : Prop where
  present : ∀ key record, s.records key = some record → ∃ log item, newHeadToPlog packing.toLogCodec record = some log ∧ item ∈ s.files ∧
    item.record.key = key ∧ item.fileNo = record.fileNo ∧ decodeLog packing.toLogCodec item.record = some log
  reloads : ∀ (path : DataPath) (dumpLen : PaxosLog → Nat) (memIdxSize workerCnt : Nat) (loading : Loading),
    (∀ item, item ∈ path.items ↔ item ∈ s.files) →
    Reaches (Loading.act codec packing.toLogCodec dumpLen memIdxSize workerCnt) path.start loading → loading.Finished →
    ∀ key, key ∉ s.stray → (∀ write ∈ s.writing, write.key ≠ key) →
      (loading.memkv key).map (·.log) = (s.records key).bind (newHeadToPlog packing.toLogCodec)

theorem whole_intact (s : MergeWorld) (whole : Whole packing s) : Intact codec packing s := by
  refine ⟨fun key record held => ?_, fun path dumpLen memIdxSize workerCnt loading same run finished key clean idle => ?_⟩
  · obtain ⟨log, kept⟩ := whole.kept key record held
    obtain ⟨item, above, place⟩ := kept.stored
    exact ⟨log, item, packed_log packing record log kept.packed, above.1, above.2.1, place, above.2.2.1⟩
  · have settled : ∀ item : Item, item.record.key = key → Settled s.writing item := by
      rintro item equal write here rfl
      exact idle write here equal
    rcases Loading.loaded_first codec packing.toLogCodec dumpLen memIdxSize workerCnt path loading run finished key with
      ⟨empty, nothing⟩ | ⟨head, item, loaded, first, loads⟩
    · rw [empty]
      cases held : s.records key with
      | none => rfl
      | some record =>
          obtain ⟨log, kept⟩ := whole.kept key record held
          obtain ⟨item, above, _⟩ := kept.stored
          exact absurd above.2.1 (nothing item ((same item).mpr above.1))
    · have last := first_read_last path key item first
      have decoded := loads_log codec packing.toLogCodec dumpLen item head loads
      have there := (same item).mp last.1
      rw [loaded]
      cases held : s.records key with
      | none => exact absurd (settled item last.2.1) (whole.absent key held clean item there last.2.1)
      | some record =>
          obtain ⟨log, kept⟩ := whole.kept key record held
          obtain ⟨top, above⟩ := kept.latest clean
          have equal := last_decodes packing path s.files (Settled s.writing) key log top item same above last (settled item last.2.1)
          rw [Option.map_some, Option.bind_some, packed_log packing record log kept.packed, ← decoded, equal]

-- However Writes and merges take turns: as long as every step is careful, nothing
-- that memory refers to is lost, and when a merge is over the merged files are
-- not needed any more.
theorem merge_loses_nothing (s t : MergeWorld) (start : Whole packing s) (run : Reaches (carefulAct codec packing) s t) :
    Intact codec packing t ∧ ∀ pass next, t.pass = some pass → t.finish = some next →
      Intact codec packing next ∧ next.records = t.records ∧ ∀ item ∈ next.files, item ∈ t.files ∧ item.fileNo ∉ pass.vecFile := by
  have whole := run_invariant (carefulAct codec packing) (Whole packing) (fun u step v inv done => careful_whole codec packing u inv step v done)
    s t start run
  refine ⟨whole_intact codec packing t whole, fun pass next at_ done => ⟨whole_intact codec packing next (finish_whole packing t whole next done), ?_⟩⟩
  rw [finish, at_, Option.bind_some] at done
  split at done
  · cases done
    refine ⟨rfl, fun item here => ?_⟩
    obtain ⟨known, outside⟩ := List.mem_filter.mp here
    exact ⟨known, of_decide_eq_true outside⟩
  · cases done

theorem whole_start : Whole packing {} :=
  ⟨by decide, by decide, fun _ wrong => (by cases wrong), fun _ wrong => (by cases wrong), fun _ _ wrong => (by cases wrong),
    fun _ _ wrong => (by cases wrong), fun _ _ _ _ wrong => (by cases wrong), fun _ wrong => (by cases wrong), fun _ wrong => by cases wrong⟩

end Results

-- The two promises of the samples; they are too short to be compressed.
def samplePacking : LogPacking where
  unCompresse := List.tail?
  parseFromArray := Loading.sampleLogs.parseFromArray
  serializeToString := fun log =>
    if log = [(1, { promisedNum := some 65537 })] then some Loading.oldRecord.body
    else if log = [(1, { promisedNum := some 131074 })] then some Loading.newRecord.body
    else none
  rawCompress := List.cons 0
  parse_serialize := by
    intro log raw written
    split at written
    · rename_i same
      cases written
      rw [same]
      rfl
    · split at written
      · rename_i same
        cases written
        rw [same]
        rfl
      · cases written
  expand_compress := zero_head_expands

-- The file of the key is merged, but reading the key in memory fails, which
-- clsMemIdx::Visit does not report.
def unseenRun : List WorldStep :=
  [.add 7 [(1, { promisedNum := some 65537 })] 0 4108, .set 7 0, .rotate, .start [1], .visit 7 true 4108, .finish]

def unseen : MergeWorld := endOf (act DBImpl.wireCodec samplePacking) {} unseenRun

theorem merge_loses_unseen :
    ¬ ∀ codec packing s t, Whole packing s → Reaches (act codec packing) s t → Intact codec packing t := by
  intro always
  have intact := always DBImpl.wireCodec samplePacking {} unseen (whole_start samplePacking) (reaches_end _ _ _ (by decide +kernel))
  have held : unseen.records 7 = some ⟨1, false, Loading.oldRecord.body⟩ := by decide +kernel
  have empty : unseen.files = [] := by decide +kernel
  obtain ⟨_, item, _, here, _⟩ := intact.present 7 _ held
  rw [empty] at here
  cases here

-- The same with a visit that copies the record, and a Write meanwhile.
def copied : MergeWorld :=
  endOf (carefulAct DBImpl.wireCodec samplePacking) {}
    [.add 7 [(1, { promisedNum := some 65537 })] 0 4108, .set 7 0, .add 8 [(1, { promisedNum := some 65537 })] 0 4160, .set 8 0, .rotate, .start [1],
      .visit 7 false 4108, .visit 8 false 4160, .add 8 [(1, { promisedNum := some 131074 })] 0 4108, .set 8 0, .get, .update, .get]

theorem copied_intact : Intact DBImpl.wireCodec samplePacking copied ∧ copied.finish.isSome = true :=
  ⟨(merge_loses_nothing DBImpl.wireCodec samplePacking {} copied (whole_start samplePacking) (reaches_end _ _ _ (by decide +kernel))).1, by decide +kernel⟩

end MergeWorld

end PaxosStore.MemKv
