import PaxosStore.MemKv.MergeKept

set_option autoImplicit false

namespace PaxosStore.MemKv

open PaxosStore.PaxosKv
open PaxosStore.Consensus

namespace MergeWorld

section Steps

variable (codec : DataCodec) (packing : LogPacking) (s : MergeWorld) (inv : Whole packing s)

include inv

theorem add_whole (key : UInt64) (log : PaxosLog) (version offset : Nat) (next : MergeWorld)
    (done : s.add packing key log version offset = some next) : Whole packing next := by
  unfold add at done
  split at done
  · cases done
  · rename_i guard
    rw [not_or] at guard
    obtain ⟨idle, above⟩ := guard
    obtain ⟨raw, written, done⟩ := Option.bind_eq_some_iff.mp done
    obtain ⟨filled, same⟩ := (asserting_some _ _ _).mp done
    rw [Option.some.injEq] at same
    obtain ⟨write, shape⟩ : ∃ write : FileWrite, write = ⟨key, s.current, offset, version % 2 ^ 32, raw⟩ := ⟨_, rfl⟩
    rw [← shape] at same
    have file : write.item.fileNo = s.current := by rw [shape]; rfl
    have named : write.item.record.key = key := by rw [shape]; rfl
    have later : ∀ item ∈ s.files, item.fileNo = s.current → item.offset < write.item.offset := by
      intro item here equal
      have less : ∀ item ∈ s.files, item.fileNo = s.current → item.offset < offset := by simpa using above
      have place : write.item.offset = offset := by rw [shape]; rfl
      rw [place]
      exact less item here equal
    have others : ∀ other ∈ s.writing, other.key ≠ key := by simpa using idle
    have flies : ¬ Settled (write :: s.writing) write.item := fun settled => settled write List.mem_cons_self rfl
    have settles : ∀ item, Settled (write :: s.writing) item → Settled s.writing item :=
      fun item settled other here => settled other (List.mem_cons_of_mem _ here)
    have current := inv.positive
    have new : ∀ item, item ∈ s.files ++ [write.item] → item ∈ s.files ∨ item = write.item := by
      intro item here
      simpa using here
    have unmerged : ¬ Merged write.item := by
      rw [Merged, file]
      omega
    subst same
    refine ⟨current, inv.negative, fun item here => ?_, append_apart s.files write.item inv.apart fun item here equal => later item here (equal.trans file),
      inv.listed, fun other record held => ?_, fun other free clean item here equal => ?_, fun other here => ?_, fun pass at_ => ?_⟩
    · rcases new item here with old | rfl
      · exact inv.ranged item old
      · rw [file]
        exact .inl ⟨current, le_refl _⟩
    · obtain ⟨kept, known⟩ := inv.kept other record held
      refine ⟨kept, kept_frame packing _ _ _ _ _ _ other record kept known (fun item here _ => List.mem_append_left _ here) (fun item here _ => ?_) id⟩
      rcases new item here with old | rfl
      · exact .inl ⟨old, settles item⟩
      · exact .inr (.inr ⟨unmerged, flies⟩)
    · rcases new item here with old | rfl
      · exact fun settled => inv.absent other free clean item old equal (settles item settled)
      · exact flies
    · rcases List.mem_cons.mp here with rfl | before
      · refine ⟨List.mem_append_right _ List.mem_cons_self, fun item there equal => ?_, ⟨log, ?_⟩, ?_, ?_⟩
        · rcases new item there with old | rfl
          · right
            rcases inv.ranged item old with ⟨above_, most⟩ | ⟨_, below⟩
            · rcases Int.lt_or_eq_of_le most with less | same
              · exact .inr (.inr (.inl ⟨above_, by rw [file]; exact less⟩))
              · exact .inr (.inr (.inr ⟨by rw [file]; exact same, later item old same⟩))
            · exact .inl ⟨below, by rw [file]; exact current⟩
          · exact .inl rfl
        · rw [shape]
          exact written
        · rw [shape]
          exact filled
        · rw [shape]
          exact current
      · have flying := inv.flying other before
        refine ⟨List.mem_append_left _ flying.here, fun item there equal => ?_, flying.packs, flying.filled, flying.positive⟩
        rcases new item there with old | rfl
        · exact flying.fresh item old equal
        · exact absurd (equal.symm.trans named) (others other before)
    · have going := inv.going pass at_
      have frame : ∀ hit, Pending packing s.files s.records pass hit → Pending packing (s.files ++ [write.item]) s.records pass hit := by
        intro hit pending
        refine pending_frame packing _ _ _ _ pass pass hit pending rfl (fun _ => id) (fun item here _ => List.mem_append_left _ here)
          (fun item here _ merged => ?_) (fun _ held => .inl held)
        rcases new item here with old | rfl
        · exact old
        · exact absurd merged unmerged
      refine ⟨going.range, fun item here number inside more most => ?_, fun other here => ?_, fun hit here => frame hit (going.hits hit here),
        going.single, fun busy fileNo updating => ?_, going.covered⟩
      · rcases new item here with old | rfl
        · exact going.closed item old number inside more most
        · have less := (going.range number inside).1
          rw [file] at most
          omega
      · rcases List.mem_cons.mp here with rfl | before
        · intro inside
          have less := (going.range _ inside).1
          have equal : other.fileNo = s.current := file
          omega
        · exact going.free other before
      · obtain ⟨hit, one, two, pending, held⟩ := going.busy busy fileNo updating
        exact ⟨hit, one, two, frame hit pending, held⟩

theorem set_whole (key : UInt64) (code : Int) (next : MergeWorld) (allowed : s.careful (.set key code) = true)
    (done : s.set packing key code = some next) : Whole packing next := by
  unfold set at done
  obtain ⟨write, found, done⟩ := Option.map_eq_some_iff.mp done
  have member := List.mem_of_find?_eq_some found
  have named : write.key = key := by simpa using List.find?_some found
  have flying := inv.flying write member
  have rest : ∀ other, other ∈ s.writing.filter (·.key ≠ key) → other ∈ s.writing := fun other here => (List.mem_filter.mp here).1
  -- For the other keys the Writes in flight are the same.
  have settles : ∀ item, item.record.key ≠ key → Settled (s.writing.filter (·.key ≠ key)) item → Settled s.writing item := by
    intro item different settled other here equal
    refine settled other (List.mem_filter.mpr ⟨here, ?_⟩) equal
    have own : item.record.key = other.key := by rw [equal]; rfl
    simpa [← own] using different
  dsimp only at done
  split at done
  · subst done
    refine ⟨inv.positive, inv.negative, inv.ranged, inv.apart, inv.listed, fun other record held => ?_, fun other free clean item here equal => ?_,
      fun other here => inv.flying other (rest other here), fun pass at_ => ?_⟩
    · obtain ⟨log, kept⟩ := inv.kept other record held
      refine ⟨log, ?_⟩
      by_cases same : other = key
      · exact ⟨kept.packed, kept.stored, fun clean => absurd (by rw [same]; exact List.mem_cons_self) clean⟩
      · exact kept_frame packing _ _ _ _ _ _ other record log kept (fun _ here _ => here)
          (fun item here equal => .inl ⟨here, settles item (by rw [equal]; exact same)⟩) (List.mem_cons_of_mem _)
    · have different : other ≠ key := by
        rintro rfl
        exact clean List.mem_cons_self
      exact fun settled => inv.absent other free (fun lost => clean (List.mem_cons_of_mem _ lost)) item here equal
        (settles item (by rw [equal]; exact different) settled)
    · have going := inv.going pass at_
      exact ⟨going.range, going.closed, fun other here => going.free other (rest other here), going.hits, going.single, going.busy, going.covered⟩
  · rename_i good
    have good : code = 0 := by simpa using good
    subst done
    obtain ⟨log, written⟩ := flying.packs
    obtain ⟨packed, place⟩ := set_packed packing write.fileNo write.raw (s.records key) log written flying.filled
    have top : ∀ kind, Above packing s.files kind key log write.item := by
      rw [← named]
      exact fun kind => flying_above packing s.files kind write log flying written
    refine ⟨inv.positive, inv.negative, inv.ranged, inv.apart, fun other record held => ?_, fun other record held => ?_,
      fun other free clean item here equal => ?_, fun other here => inv.flying other (rest other here), fun pass at_ => ?_⟩
    · dsimp only at held ⊢
      by_cases same : other = key
      · subst same
        split
        · assumption
        · exact List.mem_cons_self
      · rw [Function.update_of_ne same] at held
        have known := inv.listed other record held
        split
        · exact known
        · exact List.mem_cons_of_mem _ known
    · dsimp only at held
      by_cases same : other = key
      · subst same
        rw [Function.update_self] at held
        cases held
        exact ⟨log, packed, ⟨write.item, top _, place.symm⟩, fun _ => ⟨write.item, top _⟩⟩
      · rw [Function.update_of_ne same] at held
        obtain ⟨log, kept⟩ := inv.kept other record held
        exact ⟨log, kept_frame packing _ _ _ _ _ _ other record log kept (fun _ here _ => here)
          (fun item here equal => .inl ⟨here, settles item (by rw [equal]; exact same)⟩)
          (fun lost => List.mem_filter.mpr ⟨lost, by simpa using same⟩)⟩
    · dsimp only at free clean
      by_cases same : other = key
      · rw [same, Function.update_self] at free
        cases free
      · rw [Function.update_of_ne same] at free
        exact fun settled => inv.absent other free (fun lost => clean (List.mem_filter.mpr ⟨lost, by simpa using same⟩)) item here equal
          (settles item (by rw [equal]; exact same) settled)
    · have going := inv.going pass at_
      have outside := going.free write member
      have frame : ∀ hit, Pending packing s.files s.records pass hit →
          Pending packing s.files (Function.update s.records key (some (setMemRecord packing write.fileNo write.raw (s.records key)))) pass hit := by
        intro hit pending
        refine pending_frame packing _ _ _ _ pass pass hit pending rfl (fun _ => id) (fun _ here _ => here) (fun _ here _ _ => here) fun record held => ?_
        by_cases same : hit.key = key
        · rw [same, Function.update_self] at held
          cases held
          rw [place]
          exact .inr ⟨flying.positive, outside⟩
        · rw [Function.update_of_ne same] at held
          exact .inl held
      refine ⟨going.range, going.closed, fun other here => going.free other (rest other here), fun hit here => frame hit (going.hits hit here),
        going.single, fun busy fileNo updating => ?_, fun other record held inside => ?_⟩
      · obtain ⟨hit, one, two, pending, record, held, old⟩ := going.busy busy fileNo updating
        have different : busy ≠ key := by
          have at' : s.pass = some pass := at_
          rw [careful, at', good] at allowed
          simpa [updating] using allowed
        refine ⟨hit, one, two, frame hit pending, record, ?_, old⟩
        dsimp only
        rw [Function.update_of_ne different]
        exact held
      · dsimp only at held
        by_cases same : other = key
        · subst same
          rw [Function.update_self] at held
          cases held
          rw [place] at inside
          exact absurd inside outside
        · rw [Function.update_of_ne same] at held
          exact going.covered other record held inside

theorem start_whole (vecFile : List Int) (next : MergeWorld) (allowed : s.careful (.start vecFile) = true)
    (done : s.start vecFile = some next) : Whole packing next := by
  unfold start at done
  split at done
  · cases done
  · rename_i guard
    rw [not_or] at guard
    cases done
    have fits : s.mergeable vecFile = true := by simpa using guard.2
    simp only [mergeable, Bool.and_eq_true, List.all_eq_true, decide_eq_true_eq, Bool.or_eq_true, Bool.not_eq_true', decide_eq_false_iff_not,
      Bool.and_eq_false_iff] at fits
    have free : ∀ write ∈ s.writing, write.fileNo ∉ vecFile := by simpa [careful] using allowed
    refine ⟨inv.positive, inv.negative, inv.ranged, inv.apart, inv.listed, inv.kept, inv.absent, inv.flying, fun pass at_ => ?_⟩
    cases at_
    refine ⟨fits.1, fun item here number inside more most => ?_, free, fun _ wrong => (by cases wrong), List.nodup_nil,
      fun _ _ wrong => (by cases wrong), fun key record held _ => .inl ⟨inv.listed key record held, List.not_mem_nil⟩⟩
    rcases fits.2 item here number inside with outside | known
    · omega
    · exact known

-- A key that has nothing in the merged files needs no copy.
theorem skip_whole (key : UInt64) (pass : Pass) (at_ : s.pass = some pass)
    (clear : ∀ record, s.records key = some record → record.fileNo ∉ pass.vecFile) :
    Whole packing { s with pass := some { pass with visited := key :: pass.visited } } := by
  have going := inv.going pass at_
  refine ⟨inv.positive, inv.negative, inv.ranged, inv.apart, inv.listed, inv.kept, inv.absent, inv.flying, fun later same => ?_⟩
  cases same
  have frame : ∀ hit, Pending packing s.files s.records pass hit →
      Pending packing s.files s.records { pass with visited := key :: pass.visited } hit := fun hit pending =>
    pending_frame packing _ _ _ _ pass _ hit pending rfl (fun _ here => List.mem_cons_of_mem _ here) (fun _ here _ => here) (fun _ here _ _ => here)
      (fun _ held => .inl held)
  refine ⟨going.range, going.closed, going.free, fun hit here => frame hit (going.hits hit here), going.single, fun busy fileNo updating => ?_,
    fun other record held inside => ?_⟩
  · obtain ⟨hit, one, two, pending, held⟩ := going.busy busy fileNo updating
    exact ⟨hit, one, two, frame hit pending, held⟩
  · rcases going.covered other record held inside with ⟨due, unseen⟩ | rest
    · refine .inl ⟨due, fun seen => ?_⟩
      rcases List.mem_cons.mp seen with rfl | before
      · exact clear record held inside
      · exact unseen before
    · exact .inr rest

-- The key is copied from a merged file and waits for UpdateShmHash.
theorem copy_going (key : UInt64) (pass : Pass) (at_ : s.pass = some pass) (record : MemRecord) (log : PaxosLog) (copy : RawRecord) (offset : Nat)
    (unseen : key ∉ pass.visited) (later : ∀ item ∈ s.files, item.fileNo = s.mergeNo → item.offset < offset) (held : s.records key = some record)
    (inside : record.fileNo ∈ pass.vecFile) (whole : Packed packing record log) (named : copy.key = key)
    (decodes : decodeLog packing.toLogCodec copy = some log) :
    Going packing
      { s with
        files := s.files ++ [⟨s.mergeNo, offset, copy⟩]
        pass := some { pass with visited := key :: pass.visited, hits := pass.hits ++ [⟨key, record.fileNo, s.mergeNo, offset⟩] } }
      { pass with visited := key :: pass.visited, hits := pass.hits ++ [⟨key, record.fileNo, s.mergeNo, offset⟩] } := by
  have going := inv.going pass at_
  have negative := inv.negative
  have new : ∀ item, item ∈ s.files ++ [(⟨s.mergeNo, offset, copy⟩ : Item)] → item ∈ s.files ∨ item = ⟨s.mergeNo, offset, copy⟩ := by
    intro item here
    simpa using here
  have frame : ∀ hit, Pending packing s.files s.records pass hit →
      Pending packing (s.files ++ [(⟨s.mergeNo, offset, copy⟩ : Item)]) s.records
        { pass with visited := key :: pass.visited, hits := pass.hits ++ [⟨key, record.fileNo, s.mergeNo, offset⟩] } hit := by
    intro hit pending
    have different : hit.key ≠ key := fun equal => unseen (equal ▸ pending.seen)
    exact pending_frame packing _ _ _ _ pass _ hit pending rfl (fun _ here => List.mem_cons_of_mem _ here)
      (fun item here _ => List.mem_append_left _ here) (fun item here equal _ => (new item here).elim id fun same => absurd (by rw [← equal, same]; exact named) different)
      (fun _ held => .inl held)
  have fresh : ∀ other, other ∈ pass.hits → other.key ≠ key := fun other here equal => unseen (equal ▸ (going.hits other here).seen)
  refine ⟨going.range, fun item here number among more most => ?_, going.free, fun hit here => ?_, ?_, fun busy fileNo updating => ?_,
    fun other stored present among => ?_⟩
  · rcases new item here with old | rfl
    · exact going.closed item old number among more most
    · dsimp only at more
      omega
  · rcases List.mem_append.mp here with before | now
    · exact frame hit (going.hits hit before)
    · cases List.mem_singleton.mp now
      refine ⟨inside, fun among => ?_, negative, List.mem_cons_self, fun other present => ?_, ⟨s.mergeNo, offset, copy⟩,
        List.mem_append_right _ List.mem_cons_self, named, rfl, rfl, fun other there equal merged => ?_, fun other text present _ packed => ?_⟩
      · have less := (going.range _ among).2
        dsimp only at less
        omega
      · dsimp only at present
        rw [held] at present
        cases present
        exact .inl rfl
      · rcases new other there with old | rfl
        · right
          rcases inv.ranged other old with ⟨positive, _⟩ | ⟨most, _⟩
          · have below : other.fileNo < 0 := merged
            omega
          · rcases Int.lt_or_eq_of_le most with less | same
            · exact .inr (.inl ⟨merged, less⟩)
            · exact .inr (.inr (.inr ⟨same.symm, later other old same.symm⟩))
        · exact .inl rfl
      · dsimp only at present
        rw [held] at present
        cases present
        have one := packed_log packing record text packed
        rw [packed_log packing record log whole] at one
        cases one
        exact decodes
  · have single := going.single
    rw [List.map_append, ← List.append_assoc, List.map_singleton]
    refine List.nodup_append.mpr ⟨single, List.nodup_singleton _, fun other here one there => ?_⟩
    cases List.mem_singleton.mp there
    rcases List.mem_append.mp here with busy | waiting
    · rw [Option.mem_toList] at busy
      obtain ⟨⟨_, fileNo⟩, updating, rfl⟩ := Option.map_eq_some_iff.mp busy
      obtain ⟨hit, name, _, pending, _⟩ := going.busy _ fileNo updating
      rintro rfl
      exact unseen (name ▸ pending.seen)
    · obtain ⟨hit, there, rfl⟩ := List.mem_map.mp waiting
      exact fresh hit there
  · obtain ⟨hit, one, two, pending, known⟩ := going.busy busy fileNo updating
    exact ⟨hit, one, two, frame hit pending, known⟩
  · rcases going.covered other stored present among with ⟨due, waiting⟩ | ⟨hit, here, same⟩ | busy
    · by_cases equal : other = key
      · subst equal
        dsimp only at present
        rw [held] at present
        cases present
        exact .inr (.inl ⟨_, List.mem_append_right _ List.mem_cons_self, rfl, rfl⟩)
      · exact .inl ⟨due, fun seen => (List.mem_cons.mp seen).elim equal waiting⟩
    · exact .inr (.inl ⟨hit, List.mem_append_left _ here, same⟩)
    · exact .inr (.inr busy)

theorem visit_whole (key : UInt64) (broken : Bool) (offset : Nat) (next : MergeWorld) (allowed : s.careful (.visit key broken offset) = true)
    (done : s.visit codec packing key broken offset = some next) : Whole packing next := by
  unfold visit at done
  obtain ⟨pass, at_, done⟩ := Option.bind_eq_some_iff.mp done
  split at done
  · cases done
  · rename_i guard
    rw [not_or] at guard
    obtain ⟨unseen, above⟩ := guard
    have later : ∀ item ∈ s.files, item.fileNo = s.mergeNo → item.offset < offset := by simpa using above
    dsimp only at done
    split at done
    · rename_i free
      cases done
      refine skip_whole packing s inv key pass at_ fun record held => ?_
      rw [free] at held
      cases held
    · rename_i record held
      split at done
      · rename_i skipped
        cases done
        refine skip_whole packing s inv key pass at_ fun other same => ?_
        rw [held] at same
        cases same
        rcases skipped with wrong | outside
        · rw [careful, at_, wrong] at allowed
          simpa [held] using allowed
        · exact outside
      · rename_i hit
        rw [not_or, not_not] at hit
        obtain ⟨_, inside⟩ := hit
        obtain ⟨copy, made, same⟩ := Option.map_eq_some_iff.mp done
        cases same
        have going := inv.going pass at_
        obtain ⟨log, kept⟩ := inv.kept key record held
        obtain ⟨named, decodes⟩ := copy_decodes packing codec key record log copy kept.packed made
        have negative := inv.negative
        have new : ∀ item, item ∈ s.files ++ [(⟨s.mergeNo, offset, copy⟩ : Item)] → item ∈ s.files ∨ item = ⟨s.mergeNo, offset, copy⟩ := by
          intro item here
          simpa using here
        -- Only records of this key come in.
        have foreign : ∀ item other, item ∈ s.files ++ [(⟨s.mergeNo, offset, copy⟩ : Item)] → item.record.key = other → other ≠ key → item ∈ s.files := by
          intro item other here equal different
          rcases new item here with old | rfl
          · exact old
          · exact absurd (equal.symm.trans named) different
        refine ⟨inv.positive, negative, fun item here => ?_, append_apart s.files _ inv.apart later, inv.listed, fun other stored present => ?_,
          fun other free clean item here equal => ?_, fun write here => ?_, fun later_ same => ?_⟩
        · rcases new item here with old | rfl
          · exact inv.ranged item old
          · exact .inr ⟨le_refl _, negative⟩
        · by_cases equal : other = key
          · subst equal
            dsimp only at present
            rw [held] at present
            cases present
            refine ⟨log, kept_frame packing _ _ _ _ _ _ other record log kept (fun item here _ => List.mem_append_left _ here) (fun item here _ => ?_) id⟩
            rcases new item here with old | rfl
            · exact .inl ⟨old, id⟩
            · exact .inr (.inl decodes)
          · obtain ⟨text, known⟩ := inv.kept other stored present
            exact ⟨text, kept_frame packing _ _ _ _ _ _ other stored text known (fun item here _ => List.mem_append_left _ here)
              (fun item here same => .inl ⟨foreign item other here same equal, id⟩) id⟩
        · refine inv.absent other free clean item (foreign item other here equal ?_) equal
          rintro rfl
          dsimp only at free
          rw [held] at free
          cases free
        · have flying := inv.flying write here
          refine ⟨List.mem_append_left _ flying.here, fun item there equal => ?_, flying.packs, flying.filled, flying.positive⟩
          rcases new item there with old | rfl
          · exact flying.fresh item old equal
          · exact .inr (.inl ⟨negative, flying.positive⟩)
        · cases same
          exact copy_going packing s inv key pass at_ record log copy offset unseen later held inside kept.packed named decodes

theorem get_whole (next : MergeWorld) (done : s.get = some next) : Whole packing next := by
  unfold get at done
  obtain ⟨pass, at_, done⟩ := Option.bind_eq_some_iff.mp done
  split at done
  · cases done
  · rename_i idle
    have idle : pass.updating = none := by simpa using idle
    split at done
    · cases done
    · rename_i hit rest waiting
      have going := inv.going pass at_
      have single := going.single
      rw [idle, waiting] at single
      have pending : ∀ other, other ∈ hit :: rest → Pending packing s.files s.records pass other := fun other here => going.hits other (waiting ▸ here)
      have covered := going.covered
      rw [waiting] at covered
      split at done
      · rename_i stale
        cases done
        refine ⟨inv.positive, inv.negative, inv.ranged, inv.apart, inv.listed, inv.kept, inv.absent, inv.flying, fun later same => ?_⟩
        cases same
        refine ⟨going.range, going.closed, going.free, fun other here => ?_, ?_, fun busy fileNo updating => ?_, fun key record held inside => ?_⟩
        · have known := pending other (List.mem_cons_of_mem _ here)
          exact ⟨known.inside, known.outside, known.negative, known.seen, known.moved, known.copied⟩
        · rw [idle]
          exact (List.nodup_cons.mp single).2
        · rw [idle] at updating
          cases updating
        · rcases covered key record held inside with first | ⟨other, here, name, old⟩ | busy
          · exact .inl first
          · rcases List.mem_cons.mp here with rfl | later
            · rw [name, held] at stale
              simp [old] at stale
            · exact .inr (.inl ⟨other, later, name, old⟩)
          · exact .inr (.inr busy)
      · rename_i current
        cases done
        have found : ∃ record, s.records hit.key = some record ∧ record.fileNo = hit.oldFileNo := by
          cases held : s.records hit.key with
          | none => simp [held] at current
          | some record => exact ⟨record, rfl, by simpa [held] using current⟩
        refine ⟨inv.positive, inv.negative, inv.ranged, inv.apart, inv.listed, inv.kept, inv.absent, inv.flying, fun later same => ?_⟩
        cases same
        refine ⟨going.range, going.closed, going.free, fun other here => ?_, single, fun busy fileNo updating => ?_, fun key record held inside => ?_⟩
        · have known := pending other (List.mem_cons_of_mem _ here)
          exact ⟨known.inside, known.outside, known.negative, known.seen, known.moved, known.copied⟩
        · cases updating
          have known := pending hit List.mem_cons_self
          exact ⟨hit, rfl, rfl, ⟨known.inside, known.outside, known.negative, known.seen, known.moved, known.copied⟩, found⟩
        · rcases covered key record held inside with first | ⟨other, here, name, old⟩ | busy
          · exact .inl first
          · rcases List.mem_cons.mp here with rfl | later
            · exact .inr (.inr ⟨other.fileNo, by rw [name]⟩)
            · exact .inr (.inl ⟨other, later, name, old⟩)
          · obtain ⟨_, wrong⟩ := busy
            rw [idle] at wrong
            cases wrong

theorem update_whole (next : MergeWorld) (done : s.update = some next) : Whole packing next := by
  unfold update at done
  obtain ⟨pass, at_, done⟩ := Option.bind_eq_some_iff.mp done
  obtain ⟨⟨key, fileNo⟩, updating, same⟩ := Option.map_eq_some_iff.mp done
  dsimp only at same
  have going := inv.going pass at_
  obtain ⟨hit, rfl, rfl, pending, record, held, old⟩ := going.busy key fileNo updating
  rw [held, Option.map_some] at same
  subst same
  have single := going.single
  rw [updating] at single
  have others : ∀ other, other ∈ pass.hits → other.key ≠ hit.key := fun other here equal =>
    (List.nodup_cons.mp single).1 (equal ▸ List.mem_map_of_mem here)
  refine ⟨inv.positive, inv.negative, inv.ranged, inv.apart, fun other stored present => ?_, fun other stored present => ?_,
    fun other free => inv.absent other ?_, inv.flying, fun later same => ?_⟩
  · dsimp only at present
    by_cases equal : other = hit.key
    · rw [equal]
      exact inv.listed hit.key record held
    · rw [Function.update_of_ne equal] at present
      exact inv.listed other stored present
  · dsimp only at present
    by_cases equal : other = hit.key
    · subst equal
      rw [Function.update_self] at present
      cases present
      obtain ⟨log, kept⟩ := inv.kept hit.key record held
      obtain ⟨copy, here, name, file, _, last, decodes⟩ := pending.copied
      refine ⟨log, kept.packed, ⟨copy, ⟨here, name, decodes record log held old kept.packed, fun item there equal merged => ?_⟩, file⟩, kept.latest⟩
      rcases last item there equal merged with rfl | before
      · exact .inl (decodes record log held old kept.packed)
      · exact .inr before
    · rw [Function.update_of_ne equal] at present
      exact inv.kept other stored present
  · dsimp only at free
    by_cases equal : other = hit.key
    · rw [equal, Function.update_self] at free
      cases free
    · rwa [Function.update_of_ne equal] at free
  · cases same
    refine ⟨going.range, going.closed, going.free, fun other here => ?_, (List.nodup_cons.mp single).2, fun _ _ wrong => (by cases wrong),
      fun other stored present inside => ?_⟩
    · refine pending_frame packing _ _ _ _ pass _ other (going.hits other here) rfl (fun _ => id) (fun _ here _ => here) (fun _ here _ _ => here)
        fun stored present => .inl ?_
      dsimp only at present
      rwa [Function.update_of_ne (others other here)] at present
    · dsimp only at present
      by_cases equal : other = hit.key
      · subst equal
        rw [Function.update_self] at present
        cases present
        exact absurd inside pending.outside
      · rw [Function.update_of_ne equal] at present
        rcases going.covered other stored present inside with first | second | ⟨_, busy⟩
        · exact .inl first
        · exact .inr (.inl second)
        · rw [updating] at busy
          cases busy
          exact absurd rfl equal

end Steps

end MergeWorld

end PaxosStore.MemKv
