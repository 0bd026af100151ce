import PaxosStore.Certain.PlogRuns
import PaxosStore.Ordered.SortedMap

set_option autoImplicit false

namespace PaxosStore.Certain

open PaxosStore.Codec PaxosStore.Ordered PaxosStore.Consensus

variable {S : Type} {count : Nat} {db : KvDb S} {hash : Nat → Fin count} {s : PlogImpl S count} {writes : List (PlogKey × Bytes)}

-- The largest entry of an entity, be it a record or a value.
def LargestEntry (writes : List (PlogKey × Bytes)) (entityId : Nat) : Except RetCode Nat → Prop
  | .ok entry => (∃ write ∈ writes, write.1.entityId = entityId ∧ write.1.entry = entry) ∧
      ∀ write ∈ writes, write.1.entityId = entityId → write.1.entry ≤ entry
  | .error code => code = .implPlogNotFound ∧ ∀ write ∈ writes, write.1.entityId ≠ entityId

def answerOf (last : Option Bytes) : Except RetCode Bytes :=
  match last with
  | some value => .ok value
  | none => .error .implPlogNotFound

theorem read_answers (holds : PlogHolds db hash s writes) (key : PlogKey) (wide : key.wide = true) :
    s.read db hash false key = answerOf (latest writes key) := by
  rw [PlogImpl.read, if_neg Bool.false_ne_true, holds_get holds key wide]
  cases latest writes key with
  | none => rfl
  | some value => rfl

theorem range_loop (entityId endEntry : Nat) (keyed : List (PlogKey × Bytes)) (wide : ∀ entry ∈ keyed, entry.1.wide = true) :
    PlogImpl.rangeLoop entityId endEntry (keyed.map fun entry => (entry.1.serialize, entry.2)) =
      some (((keyed.takeWhile fun entry => decide (entry.1.entry ≤ endEntry ∧ entry.1.entityId ≤ entityId)).filter
        fun entry => decide (entry.1.valueId = 0)).map fun entry => (entry.1.entry, entry.2)) := by
  induction keyed with
  | nil => rfl
  | cons entry rest ih =>
      rw [List.map_cons, PlogImpl.rangeLoop]
      dsimp only
      rw [PlogKey.parse_serialize _ (wide entry List.mem_cons_self), Option.bind_some, List.takeWhile_cons]
      by_cases stops : entry.1.entry > endEntry ∨ entry.1.entityId > entityId
      · rw [if_pos stops, if_neg (by rw [decide_eq_true_iff]; omega)]
        rfl
      · rw [if_neg stops, if_pos (decide_eq_true (by omega)), ih fun other member => wide other (List.mem_cons_of_mem _ member), Option.map_some,
          List.filter_cons]
        by_cases record : entry.1.valueId = 0
        · rw [if_pos record, if_pos (decide_eq_true record), List.map_cons]
        · rw [if_neg record, if_neg (fun wrong => record (of_decide_eq_true wrong))]

-- What a range holds: the records behind its begin up to its end.
structure RangeAnswers (writes : List (PlogKey × Bytes)) (entityId beginEntry endEntry : Nat) (records : List (Nat × Bytes)) : Prop where
  ascends : records.Pairwise fun a b => a.1 < b.1
  listed : ∀ entry record, (entry, record) ∈ records ↔
    beginEntry < entry ∧ entry ≤ endEntry ∧ latest writes ⟨entityId, entry, 0⟩ = some record

section Searching

variable (keeps : db.Keeps) (holds : PlogHolds db hash s writes)
include keeps holds

omit keeps in
theorem keyed_wide {shard : Fin count} {keyed : List (PlogKey × Bytes)}
    (known : ∀ key value, (key, value) ∈ keyed ↔ hash key.entityId = shard ∧ latest writes key = some value) (entry : PlogKey × Bytes)
    (member : entry ∈ keyed) : entry.1.wide = true ∧ entry ∈ writes := by
  have there := latest_mem writes entry.1 entry.2 ((known entry.1 entry.2).mp member).2
  exact ⟨holds.wide entry there, there⟩

theorem load_max_answers (entityId : Nat) (inside : entityId + 1 < 2 ^ 64) :
    ∃ answer, s.loadMaxEntry db hash entityId = some answer ∧ LargestEntry writes entityId answer := by
  obtain ⟨keyed, scan, ascends, known⟩ := holds_scan keeps holds (hash entityId)
  have wide := keyed_wide holds known
  have target : (PlogKey.mk (u64 (entityId + 1)) 0 0).wide = true := by
    rw [u64_small _ inside]
    exact decide_eq_true ⟨inside, Nat.two_pow_pos 64, Nat.two_pow_pos 64⟩
  let before (entry : PlogKey × Bytes) : Bool := decide (entry.1.entityId ≤ entityId)
  have falls : keyed.Pairwise fun a b => before b = true → before a = true := by
    refine ascends.imp fun {a b} low taken => decide_eq_true ?_
    have bound : b.1.entityId ≤ entityId := of_decide_eq_true taken
    rcases low with less | ⟨same, _⟩
    · omega
    · omega
  have found : ((keyed.map fun entry => (entry.1.serialize, entry.2)).takeWhile fun entry =>
      decide (entry.1 < (PlogKey.mk (u64 (entityId + 1)) 0 0).serialize)) =
      (keyed.filter before).map fun entry => (entry.1.serialize, entry.2) := by
    rw [List.takeWhile_map, ← take_filter before keyed falls]
    refine congrArg _ (take_congr fun entry member => ?_)
    rw [Function.comp_apply, decide_eq_decide, PlogKey.serialize_lt _ _ (wide entry member).1 target, u64_small _ inside, PlogKey.below]
    dsimp only
    omega
  rw [PlogImpl.loadMaxEntry]
  rw [Iterator.before_target, scan, found, List.getLast?_map]
  have inhabits (write : PlogKey × Bytes) (member : write ∈ writes) (mine : write.1.entityId = entityId) :
      ∃ value, (write.1, value) ∈ keyed.filter before := by
    obtain ⟨value, last⟩ := Option.isSome_iff_exists.mp ((latest_isSome writes write.1).mpr ⟨write.2, member⟩)
    exact ⟨value, List.mem_filter.mpr ⟨(known _ _).mpr ⟨by rw [mine], last⟩, decide_eq_true (Nat.le_of_eq mine)⟩⟩
  cases last : (keyed.filter before).getLast? with
  | none =>
      refine ⟨.error .implPlogNotFound, rfl, rfl, fun write member mine => ?_⟩
      obtain ⟨value, there⟩ := inhabits write member mine
      rw [List.getLast?_eq_none_iff.mp last] at there
      cases there
  | some entry =>
      have member := List.mem_of_getLast? last
      have largest (other : PlogKey × Bytes) (there : other ∈ keyed.filter before) : other = entry ∨ other.1.below entry.1 := by
        have order := ascends.filter before
        obtain ⟨front, shape⟩ := List.getLast?_eq_some_iff.mp last
        rw [shape] at there order
        rcases List.mem_append.mp there with early | last
        · exact .inr ((List.pairwise_append.mp order).2.2 other early entry (List.mem_singleton_self _))
        · exact .inl (List.mem_singleton.mp last)
      obtain ⟨there, bound⟩ := List.mem_filter.mp member
      obtain ⟨entryWide, written⟩ := wide entry there
      have bound : entry.1.entityId ≤ entityId := of_decide_eq_true bound
      rw [Option.map_some]
      dsimp only
      rw [PlogKey.parse_serialize _ entryWide, Option.map_some]
      by_cases mine : entry.1.entityId = entityId
      · rw [if_pos mine]
        refine ⟨_, rfl, ⟨entry, written, mine, rfl⟩, fun write member same => ?_⟩
        obtain ⟨value, there⟩ := inhabits write member same
        rcases largest _ there with equal | low
        · rw [← equal]
        · rcases low with less | ⟨_, less | ⟨equal, _⟩⟩
          · dsimp only at less
            omega
          · exact Nat.le_of_lt less
          · exact Nat.le_of_eq equal
      · rw [if_neg mine]
        refine ⟨_, rfl, rfl, fun write member same => ?_⟩
        obtain ⟨value, there⟩ := inhabits write member same
        rcases largest _ there with equal | low
        · rw [← equal] at mine
          exact mine same
        · rcases low with less | ⟨equal, _⟩
          · dsimp only at less
            omega
          · exact mine (equal.symm.trans same)

-- Of the last entity number the next one is 0, and nothing is found.
theorem load_max_last : s.loadMaxEntry db hash (2 ^ 64 - 1) = some (.error .implPlogNotFound) := by
  obtain ⟨keyed, scan, _, known⟩ := holds_scan keeps holds (hash (2 ^ 64 - 1))
  have wide := keyed_wide holds known
  have first : u64 (2 ^ 64 - 1 + 1) = 0 := by decide
  have found : ((keyed.map fun entry => (entry.1.serialize, entry.2)).takeWhile fun entry =>
      decide (entry.1 < (PlogKey.mk 0 0 0).serialize)) = [] := by
    rw [List.takeWhile_map]
    cases keyed with
    | nil => rfl
    | cons entry rest =>
        rw [List.takeWhile_cons, if_neg]
        · rfl
        · rw [Function.comp_apply, decide_eq_true_iff, PlogKey.serialize_lt _ _ (wide entry List.mem_cons_self).1 (by decide), PlogKey.below]
          dsimp only
          omega
  rw [PlogImpl.loadMaxEntry]
  rw [first, Iterator.before_target, scan, found]
  rfl

theorem range_answers (entityId beginEntry endEntry : Nat) (inside : entityId < 2 ^ 64) (near : beginEntry + 1 < 2 ^ 64) :
    ∃ records, s.rangeGetRecord db hash entityId beginEntry endEntry = some records ∧
      RangeAnswers writes entityId beginEntry endEntry records := by
  obtain ⟨keyed, scan, ascends, known⟩ := holds_scan keeps holds (hash entityId)
  have wide := keyed_wide holds known
  have target : (PlogKey.mk entityId (u64 (beginEntry + 1)) 0).wide = true := by
    rw [u64_small _ near]
    exact decide_eq_true ⟨inside, near, Nat.two_pow_pos 64⟩
  let front (entry : PlogKey × Bytes) : Bool := decide (entry.1.below ⟨entityId, beginEntry + 1, 0⟩)
  let going (entry : PlogKey × Bytes) : Bool := decide (entry.1.entry ≤ endEntry ∧ entry.1.entityId ≤ entityId)
  have frontFalls : keyed.Pairwise fun a b => front b = true → front a = true := by
    refine ascends.imp fun {a b} low taken => decide_eq_true ?_
    have bound : b.1.below ⟨entityId, beginEntry + 1, 0⟩ := of_decide_eq_true taken
    unfold PlogKey.below at low bound ⊢
    dsimp only at bound ⊢
    omega
  have found : ((keyed.map fun entry => (entry.1.serialize, entry.2)).dropWhile fun entry =>
      decide (entry.1 < (PlogKey.mk entityId (u64 (beginEntry + 1)) 0).serialize)) =
      (keyed.filter fun entry => !front entry).map fun entry => (entry.1.serialize, entry.2) := by
    rw [List.dropWhile_map, ← drop_filter front keyed frontFalls]
    refine congrArg _ (drop_congr fun entry member => ?_)
    rw [Function.comp_apply, decide_eq_decide, PlogKey.serialize_lt _ _ (wide entry member).1 target, u64_small _ near]
  have behind (entry : PlogKey × Bytes) (member : entry ∈ keyed.filter fun entry => !front entry) :
      entry ∈ keyed ∧ ¬ entry.1.below ⟨entityId, beginEntry + 1, 0⟩ := by
    obtain ⟨there, late⟩ := List.mem_filter.mp member
    exact ⟨there, fun wrong => by rw [show front entry = true from decide_eq_true wrong] at late; cases late⟩
  have goingFalls : (keyed.filter fun entry => !front entry).Pairwise fun a b => going b = true → going a = true := by
    refine (ascends.filter _).imp_of_mem fun {a b} first _ low taken => decide_eq_true ?_
    have bound : b.1.entry ≤ endEntry ∧ b.1.entityId ≤ entityId := of_decide_eq_true taken
    have late := (behind a first).2
    unfold PlogKey.below at low late
    dsimp only at late
    omega
  have loop := range_loop entityId endEntry (keyed.filter fun entry => !front entry) (fun entry member => (wide entry (behind entry member).1).1)
  rw [take_filter going _ goingFalls] at loop
  have mine (entry : PlogKey × Bytes) (member : entry ∈ ((keyed.filter fun entry => !front entry).filter going).filter
      fun entry => decide (entry.1.valueId = 0)) : entry ∈ keyed ∧ entry.1 = ⟨entityId, entry.1.entry, 0⟩ ∧ beginEntry < entry.1.entry ∧
      entry.1.entry ≤ endEntry := by
    obtain ⟨member, zero⟩ := List.mem_filter.mp member
    obtain ⟨member, bound⟩ := List.mem_filter.mp member
    obtain ⟨there, late⟩ := behind entry member
    have bound : entry.1.entry ≤ endEntry ∧ entry.1.entityId ≤ entityId := of_decide_eq_true bound
    have zero : entry.1.valueId = 0 := of_decide_eq_true zero
    unfold PlogKey.below at late
    dsimp only at late
    have same : entry.1.entityId = entityId := by omega
    refine ⟨there, ?_, by omega, bound.1⟩
    rw [← same, ← zero]
  refine ⟨_, (by rw [PlogImpl.rangeGetRecord, scan, Iterator.seek, found]; exact loop), ?_, fun entry record => ⟨fun member => ?_, fun last => ?_⟩⟩
  · rw [List.pairwise_map]
    refine (((ascends.filter _).filter _).filter _).imp_of_mem fun {a b} first second low => ?_
    obtain ⟨_, left, _⟩ := mine a first
    obtain ⟨_, right, _⟩ := mine b second
    rw [left, right] at low
    unfold PlogKey.below at low
    dsimp only at low
    omega
  · obtain ⟨held, there, same⟩ := List.mem_map.mp member
    obtain ⟨rfl, rfl⟩ := Prod.mk.inj same
    obtain ⟨inside, shape, above, bound⟩ := mine held there
    refine ⟨above, bound, ?_⟩
    rw [← shape]
    exact ((known held.1 held.2).mp inside).2
  · obtain ⟨above, bound, last⟩ := last
    refine List.mem_map.mpr ⟨(⟨entityId, entry, 0⟩, record), ?_, rfl⟩
    refine List.mem_filter.mpr ⟨List.mem_filter.mpr ⟨List.mem_filter.mpr ⟨(known _ _).mpr ⟨rfl, last⟩, ?_⟩, ?_⟩, decide_eq_true rfl⟩
    · rw [show front (⟨entityId, entry, 0⟩, record) = false from decide_eq_false (by unfold PlogKey.below; dsimp only; omega)]
      rfl
    · exact decide_eq_true ⟨bound, Nat.le_refl _⟩

end Searching

-- After any writing calls, failed ones among them, a plog answers from the last write of
-- each key and knows the largest entry of every entity but the last one.
theorem plog_reads_last_writes (keeps : db.Keeps) (calls : List (PlogCall count))
    (run : calls.foldlM (PlogCall.act db hash) (PlogImpl.start db) = some s) :
    (∀ entityId entry, entityId < 2 ^ 64 → entry < 2 ^ 64 →
      s.getRecord db hash false entityId entry = answerOf (latest (calls.flatMap PlogCall.applied) ⟨entityId, entry, 0⟩)) ∧
    (∀ entityId entry valueId, entityId < 2 ^ 64 → entry < 2 ^ 64 → 0 < valueId → valueId < 2 ^ 64 →
      s.getValue db hash false entityId entry valueId =
        some (answerOf (latest (calls.flatMap PlogCall.applied) ⟨entityId, entry, valueId⟩))) ∧
    (∀ entityId, entityId + 1 < 2 ^ 64 → ∃ answer, s.loadMaxEntry db hash entityId = some answer ∧
      LargestEntry (calls.flatMap PlogCall.applied) entityId answer) ∧
    s.loadMaxEntry db hash (2 ^ 64 - 1) = some (.error .implPlogNotFound) := by
  have holds := run_holds keeps (holds_start keeps) calls run
  rw [List.nil_append] at holds
  refine ⟨fun entityId entry inside small => ?_, fun entityId entry valueId inside small positive wide => ?_,
    load_max_answers keeps holds, load_max_last keeps holds⟩
  · exact read_answers holds _ (decide_eq_true ⟨inside, small, Nat.two_pow_pos 64⟩)
  · rw [PlogImpl.getValue, if_pos positive, read_answers holds _ (decide_eq_true ⟨inside, small, wide⟩)]

-- The database as a sorted list.
def sortedDb : KvDb (SortedMap Bytes Bytes) := ⟨SortedMap.empty, SortedMap.get, SortedMap.write, SortedMap.entries⟩

theorem sorted_db_keeps : sortedDb.Keeps where
  empty := fun _ => rfl
  written := fun s puts key => SortedMap.get_write s puts key
  sorted := fun s => s.ascends
  scanned := fun s key value => SortedMap.get_iff s key value

-- Two databases; a value, records of two entities, and a batch that is lost.
def fewCalls : List (PlogCall 2) :=
  [.setValue 4 9 3 [1] .ok, .setRecord 4 2 [2] .ok, .setRecord 5 7 [3] .ok, .multiSetRecords 0 [⟨4, 2, [4]⟩, ⟨4, 3, [5]⟩] .ok,
    .multiSetRecords 0 [⟨4, 11, [6]⟩] (.failed false)]

def parity (entityId : Nat) : Fin 2 := Fin.ofNat 2 entityId

theorem few_calls_read : ∃ s, fewCalls.foldlM (PlogCall.act sortedDb parity) (PlogImpl.start sortedDb) = some s ∧
    s.getRecord sortedDb parity false 4 2 = answerOf (some [4]) ∧
    ∃ answer, s.loadMaxEntry sortedDb parity 4 = some answer ∧ LargestEntry (fewCalls.flatMap PlogCall.applied) 4 answer := by
  obtain ⟨s, run⟩ : ∃ s, fewCalls.foldlM (PlogCall.act sortedDb parity) (PlogImpl.start sortedDb) = some s := ⟨_, rfl⟩
  obtain ⟨records, _, largest, _⟩ := plog_reads_last_writes sorted_db_keeps fewCalls run
  exact ⟨s, run, records 4 2 (by decide) (by decide), largest 4 (by decide)⟩

-- A range is made of the last records between its bounds, in the order of their entries:
-- no value gets into it, and no other entity.
theorem plog_range_exact (keeps : db.Keeps) (calls : List (PlogCall count))
    (run : calls.foldlM (PlogCall.act db hash) (PlogImpl.start db) = some s) (entityId beginEntry endEntry : Nat)
    (inside : entityId < 2 ^ 64) (near : beginEntry + 1 < 2 ^ 64) :
    ∃ records, s.rangeGetRecord db hash entityId beginEntry endEntry = some records ∧
      RangeAnswers (calls.flatMap PlogCall.applied) entityId beginEntry endEntry records := by
  have holds := run_holds keeps (holds_start keeps) calls run
  rw [List.nil_append] at holds
  exact range_answers keeps holds entityId beginEntry endEntry inside near

theorem few_calls_range : ∃ s records, fewCalls.foldlM (PlogCall.act sortedDb parity) (PlogImpl.start sortedDb) = some s ∧
    s.rangeGetRecord sortedDb parity 4 1 10 = some records ∧ RangeAnswers (fewCalls.flatMap PlogCall.applied) 4 1 10 records := by
  obtain ⟨s, run⟩ : ∃ s, fewCalls.foldlM (PlogCall.act sortedDb parity) (PlogImpl.start sortedDb) = some s := ⟨_, rfl⟩
  obtain ⟨records, found, answers⟩ := plog_range_exact sorted_db_keeps fewCalls run 4 1 10 (by decide) (by decide)
  exact ⟨s, records, run, found, answers⟩

end PaxosStore.Certain
