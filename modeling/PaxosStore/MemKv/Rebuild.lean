import PaxosStore.MemKv.MemStoreSpecs

set_option autoImplicit false

namespace PaxosStore.MemKv

open PaxosStore.PaxosKv

-- What GetBasicInfo takes from a log is what AssertCheck asks for.
theorem basic_info_check (codec : DataCodec) (head : Head) (info : NewBasic) (lite : head.lite = true) (found : head.getBasicInfo codec = some info) :
    infoCheck info head.log = true := by
  rw [Head.getBasicInfo, lite, if_neg (by simp)] at found
  obtain ⟨base, chosen, rest⟩ := Option.bind_eq_some_iff.mp found
  obtain ⟨_, same⟩ := (asserting_some _ _ _).mp rest
  have parts : base.chosenIndex = getChosenIndex head.log ∧ base.reqid = getChosenReqid head.log ∧ base.pending = false ∧
      (head.log = [] → base.maxIndex = 0) := by
    rw [Head.chosenInfo] at chosen
    rw [getChosenIndex, getChosenReqid]
    split at chosen
    · rename_i none_
      cases chosen
      rw [none_]
      exact ⟨rfl, rfl, rfl, fun _ => rfl⟩
    · rename_i index pins some_
      obtain ⟨_, made⟩ := (asserting_some _ _ _).mp chosen
      obtain ⟨data, _, rfl⟩ := Option.map_eq_some_iff.mp made
      rw [some_]
      refine ⟨rfl, rfl, rfl, fun empty => ?_⟩
      rw [empty] at some_
      cases some_
  obtain ⟨index, reqid, waits, none_⟩ := parts
  cases same
  unfold infoCheck getMaxIndex hasPendingIns getMaxIns
  cases last : head.log.getLast? with
  | none =>
      have empty := List.getLast?_eq_none_iff.mp last
      simp [index, reqid, waits, none_ empty]
  | some entry => simp [index, reqid]

def MemRecord.basicInfo (codec : DataCodec) (logs : LogCodec) (record : MemRecord) : Option NewBasic :=
  (record.head logs).bind (Head.getBasicInfo codec)

def NewBasic.waiting (info : NewBasic) : Bool := info.pending && info.chosenIndex < info.maxIndex

def NewBasic.decided (info : NewBasic) : Bool := !info.pending && info.chosenIndex = info.maxIndex

-- Of two records of a key, both can be read, and at the same index both are
-- pending, or both are chosen and have the same length.
def comparable (codec : DataCodec) (logs : LogCodec) (one two : MemRecord) : Bool :=
  (one.basicInfo codec logs).any fun left => (two.basicInfo codec logs).any fun right =>
    left.flag / recordCompresse % 2 = 0 && right.flag / recordCompresse % 2 = 0 &&
      (left.maxIndex ≠ right.maxIndex || left.waiting && right.waiting || left.decided && right.decided && one.data.length = two.data.length)

theorem comparable_decides (codec : DataCodec) (logs : LogCodec) (one two : MemRecord) (fits : comparable codec logs one two = true) :
    ∃ isNew, checkRecordNew codec logs one two = some isNew := by
  simp only [comparable, Option.any_eq_true] at fits
  obtain ⟨left, leftInfo, right, rightInfo, fits⟩ := fits
  obtain ⟨leftHead, leftRead, leftInfo⟩ := Option.bind_eq_some_iff.mp leftInfo
  obtain ⟨rightHead, rightRead, rightInfo⟩ := Option.bind_eq_some_iff.mp rightInfo
  simp only [Bool.and_eq_true, Bool.or_eq_true, decide_eq_true_eq] at fits
  obtain ⟨flags, shape⟩ := fits
  obtain ⟨leftLog, leftText, rfl⟩ := Option.map_eq_some_iff.mp leftRead
  obtain ⟨rightLog, rightText, rfl⟩ := Option.map_eq_some_iff.mp rightRead
  have leftCheck := basic_info_check codec _ left rfl leftInfo
  have rightCheck := basic_info_check codec _ right rfl rightInfo
  rw [checkRecordNew, leftRead, rightRead, Option.bind_some, Option.bind_some, leftInfo, rightInfo, Option.bind_some, Option.bind_some,
    asserting_pos _ _ flags]
  by_cases differ : left.maxIndex ≠ right.maxIndex
  · exact ⟨_, if_pos differ⟩
  · rw [if_neg differ]
    rcases shape with (apart | ⟨waits, other⟩) | ⟨⟨done, other⟩, length⟩
    · exact absurd apart differ
    · simp only [NewBasic.waiting, Bool.and_eq_true, decide_eq_true_eq] at waits other
      rw [if_neg (by omega), asserting_pos _ _ ⟨waits.2, waits.1, other.1⟩, asserting_pos _ _ ⟨leftCheck, rightCheck⟩]
      simp only [infoCheck, Bool.and_eq_true, decide_eq_true_eq] at leftCheck rightCheck
      have leftIndex := leftCheck.1.1.1
      have rightIndex := rightCheck.1.1.1
      dsimp only at leftIndex rightIndex ⊢
      rw [getMaxIndex] at leftIndex rightIndex
      rw [getMaxIns, getMaxIns]
      cases leftLast : leftLog.getLast? with
      | none =>
          rw [leftLast] at leftIndex
          have zero : left.maxIndex = 0 := leftIndex
          omega
      | some leftEntry =>
          cases rightLast : rightLog.getLast? with
          | none =>
              rw [rightLast] at rightIndex
              have zero : right.maxIndex = 0 := rightIndex
              omega
          | some rightEntry =>
              rw [leftLast] at leftIndex
              rw [rightLast] at rightIndex
              have one_ : left.maxIndex = leftEntry.1 := leftIndex
              have two_ : right.maxIndex = rightEntry.1 := rightIndex
              rw [Option.bind_some, Option.bind_some, asserting_pos _ _ (by omega)]
              split
              · exact ⟨_, rfl⟩
              · split
                · exact ⟨_, rfl⟩
                · split <;> exact ⟨_, rfl⟩
    · simp only [NewBasic.decided, Bool.and_eq_true, Bool.not_eq_true', decide_eq_true_eq] at done other
      rw [if_pos done.2.symm]
      exact ⟨false, asserting_pos _ _ ⟨length, done.1, other.1⟩⟩

namespace MemStore

variable (codec : DataCodec) (packing : LogPacking)

-- Any two records of one key that are in use can be compared.
def Sortable (s : MemStore) : Prop :=
  ∀ one ∈ s.slots, ∀ two ∈ s.slots, one.key = two.key → one.deleted = false → two.deleted = false → one.place ≠ two.place →
    comparable codec packing.toLogCodec one.record two.record = true

-- The index after some records: it leads to records in use, and has the keys of
-- all records so far.
structure Rebuilt (s : MemStore) (seen : List Slot) (next : MemStore) : Prop where
  slots : next.slots = s.slots
  placed : Placed next
  covers : ∀ slot ∈ seen, slot.deleted = false → next.index slot.key ≠ none

theorem build_one (s next : MemStore) (seen : List Slot) (slot : Slot) (sortable : s.Sortable codec packing) (member : slot ∈ s.slots)
    (rebuilt : Rebuilt s seen next) : ∃ after, next.buildOneRecord codec packing slot = some after ∧ Rebuilt s (seen ++ [slot]) after := by
  have here : slot ∈ next.slots := by
    rw [rebuilt.slots]
    exact member
  by_cases dead : slot.deleted = true
  · refine ⟨next, by rw [buildOneRecord, if_pos dead], rebuilt.slots, rebuilt.placed, fun other there live => ?_⟩
    rcases List.mem_append.mp there with before | now
    · exact rebuilt.covers other before live
    · cases List.mem_singleton.mp now
      rw [dead] at live
      cases live
  · have live : slot.deleted = false := by simpa using dead
    have put : Rebuilt s (seen ++ [slot]) (next.setIndex slot.key slot.place) := by
      refine ⟨rebuilt.slots, set_index_placed next rebuilt.placed slot here live, fun other there used => ?_⟩
      dsimp only [setIndex]
      by_cases same : other.key = slot.key
      · rw [same, Function.update_self]
        exact Option.some_ne_none _
      · rw [Function.update_of_ne same]
        rcases List.mem_append.mp there with before | now
        · exact rebuilt.covers other before used
        · cases List.mem_singleton.mp now
          exact absurd rfl same
    have keep : next.index slot.key ≠ none → Rebuilt s (seen ++ [slot]) next := by
      refine fun known => ⟨rebuilt.slots, rebuilt.placed, fun other there used => ?_⟩
      rcases List.mem_append.mp there with before | now
      · exact rebuilt.covers other before used
      · cases List.mem_singleton.mp now
        exact known
    rw [buildOneRecord, if_neg dead]
    cases at_ : next.index slot.key with
    | none => exact ⟨_, rfl, put⟩
    | some place =>
        have known := keep (by rw [at_]; exact Option.some_ne_none _)
        dsimp only
        by_cases own : place = slot.place
        · exact ⟨next, if_pos own, known⟩
        · rw [if_neg own]
          obtain ⟨old, found, same⟩ := next.find_indexed rebuilt.placed slot.key place at_
          obtain ⟨inside, _, key, used⟩ := next.find_known slot.key old found
          have head : next.getHead place slot.key = some old := by
            rw [← same, ← key]
            exact next.head_found rebuilt.placed old inside used
          rw [head]
          dsimp only
          have there : old ∈ s.slots := by
            rw [← rebuilt.slots]
            exact inside
          obtain ⟨isNew, decided⟩ := comparable_decides codec packing.toLogCodec slot.record old.record
            (sortable slot member old there key.symm live used (by rw [same]; exact Ne.symm own))
          rw [decided, Option.map_some]
          refine ⟨_, rfl, ?_⟩
          split
          · exact put
          · exact known

theorem build_all (s : MemStore) (sortable : s.Sortable codec packing) (order seen : List Slot) (next : MemStore)
    (inside : ∀ slot ∈ order, slot ∈ s.slots) (rebuilt : Rebuilt s seen next) :
    ∃ after, order.foldlM (buildOneRecord codec packing) next = some after ∧ Rebuilt s (seen ++ order) after := by
  induction order generalizing seen next with
  | nil => exact ⟨next, rfl, by rw [List.append_nil]; exact rebuilt⟩
  | cons slot rest ih =>
      obtain ⟨middle, done, known⟩ := build_one codec packing s next seen slot sortable (inside slot List.mem_cons_self) rebuilt
      obtain ⟨after, run, final⟩ := ih (seen ++ [slot]) middle (fun other there => inside other (List.mem_cons_of_mem _ there)) known
      refine ⟨after, ?_, ?_⟩
      · rw [List.foldlM_cons, done]
        exact run
      · rw [List.append_assoc] at final
        exact final

-- Whatever the order of the records: the index can be built, and leads to the
-- record of every key that has only one in use.
theorem start_build_spec (s : MemStore) (placed : Placed s) (sortable : s.Sortable codec packing) (order : List Slot) (same : order.Perm s.slots) :
    ∃ next, s.startBuildIdx codec packing order = some next ∧ next.slots = s.slots ∧ Placed next ∧
      (∀ key, (∀ slot ∈ s.slots, slot.key = key → slot.deleted = true) → next.find key = none) ∧
      ∀ slot ∈ s.slots, slot.deleted = false → (∀ other ∈ s.slots, other.key = slot.key → other.deleted = false → other = slot) →
        next.find slot.key = some slot := by
  obtain ⟨next, done, rebuilt⟩ := build_all codec packing s sortable order [] { s with index := fun _ => none }
    (fun slot here => same.mem_iff.mp here) ⟨rfl, ⟨placed.unique, fun _ _ wrong => by cases wrong⟩, fun _ wrong => by cases wrong⟩
  refine ⟨next, done, rebuilt.slots, rebuilt.placed, fun key dead => ?_, fun slot here live only => ?_⟩
  · cases found : next.find key with
    | none => rfl
    | some slot =>
        obtain ⟨inside, _, own, live⟩ := next.find_known key slot found
        rw [rebuilt.slots] at inside
        rw [dead slot inside own] at live
        cases live
  · cases at_ : next.index slot.key with
    | none => exact absurd at_ (rebuilt.covers slot (same.mem_iff.mpr here) live)
    | some place =>
        obtain ⟨other, found, _⟩ := next.find_indexed rebuilt.placed slot.key place at_
        obtain ⟨inside, _, own, used⟩ := next.find_known slot.key other found
        rw [rebuilt.slots] at inside
        rw [found, only other inside own used]

end MemStore

end PaxosStore.MemKv
