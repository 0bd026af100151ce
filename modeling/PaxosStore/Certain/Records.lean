import PaxosStore.Certain.MachineSteps

set_option autoImplicit false

namespace PaxosStore.Certain

open PaxosStore.Consensus

variable {n : Nat}

-- A valid record that has its value.
structure Whole (record : EntryRecord) : Prop where
  prepared : record.preparedNum ≤ record.promisedNum
  accepted : record.acceptedNum ≤ record.promisedNum
  valued : 0 < record.acceptedNum ↔ 0 < record.valueId
  blank : record.valueId = 0 → record.value = [] ∧ record.uuids = [] ∧ record.chosen = false
  full : record.hasValueIdOnly = false

theorem whole_iff (record : EntryRecord) : Whole record ↔ isValidRecord record = true ∧ record.hasValueIdOnly = false := by
  constructor
  · intro whole
    refine ⟨?_, whole.full⟩
    have prepared := whole.prepared
    have accepted := whole.accepted
    have valued := whole.valued
    simp only [isValidRecord, whole.full, Bool.false_eq_true, false_and, if_false]
    rw [if_neg (by omega), if_neg (by omega)]
    rw [if_neg]
    rintro ⟨zero, held⟩
    obtain ⟨value, uuids, open_⟩ := whole.blank zero
    simp [value, uuids, open_] at held
  · rintro ⟨valid, full⟩
    simp only [isValidRecord, full, Bool.false_eq_true, false_and, if_false] at valid
    split at valid
    · cases valid
    · rename_i ordered
      split at valid
      · cases valid
      · rename_i matched
        split at valid
        · cases valid
        · rename_i blank
          refine ⟨by omega, by omega, by omega, fun zero => ?_, full⟩
          have none : ¬ (record.value.length > 0 ∨ record.uuids.length > 0 ∨ record.chosen = true) := fun held => blank ⟨zero, held⟩
          refine ⟨?_, ?_, ?_⟩
          · exact List.eq_nil_of_length_eq_zero (by omega)
          · exact List.eq_nil_of_length_eq_zero (by omega)
          · by_contra marked
            exact none (.inr (.inr (by simpa using marked)))

theorem whole_empty : Whole {} := ⟨Nat.le_refl 0, Nat.le_refl 0, by simp, fun _ => ⟨rfl, rfl, rfl⟩, rfl⟩

-- A whole record that has promised nothing is the empty one.
theorem whole_zero (record : EntryRecord) (whole : Whole record) (zero : record.promisedNum = 0) : record = {} := by
  have prepared := whole.prepared
  have accepted := whole.accepted
  have valued := whole.valued
  obtain ⟨value, uuids, open_⟩ := whole.blank (by omega)
  cases record with
  | mk preparedNum promisedNum acceptedNum valueId value uuids chosen hasValueIdOnly =>
      have full := whole.full
      simp only at prepared accepted valued value uuids open_ full zero
      subst value uuids open_ full zero
      have first : preparedNum = 0 := by omega
      have second : acceptedNum = 0 := by omega
      have third : valueId = 0 := by omega
      subst first second third
      rfl

theorem whole_marked (record : EntryRecord) (mark : Bool) (whole : Whole record) (accepted : mark = true → 0 < record.acceptedNum) :
    Whole { record with chosen := mark } := by
  refine ⟨whole.prepared, whole.accepted, whole.valued, fun zero => ?_, whole.full⟩
  obtain ⟨value, uuids, _⟩ := whole.blank zero
  refine ⟨value, uuids, ?_⟩
  cases mark with
  | false => rfl
  | true =>
      have valued := whole.valued.mp (accepted rfl)
      have none : record.valueId = 0 := zero
      omega

theorem newer_positive (old new : EntryRecord) (whole : Whole new) (newer : isRecordNewer old new = true) : 0 < new.promisedNum := by
  have prepared := whole.prepared
  have accepted := whole.accepted
  by_contra zero
  have empty := whole_zero new whole (by omega)
  rw [empty] at newer
  simp [isRecordNewer] at newer

theorem newer_than_empty (record : EntryRecord) (positive : 0 < record.promisedNum) : isRecordNewer {} record = true := by
  simp only [isRecordNewer, Bool.false_eq_true, if_false]
  split
  · rfl
  · rw [if_pos (.inr (.inl positive))]

namespace EntryStateMachine

theorem adopt_whole (record peer : EntryRecord) (whole : Whole record) (peerWhole : Whole peer) : Whole (adopt record peer) := by
  obtain ⟨prepared, promised, outcome⟩ := adopt_cases record peer
  have below := whole.prepared
  have bound := whole.accepted
  have peerBound := peerWhole.accepted
  have full : (adopt record peer).hasValueIdOnly = false := by
    simp only [adopt]
    split <;> split <;> (try split) <;> exact whole.full
  rcases outcome with ⟨_, accepted, chosen, proposal⟩ | ⟨_, accepted, chosen, proposal⟩
  · have sameId : (adopt record peer).valueId = peer.valueId := by
      have ids := congrArg Proposal.valueId proposal
      split at ids
      · rename_i same
        exact ids.trans same
      · exact ids
    refine ⟨by omega, by omega, by rw [accepted, sameId]; exact peerWhole.valued, fun zero => ?_, full⟩
    rw [sameId] at zero
    obtain ⟨value, uuids, open_⟩ := peerWhole.blank zero
    split at proposal
    · rename_i same
      obtain ⟨ownValue, ownUuids, _⟩ := whole.blank (same.trans zero)
      exact ⟨(congrArg Proposal.value proposal).trans ownValue, (congrArg Proposal.uuids proposal).trans ownUuids, chosen.trans open_⟩
    · exact ⟨(congrArg Proposal.value proposal).trans value, (congrArg Proposal.uuids proposal).trans uuids, chosen.trans open_⟩
  · have sameId : (adopt record peer).valueId = record.valueId := congrArg Proposal.valueId proposal
    refine ⟨by omega, by omega, by rw [accepted, sameId]; exact whole.valued, fun zero => ?_, full⟩
    rw [sameId] at zero
    obtain ⟨value, uuids, open_⟩ := whole.blank zero
    exact ⟨(congrArg Proposal.value proposal).trans value, (congrArg Proposal.uuids proposal).trans uuids, chosen.trans open_⟩

-- All records are whole, and as long as nothing is chosen the local promise is
-- the largest one that the machine knows of.
structure Neat (m : EntryStateMachine n) : Prop where
  whole : ∀ i, Whole (m.entryRecords i)
  covers : m.localRecord.chosen = false → ∀ i, (m.entryRecords i).promisedNum ≤ m.localRecord.promisedNum
  idle : m.entryState = .normal → m.localRecord.promisedNum = 0

theorem neat_records (m next : EntryStateMachine n) (records : next.entryRecords = m.entryRecords)
    (sameId : next.localAcceptorId = m.localAcceptorId) (state : next.entryState = m.entryState) (neat : m.Neat) : next.Neat := by
  have same : next.localRecord = m.localRecord := by
    rw [localRecord, records, sameId]
    rfl
  exact ⟨by rw [records]; exact neat.whole, by rw [same, records]; exact neat.covers, by rw [same, state]; exact neat.idle⟩

theorem neat_create (id : Fin n) (flags : Fin n → Bool) : (create id flags).Neat :=
  ⟨fun _ => whole_empty, fun _ _ => Nat.le_refl 0, fun _ => rfl⟩

theorem calc_idle (m next : EntryStateMachine n) (done : m.calcEntryState = some next) (state : next.entryState = .normal) :
    m.localRecord.promisedNum = 0 := by
  rw [calcEntryState] at done
  split at done
  · cases done
    cases state
  · split at done
    · cases done
      cases state
    · split at done
      · split at done
        · cases done
          cases state
        · split at done
          · cases done
            cases state
          · cases done
      · split at done
        · split at done
          · assumption
          · split at done
            · cases done
              cases state
            · split at done
              · cases done
                cases state
              · cases done
                cases state
        · cases done

-- Recomputing the state keeps whole records whole.
theorem calc_neat (m next : EntryStateMachine n) (record : EntryRecord) (whole : ∀ i, i ≠ m.localAcceptorId → Whole (m.entryRecords i))
    (localWhole : Whole record) (covers : record.chosen = false → ∀ i, i ≠ m.localAcceptorId →
      (m.entryRecords i).promisedNum ≤ record.promisedNum)
    (done : (m.setLocal record).calcEntryState = some next) : next.Neat := by
  obtain ⟨sameId, _, records, _⟩ := calc_effect _ next done
  rw [local_set_local] at records
  have result := calc_local _ next done
  rw [local_set_local] at result
  have sameLocal : (m.setLocal record).localAcceptorId = m.localAcceptorId := rfl
  have others : ∀ i, i ≠ m.localAcceptorId → next.entryRecords i = m.entryRecords i := by
    intro i other
    rw [records, sameLocal, Function.update_of_ne other]
    simp [setLocal, setRecord, other]
  have here : next.entryRecords m.localAcceptorId = { record with chosen := (m.setLocal record).decided } := by
    rw [records, sameLocal, Function.update_self]
  have marked : (m.setLocal record).decided = true → 0 < record.acceptedNum := by
    intro decides
    rw [decided, local_set_local] at decides
    rcases of_decide_eq_true decides with chosen | counted
    · by_contra none
      have zero : record.valueId = 0 := by
        have valued := localWhole.valued
        omega
      rw [(localWhole.blank zero).2.2] at chosen
      cases chosen
    · exact counted.1
  refine ⟨?_, ?_, fun state => ?_⟩
  · intro i
    by_cases self : i = m.localAcceptorId
    · rw [self, here]
      exact whole_marked record _ localWhole marked
    · rw [others i self]
      exact whole i self
  · intro open_ i
    rw [result] at open_ ⊢
    have notChosen : record.chosen = false := by
      by_contra chosen
      have decides : (m.setLocal record).decided = true := by
        rw [decided, local_set_local]
        simp [Bool.eq_true_of_not_eq_false chosen]
      rw [decides] at open_
      cases open_
    by_cases self : i = m.localAcceptorId
    · rw [self, here]
    · rw [others i self]
      exact covers notChosen i self
  · have none := calc_idle _ next done state
    rw [local_set_local] at none
    rw [result]
    exact none

theorem neat_update (m next : EntryStateMachine n) (peer : Fin n) (record : EntryRecord) (code : RetCode) (tidy : m.Tidy) (neat : m.Neat)
    (other : peer ≠ m.localAcceptorId) (done : m.update peer record = some (code, next)) : next.Neat := by
  rcases update_cases m next peer record code done with
    rfl | ⟨_, full, valid, _, ⟨self, _⟩ | ⟨_, closed, rfl⟩ | ⟨_, pending, computed⟩⟩
  · exact neat
  · exact absurd self other
  · have peerWhole := (whole_iff record).mpr ⟨valid, full⟩
    refine ⟨fun i => ?_, fun open_ => ?_, fun state => ?_⟩
    · by_cases here : i = peer
      · subst here
        simpa [setRecord] using peerWhole
      · simpa [setRecord, here] using neat.whole i
    · rw [local_set_other m peer record other, tidy.chosen.mp closed] at open_
      cases open_
    · have same : m.entryState = .normal := state
      rw [same] at closed
      cases closed
  · have peerWhole := (whole_iff record).mpr ⟨valid, full⟩
    have open_ : m.localRecord.chosen = false := by
      by_contra marked
      exact pending (tidy.chosen.mpr (by simpa using marked))
    obtain ⟨_, promised, _⟩ := adopt_cases m.localRecord record
    refine calc_neat (m.setRecord peer record) next (adopt m.localRecord record) (fun i _ => ?_)
      (adopt_whole m.localRecord record (neat.whole _) peerWhole) (fun _ i _ => ?_) computed
    · by_cases here : i = peer
      · subst here
        simpa [setRecord] using peerWhole
      · simpa [setRecord, here] using neat.whole i
    · rw [promised]
      by_cases here : i = peer
      · subst here
        simp [setRecord]
      · have covered := neat.covers open_ i
        simp only [setRecord, Function.update_of_ne here]
        omega

theorem neat_load (m next : EntryStateMachine n) (record : EntryRecord) (code : RetCode) (empty : ∀ i, m.entryRecords i = {})
    (done : m.update m.localAcceptorId record = some (code, next)) : next.Neat := by
  rcases update_cases m next m.localAcceptorId record code done with
    rfl | ⟨_, full, valid, _, ⟨_, computed⟩ | ⟨other, _⟩ | ⟨other, _⟩⟩
  · exact ⟨fun i => by rw [empty i]; exact whole_empty, fun _ i => by rw [empty i]; exact Nat.zero_le _,
      fun _ => by rw [localRecord, empty]⟩
  · refine calc_neat m next record (fun i _ => ?_) ((whole_iff record).mpr ⟨valid, full⟩) (fun _ i _ => ?_) computed
    · rw [empty i]
      exact whole_empty
    · rw [empty i]
      exact Nat.zero_le _
  · exact absurd (Fin.ext rfl) other
  · exact absurd (Fin.ext rfl) other

theorem neat_promise (m next : EntryStateMachine n) (preAuth : Bool) (code : RetCode) (neat : m.Neat)
    (above : m.localRecord.promisedNum < m.nextNum preAuth) (done : m.promise preAuth = some (code, next)) : next.Neat := by
  have whole := neat.whole m.localAcceptorId
  have accepted : m.localRecord.acceptedNum ≤ m.localRecord.promisedNum := whole.accepted
  refine calc_neat m next { m.localRecord with preparedNum := m.nextNum preAuth, promisedNum := m.nextNum preAuth } (fun i _ => neat.whole i)
    ⟨Nat.le_refl _, ?_, whole.valued, whole.blank, whole.full⟩ (fun open_ i _ => ?_) (promise_cases m next preAuth code done)
  · dsimp only
    omega
  · have covered := neat.covers open_ i
    dsimp only
    omega

theorem neat_accept (m next : EntryStateMachine n) (value : Bytes) (valueId : Nat) (uuids : List Nat) (code : RetCode) (fresh : Bool)
    (tidy : m.Tidy) (neat : m.Neat) (positive : 0 < valueId) (done : m.accept value valueId uuids = some (code, fresh, next)) :
    next.Neat := by
  rcases accept_cases m next value valueId uuids code fresh done with rfl | ⟨acceptable, promised, _, _, computed⟩
  · exact neat
  · have open_ := (acceptable_cases m tidy acceptable).1
    have whole : Whole m.localRecord := neat.whole m.localAcceptorId
    have best := neat.whole m.selected
    refine calc_neat m next (m.acceptedRecord value valueId uuids) (fun i _ => neat.whole i) ?_ (fun _ i _ => ?_) computed
    · obtain ⟨samePrepared, samePromised, sameAccepted, sameChosen⟩ := accepted_shape m value valueId uuids
      have prepared := whole.prepared
      refine ⟨by omega, by omega, ?_, fun zero => ?_, ?_⟩
      · rw [sameAccepted]
        refine ⟨fun _ => ?_, fun _ => promised⟩
        simp only [acceptedRecord]
        split
        · rename_i voted
          exact best.valued.mp voted
        · exact positive
      · simp only [acceptedRecord] at zero
        split at zero
        · rename_i voted
          have some := best.valued.mp voted
          have none : (m.entryRecords m.selected).valueId = 0 := zero
          omega
        · have none : valueId = 0 := zero
          omega
      · simp only [acceptedRecord]
        split <;> exact whole.full
    · rw [(accepted_shape m value valueId uuids).2.1]
      exact neat.covers open_ i

-- The promise of a machine that knows of no larger one is granted locally.
theorem promise_granted (m next : EntryStateMachine n) (preAuth : Bool) (code : RetCode) (tidy : m.Tidy) (neat : m.Neat)
    (wide : 2 ≤ n) (open_ : m.localRecord.chosen = false) (above : m.localRecord.promisedNum < m.nextNum preAuth)
    (done : m.promise preAuth = some (code, next)) : code = .ok := by
  obtain ⟨result, computed, pair⟩ := Option.map_eq_some_iff.mp done
  simp only [Prod.mk.injEq] at pair
  obtain ⟨rfl, rfl⟩ := pair
  have still := promise_open m result preAuth _ tidy open_ done
  have accepted : m.localRecord.acceptedNum ≤ m.localRecord.promisedNum := (neat.whole m.localAcceptorId).accepted
  have few : ((m.setLocal { m.localRecord with preparedNum := m.nextNum preAuth, promisedNum := m.nextNum preAuth }).promisedBy
      (m.nextNum preAuth)).card ≤ 1 := by
    rw [← Finset.card_singleton m.localAcceptorId]
    refine Finset.card_le_card fun i member => ?_
    rw [promisedBy, Finset.mem_filter] at member
    rw [Finset.mem_singleton]
    by_contra other
    have here := member.2
    simp only [setLocal, setRecord, Function.update_of_ne other] at here
    have covered := neat.covers open_ i
    omega
  rw [calcEntryState] at computed
  rw [local_set_local] at computed
  dsimp only at computed
  rw [if_neg (by simp [open_])] at computed
  split at computed
  · cases computed
    rw [local_set_local] at still
    cases still
  · simp only [gt_iff_lt, lt_self_iff_false, if_false, true_and] at computed
    rw [if_pos (by omega), if_neg (by omega), if_neg (by omega), if_neg (Nat.not_le.mpr (Nat.lt_of_le_of_lt few (by omega)))] at computed
    cases computed
    simp

-- What is not newer is the same: every change of the local record counts.
theorem update_same (m next : EntryStateMachine n) (peer : Fin n) (record : EntryRecord) (code : RetCode) (tidy : m.Tidy)
    (other : peer ≠ m.localAcceptorId) (done : m.update peer record = some (code, next))
    (same : isRecordNewer m.localRecord next.localRecord = false) : next.localRecord = m.localRecord := by
  rcases update_cases m next peer record code done with rfl | ⟨_, _, _, _, ⟨self, _⟩ | ⟨_, _, rfl⟩ | ⟨_, pending, computed⟩⟩
  · rfl
  · exact absurd self other
  · exact local_set_other m peer record other
  · have open_ : m.localRecord.chosen = false := by
      by_contra marked
      exact pending (tidy.chosen.mpr (by simpa using marked))
    have result := calc_local _ next computed
    rw [local_set_local] at result
    have notChosen : next.localRecord.chosen = false := by
      by_contra marked
      simp [isRecordNewer, open_, marked] at same
    have numbers : next.localRecord.promisedNum ≤ m.localRecord.promisedNum ∧
        next.localRecord.acceptedNum ≤ m.localRecord.acceptedNum := by
      simp only [isRecordNewer, open_, notChosen, Bool.false_eq_true, if_false] at same
      split at same
      · cases same
      · omega
    obtain ⟨prepared, promised, outcome⟩ := adopt_cases m.localRecord record
    rw [result] at notChosen numbers ⊢
    dsimp only at notChosen numbers
    have kept : (adopt m.localRecord record) = m.localRecord := by
      rcases outcome with ⟨taken, accepted, chosen, _⟩ | ⟨_, accepted, chosen, proposal⟩
      · rcases taken with marked | larger
        · have decides : ((m.setRecord peer record).setLocal (adopt m.localRecord record)).decided = true := by
            rw [decided, local_set_local, chosen, marked]
            simp
          rw [decides] at notChosen
          cases notChosen
        · omega
      · have samePromised : (adopt m.localRecord record).promisedNum = m.localRecord.promisedNum := by omega
        have sameFull : (adopt m.localRecord record).hasValueIdOnly = m.localRecord.hasValueIdOnly := by
          simp only [adopt]
          split <;> split <;> (try split) <;> rfl
        have ids := congrArg Proposal.valueId proposal
        have values := congrArg Proposal.value proposal
        have uuids := congrArg Proposal.uuids proposal
        cases adopted : adopt m.localRecord record with
        | mk a b c d e f g h =>
            cases own : m.localRecord with
            | mk a' b' c' d' e' f' g' h' =>
                rw [adopted, own] at prepared samePromised accepted chosen sameFull ids values uuids
                simp only [EntryRecord.proposal] at prepared samePromised accepted chosen sameFull ids values uuids
                subst prepared samePromised accepted chosen sameFull ids values uuids
                rfl
    rw [notChosen, kept]
    exact chosen_eta m.localRecord false open_

end EntryStateMachine

end PaxosStore.Certain
