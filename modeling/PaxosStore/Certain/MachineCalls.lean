import PaxosStore.Certain.MachineSteps

set_option autoImplicit false

namespace PaxosStore.Certain.EntryStateMachine

open PaxosStore.Consensus

variable {n : Nat}

-- A call on the machine of one entry. Peers may send anything.
inductive Call where
  | update (peer : Nat) (record : EntryRecord)
  | promise (preAuth : Bool)
  | accept (value : Bytes) (valueId : Nat) (uuids : List Nat)
deriving DecidableEq

-- `none` denotes a failed assertion.
def invoke (m : EntryStateMachine n) : Call → Option (EntryStateMachine n)
  | .update peer record => (m.update peer record).map (·.2)
  | .promise preAuth => (m.promise preAuth).map (·.2)
  | .accept value valueId uuids => (m.accept value valueId uuids).map (·.2.2)

-- The calls that are made on a machine: a record of its own is loaded only once, a
-- chosen entry is not proposed for, and the ballot is below 2^32.
def Allowed (m : EntryStateMachine n) : Call → Prop
  | .update peer _ => peer ≠ m.localAcceptorId
  | .promise preAuth => m.entryState ≠ .chosen ∧ m.exactNum preAuth < 2 ^ 32
  | .accept _ valueId _ => 0 < valueId

inductive Called : EntryStateMachine n → Prop
  | created (id : Fin n) (flags : Fin n → Bool) : Called (create id flags)
  | loaded (id : Fin n) (flags : Fin n → Bool) (record : EntryRecord) (code : RetCode) (m : EntryStateMachine n)
      (done : (create id flags).update id record = some (code, m)) : Called m
  | called (m next : EntryStateMachine n) (call : Call) (before : Called m) (allowed : m.Allowed call)
      (done : m.invoke call = some next) : Called next

-- What holds of the records whatever the peers send.
structure Sane (m : EntryStateMachine n) : Prop where
  tidy : m.Tidy
  valid : ∀ i, isValidRecord (m.entryRecords i) = true ∧ (m.entryRecords i).hasValueIdOnly = false
  promised : m.localRecord.chosen = false → ∀ i, (m.entryRecords i).promisedNum ≤ m.localRecord.promisedNum
  accepted : m.localRecord.chosen = false → ∀ i, (m.entryRecords i).acceptedNum < m.localRecord.promisedNum ∨
    (m.entryRecords i).acceptedNum ≤ m.localRecord.acceptedNum

-- A record without the value id mark, in terms of its numbers.
theorem valid_iff (record : EntryRecord) (whole : record.hasValueIdOnly = false) :
    isValidRecord record = true ↔
      record.preparedNum ≤ record.promisedNum ∧ record.acceptedNum ≤ record.promisedNum ∧
        (record.acceptedNum = 0 ↔ record.valueId = 0) ∧
        (record.valueId = 0 → record.value = [] ∧ record.uuids = [] ∧ record.chosen = false) := by
  unfold isValidRecord
  rw [whole]
  simp only [Bool.false_eq_true, false_and, if_false]
  by_cases ordered : record.preparedNum > record.promisedNum ∨ record.promisedNum < record.acceptedNum
  · rw [if_pos ordered]
    simp only [Bool.false_eq_true, false_iff]
    omega
  · rw [if_neg ordered]
    by_cases mixed : record.acceptedNum = 0 ∧ record.valueId > 0 ∨ record.acceptedNum > 0 ∧ record.valueId = 0
    · rw [if_pos mixed]
      simp only [Bool.false_eq_true, false_iff]
      omega
    · rw [if_neg mixed]
      have ids : record.acceptedNum = 0 ↔ record.valueId = 0 := by omega
      by_cases blank : record.valueId = 0 ∧ (record.value.length > 0 ∨ record.uuids.length > 0 ∨ record.chosen = true)
      · rw [if_pos blank]
        obtain ⟨zero, some_data⟩ := blank
        simp only [Bool.false_eq_true, false_iff]
        rintro ⟨-, -, -, empty⟩
        obtain ⟨value, uuids, chosen⟩ := empty zero
        simp [value, uuids, chosen] at some_data
      · rw [if_neg blank]
        simp only [true_iff]
        refine ⟨by omega, by omega, ids, fun zero => ?_⟩
        simp only [zero, true_and, not_or, gt_iff_lt, List.length_pos_iff, ne_eq, not_not, Bool.not_eq_true] at blank
        exact blank

theorem calc_total (m : EntryStateMachine n) (prepared : m.localRecord.preparedNum ≤ m.localRecord.promisedNum)
    (accepted : m.localRecord.acceptedNum ≤ m.localRecord.promisedNum) : ∃ next, m.calcEntryState = some next := by
  unfold calcEntryState
  dsimp only
  split
  · exact ⟨_, rfl⟩
  · split
    · exact ⟨_, rfl⟩
    · split
      · split
        · exact ⟨_, rfl⟩
        · rw [if_pos (by omega)]
          exact ⟨_, rfl⟩
      · rw [if_pos (by omega)]
        split
        · exact ⟨_, rfl⟩
        · split
          · exact ⟨_, rfl⟩
          · split <;> exact ⟨_, rfl⟩

-- CalcEntryState leaves the numbers, and a mark it sets belongs to a value.
theorem sane_calc (m next : EntryStateMachine n) (done : m.calcEntryState = some next)
    (valid : ∀ i, isValidRecord (m.entryRecords i) = true ∧ (m.entryRecords i).hasValueIdOnly = false)
    (promised : m.localRecord.chosen = false → ∀ i, (m.entryRecords i).promisedNum ≤ m.localRecord.promisedNum)
    (accepted : m.localRecord.chosen = false → ∀ i, (m.entryRecords i).acceptedNum < m.localRecord.promisedNum ∨
      (m.entryRecords i).acceptedNum ≤ m.localRecord.acceptedNum) : next.Sane := by
  obtain ⟨sameId, -, records, tidy⟩ := calc_effect m next done
  have local_ := calc_local m next done
  have numbers : ∀ i, (next.entryRecords i).promisedNum = (m.entryRecords i).promisedNum ∧
      (next.entryRecords i).acceptedNum = (m.entryRecords i).acceptedNum := by
    intro i
    rw [records]
    by_cases here : i = m.localAcceptorId
    · subst here
      simp [localRecord]
    · simp [here]
  have open_before : next.localRecord.chosen = false → m.localRecord.chosen = false := by
    intro open_
    rw [local_] at open_
    cases marked : m.localRecord.chosen with
    | false => rfl
    | true => simp [decided, marked] at open_
  refine ⟨tidy, fun i => ?_, fun open_ i => ?_, fun open_ i => ?_⟩
  · by_cases here : i = m.localAcceptorId
    · subst here
      obtain ⟨fine, whole⟩ := valid m.localAcceptorId
      rw [records, Function.update_self]
      have known := (valid_iff _ whole).mp fine
      refine ⟨(valid_iff { m.localRecord with chosen := m.decided } whole).mpr ⟨known.1, known.2.1, known.2.2.1, fun zero => ?_⟩, whole⟩
      obtain ⟨value, uuids, unmarked⟩ := known.2.2.2 zero
      refine ⟨value, uuids, ?_⟩
      have none_accepted : m.localRecord.acceptedNum = 0 := known.2.2.1.mpr zero
      change m.localRecord.chosen = false at unmarked
      simp [decided, unmarked, none_accepted]
    · rw [records, Function.update_of_ne here]
      exact valid i
  · rw [(numbers i).1, local_]
    exact promised (open_before open_) i
  · rw [(numbers i).2, local_]
    exact accepted (open_before open_) i

theorem sane_create (id : Fin n) (flags : Fin n → Bool) : (create id flags).Sane where
  tidy := tidy_create id flags
  valid := fun _ => ⟨by rw [show (create id flags).entryRecords _ = {} from rfl]; decide, rfl⟩
  promised := fun _ _ => Nat.le_refl _
  accepted := fun _ _ => .inr (Nat.le_refl _)

theorem set_record_same (m : EntryStateMachine n) (i : Fin n) (record : EntryRecord) : (m.setRecord i record).entryRecords i = record := by
  simp [setRecord]

theorem set_record_other (m : EntryStateMachine n) (i j : Fin n) (record : EntryRecord) (other : j ≠ i) :
    (m.setRecord i record).entryRecords j = m.entryRecords j := by
  simp [setRecord, other]

-- Loading the machine's own record from plog.
theorem sane_load (id : Fin n) (flags : Fin n → Bool) (record : EntryRecord) :
    ∃ code m, (create id flags).update id record = some (code, m) ∧ m.Sane := by
  rw [update, dif_pos id.isLt]
  by_cases refused : record.hasValueIdOnly = true ∨ ¬ isValidRecord record = true
  · rw [if_pos refused]
    exact ⟨_, _, rfl, sane_create id flags⟩
  · rw [if_neg refused]
    obtain ⟨whole, fine⟩ := not_or.mp refused
    have whole : record.hasValueIdOnly = false := by simpa using whole
    have fine := not_not.mp fine
    by_cases newer : isRecordNewer ((create id flags).entryRecords id) record = true
    · simp only [Fin.eta, newer, not_true, if_false]
      have self : (id : Nat) = ((create id flags).setRecord id record).localAcceptorId := rfl
      rw [if_pos self]
      have local_ : ((create id flags).setRecord id record).localRecord = record := set_record_same _ id record
      obtain ⟨prepared, accepted, -, -⟩ := (valid_iff record whole).mp fine
      obtain ⟨next, done⟩ := calc_total ((create id flags).setRecord id record) (by rw [local_]; exact prepared) (by rw [local_]; exact accepted)
      have each : ∀ i, ((create id flags).setRecord id record).entryRecords i = record ∨
          ((create id flags).setRecord id record).entryRecords i = {} := by
        intro i
        by_cases here : i = id
        · subst here
          exact .inl (set_record_same _ _ record)
        · exact .inr (set_record_other _ id i record here)
      refine ⟨.ok, next, by rw [done]; rfl, sane_calc _ next done (fun i => ?_) (fun _ i => ?_) (fun _ i => ?_)⟩
      · rcases each i with same | same <;> rw [same]
        · exact ⟨fine, whole⟩
        · decide
      · rcases each i with same | same <;> rw [same, local_]
        exact Nat.zero_le _
      · rcases each i with same | same <;> rw [same, local_]
        · exact .inr (Nat.le_refl _)
        · exact .inr (Nat.zero_le _)
    · simp only [Fin.eta, newer, Bool.false_eq_true, not_false_eq_true, if_true]
      exact ⟨_, _, rfl, sane_create id flags⟩

theorem adopt_keeps_whole (record peer : EntryRecord) : (adopt record peer).hasValueIdOnly = record.hasValueIdOnly := by
  unfold adopt
  dsimp only
  split <;> split <;> first | rfl | (split <;> rfl)

theorem adopt_valid (record peer : EntryRecord) (whole : record.hasValueIdOnly = false) (whole_peer : peer.hasValueIdOnly = false)
    (fine : isValidRecord record = true) (fine_peer : isValidRecord peer = true) : isValidRecord (adopt record peer) = true := by
  obtain ⟨prepared, accepted, ids, blank⟩ := (valid_iff record whole).mp fine
  obtain ⟨-, accepted_peer, ids_peer, blank_peer⟩ := (valid_iff peer whole_peer).mp fine_peer
  obtain ⟨samePrepared, promised, ⟨-, num, mark, proposal⟩ | ⟨-, num, mark, proposal⟩⟩ := adopt_cases record peer
  · refine (valid_iff _ ((adopt_keeps_whole record peer).trans whole)).mpr ⟨by omega, by omega, ?_, ?_⟩
    · have sameId : (adopt record peer).valueId = peer.valueId := by
        split at proposal
        · rename_i same
          exact (congrArg Proposal.valueId proposal).trans same
        · exact congrArg Proposal.valueId proposal
      rw [num, sameId]
      exact ids_peer
    · intro zero
      split at proposal
      · rename_i same
        have sameId : (adopt record peer).valueId = record.valueId := congrArg Proposal.valueId proposal
        obtain ⟨value, uuids, -⟩ := blank (sameId ▸ zero)
        obtain ⟨-, -, unmarked⟩ := blank_peer (by rw [← same, ← sameId]; exact zero)
        exact ⟨(congrArg Proposal.value proposal).trans value, (congrArg Proposal.uuids proposal).trans uuids, mark.trans unmarked⟩
      · have sameId : (adopt record peer).valueId = peer.valueId := congrArg Proposal.valueId proposal
        obtain ⟨value, uuids, unmarked⟩ := blank_peer (sameId ▸ zero)
        exact ⟨(congrArg Proposal.value proposal).trans value, (congrArg Proposal.uuids proposal).trans uuids, mark.trans unmarked⟩
  · have sameId : (adopt record peer).valueId = record.valueId := congrArg Proposal.valueId proposal
    refine (valid_iff _ ((adopt_keeps_whole record peer).trans whole)).mpr ⟨by omega, by omega, by rw [num, sameId]; exact ids, fun zero => ?_⟩
    obtain ⟨value, uuids, unmarked⟩ := blank (sameId ▸ zero)
    exact ⟨(congrArg Proposal.value proposal).trans value, (congrArg Proposal.uuids proposal).trans uuids, mark.trans unmarked⟩

-- Where the accepted number stays, the peer's is too small.
theorem adopt_behind (record peer : EntryRecord) (left : (adopt record peer).acceptedNum = record.acceptedNum) :
    peer.acceptedNum < max record.promisedNum peer.promisedNum ∨ peer.acceptedNum ≤ record.acceptedNum := by
  by_contra wrong
  have promised : (if record.promisedNum < peer.promisedNum then { record with promisedNum := peer.promisedNum } else record) =
      { record with promisedNum := max record.promisedNum peer.promisedNum } := by
    split
    · rw [Nat.max_eq_right (by omega)]
    · rw [Nat.max_eq_left (by omega)]
  unfold adopt at left
  rw [promised] at left
  dsimp only at left
  rw [if_pos (.inr (by omega))] at left
  split at left <;> dsimp only at left <;> omega

-- What a call leaves of the numbers of a local record that is not chosen.
def Grows (old new : EntryRecord) : Prop :=
  old.promisedNum ≤ new.promisedNum ∧ (new.chosen = false → old.acceptedNum ≤ new.acceptedNum)

-- A peer's record that is stored, and adopted unless the entry is chosen.
theorem sane_update (m : EntryStateMachine n) (sane : m.Sane) (peer : Nat) (record : EntryRecord) (other : peer ≠ m.localAcceptorId) :
    ∃ code next, m.update peer record = some (code, next) ∧ next.Sane ∧
      (m.localRecord.chosen = false → Grows m.localRecord next.localRecord) := by
  have stays : m.localRecord.chosen = false → Grows m.localRecord m.localRecord := fun _ => ⟨Nat.le_refl _, fun _ => Nat.le_refl _⟩
  rw [update]
  by_cases bound : peer < n
  · rw [dif_pos bound]
    by_cases refused : record.hasValueIdOnly = true ∨ ¬ isValidRecord record = true
    · rw [if_pos refused]
      exact ⟨_, _, rfl, sane, stays⟩
    · rw [if_neg refused]
      obtain ⟨whole, fine⟩ := not_or.mp refused
      have whole : record.hasValueIdOnly = false := by simpa using whole
      have fine := not_not.mp fine
      have apart : m.localAcceptorId ≠ ⟨peer, bound⟩ := fun same => other (by rw [same])
      have stored : ∀ i, isValidRecord ((m.setRecord ⟨peer, bound⟩ record).entryRecords i) = true ∧
          ((m.setRecord ⟨peer, bound⟩ record).entryRecords i).hasValueIdOnly = false := by
        intro i
        by_cases here : i = ⟨peer, bound⟩
        · subst here
          rw [set_record_same]
          exact ⟨fine, whole⟩
        · rw [set_record_other _ _ i record here]
          exact sane.valid i
      have local_kept : (m.setRecord ⟨peer, bound⟩ record).localRecord = m.localRecord := set_record_other m _ _ record apart
      by_cases newer : isRecordNewer (m.entryRecords ⟨peer, bound⟩) record = true
      · simp only [newer, not_true, if_false]
        rw [if_neg (show ¬ peer = (m.setRecord ⟨peer, bound⟩ record).localAcceptorId from other)]
        by_cases closed : (m.setRecord ⟨peer, bound⟩ record).entryState = .chosen
        · rw [if_pos closed]
          have marked : m.localRecord.chosen = true := sane.tidy.chosen.mp closed
          refine ⟨_, _, rfl, ⟨?_, stored, fun open_ => ?_, fun open_ => ?_⟩, fun open_ => ?_⟩
          · exact tidy_of_chosen _ closed (by rw [local_kept]; exact marked)
          all_goals
            first
            | rw [local_kept, marked] at open_
            | rw [marked] at open_
            cases open_
        · rw [if_neg closed, local_kept]
          have open_ : m.localRecord.chosen = false := by
            cases marked : m.localRecord.chosen with
            | false => rfl
            | true => exact absurd (sane.tidy.chosen.mpr marked) closed
          have own := sane.valid m.localAcceptorId
          have valid := adopt_valid m.localRecord record own.2 whole own.1 fine
          have adopted_whole := (adopt_keeps_whole m.localRecord record).trans own.2
          obtain ⟨prepared, accepted, -, -⟩ := (valid_iff _ adopted_whole).mp valid
          obtain ⟨-, accepted_peer, -, -⟩ := (valid_iff record whole).mp fine
          obtain ⟨-, promised, taken⟩ := adopt_cases m.localRecord record
          have new_local := local_set_local (m.setRecord ⟨peer, bound⟩ record) (adopt m.localRecord record)
          have elsewhere : ∀ i, i ≠ m.localAcceptorId → i ≠ ⟨peer, bound⟩ →
              ((m.setRecord ⟨peer, bound⟩ record).setLocal (adopt m.localRecord record)).entryRecords i = m.entryRecords i := by
            intro i not_self not_peer
            exact (set_record_other _ m.localAcceptorId i _ not_self).trans (set_record_other m _ i record not_peer)
          have at_peer : ((m.setRecord ⟨peer, bound⟩ record).setLocal (adopt m.localRecord record)).entryRecords ⟨peer, bound⟩ = record :=
            (set_record_other _ m.localAcceptorId _ _ (Ne.symm apart)).trans (set_record_same m _ record)
          have at_self : ((m.setRecord ⟨peer, bound⟩ record).setLocal (adopt m.localRecord record)).entryRecords m.localAcceptorId =
              adopt m.localRecord record := new_local
          obtain ⟨next, done⟩ := calc_total ((m.setRecord ⟨peer, bound⟩ record).setLocal (adopt m.localRecord record))
            (by rw [new_local]; exact prepared) (by rw [new_local]; exact accepted)
          have result := calc_local _ next done
          rw [new_local] at result
          refine ⟨.ok, next, by rw [done]; rfl, sane_calc _ next done (fun i => ?_) (fun unmarked i => ?_) (fun unmarked i => ?_), fun _ => ?_⟩
          · by_cases self : i = m.localAcceptorId
            · rw [self, at_self]
              exact ⟨valid, adopted_whole⟩
            · by_cases sender : i = ⟨peer, bound⟩
              · rw [sender, at_peer]
                exact ⟨fine, whole⟩
              · rw [elsewhere i self sender]
                exact sane.valid i
          · rw [new_local]
            by_cases self : i = m.localAcceptorId
            · rw [self, at_self]
            · by_cases sender : i = ⟨peer, bound⟩
              · rw [sender, at_peer]
                omega
              · have old := sane.promised open_ i
                rw [elsewhere i self sender]
                omega
          · rw [new_local] at unmarked ⊢
            have own_ordered : m.localRecord.acceptedNum ≤ (adopt m.localRecord record).acceptedNum := by
              rcases taken with ⟨chosen | ⟨-, behind⟩, num, mark, -⟩ | ⟨-, num, -, -⟩
              · rw [mark, chosen] at unmarked
                cases unmarked
              · omega
              · omega
            by_cases self : i = m.localAcceptorId
            · rw [self, at_self]
              exact .inr (Nat.le_refl _)
            · by_cases sender : i = ⟨peer, bound⟩
              · rw [sender, at_peer]
                rcases taken with ⟨-, num, -, -⟩ | ⟨unchosen, num, -, -⟩
                · exact .inr (by omega)
                · have behind := adopt_behind m.localRecord record num
                  omega
              · have old := sane.accepted open_ i
                rw [elsewhere i self sender]
                omega
          · rw [result]
            refine ⟨by dsimp only; omega, fun unmarked => ?_⟩
            dsimp only at unmarked ⊢
            rcases taken with ⟨chosen | ⟨-, behind⟩, num, mark, -⟩ | ⟨-, num, -, -⟩
            · have chosen_too : (adopt m.localRecord record).chosen = true := mark.trans chosen
              simp [decided, new_local, chosen_too] at unmarked
            · omega
            · omega
      · simp only [newer, Bool.false_eq_true, not_false_eq_true, if_true]
        exact ⟨_, _, rfl, sane, stays⟩
  · rw [dif_neg bound]
    exact ⟨_, _, rfl, sane, stays⟩

theorem exact_of_next (m : EntryStateMachine n) (few : n ≤ kMaxAcceptorNum) (preAuth : Bool) (fits : m.exactNum preAuth < 2 ^ 32) :
    m.nextNum preAuth = m.exactNum preAuth ∧ m.localRecord.promisedNum < m.nextNum preAuth := by
  have same := next_num_exact m preAuth few fits
  exact ⟨same, by rw [same]; exact exact_num_above m preAuth⟩

theorem sane_promise (m : EntryStateMachine n) (sane : m.Sane) (preAuth : Bool) (open_ : m.localRecord.chosen = false)
    (above : m.localRecord.promisedNum < m.nextNum preAuth) :
    ∃ code next, m.promise preAuth = some (code, next) ∧ next.Sane ∧ Grows m.localRecord next.localRecord ∧
      next.localRecord.preparedNum = m.nextNum preAuth ∧ next.localRecord.promisedNum = m.nextNum preAuth := by
  obtain ⟨fine, whole⟩ := sane.valid m.localAcceptorId
  obtain ⟨prepared, accepted, ids, blank⟩ := (valid_iff _ whole).mp fine
  change m.localRecord.preparedNum ≤ m.localRecord.promisedNum at prepared
  change m.localRecord.acceptedNum ≤ m.localRecord.promisedNum at accepted
  generalize raised : ({ m.localRecord with preparedNum := m.nextNum preAuth, promisedNum := m.nextNum preAuth } : EntryRecord) = record
  have numbers : record.preparedNum = m.nextNum preAuth ∧ record.promisedNum = m.nextNum preAuth ∧
      record.acceptedNum = m.localRecord.acceptedNum := by
    subst raised
    exact ⟨rfl, rfl, rfl⟩
  have new_local := local_set_local m record
  obtain ⟨next, done⟩ := calc_total (m.setLocal record) (by rw [new_local]; omega) (by rw [new_local]; omega)
  have result := calc_local _ next done
  rw [new_local] at result
  have each : ∀ i, i ≠ m.localAcceptorId → (m.setLocal record).entryRecords i = m.entryRecords i := fun i other =>
    set_record_other m m.localAcceptorId i record other
  have at_self : (m.setLocal record).entryRecords m.localAcceptorId = record := new_local
  have promise_eq : m.promise preAuth = some (if next.entryState ≠ .promiseLocal then .invalidEntryState else .ok, next) := by
    rw [promise]
    dsimp only
    rw [raised, done]
    rfl
  refine ⟨_, next, promise_eq, sane_calc _ next done (fun i => ?_) (fun _ i => ?_) (fun _ i => ?_), ⟨?_, fun _ => ?_⟩, ?_, ?_⟩
  · by_cases self : i = m.localAcceptorId
    · rw [self, at_self]
      subst raised
      exact ⟨(valid_iff { m.localRecord with preparedNum := m.nextNum preAuth, promisedNum := m.nextNum preAuth } whole).mpr
        ⟨Nat.le_refl _, show m.localRecord.acceptedNum ≤ m.nextNum preAuth by omega, ids, blank⟩, whole⟩
    · rw [each i self]
      exact sane.valid i
  · rw [new_local]
    by_cases self : i = m.localAcceptorId
    · rw [self, at_self]
    · have old := sane.promised open_ i
      rw [each i self]
      omega
  · rw [new_local]
    by_cases self : i = m.localAcceptorId
    · rw [self, at_self]
      exact .inr (Nat.le_refl _)
    · have old := sane.accepted open_ i
      rw [each i self]
      omega
  all_goals
    rw [result]
    dsimp only
    omega

theorem promise_runs (m : EntryStateMachine n) (sane : m.Sane) (few : n ≤ kMaxAcceptorNum) (preAuth : Bool)
    (allowed : m.Allowed (.promise preAuth)) :
    ∃ next, m.invoke (.promise preAuth) = some next ∧ next.Sane ∧ Grows m.localRecord next.localRecord := by
  have open_ : m.localRecord.chosen = false := by
    cases marked : m.localRecord.chosen with
    | false => rfl
    | true => exact absurd (sane.tidy.chosen.mpr marked) allowed.1
  obtain ⟨code, next, done, fine, grows, -, -⟩ := sane_promise m sane preAuth open_ (exact_of_next m few preAuth allowed.2).2
  exact ⟨next, by rw [invoke, done]; rfl, fine, grows⟩

-- Nobody else has accepted the ballot that this machine accepts at.
theorem sane_accept (m : EntryStateMachine n) (sane : m.Sane) (two : 2 ≤ n) (value : Bytes) (valueId : Nat) (uuids : List Nat)
    (named : 0 < valueId) :
    ∃ code fresh next, m.accept value valueId uuids = some (code, fresh, next) ∧ next.Sane ∧ Grows m.localRecord next.localRecord := by
  rw [accept]
  by_cases acceptable : m.isLocalAcceptable = true
  · obtain ⟨open_, prepared, behind, -⟩ := acceptable_cases m sane.tidy acceptable
    rw [if_neg (not_not.mpr acceptable), if_neg (by omega)]
    obtain ⟨shape_prepared, shape_promised, shape_accepted, shape_chosen⟩ := accepted_shape m value valueId uuids
    have own := sane.valid m.localAcceptorId
    generalize made : m.acceptedRecord value valueId uuids = record at shape_prepared shape_promised shape_accepted shape_chosen
    have new_local := local_set_local m record
    have each : ∀ i, i ≠ m.localAcceptorId → (m.setLocal record).entryRecords i = m.entryRecords i := fun i other =>
      set_record_other m m.localAcceptorId i record other
    have at_self : (m.setLocal record).entryRecords m.localAcceptorId = record := new_local
    have alone : (m.setLocal record).acceptedBy record.acceptedNum ⊆ {m.localAcceptorId} := by
      intro i member
      rw [acceptedBy, Finset.mem_filter] at member
      rw [Finset.mem_singleton]
      by_contra other
      rw [each i other] at member
      rcases sane.accepted open_ i with less | less <;> omega
    have few := Finset.card_le_card alone
    rw [Finset.card_singleton] at few
    have state : ∃ next, (m.setLocal record).calcEntryState = some next ∧ next.entryState = .acceptLocal := by
      unfold calcEntryState
      dsimp only
      rw [new_local, shape_chosen, open_, if_neg Bool.false_ne_true, if_neg (by omega), if_neg (by omega), if_pos (by omega),
        if_neg (by omega), if_pos (by omega)]
      exact ⟨_, rfl, rfl⟩
    obtain ⟨next, done, accepted⟩ := state
    rw [done]
    dsimp only
    rw [if_pos accepted]
    have result := calc_local _ next done
    rw [new_local] at result
    have valid : isValidRecord record = true ∧ record.hasValueIdOnly = false := by
      have whole : record.hasValueIdOnly = false := by
        rw [← made]
        unfold acceptedRecord
        dsimp only
        split <;> exact own.2
      have some_id : record.valueId ≠ 0 := by
        rw [← made]
        unfold acceptedRecord
        dsimp only
        split
        · rename_i taken
          obtain ⟨fine, best_whole⟩ := sane.valid m.selected
          have ids := ((valid_iff _ best_whole).mp fine).2.2.1
          dsimp only
          omega
        · dsimp only
          omega
      refine ⟨(valid_iff record whole).mpr ⟨by omega, by omega, ⟨fun zero => ?_, fun zero => absurd zero some_id⟩, fun zero => absurd zero some_id⟩,
        whole⟩
      omega
    refine ⟨_, _, next, rfl, sane_calc _ next done (fun i => ?_) (fun _ i => ?_) (fun _ i => ?_), ?_, fun _ => ?_⟩
    · by_cases self : i = m.localAcceptorId
      · rw [self, at_self]
        exact valid
      · rw [each i self]
        exact sane.valid i
    · rw [new_local]
      by_cases self : i = m.localAcceptorId
      · rw [self, at_self]
      · have old := sane.promised open_ i
        rw [each i self]
        omega
    · rw [new_local]
      by_cases self : i = m.localAcceptorId
      · rw [self, at_self]
        exact .inr (Nat.le_refl _)
      · have old := sane.accepted open_ i
        rw [each i self]
        omega
    all_goals
      rw [result]
      dsimp only
      omega
  · rw [if_pos acceptable]
    exact ⟨_, _, _, rfl, sane, Nat.le_refl _, fun _ => Nat.le_refl _⟩

-- No call fails, and each keeps what holds of the records.
theorem invoke_sane (m : EntryStateMachine n) (sane : m.Sane) (two : 2 ≤ n) (few : n ≤ kMaxAcceptorNum) (call : Call)
    (allowed : m.Allowed call) :
    ∃ next, m.invoke call = some next ∧ next.Sane ∧ (m.localRecord.chosen = false → Grows m.localRecord next.localRecord) := by
  cases call with
  | update peer record =>
    obtain ⟨code, next, done, fine, grows⟩ := sane_update m sane peer record allowed
    exact ⟨next, by rw [invoke, done]; rfl, fine, grows⟩
  | promise preAuth =>
    obtain ⟨next, done, fine, grows⟩ := promise_runs m sane few preAuth allowed
    exact ⟨next, done, fine, fun _ => grows⟩
  | accept value valueId uuids =>
    obtain ⟨code, fresh, next, done, fine, grows⟩ := sane_accept m sane two value valueId uuids allowed
    exact ⟨next, by rw [invoke, done]; rfl, fine, fun _ => grows⟩

theorem called_sane (two : 2 ≤ n) (few : n ≤ kMaxAcceptorNum) (m : EntryStateMachine n) (called : Called m) : m.Sane := by
  induction called with
  | created id flags => exact sane_create id flags
  | loaded id flags record code m done =>
    obtain ⟨code', m', same, fine⟩ := sane_load id flags record
    rw [same] at done
    cases done
    exact fine
  | called m next call before allowed done ih =>
    obtain ⟨next', same, fine, -⟩ := invoke_sane m ih two few call allowed
    rw [same] at done
    cases done
    exact fine

-- Whatever the peers of an entry send, its records stay valid, the numbers of an entry
-- that is not chosen only grow, and no assertion fails.
theorem machine_keeps_invariants (two : 2 ≤ n) (few : n ≤ kMaxAcceptorNum) :
    (∀ (id : Fin n) (flags : Fin n → Bool) (record : EntryRecord), ((create id flags).update id record).isSome) ∧
      ∀ m : EntryStateMachine n, Called m →
        (∀ i, isValidRecord (m.entryRecords i) = true) ∧
          (m.entryState ≠ .chosen → ∀ i, (m.entryRecords i).promisedNum ≤ m.localRecord.promisedNum) ∧
          ∀ call, m.Allowed call → ∃ next, m.invoke call = some next ∧
            (m.entryState ≠ .chosen → m.localRecord.promisedNum ≤ next.localRecord.promisedNum ∧
              (next.entryState ≠ .chosen → m.localRecord.acceptedNum ≤ next.localRecord.acceptedNum)) := by
  constructor
  · intro id flags record
    obtain ⟨code, m, done, -⟩ := sane_load id flags record
    rw [done]
    rfl
  · intro m called
    have sane := called_sane two few m called
    have unmarked : ∀ m : EntryStateMachine n, m.Sane → m.entryState ≠ .chosen → m.localRecord.chosen = false := by
      intro m sane open_
      cases marked : m.localRecord.chosen with
      | false => rfl
      | true => exact absurd (sane.tidy.chosen.mpr marked) open_
    refine ⟨fun i => (sane.valid i).1, fun open_ => sane.promised (unmarked m sane open_), fun call allowed => ?_⟩
    obtain ⟨next, done, fine, grows⟩ := invoke_sane m sane two few call allowed
    refine ⟨next, done, fun open_ => ?_⟩
    obtain ⟨promised, accepted⟩ := grows (unmarked m sane open_)
    exact ⟨promised, fun still => accepted (unmarked next fine still)⟩

theorem machine_of_three_keeps_invariants :
    2 ≤ 3 ∧ 3 ≤ kMaxAcceptorNum ∧
      ∀ m : EntryStateMachine 3, Called m → ∀ i, isValidRecord (m.entryRecords i) = true :=
  ⟨by decide, by decide, fun m called => ((machine_keeps_invariants (by decide) (by decide)).2 m called).1⟩

end PaxosStore.Certain.EntryStateMachine
