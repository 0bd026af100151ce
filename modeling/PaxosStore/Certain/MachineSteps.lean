import PaxosStore.Certain.EntryStateMachine
import PaxosStore.Consensus.Quorum
import Mathlib.Tactic.IntervalCases

set_option autoImplicit false

namespace PaxosStore.Certain.EntryStateMachine

open PaxosStore.Consensus

variable {n : Nat}

-- The entry state says of the local record what the callers rely on.
structure Tidy (m : EntryStateMachine n) : Prop where
  chosen : m.entryState = .chosen ↔ m.localRecord.chosen = true
  proposing : m.entryState = .promiseLocal ∨ m.entryState = .majorityPromise →
    m.localRecord.preparedNum = m.localRecord.promisedNum ∧ m.localRecord.acceptedNum < m.localRecord.promisedNum
  major : m.entryState = .majorityPromise → Majority (m.promisedBy m.localRecord.promisedNum)
  counted : m.localRecord.chosen = false → 0 < m.localRecord.acceptedNum → ¬ Majority (m.acceptedBy m.localRecord.acceptedNum)

theorem tidy_create (id : Fin n) (flags : Fin n → Bool) : (create id flags).Tidy where
  chosen := by simp [create, localRecord]
  proposing := by simp [create]
  major := by simp [create]
  counted := by simp [create, localRecord]

theorem local_set_local (m : EntryStateMachine n) (record : EntryRecord) : (m.setLocal record).localRecord = record := by
  simp [setLocal, setRecord, localRecord]

theorem local_set_other (m : EntryStateMachine n) (i : Fin n) (record : EntryRecord) (other : i ≠ m.localAcceptorId) :
    (m.setRecord i record).localRecord = m.localRecord := by
  simp [setRecord, localRecord, Ne.symm other]

theorem set_local_same (m : EntryStateMachine n) : Function.update m.entryRecords m.localAcceptorId m.localRecord = m.entryRecords :=
  Function.update_eq_self m.localAcceptorId m.entryRecords

theorem chosen_eta (record : EntryRecord) (mark : Bool) (same : record.chosen = mark) :
    { record with chosen := mark } = record := by
  subst same
  rfl

def decided (m : EntryStateMachine n) : Bool :=
  m.localRecord.chosen ∨ m.localRecord.acceptedNum > 0 ∧ (m.acceptedBy m.localRecord.acceptedNum).card ≥ n / 2 + 1

theorem tidy_of_chosen (m : EntryStateMachine n) (state : m.entryState = .chosen) (chosen : m.localRecord.chosen = true) :
    m.Tidy where
  chosen := by simp [state, chosen]
  proposing := by simp [state]
  major := by simp [state]
  counted := by simp [chosen]

theorem tidy_of_idle (m : EntryStateMachine n) (state : m.entryState = .normal ∨ m.entryState = .promiseRemote ∨
    m.entryState = .acceptRemote ∨ m.entryState = .acceptLocal) (open_ : m.localRecord.chosen = false)
    (few : ¬ (m.localRecord.acceptedNum > 0 ∧ (m.acceptedBy m.localRecord.acceptedNum).card ≥ n / 2 + 1)) : m.Tidy where
  chosen := by rcases state with eq | eq | eq | eq <;> simp [eq, open_]
  proposing := by rcases state with eq | eq | eq | eq <;> simp [eq]
  major := by rcases state with eq | eq | eq | eq <;> simp [eq]
  counted := fun _ positive major => few ⟨positive, by rw [Majority, Fintype.card_fin] at major; exact major⟩

-- CalcEntryState only recomputes the state and marks the local record.
theorem calc_effect (m next : EntryStateMachine n) (done : m.calcEntryState = some next) :
    next.localAcceptorId = m.localAcceptorId ∧ next.emptyFlags = m.emptyFlags ∧
      next.entryRecords = Function.update m.entryRecords m.localAcceptorId { m.localRecord with chosen := m.decided } ∧
      next.Tidy := by
  unfold calcEntryState at done
  by_cases chosen : m.localRecord.chosen = true
  · simp only [chosen, if_true, Option.some.injEq] at done
    subst done
    have same := chosen_eta m.localRecord m.decided (by simp [decided, chosen])
    exact ⟨rfl, rfl, by rw [same, set_local_same], tidy_of_chosen _ rfl chosen⟩
  · have open_ : m.localRecord.chosen = false := by simpa using chosen
    by_cases counted : m.localRecord.acceptedNum > 0 ∧ (m.acceptedBy m.localRecord.acceptedNum).card ≥ n / 2 + 1
    · simp only [open_, Bool.false_eq_true, if_false, if_pos counted, Option.some.injEq] at done
      subst done
      have marked : m.decided = true := by simp [decided, counted]
      refine ⟨rfl, rfl, by rw [marked]; rfl, tidy_of_chosen _ rfl ?_⟩
      simp [setLocal, setRecord, localRecord]
    · have unmarked : m.decided = false := by simpa [decided, open_] using counted
      have same := chosen_eta m.localRecord m.decided (open_.trans unmarked.symm)
      simp only [open_, Bool.false_eq_true, if_false, if_neg counted] at done
      rw [same, set_local_same]
      have few : m.localRecord.chosen = false → 0 < m.localRecord.acceptedNum → ¬ Majority (m.acceptedBy m.localRecord.acceptedNum) :=
        (tidy_of_idle { m with entryState := .normal } (.inl rfl) open_ counted).counted
      by_cases remote : m.localRecord.promisedNum > m.localRecord.preparedNum
      · simp only [if_pos remote] at done
        split at done
        · cases done
          exact ⟨rfl, rfl, rfl, tidy_of_idle _ (by simp) open_ counted⟩
        · split at done
          · cases done
            exact ⟨rfl, rfl, rfl, tidy_of_idle _ (by simp) open_ counted⟩
          · cases done
      · simp only [if_neg remote] at done
        split at done
        · rename_i ordered
          split at done
          · cases done
            exact ⟨rfl, rfl, rfl, tidy_of_idle _ (by simp) open_ counted⟩
          · split at done
            · cases done
              exact ⟨rfl, rfl, rfl, tidy_of_idle _ (by simp) open_ counted⟩
            · rename_i started pending
              have behind : m.localRecord.preparedNum = m.localRecord.promisedNum ∧
                  m.localRecord.acceptedNum < m.localRecord.promisedNum := by omega
              split at done
              · rename_i major
                cases done
                refine ⟨rfl, rfl, rfl, ⟨by simp [localRecord] at open_ ⊢; exact open_, fun _ => behind, fun _ => ?_, few⟩⟩
                rw [Majority, Fintype.card_fin]
                exact major
              · cases done
                refine ⟨rfl, rfl, rfl, ⟨by simp [localRecord] at open_ ⊢; exact open_, fun _ => behind, by simp, few⟩⟩
        · cases done

theorem calc_local (m next : EntryStateMachine n) (done : m.calcEntryState = some next) :
    next.localRecord = { m.localRecord with chosen := m.decided } := by
  obtain ⟨sameId, _, records, _⟩ := calc_effect m next done
  simp [localRecord, sameId, records]

theorem calc_other (m next : EntryStateMachine n) (i : Fin n) (other : i ≠ m.localAcceptorId)
    (done : m.calcEntryState = some next) : next.entryRecords i = m.entryRecords i := by
  obtain ⟨_, _, records, _⟩ := calc_effect m next done
  simp [records, other]

-- Adopting takes over the peer's value, or only its promise.
theorem adopt_cases (record peer : EntryRecord) :
    (adopt record peer).preparedNum = record.preparedNum ∧
      (adopt record peer).promisedNum = max record.promisedNum peer.promisedNum ∧
      ((peer.chosen = true ∨ max record.promisedNum peer.promisedNum ≤ peer.acceptedNum ∧ record.acceptedNum < peer.acceptedNum) ∧
          (adopt record peer).acceptedNum = peer.acceptedNum ∧ (adopt record peer).chosen = peer.chosen ∧
          (adopt record peer).proposal = (if record.valueId = peer.valueId then record.proposal else peer.proposal) ∨
        peer.chosen = false ∧ (adopt record peer).acceptedNum = record.acceptedNum ∧
          (adopt record peer).chosen = record.chosen ∧ (adopt record peer).proposal = record.proposal) := by
  have promised : (if record.promisedNum < peer.promisedNum then { record with promisedNum := peer.promisedNum } else record) =
      { record with promisedNum := max record.promisedNum peer.promisedNum } := by
    split
    · rw [Nat.max_eq_right (by omega)]
    · rw [Nat.max_eq_left (by omega)]
  unfold adopt
  rw [promised]
  dsimp only
  by_cases taken : peer.chosen = true ∨
      max record.promisedNum peer.promisedNum ≤ peer.acceptedNum ∧ record.acceptedNum < peer.acceptedNum
  · rw [if_pos taken]
    by_cases same : record.valueId = peer.valueId
    · rw [if_neg (not_not.mpr same), if_pos same]
      exact ⟨rfl, rfl, .inl ⟨taken, rfl, rfl, rfl⟩⟩
    · rw [if_pos same, if_neg same]
      exact ⟨rfl, rfl, .inl ⟨taken, rfl, rfl, rfl⟩⟩
  · rw [if_neg taken]
    have open_ : peer.chosen = false := by simpa using (not_or.mp taken).1
    simp [open_, EntryRecord.proposal]

theorem promise_cases (m next : EntryStateMachine n) (preAuth : Bool) (code : RetCode)
    (done : m.promise preAuth = some (code, next)) :
    (m.setLocal { m.localRecord with preparedNum := m.nextNum preAuth, promisedNum := m.nextNum preAuth }).calcEntryState =
      some next := by
  obtain ⟨result, computed, pair⟩ := Option.map_eq_some_iff.mp done
  rw [computed]
  exact congrArg some (Prod.mk.inj pair).2

-- Everything Update can do: nothing, keep the peer record beside a chosen
-- local one, reload the local record, or adopt what the peer has.
theorem update_cases (m next : EntryStateMachine n) (peer : Nat) (record : EntryRecord) (code : RetCode)
    (done : m.update peer record = some (code, next)) :
    next = m ∨ ∃ bound : peer < n, record.hasValueIdOnly = false ∧ isValidRecord record = true ∧
      isRecordNewer (m.entryRecords ⟨peer, bound⟩) record = true ∧
      (((⟨peer, bound⟩ : Fin n) = m.localAcceptorId ∧ (m.setLocal record).calcEntryState = some next) ∨
        ((⟨peer, bound⟩ : Fin n) ≠ m.localAcceptorId ∧ m.entryState = .chosen ∧ next = m.setRecord ⟨peer, bound⟩ record) ∨
        ((⟨peer, bound⟩ : Fin n) ≠ m.localAcceptorId ∧ m.entryState ≠ .chosen ∧
          ((m.setRecord ⟨peer, bound⟩ record).setLocal (adopt m.localRecord record)).calcEntryState = some next)) := by
  unfold update at done
  by_cases bound : peer < n
  · simp only [dif_pos bound] at done
    by_cases refused : record.hasValueIdOnly = true ∨ ¬ isValidRecord record = true
    · simp only [if_pos refused, Option.some.injEq, Prod.mk.injEq] at done
      exact .inl done.2.symm
    · simp only [if_neg refused] at done
      obtain ⟨whole, valid⟩ := not_or.mp refused
      by_cases newer : isRecordNewer (m.entryRecords ⟨peer, bound⟩) record = true
      · simp only [newer, not_true, if_false] at done
        refine .inr ⟨bound, by simpa using whole, not_not.mp valid, newer, ?_⟩
        by_cases self : (⟨peer, bound⟩ : Fin n) = m.localAcceptorId
        · have selfNat : peer = (m.setRecord ⟨peer, bound⟩ record).localAcceptorId := congrArg Fin.val self
          rw [if_pos selfNat] at done
          obtain ⟨result, computed, pair⟩ := Option.map_eq_some_iff.mp done
          refine .inl ⟨self, ?_⟩
          rw [setLocal, ← self, computed]
          exact congrArg some (Prod.mk.inj pair).2
        · have otherNat : ¬ peer = (m.setRecord ⟨peer, bound⟩ record).localAcceptorId := fun eq => self (Fin.ext eq)
          rw [if_neg otherNat] at done
          by_cases closed : (m.setRecord ⟨peer, bound⟩ record).entryState = .chosen
          · rw [if_pos closed] at done
            exact .inr (.inl ⟨self, closed, (Prod.mk.inj (Option.some.inj done)).2.symm⟩)
          · rw [if_neg closed, local_set_other m _ record self] at done
            obtain ⟨result, computed, pair⟩ := Option.map_eq_some_iff.mp done
            refine .inr (.inr ⟨self, closed, ?_⟩)
            rw [computed]
            exact congrArg some (Prod.mk.inj pair).2
      · rw [if_pos newer] at done
        exact .inl (Prod.mk.inj (Option.some.inj done)).2.symm
  · simp only [dif_neg bound, Option.some.injEq, Prod.mk.injEq] at done
    exact .inl done.2.symm

theorem accept_cases (m next : EntryStateMachine n) (value : Bytes) (valueId : Nat) (uuids : List Nat)
    (code : RetCode) (fresh : Bool) (done : m.accept value valueId uuids = some (code, fresh, next)) :
    next = m ∨ m.isLocalAcceptable = true ∧ 0 < m.localRecord.promisedNum ∧
      (fresh = true ↔ (m.entryRecords m.selected).acceptedNum = 0) ∧ next.entryState = .acceptLocal ∧
      (m.setLocal (m.acceptedRecord value valueId uuids)).calcEntryState = some next := by
  unfold accept at done
  by_cases open_ : m.isLocalAcceptable = true
  · simp only [open_, not_true, if_false] at done
    by_cases zero : m.localRecord.promisedNum = 0
    · simp [zero] at done
    · simp only [if_neg zero] at done
      cases computed : (m.setLocal (m.acceptedRecord value valueId uuids)).calcEntryState with
      | none => simp [computed] at done
      | some result =>
          simp only [computed] at done
          by_cases state : result.entryState = .acceptLocal
          · simp only [if_pos state, Option.some.injEq, Prod.mk.injEq] at done
            obtain ⟨_, flag, rfl⟩ := done
            exact .inr ⟨open_, by omega, by simp [← flag], state, rfl⟩
          · simp [state] at done
  · rw [if_pos open_] at done
    exact .inl (Prod.mk.inj (Prod.mk.inj (Option.some.inj done)).2).2.symm

-- A chosen record keeps its value and the number it was accepted at.
def Keeps (old new : EntryRecord) : Prop :=
  old.chosen = true → new.chosen = true ∧ new.acceptedNum = old.acceptedNum ∧ new.proposal = old.proposal

theorem keeps_refl (record : EntryRecord) : Keeps record record := fun marked => ⟨marked, rfl, rfl⟩

theorem keeps_trans (old middle new : EntryRecord) (first : Keeps old middle) (second : Keeps middle new) : Keeps old new := by
  intro marked
  obtain ⟨middleMarked, accepted, proposal⟩ := first marked
  obtain ⟨newMarked, acceptedNew, proposalNew⟩ := second middleMarked
  exact ⟨newMarked, acceptedNew.trans accepted, proposalNew.trans proposal⟩

theorem promise_keeps (m next : EntryStateMachine n) (preAuth : Bool) (code : RetCode)
    (done : m.promise preAuth = some (code, next)) :
    Keeps m.localRecord next.localRecord ∧ next.localRecord.preparedNum = m.nextNum preAuth := by
  have result := calc_local _ next (promise_cases m next preAuth code done)
  rw [local_set_local] at result
  rw [result]
  refine ⟨fun marked => ⟨?_, rfl, rfl⟩, rfl⟩
  simp [decided, local_set_local, marked]

theorem update_keeps (m next : EntryStateMachine n) (peer : Fin n) (record : EntryRecord) (code : RetCode) (tidy : m.Tidy)
    (other : peer ≠ m.localAcceptorId) (done : m.update peer record = some (code, next)) :
    Keeps m.localRecord next.localRecord ∧ next.localRecord.preparedNum = m.localRecord.preparedNum := by
  rcases update_cases m next peer record code done with
    rfl | ⟨_, _, _, _, ⟨self, _⟩ | ⟨_, _, rfl⟩ | ⟨_, pending, computed⟩⟩
  · exact ⟨keeps_refl _, rfl⟩
  · exact absurd self other
  · rw [local_set_other m peer record other]
    exact ⟨keeps_refl _, rfl⟩
  · have result := calc_local _ next computed
    rw [local_set_local] at result
    rw [result]
    refine ⟨fun marked => absurd (tidy.chosen.mpr marked) pending, ?_⟩
    exact (adopt_cases m.localRecord record).1

theorem accepted_shape (m : EntryStateMachine n) (value : Bytes) (valueId : Nat) (uuids : List Nat) :
    (m.acceptedRecord value valueId uuids).preparedNum = m.localRecord.preparedNum ∧
      (m.acceptedRecord value valueId uuids).promisedNum = m.localRecord.promisedNum ∧
      (m.acceptedRecord value valueId uuids).acceptedNum = m.localRecord.promisedNum ∧
      (m.acceptedRecord value valueId uuids).chosen = m.localRecord.chosen := by
  unfold acceptedRecord
  dsimp only
  split <;> exact ⟨rfl, rfl, rfl, rfl⟩

theorem acceptable_cases (m : EntryStateMachine n) (tidy : m.Tidy) (acceptable : m.isLocalAcceptable = true) :
    m.localRecord.chosen = false ∧ m.localRecord.preparedNum = m.localRecord.promisedNum ∧
      m.localRecord.acceptedNum < m.localRecord.promisedNum ∧
      (Majority (m.promisedBy m.localRecord.promisedNum) ∨ m.localRecord.promisedNum ≤ n) := by
  have state : m.entryState = .majorityPromise ∨ m.entryState = .promiseLocal ∧ m.localRecord.promisedNum ≤ n :=
    of_decide_eq_true acceptable
  have open_ : m.localRecord.chosen = false := by
    by_contra marked
    have closed := tidy.chosen.mpr (by simpa using marked)
    rcases state with major | ⟨alone, _⟩
    · rw [major] at closed
      cases closed
    · rw [alone] at closed
      cases closed
  obtain ⟨prepared, behind⟩ := tidy.proposing (by rcases state with major | ⟨alone, _⟩ <;> simp [*])
  exact ⟨open_, prepared, behind, state.imp tidy.major (·.2)⟩

theorem accept_keeps (m next : EntryStateMachine n) (value : Bytes) (valueId : Nat) (uuids : List Nat)
    (code : RetCode) (fresh : Bool) (tidy : m.Tidy) (done : m.accept value valueId uuids = some (code, fresh, next)) :
    Keeps m.localRecord next.localRecord ∧ next.localRecord.preparedNum = m.localRecord.preparedNum := by
  rcases accept_cases m next value valueId uuids code fresh done with rfl | ⟨acceptable, _, _, _, computed⟩
  · exact ⟨keeps_refl _, rfl⟩
  · have open_ := (acceptable_cases m tidy acceptable).1
    have result := calc_local _ next computed
    rw [local_set_local] at result
    rw [result]
    refine ⟨fun marked => ?_, (accepted_shape m value valueId uuids).1⟩
    rw [open_] at marked
    cases marked

theorem best_of_fold (records : Fin n → EntryRecord) (candidates : List (Fin n)) (start : Fin n) :
    let best := candidates.foldl (fun best i => if (records best).acceptedNum < (records i).acceptedNum then i else best) start
    (records start).acceptedNum ≤ (records best).acceptedNum ∧
      ∀ i ∈ candidates, (records i).acceptedNum ≤ (records best).acceptedNum := by
  induction candidates generalizing start with
  | nil => simp
  | cons head tail ih =>
      have rest := ih (if (records start).acceptedNum < (records head).acceptedNum then head else start)
      refine ⟨Nat.le_trans ?_ rest.1, ?_⟩
      · split <;> omega
      · intro i member
        rcases List.mem_cons.mp member with rfl | later
        · refine Nat.le_trans ?_ rest.1
          split <;> omega
        · exact rest.2 i later

theorem selected_largest (m : EntryStateMachine n) (i : Fin n) :
    (m.entryRecords i).acceptedNum ≤ (m.entryRecords m.selected).acceptedNum := by
  have largest := best_of_fold m.entryRecords (List.finRange n).tail ⟨0, m.localAcceptorId.pos⟩
  by_cases first : i = ⟨0, m.localAcceptorId.pos⟩
  · exact first ▸ largest.1
  · refine largest.2 i ?_
    have member := List.mem_finRange i
    cases n with
    | zero => exact i.elim0
    | succ k =>
        rw [List.finRange_succ] at member ⊢
        rcases List.mem_cons.mp member with head | tail
        · exact absurd head first
        · exact tail

-- The proposal number in unbounded arithmetic; the run of one entry is over
-- when it reaches 2^32.
def exactNum (m : EntryStateMachine n) (preAuth : Bool) : Nat :=
  let pn := (m.localRecord.promisedNum + n - 1) / n * n + m.localAcceptorId + 1
  if ¬ preAuth ∧ pn ≤ n then pn + n else pn

theorem next_num_exact (m : EntryStateMachine n) (preAuth : Bool) (small : n ≤ kMaxAcceptorNum)
    (fits : m.exactNum preAuth < 2 ^ 32) : m.nextNum preAuth = m.exactNum preAuth := by
  have positive := m.localAcceptorId.pos
  have idBound := m.localAcceptorId.isLt
  have rounded : (m.localRecord.promisedNum + n - 1) / n * n + m.localAcceptorId + 1 < 2 ^ 32 := by
    unfold exactNum at fits
    dsimp only at fits
    split at fits <;> omega
  have first : u32 (m.localRecord.promisedNum + n - 1) = m.localRecord.promisedNum + n - 1 := by
    unfold kMaxAcceptorNum at small
    apply Nat.mod_eq_of_lt
    interval_cases n <;> omega
  unfold exactNum at fits
  unfold nextNum exactNum
  have second : u32 ((m.localRecord.promisedNum + n - 1) / n * n + m.localAcceptorId + 1) =
      (m.localRecord.promisedNum + n - 1) / n * n + m.localAcceptorId + 1 := Nat.mod_eq_of_lt rounded
  rw [first, second]
  dsimp only at fits ⊢
  split
  · rename_i low
    rw [if_pos low] at fits
    exact Nat.mod_eq_of_lt fits
  · rfl

-- The ballots an acceptor may use.
def Owns (i : Fin n) (ballot : Nat) : Prop := (ballot - 1) % n = i

theorem owner_unique (i j : Fin n) (ballot : Nat) (left : Owns i ballot) (right : Owns j ballot) : i = j :=
  Fin.ext (left.symm.trans right)

theorem exact_num_owned (m : EntryStateMachine n) (preAuth : Bool) : Owns m.localAcceptorId (m.exactNum preAuth) := by
  have idBound := m.localAcceptorId.isLt
  unfold Owns exactNum
  dsimp only
  split
  · have shape : (m.localRecord.promisedNum + n - 1) / n * n + m.localAcceptorId + 1 + n - 1 =
        m.localAcceptorId + n * ((m.localRecord.promisedNum + n - 1) / n + 1) := by
      rw [Nat.mul_add, Nat.mul_comm n]
      omega
    rw [shape, Nat.add_mul_mod_self_left, Nat.mod_eq_of_lt idBound]
  · have shape : (m.localRecord.promisedNum + n - 1) / n * n + m.localAcceptorId + 1 - 1 =
        m.localAcceptorId + n * ((m.localRecord.promisedNum + n - 1) / n) := by
      rw [Nat.mul_comm n]
      omega
    rw [shape, Nat.add_mul_mod_self_left, Nat.mod_eq_of_lt idBound]

theorem exact_num_above (m : EntryStateMachine n) (preAuth : Bool) :
    m.localRecord.promisedNum < m.exactNum preAuth := by
  have positive := m.localAcceptorId.pos
  have rounded : m.localRecord.promisedNum ≤ (m.localRecord.promisedNum + n - 1) / n * n := by
    have split := Nat.div_add_mod (m.localRecord.promisedNum + n - 1) n
    have rest := Nat.mod_lt (m.localRecord.promisedNum + n - 1) positive
    rw [Nat.mul_comm] at split
    omega
  unfold exactNum
  dsimp only
  split <;> omega

-- Only a pre-authorised acceptor that has promised nothing uses the first round.
theorem exact_num_first (m : EntryStateMachine n) (preAuth : Bool) (low : m.exactNum preAuth ≤ n) :
    preAuth = true ∧ m.localRecord.promisedNum = 0 ∧ m.exactNum preAuth = m.localAcceptorId + 1 := by
  have positive := m.localAcceptorId.pos
  unfold exactNum at low ⊢
  dsimp only at low ⊢
  split at low
  · omega
  · rename_i kept
    have zero : (m.localRecord.promisedNum + n - 1) / n = 0 := by
      by_contra nonzero
      have grown := Nat.le_mul_of_pos_left n (Nat.pos_of_ne_zero nonzero)
      omega
    have small : m.localRecord.promisedNum + n - 1 < n := by
      by_contra large
      have quotient : 1 ≤ (m.localRecord.promisedNum + n - 1) / n := (Nat.le_div_iff_mul_le positive).mpr (by omega)
      omega
    rw [if_neg kept, zero]
    refine ⟨?_, by omega, by omega⟩
    by_contra noAuth
    exact kept ⟨noAuth, low⟩

theorem promise_tidy (m next : EntryStateMachine n) (preAuth : Bool) (code : RetCode) (done : m.promise preAuth = some (code, next)) :
    next.Tidy ∧ next.localAcceptorId = m.localAcceptorId := by
  obtain ⟨sameId, _, _, tidy⟩ := calc_effect _ next (promise_cases m next preAuth code done)
  exact ⟨tidy, sameId⟩

-- Promise leaves the accepted numbers, so it chooses nothing.
theorem promise_open (m next : EntryStateMachine n) (preAuth : Bool) (code : RetCode) (tidy : m.Tidy)
    (open_ : m.localRecord.chosen = false) (done : m.promise preAuth = some (code, next)) : next.localRecord.chosen = false := by
  rw [calc_local _ next (promise_cases m next preAuth code done)]
  have sameAccepted : ∀ record : EntryRecord, record.acceptedNum = m.localRecord.acceptedNum →
      (m.setLocal record).acceptedBy m.localRecord.acceptedNum = m.acceptedBy m.localRecord.acceptedNum := by
    intro record same
    have equal : ∀ i, ((m.setLocal record).entryRecords i).acceptedNum = (m.entryRecords i).acceptedNum := by
      intro i
      by_cases here : i = m.localAcceptorId
      · rw [here]
        simpa [setLocal, setRecord, localRecord] using same
      · simp [setLocal, setRecord, here]
    simp only [acceptedBy, equal]
  dsimp only [decided]
  rw [local_set_local]
  dsimp only
  rw [sameAccepted { m.localRecord with preparedNum := m.nextNum preAuth, promisedNum := m.nextNum preAuth } rfl, open_]
  have few := tidy.counted open_
  simp only [Bool.false_eq_true, false_or, decide_eq_false_iff_not, not_and]
  intro positive major
  refine few positive ?_
  rw [Majority, Fintype.card_fin]
  exact major

-- The promise counts, so a single acceptor is a majority at once.
theorem promise_wide (m next : EntryStateMachine n) (preAuth : Bool) (done : m.promise preAuth = some (.ok, next)) : 2 ≤ n := by
  obtain ⟨result, computed, pair⟩ := Option.map_eq_some_iff.mp done
  simp only [Prod.mk.injEq] at pair
  obtain ⟨code, rfl⟩ := pair
  have state : result.entryState = .promiseLocal := by
    by_contra other
    simp [other] at code
  by_contra small
  have positive := m.localAcceptorId.pos
  have one : n = 1 := by omega
  subst one
  have member : m.localAcceptorId ∈ (m.setLocal
      { m.localRecord with preparedNum := m.nextNum preAuth, promisedNum := m.nextNum preAuth }).promisedBy (m.nextNum preAuth) := by
    rw [promisedBy, Finset.mem_filter, setLocal, setRecord]
    simp only [Function.update_self, Finset.mem_univ, and_self]
  have major := Finset.card_pos.mpr ⟨_, member⟩
  unfold calcEntryState at computed
  rw [local_set_local] at computed
  dsimp only at computed
  split at computed
  · cases computed
    cases state
  · split at computed
    · cases computed
      cases state
    · simp only [gt_iff_lt, lt_self_iff_false, if_false, true_and] at computed
      split at computed
      · split at computed
        · cases computed
          cases state
        · split at computed
          · cases computed
            cases state
          · rw [if_pos (by simpa using major)] at computed
            cases computed
            cases state
      · cases computed

theorem update_tidy (m next : EntryStateMachine n) (peer : Nat) (record : EntryRecord) (code : RetCode) (tidy : m.Tidy)
    (done : m.update peer record = some (code, next)) : next.Tidy ∧ next.localAcceptorId = m.localAcceptorId := by
  rcases update_cases m next peer record code done with rfl | ⟨bound, _, _, _, ⟨_, computed⟩ | ⟨other, closed, rfl⟩ | ⟨_, _, computed⟩⟩
  · exact ⟨tidy, rfl⟩
  · obtain ⟨sameId, _, _, fine⟩ := calc_effect _ next computed
    exact ⟨fine, sameId⟩
  · refine ⟨tidy_of_chosen _ closed ?_, rfl⟩
    rw [local_set_other m _ record other]
    exact tidy.chosen.mp closed
  · obtain ⟨sameId, _, _, fine⟩ := calc_effect _ next computed
    exact ⟨fine, sameId⟩

-- A peer's record changes nothing in a chosen local one.
theorem update_closed (m next : EntryStateMachine n) (peer : Fin n) (record : EntryRecord) (code : RetCode) (tidy : m.Tidy)
    (other : peer ≠ m.localAcceptorId) (chosen : m.localRecord.chosen = true) (done : m.update peer record = some (code, next)) :
    next.localRecord = m.localRecord ∧ next.entryState = .chosen := by
  have closed := tidy.chosen.mpr chosen
  rcases update_cases m next peer record code done with rfl | ⟨_, _, _, _, ⟨self, _⟩ | ⟨_, _, rfl⟩ | ⟨_, pending, _⟩⟩
  · exact ⟨rfl, closed⟩
  · exact absurd self other
  · exact ⟨local_set_other m peer record other, closed⟩
  · exact absurd closed pending

theorem accept_tidy (m next : EntryStateMachine n) (value : Bytes) (valueId : Nat) (uuids : List Nat) (code : RetCode) (fresh : Bool)
    (tidy : m.Tidy) (done : m.accept value valueId uuids = some (code, fresh, next)) :
    next.Tidy ∧ next.localAcceptorId = m.localAcceptorId := by
  rcases accept_cases m next value valueId uuids code fresh done with rfl | ⟨_, _, _, _, computed⟩
  · exact ⟨tidy, rfl⟩
  · obtain ⟨sameId, _, _, fine⟩ := calc_effect _ next computed
    exact ⟨fine, sameId⟩

end PaxosStore.Certain.EntryStateMachine
