import PaxosStore.PaxosKv.Servers

set_option autoImplicit false

namespace PaxosStore.PaxosKv

theorem promised_spec (propNum : Nat) (pins next : PaxosInstance) (done : updatePromised propNum pins = some next) :
    pins.promisedNum.getD 0 ≤ propNum ∧ next = { pins with promisedNum := some propNum } := by
  unfold updatePromised at done
  split at done
  · cases done
  · rename_i open_
    cases done
    refine ⟨?_, rfl⟩
    cases known : pins.promisedNum with
    | none => exact Nat.zero_le _
    | some old => simpa [known] using open_

theorem accepted_spec (propNum : Nat) (value : Entry) (fast : Bool) (pins next : PaxosInstance)
    (done : updateAccepted propNum value fast pins = some (some next)) :
    pins.promisedNum.getD 0 ≤ propNum ∧
      next = { pins with promisedNum := some propNum, acceptedNum := some propNum, acceptedValue := some value } := by
  unfold updateAccepted at done
  split at done
  · cases done
  · rename_i open_
    split at done
    · cases done
    · obtain ⟨_, kept⟩ := (asserting_some _ _ _).mp done
      cases kept
      refine ⟨?_, rfl⟩
      cases known : pins.promisedNum with
      | none => exact Nat.zero_le _
      | some old => simpa [known] using open_

theorem votes_spec (peer : Fin 3) (vote : Bool) (votes next : Fin 3 → Option Bool)
    (done : updateRspVotes peer vote votes = some next) (i : Fin 3) (counted : next i = some true) :
    votes i = some true ∨ i = peer ∧ vote = true := by
  unfold updateRspVotes at done
  split at done
  · obtain ⟨_, kept⟩ := (asserting_some _ _ _).mp done
    cases kept
    exact .inl counted
  · cases done
    by_cases here : i = peer
    · subst here
      exact .inr ⟨rfl, by simpa using counted⟩
    · exact .inl (by simpa [here] using counted)

theorem count_positive (votes : Fin 3 → Option Bool) (vote : Bool) (some_ : 0 < countVotes votes vote) :
    ∃ i, votes i = some vote := by
  obtain ⟨i, member⟩ := Finset.card_pos.mp some_
  exact ⟨i, by simpa using member⟩

namespace PInsAliveState

theorem hint_spec (alive next : PInsAliveState) (num : Nat) (value : Option Entry)
    (done : alive.takeHint num value = some next) :
    next = alive ∧ (value.isSome = true → num ≤ alive.maxAcceptedHintNum) ∨
      alive.maxAcceptedHintNum < num ∧ value.isSome = true ∧
        next = { alive with maxAcceptedHintNum := num, proposingValue := value } := by
  cases value with
  | none =>
      cases done
      exact .inl ⟨rfl, fun absurd_ => by cases absurd_⟩
  | some value =>
      obtain ⟨_, rest⟩ := (asserting_some _ _ _).mp done
      split at rest
      · split at rest
        · rename_i above
          cases rest
          exact .inr ⟨above, rfl, rfl⟩
        · obtain ⟨_, kept⟩ := (asserting_some _ _ _).mp rest
          cases kept
          exact .inl ⟨rfl, fun _ => by omega⟩
      · cases rest
        exact .inl ⟨rfl, fun _ => by omega⟩

-- What the record of the proposer itself adds to the hint.
def OwnHint (alive next : PInsAliveState) (pins : PaxosInstance) : Prop :=
  (∃ num, pins.acceptedNum = some num ∧ alive.maxAcceptedHintNum < num ∧ next.maxAcceptedHintNum = num ∧
      next.proposingValue = pins.acceptedValue) ∨
    next.maxAcceptedHintNum = alive.maxAcceptedHintNum ∧ next.proposingValue = alive.proposingValue ∧
      pins.acceptedNum.getD 0 ≤ alive.maxAcceptedHintNum

theorem prepare_phase_spec (alive next : PInsAliveState) (pins stored : PaxosInstance)
    (done : alive.beginPreparePhase pins = some (.waitPrepare, next, stored)) :
    next.propNumGen = alive.propNumGen ∧ (next.rspVotes = fun _ => none) ∧ OwnHint alive next pins ∧
      stored = { pins with proposedNum := alive.propNumGen.get, promisedNum := some alive.propNumGen.get } := by
  obtain ⟨_, rest⟩ := (asserting_some _ _ _).mp done
  obtain ⟨hinted, taken, result⟩ := Option.map_eq_some_iff.mp rest
  have own : hinted.propNumGen = alive.propNumGen ∧ OwnHint alive hinted pins := by
    split at taken
    · rename_i larger
      obtain ⟨_, kept⟩ := (asserting_some _ _ _).mp taken
      cases kept
      cases known : pins.acceptedNum with
      | none => simp [known] at larger
      | some num =>
          refine ⟨rfl, .inl ⟨num, known, by simpa [known] using larger, by simp, rfl⟩⟩
    · rename_i smaller
      cases taken
      refine ⟨rfl, .inr ⟨rfl, rfl, ?_⟩⟩
      cases known : pins.acceptedNum with
      | none => exact Nat.zero_le _
      | some num => simpa [known] using smaller
  cases promised : updatePromised hinted.propNumGen.get { pins with proposedNum := alive.propNumGen.get } with
  | none => simp [promised] at result
  | some later =>
      simp only [promised, Prod.mk.injEq, true_and] at result
      obtain ⟨rfl, rfl⟩ := result
      have spec := (promised_spec _ _ _ promised).2
      rw [own.1] at spec
      exact ⟨own.1, rfl, own.2, spec⟩

theorem prepare_spec (alive next : PInsAliveState) (pins stored : PaxosInstance) (write : Bool) (type : MessageType)
    (done : alive.enterPrepare pins = some (write, type, next, stored)) :
    (type = .noop ∧ stored = pins ∧ next.propState = .propFrozen ∧ next.propNumGen = alive.propNumGen ∧
        next.maxAcceptedHintNum = alive.maxAcceptedHintNum ∧ next.proposingValue = alive.proposingValue) ∨
      type = .prop ∧ next.propState = .waitPrepare ∧ next.propNumGen.selfid = alive.propNumGen.selfid ∧
        pins.proposedNum < next.propNumGen.get ∧ pins.promisedNum.getD 0 < next.propNumGen.get ∧
        (next.rspVotes = fun _ => none) ∧ OwnHint alive next pins ∧
        stored = { pins with proposedNum := next.propNumGen.get, promisedNum := some next.propNumGen.get } := by
  unfold enterPrepare at done
  dsimp only at done
  split at done
  · cases done
    exact .inl ⟨rfl, rfl, rfl, rfl, rfl, rfl⟩
  · right
    obtain ⟨first, chosen, rest⟩ := Option.bind_eq_some_iff.mp done
    have sameFirst : first.selfid = alive.propNumGen.selfid := by
      cases known : pins.promisedNum with
      | none =>
          rw [known] at chosen
          cases chosen
          rfl
      | some promised =>
          rw [known] at chosen
          exact (PropNumGen.next_spec _ first promised chosen).1
    obtain ⟨gen, updated, rest⟩ := Option.bind_eq_some_iff.mp rest
    have sameGen := (PropNumGen.update_spec first gen _ updated).1
    obtain ⟨⟨aboveProposed, abovePromised⟩, rest⟩ := (asserting_some _ _ _).mp rest
    obtain ⟨⟨state, waiting, later⟩, phase, rest⟩ := Option.bind_eq_some_iff.mp rest
    obtain ⟨waits, kept⟩ := (asserting_some _ _ _).mp rest
    cases waits
    cases kept
    obtain ⟨sameNum, noVotes, own, result⟩ := prepare_phase_spec _ waiting pins _ phase
    rw [← sameNum] at result
    dsimp only at sameNum
    refine ⟨rfl, rfl, ?_, ?_, ?_, noVotes, own, result⟩
    · dsimp only
      rw [sameNum, sameGen, sameFirst]
    · dsimp only
      rw [sameNum]
      exact aboveProposed
    · dsimp only
      rw [sameNum]
      exact abovePromised

theorem accept_spec (alive next : PInsAliveState) (pins stored : PaxosInstance) (write : Bool) (type : MessageType)
    (done : alive.enterAccept pins = some (write, type, next, stored)) :
    (∃ state, enterPrepare { alive with propState := state } pins = some (write, type, next, stored)) ∨
      type = .accpt ∧ ∃ value, alive.proposingValue = some value ∧ pins.promisedNum.getD 0 ≤ alive.propNumGen.get ∧
        next = { alive with propState := .waitAccept, rspVotes := fun _ => none } ∧
        stored = { pins with
          promisedNum := some alive.propNumGen.get, acceptedNum := some alive.propNumGen.get, acceptedValue := some value } := by
  obtain ⟨⟨state, waiting, later⟩, phase, rest⟩ := Option.bind_eq_some_iff.mp done
  obtain ⟨_, phase⟩ := (asserting_some _ _ _).mp phase
  dsimp only at phase
  cases known : alive.proposingValue with
  | none => simp [known] at phase
  | some value =>
      simp only [known] at phase
      obtain ⟨verdict, accepted, result⟩ := Option.map_eq_some_iff.mp phase
      cases verdict with
      | none =>
          simp only [Prod.mk.injEq] at result
          obtain ⟨rfl, rfl, rfl⟩ := result
          exact .inl ⟨_, rest⟩
      | some record =>
          simp only [Prod.mk.injEq] at result
          obtain ⟨rfl, rfl, rfl⟩ := result
          dsimp only at rest
          rw [if_neg (by simp)] at rest
          cases rest
          obtain ⟨allowed, rfl⟩ := accepted_spec _ value false pins _ accepted
          exact .inr ⟨rfl, value, rfl, allowed, rfl, rfl⟩

end PInsAliveState

end PaxosStore.PaxosKv
