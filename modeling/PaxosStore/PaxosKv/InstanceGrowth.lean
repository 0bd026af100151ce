import PaxosStore.PaxosKv.Assertions

set_option autoImplicit false

namespace PaxosStore.PaxosKv

open PInsAliveState

-- What a server says about one index, compared with what it said before.
structure Later (old new : PaxosInstance) : Prop where
  promised : ∀ num, old.promisedNum = some num → ∃ next, new.promisedNum = some next ∧ num ≤ next
  accepted : ∀ num, old.acceptedNum = some num → ∃ next, new.acceptedNum = some next ∧ num ≤ next
  chosen : old.chosen = true → new.chosen = true ∧ new.acceptedValue = old.acceptedValue

theorem later_refl (pins : PaxosInstance) : Later pins pins :=
  ⟨fun num known => ⟨num, known, Nat.le_refl _⟩, fun num known => ⟨num, known, Nat.le_refl _⟩, fun marked => ⟨marked, rfl⟩⟩

theorem later_trans (first second third : PaxosInstance) (left : Later first second) (right : Later second third) : Later first third where
  promised := by
    intro num known
    obtain ⟨middle, there, below⟩ := left.promised num known
    obtain ⟨last, here, above⟩ := right.promised middle there
    exact ⟨last, here, Nat.le_trans below above⟩
  accepted := by
    intro num known
    obtain ⟨middle, there, below⟩ := left.accepted num known
    obtain ⟨last, here, above⟩ := right.accepted middle there
    exact ⟨last, here, Nat.le_trans below above⟩
  chosen := by
    intro marked
    obtain ⟨still, same⟩ := left.chosen marked
    obtain ⟨kept, equal⟩ := right.chosen still
    exact ⟨kept, equal.trans same⟩

-- A step from a well-formed instance to a later one.
structure Moves (old new : PaxosInstance) : Prop where
  formed : Formed new
  later : Later old new

theorem moves_refl (pins : PaxosInstance) (formed : Formed pins) : Moves pins pins := ⟨formed, later_refl pins⟩

theorem moves_trans (first second third : PaxosInstance) (left : Moves first second) (right : Moves second third) : Moves first third :=
  ⟨right.formed, later_trans first second third left.later right.later⟩

theorem promised_later (pins : PaxosInstance) (num : Nat) (allowed : pins.promisedNum.getD 0 ≤ num) (old : Nat)
    (known : pins.promisedNum = some old) : old ≤ num := by
  rw [known] at allowed
  exact allowed

-- A promise, with or without a proposal number of its own.
theorem moves_promised (pins : PaxosInstance) (num proposed : Nat) (formed : Formed pins) (open_ : pins.chosen = false)
    (allowed : pins.promisedNum.getD 0 ≤ num) (below : proposed ≤ num) :
    Moves pins { pins with proposedNum := proposed, promisedNum := some num } where
  formed := by
    refine ⟨formed.valued, fun accepted known => ?_, fun _ => below, formed.chosen⟩
    obtain ⟨promised, held, reached⟩ := formed.ordered accepted known
    exact ⟨num, rfl, Nat.le_trans reached (promised_later pins num allowed promised held)⟩
  later := by
    refine ⟨fun old known => ⟨num, rfl, promised_later pins num allowed old known⟩, fun old known => ⟨old, known, Nat.le_refl _⟩, ?_⟩
    intro marked
    rw [open_] at marked
    cases marked

theorem moves_accepted (pins : PaxosInstance) (num : Nat) (value : Entry) (formed : Formed pins) (open_ : pins.chosen = false)
    (allowed : pins.promisedNum.getD 0 ≤ num) :
    Moves pins { pins with promisedNum := some num, acceptedNum := some num, acceptedValue := some value } where
  formed := by
    refine ⟨rfl, fun accepted known => ?_, fun _ => Nat.le_trans (formed.proposed open_) allowed, fun _ => rfl⟩
    cases known
    exact ⟨_, rfl, Nat.le_refl _⟩
  later := by
    refine ⟨fun old known => ⟨num, rfl, promised_later pins num allowed old known⟩, fun old known => ⟨num, rfl, ?_⟩, ?_⟩
    · obtain ⟨promised, held, reached⟩ := formed.ordered old known
      exact Nat.le_trans reached (promised_later pins num allowed promised held)
    · intro marked
      rw [open_] at marked
      cases marked

theorem moves_marked (pins : PaxosInstance) (formed : Formed pins) (accepted : pins.acceptedNum.isSome = true) :
    Moves pins { pins with chosen := true } where
  formed := ⟨formed.valued, formed.ordered, fun wrong => (by cases wrong), fun _ => accepted⟩
  later := ⟨fun old known => ⟨old, known, Nat.le_refl _⟩, fun old known => ⟨old, known, Nat.le_refl _⟩, fun _ => ⟨rfl, rfl⟩⟩

section Proposer

variable (alive next : PInsAliveState) (pins stored : PaxosInstance) (write : Bool) (type : MessageType)

theorem prepare_moves (formed : Formed pins) (open_ : pins.chosen = false)
    (done : alive.enterPrepare pins = some (write, type, next, stored)) : Moves pins stored ∧ stored.chosen = false := by
  rcases prepare_spec alive next pins stored write type done with ⟨_, rfl, _⟩ | ⟨_, _, _, _, above, _, _, rfl⟩
  · exact ⟨moves_refl stored formed, open_⟩
  · exact ⟨moves_promised pins _ _ formed open_ (Nat.le_of_lt above) (Nat.le_refl _), open_⟩

theorem accept_moves (formed : Formed pins) (open_ : pins.chosen = false)
    (done : alive.enterAccept pins = some (write, type, next, stored)) : Moves pins stored ∧ stored.chosen = false := by
  rcases accept_spec alive next pins stored write type done with ⟨state, again⟩ | ⟨_, value, _, allowed, _, rfl⟩
  · exact prepare_moves _ next pins stored write type formed open_ again
  · exact ⟨moves_accepted pins _ value formed open_ allowed, open_⟩

theorem update_moves (state : PropState) (formed : Formed pins) (open_ : pins.chosen = false)
    (done : alive.updatePropState pins state = some (write, type, next, stored)) : Moves pins stored ∧ stored.chosen = false := by
  cases state
  case prepare => exact prepare_moves alive next pins stored write type formed open_ done
  case accept => exact accept_moves alive next pins stored write type formed open_ done
  case nil => cases done
  all_goals
    cases done
    exact ⟨moves_refl _ formed, open_⟩

variable (msg : Message)

theorem prop_rsp_moves (formed : Formed pins) (open_ : pins.chosen = false)
    (done : alive.stepPropRsp msg pins = some (write, type, next, stored)) : Moves pins stored ∧ stored.chosen = false := by
  obtain ⟨_, rest⟩ := (asserting_some _ _ _).mp done
  split at rest
  · cases rest
    exact ⟨moves_refl _ formed, open_⟩
  · obtain ⟨⟨state, waiting⟩, _, rest⟩ := Option.bind_eq_some_iff.mp rest
    obtain ⟨⟨write', type', last, record⟩, updated, rest⟩ := Option.bind_eq_some_iff.mp rest
    obtain ⟨_, same⟩ := (asserting_some _ _ _).mp rest
    cases same
    exact update_moves waiting next pins stored write type state formed open_ updated

theorem accpt_rsp_moves (formed : Formed pins) (open_ : pins.chosen = false)
    (done : alive.stepAccptRsp msg pins = some (write, type, next, stored)) : Moves pins stored ∧ stored.chosen = false := by
  obtain ⟨_, rest⟩ := (asserting_some _ _ _).mp done
  split at rest
  · cases rest
    exact ⟨moves_refl _ formed, open_⟩
  · obtain ⟨_, rest⟩ := (asserting_some _ _ _).mp rest
    obtain ⟨⟨state, waiting⟩, _, rest⟩ := Option.bind_eq_some_iff.mp rest
    obtain ⟨_, rest⟩ := (asserting_some _ _ _).mp rest
    obtain ⟨⟨write', type', last, record⟩, updated, same⟩ := Option.map_eq_some_iff.mp rest
    cases same
    exact update_moves waiting last pins stored write type state formed open_ updated

theorem try_moves (formed : Formed pins) (open_ : pins.chosen = false)
    (done : alive.stepTry msg pins = some (write, type, next, stored)) : Moves pins stored ∧ stored.chosen = false := by
  unfold stepTry at done
  split at done
  · cases done
  · obtain ⟨⟨state, waiting⟩, _, rest⟩ := Option.bind_eq_some_iff.mp done
    obtain ⟨⟨write', type', last, record⟩, updated, rest⟩ := Option.bind_eq_some_iff.mp rest
    obtain ⟨_, same⟩ := (asserting_some _ _ _).mp rest
    cases same
    exact update_moves waiting next pins stored write type state formed open_ updated

theorem begin_moves (formed : Formed pins) (open_ : pins.chosen = false)
    (done : alive.stepBegin msg pins = some (write, type, next, stored)) : Moves pins stored ∧ stored.chosen = false := by
  obtain ⟨_, rest⟩ := (asserting_some _ _ _).mp done
  split at rest
  · cases rest
  · split at rest
    · cases rest
      exact ⟨moves_refl _ formed, open_⟩
    · obtain ⟨_, rest⟩ := (asserting_some _ _ _).mp rest
      obtain ⟨⟨state, waiting⟩, _, rest⟩ := Option.bind_eq_some_iff.mp rest
      obtain ⟨⟨write', type', last, record⟩, updated, rest⟩ := Option.bind_eq_some_iff.mp rest
      obtain ⟨_, rest⟩ := (asserting_some _ _ _).mp rest
      obtain ⟨first, kept⟩ := update_moves waiting last pins record write' type' state formed open_ updated
      dsimp only at rest
      split at rest
      · obtain ⟨⟨write'', type'', final, accepted⟩, again, rest⟩ := Option.bind_eq_some_iff.mp rest
        obtain ⟨_, same⟩ := (asserting_some _ _ _).mp rest
        cases same
        obtain ⟨second, open'⟩ := update_moves last _ record _ _ type'' .accept first.formed kept again
        exact ⟨moves_trans pins record _ first second, open'⟩
      · cases rest
        exact ⟨first, kept⟩

theorem step_moves (formed : Formed pins) (open_ : pins.chosen = false)
    (done : alive.step msg pins = some (write, type, next, stored)) : Moves pins stored ∧ stored.chosen = false := by
  obtain ⟨_, done⟩ := (asserting_some _ _ _).mp done
  cases kind : msg.type <;> rw [kind] at done <;> dsimp only at done
  case propRsp => exact prop_rsp_moves alive next pins stored write type msg formed open_ done
  case accptRsp => exact accpt_rsp_moves alive next pins stored write type msg formed open_ done
  case fastAccptRsp => exact accpt_rsp_moves alive next pins stored write type msg formed open_ done
  case tryProp => exact try_moves alive next pins stored write type msg formed open_ done
  case tryRedoProp => exact try_moves alive next pins stored write type msg formed open_ done
  case beginProp => exact begin_moves alive next pins stored write type msg formed open_ done
  case beginFastProp => exact begin_moves alive next pins stored write type msg formed open_ done
  all_goals cases done

end Proposer

theorem learn_moves (value : Entry) (msg : Message) (pins stored : PaxosInstance) (write : Bool) (formed : Formed pins)
    (open_ : pins.chosen = false) (done : learn value msg pins = some (write, stored)) : Moves pins stored := by
  unfold learn at done
  split at done
  · rename_i same
    obtain ⟨_, kept⟩ := (asserting_some _ _ _).mp done
    cases kept
    exact moves_marked pins formed (by rw [same]; rfl)
  · obtain ⟨gen, rolled, rest⟩ := Option.bind_eq_some_iff.mp done
    obtain ⟨promised, first, rest⟩ := Option.bind_eq_some_iff.mp rest
    obtain ⟨verdict, second, rest⟩ := Option.bind_eq_some_iff.mp rest
    obtain ⟨accepted, third, result⟩ := Option.map_eq_some_iff.mp rest
    cases result
    subst third
    have above := (PropNumGen.next_spec _ gen _ rolled).2
    obtain ⟨_, rfl⟩ := promised_spec _ _ _ first
    obtain ⟨_, rfl⟩ := accepted_spec _ _ _ _ _ second
    have granted := moves_promised pins gen.get gen.get formed open_ (by omega) (Nat.le_refl _)
    have taken := moves_accepted _ gen.get value granted.formed open_ (Nat.le_refl _)
    exact moves_trans _ _ _ granted (moves_trans _ _ _ taken (moves_marked _ taken.formed rfl))

theorem type_moves (msg : Message) (alive next : Option PInsAliveState) (pins stored : PaxosInstance) (write : Bool) (type : MessageType)
    (formed : Formed pins) (open_ : pins.chosen = false) (done : stepByType msg alive pins = some (write, type, next, stored)) :
    Moves pins stored := by
  have still : Moves pins pins := moves_refl pins formed
  have accepting (reply : MessageType) (fast : Bool)
      (done : stepByType.accepting msg alive pins reply fast = some (write, type, next, stored)) : Moves pins stored := by
    obtain ⟨value, _, rest⟩ := Option.bind_eq_some_iff.mp done
    obtain ⟨verdict, updated, same⟩ := Option.map_eq_some_iff.mp rest
    cases verdict with
    | none =>
        cases same
        exact still
    | some record =>
        cases same
        obtain ⟨allowed, rfl⟩ := accepted_spec _ value fast pins _ updated
        exact moves_accepted pins _ value formed open_ allowed
  have proposing (done : stepByType.proposing msg alive pins = some (write, type, next, stored)) : Moves pins stored := by
    unfold stepByType.proposing at done
    split at done
    · cases done
      exact still
    · obtain ⟨⟨write', type', last, record⟩, stepped, same⟩ := Option.map_eq_some_iff.mp done
      cases same
      exact (step_moves _ last pins stored write type msg formed open_ stepped).1
  unfold stepByType at done
  cases kind : msg.type <;> rw [kind] at done <;> dsimp only at done
  case chosen =>
    obtain ⟨value, _, rest⟩ := Option.bind_eq_some_iff.mp done
    obtain ⟨⟨write', record⟩, learnt, same⟩ := Option.map_eq_some_iff.mp rest
    cases same
    exact learn_moves value msg pins _ _ formed open_ learnt
  case prop =>
    split at done
    · rename_i record granted
      cases done
      obtain ⟨allowed, rfl⟩ := promised_spec _ _ _ granted
      exact moves_promised pins _ _ formed open_ allowed (Nat.le_trans (formed.proposed open_) allowed)
    · cases done
      exact still
  case accpt => exact accepting .accptRsp false done
  case fastAccpt => exact accepting .fastAccptRsp true done
  case noop =>
    cases done
    exact still
  case getChosen =>
    cases done
    exact still
  all_goals exact proposing done

-- Whatever PInsWrapper::Step does, the instance only moves on.
theorem wrapper_moves (learnerOnly : Bool) (selfId : Fin 3) (msg : Message) (alive next : Option PInsAliveState) (pins stored : PaxosInstance)
    (write : Bool) (rsp : Option Message) (formed : Formed pins)
    (done : wrapperStep learnerOnly selfId msg alive pins = some (write, rsp, next, stored)) : Moves pins stored := by
  unfold wrapperStep at done
  split at done
  · obtain ⟨reply, _, same⟩ := Option.map_eq_some_iff.mp done
    cases same
    exact moves_refl _ formed
  · rename_i unmarked
    have open_ : pins.chosen = false := by simpa using unmarked
    unfold stepNotChosen at done
    split at done
    · cases done
      exact moves_refl _ formed
    · obtain ⟨⟨write', type, middle, record⟩, stepped, rest⟩ := Option.bind_eq_some_iff.mp done
      obtain ⟨reply, produced, same⟩ := Option.map_eq_some_iff.mp rest
      have moved := type_moves msg alive middle pins record write' type formed open_ stepped
      split at same
      · rename_i marks
        cases same
        rw [marks] at produced
        obtain ⟨complete, _⟩ := (asserting_some _ _ _).mp produced
        exact moves_trans _ _ _ moved (moves_marked record moved.formed complete.2.2.1)
      · cases same
        exact moved

end PaxosStore.PaxosKv
