import PaxosStore.PaxosKv.LogSteps

set_option autoImplicit false

namespace PaxosStore.PaxosKv

open PaxosStore.Consensus

-- The three servers of one key with their logs, and every message ever sent.
structure LogGroup where
  server : Fin 3 → LogServer
  sent : List LogMessage
deriving DecidableEq

-- A server gets a message of another one, or does something of its own. The members
-- are the numbers the servers have in their request ids.
inductive GroupEvent where
  | deliver (i : Fin 3) (m : LogMessage) (learnerOnly written : Bool)
  | operate (i : Fin 3) (op : LogOp)
deriving DecidableEq

-- Questions that change no instance: anybody may ask them at any time.
def isQuestion (type : MessageType) : Bool := type = .getChosen ∨ type = .noop

def LogOp.own : LogOp → Bool
  | .message m _ _ => isQuestion m.msg.type
  | _ => true

-- The copy of a message that goes to one server.
def LogMessage.sentTo (m : LogMessage) (i : Fin 3) : LogMessage := ⟨m.index, { m.msg with toId := some i }⟩

namespace LogGroup

def start : LogGroup := ⟨fun _ => {}, []⟩

def perform (members : Fin 3 → Nat) (g : LogGroup) (i : Fin 3) (op : LogOp) : Option LogGroup :=
  if LogServer.fits op then
    let result := (g.server i).perform i (members i) op
    some ⟨Function.update g.server i result.1, result.2.toList ++ g.sent⟩
  else none

def act (members : Fin 3 → Nat) (g : LogGroup) : GroupEvent → Option LogGroup
  | .deliver i m learnerOnly written =>
      if m ∈ g.sent ∧ Servers.addressed i m.msg then g.perform members i (.message (m.sentTo i) learnerOnly written) else none
  | .operate i op => if op.own then g.perform members i op else none

end LogGroup

section Instances

variable (learnerOnly : Bool) (selfId : Fin 3) (msg : Message) (alive next : Option PInsAliveState) (pins stored : PaxosInstance)
  (write : Bool) (rsp : Option Message)

-- Whom a message was sent to makes no difference to its receiver.
theorem wrapper_target (target : Option (Fin 3)) :
    wrapperStep learnerOnly selfId { msg with toId := target } alive pins = wrapperStep learnerOnly selfId msg alive pins := rfl

theorem prepare_unwritten (state after : PInsAliveState) (type : MessageType)
    (done : state.enterPrepare pins = some (write, type, after, stored)) (unwritten : write = false) : stored = pins := by
  rcases PInsAliveState.prepare_spec state after pins stored write type done with ⟨_, same, _⟩ | ⟨kind, _⟩
  · exact same
  · unfold PInsAliveState.enterPrepare at done
    dsimp only at done
    split at done
    · cases done
      rfl
    · obtain ⟨gen, _, rest⟩ := Option.bind_eq_some_iff.mp done
      obtain ⟨gen', _, rest⟩ := Option.bind_eq_some_iff.mp rest
      obtain ⟨_, rest⟩ := (asserting_some _ _ _).mp rest
      obtain ⟨_, _, rest⟩ := Option.bind_eq_some_iff.mp rest
      obtain ⟨_, same⟩ := (asserting_some _ _ _).mp rest
      cases same
      cases unwritten

theorem update_unwritten (state after : PInsAliveState) (target : PropState) (type : MessageType)
    (done : state.updatePropState pins target = some (write, type, after, stored)) (unwritten : write = false) : stored = pins := by
  cases target with
  | prepare => exact prepare_unwritten pins stored write state after type done unwritten
  | accept =>
      obtain ⟨⟨reached, waiting, record⟩, phase, rest⟩ := Option.bind_eq_some_iff.mp done
      dsimp only at rest
      split at rest
      · rename_i back
        have same : record = pins := by
          obtain ⟨_, phase⟩ := (asserting_some _ _ _).mp phase
          dsimp only at phase
          cases known : state.proposingValue with
          | none => simp [known] at phase
          | some value =>
              simp only [known] at phase
              obtain ⟨outcome, _, shape⟩ := Option.map_eq_some_iff.mp phase
              cases outcome with
              | none =>
                  cases shape
                  rfl
              | some taken =>
                  cases shape
                  cases back
        rw [← same]
        exact prepare_unwritten record stored write _ after type rest unwritten
      · cases rest
        cases unwritten
  | nil => cases done
  | _ =>
      cases done
      rfl

theorem answer_unwritten (state after : PInsAliveState) (type : MessageType)
    (done : state.stepAccptRsp msg pins = some (write, type, after, stored)) (unwritten : write = false) : stored = pins := by
  obtain ⟨_, rest⟩ := (asserting_some _ _ _).mp done
  split at rest
  · cases rest
    rfl
  · obtain ⟨_, rest⟩ := (asserting_some _ _ _).mp rest
    obtain ⟨⟨target, waiting⟩, _, rest⟩ := Option.bind_eq_some_iff.mp rest
    obtain ⟨_, rest⟩ := (asserting_some _ _ _).mp rest
    obtain ⟨⟨asked, reply, later, record⟩, moved, same⟩ := Option.map_eq_some_iff.mp rest
    cases same
    exact update_unwritten pins stored write waiting later target type moved unwritten

theorem try_unwritten (state after : PInsAliveState) (type : MessageType)
    (done : state.stepTry msg pins = some (write, type, after, stored)) (unwritten : write = false) : stored = pins := by
  unfold PInsAliveState.stepTry at done
  split at done
  · cases done
  · obtain ⟨⟨target, waiting⟩, _, rest⟩ := Option.bind_eq_some_iff.mp done
    obtain ⟨⟨asked, reply, later, record⟩, moved, rest⟩ := Option.bind_eq_some_iff.mp rest
    obtain ⟨_, same⟩ := (asserting_some _ _ _).mp rest
    cases same
    exact update_unwritten pins stored write waiting after target type moved unwritten

theorem begin_unwritten (state after : PInsAliveState) (type : MessageType)
    (done : state.stepBegin msg pins = some (write, type, after, stored)) (unwritten : write = false) : stored = pins := by
  obtain ⟨_, rest⟩ := (asserting_some _ _ _).mp done
  split at rest
  · cases rest
  · split at rest
    · cases rest
      rfl
    · obtain ⟨_, rest⟩ := (asserting_some _ _ _).mp rest
      obtain ⟨⟨target, waiting⟩, _, rest⟩ := Option.bind_eq_some_iff.mp rest
      obtain ⟨⟨asked, reply, later, record⟩, _, rest⟩ := Option.bind_eq_some_iff.mp rest
      obtain ⟨⟨first, _⟩, rest⟩ := (asserting_some _ _ _).mp rest
      dsimp only at rest
      split at rest
      · obtain ⟨⟨again, reply', last, record'⟩, _, rest⟩ := Option.bind_eq_some_iff.mp rest
        obtain ⟨⟨second, _⟩, same⟩ := (asserting_some _ _ _).mp rest
        cases same
        rw [second] at unwritten
        cases unwritten
      · cases rest
        rw [first] at unwritten
        cases unwritten

theorem step_unwritten (state after : PInsAliveState) (type : MessageType)
    (done : state.step msg pins = some (write, type, after, stored)) (unwritten : write = false) : stored = pins := by
  obtain ⟨_, rest⟩ := (asserting_some _ _ _).mp done
  cases kind : msg.type <;> rw [kind] at rest <;> dsimp only at rest
  case propRsp =>
    obtain ⟨_, rest⟩ := (asserting_some _ _ _).mp rest
    split at rest
    · cases rest
      rfl
    · obtain ⟨⟨target, waiting⟩, _, rest⟩ := Option.bind_eq_some_iff.mp rest
      obtain ⟨⟨asked, reply, later, record⟩, moved, rest⟩ := Option.bind_eq_some_iff.mp rest
      obtain ⟨_, same⟩ := (asserting_some _ _ _).mp rest
      cases same
      exact update_unwritten pins stored write waiting after target type moved unwritten
  case accptRsp => exact answer_unwritten msg pins stored write state after type rest unwritten
  case fastAccptRsp => exact answer_unwritten msg pins stored write state after type rest unwritten
  case tryProp => exact try_unwritten msg pins stored write state after type rest unwritten
  case tryRedoProp => exact try_unwritten msg pins stored write state after type rest unwritten
  case beginProp => exact begin_unwritten msg pins stored write state after type rest unwritten
  case beginFastProp => exact begin_unwritten msg pins stored write state after type rest unwritten
  all_goals cases rest

theorem type_unwritten (type : MessageType) (done : stepByType msg alive pins = some (write, type, next, stored)) (unwritten : write = false)
    (open_ : stored.chosen = false) : stored = pins := by
  have proposing (done : stepByType.proposing msg alive pins = some (write, type, next, stored)) : stored = pins := by
    rw [stepByType.proposing.eq_def] at done
    cases alive with
    | none =>
        cases done
        rfl
    | some state =>
        obtain ⟨⟨asked, reply, later, record⟩, moved, same⟩ := Option.map_eq_some_iff.mp done
        cases same
        exact step_unwritten msg pins stored write state later type moved unwritten
  have accepting (answer : MessageType) (fast : Bool) (done : stepByType.accepting msg alive pins answer fast = some (write, type, next, stored)) :
      stored = pins := by
    obtain ⟨value, _, rest⟩ := Option.bind_eq_some_iff.mp done
    obtain ⟨outcome, _, same⟩ := Option.map_eq_some_iff.mp rest
    cases outcome with
    | none =>
        cases same
        rfl
    | some accepted =>
        cases same
        cases unwritten
  cases kind : msg.type <;> rw [stepByType, kind] at done <;> dsimp only at done
  case noop =>
    cases done
    rfl
  case getChosen =>
    cases done
    rfl
  case chosen =>
    obtain ⟨value, _, learnt⟩ := Option.bind_eq_some_iff.mp done
    obtain ⟨⟨asked, record⟩, marked, same⟩ := Option.map_eq_some_iff.mp learnt
    cases same
    rw [(learn_spec value msg pins _ _ marked).1] at open_
    cases open_
  case prop =>
    split at done
    · cases done
      cases unwritten
    · cases done
      rfl
  case accpt => exact accepting .accptRsp false done
  case fastAccpt => exact accepting .fastAccptRsp true done
  all_goals exact proposing done

-- An instance that is neither to be written nor newly chosen is what it was.
theorem wrapper_unwritten (done : wrapperStep learnerOnly selfId msg alive pins = some (write, rsp, next, stored)) (unwritten : write = false)
    (unmarked : (!pins.chosen && stored.chosen) = false) : stored = pins := by
  unfold wrapperStep at done
  split at done
  · obtain ⟨_, _, same⟩ := Option.map_eq_some_iff.mp done
    cases same
    rfl
  · rename_i open_
    have open_ : stored.chosen = false := by simpa [open_] using unmarked
    unfold stepNotChosen at done
    split at done
    · cases done
      rfl
    · obtain ⟨⟨asked, type, later, record⟩, moved, rest⟩ := Option.bind_eq_some_iff.mp done
      obtain ⟨reply, _, same⟩ := Option.map_eq_some_iff.mp rest
      split at same
      · cases same
        cases open_
      · cases same
        exact type_unwritten msg alive next pins stored write type moved unwritten open_

end Instances

end PaxosStore.PaxosKv
