import PaxosStore.PaxosKv.PropNum
import Mathlib.Data.Fintype.Card
import Mathlib.Data.Fintype.Pi

set_option autoImplicit false

namespace PaxosStore.PaxosKv

structure Entry where
  reqid : Nat
  data : List UInt8
deriving DecidableEq, Repr

inductive MessageType where
  | noop
  | prop
  | propRsp
  | accpt
  | accptRsp
  | chosen
  | beginProp
  | tryProp
  | fastAccpt
  | fastAccptRsp
  | beginFastProp
  | getChosen
  | tryRedoProp
deriving DecidableEq, Repr

-- A message of one key and index. `toId` is `none` for the number 0, a broadcast
-- to the two other servers; server `i` has the id i + 1 in the source.
structure Message where
  type : MessageType
  fromId : Fin 3
  toId : Option (Fin 3)
  proposedNum : Nat
  promisedNum : Option Nat := none
  acceptedNum : Option Nat := none
  acceptedValue : Option Entry := none
deriving DecidableEq, Repr

-- The persisted record; has_proposed_num is never asked for.
structure PaxosInstance where
  proposedNum : Nat := 0
  promisedNum : Option Nat := none
  acceptedNum : Option Nat := none
  acceptedValue : Option Entry := none
  chosen : Bool := false
deriving DecidableEq, Repr

inductive PropState where
  | nil
  | prepare
  | waitPrepare
  | accept
  | waitAccept
  | chosen
  | propFrozen
deriving DecidableEq, Repr

def maxPropCnt : Nat := 3

def majorCnt : Nat := 2

structure PInsAliveState where
  propNumGen : PropNumGen
  propState : PropState := .nil
  activePropCnt : Nat := 0
  maxAcceptedHintNum : Nat := 0
  maxHintNum : Nat := 0
  rspVotes : Fin 3 → Option Bool := fun _ => none
  proposingValue : Option Entry := none
deriving DecidableEq

def updateRspVotes (peer : Fin 3) (vote : Bool) (votes : Fin 3 → Option Bool) : Option (Fin 3 → Option Bool) :=
  match votes peer with
  | some old => asserting (old = vote) (some votes)
  | none => some (Function.update votes peer (some vote))

def countVotes (votes : Fin 3 → Option Bool) (vote : Bool) : Nat :=
  (Finset.univ.filter fun i => votes i = some vote).card

-- `none` is a refusal.
def updatePromised (propNum : Nat) (pins : PaxosInstance) : Option PaxosInstance :=
  if pins.promisedNum.any (· > propNum) then none else some { pins with promisedNum := some propNum }

-- The outer `none` is a failed assertion, the inner one a refusal.
def updateAccepted (propNum : Nat) (value : Entry) (isFastAccept : Bool) (pins : PaxosInstance) :
    Option (Option PaxosInstance) :=
  if pins.promisedNum.any (· > propNum) then some none
  else if isFastAccept ∧ pins.acceptedNum.isSome then some none
  else
    asserting (pins.acceptedNum.all (· ≤ propNum)) <|
      some (some { pins with promisedNum := some propNum, acceptedNum := some propNum, acceptedValue := some value })

namespace PInsAliveState

def create (selfid propCnt : Nat) : PInsAliveState := { propNumGen := ⟨selfid, propCnt⟩ }

def markChosen (alive : PInsAliveState) : PInsAliveState :=
  { alive with propState := .chosen, rspVotes := fun _ => none, proposingValue := none }

-- The value to re-propose is the one with the largest accepted number seen so
-- far, be it in a promise or in a refusal.
def takeHint (alive : PInsAliveState) (peerAcceptedNum : Nat) : Option Entry → Option PInsAliveState
  | none => some alive
  | some value =>
      asserting (0 < peerAcceptedNum) <|
        if peerAcceptedNum ≥ alive.maxAcceptedHintNum then
          if peerAcceptedNum > alive.maxAcceptedHintNum then
            some { alive with maxAcceptedHintNum := peerAcceptedNum, proposingValue := some value }
          else asserting (alive.proposingValue = some value) (some alive)
        else some alive

def stepPrepareRsp (alive : PInsAliveState) (peer : Fin 3) (peerPromisedNum peerAcceptedNum : Nat)
    (peerAcceptedValue : Option Entry) : Option (PropState × PInsAliveState) :=
  asserting (alive.propState = .waitPrepare ∧ alive.proposingValue.isSome ∧ alive.propNumGen.get ≤ peerPromisedNum) <|
    (updateRspVotes peer (alive.propNumGen.get = peerPromisedNum) alive.rspVotes).bind fun votes =>
      (takeHint { alive with rspVotes := votes } peerAcceptedNum peerAcceptedValue).map fun alive =>
        if countVotes votes false ≥ majorCnt then (.prepare, alive)
        else if countVotes votes true + 1 ≥ majorCnt then (.accept, alive)
        else (.waitPrepare, alive)

def stepAcceptRsp (alive : PInsAliveState) (peer : Fin 3) (peerAcceptedNum : Nat) : Option (PropState × PInsAliveState) :=
  asserting (alive.propState = .waitAccept) <|
    (updateRspVotes peer (alive.propNumGen.get = peerAcceptedNum) alive.rspVotes).map fun votes =>
      if countVotes votes false ≥ majorCnt then (.prepare, { alive with rspVotes := votes })
      else if countVotes votes true + 1 ≥ majorCnt then (.chosen, { alive with rspVotes := votes })
      else (.waitAccept, { alive with rspVotes := votes })

def stepTryPropose (alive : PInsAliveState) (hintProposedNum : Nat) (value : Entry) : Option (PropState × PInsAliveState) :=
  (alive.propNumGen.update hintProposedNum).map fun gen =>
    (.prepare, { alive with
      propNumGen := gen
      activePropCnt := 0
      maxAcceptedHintNum := 0
      proposingValue := some value
      rspVotes := fun _ => none })

def stepBeginPropose (alive : PInsAliveState) (hintProposedNum : Nat) (value : Entry) : Option (PropState × PInsAliveState) :=
  asserting (alive.propState = .nil) <|
    (alive.propNumGen.update hintProposedNum).bind fun gen =>
      asserting (alive.proposingValue = none) <|
        some (.prepare, { alive with propNumGen := gen, proposingValue := some value })

-- Takes up the own accepted value and promises the own number.
def beginPreparePhase (alive : PInsAliveState) (pins : PaxosInstance) : Option (PropState × PInsAliveState × PaxosInstance) :=
  asserting (alive.propState = .prepare ∧ alive.proposingValue.isSome) <|
    let pins := { pins with proposedNum := alive.propNumGen.get }
    let hinted : Option PInsAliveState :=
      if pins.acceptedNum.any (alive.maxAcceptedHintNum < ·) then
        asserting pins.acceptedValue.isSome <|
          some { alive with maxAcceptedHintNum := pins.acceptedNum.getD 0, proposingValue := pins.acceptedValue }
      else some alive
    hinted.map fun alive =>
      match updatePromised alive.propNumGen.get pins with
      | none => (.prepare, alive, pins)
      | some pins => (.waitPrepare, { alive with rspVotes := fun _ => none }, pins)

def beginAcceptPhase (alive : PInsAliveState) (pins : PaxosInstance) : Option (PropState × PInsAliveState × PaxosInstance) :=
  asserting (alive.propState = .accept) <|
    match alive.proposingValue with
    | none => none
    | some value =>
        (updateAccepted alive.propNumGen.get value false pins).map fun
          | none => (.prepare, alive, pins)
          | some pins => (.waitAccept, { alive with rspVotes := fun _ => none }, pins)

-- The case PREPARE of updatePropState: a larger number, or giving up after maxPropCnt rounds.
def enterPrepare (alive : PInsAliveState) (pins : PaxosInstance) :
    Option (Bool × MessageType × PInsAliveState × PaxosInstance) :=
  let alive := { alive with propState := .prepare, activePropCnt := (alive.activePropCnt + 1) % 2 ^ 16 }
  if alive.activePropCnt > maxPropCnt then some (false, .noop, { alive with propState := .propFrozen }, pins)
  else
    (match pins.promisedNum with
      | some promised => alive.propNumGen.next promised
      | none => some alive.propNumGen).bind fun gen =>
    (gen.update (max alive.maxHintNum alive.maxAcceptedHintNum)).bind fun gen =>
    asserting (gen.get > pins.proposedNum ∧ gen.get > pins.promisedNum.getD 0) <|
    (beginPreparePhase { alive with propNumGen := gen } pins).bind fun (state, alive, pins) =>
    asserting (state = PropState.waitPrepare) <| some (true, .prop, { alive with propState := .waitPrepare }, pins)

def enterAccept (alive : PInsAliveState) (pins : PaxosInstance) :
    Option (Bool × MessageType × PInsAliveState × PaxosInstance) :=
  (beginAcceptPhase { alive with propState := .accept } pins).bind fun (state, alive, pins) =>
    if state = PropState.prepare then enterPrepare alive pins
    else some (true, .accpt, { alive with propState := .waitAccept }, pins)

def updatePropState (alive : PInsAliveState) (pins : PaxosInstance) :
    PropState → Option (Bool × MessageType × PInsAliveState × PaxosInstance)
  | .propFrozen => some (false, .noop, { alive with propState := .propFrozen }, pins)
  | .waitPrepare => some (false, .noop, { alive with propState := .waitPrepare }, pins)
  | .waitAccept => some (false, .noop, { alive with propState := .waitAccept }, pins)
  | .chosen => some (false, .chosen, alive.markChosen, pins)
  | .prepare => enterPrepare alive pins
  | .accept => enterAccept alive pins
  | .nil => none

def stepPropRsp (alive : PInsAliveState) (msg : Message) (pins : PaxosInstance) :
    Option (Bool × MessageType × PInsAliveState × PaxosInstance) :=
  asserting alive.proposingValue.isSome <|
    if alive.propState ≠ .waitPrepare ∨ pins.proposedNum ≠ msg.proposedNum then some (false, .noop, alive, pins)
    else
      (if alive.propNumGen.get ≠ msg.proposedNum then
        asserting (alive.propNumGen.get > msg.proposedNum) (some (.prepare, alive))
      else alive.stepPrepareRsp msg.fromId (msg.promisedNum.getD 0) (msg.acceptedNum.getD 0) msg.acceptedValue).bind
        fun (state, alive) =>
      (updatePropState alive pins state).bind fun (write, type, alive, pins) =>
      asserting (type = .accpt → msg.proposedNum = pins.proposedNum ∧ pins.promisedNum = some msg.proposedNum ∧
        pins.acceptedNum = some msg.proposedNum) <|
      some (write, type, alive, pins)

def stepAccptRsp (alive : PInsAliveState) (msg : Message) (pins : PaxosInstance) :
    Option (Bool × MessageType × PInsAliveState × PaxosInstance) :=
  asserting alive.proposingValue.isSome <|
    if alive.propState ≠ .waitAccept ∨ pins.proposedNum ≠ msg.proposedNum then some (false, .noop, alive, pins)
    else
      asserting (alive.propNumGen.get = msg.proposedNum ∧ msg.acceptedNum.isSome ∧ msg.acceptedValue = none) <|
      (alive.stepAcceptRsp msg.fromId (msg.acceptedNum.getD 0)).bind fun (state, alive) =>
      asserting (state = .chosen → msg.proposedNum ≤ pins.promisedNum.getD 0 ∧ msg.proposedNum ≤ pins.acceptedNum.getD 0 ∧
        alive.proposingValue = pins.acceptedValue) <|
      (updatePropState alive pins state).map fun (write, type, alive, pins) =>
        (write, type, { alive with
          maxHintNum := max (max alive.maxHintNum (msg.promisedNum.getD 0)) (msg.acceptedNum.getD 0) }, pins)

def stepTry (alive : PInsAliveState) (msg : Message) (pins : PaxosInstance) :
    Option (Bool × MessageType × PInsAliveState × PaxosInstance) :=
  match msg.acceptedValue with
  | none => none
  | some value =>
      let hint := if getPropCnt msg.proposedNum = 0 then propNumCompose 0 1 else msg.proposedNum
      (alive.stepTryPropose hint value).bind fun (state, alive) =>
      (updatePropState alive pins state).bind fun (write, type, alive, pins) =>
      asserting (alive.propState = .waitPrepare) <| some (write, type, alive, pins)

def stepBegin (alive : PInsAliveState) (msg : Message) (pins : PaxosInstance) :
    Option (Bool × MessageType × PInsAliveState × PaxosInstance) :=
  asserting (alive.proposingValue = none ∧ alive.activePropCnt = 0 ∧ alive.maxAcceptedHintNum = 0) <|
    match msg.acceptedValue with
    | none => none
    | some value =>
        if pins.promisedNum.isSome then some (false, .noop, alive, pins)
        else
          asserting (alive.propState = .nil ∧ pins.acceptedNum = none ∧ pins.acceptedValue = none) <|
          (alive.stepBeginPropose (if msg.type = .beginProp then propNumCompose 0 1 else 0) value).bind fun (state, alive) =>
          (updatePropState alive pins state).bind fun (write, type, alive, pins) =>
          asserting (write = true ∧ type = .prop ∧ pins.promisedNum = some alive.propNumGen.get) <|
          if msg.type = .beginFastProp then
            (updatePropState alive pins .accept).bind fun (write, type, alive, pins) =>
              asserting (write = true ∧ type = .accpt ∧ getPropCnt pins.proposedNum = 0) <|
              some (write, .fastAccpt, alive, pins)
          else some (write, type, alive, pins)

def step (alive : PInsAliveState) (msg : Message) (pins : PaxosInstance) :
    Option (Bool × MessageType × PInsAliveState × PaxosInstance) :=
  asserting (alive.propState ≠ .chosen) <|
    match msg.type with
    | .propRsp => alive.stepPropRsp msg pins
    | .accptRsp | .fastAccptRsp => alive.stepAccptRsp msg pins
    | .tryProp | .tryRedoProp => alive.stepTry msg pins
    | .beginProp | .beginFastProp => alive.stepBegin msg pins
    | _ => none

end PInsAliveState

-- `selfId` is msg.to() in the source. The outer `none` is a failed assertion.
def produceRsp (selfId : Fin 3) (msg : Message) (alive : Option PInsAliveState) (pins : PaxosInstance) :
    MessageType → Option (Option Message)
  | .noop => some none
  | .propRsp =>
      asserting (pins.promisedNum.getD 0 ≥ msg.proposedNum ∧ (pins.acceptedNum.isSome → pins.acceptedValue.isSome)) <|
        some (some {
          type := .propRsp, fromId := selfId, toId := some msg.fromId, proposedNum := msg.proposedNum
          promisedNum := some (pins.promisedNum.getD 0), acceptedNum := pins.acceptedNum
          acceptedValue := if pins.acceptedNum.isSome then pins.acceptedValue else none })
  | .accptRsp => acceptRsp .accptRsp
  | .fastAccptRsp => acceptRsp .fastAccptRsp
  | .prop =>
      asserting (alive.isSome ∧ 0 < getPropCnt pins.proposedNum) <|
        some (some { type := .prop, fromId := selfId, toId := none, proposedNum := pins.proposedNum })
  | .accpt => broadcast .accpt (0 < getPropCnt pins.proposedNum)
  | .fastAccpt => broadcast .fastAccpt (getPropCnt pins.proposedNum = 0)
  | .chosen =>
      asserting (msg.type ≠ .chosen ∧ pins.promisedNum.isSome ∧ pins.acceptedNum.isSome ∧ pins.acceptedValue.isSome) <|
        some (some {
          type := .chosen, fromId := selfId, toId := none, proposedNum := pins.proposedNum
          acceptedValue := pins.acceptedValue })
  | _ => none
where
  acceptRsp (type : MessageType) : Option (Option Message) :=
    asserting pins.promisedNum.isSome <|
      let acceptedNum := pins.acceptedNum.getD 0
      some (some {
        type := type, fromId := selfId, toId := some msg.fromId, proposedNum := msg.proposedNum
        acceptedNum := some acceptedNum
        promisedNum := if acceptedNum ≠ msg.proposedNum ∧ acceptedNum = 0 then some (pins.promisedNum.getD 0) else none })
  broadcast (type : MessageType) (count : Bool) : Option (Option Message) :=
    match alive with
    | none => none
    | some alive =>
        asserting (pins.promisedNum.isSome ∧ pins.acceptedNum.isSome ∧ pins.acceptedValue.isSome ∧
            pins.proposedNum = alive.propNumGen.get ∧ pins.acceptedValue = alive.proposingValue ∧ count = true) <|
          some (some {
            type := type, fromId := selfId, toId := none, proposedNum := alive.propNumGen.get
            acceptedValue := alive.proposingValue })

def stepChosen (selfId : Fin 3) (msg : Message) (pins : PaxosInstance) : Option (Option Message) :=
  asserting (pins.promisedNum.isSome ∧ pins.acceptedNum.isSome ∧ pins.acceptedValue.isSome) <|
    match msg.type with
    | .chosen => asserting (msg.acceptedValue.isSome → msg.acceptedValue = pins.acceptedValue) (some none)
    | .getChosen | .prop | .accpt | .fastAccpt =>
        some (some {
          type := .chosen, fromId := selfId, toId := some msg.fromId, proposedNum := pins.proposedNum
          promisedNum := pins.promisedNum, acceptedNum := pins.acceptedNum, acceptedValue := pins.acceptedValue })
    | _ => some none

-- Marks the accepted value, or rolls a number of its own and accepts the value with it.
def learn (value : Entry) (msg : Message) (pins : PaxosInstance) : Option (Bool × PaxosInstance) :=
  if pins.acceptedNum = some msg.proposedNum then
    asserting (pins.acceptedValue = some value) <| some (false, { pins with chosen := true })
  else
    ((PropNumGen.mk 0 100).next (max (max msg.proposedNum (pins.promisedNum.getD 0)) pins.proposedNum)).bind fun gen =>
    (updatePromised gen.get { pins with proposedNum := gen.get }).bind fun pins =>
    (updateAccepted gen.get value false pins).bind fun accepted =>
    accepted.map fun pins => (true, { pins with chosen := true })

-- What a message does before the reply is built: the flag `write`, the type of
-- the reply, and the new states.
def stepByType (msg : Message) (alive : Option PInsAliveState) (pins : PaxosInstance) :
    Option (Bool × MessageType × Option PInsAliveState × PaxosInstance) :=
  match msg.type with
  | .noop | .getChosen => some (false, .noop, alive, pins)
  | .chosen =>
      msg.acceptedValue.bind fun value =>
      (learn value msg pins).map fun (write, pins) => (write, .noop, alive.map PInsAliveState.markChosen, pins)
  | .prop =>
      match updatePromised msg.proposedNum pins with
      | some promised => some (true, .propRsp, alive, promised)
      | none => some (false, .propRsp, alive, pins)
  | .accpt => accepting .accptRsp false
  | .fastAccpt => accepting .fastAccptRsp true
  | _ => proposing
where
  proposing : Option (Bool × MessageType × Option PInsAliveState × PaxosInstance) :=
    match alive with
    | none => some (false, .noop, none, pins)
    | some state => (state.step msg pins).map fun (write, type, state, pins) => (write, type, some state, pins)
  accepting (type : MessageType) (fast : Bool) :=
    msg.acceptedValue.bind fun value =>
    (updateAccepted msg.proposedNum value fast pins).map fun
      | some accepted => (true, type, alive, accepted)
      | none => (false, type, alive, pins)

-- `learnerOnly` says whether the file plog_learner_only exists.
def stepNotChosen (learnerOnly : Bool) (selfId : Fin 3) (msg : Message) (alive : Option PInsAliveState) (pins : PaxosInstance) :
    Option (Bool × Option Message × Option PInsAliveState × PaxosInstance) :=
  if learnerOnly ∧ msg.type ≠ .chosen then some (false, none, alive, pins)
  else
    (stepByType msg alive pins).bind fun (write, type, alive, pins) =>
    (produceRsp selfId msg alive pins type).map fun rsp =>
      if type = .chosen then (write, rsp, alive.map PInsAliveState.markChosen, { pins with chosen := true })
      else (write, rsp, alive, pins)

def wrapperStep (learnerOnly : Bool) (selfId : Fin 3) (msg : Message) (alive : Option PInsAliveState) (pins : PaxosInstance) :
    Option (Bool × Option Message × Option PInsAliveState × PaxosInstance) :=
  if pins.chosen then (stepChosen selfId msg pins).map fun rsp => (false, rsp, alive, pins)
  else stepNotChosen learnerOnly selfId msg alive pins

end PaxosStore.PaxosKv
