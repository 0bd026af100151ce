import PaxosStore.PaxosKv.Servers

set_option autoImplicit false

namespace PaxosStore.PaxosKv

-- The entries of one key, oldest first, each with its index.
abbrev PaxosLog := List (Nat × PaxosInstance)

structure LogMessage where
  index : Nat
  msg : Message
deriving DecidableEq, Repr

def getMinIndex (log : PaxosLog) : Nat := (log.head?.map (·.1)).getD 0

def getMaxIndex (log : PaxosLog) : Nat := (log.getLast?.map (·.1)).getD 0

def getMaxIns (log : PaxosLog) : Option (Nat × PaxosInstance) := log.getLast?

def getChosenIns (log : PaxosLog) : Option (Nat × PaxosInstance) := log.reverse.find? (·.2.chosen)

def findIns (log : PaxosLog) (index : Nat) : Option PaxosInstance := (log.find? (·.1 = index)).map (·.2)

def setIns (log : PaxosLog) (index : Nat) (pins : PaxosInstance) : PaxosLog :=
  log.map fun entry => if entry.1 = index then (index, pins) else entry

-- Whether two neighbouring entries are both worth keeping.
def keepsBoth (prev ins : Nat × PaxosInstance) : Bool :=
  !ins.2.chosen && u64 (prev.1 + 1) = ins.1 && prev.2.acceptedValue.isSome && (prev.2.chosen || ins.2.acceptedValue.isNone)

def isSlim : PaxosLog → Bool
  | [] => true
  | [_] => true
  | [prev, ins] => keepsBoth prev ins
  | _ => false

-- Whether the log was cut, and what is left of it.
def shrinkPlog (log : PaxosLog) : Option (Bool × PaxosLog) :=
  if isSlim log then some (false, log)
  else
    match log.reverse with
    | ins :: prev :: _ =>
        let cut := if keepsBoth prev ins then [prev, ins] else [ins]
        asserting (isSlim cut) (some (true, cut))
    | _ => none

-- What the constructor of PLogWrapper checks.
def wrapperOk (log : PaxosLog) : Bool :=
  isSlim log && (getMinIndex log = getMaxIndex log || u64 (getMinIndex log + 1) = getMaxIndex log) &&
    log.all (fun entry => !entry.2.chosen || entry.2.promisedNum.isSome && entry.2.acceptedNum.isSome && entry.2.acceptedValue.isSome) &&
    (log.map (·.1)).Pairwise (fun low high => high = 0 ∨ low < high)

-- The code, the reply, the log and the cached state after a step, and whether
-- the log has to be written.
structure StepOut where
  code : Int
  rsp : Option LogMessage
  log : PaxosLog
  alive : Option PInsAliveState
  write : Bool
deriving DecidableEq

def silentOut (log : PaxosLog) (alive : Option PInsAliveState) : StepOut := ⟨0, none, log, alive, false⟩

-- The inner `none` is the code -1; the flag says that a new instance was added.
def getInstance (log : PaxosLog) (index : Nat) : Option (Option (PaxosLog × Bool)) :=
  asserting (0 < index ∧ getMinIndex log ≤ getMaxIndex log) <|
    if index ≠ getMinIndex log ∧ index ≠ getMaxIndex log then
      if index < getMaxIndex log then some none else some (some (log ++ [(index, ({} : PaxosInstance))], true))
    else some (some (log, false))

-- A message for an index that is no longer in the log.
def stepInvalidIndex (selfId : Fin 3) (m : LogMessage) (alive : Option PInsAliveState) (log : PaxosLog) : Option StepOut :=
  asserting (isSlim log) <|
    match log.getLast? with
    | none => some (silentOut log alive)
    | some (maxIndex, ins) =>
        asserting (0 < maxIndex ∧ m.index < maxIndex) <|
          match m.msg.type with
          | .getChosen | .prop | .accpt | .fastAccpt =>
              match getChosenIns log with
              | none => some (silentOut log alive)
              | some (index, pins) =>
                  asserting (m.index < index) <|
                    (stepChosen selfId { m.msg with type := .getChosen } pins).bind fun rsp =>
                      rsp.map fun rsp => ⟨0, some ⟨index, { rsp with toId := some m.msg.fromId }⟩, log, alive, false⟩
          | .chosen =>
              if u64 (m.index + 1) ≠ maxIndex ∨ ins.chosen then some (silentOut log alive)
              else
                asserting (log.length = 1) <|
                  let plogNew : PaxosLog := [(m.index, {}), (maxIndex, ins)]
                  asserting (isSlim plogNew) <| some ⟨0, none, plogNew, alive, true⟩
          | _ => some (silentOut log alive)

-- The instance takes its step in a log that has it. A new instance has no use
-- for the cached state, which then stays what it is.
def stepInstance (learnerOnly : Bool) (selfId : Fin 3) (m : LogMessage) (alive : Option PInsAliveState) (log : PaxosLog) (fresh : Bool) :
    Option StepOut :=
  match findIns log m.index with
  | none => none
  | some pins =>
      if learnerOnly ∧ pins.chosen = false ∧ m.msg.type ≠ .chosen then some ⟨-50221, none, log, alive, false⟩
      else
        (wrapperStep learnerOnly selfId m.msg (if fresh then none else alive) pins).bind fun (write, rsp, state, stored) =>
          (shrinkPlog (setIns log m.index stored)).map fun (cut, kept) =>
            { code := 0
              rsp := rsp.map fun rsp => ⟨m.index, rsp⟩
              log := kept
              alive := if fresh then alive else state
              write := write || (!pins.chosen && stored.chosen) || cut }

namespace PLogWrapper

-- `alive` is the cached state of the message's index.
def step (learnerOnly : Bool) (selfId : Fin 3) (m : LogMessage) (alive : Option PInsAliveState) (log : PaxosLog) : Option StepOut :=
  if m.index = 0 ∨ m.msg.toId ≠ some selfId then
    if m.index = 0 ∧ m.msg.type = .getChosen then stepInvalidIndex selfId m alive log else some ⟨-1, none, log, alive, false⟩
  else
    (getInstance log m.index).bind fun
      | none => stepInvalidIndex selfId m alive log
      | some (grown, fresh) => stepInstance learnerOnly selfId m alive grown fresh

-- The first two bytes of a request id are the member that made it.
def belongTo (reqid memberId : Nat) : Bool := reqid ≠ 0 ∧ reqid / 2 ^ 48 % 2 ^ 16 = memberId

def busy : Int := -100

def normalSet (learnerOnly : Bool) (selfId : Fin 3) (memberId : Nat) (entry : Entry) (doFastAccpt : Bool) (log : PaxosLog) : Option StepOut :=
  asserting (isSlim log) <|
    if (getMaxIns log).any (!·.2.chosen) then some ⟨busy, none, log, none, false⟩
    else
      let index := match getMaxIns log with
        | none => 1
        | some (index, _) => u64 (index + 1)
      let canDoFast := (getMaxIns log).any fun max => belongTo ((max.2.acceptedValue.map (·.reqid)).getD 0) memberId
      let type : MessageType := if doFastAccpt && canDoFast then .beginFastProp else .beginProp
      let msg : Message :=
        { type := type, fromId := selfId, toId := some selfId, proposedNum := propNumCompose (selfid selfId) 0, acceptedValue := some entry }
      asserting (0 < index) <|
        (step learnerOnly selfId ⟨index, msg⟩ (some (.create (selfid selfId) 0)) (log ++ [(index, ({} : PaxosInstance))])).bind fun out =>
          if out.code ≠ 0 then some { out with rsp := none, alive := none } else asserting out.rsp.isSome (some out)

def preemptSet (learnerOnly : Bool) (selfId : Fin 3) (entry : Entry) (log : PaxosLog) : Option StepOut :=
  asserting (isSlim log) <|
    match getMaxIns log with
    | none => some ⟨-11, none, log, none, false⟩
    | some (index, ins) =>
        if (getChosenIns log).all (fun chosen => index ≠ u64 (chosen.1 + 1)) ∧ index ≠ 1 then some ⟨-11, none, log, none, false⟩
        else
          asserting (ins.chosen = false ∧ 0 < index) <|
            ((PropNumGen.mk (selfid selfId) 0).next ins.proposedNum).bind fun gen =>
              let msg : Message :=
                { type := .tryProp, fromId := selfId, toId := some selfId, proposedNum := gen.get, acceptedValue := some entry }
              (step learnerOnly selfId ⟨index, msg⟩ (some (.create (selfid selfId) (getPropCnt gen.get))) log).bind fun out =>
                if out.code ≠ 0 then some { out with rsp := none, alive := none } else asserting out.rsp.isSome (some out)

-- Set without a state at hand, as DBImpl calls it.
def set (learnerOnly : Bool) (selfId : Fin 3) (memberId : Nat) (entry : Entry) (doFastAccpt : Bool) (log : PaxosLog) : Option StepOut :=
  if (getMaxIns log).any (!·.2.chosen) then preemptSet learnerOnly selfId entry log
  else normalSet learnerOnly selfId memberId entry doFastAccpt log

def tryRedoProp (learnerOnly : Bool) (selfId : Fin 3) (aliveIndex : Nat) (alive : PInsAliveState) (log : PaxosLog) : Option StepOut :=
  asserting (isSlim log) <|
    match getMaxIns log with
    | none => some ⟨1, none, log, some alive, false⟩
    | some (index, ins) =>
        if ins.chosen then some ⟨1, none, log, some alive, false⟩
        else
          asserting (aliveIndex = index) <|
            ((PropNumGen.mk (selfid selfId) 0).next ins.proposedNum).bind fun gen =>
              let again (value : Entry) :=
                let msg : Message :=
                  { type := .tryRedoProp, fromId := selfId, toId := some selfId, proposedNum := gen.get, acceptedValue := some value }
                step learnerOnly selfId ⟨index, msg⟩ (some alive) log
              match alive.proposingValue.or ins.acceptedValue with
              | some value => again value
              | none =>
                  match getChosenIns log with
                  | some (chosenIndex, chosen) =>
                      if u64 (chosenIndex + 1) ≠ index then some ⟨-21, none, log, some alive, false⟩
                      else again ⟨0, (chosen.acceptedValue.map (·.data)).getD []⟩
                  -- The error path reads the index through the null pointer.
                  | none => none

end PLogWrapper

end PaxosStore.PaxosKv
