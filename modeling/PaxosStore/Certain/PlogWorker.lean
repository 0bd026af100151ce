import PaxosStore.Certain.EntityMessages
import PaxosStore.Consensus.Run

set_option autoImplicit false

namespace PaxosStore.Certain

-- What the plog or the db answers to one request. A failed write may have
-- taken effect or not.
inductive PlogOutcome where
  | ok
  | failed (code : RetCode) (applied : Bool)
deriving DecidableEq, Repr

-- A failure is neither a success nor a record that is not there.
def PlogOutcome.legal : PlogOutcome → Bool
  | .ok => true
  | .failed code _ => code ≠ .ok ∧ code ≠ .implPlogNotFound

namespace Node

variable {n : Nat}

-- PlogWorker::SetRecord for one command.
def setRecord (s : Node n) (cmd : PaxosCmd) : PlogOutcome → PaxosCmd × Node n
  | .ok => (cmd, { s with plog := (cmd.key, cmd.localEntryRecord) :: s.plog })
  | .failed code applied =>
      ({ cmd with result := code }, if applied then { s with plog := (cmd.key, cmd.localEntryRecord) :: s.plog } else s)

def getRecord (s : Node n) (cmd : PaxosCmd) : PlogOutcome → PaxosCmd
  | .ok =>
      match s.plogRecord cmd.key with
      | none => { cmd with result := .implPlogNotFound }
      | some record => { cmd with localEntryRecord := record }
  | .failed code _ => { cmd with result := code }

-- The largest entry of the entity in the plog, 0 if it has none.
def maxEntry (s : Node n) (entityId : Nat) : Nat :=
  s.plog.foldl (fun largest write => if write.1.entityId = entityId then max largest write.1.entry else largest) 0

def loadMaxEntry (s : Node n) (cmd : PaxosCmd) (maxCommittedEntry : Nat) : PlogOutcome → PaxosCmd
  | .ok => { cmd with entry := s.maxEntry cmd.entityId, maxCommittedEntry := maxCommittedEntry }
  | .failed code _ => { cmd with result := code }

-- The branch of PlogReadonlyWorker::DoJob that answers a peer from the plog.
def returnMsg (s : Node n) (cmd : PaxosCmd) (outcome : PlogOutcome) : Option (Node n) :=
  let cmd := s.getRecord cmd outcome
  if cmd.result = .ok ∧ cmd.localEntryRecord.acceptedNum > 0 then
    if cmd.localEntryRecord.valueId = 0 then none
    else some ((s.mark (.returned cmd.key cmd.localEntryRecord)).goAndDeleteIfFailed (cmd.setChosen true))
  else if cmd.result = .ok ∧ ¬ cmd.localEntryRecord.chosen ∨ cmd.result = .implPlogNotFound then
    some (s.goAndDeleteIfFailed { cmd with result := .implPlogNotFound })
  else some (s.goAndDeleteIfFailed cmd)

-- One command of the request queues.
def doPlogReq (s : Node n) (index maxCommittedEntry : Nat) (outcome : PlogOutcome) : Option (Node n) := do
  let cmd ← s.plogReqs[index]?
  let s := { s with plogReqs := s.plogReqs.eraseIdx index }
  if ¬ outcome.legal then none
  else if cmd.plogReturnMsg then s.returnMsg cmd outcome
  else
    let (rsp, s) ←
      if cmd.plogLoad then some (s.loadMaxEntry cmd maxCommittedEntry outcome, s)
      else if cmd.plogSetRecord then some (s.setRecord cmd outcome)
      else if cmd.plogGetRecord then some (s.getRecord cmd outcome, s)
      else none
    some { s with plogRsps := s.plogRsps ++ [rsp] }

-- RecoverWorker::DoJob with the result of SnapshotRecover.
def doRecoverReq (s : Node n) (index maxCommittedEntry : Nat) (result : RetCode) : Option (Node n) := do
  let cmd ← s.recoverReqs[index]?
  some { s with
    recoverReqs := s.recoverReqs.eraseIdx index
    recoverRsps := s.recoverRsps ++ [{ cmd with result := result, entry := maxCommittedEntry }] }

end Node

-- What can happen to a node.
inductive Event where
  | clientCmd (cmdId : CmdId) (entityId entry timestampUsec timeoutMsec : Nat) (value : Bytes) (uuids : List Nat)
  | paxosCmd (cmd : PaxosCmd)
  | plogReq (index maxCommittedEntry : Nat) (outcome : PlogOutcome)
  | plogRsp (index : Nat)
  | recoverReq (index maxCommittedEntry : Nat) (result : RetCode)
  | recoverRsp (index : Nat)
  | tick (next : Option Nat)

namespace Node

variable {n : Nat}

-- Replay commands go to the db workers, not to the helper.
def handle (o : Options n) (s : Node n) (env : Env n) : Event → Option (Node n)
  | .clientCmd cmdId entityId entry timestampUsec timeoutMsec value uuids =>
      if cmdId = .replay then none
      else
        (handleClientCmd o { s with env := env }
          { cmdId := cmdId, entityId := entityId, entry := entry, timestampUsec := timestampUsec, timeoutMsec := timeoutMsec,
            value := value, uuids := uuids }).map Prod.snd
  | .paxosCmd cmd => (handlePaxosCmd o { s with env := env } cmd.parsed).map Prod.snd
  | .plogReq index maxCommittedEntry outcome => s.doPlogReq index maxCommittedEntry outcome
  | .plogRsp index => do
      let cmd ← s.plogRsps[index]?
      let (_, s) ← handlePlogRspCmd o { s with env := env, plogRsps := s.plogRsps.eraseIdx index } cmd
      some s
  | .recoverReq index maxCommittedEntry result => s.doRecoverReq index maxCommittedEntry result
  | .recoverRsp index => do
      let cmd ← s.recoverRsps[index]?
      let (_, s) ← handleRecoverRspCmd o { s with env := env, recoverRsps := s.recoverRsps.eraseIdx index } cmd
      some s
  | .tick next => checkIfHasWork o { s with env := env } next

end Node

end PaxosStore.Certain
