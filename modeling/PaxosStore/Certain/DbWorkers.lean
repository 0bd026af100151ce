import PaxosStore.Certain.EntryRecord
import PaxosStore.Certain.Words
import PaxosStore.Consensus.Run
import Mathlib.Data.List.Range

set_option autoImplicit false

namespace PaxosStore.Certain

open PaxosStore.Consensus

-- What DbWorker and DbLimitedWorker read of a ClientCmd.
structure DbCmd where
  entry : Nat
  value : Bytes
deriving DecidableEq, Repr

structure ReplayJob where
  maxCommittedEntry : Nat
  maxChosenEntry : Nat
deriving DecidableEq, Repr

-- How the calls of one locked section turn out.
structure Calls where
  timeout : Bool := false
  statusFails : Bool := false
  recover : Bool := false
  plogFails : Bool := false
  commitFails : Bool := false
deriving DecidableEq, Repr

-- One entity: the status the Db reports (`none` for kImplDbNotFound), the
-- successful Commit calls in order, the plog, and the commands under way.
-- `pending` is the entity's element of DbLimitedWorker::pending_.
structure DbState where
  status : Option Nat
  commits : List (Nat × Bytes) := []
  plog : Nat → Option EntryRecord
  dbQueue : List DbCmd := []
  limitedQueue : List DbCmd := []
  pending : Option DbCmd := none
  limitedJobs : List DbCmd := []
  replays : List ReplayJob := []

namespace DbState

def maxCommittedEntry (s : DbState) : Nat := s.status.getD 0

def commit (s : DbState) (calls : Calls) (entry : Nat) (value : Bytes) : Option DbState :=
  if calls.commitFails then none
  else some { s with status := some entry, commits := s.commits ++ [(entry, value)] }

def getWriteValue (s : DbState) (calls : Calls) (entry : Nat) : Except RetCode Bytes :=
  if calls.plogFails then .error .implPlogGetErr
  else
    match s.plog entry with
    | none => .error .notFound
    | some record => if record.chosen then .ok record.value else .error .notChosen

-- DbWorker::DoJob
def dbDoJob (s : DbState) (calls : Calls) (cmd : DbCmd) : DbState :=
  if calls.statusFails then s
  else if calls.recover then s
  else if cmd.entry < u64 (s.maxCommittedEntry + 1) then s
  else if cmd.entry > u64 (s.maxCommittedEntry + 1) then { s with limitedQueue := s.limitedQueue ++ [cmd] }
  else (s.commit calls cmd.entry cmd.value).getD s

-- One command taken by DbLimitedWorker::Tick: it starts a pending command of the
-- entity or raises the entry of the one that is there.
def tick (s : DbState) : DbState :=
  match s.limitedQueue with
  | [] => s
  | cmd :: rest =>
      match s.pending with
      | none => { s with limitedQueue := rest, pending := some cmd }
      | some waiting =>
          if waiting.entry < cmd.entry then
            { s with limitedQueue := rest, pending := some { waiting with entry := cmd.entry } }
          else { s with limitedQueue := rest }

-- DbLimitedWorker::GetJob
def getJob (s : DbState) : DbState :=
  { s with pending := none, limitedJobs := s.pending.toList ++ s.limitedJobs }

-- One round of the loop of DbLimitedWorker::DoJob; the flag says whether the loop goes on.
def limitedDoJob (s : DbState) (calls : Calls) (cmd : DbCmd) : DbState × Bool :=
  if calls.statusFails then (s, false)
  else if calls.recover then (s, false)
  else if s.maxCommittedEntry ≥ cmd.entry then (s, false)
  else
    let entry := u64 (s.maxCommittedEntry + 1)
    let value := if entry = cmd.entry ∧ cmd.value.length > 0 then .ok cmd.value else s.getWriteValue calls entry
    match value with
    | .error _ => (s, false)
    | .ok value =>
        match s.commit calls entry value with
        | none => (s, false)
        | some next => (next, ¬ entry ≥ cmd.entry)

-- Wrapper::Replay up to its loop: a long way behind it leaves a command without
-- a value to the limited worker.
def replay (s : DbState) (calls : Calls) (maxReplayNum maxChosenEntry : Nat) : DbState :=
  if calls.statusFails then s
  else if calls.recover then s
  else if u64 (s.maxCommittedEntry + maxReplayNum) < maxChosenEntry then
    { s with limitedQueue := s.limitedQueue ++ [⟨maxChosenEntry, []⟩] }
  else { s with replays := ⟨s.maxCommittedEntry, maxChosenEntry⟩ :: s.replays }

-- One round of the loop of Wrapper::Replay. Not found leaves the number it had.
def replayRound (s : DbState) (calls : Calls) (job : ReplayJob) : DbState × Option ReplayJob :=
  if ¬ job.maxCommittedEntry < job.maxChosenEntry then (s, none)
  else if calls.timeout then (s, none)
  else if calls.statusFails then (s, none)
  else if calls.recover then (s, none)
  else
    let maxCommittedEntry := s.status.getD job.maxCommittedEntry
    if maxCommittedEntry ≥ job.maxChosenEntry then (s, none)
    else
      match s.getWriteValue calls (u64 (maxCommittedEntry + 1)) with
      | .error _ => (s, none)
      | .ok value =>
          match s.commit calls (u64 (maxCommittedEntry + 1)) value with
          | none => (s, none)
          | some next => (next, some { job with maxCommittedEntry := u64 (maxCommittedEntry + 1) })

end DbState

inductive DbAction where
  | handOver (entry : Nat)
  | store (entry : Nat) (record : EntryRecord)
  | dbDoJob (k : Nat) (calls : Calls)
  | tick
  | getJob
  | limitedDoJob (k : Nat) (calls : Calls)
  | replay (calls : Calls) (maxReplayNum maxChosenEntry : Nat)
  | replayRound (k : Nat) (calls : Calls)
deriving DecidableEq

-- `chosen` is the value chosen for each entry. A command handed to the DbWorker
-- carries it, and so does a record stored as chosen.
def DbState.act (chosen : Nat → Bytes) (s : DbState) : DbAction → Option DbState
  | .handOver entry =>
      if 0 < entry ∧ entry < 2 ^ 64 then some { s with dbQueue := s.dbQueue ++ [⟨entry, chosen entry⟩] } else none
  | .store entry record =>
      if record.chosen → record.value = chosen entry then
        some { s with plog := fun e => if e = entry then some record else s.plog e }
      else none
  | .dbDoJob k calls =>
      s.dbQueue[k]?.map fun cmd => { s with dbQueue := s.dbQueue.eraseIdx k }.dbDoJob calls cmd
  | .tick => some s.tick
  | .getJob => some s.getJob
  | .limitedDoJob k calls =>
      s.limitedJobs[k]?.map fun cmd =>
        let (next, again) := s.limitedDoJob calls cmd
        if again then next else { next with limitedJobs := next.limitedJobs.eraseIdx k }
  | .replay calls maxReplayNum maxChosenEntry =>
      if maxChosenEntry < 2 ^ 64 then some (s.replay calls maxReplayNum maxChosenEntry) else none
  | .replayRound k calls =>
      s.replays[k]?.map fun job =>
        let (next, again) := s.replayRound calls job
        { next with replays := again.toList ++ next.replays.eraseIdx k }

end PaxosStore.Certain
