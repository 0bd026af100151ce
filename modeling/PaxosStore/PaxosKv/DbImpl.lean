import PaxosStore.PaxosKv.LogSteps

set_option autoImplicit false

namespace PaxosStore.PaxosKv

open PaxosStore.Consensus

structure PaxosLogHeader where
  maxIndex : Nat := 0
  chosenIndex : Nat := 0
  reqid : Nat := 0
  version : Nat := 0
deriving DecidableEq, Repr

structure DBData where
  version : Nat
  flag : Nat
  value : List UInt8
  timestamp : Nat
deriving DecidableEq, Repr

-- The generated code of the message DBData: its required fields are always
-- written, so that what is serialized is never empty.
structure DataCodec where
  serializeToString : DBData → Option (List UInt8)
  parseFromString : List UInt8 → Option DBData
  nonempty : ∀ data, serializeToString data ≠ some []

-- Where a process stops: in which function an assertion fails or a null pointer
-- is read. `wrapper` stands for PLogWrapper and PInsWrapper.
inductive Site where
  | assertCheck
  | canWrite
  | packRawValue
  | updateHeader
  | wrapper
  | setNoLockNoWrite
  | setNoLock
  | set
  | cache
  | postPaxosMsg
deriving DecidableEq, Repr

def assertAt {R : Type} (site : Site) (condition : Prop) [Decidable condition] (rest : Except Site R) : Except Site R :=
  if condition then rest else .error site

def atSite {R : Type} (site : Site) : Option R → Except Site R
  | none => .error site
  | some result => .ok result

def getChosenIndex (log : PaxosLog) : Nat := ((getChosenIns log).map (·.1)).getD 0

def entryReqid (pins : PaxosInstance) : Nat := (pins.acceptedValue.map (·.reqid)).getD 0

def entryData (pins : PaxosInstance) : List UInt8 := (pins.acceptedValue.map (·.data)).getD []

def getChosenReqid (log : PaxosLog) : Nat := ((getChosenIns log).map (entryReqid ·.2)).getD 0

-- Whether AssertCheck passes.
def assertCheck (codec : DataCodec) (header : PaxosLogHeader) (log : PaxosLog) : Bool :=
  header.maxIndex = getMaxIndex log && header.chosenIndex = getChosenIndex log && header.reqid = getChosenReqid log &&
    match getChosenIns log with
    | none => header.version = 0
    | some (index, pins) =>
        if index = 0 then header.version = 0
        else pins.acceptedValue.isSome && (codec.parseFromString (entryData pins)).any (·.version = header.version)

def serializeDbDataErr : Int := -50001

def paxosSetVersionOut : Int := -50201

def paxosSetTimeOut : Int := -50202

def paxosSetPreempted : Int := -50203

def paxosSetLocalOut : Int := -50204

-- Of two pending instances none is chosen, and the index is read through a null pointer.
def canWrite (log : PaxosLog) : Option Int :=
  asserting (isSlim log) <|
    match log with
    | [] => some 0
    | [(index, pins)] => some (if pins.chosen then 0 else if index = 1 then 0 else paxosSetLocalOut)
    | _ => (getChosenIns log).bind fun chosen => asserting (u64 (chosen.1 + 1) = getMaxIndex log) (some 0)

-- The inner `none` is SERIALIZE_DBDATA_ERR.
def packRawValue (codec : DataCodec) (header : PaxosLogHeader) (userValue : List UInt8) (timestamp : Nat) : Option (Option (List UInt8)) :=
  asserting (u64 (header.chosenIndex + 1) = header.maxIndex ∨ header.chosenIndex = header.maxIndex) <|
    match codec.serializeToString ⟨u64 (header.version + 1), 0, userValue, timestamp⟩ with
    | none => some none
    | some rawValue => asserting (rawValue ≠ []) (some (some rawValue))

def updateHeader (codec : DataCodec) (log : PaxosLog) (header : PaxosLogHeader) : Option PaxosLogHeader :=
  asserting (isSlim log) <|
    let header := { header with maxIndex := getMaxIndex log }
    if header.chosenIndex = getChosenIndex log then some header
    else if getChosenIndex log = 0 then some { header with chosenIndex := 0, reqid := 0, version := 0 }
    else
      (getChosenIns log).bind fun (_, pins) =>
        (codec.parseFromString (entryData pins)).map fun data =>
          { header with chosenIndex := getChosenIndex log, reqid := entryReqid pins, version := data.version }

-- A proposer in the cache, under its key and index.
structure CachedState where
  key : List UInt8
  index : Nat
  state : PInsAliveState
deriving DecidableEq

-- What the cache holds under one key. Insert is always called with bMust.
namespace PInsAliveStateTimeoutCache

def insert (alive : CachedState) : Option CachedState → Option (Int × Option CachedState)
  | none => some (0, some alive)
  | some prev => asserting (prev.index ≤ alive.index) (some (1, some alive))

def get (index : Nat) (cache : Option CachedState) : Option CachedState :=
  cache.filter fun held => held.index = index ∧ held.state.propState ≠ .chosen

-- The index of another cached instance, or the state of this one.
def moreGet (index : Nat) : Option CachedState → Nat × Option CachedState
  | none => (0, none)
  | some held =>
      if held.index ≠ index then (held.index, none)
      else if held.state.propState = .chosen then (0, none)
      else (0, some held)

def destroy (key : List UInt8) (index : Nat) : Option CachedState → Option (Option CachedState)
  | none => some none
  | some held => asserting (held.key = key) (some (if held.index = index then none else some held))

-- `sameNum` says whether the state still has the number it was queued with.
def destroyActive (index : Nat) (sameNum : Bool) (cache : Option CachedState) : Option (Option CachedState) :=
  asserting (0 < index) (some (cache.filter fun held => !(held.index = index && sameNum)))

end PInsAliveStateTimeoutCache

-- One key at one server: what pfn_read gives, the cache, and the indexes queued
-- for a time-out.
structure KeyState where
  header : PaxosLogHeader := {}
  log : PaxosLog := []
  cache : Option CachedState := none
  timeouts : List Nat := []
deriving DecidableEq

def KeyState.restart (s : KeyState) : KeyState := { s with cache := none, timeouts := [] }

inductive CallResult where
  | returned (code : Int) (after : KeyState) (rsp : Option LogMessage) (alive : Option CachedState)
  | aborted (site : Site) (after : KeyState)
deriving DecidableEq

def CallResult.after : CallResult → KeyState
  | .returned _ after _ _ => after
  | .aborted _ after => after

-- A call of Set, with what the file system and the storage do meanwhile.
structure SetRequest where
  reqid : Nat
  value : List UInt8
  prevVersion : Option Nat := none
  timestamp : Nat := 0
  learnerOnly : Bool := false
  readCode : Int := 0
  writeCode : Int := 0
deriving DecidableEq

structure Ready where
  header : PaxosLogHeader
  log : PaxosLog
  index : Nat
  alive : PInsAliveState
  rsp : LogMessage

-- An error comes back with or without a wrapper.
inductive SetPlan where
  | refused (code : Int) (wrapper : Bool)
  | ready (result : Ready)

-- The index NormalSet and PreemptSet create their state with.
def proposedIndex (log : PaxosLog) : Nat :=
  match getMaxIns log with
  | none => 1
  | some (index, pins) => if pins.chosen then u64 (index + 1) else index

namespace DBImpl

variable (codec : DataCodec) (selfId : Fin 3) (memberId : Nat) (key : List UInt8)

-- The part of SetNoLockNoWrite after PLogWrapper::Set.
def proposed (s : KeyState) (out : StepOut) : Except Site SetPlan :=
  if out.code ≠ 0 then assertAt .setNoLockNoWrite (out.rsp = none ∧ out.alive = none) (.ok (.refused out.code true))
  else
    match out.rsp, out.alive with
    | some rsp, some alive =>
        assertAt .setNoLockNoWrite (rsp.index = proposedIndex s.log ∧ getMaxIndex out.log = rsp.index ∧ out.write = true) <|
          (atSite .updateHeader (updateHeader codec out.log s.header)).bind fun header =>
            assertAt .assertCheck (assertCheck codec header out.log) (.ok (.ready ⟨header, out.log, proposedIndex s.log, alive, rsp⟩))
    | _, _ => .error .setNoLockNoWrite

def setNoLockNoWrite (req : SetRequest) (s : KeyState) : Except Site SetPlan :=
  if req.readCode ≠ 0 then .ok (.refused req.readCode false)
  else
    assertAt .assertCheck (assertCheck codec s.header s.log) <|
      (atSite .canWrite (canWrite s.log)).bind fun code =>
        if code ≠ 0 then .ok (.refused code false)
        else
          assertAt .setNoLockNoWrite (s.header.maxIndex = 0 ∨ 0 < s.header.chosenIndex ∨ s.header.maxIndex = 1) <|
            if req.prevVersion.any (· ≠ s.header.version) then .ok (.refused paxosSetVersionOut false)
            else
              (atSite .packRawValue (packRawValue codec s.header req.value req.timestamp)).bind fun
                | none => .ok (.refused serializeDbDataErr false)
                | some rawValue =>
                    (atSite .wrapper <| asserting (wrapperOk s.log) <|
                      PLogWrapper.set req.learnerOnly selfId memberId ⟨req.reqid, rawValue⟩ true s.log).bind (proposed codec s)

-- The log is written, then the new state has to find its place in the cache free.
def writeAndInsert (req : SetRequest) (s : KeyState) (ready : Ready) : CallResult :=
  if assertCheck codec ready.header ready.log = false then .aborted .assertCheck s.restart
  else if req.writeCode ≠ 0 then
    match PInsAliveStateTimeoutCache.destroy key ready.index s.cache with
    | none => .aborted .cache s.restart
    | some cache => .returned req.writeCode { s with cache := cache } none none
  else
    let written : KeyState := { s with header := ready.header, log := ready.log }
    let alive : CachedState := ⟨key, ready.index, ready.alive⟩
    match PInsAliveStateTimeoutCache.insert alive s.cache with
    | none => .aborted .cache written.restart
    | some (code, cache) =>
        if code ≠ 0 then .aborted .setNoLock written.restart
        else .returned 0 { written with cache := cache, timeouts := s.timeouts ++ [ready.index] } (some ready.rsp) (some alive)

def setNoLock (req : SetRequest) (s : KeyState) : CallResult :=
  match setNoLockNoWrite codec selfId memberId req s with
  | .error site => .aborted site s.restart
  | .ok (.refused code wrapper) => if wrapper then .aborted .setNoLock s.restart else .returned code s none none
  | .ok (.ready ready) => writeAndInsert codec key req s ready

-- Set up to the point where it waits to be notified.
def set (req : SetRequest) (s : KeyState) : CallResult :=
  if key = [] then .returned (-1) s none none
  else
    match setNoLock codec selfId memberId key req s with
    | .returned code after rsp alive =>
        if code ≠ 0 then if alive.isSome then .aborted .set after.restart else .returned code after rsp alive
        else if alive.any (0 < ·.index) then .returned code after rsp alive
        else .aborted .set after.restart
    | aborted => aborted

def checkReqID (s : KeyState) (setOnIndex reqid : Nat) (readCode : Int) : Int :=
  if readCode ≠ 0 then readCode
  else if setOnIndex ≠ s.header.chosenIndex ∨ reqid ≠ s.header.reqid then paxosSetPreempted
  else 0

-- Set after its wait.
def finish (s : KeyState) (index reqid : Nat) (notified : Bool) (readCode : Int) : CallResult :=
  if !notified then .returned paxosSetTimeOut s none none
  else
    match PInsAliveStateTimeoutCache.destroy key index s.cache with
    | none => .aborted .cache s.restart
    | some cache => .returned (checkReqID s index reqid readCode) { s with cache := cache } none none

-- The end of PostPaxosMsgNoLock: states that are chosen or left behind leave the cache.
def dropOutdated (index conflictIndex maxIndex : Nat) (alive cache : Option CachedState) : Option (Option CachedState) :=
  (if alive.any (·.state.propState = .chosen) then PInsAliveStateTimeoutCache.destroy key index cache else some cache).bind fun cache =>
    if conflictIndex ≠ 0 ∧ conflictIndex < maxIndex ∧ (PInsAliveStateTimeoutCache.get conflictIndex cache).isSome then
      PInsAliveStateTimeoutCache.destroy key conflictIndex cache
    else some cache

-- What follows the step of a message in PostPaxosMsgNoLock. `alive` is the state that took it.
def stepped (s : KeyState) (index conflictIndex : Nat) (writeCode : Int) (alive : Option CachedState) (out : StepOut) : CallResult :=
  let alive := alive.bind fun held => out.alive.map fun state => { held with state := state }
  let moved : KeyState := { s with cache := alive.or s.cache }
  if out.code ≠ 0 then .returned out.code moved none none
  else
    match if out.write then updateHeader codec out.log s.header else some s.header with
    | none => .aborted .updateHeader s.restart
    | some header =>
        if assertCheck codec header out.log = false then .aborted .assertCheck s.restart
        else if out.write ∧ writeCode ≠ 0 then .returned writeCode moved none none
        else
          let stored : KeyState := if out.write then { moved with header := header, log := out.log } else moved
          match dropOutdated key index conflictIndex header.maxIndex alive moved.cache with
          | none => .aborted .cache stored.restart
          | some cache => .returned 0 { stored with cache := cache } out.rsp none

-- The wrapper takes the receiver of the message for its own id.
def postPaxosMsg (m : LogMessage) (learnerOnly : Bool) (readCode writeCode : Int) (s : KeyState) : CallResult :=
  if readCode ≠ 0 then .returned readCode s none none
  else if assertCheck codec s.header s.log = false then .aborted .assertCheck s.restart
  else
    let (conflictIndex, alive) := PInsAliveStateTimeoutCache.moreGet m.index s.cache
    if alive.any (fun held => conflictIndex ≠ 0 || held.key ≠ key) then .aborted .postPaxosMsg s.restart
    else
      match m.msg.toId.bind fun self => asserting (wrapperOk s.log) (PLogWrapper.step learnerOnly self m (alive.map (·.state)) s.log) with
      | none => .aborted .wrapper s.restart
      | some out => stepped codec key s m.index conflictIndex writeCode alive out

-- The worker of the time-out queue.
def expire (s : KeyState) (index : Nat) (sameNum : Bool) : CallResult :=
  match PInsAliveStateTimeoutCache.destroyActive index sameNum s.cache with
  | none => .aborted .cache s.restart
  | some cache => .returned 0 { s with cache := cache } none none

end DBImpl

inductive DbOp where
  | set (req : SetRequest)
  | finish (index reqid : Nat) (notified : Bool) (readCode : Int)
  | message (m : LogMessage) (learnerOnly : Bool) (readCode writeCode : Int)
  | expire (index : Nat) (sameNum : Bool)
  | restart
deriving DecidableEq

namespace DBImpl

variable (codec : DataCodec) (selfId : Fin 3) (memberId : Nat) (key : List UInt8)

def perform (s : KeyState) : DbOp → CallResult
  | .set req => set codec selfId memberId key req s
  | .finish index reqid notified readCode => finish key s index reqid notified readCode
  | .message m learnerOnly readCode writeCode => postPaxosMsg codec key m learnerOnly readCode writeCode s
  | .expire index sameNum => expire s index sameNum
  | .restart => .returned 0 s.restart none none

-- Indexes have 64 bits, and only what was queued is timed out.
def possible (s : KeyState) : DbOp → Bool
  | .message m _ _ _ => m.index < 2 ^ 64
  | .expire index _ => index ∈ s.timeouts
  | _ => true

-- A process that has stopped is started again with what it has stored.
def act (s : KeyState) (op : DbOp) : Option KeyState :=
  if possible s op then some (perform codec selfId memberId key s op).after else none

end DBImpl

end PaxosStore.PaxosKv
