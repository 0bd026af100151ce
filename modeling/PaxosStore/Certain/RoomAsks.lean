import PaxosStore.Certain.EventActs

set_option autoImplicit false

namespace PaxosStore.Certain.Node

variable {n : Nat}

-- The states in which the handlers call MakeEnoughRoom, one relation for each handler.
-- CreateEntryInfoIfMiss asks where it starts, if it misses.
inductive CreateAsks (s : Node n) (entityId entry : Nat) : Node n → Prop where
  | miss (absent : s.entryInfos ⟨entityId, entry⟩ = none) : CreateAsks s entityId entry s

inductive LoopAsks (o : Options n) (entityId : Nat) : List Nat → Node n → Node n → Prop where
  | here (curr : Nat) (rest : List Nat) (s : Node n) (absent : s.entryInfos ⟨entityId, curr⟩ = none) (allowed : s.ask.1 = false) :
      LoopAsks o entityId (curr :: rest) s s.ask.2
  | later (curr : Nat) (rest : List Nat) (s t u : Node n) (went : s.catchupEntry o entityId curr = some (true, t))
      (asks : LoopAsks o entityId rest t u) : LoopAsks o entityId (curr :: rest) s u

inductive CatchupAsks (o : Options n) (s : Node n) (entityId : Nat) : Node n → Prop where
  | loop (entity : EntityInfo n) (u : Node n) (known : s.entityInfos entityId = some entity)
      (gap : entity.maxContChosenEntry < entity.maxChosenEntry) (free : entity.recoverPending = false)
      (asks : LoopAsks o entityId
        (List.range' (entity.maxContChosenEntry + 1) (catchupDest o entity - entity.maxContChosenEntry))
        (s.setEntity entityId (some { entity with maxCatchupEntry := catchupDest o entity })) u) : CatchupAsks o s entityId u

inductive StartAsks (o : Options n) (s : Node n) (cmd : ClientCmd) : Node n → Prop where
  | create (entity : EntityInfo n) (u : Node n) (known : s.entityInfos cmd.entityId = some entity) (kind : cmd.cmdId ≠ .load)
      (matched : cmd.entry = entity.maxChosenEntry + 1) (asks : CreateAsks s cmd.entityId cmd.entry u) : StartAsks o s cmd u
  | catchup (entity : EntityInfo n) (t u : Node n) (known : s.entityInfos cmd.entityId = some entity) (kind : cmd.cmdId ≠ .load)
      (other : cmd.entry ≠ entity.maxChosenEntry + 1) (finished : s.finishClientCmd cmd.entityId .entryNotMatch = some t)
      (asks : CatchupAsks o t cmd.entityId u) : StartAsks o s cmd u

inductive ClientAsks (o : Options n) (s : Node n) (cmd : ClientCmd) : Node n → Prop where
  | catchup (t u : Node n) (entity : EntityInfo n) (entered : s.createEntityInfoIfMiss o cmd.entityId = some (.ok, t))
      (known : t.entityInfos cmd.entityId = some entity) (kind : cmd.cmdId = .catchup) (ready : entity.loading = false)
      (asks : CatchupAsks o t cmd.entityId u) : ClientAsks o s cmd u
  | dump (t v u : Node n) (m : Mark n) (entered : s.createEntityInfoIfMiss o cmd.entityId = some (.ok, t)) (kind : cmd.cmdId = .dumpEntry)
      (again : t.createEntityInfoIfMiss o cmd.entityId = some (.ok, v)) (asks : CreateAsks (v.mark m) cmd.entityId cmd.entry u) :
      ClientAsks o s cmd u
  | start (t v u : Node n) (entity : EntityInfo n) (entered : s.createEntityInfoIfMiss o cmd.entityId = some (.ok, t))
      (known : t.entityInfos cmd.entityId = some entity) (kind : Awaited cmd) (idle : entity.clientCmd = none)
      (added : (t.setEntity cmd.entityId (some { entity with clientCmd := some cmd })).timerAdd cmd.entityId
        (u32 (timeoutOf o cmd - elapsedMsec t.env.nowMsec cmd.timestampUsec)) = some v)
      (ready : entity.loading = false) (asks : StartAsks o v cmd u) : ClientAsks o s cmd u

inductive OpenAsks (o : Options n) (s : Node n) (peer : Fin n) (cmd : PaxosCmd) : Node n → Prop where
  | create (u : Node n) (asks : CreateAsks s cmd.entityId cmd.entry u) : OpenAsks o s peer cmd u
  | catchup (p : EntryPtr) (info : EntryInfo n) (out : PaxosCmd) (ret : RetCode) (t v w u : Node n)
      (opened : s.createEntryInfoIfMiss o cmd.entityId cmd.entry = some (.ok, some p, t)) (found : t.deref p = some info)
      (restored : t.restoreValue info.machine cmd = (out, v)) (certain : info.uncertain = false)
      (updated : v.updateMachineByPaxosCmd o p peer out = some (ret, w)) (asks : CatchupAsks o w out.entityId u) : OpenAsks o s peer cmd u

-- HandlePaxosCmd raises max_chosen_entry first.
def heard (s : Node n) (entity : EntityInfo n) (peer : Fin n) (cmd : PaxosCmd) : Node n :=
  if entity.maxChosenEntry < cmd.maxChosenEntry then
    s.setEntity cmd.entityId (some { entity with activePeerAcceptorId := peer, maxChosenEntry := cmd.maxChosenEntry })
  else s

inductive CheckedAsks (o : Options n) (s : Node n) (peer : Fin n) (cmd : PaxosCmd) : Node n → Prop where
  | failed (entity : EntityInfo n) (t u : Node n) (known : s.entityInfos cmd.entityId = some entity)
      (finished : (s.heard entity peer cmd).finishFastFailed cmd = some t) (asks : CatchupAsks o t cmd.entityId u) :
      CheckedAsks o s peer cmd u
  | open_ (entity : EntityInfo n) (t u : Node n) (known : s.entityInfos cmd.entityId = some entity)
      (left : (s.heard entity peer cmd).handleIfLocalChosen cmd.entityId cmd = some (false, t)) (asks : OpenAsks o t peer cmd u) :
      CheckedAsks o s peer cmd u

inductive PaxosAsks (o : Options n) (s : Node n) (cmd : PaxosCmd) : Node n → Prop where
  | checked (t u : Node n) (entity : EntityInfo n) (peer : Fin n) (entered : s.createEntityInfoIfMiss o cmd.entityId = some (.ok, t))
      (known : t.entityInfos cmd.entityId = some entity) (ready : entity.loading = false)
      (asks : CheckedAsks o t peer (cmd.switchToLocalView entity.localAcceptorId) u) : PaxosAsks o s cmd u

-- HandleWaitingMsg hands the message to HandlePaxosCmd in the state `u`.
inductive HandsMsg (o : Options n) (p : EntryPtr) : List (Fin n) → Node n → Node n → PaxosCmd → Prop where
  | here (peer : Fin n) (rest : List (Fin n)) (s : Node n) (info : EntryInfo n) (cmd : PaxosCmd) (found : s.deref p = some info)
      (slot : info.waitingMsgs peer = some cmd) :
      HandsMsg o p (peer :: rest) s
        (s.setEntry p.key (some { info with waitingMsgs := Function.update info.waitingMsgs peer none })) cmd
  | skip (peer : Fin n) (rest : List (Fin n)) (s u : Node n) (info : EntryInfo n) (cmd : PaxosCmd) (found : s.deref p = some info)
      (slot : info.waitingMsgs peer = none) (later : HandsMsg o p rest s u cmd) : HandsMsg o p (peer :: rest) s u cmd
  | next (peer : Fin n) (rest : List (Fin n)) (s t u : Node n) (info after : EntryInfo n) (first cmd : PaxosCmd) (ret : RetCode)
      (found : s.deref p = some info) (slot : info.waitingMsgs peer = some first)
      (handled : handlePaxosCmd o (s.setEntry p.key (some { info with waitingMsgs := Function.update info.waitingMsgs peer none })) first =
        some (ret, t))
      (foundAfter : t.deref p = some after) (certain : after.uncertain = false) (later : HandsMsg o p rest t u cmd) :
      HandsMsg o p (peer :: rest) s u cmd

inductive CompletionAsks (o : Options n) (s : Node n) (cmd : PaxosCmd) : Node n → Prop where
  | msg (p : EntryPtr) (t u w : Node n) (msg : PaxosCmd) (resumes : Resumes o s cmd p t) (hands : HandsMsg o p (List.finRange n) t u msg)
      (asks : PaxosAsks o u msg w) : CompletionAsks o s cmd w
  | catchup (p : EntryPtr) (t v u : Node n) (notSet : cmd.plogSetRecord = false) (resumes : Resumes o s cmd p t)
      (drained : t.handleWaitingMsg o p = some v) (asks : CatchupAsks o v p.key.entityId u) : CompletionAsks o s cmd u

inductive LoadAsks (o : Options n) (s : Node n) (cmd : PaxosCmd) : Node n → Prop where
  | msg (entity again : EntityInfo n) (msg : PaxosCmd) (m : Mark n) (u : Node n) (known : s.entityInfos cmd.entityId = some entity)
      (loading : entity.loading = true) (done : cmd.result = .ok) (knownAgain : (s.loadedState entity cmd).entityInfos cmd.entityId = some again)
      (parked : again.waitingMsg = some msg)
      (asks : PaxosAsks o (((s.loadedState entity cmd).mark m).setEntity cmd.entityId (some { again with waitingMsg := none })) msg u) :
      LoadAsks o s cmd u
  | client (entity again : EntityInfo n) (client : ClientCmd) (t u : Node n) (known : s.entityInfos cmd.entityId = some entity)
      (loading : entity.loading = true) (done : cmd.result = .ok) (served : (s.loadedState entity cmd).handleParkedMsg o cmd.entityId = some t)
      (knownAgain : t.entityInfos cmd.entityId = some again) (parked : again.clientCmd = some client)
      (asks : ClientAsks o (t.setEntity cmd.entityId (some { again with clientCmd := none })) client u) : LoadAsks o s cmd u

inductive RecoverAsks (o : Options n) (s : Node n) (cmd : PaxosCmd) : Node n → Prop where
  | catchup (t u : Node n) (entity : EntityInfo n) (m : Mark n) (entered : s.createEntityInfoIfMiss o cmd.entityId = some (.ok, t))
      (known : t.entityInfos cmd.entityId = some entity) (done : cmd.result = .ok)
      (asks : CatchupAsks o ((t.setEntity cmd.entityId (some (Site.recoveredBy entity cmd.entry t.env.nowMsec))).mark m) cmd.entityId u) :
      RecoverAsks o s cmd u

-- CheckIfHasWork reaches CleanupExpiredChosenEntry in the state `u`.
inductive TickCleans (s : Node n) : Node n → Prop where
  | cleanup (u : Node n) (timed : takeTimeouts (moveFinished s.finishedList s).timer (moveFinished s.finishedList s) = some u) : TickCleans s u

inductive TickAsks (o : Options n) (s : Node n) (entityId : Nat) : Node n → Prop where
  | catchup (t v u : Node n) (cleans : TickCleans s t) (cleaned : t.cleanupExpiredChosenEntry = some v)
      (asks : CatchupAsks o v entityId u) : TickAsks o s entityId u

-- While the event is handled MakeEnoughRoom is called in the state `u`.
inductive AsksRoom (o : Options n) (s : Node n) (env : Env n) : Event → Node n → Prop where
  | client (cmdId : CmdId) (entityId entry timestampUsec timeoutMsec : Nat) (value : Bytes) (uuids : List Nat) (u : Node n)
      (asks : ClientAsks o { s with env := env }
        { cmdId := cmdId, entityId := entityId, entry := entry, timestampUsec := timestampUsec, timeoutMsec := timeoutMsec,
          value := value, uuids := uuids } u) :
      AsksRoom o s env (.clientCmd cmdId entityId entry timestampUsec timeoutMsec value uuids) u
  | message (cmd : PaxosCmd) (u : Node n) (asks : PaxosAsks o { s with env := env } cmd.parsed u) : AsksRoom o s env (.paxosCmd cmd) u
  | completion (index : Nat) (cmd : PaxosCmd) (u : Node n) (next : s.plogRsps[index]? = some cmd) (notLoad : cmd.plogLoad = false)
      (asks : CompletionAsks o { s with env := env, plogRsps := s.plogRsps.eraseIdx index } cmd u) : AsksRoom o s env (.plogRsp index) u
  | load (index : Nat) (cmd : PaxosCmd) (u : Node n) (next : s.plogRsps[index]? = some cmd) (isLoad : cmd.plogLoad = true)
      (asks : LoadAsks o { s with env := env, plogRsps := s.plogRsps.eraseIdx index } cmd u) : AsksRoom o s env (.plogRsp index) u
  | recovered (index : Nat) (cmd : PaxosCmd) (u : Node n) (next : s.recoverRsps[index]? = some cmd)
      (asks : RecoverAsks o { s with env := env, recoverRsps := s.recoverRsps.eraseIdx index } cmd u) : AsksRoom o s env (.recoverRsp index) u
  | tick (entityId : Nat) (u : Node n) (asks : TickAsks o { s with env := env } entityId u) : AsksRoom o s env (.tick (some entityId)) u

end PaxosStore.Certain.Node
