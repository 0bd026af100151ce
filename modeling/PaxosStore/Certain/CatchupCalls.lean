import PaxosStore.Certain.WatermarkRuns

set_option autoImplicit false

namespace PaxosStore.Certain.Node

variable {n : Nat}

-- The states in which the handlers call TryCatchup, one relation for each handler.
inductive StartCatches (s : Node n) (cmd : ClientCmd) : Node n → Prop where
  | unmatched (entity : EntityInfo n) (t : Node n) (known : s.entityInfos cmd.entityId = some entity) (kind : cmd.cmdId ≠ .load)
      (other : cmd.entry ≠ entity.maxChosenEntry + 1) (finished : s.finishClientCmd cmd.entityId .entryNotMatch = some t) :
      StartCatches s cmd t

inductive ClientCatches (o : Options n) (s : Node n) (cmd : ClientCmd) : Node n → Prop where
  | catchup (t : Node n) (entity : EntityInfo n) (entered : s.createEntityInfoIfMiss o cmd.entityId = some (.ok, t))
      (known : t.entityInfos cmd.entityId = some entity) (kind : cmd.cmdId = .catchup) (ready : entity.loading = false) :
      ClientCatches o s cmd t
  | start (t v u : Node n) (entity : EntityInfo n) (entered : s.createEntityInfoIfMiss o cmd.entityId = some (.ok, t))
      (known : t.entityInfos cmd.entityId = some entity) (kind : Awaited cmd) (idle : entity.clientCmd = none)
      (early : elapsedMsec t.env.nowMsec cmd.timestampUsec ≤ timeoutOf o cmd)
      (added : (t.setEntity cmd.entityId (some { entity with clientCmd := some cmd })).timerAdd cmd.entityId
        (u32 (timeoutOf o cmd - elapsedMsec t.env.nowMsec cmd.timestampUsec)) = some v)
      (ready : entity.loading = false) (catches : StartCatches v cmd u) : ClientCatches o s cmd u

inductive OpenCatches (o : Options n) (s : Node n) (peer : Fin n) (cmd : PaxosCmd) : Nat → Node n → Prop where
  | updated (p : EntryPtr) (info : EntryInfo n) (out : PaxosCmd) (ret : RetCode) (t v w : Node n)
      (opened : s.createEntryInfoIfMiss o cmd.entityId cmd.entry = some (.ok, some p, t)) (found : t.deref p = some info)
      (restored : t.restoreValue info.machine cmd = (out, v)) (certain : info.uncertain = false)
      (calm : ¬ (info.broadcast = true ∨ info.peerToSync.isSome = true))
      (updated : v.updateMachineByPaxosCmd o p peer out = some (ret, w)) : OpenCatches o s peer cmd out.entityId w

inductive CheckedCatches (o : Options n) (s : Node n) (peer : Fin n) (cmd : PaxosCmd) : Nat → Node n → Prop where
  | failed (entity again : EntityInfo n) (t : Node n) (known : s.entityInfos cmd.entityId = some entity)
      (knownAgain : (s.heard entity peer cmd).entityInfos cmd.entityId = some again)
      (answered : ¬ (cmd.checkEmpty = true ∧ cmd.entry ≤ again.maxChosenEntry)) (result : cmd.result = .fastFailed)
      (finished : (s.heard entity peer cmd).finishFastFailed cmd = some t) : CheckedCatches o s peer cmd cmd.entityId t
  | open_ (entity again : EntityInfo n) (t u : Node n) (entityId : Nat) (known : s.entityInfos cmd.entityId = some entity)
      (knownAgain : (s.heard entity peer cmd).entityInfos cmd.entityId = some again)
      (answered : ¬ (cmd.checkEmpty = true ∧ cmd.entry ≤ again.maxChosenEntry))
      (result : cmd.result ≠ .fastFailed ∧ cmd.result ≠ .implPlogNotFound)
      (left : (s.heard entity peer cmd).handleIfLocalChosen cmd.entityId cmd = some (false, t))
      (catches : OpenCatches o t peer cmd entityId u) : CheckedCatches o s peer cmd entityId u

inductive PaxosCatches (o : Options n) (s : Node n) (cmd : PaxosCmd) : Nat → Node n → Prop where
  | checked (t u : Node n) (entity : EntityInfo n) (peer : Fin n) (entityId : Nat)
      (entered : s.createEntityInfoIfMiss o cmd.entityId = some (.ok, t)) (known : t.entityInfos cmd.entityId = some entity)
      (ready : entity.loading = false) (home : (cmd.switchToLocalView entity.localAcceptorId).localAcceptorId = entity.localAcceptorId)
      (sender : (cmd.switchToLocalView entity.localAcceptorId).peerAcceptorId = peer) (apart : peer ≠ entity.localAcceptorId)
      (catches : CheckedCatches o t peer (cmd.switchToLocalView entity.localAcceptorId) entityId u) : PaxosCatches o s cmd entityId u

inductive CompletionCatches (o : Options n) (s : Node n) (cmd : PaxosCmd) : Nat → Node n → Prop where
  | msg (p : EntryPtr) (t u w : Node n) (msg : PaxosCmd) (entityId : Nat) (resumes : Resumes o s cmd p t)
      (hands : HandsMsg o p (List.finRange n) t u msg) (catches : PaxosCatches o u msg entityId w) : CompletionCatches o s cmd entityId w
  | get (p : EntryPtr) (t u : Node n) (notSet : cmd.plogSetRecord = false) (resumes : Resumes o s cmd p t)
      (drained : t.handleWaitingMsg o p = some u) : CompletionCatches o s cmd p.key.entityId u

inductive LoadCatches (o : Options n) (s : Node n) (cmd : PaxosCmd) : Nat → Node n → Prop where
  | msg (entity again : EntityInfo n) (msg : PaxosCmd) (m : Mark n) (u : Node n) (entityId : Nat)
      (known : s.entityInfos cmd.entityId = some entity) (loading : entity.loading = true) (done : cmd.result = .ok)
      (knownAgain : (s.loadedState entity cmd).entityInfos cmd.entityId = some again) (parked : again.waitingMsg = some msg)
      (catches : PaxosCatches o (((s.loadedState entity cmd).mark m).setEntity cmd.entityId (some { again with waitingMsg := none })) msg
        entityId u) : LoadCatches o s cmd entityId u
  | client (entity again : EntityInfo n) (client : ClientCmd) (t u : Node n) (known : s.entityInfos cmd.entityId = some entity)
      (loading : entity.loading = true) (done : cmd.result = .ok) (served : (s.loadedState entity cmd).handleParkedMsg o cmd.entityId = some t)
      (knownAgain : t.entityInfos cmd.entityId = some again) (parked : again.clientCmd = some client)
      (catches : ClientCatches o (t.setEntity cmd.entityId (some { again with clientCmd := none })) client u) :
      LoadCatches o s cmd client.entityId u

-- The recovered watermarks are in the entity, and its recovery leaves a mark.
def recoveredState (s : Node n) (entity : EntityInfo n) (cmd : PaxosCmd) : Node n :=
  (s.setEntity cmd.entityId (some (Site.recoveredBy entity cmd.entry s.env.nowMsec))).mark (.recovered cmd.entityId cmd.entry)

inductive RecoverCatches (o : Options n) (s : Node n) (cmd : PaxosCmd) : Node n → Prop where
  | done (t : Node n) (entity : EntityInfo n) (entered : s.createEntityInfoIfMiss o cmd.entityId = some (.ok, t))
      (known : t.entityInfos cmd.entityId = some entity) (result : cmd.result = .ok) : RecoverCatches o s cmd (t.recoveredState entity cmd)

inductive TickCatches (s : Node n) : Node n → Prop where
  | cleaned (t u : Node n) (cleans : TickCleans s t) (cleaned : t.cleanupExpiredChosenEntry = some u) : TickCatches s u

-- While the event is handled TryCatchup is called for the entity in the state `u`.
inductive CallsCatchup (o : Options n) (s : Node n) (env : Env n) : Event → Nat → Node n → Prop where
  | client (cmdId : CmdId) (entityId entry timestampUsec timeoutMsec : Nat) (value : Bytes) (uuids : List Nat) (u : Node n)
      (kind : cmdId ≠ .replay)
      (catches : ClientCatches o { s with env := env }
        { cmdId := cmdId, entityId := entityId, entry := entry, timestampUsec := timestampUsec, timeoutMsec := timeoutMsec,
          value := value, uuids := uuids } u) :
      CallsCatchup o s env (.clientCmd cmdId entityId entry timestampUsec timeoutMsec value uuids) entityId u
  | message (cmd : PaxosCmd) (entityId : Nat) (u : Node n) (catches : PaxosCatches o { s with env := env } cmd.parsed entityId u) :
      CallsCatchup o s env (.paxosCmd cmd) entityId u
  | completion (index : Nat) (cmd : PaxosCmd) (entityId : Nat) (u : Node n) (next : s.plogRsps[index]? = some cmd)
      (notLoad : cmd.plogLoad = false)
      (catches : CompletionCatches o { s with env := env, plogRsps := s.plogRsps.eraseIdx index } cmd entityId u) :
      CallsCatchup o s env (.plogRsp index) entityId u
  | load (index : Nat) (cmd : PaxosCmd) (entityId : Nat) (u : Node n) (next : s.plogRsps[index]? = some cmd) (isLoad : cmd.plogLoad = true)
      (catches : LoadCatches o { s with env := env, plogRsps := s.plogRsps.eraseIdx index } cmd entityId u) :
      CallsCatchup o s env (.plogRsp index) entityId u
  | recovered (index : Nat) (cmd : PaxosCmd) (u : Node n) (next : s.recoverRsps[index]? = some cmd)
      (catches : RecoverCatches o { s with env := env, recoverRsps := s.recoverRsps.eraseIdx index } cmd u) :
      CallsCatchup o s env (.recoverRsp index) cmd.entityId u
  | tick (entityId : Nat) (u : Node n) (catches : TickCatches { s with env := env } u) : CallsCatchup o s env (.tick (some entityId)) entityId u

theorem client_catches_ordered (o : Options n) (s u : Node n) (cmd : ClientCmd) (ordered : Ordered o s)
    (catches : ClientCatches o s cmd u) : Ordered o u := by
  cases catches with
  | catchup t entity entered known kind ready => exact entity_if_miss_ordered o s _ _ _ ordered entered
  | start t v u entity entered known kind idle early added ready catches =>
      have toEnter := entity_if_miss_ordered o s t _ _ ordered entered
      have toHold := armed_ordered o t v _ _ entity cmd known toEnter added
      cases catches with
      | unmatched again u knownAgain kind other finished => exact finish_client_ordered o v u _ _ toHold finished

theorem paxos_catches_ordered (o : Options n) (s u : Node n) (cmd : PaxosCmd) (entityId : Nat) (ordered : Ordered o s)
    (catches : PaxosCatches o s cmd entityId u) : Ordered o u := by
  cases catches with
  | checked t u entity peer entityId entered known ready home sender apart catches =>
      have toEnter := entity_if_miss_ordered o s t _ _ ordered entered
      cases catches with
      | failed again third u knownAgain knownThird answered result finished =>
          exact finish_fast_failed_ordered o _ u _ (report_ordered o t again peer _ knownAgain toEnter) finished
      | open_ again third v u entityId knownAgain knownThird answered result left catches =>
          have toHear := report_ordered o t again peer _ knownAgain toEnter
          have toLocal := ordered_same o _ v (handle_if_chosen_entities _ v _ _ false left) toHear
          cases catches with
          | updated p info out ret w x u opened found restored certain calm updated =>
              have toOpen := create_entry_ordered o v w _ _ _ _ toLocal opened
              exact update_machine_ordered o x _ p peer out ret (restored_ordered o w x _ _ out toOpen restored) updated

theorem hands_msg_ordered (o : Options n) (p : EntryPtr) (peers : List (Fin n)) (s u : Node n) (cmd : PaxosCmd)
    (hands : HandsMsg o p peers s u cmd) (ordered : Ordered o s) : Ordered o u := by
  induction hands with
  | here peer rest s info cmd found slot => exact ordered_same o s _ rfl ordered
  | skip peer rest s u info cmd found slot later ih => exact ih ordered
  | next peer rest s t u info after first cmd ret found slot handled foundAfter certain later ih =>
      exact ih (handle_paxos_ordered o _ t first ret (ordered_same o s (s.setEntry _ _) rfl ordered) handled)

theorem completion_catches_ordered (o : Options n) (s u : Node n) (cmd : PaxosCmd) (entityId : Nat) (ordered : Ordered o s)
    (catches : CompletionCatches o s cmd entityId u) : Ordered o u := by
  cases catches with
  | msg p t v u msg entityId resumes hands catches =>
      have toHand := hands_msg_ordered o p _ t v msg hands (resumes_ordered o s t cmd p ordered resumes)
      exact paxos_catches_ordered o v u msg _ toHand catches
  | get p t u notSet resumes drained => exact handle_waiting_ordered o t u p (resumes_ordered o s t cmd p ordered resumes) drained

theorem load_catches_ordered (o : Options n) (s u : Node n) (cmd : PaxosCmd) (entityId : Nat) (ordered : Ordered o s)
    (catches : LoadCatches o s cmd entityId u) : Ordered o u := by
  cases catches with
  | msg entity again msg m u entityId known loading done knownAgain parked catches =>
      have toLoad : Ordered o ((s.loadedState entity cmd).mark m) := loaded_state_ordered o s entity cmd known ordered
      refine paxos_catches_ordered o _ u msg entityId ?_ catches
      exact ordered_kept o _ _ cmd.entityId again { again with waitingMsg := none } knownAgain rfl rfl rfl rfl toLoad
  | client entity again client t u known loading done served knownAgain parked catches =>
      have toMsg := parked_msg_ordered o _ t _ (loaded_state_ordered o s entity cmd known ordered) served
      refine client_catches_ordered o _ u client ?_ catches
      exact ordered_kept o t _ cmd.entityId again { again with clientCmd := none } knownAgain rfl rfl rfl rfl toMsg

theorem recovered_state_ordered (o : Options n) (s : Node n) (entity : EntityInfo n) (cmd : PaxosCmd)
    (known : s.entityInfos cmd.entityId = some entity) (ordered : Ordered o s) : Ordered o (s.recoveredState entity cmd) := by
  refine ordered_set o s _ cmd.entityId _ rfl (fun other same => ?_) ordered
  cases same
  exact recovered_ordered _ entity _ _ (ordered _ entity known)

-- Wherever TryCatchup is called, the watermarks are ordered.
theorem calls_catchup_ordered (o : Options n) (s u : Node n) (env : Env n) (event : Event) (entityId : Nat) (ordered : Ordered o s)
    (calls : CallsCatchup o s env event entityId u) : Ordered o u := by
  have onClock : Ordered o { s with env := env } := ordered
  cases calls with
  | client cmdId entityId entry timestampUsec timeoutMsec value uuids u kind catches => exact client_catches_ordered o _ u _ onClock catches
  | message cmd entityId u catches => exact paxos_catches_ordered o _ u _ _ onClock catches
  | completion index cmd entityId u next notLoad catches =>
      exact completion_catches_ordered o { s with env := env, plogRsps := s.plogRsps.eraseIdx index } u cmd _ ordered catches
  | load index cmd entityId u next isLoad catches =>
      exact load_catches_ordered o { s with env := env, plogRsps := s.plogRsps.eraseIdx index } u cmd _ ordered catches
  | recovered index cmd u next catches =>
      cases catches with
      | done t entity entered known result =>
          have toEnter := entity_if_miss_ordered o { s with env := env, recoverRsps := s.recoverRsps.eraseIdx index } t _ _ ordered entered
          exact recovered_state_ordered o t entity cmd known toEnter
  | tick entityId u catches =>
      cases catches with
      | cleaned t u cleans cleaned => exact cleanup_ordered o t u (tick_cleans_ordered o _ t onClock cleans) cleaned

-- The entries that the loop of TryCatchup may visit.
def catchupWindow (o : Options n) (entity : EntityInfo n) : List Nat :=
  List.range' (entity.maxContChosenEntry + 1) (catchupDest o entity - entity.maxContChosenEntry)

-- The difference that TryCatchup reports, one of uint64.
def readyToCatchup (o : Options n) (entity : EntityInfo n) : Nat := sub64 (catchupDest o entity) entity.maxCatchupEntry

theorem try_catchup_window (o : Options n) (s : Node n) (entityId : Nat) (entity : EntityInfo n)
    (known : s.entityInfos entityId = some entity) (gap : entity.maxContChosenEntry < entity.maxChosenEntry)
    (free : entity.recoverPending = false) :
    s.tryCatchup o entityId = catchupEntries o entityId (catchupWindow o entity)
      (s.setEntity entityId (some { entity with maxCatchupEntry := catchupDest o entity })) := by
  rw [tryCatchup, known]
  exact (if_neg (Nat.not_lt_of_ge (Nat.le_of_lt gap))).trans
    ((if_neg (Nat.ne_of_lt gap)).trans (if_neg (by rw [free]; exact Bool.false_ne_true)))

-- The call visits no entry outside the window, and its difference is a plain one.
structure Windowed (o : Options n) (entity : EntityInfo n) : Prop where
  visits : ∀ curr ∈ catchupWindow o entity, entity.maxContChosenEntry < curr ∧ curr ≤ entity.maxChosenEntry
  few : (catchupWindow o entity).length ≤ o.maxCatchupNum
  ready : entity.maxCatchupEntry ≤ catchupDest o entity ∧ readyToCatchup o entity = catchupDest o entity - entity.maxCatchupEntry

theorem ordered_windowed (o : Options n) (entity : EntityInfo n) (ordered : entity.Ordered o.maxCatchupNum)
    (small : entity.maxChosenEntry + o.maxCatchupNum < 2 ^ 64) : Windowed o entity := by
  have after := dest_ordered o entity ordered
  have low : catchupDest o entity ≤ entity.maxChosenEntry := after.caught
  have near : catchupDest o entity ≤ entity.maxContChosenEntry + o.maxCatchupNum := after.near
  have ready : entity.maxCatchupEntry ≤ catchupDest o entity := by
    have cont := ordered.cont
    have caught := ordered.caught
    have sum := u64_small (entity.maxContChosenEntry + o.maxCatchupNum) (by omega)
    rw [catchupDest, sum]
    split
    · exact Nat.le_refl _
    · split <;> omega
  refine ⟨fun curr member => ?_, ?_, ready, ?_⟩
  · obtain ⟨lower, upper⟩ := List.mem_range'_1.mp member
    omega
  · rw [catchupWindow, List.length_range']
    omega
  · rw [readyToCatchup, sub64, if_neg (Nat.not_lt_of_ge ready)]

-- In every state reached the watermarks of every entity are ordered, and so they are
-- wherever TryCatchup is called. The call keeps to the entries it may visit as long
-- as the sum it takes stays below 2^64.
theorem watermarks_ordered (o : Options n) (s : Node n) (reached : Reached o Any s) :
    (∀ entityId entity, s.entityInfos entityId = some entity →
      entity.maxContChosenEntry ≤ entity.maxChosenEntry ∧ entity.maxCatchupEntry ≤ entity.maxChosenEntry) ∧
      ∀ env event entityId u entity, CallsCatchup o s env event entityId u → u.entityInfos entityId = some entity →
        entity.maxContChosenEntry ≤ entity.maxChosenEntry ∧ entity.maxCatchupEntry ≤ entity.maxChosenEntry ∧
          (entity.maxChosenEntry + o.maxCatchupNum < 2 ^ 64 → Windowed o entity) := by
  have ordered := reached_ordered o Any s reached
  refine ⟨fun entityId entity known => ?_, fun env event entityId u entity calls known => ?_⟩
  · have here := ordered entityId entity known
    exact ⟨here.cont, here.caught⟩
  · have here := calls_catchup_ordered o s u env event entityId ordered calls entityId entity known
    exact ⟨here.cont, here.caught, ordered_windowed o entity here⟩

-- An entity that is loaded with a committed entry and then told of a chosen one.
def loadedRun (committed : Nat) : List (Env 3 × Event) :=
  [({}, .clientCmd .catchup 0 0 0 0 [] []), ({}, .plogReq 0 committed .ok), ({}, .plogRsp 0)]

def failedMsg (reported : Nat) : PaxosCmd :=
  { entityId := 0, entry := 1, localAcceptorId := 1, result := .fastFailed, maxChosenEntry := reported }

theorem failed_msg_catches (o : Options 3) (s : Node 3) (entity : EntityInfo 3) (reported : Nat) (known : s.entityInfos 0 = some entity)
    (home : entity.localAcceptorId = 0) (ready : entity.loading = false) (idle : entity.clientCmd = none)
    (more : entity.maxChosenEntry < reported) :
    ∃ u, CallsCatchup o s {} (.paxosCmd (failedMsg reported)) 0 u ∧
      u.entityInfos 0 = some { entity with activePeerAcceptorId := 1, maxChosenEntry := reported } := by
  have here : ({ s with env := {} } : Node 3).entityInfos 0 = some entity := known
  have switched : (failedMsg reported).parsed.switchToLocalView entity.localAcceptorId =
      { failedMsg reported with localAcceptorId := 0, peerAcceptorId := 1 } := by
    rw [home]
    rfl
  have told : ({ s with env := {} } : Node 3).heard entity 1 { failedMsg reported with localAcceptorId := 0, peerAcceptorId := 1 } =
      ({ s with env := {} } : Node 3).setEntity 0 (some { entity with activePeerAcceptorId := 1, maxChosenEntry := reported }) := if_pos more
  have after : (({ s with env := {} } : Node 3).setEntity 0
      (some { entity with activePeerAcceptorId := 1, maxChosenEntry := reported })).entityInfos 0 =
      some { entity with activePeerAcceptorId := 1, maxChosenEntry := reported } := by
    simp [setEntity]
  refine ⟨_, .message (failedMsg reported) 0 _ (.checked { s with env := {} } _ entity 1 0 ?_ here ready ?_ ?_ ?_ ?_), after⟩
  · exact show createEntityInfoIfMiss o { s with env := {} } 0 = some (.ok, { s with env := {} }) by
      rw [createEntityInfoIfMiss, here]
  · rw [switched, home]
    rfl
  · rw [switched]
    rfl
  · rw [home]
    decide
  · rw [switched]
    refine .failed entity { entity with activePeerAcceptorId := 1, maxChosenEntry := reported } _ here ?_ (fun wrong => by cases wrong.1) rfl ?_
    · rw [told]
      exact after
    · rw [told, finishFastFailed]
      refine Option.bind_eq_some_iff.mpr ⟨_, after, ?_⟩
      rw [idle]

-- The window of five committed and nine chosen entries.
theorem four_entries_windowed : ∃ s u : Node 3, ∃ entity, runEvents {} unchecked (loadedRun 5) (start fun _ => 0) = some s ∧
    CallsCatchup {} s {} (.paxosCmd (failedMsg 9)) 0 u ∧ u.entityInfos 0 = some entity ∧ catchupWindow {} entity = [6, 7, 8, 9] ∧
    Windowed {} entity := by
  have ends : (runEvents {} unchecked (loadedRun 5) (start fun _ => 0)).bind (fun s => (s.entityInfos 0).map fun entity =>
      ((entity.localAcceptorId, entity.loading, entity.clientCmd.isNone), entity.maxContChosenEntry, entity.maxChosenEntry,
        entity.maxCatchupEntry)) = some ((0, false, true), 5, 5, 5) := by decide +kernel
  obtain ⟨s, run, seen⟩ := Option.bind_eq_some_iff.mp ends
  obtain ⟨entity, known, fields⟩ := Option.map_eq_some_iff.mp seen
  simp only [Prod.mk.injEq, Option.isNone_iff_eq_none] at fields
  obtain ⟨⟨home, ready, idle⟩, cont, chosen, caught⟩ := fields
  obtain ⟨u, calls, after⟩ := failed_msg_catches {} s entity 9 known home ready idle (by omega)
  have kept := (watermarks_ordered {} s (unchecked_reached {} (loadedRun 5) _ s (.start _) run)).2 {} _ 0 u _ calls after
  refine ⟨s, u, _, run, calls, after, ?_, kept.2.2 (show 9 + 10 < 2 ^ 64 by decide)⟩
  simp only [catchupWindow, catchupDest, cont, caught]
  decide

-- The committed entry is so near 2^64 that the sum wraps, and the difference with it.
theorem catchup_sum_wraps : ¬ ∀ (n : Nat) (o : Options n) (s : Node n), Reached o Any s →
    (∀ entityId entity, s.entityInfos entityId = some entity →
      entity.maxContChosenEntry ≤ entity.maxChosenEntry ∧ entity.maxCatchupEntry ≤ entity.maxChosenEntry) ∧
      ∀ env event entityId u entity, CallsCatchup o s env event entityId u → u.entityInfos entityId = some entity →
        entity.maxContChosenEntry < entity.maxChosenEntry → entity.recoverPending = false → Windowed o entity := by
  intro always
  have ends : (runEvents {} unchecked (loadedRun (2 ^ 64 - 3)) (start fun _ => 0)).bind (fun s => (s.entityInfos 0).map fun entity =>
      ((entity.localAcceptorId, entity.loading, entity.clientCmd.isNone, entity.recoverPending), entity.maxContChosenEntry,
        entity.maxChosenEntry, entity.maxCatchupEntry)) = some ((0, false, true, false), 2 ^ 64 - 3, 2 ^ 64 - 3, 2 ^ 64 - 3) := by decide +kernel
  obtain ⟨s, run, seen⟩ := Option.bind_eq_some_iff.mp ends
  obtain ⟨entity, known, fields⟩ := Option.map_eq_some_iff.mp seen
  simp only [Prod.mk.injEq, Option.isNone_iff_eq_none] at fields
  obtain ⟨⟨home, ready, idle, free⟩, cont, chosen, caught⟩ := fields
  obtain ⟨u, calls, after⟩ := failed_msg_catches {} s entity (2 ^ 64 - 1) known home ready idle (by omega)
  have reached := unchecked_reached {} (loadedRun (2 ^ 64 - 3)) _ s (.start _) run
  have wrong := ((always 3 {} s reached).2 {} _ 0 u _ calls after (show entity.maxContChosenEntry < 2 ^ 64 - 1 by omega) free).ready.1
  simp only [catchupDest, cont, caught] at wrong
  exact absurd wrong (by decide)

end PaxosStore.Certain.Node
