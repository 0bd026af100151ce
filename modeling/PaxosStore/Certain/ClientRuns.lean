import PaxosStore.Certain.ClientCmds

set_option autoImplicit false

namespace PaxosStore.Certain

variable {n : Nat}

namespace Desk

theorem act_now (d e : Desk n) (act : Act d e) : e.now = d.now := by
  cases act <;> rfl

theorem acts_now (d e : Desk n) (acts : Acts d e) : e.now = d.now := by
  induction acts with
  | refl => rfl
  | tail _ last ih => exact (act_now _ _ last).trans ih

theorem turns_now (codes : RetCode → Prop) (d e : Desk n) (turns : Turns codes d e) : e.now = d.now := by
  induction turns with
  | refl => rfl
  | tail _ last ih =>
      refine Eq.trans ?_ ih
      cases last with
      | act _ act => exact act_now _ _ act
      | _ => rfl

-- A command of the other kinds is given.
theorem ledger_other (o : Options n) (given : List ClientCmd) (d : Desk n) (cmd : ClientCmd) (kind : ¬ Node.Awaited cmd)
    (ledger : Ledger o given d) : Ledger o (cmd :: given) d where
  once := ledger.once
  held := ledger.held
  armed := ledger.armed
  balance := by
    intro other awaited
    have apart : ¬ cmd.request = other.request := fun equal => kind (by
      have same := congrArg ClientCmd.cmdId equal
      rw [Node.Awaited, show cmd.cmdId = other.cmdId from same]
      exact awaited)
    rw [List.map_cons, List.count_cons, ledger.balance other awaited]
    simp [apart]
  inTime := ledger.inTime

end Desk

namespace Node

open Desk

-- The time a command waits for from now on.
def remaining (o : Options n) (now : Nat) (cmd : ClientCmd) : Nat := timeoutOf o cmd - elapsedMsec now cmd.timestampUsec

def Late (o : Options n) (now : Nat) (cmd : ClientCmd) : Prop := timeoutOf o cmd < elapsedMsec now cmd.timestampUsec

theorem elapsed_past (now timestampUsec : Nat) (past : timestampUsec / 1000 ≤ now) (bounded : now < 2 ^ 64) :
    elapsedMsec now timestampUsec = now - timestampUsec / 1000 := by
  rw [elapsedMsec, show now + 2 ^ 64 - timestampUsec / 1000 = now - timestampUsec / 1000 + 2 ^ 64 by omega, Nat.add_mod_right,
    Nat.mod_eq_of_lt (by omega)]

theorem u32_small (value : Nat) (small : value ≤ kMaxTimeoutMsec) : u32 value = value := by
  rw [u32]
  exact Nat.mod_eq_of_lt (Nat.lt_of_le_of_lt small (by decide))

theorem late_deadline (o : Options n) (now : Nat) (cmd : ClientCmd) (past : cmd.timestampUsec / 1000 ≤ now) (bounded : now < 2 ^ 64)
    (late : Late o now cmd) : deadlineOf o cmd ≤ now := by
  rw [Late, elapsed_past now _ past bounded] at late
  rw [deadlineOf]
  omega

theorem remaining_deadline (o : Options n) (now : Nat) (cmd : ClientCmd) (past : cmd.timestampUsec / 1000 ≤ now) (bounded : now < 2 ^ 64)
    (early : ¬ Late o now cmd) : now + remaining o now cmd = deadlineOf o cmd := by
  rw [Late, elapsed_past now _ past bounded] at early
  rw [remaining, elapsed_past now _ past bounded, deadlineOf]
  omega

-- A command that is put into the timer fits into it.
def Fits (o : Options n) (s : Node n) (now : Nat) (cmd : ClientCmd) : Prop :=
  Awaited cmd → Admits s cmd.entityId → ¬ Late o now cmd → remaining o now cmd ≤ kMaxTimeoutMsec

theorem works_ledger (o : Options n) (given : List ClientCmd) (s t : Node n) (works : Works s t) (ledger : Ledger o given s.desk) :
    Ledger o given t.desk := ledger_acts o given _ _ works ledger

theorem works_clock (s t : Node n) (works : Works s t) : t.env.nowMsec = s.env.nowMsec := acts_now _ _ works

theorem served_ledger (o : Options n) (given : List ClientCmd) (s t : Node n) (cmd : ClientCmd) (served : Served o s cmd t)
    (past : cmd.timestampUsec / 1000 ≤ s.env.nowMsec) (bounded : s.env.nowMsec < 2 ^ 64) (fits : Fits o s s.env.nowMsec cmd)
    (ledger : Ledger o given s.desk) : Ledger o (cmd :: given) t.desk := by
  cases served with
  | aside works kind => exact ledger_other o given t.desk cmd kind (works_ledger o given s t works ledger)
  | rejected u code works kept effect free late =>
      have clock := works_clock s u works
      rw [effect]
      refine ledger_rejected o given u.desk cmd code (works_ledger o given s u works ledger) fun isLate => ?_
      have overdue := late_deadline o s.env.nowMsec cmd past bounded (by rw [Late, ← clock]; exact late isLate)
      rw [← clock] at overdue
      exact overdue
  | armed u v entity works kept admits known kind idle early added later =>
      refine works_ledger o (cmd :: given) v t later ?_
      have clock := works_clock s u works
      have before := works_ledger o given s u works ledger
      have nothing : u.desk.asks cmd.entityId = none := (asks_of u.desk cmd.entityId entity known).trans idle
      have inTime : ¬ Late o u.env.nowMsec cmd := Nat.not_lt.mpr early
      rw [← clock] at past bounded fits
      have small := fits kind admits inTime
      obtain ⟨-, ⟨⟨deadline, listed⟩, -⟩ | ⟨-, effect⟩⟩ := timer_add_desk _ v _ _ added
      · obtain ⟨client, asking, -⟩ := before.armed cmd.entityId deadline listed
        rw [nothing] at asking
        cases asking
      · refine ledger_armed o given u.desk v.desk cmd (u.env.nowMsec + remaining o u.env.nowMsec cmd) before nothing ?_ ?_ ?_ ?_ ?_
          ⟨rfl, kind, remaining_deadline o _ cmd past bounded inTime, past, Nat.add_le_add_left small _⟩
        · rw [effect]
          exact asks_set u.desk cmd.entityId _
        · rw [effect, show timeoutOf o cmd - elapsedMsec u.env.nowMsec cmd.timestampUsec = remaining o u.env.nowMsec cmd from rfl,
            u32_small _ small]
          rfl
        · exact timer_add_once _ v _ _ added (once_same u.desk _ rfl before.once)
        · rw [effect]
          rfl
        · rw [effect]
          rfl

-- The parked command is handed in again: it is in the timer already.
theorem parked_ledger (o : Options n) (given : List ClientCmd) (u t : Node n) (entityId : Nat) (entity : EntityInfo n) (client : ClientCmd)
    (known : u.entityInfos entityId = some entity) (asking : entity.clientCmd = some client)
    (served : Served o (u.setEntity entityId (some { entity with clientCmd := none })) client t)
    (inTime : ¬ Late o u.env.nowMsec client) (ledger : Ledger o given u.desk) : Ledger o given t.desk := by
  have asks : u.desk.asks entityId = some client := (asks_of u.desk entityId entity known).trans asking
  obtain ⟨deadline, listed⟩ := ledger.held entityId client asks
  obtain ⟨same, here, armed⟩ := ledger.armed entityId deadline listed
  rw [asks] at here
  cases here
  have home := armed.home
  subst home
  have there : (u.setEntity client.entityId (some { entity with clientCmd := none })).entityInfos client.entityId =
      some { entity with clientCmd := none } := Function.update_self _ _ _
  cases served with
  | aside works kind => exact absurd armed.kind kind
  | rejected w code works kept effect free late =>
      have isLate := late (free _ there rfl)
      rw [kept _ there] at isLate
      exact absurd isLate inTime
  | armed w v other works kept admits knownOther kind idle early added later =>
      refine works_ledger o given v t later ?_
      have same := kept _ there
      subst same
      rw [there] at knownOther
      cases knownOther
      obtain ⟨-, ⟨-, rfl⟩ | ⟨missing, -⟩⟩ := timer_add_desk _ v _ _ added
      · refine ledger_same o given u.desk _ ledger ?_ rfl rfl rfl
        have twice : (((u.setEntity client.entityId (some { entity with clientCmd := none })).setEntity client.entityId
            (some { entity with clientCmd := some client })).desk) = u.desk.setEntity client.entityId (some { entity with clientCmd := some client }) := by
          simp [desk, setEntity, Desk.setEntity]
        exact (congrArg Desk.asks twice).trans (asks_kept u.desk client.entityId entity _ known asking.symm)
      · exact absurd listed (missing deadline)

def givenCmds : Event → List ClientCmd
  | .clientCmd cmdId entityId entry timestampUsec timeoutMsec value uuids =>
      [{ cmdId := cmdId, entityId := entityId, entry := entry, timestampUsec := timestampUsec, timeoutMsec := timeoutMsec,
         value := value, uuids := uuids }]
  | _ => []

-- What the outside does: the clock does not go back, a command is not from the future,
-- and a load does not fail with the timeout code of the helper.
def Clocked (s : Node n) (env : Env n) (event : Event) : Prop :=
  s.env.nowMsec ≤ env.nowMsec ∧ env.nowMsec < 2 ^ 64 ∧
    match event with
    | .clientCmd _ _ _ timestampUsec _ _ _ => timestampUsec / 1000 ≤ env.nowMsec
    | .plogRsp index => ∀ cmd, s.plogRsps[index]? = some cmd → cmd.plogLoad = true → cmd.result ≠ .timeout
    | _ => True

-- A command that goes into the timer waits for a minute at most, and no load that ends
-- well finds that the command it kept waiting has outlived its timeout meanwhile.
def Timely (o : Options n) (s : Node n) (env : Env n) : Event → Prop
  | .plogRsp index => ∀ cmd u entity client, s.plogRsps[index]? = some cmd → cmd.plogLoad = true →
      ParkedAt o { s with env := env, plogRsps := s.plogRsps.eraseIdx index } cmd u → u.entityInfos cmd.entityId = some entity →
      entity.clientCmd = some client → ¬ Late o env.nowMsec client
  | event => ∀ cmd ∈ givenCmds event, Fits o { s with env := env } env.nowMsec cmd

def Punctual (o : Options n) (s : Node n) (env : Env n) (event : Event) : Prop := Clocked s env event ∧ Timely o s env event

theorem handle_ledger (o : Options n) (given : List ClientCmd) (s t : Node n) (env : Env n) (event : Event)
    (clocked : Clocked s env event) (timely : Timely o s env event) (ledger : Ledger o given s.desk) (done : s.handle o env event = some t) :
    Ledger o (givenCmds event ++ given) t.desk := by
  obtain ⟨later, bounded, kind⟩ := clocked
  have onClock := ledger_clock o given s.desk env.nowMsec later ledger
  have codes : ∀ index cmd, event = .plogRsp index → s.plogRsps[index]? = some cmd → cmd.plogLoad = true → cmd.result ≠ .ok →
      cmd.result ≠ .timeout := by
    rintro index cmd rfl next isLoad -
    exact kind cmd next isLoad
  cases handle_desk o (· ≠ .timeout) s t env event (once_nodup _ ledger.once) codes done with
  | client cmdId entityId entry timestampUsec timeoutMsec value uuids notReplay served =>
      exact served_ledger o given _ t _ served kind bounded (timely _ (List.mem_singleton_self _)) onClock
  | message cmd works => exact ledger_acts o given _ _ works onClock
  | plog index maxCommittedEntry outcome same => rw [same]; exact ledger
  | completion index cmd next notLoad drains => exact ledger_drains o given _ _ drains onClock
  | load index turns => exact ledger_turns o given _ _ turns onClock
  | parked index cmd u entity client next isLoad parkedAt known asking served =>
      have turns := parked_at_turns (· ≠ .timeout) o _ u cmd parkedAt
      have clock : u.env.nowMsec = env.nowMsec := turns_now _ _ _ turns
      refine parked_ledger o given u t cmd.entityId entity client known asking served ?_ (ledger_turns o given _ _ turns onClock)
      rw [clock]
      exact timely cmd u entity client next isLoad parkedAt known asking
  | recover index maxCommittedEntry result same => rw [same]; exact ledger
  | recovered index turns => exact ledger_turns o given _ _ turns onClock
  | tick next turns => exact ledger_turns o given _ _ turns onClock

-- The calls of Timer::Add: the state they are made in and the timeout they pass.
inductive AddsTimer (o : Options n) (s : Node n) (cmd : ClientCmd) : Node n → Nat → Prop where
  | call (u : Node n) (entity : EntityInfo n) (entered : s.createEntityInfoIfMiss o cmd.entityId = some (.ok, u))
      (known : u.entityInfos cmd.entityId = some entity) (kind : Awaited cmd) (idle : entity.clientCmd = none)
      (early : ¬ Late o u.env.nowMsec cmd) :
      AddsTimer o s cmd (u.setEntity cmd.entityId (some { entity with clientCmd := some cmd })) (u32 (remaining o u.env.nowMsec cmd))

inductive TimerAdds (o : Options n) (s : Node n) (env : Env n) : Event → Node n → Nat → Nat → Prop where
  | client (cmdId : CmdId) (entityId entry timestampUsec timeoutMsec : Nat) (value : Bytes) (uuids : List Nat) (u : Node n) (timeout : Nat)
      (adds : AddsTimer o { s with env := env }
        { cmdId := cmdId, entityId := entityId, entry := entry, timestampUsec := timestampUsec, timeoutMsec := timeoutMsec,
          value := value, uuids := uuids } u timeout) :
      TimerAdds o s env (.clientCmd cmdId entityId entry timestampUsec timeoutMsec value uuids) u entityId timeout
  | parked (index : Nat) (cmd : PaxosCmd) (t u : Node n) (entity : EntityInfo n) (client : ClientCmd) (timeout : Nat)
      (next : s.plogRsps[index]? = some cmd) (isLoad : cmd.plogLoad = true)
      (parkedAt : ParkedAt o { s with env := env, plogRsps := s.plogRsps.eraseIdx index } cmd t)
      (known : t.entityInfos cmd.entityId = some entity) (asking : entity.clientCmd = some client)
      (adds : AddsTimer o (t.setEntity cmd.entityId (some { entity with clientCmd := none })) client u timeout) :
      TimerAdds o s env (.plogRsp index) u cmd.entityId timeout

theorem timer_add_total (s : Node n) (entityId timeout : Nat) (small : timeout ≤ kMaxTimeoutMsec) : (s.timerAdd entityId timeout).isSome := by
  rw [timerAdd, if_neg (Nat.not_lt.mpr small)]
  split <;> rfl

theorem timer_adds_total (o : Options n) (given : List ClientCmd) (s u : Node n) (env : Env n) (event : Event) (entityId timeout : Nat)
    (clocked : Clocked s env event) (timely : Timely o s env event) (ledger : Ledger o given s.desk)
    (adds : TimerAdds o s env event u entityId timeout) : (u.timerAdd entityId timeout).isSome := by
  obtain ⟨later, bounded, kind⟩ := clocked
  have onClock := ledger_clock o given s.desk env.nowMsec later ledger
  refine timer_add_total u entityId timeout ?_
  cases adds with
  | client cmdId entityId entry timestampUsec timeoutMsec value uuids u timeout adds =>
      have fits := timely _ (List.mem_singleton_self _)
      cases adds with
      | call v entity entered known awaited idle early =>
          have entering := entity_if_miss_entered o { s with env := env } v entityId .ok entered
          have clock : v.env.nowMsec = env.nowMsec := works_clock { s with env := env } v entering.works
          have admits : Admits { s with env := env } entityId := by
            rw [Admits]
            split
            · rename_i other here
              have same := (entering.known other here).1
              subst same
              have equal : entity = other := Option.some.inj (known.symm.trans here)
              subst equal
              exact idle
            · rename_i absent
              exact entering.allowed absent rfl
          rw [clock] at early ⊢
          have small := fits awaited admits early
          rw [u32_small _ small]
          exact small
  | parked index cmd t u entity client timeout next isLoad parkedAt known asking adds =>
      have turns := parked_at_turns (· ≠ .timeout) o _ t cmd parkedAt
      have here := ledger_turns o given _ _ turns onClock
      have clock : t.env.nowMsec = env.nowMsec := turns_now _ _ _ turns
      have asks : t.desk.asks cmd.entityId = some client := (asks_of t.desk cmd.entityId entity known).trans asking
      obtain ⟨deadline, listed⟩ := here.held cmd.entityId client asks
      obtain ⟨same, askingSame, armed⟩ := here.armed cmd.entityId deadline listed
      rw [asks] at askingSame
      cases askingSame
      cases adds with
      | call v other entered knownOther awaited idle early =>
          have there : (t.setEntity cmd.entityId (some { entity with clientCmd := none })).entityInfos client.entityId =
              some { entity with clientCmd := none } := by
            rw [armed.home]
            exact Function.update_self _ _ _
          have same := ((entity_if_miss_entered o _ v client.entityId .ok entered).known _ there).1
          subst same
          have past : client.timestampUsec / 1000 ≤ env.nowMsec := clock ▸ armed.past
          have total := remaining_deadline o env.nowMsec client past bounded (clock ▸ early)
          have short : deadline ≤ env.nowMsec + kMaxTimeoutMsec := clock ▸ armed.short
          have due := armed.due
          have small : remaining o env.nowMsec client ≤ kMaxTimeoutMsec := by omega
          change u32 (remaining o t.env.nowMsec client) ≤ kMaxTimeoutMsec
          rw [clock, u32_small _ small]
          exact small

-- The runs, with the commands that clients have given so far.
inductive Given (o : Options n) (meets : Node n → Env n → Event → Prop) : List ClientCmd → Node n → Prop where
  | start (route : Nat → Fin n) : Given o meets [] (start route)
  | step (given : List ClientCmd) (s t : Node n) (env : Env n) (event : Event) (before : Given o meets given s) (met : meets s env event)
      (done : s.handle o env event = some t) : Given o meets (givenCmds event ++ given) t

theorem ledger_start (o : Options n) (route : Nat → Fin n) : Ledger o [] (start route).desk where
  once := List.nodup_nil
  held := fun _ _ asking => by cases asking
  armed := fun _ _ listed => by cases listed
  balance := fun _ _ => rfl
  inTime := fun _ member => by cases member

theorem given_ledger (o : Options n) (given : List ClientCmd) (s : Node n) (run : Given o (Punctual o) given s) : Ledger o given s.desk := by
  induction run with
  | start route => exact ledger_start o route
  | step given s t env event before met done ih => exact handle_ledger o given s t env event met.1 met.2 ih done

def answers (s : Node n) : List ClientCmd := s.userRspQueue ++ s.finishedList

-- The command that the entity of a request holds is this request.
def holds (s : Node n) (cmd : ClientCmd) : Bool :=
  ((s.entityInfos cmd.entityId).bind EntityInfo.clientCmd).map ClientCmd.request = some cmd.request

-- Each command given is answered once or still held, and no answer is an early
-- timeout; the timer holds the entities that hold a command; and no call of
-- Timer::Add in a next step fails.
structure AnsweredOnce (o : Options n) (meets : Node n → Env n → Event → Prop) (given : List ClientCmd) (s : Node n) : Prop where
  once : ∀ cmd, Awaited cmd → (given.map ClientCmd.request).count cmd.request =
    ((s.answers).map ClientCmd.request).count cmd.request + (s.holds cmd).toNat
  inTime : ∀ cmd ∈ s.answers, Awaited cmd → cmd.result = .timeout → cmd.timestampUsec / 1000 + timeoutOf o cmd ≤ s.env.nowMsec
  timer : ∀ entityId, (∃ deadline, (entityId, deadline) ∈ s.timer) ↔
    ∃ entity, s.entityInfos entityId = some entity ∧ entity.clientCmd.isSome
  asserts : ∀ env event u entityId timeout, meets s env event → TimerAdds o s env event u entityId timeout → (u.timerAdd entityId timeout).isSome

theorem client_cmds_answered (o : Options n) (given : List ClientCmd) (s : Node n) (run : Given o (Punctual o) given s) :
    AnsweredOnce o (Punctual o) given s := by
  have ledger := given_ledger o given s run
  refine ⟨fun cmd kind => ?_, fun cmd member => ?_, fun entityId => ⟨?_, ?_⟩, fun env event u entityId timeout met adds => ?_⟩
  · have balance := ledger.balance cmd kind
    have counted : (s.desk.answered.map ClientCmd.request).count cmd.request = (s.answers.map ClientCmd.request).count cmd.request := by
      simp [desk, answers]
    have held : s.desk.pending cmd = (s.holds cmd).toNat := by
      rw [Desk.pending, holds, show s.desk.asks cmd.entityId = (s.entityInfos cmd.entityId).bind EntityInfo.clientCmd from rfl]
      split
      · rename_i same
        rw [decide_eq_true same]
        rfl
      · rename_i other
        rw [decide_eq_false other]
        rfl
    rw [balance, counted, held]
  · exact ledger.inTime cmd (Multiset.mem_coe.mpr member)
  · rintro ⟨deadline, listed⟩
    obtain ⟨client, asking, -⟩ := ledger.armed entityId deadline listed
    obtain ⟨entity, known, held⟩ := Option.bind_eq_some_iff.mp asking
    exact ⟨entity, known, by rw [held]; rfl⟩
  · rintro ⟨entity, known, some_⟩
    obtain ⟨client, held⟩ := Option.isSome_iff_exists.mp some_
    exact ledger.held entityId client ((asks_of s.desk entityId entity known).trans held)
  · exact timer_adds_total o given s u env event entityId timeout met.1 met.2 ledger adds

-- A list of events with what the outside answers meanwhile, each checked first.
def runGiven (o : Options n) (check : Node n → Env n → Event → Bool) :
    List (Env n × Event) → List ClientCmd → Node n → Option (List ClientCmd × Node n)
  | [], given, s => some (given, s)
  | (env, event) :: rest, given, s =>
      if check s env event then (s.handle o env event).bind (runGiven o check rest (givenCmds event ++ given)) else none

theorem run_given (o : Options n) (check : Node n → Env n → Event → Bool) (meets : Node n → Env n → Event → Prop)
    (sound : ∀ s env event, check s env event = true → meets s env event) (events : List (Env n × Event)) (given last : List ClientCmd)
    (s t : Node n) (run : Given o meets given s) (done : runGiven o check events given s = some (last, t)) : Given o meets last t := by
  induction events generalizing given s with
  | nil =>
      cases done
      exact run
  | cons event rest ih =>
      rw [runGiven] at done
      split at done
      · rename_i fine
        obtain ⟨u, handled, later⟩ := Option.bind_eq_some_iff.mp done
        exact ih _ u (.step given s u event.1 event.2 run (sound s event.1 event.2 fine) handled) later
      · cases done

def clocked (s : Node n) (env : Env n) (event : Event) : Bool :=
  s.env.nowMsec ≤ env.nowMsec && env.nowMsec < 2 ^ 64 &&
    match event with
    | .clientCmd _ _ _ timestampUsec _ _ _ => timestampUsec / 1000 ≤ env.nowMsec
    | .plogRsp index => (s.plogRsps[index]?).all fun cmd => !cmd.plogLoad || cmd.result ≠ .timeout
    | _ => true

theorem clocked_sound (s : Node n) (env : Env n) (event : Event) (fine : clocked s env event = true) : Clocked s env event := by
  simp only [clocked, Bool.and_eq_true, decide_eq_true_eq] at fine
  obtain ⟨⟨later, bounded⟩, kind⟩ := fine
  refine ⟨later, bounded, ?_⟩
  cases event with
  | clientCmd cmdId entityId entry timestampUsec timeoutMsec value uuids => simpa using kind
  | plogRsp index =>
      intro cmd next isLoad
      simpa [next, isLoad] using kind
  | _ => trivial

instance (o : Options n) (now : Nat) (cmd : ClientCmd) : Decidable (Late o now cmd) := inferInstanceAs (Decidable (_ < _))

-- A check that is enough: no message waits for the load either.
def punctual (o : Options n) (s : Node n) (env : Env n) (event : Event) : Bool :=
  clocked s env event &&
    match event with
    | .plogRsp index => (s.plogRsps[index]?).all fun cmd => !cmd.plogLoad || (s.entityInfos cmd.entityId).all fun entity =>
        entity.waitingMsg.isNone && entity.clientCmd.all fun client => ¬ Late o env.nowMsec client
    | event => (givenCmds event).all fun cmd => remaining o env.nowMsec cmd ≤ kMaxTimeoutMsec

theorem parked_nothing (o : Options n) (s u : Node n) (cmd : PaxosCmd) (entity : EntityInfo n) (known : s.entityInfos cmd.entityId = some entity)
    (nothing : entity.waitingMsg = none) (parkedAt : ParkedAt o s cmd u) : (u.entityInfos cmd.entityId).bind EntityInfo.clientCmd = entity.clientCmd := by
  cases parkedAt with
  | loaded other u done knownOther loading served =>
      have equal : entity = other := Option.some.inj (known.symm.trans knownOther)
      subst equal
      have here : (s.loadedState entity cmd).entityInfos cmd.entityId =
          some (updateByLoadFromPlog { entity with loading := false } cmd.entry cmd.maxCommittedEntry) := Function.update_self _ _ _
      obtain ⟨again, knownAgain, rest⟩ := Option.bind_eq_some_iff.mp served
      rw [here] at knownAgain
      cases knownAgain
      rw [show (updateByLoadFromPlog { entity with loading := false } cmd.entry cmd.maxCommittedEntry).waitingMsg = none from nothing] at rest
      cases rest
      rw [here]
      rfl

theorem punctual_sound (o : Options n) (s : Node n) (env : Env n) (event : Event) (fine : punctual o s env event = true) :
    Punctual o s env event := by
  unfold punctual at fine
  obtain ⟨legal, kind⟩ := Bool.and_eq_true_iff.mp fine
  refine ⟨clocked_sound s env event legal, ?_⟩
  cases event with
  | plogRsp index =>
      dsimp only at kind
      intro cmd u entity client next isLoad parkedAt known asking
      have loaded := parkedAt
      cases loaded with
      | loaded old u done knownOld loading served =>
          have before : s.entityInfos cmd.entityId = some old := knownOld
          simp only [next, before, Option.all_some, isLoad, Bool.not_true, Bool.false_or, Bool.and_eq_true, Option.isNone_iff_eq_none] at kind
          have same := parked_nothing o { s with env := env, plogRsps := s.plogRsps.eraseIdx index } u cmd old before kind.1 parkedAt
          rw [known, Option.bind_some, asking] at same
          have inTime := kind.2
          rw [← same, Option.all_some] at inTime
          exact of_decide_eq_true inTime
  | clientCmd cmdId entityId entry timestampUsec timeoutMsec value uuids =>
      intro cmd member _ _ _
      have small := List.all_eq_true.mp kind cmd member
      simpa using small
  | _ =>
      intro cmd member
      cases member

def writeAt (msec : Nat) : Event := .clientCmd .write 0 1 (msec * 1000) 0 [7] []

-- The load takes longer than the command has time.
def slowLoad : List (Env 3 × Event) :=
  [({}, writeAt 0), ({}, .plogReq 0 0 .ok), ({ nowMsec := 700 }, .plogRsp 0), ({ nowMsec := 700 }, writeAt 700),
    ({ nowMsec := 701 }, .tick none)]

theorem next_cmd_killed : ¬ ∀ (given : List ClientCmd) (s : Node 3), Given {} Clocked given s → AnsweredOnce {} Clocked given s := by
  intro claim
  have ends : ((runGiven {} clocked slowLoad [] (start fun _ => 0)).map fun run =>
      (run.2.answers.map fun cmd => (cmd.result, cmd.cmdId, cmd.timestampUsec, cmd.timeoutMsec), run.2.env.nowMsec)) =
      some ([(.timeout, .write, 0, 0), (.timeout, .write, 700000, 0)], 701) := by decide +kernel
  obtain ⟨⟨given, s⟩, run, shape⟩ := Option.map_eq_some_iff.mp ends
  obtain ⟨answers, now⟩ := Prod.mk.inj shape
  have fair := claim given s (run_given {} clocked Clocked clocked_sound slowLoad [] given _ s (.start _) run)
  obtain ⟨cmd, member, about⟩ : ∃ cmd ∈ s.answers, (cmd.result, cmd.cmdId, cmd.timestampUsec, cmd.timeoutMsec) =
      (RetCode.timeout, CmdId.write, 700000, 0) := by
    have last : (RetCode.timeout, CmdId.write, 700000, 0) ∈
        s.answers.map fun cmd => (cmd.result, cmd.cmdId, cmd.timestampUsec, cmd.timeoutMsec) := by
      rw [answers]
      decide
    exact List.mem_map.mp last
  simp only [Prod.mk.injEq] at about
  obtain ⟨late, kind, timestamp, timeout⟩ := about
  have due := fair.inTime cmd member (by simp [Awaited, kind]) late
  rw [timestamp, timeoutOf, timeout, show s.env.nowMsec = 701 from now] at due
  simp at due

-- The load is in time, the write runs out of time later, and the entity takes the next command.
def fastLoad : List (Env 3 × Event) :=
  [({}, writeAt 0), ({}, .plogReq 0 0 .ok), ({ nowMsec := 500 }, .plogRsp 0), ({ nowMsec := 601 }, .tick none),
    ({ nowMsec := 700 }, .clientCmd .load 0 0 700000 0 [] [])]

theorem cmds_answered_in_time :
    ∃ (given : List ClientCmd) (s : Node 3), runGiven {} (punctual {}) fastLoad [] (start fun _ => 0) = some (given, s) ∧
      AnsweredOnce {} (Punctual {}) given s ∧ s.answers.map ClientCmd.result = [.timeout, .ok] ∧ s.timer = [] := by
  have ends : ((runGiven {} (punctual {}) fastLoad [] (start fun _ => 0)).map fun run => (run.2.answers.map ClientCmd.result, run.2.timer)) =
      some ([.timeout, .ok], []) := by decide +kernel
  obtain ⟨⟨given, s⟩, run, shape⟩ := Option.map_eq_some_iff.mp ends
  obtain ⟨answers, timer⟩ := Prod.mk.inj shape
  exact ⟨given, s, run, client_cmds_answered {} given s
    (run_given {} (punctual {}) (Punctual {}) (punctual_sound {}) fastLoad [] given _ s (.start _) run), answers, timer⟩

end Node

end PaxosStore.Certain
