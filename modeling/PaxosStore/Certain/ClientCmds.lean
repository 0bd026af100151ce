import PaxosStore.Certain.DeskRuns

set_option autoImplicit false

namespace PaxosStore.Certain

variable {n : Nat}

-- The command as the client gave it. The helper labels it and sets the result.
def ClientCmd.request (cmd : ClientCmd) : ClientCmd := { cmd with uuid := 0, valueId := 0, result := .ok }

-- When the command's own timeout has elapsed.
def deadlineOf (o : Options n) (cmd : ClientCmd) : Nat := cmd.timestampUsec / 1000 + Node.timeoutOf o cmd

namespace Desk

open Node

-- The command that an entity holds.
def asks (d : Desk n) (entityId : Nat) : Option ClientCmd := (d.entityInfos entityId).bind EntityInfo.clientCmd

-- Whether the request is the one its entity holds.
def pending (d : Desk n) (cmd : ClientCmd) : Nat := if (d.asks cmd.entityId).map ClientCmd.request = some cmd.request then 1 else 0

structure Armed (o : Options n) (now entityId deadline : Nat) (client : ClientCmd) : Prop where
  home : client.entityId = entityId
  kind : Awaited client
  due : deadline = deadlineOf o client
  past : client.timestampUsec / 1000 ≤ now
  short : deadline ≤ now + kMaxTimeoutMsec

-- The accounts of the clients' commands: the timer has the entities that hold one,
-- each with the command's own deadline; every command given is answered or held; and
-- no answer is an early timeout.
structure Ledger (o : Options n) (given : List ClientCmd) (d : Desk n) : Prop where
  once : Once d
  held : ∀ entityId client, d.asks entityId = some client → ∃ deadline, (entityId, deadline) ∈ d.timer
  armed : ∀ entityId deadline, (entityId, deadline) ∈ d.timer → ∃ client, d.asks entityId = some client ∧ Armed o d.now entityId deadline client
  balance : ∀ cmd, Awaited cmd → (given.map ClientCmd.request).count cmd.request =
    (d.answered.map ClientCmd.request).count cmd.request + d.pending cmd
  inTime : ∀ cmd ∈ d.answered, Awaited cmd → cmd.result = .timeout → deadlineOf o cmd ≤ d.now

theorem pending_same (d e : Desk n) (cmd : ClientCmd) (asks : e.asks cmd.entityId = d.asks cmd.entityId) : e.pending cmd = d.pending cmd := by
  rw [pending, pending, asks]

theorem ledger_same (o : Options n) (given : List ClientCmd) (d e : Desk n) (ledger : Ledger o given d) (asks : e.asks = d.asks)
    (timer : e.timer = d.timer) (answered : e.answered = d.answered) (now : e.now = d.now) : Ledger o given e where
  once := once_same d e timer ledger.once
  held := by rw [asks, timer]; exact ledger.held
  armed := by rw [asks, timer, now]; exact ledger.armed
  balance := by
    intro cmd kind
    rw [answered, pending_same d e cmd (by rw [asks])]
    exact ledger.balance cmd kind
  inTime := by rw [answered, now]; exact ledger.inTime

theorem armed_later (o : Options n) (now after entityId deadline : Nat) (client : ClientCmd) (later : now ≤ after)
    (armed : Armed o now entityId deadline client) : Armed o after entityId deadline client :=
  ⟨armed.home, armed.kind, armed.due, Nat.le_trans armed.past later, Nat.le_trans armed.short (Nat.add_le_add_right later _)⟩

theorem ledger_clock (o : Options n) (given : List ClientCmd) (d : Desk n) (now : Nat) (later : d.now ≤ now) (ledger : Ledger o given d) :
    Ledger o given { d with now := now } where
  once := ledger.once
  held := ledger.held
  armed := fun entityId deadline listed => by
    obtain ⟨client, asking, armed⟩ := ledger.armed entityId deadline listed
    exact ⟨client, asking, armed_later o d.now now entityId deadline client later armed⟩
  balance := ledger.balance
  inTime := fun cmd member kind late => Nat.le_trans (ledger.inTime cmd member kind late) later

theorem asks_set (d : Desk n) (entityId : Nat) (info : Option (EntityInfo n)) :
    (d.setEntity entityId info).asks = Function.update d.asks entityId (info.bind EntityInfo.clientCmd) := by
  funext other
  by_cases same : other = entityId
  · subst same
    simp [Desk.asks, setEntity]
  · simp [Desk.asks, setEntity, same]

-- The entity holds the same command as before.
theorem asks_kept (d : Desk n) (entityId : Nat) (old new : EntityInfo n) (known : d.entityInfos entityId = some old)
    (asking : new.clientCmd = old.clientCmd) : (d.setEntity entityId (some new)).asks = d.asks := by
  rw [asks_set, Option.bind_some, asking]
  exact Function.update_eq_self_iff.mpr (by rw [Desk.asks, known]; rfl)

theorem asks_idle (d : Desk n) (entityId : Nat) (info : Option (EntityInfo n)) (nothing : d.asks entityId = none)
    (idle : info.bind EntityInfo.clientCmd = none) : (d.setEntity entityId info).asks = d.asks := by
  rw [asks_set, idle]
  exact Function.update_eq_self_iff.mpr nothing.symm

theorem asks_of (d : Desk n) (entityId : Nat) (entity : EntityInfo n) (known : d.entityInfos entityId = some entity) :
    d.asks entityId = entity.clientCmd := by
  rw [Desk.asks, known]
  rfl

theorem pending_at (d : Desk n) (cmd client : ClientCmd) (asking : d.asks cmd.entityId = some client) :
    d.pending cmd = if client.request = cmd.request then 1 else 0 := by
  simp [pending, asking]

theorem pending_idle (d : Desk n) (cmd : ClientCmd) (nothing : d.asks cmd.entityId = none) : d.pending cmd = 0 := by
  simp [pending, nothing]

-- The command an entity holds is answered and leaves the timer.
theorem ledger_answered (o : Options n) (given : List ClientCmd) (d e : Desk n) (entityId : Nat) (client : ClientCmd) (result : RetCode)
    (ledger : Ledger o given d) (asking : d.asks entityId = some client) (asks : e.asks = Function.update d.asks entityId none)
    (timer : ∀ elt, elt ∈ e.timer ↔ elt ∈ d.timer ∧ elt.1 ≠ entityId) (once : Once e)
    (answered : e.answered = { client with result := result } ::ₘ d.answered) (now : e.now = d.now)
    (fair : result = .timeout → deadlineOf o client ≤ d.now) : Ledger o given e where
  once := once
  held := by
    intro other held here
    rw [asks] at here
    have apart : other ≠ entityId := by
      rintro rfl
      rw [Function.update_self] at here
      cases here
    rw [Function.update_of_ne apart] at here
    obtain ⟨deadline, listed⟩ := ledger.held other held here
    exact ⟨deadline, (timer _).mpr ⟨listed, apart⟩⟩
  armed := by
    intro other deadline listed
    obtain ⟨before, apart⟩ := (timer _).mp listed
    obtain ⟨held, here, armed⟩ := ledger.armed other deadline before
    exact ⟨held, by rw [asks, Function.update_of_ne apart]; exact here, by rw [now]; exact armed⟩
  balance := by
    intro cmd kind
    obtain ⟨deadline, listed⟩ := ledger.held entityId client asking
    obtain ⟨same, here, armed⟩ := ledger.armed entityId deadline listed
    rw [asking] at here
    cases here
    rw [ledger.balance cmd kind, answered, Multiset.map_cons, Multiset.count_cons]
    by_cases mine : cmd.entityId = entityId
    · have gone : e.asks cmd.entityId = none := by rw [asks, mine, Function.update_self]
      rw [pending_at d cmd client (by rw [mine]; exact asking), pending_idle e cmd gone]
      have same : cmd.request = { client with result := result }.request ↔ client.request = cmd.request := eq_comm
      simp only [same]
      omega
    · have other : cmd.request ≠ { client with result := result }.request := fun equal => mine (by
        have ids := congrArg ClientCmd.entityId equal
        exact Eq.trans ids armed.home)
      rw [if_neg other, pending_same d e cmd (by rw [asks, Function.update_of_ne mine])]
      rfl
  inTime := by
    intro cmd member kind late
    rw [answered, Multiset.mem_cons] at member
    rw [now]
    rcases member with rfl | before
    · exact fair late
    · exact ledger.inTime cmd before kind late

-- A command is given and answered at once.
theorem ledger_rejected (o : Options n) (given : List ClientCmd) (d : Desk n) (cmd : ClientCmd) (code : RetCode) (ledger : Ledger o given d)
    (fair : code = .timeout → deadlineOf o cmd ≤ d.now) : Ledger o (cmd :: given) (d.answer { cmd with result := code }) where
  once := ledger.once
  held := ledger.held
  armed := ledger.armed
  balance := by
    intro other kind
    have same : other.request = { cmd with result := code }.request ↔ cmd.request = other.request := eq_comm
    rw [List.map_cons, List.count_cons, ledger.balance other kind, answer, Multiset.map_cons, Multiset.count_cons]
    simp only [same, beq_iff_eq]
    have still : ({ d with answered := { cmd with result := code } ::ₘ d.answered } : Desk n).pending other = d.pending other := rfl
    rw [still]
    omega
  inTime := by
    intro other member kind late
    rcases Multiset.mem_cons.mp member with rfl | before
    · exact fair late
    · exact ledger.inTime other before kind late

-- A command is given and held.
theorem ledger_armed (o : Options n) (given : List ClientCmd) (d e : Desk n) (cmd : ClientCmd) (deadline : Nat) (ledger : Ledger o given d)
    (idle : d.asks cmd.entityId = none) (asks : e.asks = Function.update d.asks cmd.entityId (some cmd))
    (timer : e.timer = d.timer ++ [(cmd.entityId, deadline)]) (once : Once e) (answered : e.answered = d.answered) (now : e.now = d.now)
    (armed : Armed o d.now cmd.entityId deadline cmd) : Ledger o (cmd :: given) e where
  once := once
  held := by
    intro other held here
    rw [timer]
    by_cases mine : other = cmd.entityId
    · subst mine
      exact ⟨deadline, List.mem_append_right _ (List.mem_singleton_self _)⟩
    · rw [asks, Function.update_of_ne mine] at here
      obtain ⟨due, listed⟩ := ledger.held other held here
      exact ⟨due, List.mem_append_left _ listed⟩
  armed := by
    intro other due listed
    rw [timer] at listed
    rw [now]
    rcases List.mem_append.mp listed with before | last
    · obtain ⟨held, here, fine⟩ := ledger.armed other due before
      have apart : other ≠ cmd.entityId := by
        rintro rfl
        rw [idle] at here
        cases here
      exact ⟨held, by rw [asks, Function.update_of_ne apart]; exact here, fine⟩
    · cases List.mem_singleton.mp last
      exact ⟨cmd, by rw [asks, Function.update_self], armed⟩
  balance := by
    intro other kind
    rw [List.map_cons, List.count_cons, ledger.balance other kind, answered]
    by_cases mine : other.entityId = cmd.entityId
    · rw [pending_idle d other (by rw [mine]; exact idle), pending_at e other cmd (by rw [asks, mine, Function.update_self])]
      simp only [beq_iff_eq]
      omega
    · have apart : ¬ cmd.request = other.request := fun equal => mine (congrArg ClientCmd.entityId equal).symm
      rw [pending_same d e other (by rw [asks, Function.update_of_ne mine])]
      simp [apart]
  inTime := by
    rw [answered, now]
    exact ledger.inTime

-- The held command gets its uuid or its value id.
theorem ledger_labelled (o : Options n) (given : List ClientCmd) (d e : Desk n) (entityId uuid valueId : Nat) (client : ClientCmd)
    (ledger : Ledger o given d) (asking : d.asks entityId = some client)
    (asks : e.asks = Function.update d.asks entityId (some { client with uuid := uuid, valueId := valueId }))
    (timer : e.timer = d.timer) (answered : e.answered = d.answered) (now : e.now = d.now) : Ledger o given e where
  once := once_same d e timer ledger.once
  held := by
    intro other held here
    rw [timer]
    by_cases mine : other = entityId
    · subst mine
      exact ledger.held other client asking
    · rw [asks, Function.update_of_ne mine] at here
      exact ledger.held other held here
  armed := by
    intro other deadline listed
    rw [timer] at listed
    rw [now]
    obtain ⟨held, here, armed⟩ := ledger.armed other deadline listed
    by_cases mine : other = entityId
    · subst mine
      rw [asking] at here
      cases here
      exact ⟨{ client with uuid := uuid, valueId := valueId }, by rw [asks, Function.update_self],
        armed.home, armed.kind, armed.due, armed.past, armed.short⟩
    · exact ⟨held, by rw [asks, Function.update_of_ne mine]; exact here, armed⟩
  balance := by
    intro cmd kind
    rw [ledger.balance cmd kind, answered]
    by_cases mine : cmd.entityId = entityId
    · rw [pending_at d cmd client (by rw [mine]; exact asking),
        pending_at e cmd { client with uuid := uuid, valueId := valueId } (by rw [asks, mine, Function.update_self])]
      rfl
    · rw [pending_same d e cmd (by rw [asks, Function.update_of_ne mine])]
  inTime := by
    rw [answered, now]
    exact ledger.inTime

theorem raised_asks (entity : EntityInfo n) (entry : Nat) (mine : Bool) : (Site.raisedBy entity entry mine).clientCmd = entity.clientCmd := by
  simp only [Site.raisedBy, chosenWatermarks]
  split <;> split <;> split <;> rfl

theorem ledger_act (o : Options n) (given : List ClientCmd) (d e : Desk n) (act : Act d e) (ledger : Ledger o given d) : Ledger o given e := by
  cases act with
  | plan entityId old new known planned =>
      exact ledger_same o given d _ ledger (asks_kept d entityId old new known planned.asked) rfl rfl rfl
  | label entityId old client uuid valueId base known asking =>
      refine ledger_labelled o given d _ entityId uuid valueId client ledger ?_ (asks_set d entityId _) rfl rfl rfl
      rw [asks_of d entityId old known, asking]
  | finish entityId old client result known asking inTime =>
      refine ledger_answered o given d _ entityId client result ledger (by rw [asks_of d entityId old known, asking])
        (asks_set (d.disarm entityId) entityId _) ?_ (once_filter d _ _ rfl ledger.once) rfl rfl fun late => absurd late inTime
      intro elt
      simp [finish, answer, disarm, setEntity]
  | opened entityId new absent loading idle fresh number =>
      refine ledger_same o given d _ ledger ?_ rfl rfl rfl
      exact asks_idle d entityId (some new) (by rw [Desk.asks, absent]; rfl) idle
  | skipped => exact ledger_same o given d _ ledger rfl rfl rfl rfl
  | retired key entity info mine expired live certain known owner closed next =>
      exact ledger_same o given d _ ledger (asks_kept d key.entityId entity _ known (raised_asks entity key.entry mine)) rfl rfl rfl
  | raised key entity info mine live certain known owner closed apart =>
      exact ledger_same o given d _ ledger (asks_kept d key.entityId entity _ known (raised_asks entity key.entry mine)) rfl rfl rfl
  | _ => exact ledger_same o given d _ ledger rfl rfl rfl rfl

theorem ledger_acts (o : Options n) (given : List ClientCmd) (d e : Desk n) (acts : Acts d e) (ledger : Ledger o given d) :
    Ledger o given e := by
  induction acts with
  | refl => exact ledger
  | tail _ last ih => exact ledger_act o given _ _ last ih

theorem ledger_turn (o : Options n) (given : List ClientCmd) (d e : Desk n) (turn : Turn (· ≠ .timeout) d e) (ledger : Ledger o given d) :
    Ledger o given e := by
  cases turn with
  | act _ act => exact ledger_act o given d e act ledger
  | expire entityId deadline entity client listed due known asking =>
      have asks := asks_of d entityId entity known
      rw [asking] at asks
      obtain ⟨held, here, armed⟩ := ledger.armed entityId deadline listed
      rw [asks] at here
      cases here
      refine ledger_answered o given d _ entityId client .timeout ledger asks (asks_set _ entityId _) ?_ (once_filter d _ _ rfl ledger.once)
        rfl rfl fun _ => by rw [← armed.due]; exact due
      intro elt
      have sole : elt ∈ d.timer → (elt ≠ (entityId, deadline) ↔ elt.1 ≠ entityId) := fun member =>
        ⟨fun other same => other (List.inj_on_of_nodup_map ledger.once member listed same), fun other same => other (by rw [same])⟩
      simp only [answer, setEntity, List.mem_filter, decide_eq_true_eq]
      exact ⟨fun member => ⟨member.1, (sole member.1).mp member.2⟩, fun member => ⟨member.1, (sole member.1).mpr member.2⟩⟩
  | stale entityId deadline entity listed known idle =>
      obtain ⟨held, here, -⟩ := ledger.armed entityId deadline listed
      rw [asks_of d entityId entity known, idle] at here
      cases here
  | recovered entityId entry timestamp old known =>
      exact ledger_same o given d _ ledger (asks_kept d entityId old _ known rfl) rfl rfl rfl
  | loaded entityId maxPlogEntry maxCommittedEntry old known loading =>
      exact ledger_same o given d _ ledger (asks_kept d entityId old _ known rfl) rfl rfl rfl
  | lost entityId old client result known loading asking code =>
      refine ledger_answered o given d _ entityId client result ledger (by rw [asks_of d entityId old known, asking]) ?_ ?_
        (once_filter d _ _ rfl ledger.once) rfl rfl fun late => absurd late code
      · have effect : ((d.finish entityId old client result).setEntity entityId none).asks =
            Function.update (d.finish entityId old client result).asks entityId none := asks_set _ entityId none
        have first : (d.finish entityId old client result).asks = Function.update d.asks entityId none := asks_set (d.disarm entityId) entityId _
        rw [effect, first, Function.update_idem]
      · intro elt
        simp [finish, answer, disarm, setEntity]
  | closed entityId old known loading idle =>
      refine ledger_same o given d _ ledger (asks_idle d entityId none ?_ rfl) rfl rfl rfl
      rw [asks_of d entityId old known, idle]

theorem ledger_turns (o : Options n) (given : List ClientCmd) (d e : Desk n) (turns : Turns (· ≠ .timeout) d e) (ledger : Ledger o given d) :
    Ledger o given e := by
  induction turns with
  | refl => exact ledger
  | tail _ last ih => exact ledger_turn o given _ _ last ih

theorem ledger_drains (o : Options n) (given : List ClientCmd) (d e : Desk n) (drains : Drains d e) (ledger : Ledger o given d) :
    Ledger o given e := by
  induction drains with
  | refl => exact ledger
  | tail _ last ih =>
      cases last with
      | act _ act => exact ledger_act o given _ _ act ih
      | _ => exact ledger_same o given _ _ ih rfl rfl rfl rfl

end Desk

end PaxosStore.Certain
