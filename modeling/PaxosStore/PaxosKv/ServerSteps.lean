import PaxosStore.PaxosKv.ProposerSteps

set_option autoImplicit false

namespace PaxosStore.PaxosKv

open PaxosStore.Consensus PInsAliveState

-- What a handled message leaves behind, whether or not the write succeeds.
structure Outcome (fast i : Fin 3) (h : History) (pins stored : PaxosInstance) (alive : Option PInsAliveState)
    (rsp : Option Message) : Prop where
  failed : AliveOk h i pins alive
  done : ∃ next, Moved fast i h next ∧ PinsBacked next i stored ∧ AliveOk next i stored alive ∧
    ∀ msg, rsp = some msg → MessageBacked next msg
  marked : pins.chosen = false → stored.chosen = true → ∀ value, stored.acceptedValue = some value →
    ∃ ballot, h.Chosen ballot value

theorem alive_ok_some (h : History) (i : Fin 3) (pins : PaxosInstance) (alive : PInsAliveState) (backed : AliveBacked h i pins alive) :
    AliveOk h i pins (some alive) := by
  intro state same
  cases same
  exact backed

theorem plain_message (h : History) (msg : Message)
    (kind : msg.type = .prop ∧ msg.toId = none ∨ Servers.isRequest msg.type = true) : MessageBacked h msg := by
  have quiet : msg.type ≠ .propRsp ∧ msg.type ≠ .accptRsp ∧ msg.type ≠ .fastAccptRsp ∧ msg.type ≠ .accpt ∧
      msg.type ≠ .fastAccpt ∧ msg.type ≠ .chosen ∧ (msg.type = .prop → msg.toId = none) := by
    rcases kind with ⟨prop, everyone⟩ | request
    · simp [prop, everyone]
    · cases type : msg.type <;> simp [Servers.isRequest, type] at request ⊢
  obtain ⟨noPromise, noVote, noFastVote, noProposal, noFastProposal, noChosen, broadcast⟩ := quiet
  constructor
  · rintro (prop | accpt | fastAccpt)
    · exact broadcast prop
    · exact absurd accpt noProposal
    · exact absurd fastAccpt noFastProposal
  · rintro (promise | vote | fastVote)
    · exact absurd promise noPromise
    · exact absurd vote noVote
    · exact absurd fastVote noFastVote
  · exact fun promise => absurd promise noPromise
  · exact fun promise => absurd promise noPromise
  · rintro (accpt | fastAccpt)
    · exact absurd accpt noProposal
    · exact absurd fastAccpt noFastProposal
  · rintro (vote | fastVote)
    · exact absurd vote noVote
    · exact absurd fastVote noFastVote
  · exact fun chosen => absurd chosen noChosen

theorem chosen_message (h : History) (msg : Message) (type : msg.type = .chosen)
    (chosen : ∀ value, msg.acceptedValue = some value → ∃ ballot, h.Chosen ballot value) : MessageBacked h msg := by
  constructor
  · intro kind
    simp [type] at kind
  · intro kind
    simp [type] at kind
  · intro kind
    simp [type] at kind
  · intro kind
    simp [type] at kind
  · intro kind
    simp [type] at kind
  · intro kind
    simp [type] at kind
  · exact fun _ => chosen

theorem round_outcome (fast i : Fin 3) (h : History) (pins stored : PaxosInstance) (next : PInsAliveState) (rsp : Option Message)
    (ledger : Ledger fast h) (backed : PinsBacked h i pins) (open_ : pins.chosen = false) (round : NewRound h i pins stored next)
    (reply : ∀ msg, rsp = some msg → msg.type = .prop ∧ msg.toId = none) :
    Outcome fast i h pins stored (some next) rsp := by
  have promised : (h.raise i next.propNumGen.get).promised i = next.propNumGen.get := by
    have below := round.promised
    rw [← backed.promised open_] at below
    simp [Voting.raise]
    omega
  have moved := moved_raise fast i h next.propNumGen.get ledger
  have owns := hinted_owns h i next round.hinted
  have fresh : h.proposal next.propNumGen.get = none := by
    cases known : h.proposal next.propNumGen.get with
    | none => rfl
    | some value =>
        have used := backed.proposed _ value known owns
        have above := round.above
        omega
  have ordered := backed.ordered open_
  constructor
  · apply alive_ok_some
    refine ⟨round.hinted, fun _ same => ?_, fun waiting => ?_⟩
    · have above := round.above
      omega
    · rw [round.state] at waiting
      cases waiting
  · refine ⟨h.raise i next.propNumGen.get, moved, ?_, ?_, fun msg sent => plain_message _ msg (.inl (reply msg sent))⟩
    · rw [round.stored]
      exact
        { promised := fun _ => promised
          accepted := fun _ => backed.accepted open_
          last := fun _ => backed.last open_
          ordered := fun _ => Nat.le_trans ordered (Nat.le_of_lt round.promised)
          proposed := fun ballot value known mine => Nat.le_trans (backed.proposed ballot value known mine) (Nat.le_of_lt round.above)
          chosen := fun marked => by rw [open_] at marked; cases marked }
    · apply alive_ok_some
      refine ⟨hinted_extends h _ i next moved.later round.hinted, fun _ _ => ?_, fun waiting => ?_⟩
      · refine ⟨fresh, Nat.le_of_eq promised.symm, fun ballot above _ => ?_, fun peer counted => ?_⟩
        · exact backed.last open_ ballot (Nat.lt_of_le_of_lt round.covered above)
        · rw [round.votes] at counted
          cases counted
      · rw [round.state] at waiting
        cases waiting
  · intro _ marked
    rw [round.stored, open_] at marked
    cases marked

theorem proposal_outcome (fast i : Fin 3) (h : History) (pins stored : PaxosInstance) (next : PInsAliveState) (value : Entry)
    (rsp : Option Message) (ledger : Ledger fast h) (backed : PinsBacked h i pins)
    (proposal : NewProposal h i pins stored next value)
    (safe : h.Safe next.propNumGen.get value ∧ lastFast < next.propNumGen.get ∨ next.propNumGen.get ≤ lastFast ∧ i = fast)
    (reply : ∀ msg, rsp = some msg → (msg.type = .accpt ∨ msg.type = .fastAccpt) ∧ msg.toId = none ∧
      msg.proposedNum = next.propNumGen.get ∧ msg.acceptedValue = next.proposingValue) :
    Outcome fast i h pins stored (some next) rsp := by
  have owns := hinted_owns h i next proposal.hinted
  have moved := moved_propose fast i h next.propNumGen.get value ledger proposal.fresh owns proposal.allowed safe
  have uncounted : ∀ peer, next.rspVotes peer ≠ some true := by
    intro peer counted
    rw [proposal.votes] at counted
    cases counted
  have notPreparing : next.propState ≠ .waitPrepare := by
    rw [proposal.state]
    decide
  constructor
  · apply alive_ok_some
    exact ⟨proposal.hinted, fun waiting => absurd waiting notPreparing, fun _ peer counted => absurd counted (uncounted peer)⟩
  · refine ⟨_, moved, ?_, ?_, ?_⟩
    · rw [proposal.stored]
      exact
        { promised := fun _ => by simp [Voting.cast]
          accepted := by
            intro _ num same
            cases same
            exact ⟨value, rfl, by simp [Voting.cast]⟩
          last := by
            intro _ low above
            have elsewhere : low ≠ next.propNumGen.get := Nat.ne_of_gt above
            simpa [Voting.cast, Voting.propose, elsewhere] using proposal.last low above
          ordered := fun _ => Nat.le_refl _
          proposed := by
            intro ballot seen known mine
            by_cases here : ballot = next.propNumGen.get
            · exact Nat.le_of_eq here
            · have before : h.proposal ballot = some seen := by simpa [Voting.cast, Voting.propose, here] using known
              exact Nat.le_trans (backed.proposed ballot seen before mine) proposal.above
          chosen := fun marked => by cases marked }
    · apply alive_ok_some
      exact ⟨hinted_extends h _ i next moved.later proposal.hinted, fun waiting => absurd waiting notPreparing,
        fun _ peer counted => absurd counted (uncounted peer)⟩
    · intro msg sent
      obtain ⟨type, everyone, number, carried⟩ := reply msg sent
      constructor
      · exact fun _ => everyone
      · intro kind
        rcases type with accpt | fastAccpt <;> simp [*] at kind
      · intro kind
        rcases type with accpt | fastAccpt <;> simp [*] at kind
      · intro kind
        rcases type with accpt | fastAccpt <;> simp [*] at kind
      · intro _ seen known
        rw [carried, proposal.held] at known
        cases known
        rw [number]
        simp [Voting.cast, Voting.propose]
      · intro kind
        rcases type with accpt | fastAccpt <;> simp [*] at kind
      · intro kind
        rcases type with accpt | fastAccpt <;> simp [*] at kind
  · intro _ marked
    rw [proposal.stored] at marked
    cases marked

theorem prop_rsp_message (fast i : Fin 3) (h : History) (pins : PaxosInstance) (alive : Option PInsAliveState) (msg reply : Message)
    (ledger : Ledger fast h) (backed : PinsBacked h i pins) (open_ : pins.chosen = false) (remote : msg.fromId ≠ i)
    (done : produceRsp i msg alive pins .propRsp = some (some reply)) : MessageBacked h reply := by
  obtain ⟨⟨_, paired⟩, kept⟩ := (asserting_some _ _ _).mp done
  cases kept
  constructor
  · intro kind
    simp at kind
  · intro _
    refine ⟨by simp, fun same => remote (Option.some.inj same)⟩
  · intro _
    cases known : pins.acceptedNum with
    | none => exact ⟨fun _ => rfl, fun value held => by simp at held⟩
    | some num =>
        obtain ⟨seen, held, _⟩ := backed.accepted open_ num known
        refine ⟨fun absent => by simp [held] at absent, fun value carried => ?_⟩
        exact accepted_proposal fast i h pins num value ledger backed open_ known (by simpa using carried)
  · intro _ exact_
    have promised := backed.promised open_
    refine ⟨?_, fun ballot above _ => backed.last open_ ballot above⟩
    dsimp only at exact_ ⊢
    rw [promised, ← exact_]
    exact Nat.le_refl _
  · intro kind
    simp at kind
  · intro kind
    simp at kind
  · intro kind
    cases kind

theorem accpt_rsp_message (i : Fin 3) (h : History) (pins : PaxosInstance) (alive : Option PInsAliveState) (msg reply : Message)
    (type : MessageType) (backed : PinsBacked h i pins) (open_ : pins.chosen = false) (remote : msg.fromId ≠ i)
    (kind : type = .accptRsp ∨ type = .fastAccptRsp) (done : produceRsp i msg alive pins type = some (some reply)) :
    MessageBacked h reply := by
  have shape : produceRsp.acceptRsp i msg pins type = some (some reply) := by
    rcases kind with rfl | rfl <;> exact done
  obtain ⟨_, kept⟩ := (asserting_some _ _ _).mp shape
  cases kept
  constructor
  · intro other
    rcases kind with rfl | rfl <;> simp at other
  · intro _
    exact ⟨by simp, fun same => remote (Option.some.inj same)⟩
  · intro other
    rcases kind with rfl | rfl <;> cases other
  · intro other
    rcases kind with rfl | rfl <;> cases other
  · intro other
    rcases kind with rfl | rfl <;> simp at other
  · intro _ positive equal absent
    dsimp only at positive equal absent
    have equal : pins.acceptedNum.getD 0 = msg.proposedNum := Option.some.inj equal
    cases known : pins.acceptedNum with
    | none =>
        rw [known] at equal
        exact absurd positive (by rw [← equal]; exact Nat.lt_irrefl 0)
    | some num =>
        obtain ⟨value, _, vote⟩ := backed.accepted open_ num known
        rw [known] at equal
        have equal : num = msg.proposedNum := equal
        rw [← equal, vote] at absent
        cases absent
  · intro other
    rcases kind with rfl | rfl <;> cases other

-- The acceptor's part of a step leaves the in-memory state alone.
theorem acceptor_outcome (fast i : Fin 3) (h next : History) (pins stored : PaxosInstance) (alive : Option PInsAliveState)
    (rsp : Option Message) (ok : AliveOk h i pins alive) (moved : Moved fast i h next) (proposals : next.proposal = h.proposal)
    (backed : PinsBacked next i stored) (same : stored.proposedNum = pins.proposedNum) (kept : stored.chosen = pins.chosen)
    (reply : ∀ msg, rsp = some msg → MessageBacked next msg) : Outcome fast i h pins stored alive rsp where
  failed := ok
  done := ⟨next, moved, backed, alive_extends h next i pins stored alive moved.later (fun _ _ => by rw [proposals]) same ok, reply⟩
  marked := by
    intro open_ marked
    rw [kept, open_] at marked
    cases marked

theorem promised_backed (fast i : Fin 3) (h : History) (pins stored : PaxosInstance) (num : Nat) (ledger : Ledger fast h)
    (backed : PinsBacked h i pins) (open_ : pins.chosen = false) (done : updatePromised num pins = some stored) :
    Moved fast i h (h.raise i num) ∧ PinsBacked (h.raise i num) i stored ∧ stored.proposedNum = pins.proposedNum ∧
      stored.chosen = pins.chosen := by
  obtain ⟨allowed, rfl⟩ := promised_spec num pins stored done
  have promised : (h.raise i num).promised i = num := by
    rw [← backed.promised open_] at allowed
    simp [Voting.raise, allowed]
  refine ⟨moved_raise fast i h num ledger, ?_, rfl, rfl⟩
  exact
    { promised := fun _ => promised
      accepted := fun _ => backed.accepted open_
      last := fun _ => backed.last open_
      ordered := fun _ => Nat.le_trans (backed.ordered open_) allowed
      proposed := backed.proposed
      chosen := fun marked => by rw [open_] at marked; cases marked }

theorem accepted_backed (fast i : Fin 3) (h : History) (pins stored : PaxosInstance) (num : Nat) (value : Entry) (quick : Bool)
    (ledger : Ledger fast h) (backed : PinsBacked h i pins) (open_ : pins.chosen = false) (proposed : h.proposal num = some value)
    (done : updateAccepted num value quick pins = some (some stored)) :
    Moved fast i h (h.cast i num value) ∧ PinsBacked (h.cast i num value) i stored ∧ stored.proposedNum = pins.proposedNum ∧
      stored.chosen = pins.chosen := by
  obtain ⟨allowed, rfl⟩ := accepted_spec num value quick pins stored done
  have ordered := backed.ordered open_
  have permitted : h.promised i ≤ num := by rw [backed.promised open_]; exact allowed
  refine ⟨moved_cast fast i h num value ledger proposed permitted, ?_, rfl, rfl⟩
  exact
    { promised := fun _ => by simp [Voting.cast]
      accepted := by
        intro _ other same
        cases same
        exact ⟨value, rfl, by simp [Voting.cast]⟩
      last := by
        intro _ low above
        have elsewhere : low ≠ num := Nat.ne_of_gt above
        have above : num < low := above
        have silent := backed.last open_ low (by omega)
        simpa [Voting.cast, elsewhere] using silent
      ordered := fun _ => Nat.le_refl _
      proposed := backed.proposed
      chosen := fun marked => by rw [open_] at marked; cases marked }

theorem learn_spec (value : Entry) (msg : Message) (pins stored : PaxosInstance) (write : Bool)
    (done : learn value msg pins = some (write, stored)) :
    stored.chosen = true ∧ stored.acceptedValue = some value ∧ pins.proposedNum ≤ stored.proposedNum := by
  unfold learn at done
  split at done
  · obtain ⟨held, kept⟩ := (asserting_some _ _ _).mp done
    cases kept
    exact ⟨rfl, held, Nat.le_refl _⟩
  · obtain ⟨gen, rolled, rest⟩ := Option.bind_eq_some_iff.mp done
    obtain ⟨promised, first, rest⟩ := Option.bind_eq_some_iff.mp rest
    obtain ⟨verdict, second, rest⟩ := Option.bind_eq_some_iff.mp rest
    obtain ⟨accepted, third, result⟩ := Option.map_eq_some_iff.mp rest
    cases result
    subst third
    have above := (PropNumGen.next_spec _ gen _ rolled).2
    obtain ⟨_, rfl⟩ := promised_spec _ _ _ first
    obtain ⟨_, rfl⟩ := accepted_spec _ _ _ _ _ second
    refine ⟨rfl, rfl, ?_⟩
    dsimp only
    omega

theorem marked_alive (h : History) (i : Fin 3) (pins stored : PaxosInstance) (alive : Option PInsAliveState) (ok : AliveOk h i pins alive) :
    AliveOk h i stored (alive.map markChosen) := by
  intro state known
  obtain ⟨before, same, rfl⟩ := Option.map_eq_some_iff.mp known
  have backed := ok before same
  apply idle_backed
  · exact ⟨backed.hinted.self, fun _ held => by cases held⟩
  · simp [markChosen]
  · simp [markChosen]

-- A server that learns or has found the chosen value.
theorem marked_outcome (fast i : Fin 3) (h : History) (pins stored : PaxosInstance) (alive : Option PInsAliveState)
    (rsp : Option Message) (value : Entry) (ballot : Nat) (ledger : Ledger fast h) (backed : PinsBacked h i pins)
    (ok : AliveOk h i pins alive) (marked : stored.chosen = true) (held : stored.acceptedValue = some value)
    (grown : pins.proposedNum ≤ stored.proposedNum) (chosen : h.Chosen ballot value)
    (reply : ∀ msg, rsp = some msg → msg.type = .chosen ∧ msg.acceptedValue = stored.acceptedValue) :
    Outcome fast i h pins stored (alive.map markChosen) rsp where
  failed := marked_alive h i pins pins alive ok
  done := by
    refine ⟨h, moved_refl fast i h ledger, ?_, marked_alive h i pins stored alive ok, ?_⟩
    · exact
        { promised := fun open_ => by rw [marked] at open_; cases open_
          accepted := fun open_ => by rw [marked] at open_; cases open_
          last := fun open_ => by rw [marked] at open_; cases open_
          ordered := fun open_ => by rw [marked] at open_; cases open_
          proposed := fun other seen known mine => Nat.le_trans (backed.proposed other seen known mine) grown
          chosen := fun _ => ⟨value, ballot, held, chosen⟩ }
    · intro msg sent
      obtain ⟨type, carried⟩ := reply msg sent
      apply chosen_message h msg type
      intro seen known
      rw [carried, held] at known
      cases known
      exact ⟨ballot, chosen⟩
  marked := by
    intro _ _ seen known
    rw [held] at known
    cases known
    exact ⟨ballot, chosen⟩

theorem silent_outcome (fast i : Fin 3) (h : History) (pins : PaxosInstance) (alive : Option PInsAliveState) (rsp : Option Message)
    (ledger : Ledger fast h) (backed : PinsBacked h i pins) (ok : AliveOk h i pins alive)
    (reply : ∀ msg, rsp = some msg → MessageBacked h msg) : Outcome fast i h pins pins alive rsp :=
  acceptor_outcome fast i h h pins pins alive rsp ok (moved_refl fast i h ledger) rfl backed rfl rfl reply

section

variable (fast i : Fin 3) (h : History) (msg : Message) (pins stored : PaxosInstance) (alive : Option PInsAliveState)
  (rsp : Option Message) (ledger : Ledger fast h) (backed : PinsBacked h i pins) (open_ : pins.chosen = false)
  (ok : AliveOk h i pins alive) (flight : MessageBacked h msg)

include ledger backed open_ ok in
theorem prop_outcome (remote : msg.fromId ≠ i) (verdict : updatePromised msg.proposedNum pins = some stored ∨ stored = pins)
    (done : produceRsp i msg alive stored .propRsp = some rsp) : Outcome fast i h pins stored alive rsp := by
  rcases verdict with promised | rfl
  · obtain ⟨moved, result, same, kept⟩ := promised_backed fast i h pins stored _ ledger backed open_ promised
    apply acceptor_outcome fast i h _ pins stored alive rsp ok moved rfl result same kept
    rintro reply rfl
    exact prop_rsp_message fast i _ stored alive msg reply moved.ledger result (kept.trans open_) remote done
  · apply silent_outcome fast i h stored alive rsp ledger backed ok
    rintro reply rfl
    exact prop_rsp_message fast i h stored alive msg reply ledger backed open_ remote done

include ledger backed open_ ok in
theorem accpt_outcome (type : MessageType) (quick : Bool) (value : Entry) (remote : msg.fromId ≠ i)
    (kind : type = .accptRsp ∨ type = .fastAccptRsp) (proposed : h.proposal msg.proposedNum = some value)
    (verdict : updateAccepted msg.proposedNum value quick pins = some (some stored) ∨ stored = pins)
    (done : produceRsp i msg alive stored type = some rsp) : Outcome fast i h pins stored alive rsp := by
  rcases verdict with accepted | rfl
  · obtain ⟨moved, result, same, kept⟩ := accepted_backed fast i h pins stored _ value quick ledger backed open_ proposed accepted
    apply acceptor_outcome fast i h _ pins stored alive rsp ok moved rfl result same kept
    rintro reply rfl
    exact accpt_rsp_message i _ stored alive msg reply type result (kept.trans open_) remote kind done
  · apply silent_outcome fast i h stored alive rsp ledger backed ok
    rintro reply rfl
    exact accpt_rsp_message i h stored alive msg reply type backed open_ remote kind done

theorem broadcast_reply (next : PInsAliveState) (type : MessageType) (reply : Message) (count : Bool)
    (done : produceRsp.broadcast i (some next) stored type count = some (some reply)) :
    count = true ∧ reply.type = type ∧ reply.toId = none ∧ reply.proposedNum = next.propNumGen.get ∧
      reply.acceptedValue = next.proposingValue ∧ stored.proposedNum = next.propNumGen.get := by
  obtain ⟨⟨_, _, _, number, _, counted⟩, kept⟩ := (asserting_some _ _ _).mp done
  cases kept
  exact ⟨counted, rfl, rfl, rfl, rfl, number⟩

theorem broadcast_some (next : PInsAliveState) (type : MessageType) (count : Bool)
    (done : produceRsp.broadcast i (some next) stored type count = some rsp) : ∃ reply, rsp = some reply := by
  obtain ⟨_, kept⟩ := (asserting_some _ _ _).mp done
  exact ⟨_, (Option.some.inj kept).symm⟩

include ledger backed open_ in
-- The reply of the proposer's part; for CHOSEN the caller still sets the mark.
theorem proposer_outcome (next : PInsAliveState) (type : MessageType) (quick : msg.type = .beginFastProp → i = fast)
    (result : AliveResult h i pins type next stored ∨ FastProposal h i msg pins stored type next)
    (done : produceRsp i msg (some next) stored type = some rsp) :
    Outcome fast i h pins (if type = .chosen then { stored with chosen := true } else stored)
      (if type = .chosen then some next.markChosen else some next) rsp := by
  rcases result with step | ⟨rfl, begin_, zero, value, proposal⟩
  · cases step with
    | idle _ kept =>
        cases done
        exact silent_outcome fast i h pins _ none ledger backed (alive_ok_some h i pins next kept) (fun _ sent => by cases sent)
    | round _ _ round =>
        apply round_outcome fast i h pins stored next rsp ledger backed open_ round
        rintro reply rfl
        obtain ⟨_, kept⟩ := (asserting_some _ _ _).mp done
        cases kept
        exact ⟨rfl, rfl⟩
    | propose _ _ value proposal safe =>
        obtain ⟨reply, rfl⟩ := broadcast_some i stored rsp next .accpt _ done
        obtain ⟨counted, type, everyone, number, carried, same⟩ := broadcast_reply i stored next .accpt reply _ done
        apply proposal_outcome fast i h pins stored next value _ ledger backed proposal
        · refine .inl ⟨safe, ?_⟩
          have counted : 0 < getPropCnt stored.proposedNum := of_decide_eq_true counted
          rw [same] at counted
          unfold getPropCnt propNumDecompose at counted
          unfold lastFast
          dsimp only at counted
          omega
        · rintro _ ⟨⟩
          exact ⟨.inl type, everyone, number, carried⟩
    | chosen _ value ballot hinted state held chosen =>
        have marked := marked_outcome fast i h pins { pins with chosen := true } (some next) rsp value ballot ledger backed
          (alive_ok_some h i pins next (idle_backed h i pins next hinted (by rw [state]; decide) (by rw [state]; decide)))
          rfl held (Nat.le_refl _) chosen
        apply marked
        rintro reply rfl
        obtain ⟨_, kept⟩ := (asserting_some _ _ _).mp done
        cases kept
        exact ⟨rfl, rfl⟩
  · obtain ⟨reply, rfl⟩ := broadcast_some i stored rsp next .fastAccpt _ done
    obtain ⟨_, type, everyone, number, carried, same⟩ := broadcast_reply i stored next .fastAccpt reply _ done
    apply proposal_outcome fast i h pins stored next value _ ledger backed proposal
    · refine .inr ⟨?_, quick begin_⟩
      rw [same] at zero
      unfold getPropCnt propNumDecompose at zero
      unfold lastFast
      dsimp only at zero
      omega
    · rintro _ ⟨⟩
      exact ⟨.inr type, everyone, number, carried⟩

-- Protocol messages come from another server; requests and CHOSEN need not.
def isProtocol (type : MessageType) : Bool :=
  type = .prop ∨ type = .accpt ∨ type = .fastAccpt ∨ type = .propRsp ∨ type = .accptRsp ∨ type = .fastAccptRsp

include ledger backed open_ ok flight in
theorem proposing_outcome {write write' : Bool} {type : MessageType} {middle next : Option PInsAliveState} {record : PaxosInstance}
    {reply : Option Message} (quick : msg.type = .beginFastProp → i = fast)
    (remote : msg.type = .propRsp ∨ msg.type = .accptRsp ∨ msg.type = .fastAccptRsp → msg.fromId ≠ i)
    (stepped : stepByType.proposing msg alive pins = some (write', type, middle, record))
    (produced : produceRsp i msg middle record type = some reply)
    (result : (if type = .chosen then (write', reply, middle.map markChosen, { record with chosen := true })
      else (write', reply, middle, record)) = (write, rsp, next, stored)) : Outcome fast i h pins stored next rsp := by
  cases known : alive with
  | none =>
      rw [known] at stepped
      cases stepped
      cases produced
      cases result
      exact silent_outcome fast i h pins none none ledger backed (fun _ absent => by cases absent) (fun _ sent => by cases sent)
  | some state =>
      rw [known] at stepped
      obtain ⟨⟨write'', type'', last, record'⟩, taken, shape⟩ := Option.map_eq_some_iff.mp stepped
      cases shape
      have move := alive_result fast i h state last msg pins record _ type ledger backed open_ (ok state known) flight remote taken
      have outcome := proposer_outcome fast i h msg pins record reply ledger backed open_ last type quick move produced
      split at result
      · rename_i chosen
        cases result
        simpa only [chosen, if_true, Option.map_some] using outcome
      · rename_i unchosen
        cases result
        simpa only [unchosen, if_false] using outcome

include ledger backed open_ ok flight in
theorem not_chosen_outcome (learnerOnly write : Bool) (next : Option PInsAliveState) (remote : isProtocol msg.type = true → msg.fromId ≠ i)
    (quick : msg.type = .beginFastProp → i = fast)
    (done : stepNotChosen learnerOnly i msg alive pins = some (write, rsp, next, stored)) :
    Outcome fast i h pins stored next rsp := by
  unfold stepNotChosen at done
  split at done
  · cases done
    exact silent_outcome fast i h pins alive none ledger backed ok (fun _ sent => by cases sent)
  · obtain ⟨⟨write', type, middle, record⟩, stepped, rest⟩ := Option.bind_eq_some_iff.mp done
    obtain ⟨reply, produced, result⟩ := Option.map_eq_some_iff.mp rest
    unfold stepByType at stepped
    cases kind : msg.type with
    | noop =>
        rw [kind] at stepped
        cases stepped
        cases produced
        cases result
        exact silent_outcome fast i h pins alive none ledger backed ok (fun _ sent => by cases sent)
    | getChosen =>
        rw [kind] at stepped
        cases stepped
        cases produced
        cases result
        exact silent_outcome fast i h pins alive none ledger backed ok (fun _ sent => by cases sent)
    | chosen =>
        rw [kind] at stepped
        obtain ⟨value, carried, learnt⟩ := Option.bind_eq_some_iff.mp stepped
        obtain ⟨⟨write'', record'⟩, marked, shape⟩ := Option.map_eq_some_iff.mp learnt
        cases shape
        cases produced
        cases result
        obtain ⟨mark, held, grown⟩ := learn_spec value msg pins stored _ marked
        obtain ⟨ballot, chosen⟩ := flight.chosen kind value carried
        exact marked_outcome fast i h pins stored alive none value ballot ledger backed ok mark held grown chosen (fun _ sent => by cases sent)
    | prop =>
        rw [kind] at stepped
        dsimp only at stepped
        cases verdict : updatePromised msg.proposedNum pins with
        | none =>
            rw [verdict] at stepped
            cases stepped
            cases result
            exact prop_outcome fast i h msg pins pins alive _ ledger backed open_ ok (remote (by simp [isProtocol, kind])) (.inr rfl) produced
        | some promised =>
            rw [verdict] at stepped
            cases stepped
            cases result
            exact prop_outcome fast i h msg pins _ alive _ ledger backed open_ ok (remote (by simp [isProtocol, kind])) (.inl verdict) produced
    | accpt =>
        rw [kind] at stepped
        obtain ⟨value, carried, rest⟩ := Option.bind_eq_some_iff.mp stepped
        obtain ⟨verdict, accepted, shape⟩ := Option.map_eq_some_iff.mp rest
        have proposed := flight.proposal (.inl kind) value carried
        cases verdict with
        | none =>
            cases shape
            cases result
            exact accpt_outcome fast i h msg pins pins alive _ ledger backed open_ ok _ false value (remote (by simp [isProtocol, kind]))
              (.inl rfl) proposed (.inr rfl) produced
        | some record' =>
            cases shape
            cases result
            exact accpt_outcome fast i h msg pins _ alive _ ledger backed open_ ok _ false value (remote (by simp [isProtocol, kind]))
              (.inl rfl) proposed (.inl accepted) produced
    | fastAccpt =>
        rw [kind] at stepped
        obtain ⟨value, carried, rest⟩ := Option.bind_eq_some_iff.mp stepped
        obtain ⟨verdict, accepted, shape⟩ := Option.map_eq_some_iff.mp rest
        have proposed := flight.proposal (.inr kind) value carried
        cases verdict with
        | none =>
            cases shape
            cases result
            exact accpt_outcome fast i h msg pins pins alive _ ledger backed open_ ok _ true value (remote (by simp [isProtocol, kind]))
              (.inr rfl) proposed (.inr rfl) produced
        | some record' =>
            cases shape
            cases result
            exact accpt_outcome fast i h msg pins _ alive _ ledger backed open_ ok _ true value (remote (by simp [isProtocol, kind]))
              (.inr rfl) proposed (.inl accepted) produced
    | _ =>
        rw [kind] at stepped
        apply proposing_outcome fast i h msg pins stored alive rsp ledger backed open_ ok flight quick _ stepped produced result
        intro _
        exact remote (by simp_all [isProtocol])

end

end PaxosStore.PaxosKv
