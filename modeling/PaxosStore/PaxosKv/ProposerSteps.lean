import PaxosStore.PaxosKv.Backing

set_option autoImplicit false

namespace PaxosStore.PaxosKv

open PaxosStore.Consensus PInsAliveState

-- The proposer turns to a new number, larger than any it stored before.
structure NewRound (h : History) (i : Fin 3) (pins stored : PaxosInstance) (next : PInsAliveState) : Prop where
  state : next.propState = .waitPrepare
  hinted : Hinted h i next
  votes : next.rspVotes = fun _ => none
  above : pins.proposedNum < next.propNumGen.get
  promised : pins.promisedNum.getD 0 < next.propNumGen.get
  covered : pins.acceptedNum.getD 0 ≤ next.maxAcceptedHintNum
  stored : stored = { pins with proposedNum := next.propNumGen.get, promisedNum := some next.propNumGen.get }

-- The proposer accepts a value under its own number and is about to send it.
structure NewProposal (h : History) (i : Fin 3) (pins stored : PaxosInstance) (next : PInsAliveState) (value : Entry) : Prop where
  state : next.propState = .waitAccept
  hinted : Hinted h i next
  votes : next.rspVotes = fun _ => none
  held : next.proposingValue = some value
  fresh : h.proposal next.propNumGen.get = none
  allowed : h.promised i ≤ next.propNumGen.get
  last : ∀ low, next.propNumGen.get < low → h.vote i low = none
  above : pins.proposedNum ≤ next.propNumGen.get
  stored : stored = ⟨next.propNumGen.get, some next.propNumGen.get, some next.propNumGen.get, some value, false⟩

-- What one step of the in-memory state amounts to, by the type of the reply.
inductive AliveResult (h : History) (i : Fin 3) (pins : PaxosInstance) :
    MessageType → PInsAliveState → PaxosInstance → Prop where
  | idle (next : PInsAliveState) (backed : AliveBacked h i pins next) : AliveResult h i pins .noop next pins
  | round (next : PInsAliveState) (stored : PaxosInstance) (round : NewRound h i pins stored next) :
      AliveResult h i pins .prop next stored
  | propose (next : PInsAliveState) (stored : PaxosInstance) (value : Entry) (proposal : NewProposal h i pins stored next value)
      (safe : h.Safe next.propNumGen.get value) : AliveResult h i pins .accpt next stored
  | chosen (next : PInsAliveState) (value : Entry) (ballot : Nat) (hinted : Hinted h i next) (state : next.propState = .chosen)
      (accepted : pins.acceptedValue = some value) (chosen : h.Chosen ballot value) : AliveResult h i pins .chosen next pins

theorem idle_backed (h : History) (i : Fin 3) (pins : PaxosInstance) (alive : PInsAliveState) (hinted : Hinted h i alive)
    (preparing : alive.propState ≠ .waitPrepare) (accepting : alive.propState ≠ .waitAccept) : AliveBacked h i pins alive :=
  ⟨hinted, fun waiting => absurd waiting preparing, fun waiting => absurd waiting accepting⟩

theorem accepted_proposal (fast i : Fin 3) (h : History) (pins : PaxosInstance) (num : Nat) (value : Entry) (ledger : Ledger fast h)
    (backed : PinsBacked h i pins) (open_ : pins.chosen = false) (known : pins.acceptedNum = some num)
    (held : pins.acceptedValue = some value) : h.proposal num = some value := by
  obtain ⟨seen, stored, voted⟩ := backed.accepted open_ num known
  rw [held] at stored
  cases stored
  exact ledger.sound.matched i num value voted

theorem own_hint_hinted (fast i : Fin 3) (h : History) (alive next : PInsAliveState) (pins : PaxosInstance)
    (ledger : Ledger fast h) (backed : PinsBacked h i pins) (open_ : pins.chosen = false) (hinted : Hinted h i alive)
    (same : next.propNumGen.selfid = alive.propNumGen.selfid) (own : OwnHint alive next pins) :
    Hinted h i next ∧ pins.acceptedNum.getD 0 ≤ next.maxAcceptedHintNum := by
  rcases own with ⟨num, known, _, hint, value⟩ | ⟨hint, value, covered⟩
  · refine ⟨⟨same.trans hinted.self, fun seen held _ => ?_⟩, by rw [known, hint]; exact Nat.le_refl _⟩
    rw [hint]
    exact accepted_proposal fast i h pins num seen ledger backed open_ known (value ▸ held)
  · refine ⟨⟨same.trans hinted.self, fun seen held positive => ?_⟩, by rw [hint]; exact covered⟩
    rw [hint] at positive ⊢
    exact hinted.hint seen (value ▸ held) positive

theorem prepare_result (fast i : Fin 3) (h : History) (alive next : PInsAliveState) (pins stored : PaxosInstance) (write : Bool)
    (type : MessageType) (ledger : Ledger fast h) (backed : PinsBacked h i pins) (open_ : pins.chosen = false)
    (hinted : Hinted h i alive) (done : alive.enterPrepare pins = some (write, type, next, stored)) :
    AliveResult h i pins type next stored := by
  rcases prepare_spec alive next pins stored write type done with
    ⟨rfl, rfl, state, gen, hint, value⟩ | ⟨rfl, state, self, above, promised, votes, own, result⟩
  · apply AliveResult.idle
    have kept : Hinted h i next := by
      refine ⟨by rw [gen]; exact hinted.self, fun seen held positive => ?_⟩
      rw [hint] at positive ⊢
      exact hinted.hint seen (value ▸ held) positive
    exact idle_backed h i _ next kept (by rw [state]; decide) (by rw [state]; decide)
  · obtain ⟨hintedNext, covered⟩ := own_hint_hinted fast i h alive next pins ledger backed open_ hinted self own
    exact AliveResult.round next stored ⟨state, hintedNext, votes, above, promised, covered, result⟩

theorem no_zero_vote (fast i : Fin 3) (h : History) (ledger : Ledger fast h) : h.vote i 0 = none := by
  cases voted : h.vote i 0 with
  | none => rfl
  | some value => exact absurd (ledger.owner 0 value (ledger.sound.matched i 0 value voted)).1 (Nat.lt_irrefl 0)

-- One counted promise and the own one are a majority of three.
theorem prepared_safe (fast i peer : Fin 3) (h : History) (alive : PInsAliveState) (value : Entry) (ledger : Ledger fast h)
    (hinted : Hinted h i alive) (prepared : Prepared h i alive) (counted : alive.rspVotes peer = some true)
    (held : alive.proposingValue = some value) : h.Safe alive.propNumGen.get value := by
  obtain ⟨other, reached, quiet⟩ := prepared.votes peer counted
  have major : Majority ({i, peer} : Finset (Fin 3)) := by
    rw [Majority, Fintype.card_fin, Finset.card_pair (Ne.symm other)]
  have members : ∀ a ∈ ({i, peer} : Finset (Fin 3)), alive.propNumGen.get ≤ h.promised a ∧
      Quiet h a alive.maxAcceptedHintNum alive.propNumGen.get := by
    intro a member
    rcases Finset.mem_insert.mp member with rfl | last
    · exact ⟨prepared.reached, prepared.quiet⟩
    · rw [Finset.mem_singleton.mp last]
      exact ⟨reached, quiet⟩
  by_cases unhinted : alive.maxAcceptedHintNum = 0
  · apply Voting.safe_of_unvoted h _ _ value major (fun a member => (members a member).1)
    intro a member low below
    by_cases zero : low = 0
    · subst zero
      exact no_zero_vote fast a h ledger
    · exact (members a member).2 low (by omega) below
  · exact Voting.safe_of_highest lastFast h ledger.sound _ _ _ value major (fun a member => (members a member).1)
      (hinted.hint value held (Nat.pos_of_ne_zero unhinted)) (fun a member => (members a member).2)

theorem accept_result (fast i peer : Fin 3) (h : History) (alive next : PInsAliveState) (pins stored : PaxosInstance) (write : Bool)
    (type : MessageType) (ledger : Ledger fast h) (backed : PinsBacked h i pins) (open_ : pins.chosen = false)
    (hinted : Hinted h i alive) (number : alive.propNumGen.get = pins.proposedNum) (prepared : Prepared h i alive)
    (counted : alive.rspVotes peer = some true) (done : alive.enterAccept pins = some (write, type, next, stored)) :
    AliveResult h i pins type next stored := by
  rcases accept_spec alive next pins stored write type done with ⟨state, again⟩ | ⟨rfl, value, held, allowed, rfl, rfl⟩
  · exact prepare_result fast i h _ next pins stored write type ledger backed open_ ⟨hinted.self, hinted.hint⟩ again
  · have promised : h.promised i ≤ alive.propNumGen.get := by
      rw [backed.promised open_]
      exact allowed
    have ordered := backed.ordered open_
    refine AliveResult.propose _ _ value ?_ (prepared_safe fast i peer h alive value ledger hinted prepared counted held)
    exact
      { state := rfl
        hinted := ⟨hinted.self, hinted.hint⟩
        votes := rfl
        held := held
        fresh := prepared.fresh
        allowed := promised
        last := fun low above => backed.last open_ low (by dsimp only at above; omega)
        above := Nat.le_of_eq number.symm
        stored := by
          rw [number]
          cases pins
          cases open_
          rfl }

theorem prepare_rsp_prepared (i : Fin 3) (h : History) (alive next : PInsAliveState) (msg : Message) (state : PropState)
    (hinted : Hinted h i alive) (prepared : Prepared h i alive) (number : alive.propNumGen.get = msg.proposedNum)
    (type : msg.type = .propRsp) (flight : MessageBacked h msg) (remote : msg.fromId ≠ i)
    (done : alive.stepPrepareRsp msg.fromId (msg.promisedNum.getD 0) (msg.acceptedNum.getD 0) msg.acceptedValue = some (state, next)) :
    Hinted h i next ∧ Prepared h i next ∧ next.propNumGen = alive.propNumGen ∧
      (state = .prepare ∨ state = .accept ∧ (∃ peer, next.rspVotes peer = some true) ∨ state = .waitPrepare) := by
  obtain ⟨_, rest⟩ := (asserting_some _ _ _).mp done
  obtain ⟨votes, updated, rest⟩ := Option.bind_eq_some_iff.mp rest
  obtain ⟨taken, hint, result⟩ := Option.map_eq_some_iff.mp rest
  obtain ⟨absent, valid⟩ := flight.hint type
  -- A counted answer promised exactly this number and voted at most up to the new hint.
  have counted : ∀ peer, votes peer = some true → alive.rspVotes peer = some true ∨
      peer ≠ i ∧ alive.propNumGen.get ≤ h.promised peer ∧ Quiet h peer (msg.acceptedNum.getD 0) alive.propNumGen.get := by
    intro peer vote
    rcases votes_spec _ _ _ _ updated peer vote with old | ⟨rfl, equal⟩
    · exact .inl old
    · have exact_ : alive.propNumGen.get = msg.promisedNum.getD 0 := of_decide_eq_true equal
      obtain ⟨reached, quiet⟩ := flight.promise type (exact_.symm.trans number)
      rw [number]
      exact .inr ⟨remote, reached, quiet⟩
  have spec : Hinted h i taken ∧ taken.propNumGen = alive.propNumGen ∧ taken.rspVotes = votes ∧
      alive.maxAcceptedHintNum ≤ taken.maxAcceptedHintNum ∧ msg.acceptedNum.getD 0 ≤ taken.maxAcceptedHintNum := by
    rcases hint_spec _ taken _ _ hint with ⟨rfl, covered⟩ | ⟨above, present, rfl⟩
    · refine ⟨⟨hinted.self, hinted.hint⟩, rfl, rfl, Nat.le_refl _, ?_⟩
      cases value : msg.acceptedValue with
      | none =>
          rw [absent value]
          exact Nat.zero_le _
      | some entry => exact covered (by rw [value]; rfl)
    · refine ⟨⟨hinted.self, fun value held _ => valid value held⟩, rfl, rfl, Nat.le_of_lt above, Nat.le_refl _⟩
  obtain ⟨hintedNext, sameGen, sameVotes, grown, covered⟩ := spec
  have preparedNext : Prepared h i taken := by
    refine ⟨by rw [sameGen]; exact prepared.fresh, by rw [sameGen]; exact prepared.reached, ?_, ?_⟩
    · rw [sameGen]
      exact quiet_raise h i _ _ _ grown prepared.quiet
    · intro peer vote
      rw [sameGen]
      rw [sameVotes] at vote
      rcases counted peer vote with old | ⟨other, reached, quiet⟩
      · obtain ⟨other, reached, quiet⟩ := prepared.votes peer old
        exact ⟨other, reached, quiet_raise h peer _ _ _ grown quiet⟩
      · exact ⟨other, reached, quiet_raise h peer _ _ _ covered quiet⟩
  split at result
  · cases result
    exact ⟨hintedNext, preparedNext, sameGen, .inl rfl⟩
  · split at result
    · rename_i enough
      cases result
      obtain ⟨peer, vote⟩ := count_positive votes true (by unfold majorCnt at enough; omega)
      exact ⟨hintedNext, preparedNext, sameGen, .inr (.inl ⟨rfl, peer, by rw [sameVotes]; exact vote⟩)⟩
    · cases result
      exact ⟨hintedNext, preparedNext, sameGen, .inr (.inr rfl)⟩

theorem prop_rsp_result (fast i : Fin 3) (h : History) (alive next : PInsAliveState) (msg : Message) (pins stored : PaxosInstance)
    (write : Bool) (type : MessageType) (ledger : Ledger fast h) (backed : PinsBacked h i pins) (open_ : pins.chosen = false)
    (ok : AliveBacked h i pins alive) (kind : msg.type = .propRsp) (flight : MessageBacked h msg) (remote : msg.fromId ≠ i)
    (done : alive.stepPropRsp msg pins = some (write, type, next, stored)) : AliveResult h i pins type next stored := by
  obtain ⟨_, rest⟩ := (asserting_some _ _ _).mp done
  split at rest
  · cases rest
    exact AliveResult.idle alive ok
  · rename_i current
    obtain ⟨waiting, number⟩ := not_or.mp current
    have waiting : alive.propState = .waitPrepare := not_not.mp waiting
    have number : pins.proposedNum = msg.proposedNum := not_not.mp number
    obtain ⟨⟨state, middle⟩, stepped, rest⟩ := Option.bind_eq_some_iff.mp rest
    obtain ⟨⟨write', type', next', stored'⟩, entered, rest⟩ := Option.bind_eq_some_iff.mp rest
    obtain ⟨_, kept⟩ := (asserting_some _ _ _).mp rest
    cases kept
    split at stepped
    · -- The number was never stored: the phase starts over.
      obtain ⟨_, redo⟩ := (asserting_some _ _ _).mp stepped
      cases redo
      exact prepare_result fast i h alive next pins stored write type ledger backed open_ ok.hinted entered
    · rename_i same
      have same : alive.propNumGen.get = msg.proposedNum := not_not.mp same
      have prepared := ok.preparing waiting (same.trans number.symm)
      obtain ⟨hinted, preparedNext, sameGen, verdict⟩ :=
        prepare_rsp_prepared i h alive middle msg state ok.hinted prepared same kind flight remote stepped
      rcases verdict with rfl | ⟨rfl, peer, counted⟩ | rfl
      · exact prepare_result fast i h middle next pins stored write type ledger backed open_ hinted entered
      · have stored_ : middle.propNumGen.get = pins.proposedNum := by rw [sameGen]; exact same.trans number.symm
        exact accept_result fast i peer h middle next pins stored write type ledger backed open_ hinted stored_ preparedNext counted entered
      · cases entered
        apply AliveResult.idle
        refine ⟨⟨hinted.self, hinted.hint⟩, fun _ _ => ?_, fun impossible => by cases impossible⟩
        exact ⟨preparedNext.fresh, preparedNext.reached, preparedNext.quiet, preparedNext.votes⟩

theorem accept_rsp_spec (alive next : PInsAliveState) (peer : Fin 3) (num : Nat) (state : PropState)
    (done : alive.stepAcceptRsp peer num = some (state, next)) :
    (∀ voter, next.rspVotes voter = some true → alive.rspVotes voter = some true ∨ voter = peer ∧ alive.propNumGen.get = num) ∧
      next = { alive with rspVotes := next.rspVotes } ∧
      (state = .prepare ∨ state = .chosen ∧ (∃ voter, next.rspVotes voter = some true) ∨ state = .waitAccept) := by
  obtain ⟨_, rest⟩ := (asserting_some _ _ _).mp done
  obtain ⟨votes, updated, result⟩ := Option.map_eq_some_iff.mp rest
  have counted : ∀ voter, votes voter = some true → alive.rspVotes voter = some true ∨ voter = peer ∧ alive.propNumGen.get = num := by
    intro voter vote
    exact (votes_spec _ _ _ _ updated voter vote).imp_right fun ⟨same, equal⟩ => ⟨same, of_decide_eq_true equal⟩
  split at result
  · cases result
    exact ⟨counted, rfl, .inl rfl⟩
  · split at result
    · rename_i enough
      cases result
      obtain ⟨voter, vote⟩ := count_positive votes true (by unfold majorCnt at enough; omega)
      exact ⟨counted, rfl, .inr (.inl ⟨rfl, voter, vote⟩)⟩
    · cases result
      exact ⟨counted, rfl, .inr (.inr rfl)⟩

-- A peer's vote for the own number makes a majority with the own vote; a later
-- value the server accepted in the meantime is the same one.
theorem voted_chosen (fast i voter : Fin 3) (h : History) (pins : PaxosInstance) (ballot num : Nat) (value : Entry)
    (ledger : Ledger fast h) (backed : PinsBacked h i pins) (open_ : pins.chosen = false) (owns : Owns i ballot)
    (other : voter ≠ i) (voted : h.vote voter ballot ≠ none) (known : pins.acceptedNum = some num)
    (held : pins.acceptedValue = some value) (above : ballot ≤ num) : h.Chosen ballot value := by
  obtain ⟨seen, vote⟩ := Option.ne_none_iff_exists'.mp voted
  have proposed := ledger.sound.matched voter ballot seen vote
  have own := (ledger.owner ballot seen proposed).2 i owns
  have chosen : h.Chosen ballot seen := by
    refine ⟨{i, voter}, ?_, ?_⟩
    · rw [Majority, Fintype.card_fin, Finset.card_pair (Ne.symm other)]
    · intro a member
      rcases Finset.mem_insert.mp member with rfl | last
      · exact own
      · rw [Finset.mem_singleton.mp last]
        exact vote
  have accepted := accepted_proposal fast i h pins num value ledger backed open_ known held
  have equal : seen = value := by
    rcases Nat.lt_or_eq_of_le above with less | same
    · exact Voting.chosen_below lastFast h ledger.sound ballot num seen value less chosen accepted
    · rw [same] at proposed
      exact Option.some.inj (proposed.symm.trans accepted)
  exact equal ▸ chosen

-- The largest number heard of is only a hint for later rounds.
theorem result_hint (i : Fin 3) (h : History) (next : PInsAliveState) (pins stored : PaxosInstance) (type : MessageType) (num : Nat)
    (result : AliveResult h i pins type next stored) : AliveResult h i pins type { next with maxHintNum := num } stored := by
  cases result with
  | idle _ kept =>
      apply AliveResult.idle
      refine ⟨⟨kept.hinted.self, kept.hinted.hint⟩, fun state number => ?_, kept.accepting⟩
      have prepared := kept.preparing state number
      exact ⟨prepared.fresh, prepared.reached, prepared.quiet, prepared.votes⟩
  | round _ _ round =>
      apply AliveResult.round
      exact ⟨round.state, ⟨round.hinted.self, round.hinted.hint⟩, round.votes, round.above, round.promised, round.covered, round.stored⟩
  | propose _ _ value proposal safe =>
      refine AliveResult.propose _ _ value ?_ safe
      exact ⟨proposal.state, ⟨proposal.hinted.self, proposal.hinted.hint⟩, proposal.votes, proposal.held, proposal.fresh,
        proposal.allowed, proposal.last, proposal.above, proposal.stored⟩
  | chosen _ value ballot hinted state accepted chosen =>
      exact AliveResult.chosen _ value ballot ⟨hinted.self, hinted.hint⟩ state accepted chosen

theorem accpt_rsp_result (fast i : Fin 3) (h : History) (alive next : PInsAliveState) (msg : Message) (pins stored : PaxosInstance)
    (write : Bool) (type : MessageType) (ledger : Ledger fast h) (backed : PinsBacked h i pins) (open_ : pins.chosen = false)
    (ok : AliveBacked h i pins alive) (kind : msg.type = .accptRsp ∨ msg.type = .fastAccptRsp) (flight : MessageBacked h msg)
    (remote : msg.fromId ≠ i) (done : alive.stepAccptRsp msg pins = some (write, type, next, stored)) :
    AliveResult h i pins type next stored := by
  obtain ⟨_, rest⟩ := (asserting_some _ _ _).mp done
  split at rest
  · cases rest
    exact AliveResult.idle alive ok
  · rename_i current
    have waiting : alive.propState = .waitAccept := not_not.mp (not_or.mp current).1
    obtain ⟨⟨number, present, _⟩, rest⟩ := (asserting_some _ _ _).mp rest
    obtain ⟨⟨state, middle⟩, stepped, rest⟩ := Option.bind_eq_some_iff.mp rest
    obtain ⟨check, rest⟩ := (asserting_some _ _ _).mp rest
    obtain ⟨⟨write', type', last, stored'⟩, entered, result⟩ := Option.map_eq_some_iff.mp rest
    cases result
    obtain ⟨counted, shape, verdict⟩ := accept_rsp_spec alive middle msg.fromId _ state stepped
    have owns := hinted_owns h i alive ok.hinted
    have sameGen : middle.propNumGen = alive.propNumGen := by rw [shape]
    have hinted : Hinted h i middle := by
      rw [shape]
      exact ⟨ok.hinted.self, ok.hinted.hint⟩
    have votes : ∀ voter, middle.rspVotes voter = some true → voter ≠ i ∧ h.vote voter alive.propNumGen.get ≠ none := by
      intro voter vote
      rcases counted voter vote with old | ⟨rfl, equal⟩
      · exact ok.accepting waiting voter old
      · refine ⟨remote, ?_⟩
        rw [number]
        apply flight.vote kind (number ▸ owned_positive i _ owns)
        obtain ⟨num, known⟩ := Option.isSome_iff_exists.mp present
        rw [known] at equal ⊢
        exact congrArg some (equal.symm.trans number)
    rcases verdict with rfl | ⟨rfl, voter, vote⟩ | rfl
    · have result := prepare_result fast i h middle last pins stored write type ledger backed open_ hinted entered
      exact result_hint i h last pins stored type _ result
    · cases entered
      obtain ⟨_, reached, equal⟩ := check rfl
      obtain ⟨other, voted⟩ := votes voter vote
      cases known : pins.acceptedNum with
      | none =>
          rw [known] at reached
          have positive := owned_positive i _ owns
          rw [number] at positive
          exact absurd reached (Nat.not_le_of_lt positive)
      | some num =>
          rw [known] at reached
          obtain ⟨value, held, _⟩ := backed.accepted open_ num known
          have chosen := voted_chosen fast i voter h pins _ num value ledger backed open_ owns other voted known held (number ▸ reached)
          refine AliveResult.chosen _ value _ ⟨hinted.self, ?_⟩ rfl held chosen
          intro seen impossible
          cases impossible
    · cases entered
      apply AliveResult.idle
      refine ⟨⟨hinted.self, hinted.hint⟩, fun impossible => (by cases impossible), fun _ voter vote => ?_⟩
      have result := votes voter vote
      rw [← sameGen] at result
      exact result

theorem try_result (fast i : Fin 3) (h : History) (alive next : PInsAliveState) (msg : Message) (pins stored : PaxosInstance)
    (write : Bool) (type : MessageType) (ledger : Ledger fast h) (backed : PinsBacked h i pins) (open_ : pins.chosen = false)
    (ok : AliveBacked h i pins alive) (done : alive.stepTry msg pins = some (write, type, next, stored)) :
    AliveResult h i pins type next stored := by
  unfold stepTry at done
  split at done
  · cases done
  · obtain ⟨⟨state, middle⟩, stepped, rest⟩ := Option.bind_eq_some_iff.mp done
    obtain ⟨gen, updated, result⟩ := Option.map_eq_some_iff.mp stepped
    cases result
    obtain ⟨⟨write', type', last, stored'⟩, entered, rest⟩ := Option.bind_eq_some_iff.mp rest
    obtain ⟨_, kept⟩ := (asserting_some _ _ _).mp rest
    cases kept
    have self := (PropNumGen.update_spec _ gen _ updated).1
    rw [updatePropState] at entered
    apply prepare_result fast i h _ next pins stored write type ledger backed open_ _ entered
    exact ⟨self.trans ok.hinted.self, fun _ _ positive => absurd positive (Nat.lt_irrefl 0)⟩

-- A proposal under a number with count 0, without a prepare phase.
def FastProposal (h : History) (i : Fin 3) (msg : Message) (pins stored : PaxosInstance) (type : MessageType)
    (next : PInsAliveState) : Prop :=
  type = .fastAccpt ∧ msg.type = .beginFastProp ∧ getPropCnt stored.proposedNum = 0 ∧
    ∃ value, NewProposal h i pins stored next value

-- Before its first promise a server has neither voted nor proposed.
theorem fast_proposal (fast i : Fin 3) (h : History) (waiting next : PInsAliveState) (pins promised stored : PaxosInstance)
    (write : Bool) (ledger : Ledger fast h) (backed : PinsBacked h i pins) (open_ : pins.chosen = false)
    (unaccepted : pins.acceptedNum = none) (round : NewRound h i pins promised waiting)
    (done : waiting.enterAccept promised = some (write, .accpt, next, stored)) :
    ∃ value, NewProposal h i pins stored next value := by
  have owns := hinted_owns h i waiting round.hinted
  have silent : ∀ low, 0 < low → h.vote i low = none := by
    intro low positive
    exact backed.last open_ low (by rw [unaccepted]; exact positive)
  rcases accept_spec waiting next promised stored write _ done with ⟨_, again⟩ | ⟨_, value, held, _, rfl, rfl⟩
  · rcases prepare_spec _ _ _ _ _ _ again with ⟨noop, _⟩ | ⟨prop, _⟩
    · cases noop
    · cases prop
  · refine ⟨value, ?_⟩
    exact
      { state := rfl
        hinted := ⟨round.hinted.self, round.hinted.hint⟩
        votes := rfl
        held := held
        fresh := by
          cases known : h.proposal waiting.propNumGen.get with
          | none => rfl
          | some old =>
              have voted := (ledger.owner _ old known).2 i owns
              rw [silent _ (owned_positive i _ owns)] at voted
              cases voted
        allowed := by
          rw [backed.promised open_]
          exact Nat.le_of_lt round.promised
        last := fun low above => silent low (Nat.lt_of_le_of_lt (Nat.zero_le _) above)
        above := Nat.le_of_lt round.above
        stored := by
          rw [round.stored]
          cases pins
          cases open_
          rfl }

theorem begin_result (fast i : Fin 3) (h : History) (alive next : PInsAliveState) (msg : Message) (pins stored : PaxosInstance)
    (write : Bool) (type : MessageType) (ledger : Ledger fast h) (backed : PinsBacked h i pins) (open_ : pins.chosen = false)
    (ok : AliveBacked h i pins alive) (done : alive.stepBegin msg pins = some (write, type, next, stored)) :
    AliveResult h i pins type next stored ∨ FastProposal h i msg pins stored type next := by
  obtain ⟨⟨_, _, unhinted⟩, rest⟩ := (asserting_some _ _ _).mp done
  cases carried : msg.acceptedValue with
  | none => simp [carried] at rest
  | some value =>
      simp only [carried] at rest
      split at rest
      · cases rest
        exact .inl (AliveResult.idle alive ok)
      · obtain ⟨⟨_, unaccepted, _⟩, rest⟩ := (asserting_some _ _ _).mp rest
        obtain ⟨⟨state, middle⟩, stepped, rest⟩ := Option.bind_eq_some_iff.mp rest
        obtain ⟨_, stepped⟩ := (asserting_some _ _ _).mp stepped
        obtain ⟨gen, updated, stepped⟩ := Option.bind_eq_some_iff.mp stepped
        obtain ⟨_, result⟩ := (asserting_some _ _ _).mp stepped
        cases result
        obtain ⟨⟨firstWrite, firstType, waiting, promised⟩, entered, rest⟩ := Option.bind_eq_some_iff.mp rest
        obtain ⟨⟨_, kind, _⟩, rest⟩ := (asserting_some _ _ _).mp rest
        have kind : firstType = .prop := kind
        subst kind
        have self := (PropNumGen.update_spec _ gen _ updated).1
        have hinted : Hinted h i { alive with propNumGen := gen, proposingValue := some value } := by
          refine ⟨self.trans ok.hinted.self, fun _ _ positive => ?_⟩
          rw [unhinted] at positive
          exact absurd positive (Nat.lt_irrefl 0)
        have first := prepare_result fast i h _ waiting pins promised firstWrite .prop ledger backed open_ hinted entered
        cases first with
        | round _ _ round =>
            split at rest
            · rename_i fastType
              obtain ⟨⟨lastWrite, lastType, last, stored'⟩, accepted, rest⟩ := Option.bind_eq_some_iff.mp rest
              obtain ⟨⟨_, lastKind, zero⟩, kept⟩ := (asserting_some _ _ _).mp rest
              have lastKind : lastType = .accpt := lastKind
              subst lastKind
              cases kept
              exact .inr ⟨rfl, fastType, zero, fast_proposal fast i h waiting _ pins promised _ _ ledger backed open_
                unaccepted round accepted⟩
            · cases rest
              exact .inl (AliveResult.round _ _ round)

theorem alive_result (fast i : Fin 3) (h : History) (alive next : PInsAliveState) (msg : Message) (pins stored : PaxosInstance)
    (write : Bool) (type : MessageType) (ledger : Ledger fast h) (backed : PinsBacked h i pins) (open_ : pins.chosen = false)
    (ok : AliveBacked h i pins alive) (flight : MessageBacked h msg)
    (remote : msg.type = .propRsp ∨ msg.type = .accptRsp ∨ msg.type = .fastAccptRsp → msg.fromId ≠ i)
    (done : alive.step msg pins = some (write, type, next, stored)) :
    AliveResult h i pins type next stored ∨ FastProposal h i msg pins stored type next := by
  obtain ⟨_, rest⟩ := (asserting_some _ _ _).mp done
  cases kind : msg.type with
  | propRsp =>
      simp only [kind] at rest
      exact .inl (prop_rsp_result fast i h alive next msg pins stored write type ledger backed open_ ok kind flight
        (remote (.inl kind)) rest)
  | accptRsp =>
      simp only [kind] at rest
      exact .inl (accpt_rsp_result fast i h alive next msg pins stored write type ledger backed open_ ok (.inl kind) flight
        (remote (.inr (.inl kind))) rest)
  | fastAccptRsp =>
      simp only [kind] at rest
      exact .inl (accpt_rsp_result fast i h alive next msg pins stored write type ledger backed open_ ok (.inr kind) flight
        (remote (.inr (.inr kind))) rest)
  | tryProp =>
      simp only [kind] at rest
      exact .inl (try_result fast i h alive next msg pins stored write type ledger backed open_ ok rest)
  | tryRedoProp =>
      simp only [kind] at rest
      exact .inl (try_result fast i h alive next msg pins stored write type ledger backed open_ ok rest)
  | beginProp =>
      simp only [kind] at rest
      exact begin_result fast i h alive next msg pins stored write type ledger backed open_ ok rest
  | beginFastProp =>
      simp only [kind] at rest
      exact begin_result fast i h alive next msg pins stored write type ledger backed open_ ok rest
  | noop => simp [kind] at rest
  | prop => simp [kind] at rest
  | accpt => simp [kind] at rest
  | chosen => simp [kind] at rest
  | fastAccpt => simp [kind] at rest
  | getChosen => simp [kind] at rest

end PaxosStore.PaxosKv
