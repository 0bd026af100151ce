import PaxosStore.PaxosKv.Orderly

set_option autoImplicit false

namespace PaxosStore.PaxosKv

open PaxosStore.Consensus PInsAliveState

-- A request the server has said yes to, while it could no longer do so now.
def Stale (s : Servers) (i : Fin 3) (msg : Message) : Prop :=
  (s.server i).pins.chosen = false ∧
    (msg.type = .prop ∧ msg.proposedNum < (s.server i).pins.promisedNum.getD 0 ∧
        (∃ rsp ∈ s.sent, rsp.type = .propRsp ∧ rsp.fromId = i ∧ rsp.proposedNum = msg.proposedNum ∧ verdict rsp = true) ∨
      isProposal msg.type = true ∧ (s.server i).pins.acceptedNum ≠ some msg.proposedNum ∧
        ∃ rsp ∈ s.sent, isVote rsp.type = true ∧ rsp.fromId = i ∧ rsp.proposedNum = msg.proposedNum ∧ verdict rsp = true)

theorem silent_fine (s : Servers) (i : Fin 3) (orderly : Orderly s) : Fine s i none (s.server i).alive (s.server i).pins :=
  ⟨orderly.pins i, grows_refl _, orderly.alive i, fun _ wrong => by cases wrong⟩

theorem chosen_complete (pins : PaxosInstance) (formed : Formed pins) (marked : pins.chosen = true) :
    pins.promisedNum.isSome = true ∧ pins.acceptedNum.isSome = true ∧ pins.acceptedValue.isSome = true := by
  have accepted := formed.chosen marked
  obtain ⟨num, known⟩ := Option.isSome_iff_exists.mp accepted
  obtain ⟨promised, held, _⟩ := formed.ordered num known
  exact ⟨by rw [held]; rfl, accepted, formed.valued ▸ accepted⟩

-- The CHOSEN message of a server that has the value.
theorem chosen_answered (s : Servers) (i : Fin 3) (stored : PaxosInstance) (rsp : Message) (kind : rsp.type = .chosen)
    (sender : rsp.fromId = i) (target : rsp.toId ≠ some i) (valued : rsp.acceptedValue.isSome = true)
    (number : Rolled i rsp.proposedNum) : Answered s i stored rsp where
  sender := sender
  orderly := by
    constructor
    · rw [kind]
      rfl
    · rintro (wrong | wrong)
      · rw [kind] at wrong
        cases wrong
      · simp [kind, isProposal] at wrong
    · exact fun _ => valued
    · intro wrong
      rw [kind] at wrong
      cases wrong
    · intro wrong
      rw [kind] at wrong
      cases wrong
    · intro wrong
      simp [kind, isVote] at wrong
    · exact fun _ => ⟨sender ▸ target, sender ▸ number⟩
  consistent := by
    constructor
    · intro wrong
      rw [kind] at wrong
      cases wrong
    · intro wrong
      simp [kind, isVote] at wrong
  agree := by
    rintro old _ ⟨_, _, promises | votes⟩
    · rw [kind] at promises
      cases promises.2
    · simp [kind, isVote] at votes

theorem chosen_pins_run (fast : Fin 3) (h : History) (s : Servers) (i : Fin 3) (msg : Message) (learnerOnly : Bool) (orderly : Orderly s)
    (backed : Backed fast h s) (flight : MessageBacked h msg) (remote : msg.type ≠ .chosen → Servers.isRequest msg.type = false ∨
      msg.type = .getChosen → msg.fromId ≠ i) (marked : (s.server i).pins.chosen = true) :
    ∃ rsp, wrapperStep learnerOnly i msg (s.server i).alive (s.server i).pins = some (false, rsp, (s.server i).alive, (s.server i).pins) ∧
      Fine s i rsp (s.server i).alive (s.server i).pins := by
  have complete := chosen_complete _ (orderly.pins i).formed marked
  rw [wrapperStep, if_pos marked, stepChosen, asserting_pos _ _ complete]
  have reply (rsp : Message) (kind : rsp.type = .chosen) (sender : rsp.fromId = i) (target : rsp.toId ≠ some i)
      (valued : rsp.acceptedValue.isSome = true) (number : Rolled i rsp.proposedNum) :
      Fine s i (some rsp) (s.server i).alive (s.server i).pins := by
    refine ⟨orderly.pins i, grows_refl _, fun state present going => ?_, fun msg same => ?_⟩
    · apply alive_sent s.sent (some rsp) i _ state _ (orderly.alive i state present going)
      rintro msg same proposal
      cases same
      simp [kind, isProposal] at proposal
    · cases same
      exact chosen_answered s i _ rsp kind sender target valued number
  have answer (away : msg.fromId ≠ i) := reply
    { type := .chosen, fromId := i, toId := some msg.fromId, proposedNum := (s.server i).pins.proposedNum
      promisedNum := (s.server i).pins.promisedNum, acceptedNum := (s.server i).pins.acceptedNum
      acceptedValue := (s.server i).pins.acceptedValue } rfl rfl (fun same => away (Option.some.inj same)) complete.2.2
    (orderly.pins i).proposed
  have silent : Fine s i none (s.server i).alive (s.server i).pins := silent_fine s i orderly
  cases kind : msg.type
  case chosen =>
    refine ⟨none, ?_, silent⟩
    dsimp only
    rw [asserting_pos _ _ (fun held => ?_)]
    · rfl
    · obtain ⟨value, ballot, mine, chosen⟩ := (backed.pins i).chosen marked
      obtain ⟨seen, here⟩ := Option.isSome_iff_exists.mp held
      obtain ⟨other, chosenToo⟩ := flight.chosen kind seen here
      rw [here, mine, Voting.chosen_agree lastFast h backed.ledger.sound other ballot seen value chosenToo chosen]
  case getChosen => exact ⟨_, rfl, answer (remote (by simp [kind]) (.inr kind))⟩
  case prop => exact ⟨_, rfl, answer (remote (by simp [kind]) (.inl (by simp [kind, Servers.isRequest])))⟩
  case accpt => exact ⟨_, rfl, answer (remote (by simp [kind]) (.inl (by simp [kind, Servers.isRequest])))⟩
  case fastAccpt => exact ⟨_, rfl, answer (remote (by simp [kind]) (.inl (by simp [kind, Servers.isRequest])))⟩
  all_goals exact ⟨none, rfl, silent⟩

theorem wrapper_run (learnerOnly : Bool) (i : Fin 3) (msg : Message) (alive next : Option PInsAliveState) (pins stored : PaxosInstance)
    (write : Bool) (type : MessageType) (rsp : Option Message) (open_ : pins.chosen = false)
    (active : ¬ (learnerOnly = true ∧ msg.type ≠ .chosen)) (stepped : stepByType msg alive pins = some (write, type, next, stored))
    (produced : produceRsp i msg next stored type = some rsp) :
    wrapperStep learnerOnly i msg alive pins = some (if type = .chosen then
      (write, rsp, next.map PInsAliveState.markChosen, { stored with chosen := true }) else (write, rsp, next, stored)) := by
  rw [wrapperStep, if_neg (by simp [open_]), stepNotChosen, if_neg active, stepped, Option.bind_some]
  dsimp only
  rw [produced]
  rfl

theorem formed_promised (pins : PaxosInstance) (num : Nat) (formed : Formed pins) (open_ : pins.chosen = false)
    (allowed : pins.promisedNum.getD 0 ≤ num) : Formed { pins with promisedNum := some num } where
  valued := formed.valued
  ordered := by
    intro accepted known
    obtain ⟨promised, held, below⟩ := formed.ordered accepted known
    rw [held] at allowed
    exact ⟨num, rfl, Nat.le_trans below allowed⟩
  proposed := fun _ => Nat.le_trans (formed.proposed open_) allowed
  chosen := formed.chosen

theorem formed_accepted (pins : PaxosInstance) (num : Nat) (value : Entry) (formed : Formed pins) (open_ : pins.chosen = false)
    (allowed : pins.promisedNum.getD 0 ≤ num) :
    Formed { pins with promisedNum := some num, acceptedNum := some num, acceptedValue := some value } where
  valued := rfl
  ordered := by
    intro accepted known
    cases known
    exact ⟨_, rfl, Nat.le_refl _⟩
  proposed := fun _ => Nat.le_trans (formed.proposed open_) allowed
  chosen := fun _ => rfl

-- The proposer next to an acceptor that moves on.
theorem ready_stored (i : Fin 3) (pins stored : PaxosInstance) (alive : PInsAliveState) (ready : Ready i pins alive)
    (same : stored.proposedNum = pins.proposedNum) (promised : pins.promisedNum.getD 0 ≤ stored.promisedNum.getD 0) :
    Ready i stored alive where
  self := ready.self
  small := ready.small
  valued := ready.valued
  reached := same ▸ ready.reached
  state := ready.state
  preparing := ready.preparing
  accepting := same ▸ ready.accepting
  counted := ready.counted.imp_right fun reached => Nat.le_trans reached promised

theorem acceptor_fine (s : Servers) (i : Fin 3) (stored : PaxosInstance) (rsp : Message) (orderly : Orderly s) (pins : PinsOrderly i stored)
    (grows : Grows (s.server i).pins stored) (same : stored.proposedNum = (s.server i).pins.proposedNum)
    (promised : (s.server i).pins.promisedNum.getD 0 ≤ stored.promisedNum.getD 0) (plain : isProposal rsp.type = false)
    (answered : Answered s i stored rsp) : Fine s i (some rsp) (s.server i).alive stored where
  pins := pins
  grows := grows
  alive := by
    intro state present going
    have before := orderly.alive i state present going
    have after : AliveOrderly s.sent i stored state := ⟨ready_stored i _ stored state before.ready same promised, before.votes, before.proposal⟩
    apply alive_sent s.sent (some rsp) i stored state _ after
    rintro msg here proposal
    cases here
    rw [plain] at proposal
    cases proposal
  answered := by
    rintro msg here
    cases here
    exact answered

theorem getD_some (num : Option Nat) (low high : Nat) (above : low < high) (same : num.getD 0 = high) : num = some high := by
  cases num with
  | none =>
      have zero : 0 = high := same
      omega
  | some seen => rw [show seen = high from same]

-- The answer to a PROP message, granted or not.
theorem prop_answered (s : Servers) (i : Fin 3) (stored : PaxosInstance) (msg rsp : Message) (orderly : Orderly s)
    (open_ : (s.server i).pins.chosen = false) (kind : msg.type = .prop) (fresh : ¬ Stale s i msg)
    (reached : msg.proposedNum ≤ stored.promisedNum.getD 0)
    (verdict_ : stored.promisedNum.getD 0 = msg.proposedNum ∧ (s.server i).pins.promisedNum.getD 0 ≤ msg.proposedNum ∨
      msg.proposedNum < (s.server i).pins.promisedNum.getD 0 ∧ stored = (s.server i).pins)
    (shape : rsp.type = .propRsp ∧ rsp.fromId = i ∧ rsp.proposedNum = msg.proposedNum ∧ rsp.promisedNum = some (stored.promisedNum.getD 0)) :
    Answered s i stored rsp := by
  obtain ⟨type, sender, number, promised⟩ := shape
  have held : rsp.promisedNum.getD 0 = stored.promisedNum.getD 0 := by rw [promised]; rfl
  refine ⟨sender, ?_, ?_, ?_⟩
  · constructor
    · rw [type]
      rfl
    · rintro (wrong | wrong)
      · rw [type] at wrong
        cases wrong
      · simp [type, isProposal] at wrong
    · rintro (wrong | wrong)
      · simp [type, isProposal] at wrong
      · rw [type] at wrong
        cases wrong
    · intro wrong
      rw [type] at wrong
      cases wrong
    · intro _
      rw [held, number]
      exact reached
    · intro wrong
      simp [type, isVote] at wrong
    · intro wrong
      rw [type] at wrong
      cases wrong
  · exact ⟨fun _ _ => Nat.le_of_eq held, fun wrong => by simp [type, isVote] at wrong⟩
  · rintro old member ⟨from_, same, promises | votes⟩
    · have sent := orderly.flight old member
      have before := orderly.consistent old member
      rw [from_, sender] at before
      have below := before.promise promises.1 open_
      have asked := sent.promise promises.1
      rw [same, number] at asked
      rw [verdict, verdict, if_pos promises.1, if_pos type, held, number, same, number]
      rcases verdict_ with ⟨equal, low⟩ | ⟨refused, kept⟩
      · rw [equal, decide_eq_decide]
        exact ⟨fun _ => rfl, fun _ => by omega⟩
      · rw [kept, decide_eq_decide]
        refine ⟨fun yes => ?_, fun equal => by omega⟩
        refine absurd ⟨open_, .inl ⟨kind, refused, old, member, promises.1, from_.trans sender, same.trans number, ?_⟩⟩ fresh
        rw [verdict, if_pos promises.1, same, number]
        exact decide_eq_true yes
    · simp [type, isVote] at votes

theorem prop_run (s : Servers) (i : Fin 3) (msg : Message) (learnerOnly : Bool) (orderly : Orderly s)
    (open_ : (s.server i).pins.chosen = false) (active : ¬ (learnerOnly = true ∧ msg.type ≠ .chosen)) (kind : msg.type = .prop)
    (fresh : ¬ Stale s i msg) :
    ∃ write rsp next stored, wrapperStep learnerOnly i msg (s.server i).alive (s.server i).pins = some (write, rsp, next, stored) ∧
      Fine s i rsp next stored ∧ next = (s.server i).alive := by
  have pins := orderly.pins i
  have valued : (s.server i).pins.acceptedNum.isSome → (s.server i).pins.acceptedValue.isSome := by
    rw [pins.formed.valued]
    exact id
  by_cases allowed : (s.server i).pins.promisedNum.getD 0 ≤ msg.proposedNum
  · have granted := updated_promised msg.proposedNum (s.server i).pins allowed
    have stepped : stepByType msg (s.server i).alive (s.server i).pins =
        some (true, .propRsp, (s.server i).alive, { (s.server i).pins with promisedNum := some msg.proposedNum }) := by
      rw [stepByType, kind]
      dsimp only
      rw [granted]
    have run := wrapper_run learnerOnly i msg _ _ _ _ _ _ _ open_ active stepped (asserting_pos _ _ ⟨Nat.le_refl _, valued⟩)
    refine ⟨_, _, _, _, run, ?_, rfl⟩
    have grown : Grows (s.server i).pins { (s.server i).pins with promisedNum := some msg.proposedNum } :=
      fun _ => ⟨open_, allowed, fun _ known => .inl known⟩
    exact acceptor_fine s i _ _ orderly ⟨formed_promised _ _ pins.formed open_ allowed, pins.accepted, pins.proposed⟩ grown rfl allowed rfl
      (prop_answered s i _ msg _ orderly open_ kind fresh (Nat.le_refl _) (.inl ⟨rfl, allowed⟩) ⟨rfl, rfl, rfl, rfl⟩)
  · have closed : msg.proposedNum < (s.server i).pins.promisedNum.getD 0 := by omega
    have stepped : stepByType msg (s.server i).alive (s.server i).pins =
        some (false, .propRsp, (s.server i).alive, (s.server i).pins) := by
      rw [stepByType, kind]
      dsimp only
      rw [refused_promised _ _ closed]
    have run := wrapper_run learnerOnly i msg _ _ _ _ _ _ _ open_ active stepped (asserting_pos _ _ ⟨Nat.le_of_lt closed, valued⟩)
    refine ⟨_, _, _, _, run, ?_, rfl⟩
    exact acceptor_fine s i _ _ orderly pins (grows_refl _) rfl (Nat.le_refl _) rfl
      (prop_answered s i _ msg _ orderly open_ kind fresh (Nat.le_of_lt closed) (.inr ⟨closed, rfl⟩) ⟨rfl, rfl, rfl, rfl⟩)

-- The answer to an ACCPT or FAST_ACCPT message.
theorem accpt_answered (s : Servers) (i : Fin 3) (stored : PaxosInstance) (msg rsp : Message) (orderly : Orderly s)
    (open_ : (s.server i).pins.chosen = false) (member : msg ∈ s.sent) (kind : isProposal msg.type = true) (fresh : ¬ Stale s i msg)
    (verdict_ : stored.acceptedNum = some msg.proposedNum ∧ (s.server i).pins.promisedNum.getD 0 ≤ msg.proposedNum ∨
      stored = (s.server i).pins ∧ (stored.acceptedNum = some msg.proposedNum ∨ msg.proposedNum < stored.promisedNum.getD 0))
    (type : isVote rsp.type = true) (shape : rsp.fromId = i ∧ rsp.toId = some msg.fromId ∧ rsp.proposedNum = msg.proposedNum ∧
      rsp.acceptedNum = some (stored.acceptedNum.getD 0) ∧ rsp.acceptedValue = none) : Answered s i stored rsp := by
  obtain ⟨sender, target, number, accepted, bare⟩ := shape
  have notPromise : rsp.type ≠ .propRsp := by
    intro wrong
    simp [isVote, wrong] at type
  have notRequest : isProposal rsp.type = false ∧ rsp.type ≠ .prop ∧ rsp.type ≠ .chosen ∧ rsp.type ≠ .fastAccpt := by
    cases known : rsp.type <;> simp [isVote, isProposal, known] at type ⊢
  have positive : 0 < msg.proposedNum := owned_positive _ _ ((orderly.flight msg member).request (.inr kind))
  have held : rsp.acceptedNum.getD 0 = stored.acceptedNum.getD 0 := by rw [accepted]; rfl
  refine ⟨sender, ?_, ?_, ?_⟩
  · constructor
    · cases known : rsp.type <;> simp [isVote, Servers.isRequest, known] at type ⊢
    · rintro (wrong | wrong)
      · exact absurd wrong notRequest.2.1
      · rw [notRequest.1] at wrong
        cases wrong
    · rintro (wrong | wrong)
      · rw [notRequest.1] at wrong
        cases wrong
      · exact absurd wrong notRequest.2.2.1
    · exact fun wrong => absurd wrong notRequest.2.2.2
    · exact fun wrong => absurd wrong notPromise
    · intro _
      refine ⟨by rw [accepted]; rfl, bare, fun j there => ?_⟩
      rw [target] at there
      exact ⟨msg, member, kind, Option.some.inj there, number.symm⟩
    · exact fun wrong => absurd wrong notRequest.2.2.1
  · refine ⟨fun wrong => absurd wrong notPromise, fun _ refused _ => ?_⟩
    rw [verdict, if_neg notPromise, held, number, decide_eq_false_iff_not] at refused
    have other : stored.acceptedNum ≠ some msg.proposedNum := by
      intro same
      rw [same] at refused
      exact refused rfl
    rw [number]
    rcases verdict_ with ⟨same, _⟩ | ⟨_, same | closed⟩
    · exact absurd same other
    · exact absurd same other
    · exact ⟨closed, other⟩
  · rintro old there ⟨from_, same, promises | votes⟩
    · exact absurd promises.2 notPromise
    · have notOld : old.type ≠ .propRsp := by
        intro wrong
        simp [isVote, wrong] at votes
      have before := orderly.consistent old there
      rw [from_, sender] at before
      cases answer : verdict old with
      | true =>
          rw [verdict, if_neg notPromise, held, number]
          symm
          rw [decide_eq_true_eq]
          by_contra other
          have differs : stored.acceptedNum ≠ some msg.proposedNum := by
            intro wrong
            rw [wrong] at other
            exact other rfl
          rcases verdict_ with ⟨wrong, _⟩ | ⟨kept, _⟩
          · exact differs wrong
          · rw [kept] at differs
            exact fresh ⟨open_, .inr ⟨kind, differs, old, there, votes.1, from_.trans sender, same.trans number, answer⟩⟩
      | false =>
          have refused := before.refusal votes.1 answer open_
          rw [same, number] at refused
          rw [verdict, if_neg notPromise, held, number]
          symm
          rw [decide_eq_false_iff_not]
          intro equal
          have taken := getD_some _ 0 _ positive equal
          rcases verdict_ with ⟨_, allowed⟩ | ⟨kept, _⟩
          · omega
          · rw [kept] at taken
            exact refused.2 taken

-- Nobody but the fast proposer uses a number without a count, so a fast proposal
-- is only refused where a larger number is promised.
theorem fast_refused (fast : Fin 3) (h : History) (s : Servers) (i : Fin 3) (msg : Message) (num : Nat) (orderly : Orderly s)
    (backed : Backed fast h s) (open_ : (s.server i).pins.chosen = false) (member : msg ∈ s.sent) (kind : msg.type = .fastAccpt)
    (known : (s.server i).pins.acceptedNum = some num) (below : num ≤ msg.proposedNum) : num = msg.proposedNum := by
  have sent := orderly.flight msg member
  obtain ⟨value, held⟩ := Option.isSome_iff_exists.mp (sent.valued (.inl (by simp [kind, isProposal])))
  have proposed := (backed.flight msg member).proposal (.inr kind) value held
  have quick := sent.quick kind
  obtain ⟨mine, _, voted⟩ := (backed.pins i).accepted open_ num known
  have taken := backed.ledger.sound.matched i num mine voted
  exact backed.ledger.sound.single num msg.proposedNum (Nat.le_trans below quick) quick (by simp [taken]) (by simp [proposed])

theorem accepted_verdict (num : Nat) (value : Entry) (quick : Bool) (pins : PaxosInstance) (formed : Formed pins) :
    pins.promisedNum.getD 0 ≤ num ∧ updateAccepted num value quick pins =
        some (some { pins with promisedNum := some num, acceptedNum := some num, acceptedValue := some value }) ∨
      updateAccepted num value quick pins = some none ∧
        (num < pins.promisedNum.getD 0 ∨ quick = true ∧ ∃ old, pins.acceptedNum = some old ∧ old ≤ num) := by
  by_cases closed : num < pins.promisedNum.getD 0
  · exact .inr ⟨refused_accepted num value quick pins closed, .inl closed⟩
  · have allowed : pins.promisedNum.getD 0 ≤ num := by omega
    cases quick with
    | false => exact .inl ⟨allowed, updated_accepted num value pins formed allowed⟩
    | true =>
        have free : ¬ pins.promisedNum.any (· > num) = true := by
          cases known : pins.promisedNum with
          | none => simp
          | some old =>
              rw [known] at allowed
              simpa using allowed
        rw [updateAccepted, if_neg free]
        cases known : pins.acceptedNum with
        | none =>
            left
            rw [if_neg (by simp), asserting_pos _ _ (by simp)]
            exact ⟨allowed, rfl⟩
        | some old =>
            right
            obtain ⟨promised, held, below⟩ := formed.ordered old known
            rw [held] at allowed
            exact ⟨if_pos (by simp), .inr ⟨rfl, old, rfl, Nat.le_trans below allowed⟩⟩

theorem accpt_run (fast : Fin 3) (h : History) (s : Servers) (i : Fin 3) (msg : Message) (learnerOnly : Bool) (orderly : Orderly s)
    (backed : Backed fast h s) (open_ : (s.server i).pins.chosen = false) (active : ¬ (learnerOnly = true ∧ msg.type ≠ .chosen))
    (member : msg ∈ s.sent) (kind : isProposal msg.type = true) (fresh : ¬ Stale s i msg) :
    ∃ write rsp next stored, wrapperStep learnerOnly i msg (s.server i).alive (s.server i).pins = some (write, rsp, next, stored) ∧
      Fine s i rsp next stored ∧ next = (s.server i).alive := by
  have pins := orderly.pins i
  have sent := orderly.flight msg member
  obtain ⟨value, held⟩ := Option.isSome_iff_exists.mp (sent.valued (.inl kind))
  have owned := sent.request (.inr kind)
  obtain ⟨type, quick, asked, vote, isFast, produce⟩ : ∃ type quick,
      (∀ alive pins, stepByType msg alive pins = stepByType.accepting msg alive pins type quick) ∧ isVote type = true ∧
      (quick = true → msg.type = .fastAccpt) ∧ ∀ alive pins, produceRsp i msg alive pins type = produceRsp.acceptRsp i msg pins type := by
    cases known : msg.type
    case accpt => exact ⟨.accptRsp, false, fun _ _ => by rw [stepByType, known], rfl, fun wrong => (by cases wrong), fun _ _ => rfl⟩
    case fastAccpt => exact ⟨.fastAccptRsp, true, fun _ _ => by rw [stepByType, known], rfl, fun _ => rfl, fun _ _ => rfl⟩
    all_goals simp [known, isProposal] at kind
  have plain : isProposal type = false := by
    cases known : type <;> simp [isVote, isProposal, known] at vote ⊢
  have notChosen : type ≠ .chosen := by
    rintro rfl
    cases vote
  have stepped (verdict_ : Option PaxosInstance) (done : updateAccepted msg.proposedNum value quick (s.server i).pins = some verdict_) :
      stepByType msg (s.server i).alive (s.server i).pins =
        some (verdict_.isSome, type, (s.server i).alive, verdict_.getD (s.server i).pins) := by
    rw [asked, stepByType.accepting, held, Option.bind_some, done]
    cases verdict_ with
    | none => rfl
    | some accepted => rfl
  have reply (stored : PaxosInstance) (promised : stored.promisedNum.isSome = true) :
      ∃ rsp, produceRsp i msg (s.server i).alive stored type = some (some rsp) ∧ rsp.type = type ∧ rsp.fromId = i ∧
        rsp.toId = some msg.fromId ∧ rsp.proposedNum = msg.proposedNum ∧ rsp.acceptedNum = some (stored.acceptedNum.getD 0) ∧
        rsp.acceptedValue = none := by
    rw [produce, produceRsp.acceptRsp, asserting_pos _ _ promised]
    exact ⟨_, rfl, rfl, rfl, rfl, rfl, rfl, rfl⟩
  have finish (write : Bool) (stored : PaxosInstance) (rsp : Message)
      (moved : stepByType msg (s.server i).alive (s.server i).pins = some (write, type, (s.server i).alive, stored))
      (produced : produceRsp i msg (s.server i).alive stored type = some (some rsp)) :
      wrapperStep learnerOnly i msg (s.server i).alive (s.server i).pins = some (write, some rsp, (s.server i).alive, stored) := by
    rw [wrapper_run learnerOnly i msg _ _ _ stored write type (some rsp) open_ active moved produced, if_neg notChosen]
  rcases accepted_verdict msg.proposedNum value quick (s.server i).pins pins.formed with ⟨allowed, granted⟩ | ⟨refused, reason⟩
  · obtain ⟨rsp, produced, kindRsp, shape⟩ := reply { (s.server i).pins with
      promisedNum := some msg.proposedNum, acceptedNum := some msg.proposedNum, acceptedValue := some value } rfl
    refine ⟨_, _, _, _, finish _ _ rsp (stepped _ granted) produced, ?_, rfl⟩
    refine acceptor_fine s i _ rsp orderly ⟨formed_accepted _ _ value pins.formed open_ allowed, ?_, pins.proposed⟩ ?_ rfl allowed
      (kindRsp ▸ plain) ?_
    · rintro _ num known
      cases known
      exact ⟨_, owned⟩
    · rintro _
      refine ⟨open_, allowed, fun num known => ?_⟩
      cases known
      exact .inr allowed
    · exact accpt_answered s i _ msg rsp orderly open_ member kind fresh (.inl ⟨rfl, allowed⟩) (kindRsp ▸ vote) shape
  · have outcome : (s.server i).pins.promisedNum.isSome = true ∧
        ((s.server i).pins.acceptedNum = some msg.proposedNum ∨ msg.proposedNum < (s.server i).pins.promisedNum.getD 0) := by
      rcases reason with closed | ⟨isQuick, old, known, below⟩
      · refine ⟨?_, .inr closed⟩
        cases none : (s.server i).pins.promisedNum with
        | none => simp [none] at closed
        | some _ => rfl
      · have same := fast_refused fast h s i msg old orderly backed open_ member (isFast isQuick) known below
        obtain ⟨promised, held, _⟩ := pins.formed.ordered old known
        exact ⟨by rw [held]; rfl, .inl (same ▸ known)⟩
    obtain ⟨rsp, produced, kindRsp, shape⟩ := reply (s.server i).pins outcome.1
    refine ⟨_, _, _, _, finish _ _ rsp (stepped _ refused) produced, ?_, rfl⟩
    exact acceptor_fine s i _ rsp orderly pins (grows_refl _) rfl (Nat.le_refl _) (kindRsp ▸ plain)
      (accpt_answered s i _ msg rsp orderly open_ member kind fresh (.inr ⟨rfl, outcome.2⟩) (kindRsp ▸ vote) shape)

-- A proposer votes for its own proposal, so one more vote is a majority.
theorem seconded_chosen (fast i j : Fin 3) (h : History) (ballot : Nat) (value : Entry) (ledger : Ledger fast h) (owns : Owns j ballot)
    (other : i ≠ j) (voted : h.vote i ballot = some value) : h.Chosen ballot value := by
  have own := (ledger.owner ballot value (ledger.sound.matched i ballot value voted)).2 j owns
  refine ⟨{i, j}, ?_, ?_⟩
  · rw [Majority, Fintype.card_fin, Finset.card_pair other]
  · intro a member
    rcases Finset.mem_insert.mp member with rfl | last
    · exact voted
    · rw [Finset.mem_singleton.mp last]
      exact own

theorem rolled_unowned (i j : Fin 3) (num : Nat) (rolled : Rolled i num) (owns : Owns j num) : Owns i num := by
  rcases rolled with zero | mine
  · have positive := (selfid_small j).1
    rw [Owns] at owns
    omega
  · exact mine

-- A value learnt under the number of the own accepted one is that one.
theorem learnt_same (fast : Fin 3) (h : History) (s : Servers) (i : Fin 3) (msg : Message) (value : Entry) (orderly : Orderly s)
    (backed : Backed fast h s) (open_ : (s.server i).pins.chosen = false) (member : msg ∈ s.sent) (kind : msg.type = .chosen)
    (remote : msg.fromId ≠ i) (held : msg.acceptedValue = some value)
    (known : (s.server i).pins.acceptedNum = some msg.proposedNum) : (s.server i).pins.acceptedValue = some value := by
  obtain ⟨mine, stored, voted⟩ := (backed.pins i).accepted open_ _ known
  obtain ⟨j, owner⟩ := (orderly.pins i).accepted open_ _ known
  have owns := rolled_unowned msg.fromId j _ ((orderly.flight msg member).chosen kind).2 owner
  have chosen := seconded_chosen fast i msg.fromId h _ mine backed.ledger owns remote.symm voted
  obtain ⟨ballot, chosenToo⟩ := (backed.flight msg member).chosen kind value held
  rw [stored, Voting.chosen_agree lastFast h backed.ledger.sound _ ballot mine value chosen chosenToo]

theorem marked_unwritten (s : Servers) (i : Fin 3) (alive : Option PInsAliveState) : Unwritten s i (alive.map markChosen) := by
  intro state known going
  obtain ⟨before, _, rfl⟩ := Option.map_eq_some_iff.mp known
  exact absurd rfl going

theorem marked_fine (s : Servers) (i : Fin 3) (rsp : Option Message) (alive : Option PInsAliveState) (stored : PaxosInstance)
    (pins : PinsOrderly i stored) (marked : stored.chosen = true) (answered : ∀ msg, rsp = some msg → Answered s i stored msg) :
    Fine s i rsp (alive.map markChosen) stored where
  pins := pins
  grows := fun open_ => by rw [marked] at open_; cases open_
  alive := by
    intro state known going
    obtain ⟨before, _, rfl⟩ := Option.map_eq_some_iff.mp known
    exact absurd rfl going
  answered := answered

theorem learn_run (fast : Fin 3) (h : History) (s : Servers) (i : Fin 3) (msg : Message) (learnerOnly : Bool) (orderly : Orderly s)
    (backed : Backed fast h s) (open_ : (s.server i).pins.chosen = false) (member : msg ∈ s.sent) (kind : msg.type = .chosen)
    (remote : msg.fromId ≠ i) (number : msg.proposedNum < numLimit) (promised : (s.server i).pins.promisedNum.getD 0 < numLimit)
    (proposed : (s.server i).pins.proposedNum < numLimit) :
    ∃ write rsp next stored, wrapperStep learnerOnly i msg (s.server i).alive (s.server i).pins = some (write, rsp, next, stored) ∧
      Fine s i rsp next stored ∧ Unwritten s i next := by
  have pins := orderly.pins i
  obtain ⟨value, held⟩ := Option.isSome_iff_exists.mp ((orderly.flight msg member).valued (.inr kind))
  have finish (write : Bool) (stored : PaxosInstance) (learnt : learn value msg (s.server i).pins = some (write, stored))
      (kept : PinsOrderly i stored) (marked : stored.chosen = true) :
      ∃ write rsp next stored, wrapperStep learnerOnly i msg (s.server i).alive (s.server i).pins = some (write, rsp, next, stored) ∧
        Fine s i rsp next stored ∧ Unwritten s i next := by
    have stepped : stepByType msg (s.server i).alive (s.server i).pins =
        some (write, .noop, (s.server i).alive.map markChosen, stored) := by
      rw [stepByType, kind]
      dsimp only
      rw [held, Option.bind_some, learnt]
      rfl
    have run := wrapper_run learnerOnly i msg _ _ _ stored write .noop none open_ (fun both => both.2 kind) stepped rfl
    exact ⟨_, _, _, _, run, marked_fine s i none _ stored kept marked (fun _ wrong => by cases wrong), marked_unwritten s i _⟩
  by_cases same : (s.server i).pins.acceptedNum = some msg.proposedNum
  · have equal := learnt_same fast h s i msg value orderly backed open_ member kind remote held same
    refine finish false { (s.server i).pins with chosen := true } ?_ ⟨⟨pins.formed.valued, pins.formed.ordered, fun wrong => (by cases wrong),
      fun _ => by rw [same]; rfl⟩, fun wrong => (by cases wrong), pins.proposed⟩ rfl
    rw [learn, if_pos same, asserting_pos _ _ equal]
  · have small : PropNumGen.Small ⟨0, 100⟩ := ⟨by decide, by decide⟩
    have top : max (max msg.proposedNum ((s.server i).pins.promisedNum.getD 0)) (s.server i).pins.proposedNum < numLimit :=
      Nat.max_lt.mpr ⟨Nat.max_lt.mpr ⟨number, promised⟩, proposed⟩
    obtain ⟨gen, rolled, raised, above, _⟩ := PropNumGen.next_run ⟨0, 100⟩ _ small top
    have higher : (s.server i).pins.promisedNum.getD 0 < gen.get := by omega
    have owned : gen.get % 2 ^ 16 = 0 := by
      have self : gen.selfid = 0 := raised.self
      rw [PropNumGen.get, self]
      exact compose_owner 0 _ (by decide)
    refine finish true ⟨gen.get, some gen.get, some gen.get, some value, true⟩ ?_ ⟨⟨rfl, ?_, fun wrong => (by cases wrong), fun _ => rfl⟩,
      fun wrong => (by cases wrong), .inl owned⟩ rfl
    · rw [learn, if_neg same, rolled, Option.bind_some,
        updated_promised gen.get { (s.server i).pins with proposedNum := gen.get } (Nat.le_of_lt higher), Option.bind_some]
      have formed : Formed { (s.server i).pins with proposedNum := gen.get, promisedNum := some gen.get } := by
        refine ⟨pins.formed.valued, fun num known => ?_, fun _ => Nat.le_refl _, pins.formed.chosen⟩
        obtain ⟨old, holds, below⟩ := pins.formed.ordered num known
        rw [holds] at higher
        exact ⟨gen.get, rfl, Nat.le_trans below (Nat.le_of_lt higher)⟩
      rw [updated_accepted gen.get value _ formed (Nat.le_refl _)]
      rfl
    · intro num known
      cases known
      exact ⟨_, rfl, Nat.le_refl _⟩

theorem count_get (gen : PropNumGen) (small : gen.Small) : getPropCnt gen.get = gen.propCnt := by
  have self := small.self
  rw [getPropCnt, propNumDecompose, PropNumGen.small_get gen small]
  omega

theorem gen_owned (i : Fin 3) (gen : PropNumGen) (self : gen.selfid = selfid i) : Owns i gen.get := by
  rw [Owns, PropNumGen.get, self]
  exact compose_owner (selfid i) _ (selfid_small i).2

-- A message that asks for promises or votes.
theorem request_answered (s : Servers) (i : Fin 3) (stored : PaxosInstance) (rsp : Message) (kind : rsp.type = .prop ∨ isProposal rsp.type = true)
    (sender : rsp.fromId = i) (owns : Owns i rsp.proposedNum) (valued : isProposal rsp.type = true → rsp.acceptedValue.isSome = true)
    (quick : rsp.type = .fastAccpt → rsp.proposedNum ≤ lastFast) : Answered s i stored rsp := by
  have quiet : rsp.type ≠ .propRsp ∧ isVote rsp.type = false ∧ rsp.type ≠ .chosen ∧ Servers.isRequest rsp.type = false := by
    cases known : rsp.type <;> simp [known, isProposal, isVote, Servers.isRequest] at kind ⊢
  refine ⟨sender, ⟨quiet.2.2.2, fun _ => sender ▸ owns, ?_, quick, ?_, ?_, ?_⟩, ⟨?_, ?_⟩, ?_⟩
  · rintro (proposal | wrong)
    · exact valued proposal
    · exact absurd wrong quiet.2.2.1
  · exact fun wrong => absurd wrong quiet.1
  · intro wrong
    rw [quiet.2.1] at wrong
    cases wrong
  · exact fun wrong => absurd wrong quiet.2.2.1
  · exact fun wrong => absurd wrong quiet.1
  · intro wrong
    rw [quiet.2.1] at wrong
    cases wrong
  · rintro old _ ⟨_, _, promises | votes⟩
    · exact absurd promises.2 quiet.1
    · rw [quiet.2.1] at votes
      cases votes.2

theorem round_ready (i : Fin 3) (pins stored kept : PaxosInstance) (next : PInsAliveState) (round : Round i pins next stored)
    (reached : kept.proposedNum ≤ next.propNumGen.get) : Ready i kept next where
  self := round.self
  small := round.small
  valued := round.valued
  reached := reached
  state := .inl round.state
  preparing := fun _ => round.positive
  accepting := by
    intro wrong
    rw [round.state] at wrong
    cases wrong
  counted := .inl round.positive

theorem round_orderly (sent : List Message) (i : Fin 3) (pins stored kept : PaxosInstance) (next : PInsAliveState)
    (round : Round i pins next stored) (reached : kept.proposedNum ≤ next.propNumGen.get) : AliveOrderly sent i kept next where
  ready := round_ready i pins stored kept next round reached
  votes := by
    intro _ peer vote counted
    rw [round.votes] at counted
    cases counted
  proposal := by
    intro wrong
    rw [round.state] at wrong
    cases wrong

theorem round_fine (s : Servers) (i : Fin 3) (next : PInsAliveState) (stored : PaxosInstance) (rsp : Message) (pins : PinsOrderly i (s.server i).pins)
    (open_ : (s.server i).pins.chosen = false) (round : Round i (s.server i).pins next stored)
    (shape : rsp = { type := .prop, fromId := i, toId := none, proposedNum := stored.proposedNum }) :
    Fine s i (some rsp) (some next) stored := by
  have above := round.above
  have kept := round.stored
  subst shape
  subst kept
  have owns := gen_owned i next.propNumGen round.self
  refine ⟨⟨⟨pins.formed.valued, fun num known => ?_, fun _ => Nat.le_refl _, pins.formed.chosen⟩, pins.accepted, .inr owns⟩,
    fun _ => ⟨open_, Nat.le_of_lt above, fun _ known => .inl known⟩, fun state present _ => ?_, fun msg same => ?_⟩
  · obtain ⟨promised, held, below⟩ := pins.formed.ordered num known
    rw [held] at above
    exact ⟨_, rfl, Nat.le_trans below (Nat.le_of_lt above)⟩
  · cases present
    exact round_orderly _ i _ _ _ next round (Nat.le_refl _)
  · cases same
    exact request_answered s i _ _ (.inl rfl) rfl owns (fun wrong => by cases wrong) (fun wrong => by cases wrong)

theorem round_unwritten (s : Servers) (i : Fin 3) (next : PInsAliveState) (stored : PaxosInstance) (pins : PinsOrderly i (s.server i).pins)
    (open_ : (s.server i).pins.chosen = false) (round : Round i (s.server i).pins next stored) : Unwritten s i (some next) := by
  intro state present _
  cases present
  have proposed := pins.formed.proposed open_
  have above := round.above
  exact round_orderly _ i _ _ _ next round (by omega)

-- The number is fresh, so no proposal under it is on its way yet.
theorem unsent_proposal (fast : Fin 3) (h : History) (s : Servers) (num : Nat) (orderly : Orderly s) (backed : Backed fast h s)
    (fresh : h.proposal num = none) (req : Message) (member : req ∈ s.sent) (kind : isProposal req.type = true) : req.proposedNum ≠ num := by
  intro same
  obtain ⟨value, held⟩ := Option.isSome_iff_exists.mp ((orderly.flight req member).valued (.inl kind))
  have types : req.type = .accpt ∨ req.type = .fastAccpt := by simpa [isProposal] using kind
  have proposed := (backed.flight req member).proposal types value held
  rw [same, fresh] at proposed
  cases proposed

theorem proposal_orderly (sent : List Message) (i : Fin 3) (pins stored kept : PaxosInstance) (gen : PropNumGen) (value : Entry)
    (next : PInsAliveState) (proposal : Proposal pins gen value next stored) (self : gen.selfid = selfid i) (small : gen.Small)
    (current : kept.proposedNum = gen.get) (counted : 0 < gen.propCnt ∨ selfid i ≤ kept.promisedNum.getD 0)
    (carried : ∀ req, req ∈ sent → isProposal req.type = true → req.fromId = i → req.proposedNum = gen.get → req.acceptedValue = some value) :
    AliveOrderly sent i kept next where
  ready :=
    { self := proposal.sameGen ▸ self
      small := proposal.sameGen ▸ small
      valued := by rw [proposal.holds]; rfl
      reached := by rw [proposal.sameGen, current]
      state := .inr (.inl proposal.state)
      preparing := fun wrong => by rw [proposal.state] at wrong; cases wrong
      accepting := fun _ => by rw [proposal.sameGen, current]
      counted := proposal.sameGen ▸ counted }
  votes := by
    intro _ peer vote counted
    rw [proposal.votes] at counted
    cases counted
  proposal := by
    intro _ req member kind sender number
    rw [proposal.sameGen] at number
    rw [proposal.holds]
    exact carried req member kind sender number

theorem proposal_fine (fast : Fin 3) (h : History) (s : Servers) (i : Fin 3) (mid : PaxosInstance) (gen : PropNumGen) (value : Entry)
    (next : PInsAliveState) (stored : PaxosInstance) (type : MessageType) (orderly : Orderly s) (backed : Backed fast h s)
    (formed : Formed mid) (open_ : mid.chosen = false) (grows : Grows (s.server i).pins mid)
    (proposal : Proposal mid gen value next stored) (self : gen.selfid = selfid i) (small : gen.Small) (current : mid.proposedNum = gen.get)
    (kind : isProposal type = true) (quick : type = .fastAccpt → gen.get ≤ lastFast) (fresh : h.proposal gen.get = none) :
    Fine s i (some { type := type, fromId := i, toId := none, proposedNum := gen.get, acceptedValue := some value }) (some next) stored := by
  have kept := proposal.stored
  subst kept
  have owns := gen_owned i gen self
  have allowed := proposal.open_
  obtain ⟨before, promised, accepted⟩ := grows open_
  refine ⟨⟨formed_accepted mid gen.get value formed open_ allowed, fun _ num known => ?_, .inr (by rw [current]; exact owns)⟩,
    fun _ => ⟨before, Nat.le_trans promised allowed, fun num known => ?_⟩, fun state present _ => ?_, fun msg same => ?_⟩
  · cases known
    exact ⟨i, owns⟩
  · cases known
    exact .inr (Nat.le_trans promised allowed)
  · cases present
    have reached : selfid i ≤ gen.get := by
      rw [PropNumGen.small_get gen small, self]
      omega
    refine proposal_orderly _ i mid _ _ gen value next proposal self small current (.inr reached) ?_
    intro req member proposes _ number
    rcases List.mem_append.mp member with new | old
    · simp only [Option.toList_some, List.mem_singleton] at new
      rw [new]
    · exact absurd number (unsent_proposal fast h s gen.get orderly backed fresh req old proposes)
  · cases same
    exact request_answered s i _ _ (.inr kind) rfl owns (fun _ => rfl) quick

theorem waits_orderly (s : Servers) (i : Fin 3) (msg : Message) (state next : PInsAliveState) (pins : PaxosInstance)
    (before : AliveOrderly s.sent i pins state) (ready : Ready i pins next)
    (counts : next.propState = .propFrozen ∨ Counts state msg next)
    (sent : msg.type = .propRsp ∨ isVote msg.type = true → msg ∈ s.sent) : AliveOrderly s.sent i pins next := by
  rcases counts with frozen | counts
  · refine ⟨ready, fun going => absurd frozen going, fun wrong => ?_⟩
    rw [frozen] at wrong
    cases wrong
  · have transfer (rsp : Message) (answers : Answers state rsp) : Answers next rsp := by
      rw [Answers, counts.state, counts.gen]
      exact answers
    refine ⟨ready, fun going peer vote counted => ?_, fun waiting req member kind sender number => ?_⟩
    · rcases counts.votes peer vote counted with old | ⟨here, answers, seen⟩
      · rw [counts.state] at going
        obtain ⟨rsp, member, answered, rest⟩ := before.votes going peer vote old
        exact ⟨rsp, member, transfer rsp answered, rest⟩
      · refine ⟨msg, sent ?_, transfer msg answers, here.symm, seen⟩
        exact answers.2.imp And.right And.right
    · rw [counts.gen] at number
      rw [counts.value waiting]
      exact before.proposal (counts.state ▸ waiting) req member kind sender number

theorem advance_run (fast : Fin 3) (h : History) (s : Servers) (i : Fin 3) (msg : Message) (learnerOnly : Bool) (state next : PInsAliveState)
    (stored : PaxosInstance) (write : Bool) (type : MessageType) (orderly : Orderly s) (backed : Backed fast h s)
    (open_ : (s.server i).pins.chosen = false) (active : ¬ (learnerOnly = true ∧ msg.type ≠ .chosen))
    (present : (s.server i).alive = some state) (going : state.propState ≠ .chosen)
    (sent : msg.type = .propRsp ∨ isVote msg.type = true → msg ∈ s.sent)
    (proposing : ∀ alive pins, stepByType msg alive pins = stepByType.proposing msg alive pins)
    (stepped : state.step msg (s.server i).pins = some (write, type, next, stored))
    (advance : Advance i msg state (s.server i).pins write type next stored) :
    ∃ write rsp next stored, wrapperStep learnerOnly i msg (s.server i).alive (s.server i).pins = some (write, rsp, next, stored) ∧
      Fine s i rsp next stored ∧ Unwritten s i next := by
  have pins := orderly.pins i
  have before := orderly.alive i state present going
  have ready := before.ready
  have moved : stepByType msg (s.server i).alive (s.server i).pins = some (write, type, some next, stored) := by
    rw [proposing, present]
    unfold stepByType.proposing
    dsimp only
    rw [stepped]
    rfl
  have run (rsp : Option Message) (produced : produceRsp i msg (some next) stored type = some rsp) :=
    wrapper_run learnerOnly i msg _ _ _ stored write type rsp open_ active moved produced
  cases advance with
  | waits _ kept counts =>
      have after := waits_orderly s i msg state next _ before kept counts sent
      have hold : Unwritten s i (some next) := by
        intro other here _
        cases here
        exact after
      exact ⟨_, _, _, _, run none rfl, ⟨pins, grows_refl _, hold, fun _ wrong => by cases wrong⟩, hold⟩
  | prepares _ _ round =>
      have counted : 0 < getPropCnt stored.proposedNum := by
        rw [round.stored]
        dsimp only
        rw [count_get _ round.small]
        exact round.positive
      have produced : produceRsp i msg (some next) stored .prop =
          some (some { type := .prop, fromId := i, toId := none, proposedNum := stored.proposedNum }) := asserting_pos _ _ ⟨rfl, counted⟩
      exact ⟨_, _, _, _, run _ produced, round_fine s i next stored _ pins open_ round rfl, round_unwritten s i next stored pins open_ round⟩
  | proposes _ _ value waiting current proposal =>
      have fresh := ((backed.alive i state present).preparing waiting current).fresh
      have positive := ready.preparing waiting
      have shape := proposal.stored
      have number : stored.proposedNum = next.propNumGen.get := by
        rw [shape, proposal.sameGen]
        exact current.symm
      have counted : decide (0 < getPropCnt stored.proposedNum) = true := by
        rw [number, proposal.sameGen, count_get _ ready.small]
        exact decide_eq_true positive
      have complete : stored.promisedNum.isSome = true ∧ stored.acceptedNum.isSome = true ∧ stored.acceptedValue.isSome = true ∧
          stored.proposedNum = next.propNumGen.get ∧ stored.acceptedValue = next.proposingValue ∧
          decide (0 < getPropCnt stored.proposedNum) = true := by
        refine ⟨?_, ?_, ?_, number, ?_, counted⟩
        · rw [shape]
          rfl
        · rw [shape]
          rfl
        · rw [shape]
          rfl
        · rw [shape, proposal.holds]
      have produced : produceRsp i msg (some next) stored .accpt = some (some {
          type := .accpt, fromId := i, toId := none, proposedNum := state.propNumGen.get, acceptedValue := some value }) := by
        rw [← proposal.sameGen, ← proposal.holds]
        exact asserting_pos _ _ complete
      have fine := proposal_fine fast h s i (s.server i).pins state.propNumGen value next stored .accpt orderly backed pins.formed open_
        (grows_refl _) proposal ready.self ready.small current.symm rfl (fun wrong => by cases wrong) fresh
      refine ⟨_, _, _, _, run _ produced, fine, fun other here _ => ?_⟩
      cases here
      refine proposal_orderly s.sent i _ stored _ state.propNumGen value next proposal ready.self ready.small current.symm (.inl positive) ?_
      intro req member kind _ same
      exact absurd same (unsent_proposal fast h s _ orderly backed fresh req member kind)
  | decides _ marked accepted =>
      obtain ⟨num, known⟩ := Option.isSome_iff_exists.mp accepted
      obtain ⟨promised, held, _⟩ := pins.formed.ordered num known
      have valued : (s.server i).pins.acceptedValue.isSome = true := pins.formed.valued ▸ accepted
      have notChosen : msg.type ≠ .chosen := by
        intro wrong
        rw [PInsAliveState.step, asserting_pos _ _ going, wrong] at stepped
        cases stepped
      have produced : produceRsp i msg (some next) (s.server i).pins .chosen = some (some {
          type := .chosen, fromId := i, toId := none, proposedNum := (s.server i).pins.proposedNum
          acceptedValue := (s.server i).pins.acceptedValue }) :=
        asserting_pos _ _ ⟨notChosen, by rw [held]; rfl, accepted, valued⟩
      refine ⟨_, _, _, _, run _ produced, ?_, marked_unwritten s i _⟩
      refine marked_fine s i _ _ _ ⟨⟨pins.formed.valued, pins.formed.ordered, fun wrong => (by cases wrong), fun _ => accepted⟩,
        fun wrong => (by cases wrong), pins.proposed⟩ rfl (fun reply same => ?_)
      cases same
      exact chosen_answered s i _ _ rfl rfl (by simp) valued pins.proposed

-- All numbers stored, held or sent so far can still be raised without a wrap.
def Low (s : Servers) : Prop :=
  (∀ i, (s.server i).pins.promisedNum.getD 0 < safeLimit ∧ (s.server i).pins.proposedNum < safeLimit ∧
    ∀ state ∈ (s.server i).alive, state.maxHintNum < safeLimit ∧ state.maxAcceptedHintNum < safeLimit) ∧
  ∀ msg ∈ s.sent, msg.proposedNum < safeLimit ∧ msg.acceptedNum.getD 0 < safeLimit

theorem below_limit (num : Nat) (safe : num < safeLimit) : num < numLimit := by
  have above := limit_safe num safe
  omega

theorem low_limited (s : Servers) (i : Fin 3) (msg : Message) (state : PInsAliveState) (low : Low s)
    (present : (s.server i).alive = some state) (member : msg ∈ s.sent) : Limited (s.server i).pins state msg where
  promised := below_limit _ (low.1 i).1
  proposed := below_limit _ (low.1 i).2.1
  hint := below_limit _ ((low.1 i).2.2 state present).1
  accepted := below_limit _ ((low.1 i).2.2 state present).2
  msgProposed := below_limit _ (low.2 msg member).1
  msgAccepted := below_limit _ (low.2 msg member).2

theorem counted_agrees (s : Servers) (i : Fin 3) (msg : Message) (state : PInsAliveState) (orderly : Orderly s) (member : msg ∈ s.sent)
    (before : AliveOrderly s.sent i (s.server i).pins state) (answers : Answers state msg) (old : Bool)
    (counted : state.rspVotes msg.fromId = some old) : old = verdict msg := by
  have going : state.propState ≠ .propFrozen := by
    intro frozen
    rcases answers.2 with waiting | waiting
    · rw [frozen] at waiting
      cases waiting.1
    · rw [frozen] at waiting
      cases waiting.1
  obtain ⟨rsp, there, answered, sender, seen⟩ := before.votes going msg.fromId old counted
  rw [← seen]
  refine orderly.agree rsp msg there member ⟨sender, answered.1.trans answers.1.symm, ?_⟩
  rcases answers.2 with ⟨waiting, kind⟩ | ⟨waiting, kind⟩
  · rcases answered.2 with ⟨_, other⟩ | ⟨wrong, _⟩
    · exact .inl ⟨other, kind⟩
    · rw [waiting] at wrong
      cases wrong
  · rcases answered.2 with ⟨wrong, _⟩ | ⟨_, other⟩
    · rw [waiting] at wrong
      cases wrong
    · exact .inr ⟨other, kind⟩

-- A vote for the own proposal finds it in the own record, or a later one with the same value.
theorem voted_held (fast : Fin 3) (h : History) (s : Servers) (i : Fin 3) (msg : Message) (state : PInsAliveState) (orderly : Orderly s)
    (backed : Backed fast h s) (open_ : (s.server i).pins.chosen = false) (present : (s.server i).alive = some state)
    (member : msg ∈ s.sent) (remote : msg.fromId ≠ i) (before : AliveOrderly s.sent i (s.server i).pins state)
    (kind : isVote msg.type = true) (answers : Answers state msg)
    (yes : verdict msg = true ∨ ∃ peer, state.rspVotes peer = some true) :
    msg.proposedNum ≤ (s.server i).pins.promisedNum.getD 0 ∧ msg.proposedNum ≤ (s.server i).pins.acceptedNum.getD 0 ∧
      state.proposingValue = (s.server i).pins.acceptedValue := by
  have owns : Owns i msg.proposedNum := by
    rw [answers.1]
    exact gen_owned i _ before.ready.self
  have positive := owned_positive i _ owns
  have types : msg.type = .accptRsp ∨ msg.type = .fastAccptRsp := by simpa [isVote] using kind
  have waiting : state.propState = .waitAccept := by
    rcases answers.2 with ⟨_, wrong⟩ | ⟨waiting, _⟩
    · simp [isVote, wrong] at kind
    · exact waiting
  obtain ⟨numbered, _, origin⟩ := (orderly.flight msg member).vote kind
  have voter : ∃ peer, peer ≠ i ∧ h.vote peer msg.proposedNum ≠ none := by
    rcases yes with granted | ⟨peer, counted⟩
    · refine ⟨msg.fromId, remote, (backed.flight msg member).vote types positive ?_⟩
      have notPromise : msg.type ≠ .propRsp := by
        intro wrong
        simp [isVote, wrong] at kind
      rw [verdict, if_neg notPromise, decide_eq_true_eq] at granted
      exact getD_some _ 0 _ positive granted
    · rw [answers.1]
      exact ⟨peer, (backed.alive i state present).accepting waiting peer counted⟩
  obtain ⟨peer, other, voted⟩ := voter
  obtain ⟨target, there⟩ := Option.ne_none_iff_exists'.mp ((backed.flight msg member).answer (.inr types)).1
  obtain ⟨req, sent, proposes, sender, number⟩ := origin target there
  have targetOwns := (orderly.flight req sent).request (.inr proposes)
  rw [number, sender] at targetOwns
  have mine : target = i := owner_unique target i _ targetOwns owns
  have carried := before.proposal waiting req sent proposes (sender.trans mine) (number.trans answers.1)
  obtain ⟨value, held⟩ := Option.isSome_iff_exists.mp ((orderly.flight req sent).valued (.inl proposes))
  have kinds : req.type = .accpt ∨ req.type = .fastAccpt := by simpa [isProposal] using proposes
  have proposed := (backed.flight req sent).proposal kinds value held
  rw [number] at proposed
  have own := (backed.ledger.owner _ value proposed).2 i owns
  have reached : msg.proposedNum ≤ (s.server i).pins.acceptedNum.getD 0 := by
    by_contra above
    rw [(backed.pins i).last open_ _ (by omega)] at own
    cases own
  obtain ⟨num, known⟩ : ∃ num, (s.server i).pins.acceptedNum = some num := by
    cases absent : (s.server i).pins.acceptedNum with
    | none =>
        rw [absent] at reached
        have zero : msg.proposedNum ≤ 0 := reached
        omega
    | some num => exact ⟨num, rfl⟩
  obtain ⟨seen, stored, _⟩ := (backed.pins i).accepted open_ num known
  have above : msg.proposedNum ≤ num := by
    rw [known] at reached
    exact reached
  have chosen := voted_chosen fast i peer h _ _ num seen backed.ledger (backed.pins i) open_ owns other voted known stored above
  have same := (Voting.chosen_proposed lastFast h backed.ledger.sound _ seen chosen).symm.trans proposed
  refine ⟨Nat.le_trans reached ((backed.pins i).ordered open_), reached, ?_⟩
  rw [stored, same, ← held, carried]

theorem response_run (fast : Fin 3) (h : History) (s : Servers) (i : Fin 3) (msg : Message) (learnerOnly : Bool) (orderly : Orderly s)
    (backed : Backed fast h s) (low : Low s) (open_ : (s.server i).pins.chosen = false)
    (active : ¬ (learnerOnly = true ∧ msg.type ≠ .chosen)) (member : msg ∈ s.sent) (remote : msg.fromId ≠ i)
    (kind : msg.type = .propRsp ∨ isVote msg.type = true)
    (going : ∀ state, (s.server i).alive = some state → state.propState ≠ .chosen) :
    ∃ write rsp next stored, wrapperStep learnerOnly i msg (s.server i).alive (s.server i).pins = some (write, rsp, next, stored) ∧
      Fine s i rsp next stored ∧ Unwritten s i next := by
  have pins := orderly.pins i
  have proposing (alive : Option PInsAliveState) (pins : PaxosInstance) :
      stepByType msg alive pins = stepByType.proposing msg alive pins := by
    cases known : msg.type <;> simp [known, isVote] at kind
    all_goals rw [stepByType, known]
  cases present : (s.server i).alive with
  | none =>
      have stepped : stepByType msg none (s.server i).pins = some (false, .noop, none, (s.server i).pins) := by
        rw [proposing]
        rfl
      have run := wrapper_run learnerOnly i msg none none _ _ false .noop none open_ active stepped rfl
      have fine := silent_fine s i orderly
      rw [present] at fine
      exact ⟨_, _, _, _, run, fine, fun _ wrong => by cases wrong⟩
  | some state =>
      rw [← present]
      have before := orderly.alive i state present (going state present)
      have limited := low_limited s i msg state low present member
      have agrees := counted_agrees s i msg state orderly member before
      rcases kind with promise | vote
      · have sent := orderly.flight msg member
        have hint := (backed.flight msg member).hint promise
        obtain ⟨write, type, next, stored, done, advance⟩ := prop_rsp_run i state msg (s.server i).pins pins.formed open_ before.ready
          promise (sent.promise promise) agrees
          (by
            intro held
            obtain ⟨value, here⟩ := Option.isSome_iff_exists.mp held
            exact (backed.ledger.owner _ value (hint.2 value here)).1)
          (by
            intro same seen here
            obtain ⟨mine, held⟩ := Option.isSome_iff_exists.mp before.ready.valued
            have proposed := hint.2 seen here
            have positive := (backed.ledger.owner _ seen proposed).1
            rw [same] at proposed positive
            have own := (backed.alive i state present).hinted.hint mine held positive
            rw [held, own.symm.trans proposed])
          limited
        refine advance_run fast h s i msg learnerOnly state next stored write type orderly backed open_ active present (going state present)
          (fun _ => member) proposing ?_ advance
        rw [PInsAliveState.step, asserting_pos _ _ (going state present), promise]
        exact done
      · have sent := (orderly.flight msg member).vote vote
        obtain ⟨write, type, next, stored, done, advance⟩ := accpt_rsp_run i state msg (s.server i).pins pins.formed open_ before.ready
          vote sent.1 sent.2.1 agrees
          (fun answers yes => voted_held fast h s i msg state orderly backed open_ present member remote before vote answers yes) limited
        refine advance_run fast h s i msg learnerOnly state next stored write type orderly backed open_ active present (going state present)
          (fun _ => member) proposing ?_ advance
        rw [PInsAliveState.step, asserting_pos _ _ (going state present)]
        cases known : msg.type <;> simp [known, isVote] at vote
        · exact done
        · exact done

end PaxosStore.PaxosKv
