import PaxosStore.PaxosKv.Assertions
import PaxosStore.PaxosKv.Agreement

set_option autoImplicit false

namespace PaxosStore.PaxosKv

open PaxosStore.Consensus PInsAliveState

-- Numbers rolled by a learner end in 16 zero bits, those of a proposer in its id.
def Rolled (i : Fin 3) (num : Nat) : Prop := num % 2 ^ 16 = 0 ∨ Owns i num

structure PinsOrderly (i : Fin 3) (pins : PaxosInstance) : Prop where
  formed : Formed pins
  accepted : pins.chosen = false → ∀ num, pins.acceptedNum = some num → ∃ j, Owns j num
  proposed : Rolled i pins.proposedNum

def isProposal (type : MessageType) : Bool := type = .accpt ∨ type = .fastAccpt

structure MessageOrderly (sent : List Message) (msg : Message) : Prop where
  protocol : Servers.isRequest msg.type = false
  request : msg.type = .prop ∨ isProposal msg.type = true → Owns msg.fromId msg.proposedNum
  valued : isProposal msg.type = true ∨ msg.type = .chosen → msg.acceptedValue.isSome = true
  quick : msg.type = .fastAccpt → msg.proposedNum ≤ lastFast
  promise : msg.type = .propRsp → msg.proposedNum ≤ msg.promisedNum.getD 0
  vote : isVote msg.type = true → msg.acceptedNum.isSome = true ∧ msg.acceptedValue = none ∧
    ∀ j, msg.toId = some j → ∃ req, req ∈ sent ∧ isProposal req.type = true ∧ req.fromId = j ∧ req.proposedNum = msg.proposedNum
  chosen : msg.type = .chosen → msg.toId ≠ some msg.fromId ∧ Rolled msg.fromId msg.proposedNum

-- Every vote counted so far is in an answer, and the value at hand is the one sent out.
structure AliveOrderly (sent : List Message) (i : Fin 3) (pins : PaxosInstance) (alive : PInsAliveState) : Prop where
  ready : Ready i pins alive
  votes : alive.propState ≠ .propFrozen → ∀ peer vote, alive.rspVotes peer = some vote →
    ∃ rsp, rsp ∈ sent ∧ Answers alive rsp ∧ rsp.fromId = peer ∧ verdict rsp = vote
  proposal : alive.propState = .waitAccept → ∀ req, req ∈ sent → isProposal req.type = true → req.fromId = i →
    req.proposedNum = alive.propNumGen.get → req.acceptedValue = alive.proposingValue

-- Two answers of one server to the same request.
def SameQuestion (left right : Message) : Prop :=
  left.fromId = right.fromId ∧ left.proposedNum = right.proposedNum ∧
    (left.type = .propRsp ∧ right.type = .propRsp ∨ isVote left.type = true ∧ isVote right.type = true)

-- What a server that has not learnt the value still says as it did in an answer.
structure Consistent (pins : PaxosInstance) (msg : Message) : Prop where
  promise : msg.type = .propRsp → pins.chosen = false → msg.promisedNum.getD 0 ≤ pins.promisedNum.getD 0
  refusal : isVote msg.type = true → verdict msg = false → pins.chosen = false →
    msg.proposedNum < pins.promisedNum.getD 0 ∧ pins.acceptedNum ≠ some msg.proposedNum

structure Orderly (s : Servers) : Prop where
  pins : ∀ i, PinsOrderly i (s.server i).pins
  alive : ∀ i state, (s.server i).alive = some state → state.propState ≠ .chosen → AliveOrderly s.sent i (s.server i).pins state
  flight : ∀ msg, msg ∈ s.sent → MessageOrderly s.sent msg
  consistent : ∀ msg, msg ∈ s.sent → Consistent (s.server msg.fromId).pins msg
  agree : ∀ left right, left ∈ s.sent → right ∈ s.sent → SameQuestion left right → verdict left = verdict right

-- A stored instance only moves on.
def Grows (pins stored : PaxosInstance) : Prop :=
  stored.chosen = false → pins.chosen = false ∧ pins.promisedNum.getD 0 ≤ stored.promisedNum.getD 0 ∧
    ∀ num, stored.acceptedNum = some num → pins.acceptedNum = some num ∨ pins.promisedNum.getD 0 ≤ num

structure Answered (s : Servers) (i : Fin 3) (stored : PaxosInstance) (rsp : Message) : Prop where
  sender : rsp.fromId = i
  orderly : MessageOrderly s.sent rsp
  consistent : Consistent stored rsp
  agree : ∀ old, old ∈ s.sent → SameQuestion old rsp → verdict old = verdict rsp

theorem grows_refl (pins : PaxosInstance) : Grows pins pins := fun open_ => ⟨open_, Nat.le_refl _, fun _ known => .inl known⟩

theorem consistent_grows (pins stored : PaxosInstance) (msg : Message) (grows : Grows pins stored) (consistent : Consistent pins msg) :
    Consistent stored msg where
  promise := by
    intro kind open_
    obtain ⟨before, promised, _⟩ := grows open_
    exact Nat.le_trans (consistent.promise kind before) promised
  refusal := by
    intro kind refused open_
    obtain ⟨before, promised, accepted⟩ := grows open_
    obtain ⟨above, other⟩ := consistent.refusal kind refused before
    refine ⟨Nat.lt_of_lt_of_le above promised, fun same => ?_⟩
    rcases accepted _ same with old | reached
    · exact other old
    · omega

theorem message_sent (sent more : List Message) (msg : Message) (orderly : MessageOrderly sent msg) : MessageOrderly (more ++ sent) msg where
  protocol := orderly.protocol
  request := orderly.request
  valued := orderly.valued
  quick := orderly.quick
  promise := orderly.promise
  vote := by
    intro kind
    obtain ⟨numbered, bare, origin⟩ := orderly.vote kind
    refine ⟨numbered, bare, fun j target => ?_⟩
    obtain ⟨req, member, rest⟩ := origin j target
    exact ⟨req, List.mem_append_right _ member, rest⟩
  chosen := orderly.chosen

theorem votes_sent (sent more : List Message) (alive : PInsAliveState)
    (votes : alive.propState ≠ .propFrozen → ∀ peer vote, alive.rspVotes peer = some vote →
      ∃ rsp, rsp ∈ sent ∧ Answers alive rsp ∧ rsp.fromId = peer ∧ verdict rsp = vote) :
    alive.propState ≠ .propFrozen → ∀ peer vote, alive.rspVotes peer = some vote →
      ∃ rsp, rsp ∈ more ++ sent ∧ Answers alive rsp ∧ rsp.fromId = peer ∧ verdict rsp = vote := by
  intro going peer vote counted
  obtain ⟨rsp, member, rest⟩ := votes going peer vote counted
  exact ⟨rsp, List.mem_append_right _ member, rest⟩

-- A proposer is not touched by messages that are not proposals of its own.
theorem alive_sent (sent : List Message) (rsp : Option Message) (i : Fin 3) (pins : PaxosInstance) (alive : PInsAliveState)
    (other : ∀ msg, rsp = some msg → isProposal msg.type = true → msg.fromId ≠ i) (orderly : AliveOrderly sent i pins alive) :
    AliveOrderly (rsp.toList ++ sent) i pins alive where
  ready := orderly.ready
  votes := votes_sent sent _ alive orderly.votes
  proposal := by
    intro waiting req member kind sender number
    rcases List.mem_append.mp member with new | old
    · exact absurd sender (other req (by simpa using new) kind)
    · exact orderly.proposal waiting req old kind sender number

theorem orderly_change (s : Servers) (i : Fin 3) (stored : PaxosInstance) (next : Option PInsAliveState) (rsp : Option Message)
    (marks : List (Fin 3 × Entry)) (orderly : Orderly s) (pins : PinsOrderly i stored) (grows : Grows (s.server i).pins stored)
    (alive : ∀ state, next = some state → state.propState ≠ .chosen → AliveOrderly (rsp.toList ++ s.sent) i stored state)
    (answered : ∀ msg, rsp = some msg → Answered s i stored msg) :
    Orderly { s.setServer i ⟨stored, next⟩ with sent := rsp.toList ++ s.sent, marks := marks } where
  pins := by
    intro j
    by_cases here : j = i
    · subst here
      simpa [Servers.setServer] using pins
    · simpa [Servers.setServer, here] using orderly.pins j
  alive := by
    intro j state present going
    by_cases here : j = i
    · subst here
      simp only [Servers.setServer, Function.update_self] at present ⊢
      exact alive state present going
    · simp only [Servers.setServer, Function.update_of_ne here] at present ⊢
      refine alive_sent s.sent rsp j _ state (fun msg same _ => ?_) (orderly.alive j state present going)
      rw [(answered msg same).sender]
      exact fun wrong => here wrong.symm
  flight := by
    intro msg member
    rcases List.mem_append.mp member with new | old
    · exact message_sent s.sent _ msg (answered msg (by simpa using new)).orderly
    · exact message_sent s.sent _ msg (orderly.flight msg old)
  consistent := by
    intro msg member
    have later : msg ∈ s.sent → Consistent (Function.update s.server i ⟨stored, next⟩ msg.fromId).pins msg := by
      intro old
      by_cases here : msg.fromId = i
      · rw [here, Function.update_self]
        exact consistent_grows _ stored msg grows (here ▸ orderly.consistent msg old)
      · rw [Function.update_of_ne here]
        exact orderly.consistent msg old
    rcases List.mem_append.mp member with new | old
    · have fresh := answered msg (by simpa using new)
      dsimp only [Servers.setServer]
      rw [fresh.sender, Function.update_self]
      exact fresh.consistent
    · exact later old
  agree := by
    intro left right leftMember rightMember same
    rcases List.mem_append.mp leftMember with newLeft | oldLeft
    · rcases List.mem_append.mp rightMember with newRight | oldRight
      · have leftHere : rsp = some left := by simpa using newLeft
        have rightHere : rsp = some right := by simpa using newRight
        rw [Option.some.inj (leftHere.symm.trans rightHere)]
      · have swapped : SameQuestion right left := ⟨same.1.symm, same.2.1.symm, same.2.2.imp And.symm And.symm⟩
        exact ((answered left (by simpa using newLeft)).agree right oldRight swapped).symm
    · rcases List.mem_append.mp rightMember with newRight | oldRight
      · exact (answered right (by simpa using newRight)).agree left oldLeft same
      · exact orderly.agree left right oldLeft oldRight same

-- What a handled message has to leave behind, whether or not the write succeeds.
structure Fine (s : Servers) (i : Fin 3) (rsp : Option Message) (next : Option PInsAliveState) (stored : PaxosInstance) : Prop where
  pins : PinsOrderly i stored
  grows : Grows (s.server i).pins stored
  alive : ∀ state, next = some state → state.propState ≠ .chosen → AliveOrderly (rsp.toList ++ s.sent) i stored state
  answered : ∀ msg, rsp = some msg → Answered s i stored msg

-- The in-memory state after a failed write, which leaves the stored instance alone.
def Unwritten (s : Servers) (i : Fin 3) (next : Option PInsAliveState) : Prop :=
  ∀ state, next = some state → state.propState ≠ .chosen → AliveOrderly s.sent i (s.server i).pins state

theorem orderly_handle (s : Servers) (i : Fin 3) (msg : Message) (learnerOnly written write : Bool) (rsp : Option Message)
    (next : Option PInsAliveState) (stored : PaxosInstance) (orderly : Orderly s)
    (done : wrapperStep learnerOnly i msg (s.server i).alive (s.server i).pins = some (write, rsp, next, stored))
    (fine : Fine s i rsp next stored) (unwritten : Unwritten s i next) : Orderly (s.handle i msg learnerOnly written) := by
  rw [Servers.handle, done]
  dsimp only
  split
  · exact orderly_change s i (s.server i).pins next none _ orderly (orderly.pins i) (grows_refl _) unwritten (fun _ wrong => by cases wrong)
  · exact orderly_change s i stored next rsp _ orderly fine.pins fine.grows fine.alive fine.answered

theorem orderly_lose (s : Servers) (i : Fin 3) (orderly : Orderly s) : Orderly (s.setServer i { s.server i with alive := none }) :=
  orderly_change s i (s.server i).pins none none s.marks orderly (orderly.pins i) (grows_refl _)
    (fun _ wrong => by cases wrong) (fun _ wrong => by cases wrong)

end PaxosStore.PaxosKv
