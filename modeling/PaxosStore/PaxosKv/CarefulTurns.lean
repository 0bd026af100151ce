import PaxosStore.PaxosKv.OrderlySteps

set_option autoImplicit false

namespace PaxosStore.PaxosKv

open PaxosStore.Consensus PInsAliveState

-- The three servers with the number of assertions that failed so far.
structure Watched where
  servers : Servers
  failures : Nat
deriving DecidableEq

-- A Set of a value where there is no instance yet, or where one is pending; the
-- redo of a live proposal; a message from another server; a question for the
-- chosen value; the loss of the in-memory state.
inductive Turn where
  | begin (i : Fin 3) (value : Entry) (quick learnerOnly written : Bool)
  | preempt (i : Fin 3) (value : Entry) (learnerOnly written : Bool)
  | redo (i : Fin 3) (value : Entry) (learnerOnly written : Bool)
  | receive (i : Fin 3) (msg : Message) (learnerOnly written : Bool)
  | ask (i j : Fin 3) (learnerOnly written : Bool)
  | lose (i : Fin 3)
deriving DecidableEq

-- A message a server gives itself.
def requestOf (type : MessageType) (i : Fin 3) (num : Nat) (value : Entry) : Message :=
  { type := type, fromId := i, toId := some i, proposedNum := num, acceptedValue := some value }

def questionOf (i j : Fin 3) : Message := { type := .getChosen, fromId := i, toId := some j, proposedNum := 0 }

namespace Servers

def setAlive (s : Servers) (i : Fin 3) (alive : Option PInsAliveState) : Servers := s.setServer i { s.server i with alive := alive }

-- The cache no longer gives out a state that is marked chosen.
def retire (s : Servers) (i : Fin 3) : Servers :=
  if (s.server i).alive.any (·.propState = .chosen) then s.setAlive i none else s

end Servers

namespace Watched

def start : Watched := ⟨Servers.start, 0⟩

def handle (w : Watched) (i : Fin 3) (msg : Message) (learnerOnly written : Bool) : Watched where
  servers := w.servers.handle i msg learnerOnly written
  failures := w.failures + if (wrapperStep learnerOnly i msg (w.servers.server i).alive (w.servers.server i).pins).isNone then 1 else 0

def drop (w : Watched) (i : Fin 3) : Watched := { w with servers := w.servers.setAlive i none }

-- Set makes a new state and keeps it only if the instance was written.
def propose (w : Watched) (i : Fin 3) (propCnt : Nat) (msg : Message) (learnerOnly written : Bool) : Watched :=
  let made : Watched := { w with servers := w.servers.setAlive i (some (.create (selfid i) propCnt)) }
  let done := made.handle i msg learnerOnly written
  if learnerOnly || !written then done.drop i else done

-- The number for a proposal after the one stored; its generator has assertions of its own.
def numbered (w : Watched) (i : Fin 3) (rest : Nat → Watched) : Watched :=
  match (PropNumGen.mk (selfid i) 0).next (w.servers.server i).pins.proposedNum with
  | none => { w.drop i with failures := w.failures + 1 }
  | some gen => rest gen.get

def act (fast : Fin 3) (w : Watched) : Turn → Option Watched
  | .begin i value quick learnerOnly written =>
      if (w.servers.server i).pins = {} ∧ (quick = true → i = fast) then
        let type := if quick then MessageType.beginFastProp else MessageType.beginProp
        some (w.propose i 0 (requestOf type i (propNumCompose (selfid i) 0) value) learnerOnly written)
      else none
  | .preempt i value learnerOnly written =>
      if (w.servers.server i).pins.chosen = false then
        some (w.numbered i fun num => w.propose i (getPropCnt num) (requestOf .tryProp i num value) learnerOnly written)
      else none
  | .redo i value learnerOnly written =>
      let retired : Watched := { w with servers := w.servers.retire i }
      match (retired.servers.server i).alive with
      | none => none
      | some state =>
          if (w.servers.server i).pins.chosen = false then
            let again := (state.proposingValue.or (w.servers.server i).pins.acceptedValue).getD value
            some (retired.numbered i fun num => retired.handle i (requestOf .tryRedoProp i num again) learnerOnly written)
          else none
  | .receive i msg learnerOnly written =>
      if msg ∈ w.servers.sent ∧ Servers.addressed i msg then
        some (handle { w with servers := w.servers.retire i } i msg learnerOnly written)
      else none
  | .ask i j learnerOnly written =>
      if i ≠ j then some (handle { w with servers := w.servers.retire j } j (questionOf i j) learnerOnly written) else none
  | .lose i => some (w.drop i)

end Watched

instance (s : Servers) (i : Fin 3) (msg : Message) : Decidable (Stale s i msg) := inferInstanceAs (Decidable (_ ∧ (_ ∨ _)))

instance (s : Servers) : Decidable (Low s) := inferInstanceAs (Decidable (_ ∧ _))

-- The numbers leave room, and no server is asked again for what it granted and
-- can no longer grant.
def careful (s : Servers) : Turn → Bool
  | .receive i msg _ _ => Low s ∧ ¬ Stale s i msg
  | _ => Low s

def Watched.carefulAct (fast : Fin 3) (w : Watched) (turn : Turn) : Option Watched :=
  if careful w.servers turn then w.act fast turn else none

-- The invariant of a run; `Backed` is the one that agreement rests on.
structure Sane (fast : Fin 3) (s : Servers) : Prop where
  orderly : Orderly s
  backed : NoBegin s ∧ ∃ h, Backed fast h s

theorem orderly_start : Orderly Servers.start where
  pins := fun _ => ⟨formed_empty, fun _ _ wrong => (by cases wrong), .inl rfl⟩
  alive := fun _ _ wrong => by cases wrong
  flight := fun _ wrong => by cases wrong
  consistent := fun _ wrong => by cases wrong
  agree := fun _ _ wrong => by cases wrong

theorem set_again (s : Servers) (i : Fin 3) (first second : Server) : (s.setServer i first).setServer i second = s.setServer i second := by
  simp [Servers.setServer]

theorem sane_drop (fast i : Fin 3) (s : Servers) (sane : Sane fast s) : Sane fast (s.setAlive i none) :=
  ⟨orderly_lose s i sane.orderly, backed_act fast s (.lose i) _ sane.backed rfl⟩

theorem sane_retire (fast i : Fin 3) (s : Servers) (sane : Sane fast s) : Sane fast (s.retire i) := by
  unfold Servers.retire
  split
  · exact sane_drop fast i s sane
  · exact sane

theorem retire_pins (s : Servers) (i : Fin 3) : ((s.retire i).server i).pins = (s.server i).pins := by
  unfold Servers.retire
  split
  · simp [Servers.setAlive, Servers.setServer]
  · rfl

theorem retire_sent (s : Servers) (i : Fin 3) : (s.retire i).sent = s.sent := by
  unfold Servers.retire
  split
  · rfl
  · rfl

theorem retire_going (s : Servers) (i : Fin 3) (state : PInsAliveState) (present : ((s.retire i).server i).alive = some state) :
    state.propState ≠ .chosen := by
  unfold Servers.retire at present
  split at present
  · simp [Servers.setAlive, Servers.setServer] at present
  · rename_i going
    rw [present] at going
    simpa using going

theorem retire_low (s : Servers) (i : Fin 3) (low : Low s) : Low (s.retire i) := by
  unfold Servers.retire
  split
  · refine ⟨fun j => ?_, low.2⟩
    by_cases here : j = i
    · subst here
      have before := low.1 j
      simp only [Servers.setAlive, Servers.setServer, Function.update_self]
      exact ⟨before.1, before.2.1, fun _ wrong => by cases wrong⟩
    · simp only [Servers.setAlive, Servers.setServer, Function.update_of_ne here]
      exact low.1 j
  · exact low

theorem retire_stale (s : Servers) (i : Fin 3) (msg : Message) (fresh : ¬ Stale s i msg) : ¬ Stale (s.retire i) i msg := by
  rw [Stale, retire_pins, retire_sent]
  exact fresh

-- The reply to a message that is not for the proposer.
theorem idle_run (s : Servers) (i : Fin 3) (msg : Message) (learnerOnly : Bool) (orderly : Orderly s) (open_ : (s.server i).pins.chosen = false)
    (idle : learnerOnly = true ∧ msg.type ≠ .chosen ∨ msg.type = .getChosen) :
    wrapperStep learnerOnly i msg (s.server i).alive (s.server i).pins = some (false, none, (s.server i).alive, (s.server i).pins) ∧
      Fine s i none (s.server i).alive (s.server i).pins := by
  refine ⟨?_, silent_fine s i orderly⟩
  by_cases learner : learnerOnly = true ∧ msg.type ≠ .chosen
  · rw [wrapperStep, if_neg (by simp [open_]), stepNotChosen, if_pos learner]
  · have kind : msg.type = .getChosen := idle.resolve_left learner
    refine wrapper_run learnerOnly i msg _ _ _ _ false .noop none open_ learner ?_ rfl
    rw [stepByType, kind]

theorem receive_run (fast : Fin 3) (h : History) (s : Servers) (i : Fin 3) (msg : Message) (learnerOnly : Bool) (orderly : Orderly s)
    (backed : Backed fast h s) (low : Low s) (fresh : ¬ Stale s i msg) (member : msg ∈ s.sent) (addressed : Servers.addressed i msg = true)
    (going : ∀ state, (s.server i).alive = some state → state.propState ≠ .chosen) :
    ∃ write rsp next stored, wrapperStep learnerOnly i msg (s.server i).alive (s.server i).pins = some (write, rsp, next, stored) ∧
      Fine s i rsp next stored ∧ Unwritten s i next := by
  have flight := backed.flight msg member
  have sent := orderly.flight msg member
  have remote : msg.fromId ≠ i := by
    have target : msg.toId = some i ∨ msg.toId = none ∧ msg.fromId ≠ i := of_decide_eq_true addressed
    rcases target with direct | ⟨_, other⟩
    · rintro rfl
      have protocol := sent.protocol
      have broadcast := flight.broadcast
      have answer := flight.answer
      have chosen := sent.chosen
      cases type : msg.type <;> simp [type, direct, Servers.isRequest] at protocol broadcast answer chosen
    · exact other
  cases marked : (s.server i).pins.chosen with
  | true =>
      obtain ⟨rsp, done, fine⟩ := chosen_pins_run fast h s i msg learnerOnly orderly backed flight (fun _ _ => remote) marked
      exact ⟨_, _, _, _, done, fine, orderly.alive i⟩
  | false =>
      by_cases learner : learnerOnly = true ∧ msg.type ≠ .chosen
      · obtain ⟨done, fine⟩ := idle_run s i msg learnerOnly orderly marked (.inl learner)
        exact ⟨_, _, _, _, done, fine, orderly.alive i⟩
      · have numbers := low.1 i
        have protocol := sent.protocol
        cases kind : msg.type <;> simp [kind, Servers.isRequest] at protocol
        case prop =>
          obtain ⟨_, _, _, _, done, fine, same⟩ := prop_run s i msg learnerOnly orderly marked learner kind fresh
          exact ⟨_, _, _, _, done, fine, same ▸ orderly.alive i⟩
        case accpt =>
          obtain ⟨_, _, _, _, done, fine, same⟩ := accpt_run fast h s i msg learnerOnly orderly backed marked learner member
            (by simp [kind, isProposal]) fresh
          exact ⟨_, _, _, _, done, fine, same ▸ orderly.alive i⟩
        case fastAccpt =>
          obtain ⟨_, _, _, _, done, fine, same⟩ := accpt_run fast h s i msg learnerOnly orderly backed marked learner member
            (by simp [kind, isProposal]) fresh
          exact ⟨_, _, _, _, done, fine, same ▸ orderly.alive i⟩
        case chosen =>
          exact learn_run fast h s i msg learnerOnly orderly backed marked member kind remote (below_limit _ (low.2 msg member).1)
            (below_limit _ numbers.1) (below_limit _ numbers.2.1)
        all_goals
          exact response_run fast h s i msg learnerOnly orderly backed low marked learner member remote (by simp [kind, isVote]) going

theorem handle_failures (w : Watched) (i : Fin 3) (msg : Message) (learnerOnly written : Bool)
    (done : (wrapperStep learnerOnly i msg (w.servers.server i).alive (w.servers.server i).pins).isSome = true) :
    (w.handle i msg learnerOnly written).failures = w.failures := by
  rw [Watched.handle]
  dsimp only
  rw [if_neg (by rw [Option.isNone_iff_eq_none, ← Option.not_isSome_iff_eq_none]; exact not_not_intro done)]
  rfl

theorem sane_handle (fast i : Fin 3) (w : Watched) (msg : Message) (learnerOnly written write : Bool) (rsp : Option Message)
    (next : Option PInsAliveState) (stored : PaxosInstance) (event : Event) (sane : Sane fast w.servers)
    (acts : w.servers.act fast event = some (w.servers.handle i msg learnerOnly written))
    (done : wrapperStep learnerOnly i msg (w.servers.server i).alive (w.servers.server i).pins = some (write, rsp, next, stored))
    (fine : Fine w.servers i rsp next stored) (unwritten : Unwritten w.servers i next) :
    Sane fast (w.handle i msg learnerOnly written).servers ∧ (w.handle i msg learnerOnly written).failures = w.failures := by
  refine ⟨⟨orderly_handle w.servers i msg learnerOnly written write rsp next stored sane.orderly done fine unwritten,
    backed_act fast w.servers event _ sane.backed acts⟩, handle_failures w i msg learnerOnly written ?_⟩
  rw [done]
  rfl

theorem alive_set (s : Servers) (i : Fin 3) (alive : Option PInsAliveState) : (s.setAlive i alive).server i = ⟨(s.server i).pins, alive⟩ := by
  simp [Servers.setAlive, Servers.setServer]

-- A new proposer that handled its first message, and one that is then forgotten.
theorem orderly_made (s : Servers) (i : Fin 3) (made : PInsAliveState) (msg : Message) (learnerOnly write : Bool) (rsp : Option Message)
    (next : Option PInsAliveState) (stored : PaxosInstance) (orderly : Orderly s)
    (done : wrapperStep learnerOnly i msg (some made) (s.server i).pins = some (write, rsp, next, stored))
    (fine : Fine s i rsp next stored) : Orderly ((s.setAlive i (some made)).handle i msg learnerOnly true) := by
  rw [Servers.handle, alive_set, done]
  dsimp only
  rw [if_neg (by simp), Servers.setAlive, set_again]
  exact orderly_change s i stored next rsp _ orderly fine.pins fine.grows fine.alive fine.answered

theorem orderly_forgotten (s : Servers) (i : Fin 3) (made : PInsAliveState) (msg : Message) (learnerOnly written write : Bool)
    (rsp : Option Message) (next : Option PInsAliveState) (stored : PaxosInstance) (orderly : Orderly s)
    (done : wrapperStep learnerOnly i msg (some made) (s.server i).pins = some (write, rsp, next, stored))
    (kept : write = true ∧ written = false ∨ rsp = none ∧ stored = (s.server i).pins) :
    Orderly (((s.setAlive i (some made)).handle i msg learnerOnly written).setAlive i none) := by
  have plain (marks : List (Fin 3 × Entry)) : Orderly { s.setServer i ⟨(s.server i).pins, none⟩ with marks := marks } :=
    orderly_change s i (s.server i).pins none none marks orderly (orderly.pins i) (grows_refl _)
      (fun _ wrong => by cases wrong) (fun _ wrong => by cases wrong)
  rw [Servers.handle, alive_set, done]
  dsimp only
  rcases kept with ⟨rfl, rfl⟩ | ⟨rfl, rfl⟩
  · rw [if_pos (by simp)]
    simp only [Servers.setAlive, Servers.setServer, Function.update_idem, Function.update_self]
    exact plain _
  · split
    · simp only [Servers.setAlive, Servers.setServer, Function.update_idem, Function.update_self]
      exact plain _
    · simp only [Servers.setAlive, Servers.setServer, Function.update_idem, Function.update_self]
      exact plain _

theorem sane_propose (fast i : Fin 3) (w : Watched) (propCnt : Nat) (msg : Message) (learnerOnly written : Bool) (sane : Sane fast w.servers)
    (request : Servers.isRequest msg.type = true ∧ (msg.type = .beginFastProp → i = fast))
    (open_ : (w.servers.server i).pins.chosen = false)
    (runs : ∃ rsp next stored, wrapperStep false i msg (some (.create (selfid i) propCnt)) (w.servers.server i).pins =
      some (true, rsp, next, stored) ∧ Fine w.servers i rsp next stored) :
    Sane fast (w.propose i propCnt msg learnerOnly written).servers ∧ (w.propose i propCnt msg learnerOnly written).failures = w.failures := by
  have made := backed_act fast w.servers (.create i propCnt) _ sane.backed rfl
  have handled := backed_act fast _ (.request i msg learnerOnly written) _ made (if_pos request)
  have dropped := backed_act fast _ (.lose i) _ handled rfl
  have notChosen : msg.type ≠ .chosen := by
    intro wrong
    simp [wrong, Servers.isRequest] at request
  rw [Watched.propose]
  cases learnerOnly with
  | true =>
      have done : wrapperStep true i msg (some (.create (selfid i) propCnt)) (w.servers.server i).pins =
          some (false, none, some (.create (selfid i) propCnt), (w.servers.server i).pins) := by
        rw [wrapperStep, if_neg (by simp [open_]), stepNotChosen, if_pos ⟨rfl, notChosen⟩]
      refine ⟨⟨orderly_forgotten w.servers i _ msg true written _ _ _ _ sane.orderly done (.inr ⟨rfl, rfl⟩), dropped⟩, ?_⟩
      exact handle_failures _ i msg true written (by rw [alive_set, done]; rfl)
  | false =>
      obtain ⟨rsp, next, stored, done, fine⟩ := runs
      have counted (written : Bool) := handle_failures { w with servers := w.servers.setAlive i (some (.create (selfid i) propCnt)) } i msg false
        written (by rw [alive_set, done]; rfl)
      cases written with
      | true => exact ⟨⟨orderly_made w.servers i _ msg false true rsp next stored sane.orderly done fine, handled⟩, counted true⟩
      | false =>
          exact ⟨⟨orderly_forgotten w.servers i _ msg false false true rsp next stored sane.orderly done (.inl ⟨rfl, rfl⟩), dropped⟩,
            counted false⟩

-- A round that a request starts, be it with a new state or a live one.
theorem round_run (s : Servers) (i : Fin 3) (msg : Message) (state next : PInsAliveState) (stored : PaxosInstance) (orderly : Orderly s)
    (open_ : (s.server i).pins.chosen = false)
    (proposing : ∀ alive pins, stepByType msg alive pins = stepByType.proposing msg alive pins)
    (stepped : state.step msg (s.server i).pins = some (true, .prop, next, stored)) (round : Round i (s.server i).pins next stored) :
    ∃ rsp next stored, wrapperStep false i msg (some state) (s.server i).pins = some (true, rsp, next, stored) ∧
      Fine s i rsp next stored ∧ Unwritten s i next := by
  have pins := orderly.pins i
  have counted : 0 < getPropCnt stored.proposedNum := by
    rw [round.stored]
    dsimp only
    rw [count_get _ round.small]
    exact round.positive
  have produced : produceRsp i msg (some next) stored .prop =
      some (some { type := .prop, fromId := i, toId := none, proposedNum := stored.proposedNum }) := asserting_pos _ _ ⟨rfl, counted⟩
  have moved : stepByType msg (some state) (s.server i).pins = some (true, .prop, some next, stored) := by
    rw [proposing]
    unfold stepByType.proposing
    dsimp only
    rw [stepped]
    rfl
  exact ⟨_, _, _, wrapper_run false i msg _ _ _ stored true .prop _ open_ (by simp) moved produced,
    round_fine s i next stored _ pins open_ round rfl, round_unwritten s i next stored pins open_ round⟩

theorem request_proposing (type : MessageType) (i : Fin 3) (num : Nat) (value : Entry)
    (kind : type = .beginProp ∨ type = .beginFastProp ∨ type = .tryProp ∨ type = .tryRedoProp) (alive : Option PInsAliveState)
    (pins : PaxosInstance) :
    stepByType (requestOf type i num value) alive pins = stepByType.proposing (requestOf type i num value) alive pins := by
  rcases kind with rfl | rfl | rfl | rfl
  · rfl
  · rfl
  · rfl
  · rfl

theorem try_request_run (s : Servers) (i : Fin 3) (type : MessageType) (num : Nat) (value : Entry) (state : PInsAliveState)
    (orderly : Orderly s) (low : Low s) (kind : type = .tryProp ∨ type = .tryRedoProp) (open_ : (s.server i).pins.chosen = false)
    (going : state.propState ≠ .chosen) (self : state.propNumGen.selfid = selfid i) (small : state.propNumGen.Small)
    (hint : state.maxHintNum < numLimit) (limit : num < numLimit) :
    ∃ rsp next stored, wrapperStep false i (requestOf type i num value) (some state) (s.server i).pins = some (true, rsp, next, stored) ∧
      Fine s i rsp next stored ∧ Unwritten s i next := by
  obtain ⟨next, stored, done, round⟩ := try_run i state (requestOf type i num value) (s.server i).pins value (orderly.pins i).formed open_
    self small rfl (below_limit _ (low.1 i).1) hint limit
  refine round_run s i _ state next stored orderly open_ (request_proposing type i num value ?_) ?_ round
  · rcases kind with rfl | rfl
    · exact .inr (.inr (.inl rfl))
    · exact .inr (.inr (.inr rfl))
  · rw [PInsAliveState.step, asserting_pos _ _ going]
    rcases kind with rfl | rfl
    · exact done
    · exact done

theorem begin_request_run (s : Servers) (i : Fin 3) (num : Nat) (value : Entry) (orderly : Orderly s) (empty : (s.server i).pins = {}) :
    ∃ rsp next stored, wrapperStep false i (requestOf .beginProp i num value) (some (.create (selfid i) 0)) (s.server i).pins =
      some (true, rsp, next, stored) ∧ Fine s i rsp next stored := by
  obtain ⟨next, stored, done, round⟩ := begin_run i (requestOf .beginProp i num value) value rfl rfl
  rw [← empty] at done round
  obtain ⟨rsp, after, kept, run, fine, _⟩ := round_run s i _ (.create (selfid i) 0) next stored orderly (by rw [empty])
    (request_proposing .beginProp i num value (.inl rfl)) done round
  exact ⟨rsp, after, kept, run, fine⟩

-- Without an instance there is no proposal of this server either.
theorem empty_unproposed (h : History) (i : Fin 3) (pins : PaxosInstance) (backed : PinsBacked h i pins) (empty : pins = {}) (num : Nat)
    (owns : Owns i num) : h.proposal num = none := by
  cases known : h.proposal num with
  | none => rfl
  | some value =>
      have used := backed.proposed num value known owns
      have positive := owned_positive i num owns
      rw [empty] at used
      have zero : num ≤ 0 := used
      omega

theorem fast_request_run (fast : Fin 3) (h : History) (s : Servers) (i : Fin 3) (num : Nat) (value : Entry) (orderly : Orderly s)
    (backed : Backed fast h s) (empty : (s.server i).pins = {}) :
    ∃ rsp next stored, wrapperStep false i (requestOf .beginFastProp i num value) (some (.create (selfid i) 0)) (s.server i).pins =
      some (true, rsp, next, stored) ∧ Fine s i rsp next stored := by
  have bounds := selfid_small i
  have number : PropNumGen.get ⟨selfid i, 0⟩ = selfid i := compose_zero (selfid i) bounds.2
  have done := begin_fast_run i (requestOf .beginFastProp i num value) value rfl rfl
  let next : PInsAliveState := { begun ⟨selfid i, 0⟩ value with propState := .waitAccept }
  let mid : PaxosInstance := { proposedNum := selfid i, promisedNum := some (selfid i) }
  let stored : PaxosInstance :=
    { proposedNum := selfid i, promisedNum := some (selfid i), acceptedNum := some (selfid i), acceptedValue := some value }
  have moved : stepByType (requestOf .beginFastProp i num value) (some (.create (selfid i) 0)) (s.server i).pins =
      some (true, .fastAccpt, some next, stored) := by
    rw [request_proposing .beginFastProp i num value (.inr (.inl rfl)), empty]
    unfold stepByType.proposing
    dsimp only
    rw [PInsAliveState.step, asserting_pos _ _ (by simp [create])]
    exact congrArg _ done
  have counted : decide (getPropCnt (selfid i) = 0) = true := by
    rw [decide_eq_true_eq, getPropCnt, propNumDecompose]
    omega
  have produced : produceRsp i (requestOf .beginFastProp i num value) (some next) stored .fastAccpt = some (some {
      type := .fastAccpt, fromId := i, toId := none, proposedNum := PropNumGen.get ⟨selfid i, 0⟩, acceptedValue := some value }) :=
    asserting_pos _ _ ⟨rfl, rfl, rfl, number.symm, rfl, counted⟩
  have formed : Formed mid := ⟨rfl, fun _ wrong => (by cases wrong), fun _ => Nat.le_refl _, fun wrong => by cases wrong⟩
  have grows : Grows (s.server i).pins mid := by
    rw [empty]
    exact fun _ => ⟨rfl, Nat.zero_le _, fun _ wrong => by cases wrong⟩
  have proposal : Proposal mid ⟨selfid i, 0⟩ value next stored :=
    ⟨rfl, rfl, Nat.le_of_eq number.symm, rfl, rfl, by rw [number]⟩
  refine ⟨_, _, _, wrapper_run false i _ _ _ _ stored true .fastAccpt _ (by rw [empty]) (by simp) moved produced, ?_⟩
  refine proposal_fine fast h s i mid ⟨selfid i, 0⟩ value next stored .fastAccpt orderly backed formed rfl grows proposal rfl
    ⟨bounds.2, by dsimp only; omega⟩ number.symm rfl (fun _ => ?_) (empty_unproposed h i _ (backed.pins i) empty _ ?_)
  · rw [number, lastFast]
    omega
  · exact gen_owned i _ rfl

-- The number of a proposal is one raise above the stored one.
theorem numbered_run (w : Watched) (i : Fin 3) (rest : Nat → Watched) (low : Low w.servers) :
    ∃ gen : PropNumGen, w.numbered i rest = rest gen.get ∧ gen.selfid = selfid i ∧ gen.Small ∧ gen.get < numLimit := by
  have proposed := (low.1 i).2.1
  have bounds := selfid_small i
  have small : PropNumGen.Small ⟨selfid i, 0⟩ := ⟨bounds.2, by dsimp only; omega⟩
  obtain ⟨gen, taken, raised, _, close⟩ := PropNumGen.next_run ⟨selfid i, 0⟩ _ small (below_limit _ proposed)
  have top := limit_safe _ proposed
  have first : PropNumGen.get ⟨selfid i, 0⟩ = selfid i := compose_zero (selfid i) bounds.2
  refine ⟨gen, by rw [Watched.numbered, taken], raised.self, raised.small, Nat.lt_of_le_of_lt close (Nat.max_lt.mpr ⟨?_, top⟩)⟩
  rw [first, numLimit]
  omega

theorem sane_act (fast : Fin 3) (w : Watched) (turn : Turn) (next : Watched) (sane : Sane fast w.servers) (careful_ : careful w.servers turn = true)
    (done : w.act fast turn = some next) : Sane fast next.servers ∧ next.failures = w.failures := by
  obtain ⟨h, backed⟩ := sane.backed.2
  cases turn with
  | begin i value quick learnerOnly written =>
      rw [Watched.act] at done
      split at done
      · rename_i allowed
        cases done
        have open_ : (w.servers.server i).pins.chosen = false := by rw [allowed.1]
        cases quick with
        | false =>
            exact sane_propose fast i w 0 _ learnerOnly written sane ⟨rfl, fun wrong => by cases wrong⟩ open_
              (begin_request_run w.servers i _ value sane.orderly allowed.1)
        | true =>
            exact sane_propose fast i w 0 _ learnerOnly written sane ⟨rfl, fun _ => allowed.2 rfl⟩ open_
              (fast_request_run fast h w.servers i _ value sane.orderly backed allowed.1)
      · cases done
  | preempt i value learnerOnly written =>
      have low : Low w.servers := of_decide_eq_true careful_
      rw [Watched.act] at done
      split at done
      · rename_i open_
        cases done
        obtain ⟨gen, taken, self, small, limit⟩ := numbered_run w i
          (fun num => w.propose i (getPropCnt num) (requestOf .tryProp i num value) learnerOnly written) low
        rw [taken]
        have created : (create (selfid i) (getPropCnt gen.get)).propNumGen.Small := by
          rw [count_get gen small]
          exact ⟨(selfid_small i).2, small.count⟩
        obtain ⟨rsp, after, stored, run, fine, _⟩ := try_request_run w.servers i .tryProp gen.get value
          (create (selfid i) (getPropCnt gen.get)) sane.orderly low (.inl rfl) open_ (by simp [create]) rfl created
          (by rw [numLimit, create]; dsimp only; omega) limit
        exact sane_propose fast i w _ _ learnerOnly written sane ⟨rfl, fun wrong => by cases wrong⟩ open_ ⟨rsp, after, stored, run, fine⟩
      · cases done
  | redo i value learnerOnly written =>
      have low : Low w.servers := of_decide_eq_true careful_
      have retired := sane_retire fast i w.servers sane
      rw [Watched.act] at done
      dsimp only at done
      cases present : ((w.servers.retire i).server i).alive with
      | none =>
          rw [present] at done
          cases done
      | some state =>
          rw [present] at done
          dsimp only at done
          split at done
          · rename_i open_
            cases done
            rw [← retire_pins] at open_
            have going := retire_going w.servers i state present
            have ready := (retired.orderly.alive i state present going).ready
            have lower := retire_low w.servers i low
            obtain ⟨gen, taken, _, _, limit⟩ := numbered_run { w with servers := w.servers.retire i } i
              (fun num => Watched.handle { w with servers := w.servers.retire i } i (requestOf .tryRedoProp i num
                ((state.proposingValue.or (w.servers.server i).pins.acceptedValue).getD value)) learnerOnly written) lower
            rw [taken]
            by_cases learner : learnerOnly = true
            · obtain ⟨run, fine⟩ := idle_run (w.servers.retire i) i (requestOf .tryRedoProp i gen.get
                ((state.proposingValue.or (w.servers.server i).pins.acceptedValue).getD value)) learnerOnly retired.orderly open_
                (.inl ⟨learner, by simp [requestOf]⟩)
              exact sane_handle fast i { w with servers := w.servers.retire i } _ learnerOnly written _ _ _ _
                (.request i _ learnerOnly written) retired (if_pos ⟨rfl, fun wrong => by cases wrong⟩) run fine (retired.orderly.alive i)
            · have speaker : learnerOnly = false := by simpa using learner
              subst speaker
              obtain ⟨rsp, after, stored, run, fine, unwritten⟩ := try_request_run (w.servers.retire i) i .tryRedoProp gen.get
                ((state.proposingValue.or (w.servers.server i).pins.acceptedValue).getD value) state retired.orderly lower (.inr rfl) open_
                going ready.self ready.small (below_limit _ ((lower.1 i).2.2 state present).1) limit
              rw [← present] at run
              exact sane_handle fast i { w with servers := w.servers.retire i } _ false written _ _ _ _
                (.request i _ false written) retired (if_pos ⟨rfl, fun wrong => by cases wrong⟩) run fine unwritten
          · cases done
  | receive i msg learnerOnly written =>
      have condition : Low w.servers ∧ ¬ Stale w.servers i msg := of_decide_eq_true careful_
      have retired := sane_retire fast i w.servers sane
      obtain ⟨later, backedLater⟩ := retired.backed.2
      rw [Watched.act] at done
      split at done
      · rename_i allowed
        cases done
        have member : msg ∈ (w.servers.retire i).sent := by
          rw [retire_sent]
          exact allowed.1
        obtain ⟨write, rsp, after, stored, run, fine, unwritten⟩ := receive_run fast later (w.servers.retire i) i msg learnerOnly
          retired.orderly backedLater (retire_low w.servers i condition.1) (retire_stale w.servers i msg condition.2) member allowed.2
          (retire_going w.servers i)
        exact sane_handle fast i { w with servers := w.servers.retire i } msg learnerOnly written write rsp after stored
          (.receive i msg learnerOnly written) retired (if_pos ⟨member, allowed.2⟩) run fine unwritten
      · cases done
  | ask i j learnerOnly written =>
      have retired := sane_retire fast j w.servers sane
      obtain ⟨later, backedLater⟩ := retired.backed.2
      rw [Watched.act] at done
      split at done
      · rename_i away
        cases done
        have flight := plain_message later (questionOf i j) (.inr rfl)
        have answer : ∃ rsp, wrapperStep learnerOnly j (questionOf i j) ((w.servers.retire j).server j).alive ((w.servers.retire j).server j).pins =
            some (false, rsp, ((w.servers.retire j).server j).alive, ((w.servers.retire j).server j).pins) ∧
            Fine (w.servers.retire j) j rsp ((w.servers.retire j).server j).alive ((w.servers.retire j).server j).pins := by
          cases marked : ((w.servers.retire j).server j).pins.chosen with
          | true =>
              exact chosen_pins_run fast later (w.servers.retire j) j (questionOf i j) learnerOnly retired.orderly backedLater flight
                (fun _ _ => away) marked
          | false => exact ⟨none, idle_run (w.servers.retire j) j (questionOf i j) learnerOnly retired.orderly marked (.inr rfl)⟩
        obtain ⟨rsp, run, fine⟩ := answer
        exact sane_handle fast j { w with servers := w.servers.retire j } (questionOf i j) learnerOnly written _ _ _ _
          (.request j (questionOf i j) learnerOnly written) retired (by rw [Servers.act, if_pos ⟨rfl, fun wrong => by cases wrong⟩]) run fine
          (retired.orderly.alive j)
      · cases done
  | lose i =>
      cases done
      exact ⟨sane_drop fast i w.servers sane, rfl⟩

-- No assertion fails as long as no server is asked again for what it granted and can no longer grant.
theorem careful_turns_never_fail (fast : Fin 3) (w : Watched) (run : Reaches (Watched.carefulAct fast) Watched.start w) : w.failures = 0 := by
  have start : Sane fast Watched.start.servers ∧ Watched.start.failures = 0 := ⟨⟨orderly_start, backed_start fast⟩, rfl⟩
  refine (run_invariant (Watched.carefulAct fast) (fun w => Sane fast w.servers ∧ w.failures = 0) ?_ Watched.start w start run).2
  intro w turn next known done
  rw [Watched.carefulAct] at done
  split at done
  · rename_i allowed
    obtain ⟨sane, counted⟩ := sane_act fast w turn next known.1 allowed done
    exact ⟨sane, counted.trans known.2⟩
  · cases done

-- Server 1 promises to server 0 and then to server 2. A second copy of the first
-- request makes it refuse what it granted, and both answers reach server 0.
def repeatedPrepare : List Turn :=
  let prop (i : Fin 3) (num : Nat) : Message := { type := .prop, fromId := i, toId := none, proposedNum := num }
  let answer (promised : Nat) : Message :=
    { type := .propRsp, fromId := 1, toId := some 0, proposedNum := 65537, promisedNum := some promised }
  [.begin 0 ⟨7, [1]⟩ false false true, .receive 1 (prop 0 65537) false true, .begin 2 ⟨8, [2]⟩ false false true,
    .receive 1 (prop 2 65539) false true, .receive 1 (prop 0 65537) false true,
    .receive 0 (answer 65539) false true, .receive 0 (answer 65537) false true]

theorem repeated_prepare_fails : ¬ ∀ fast w, Reaches (Watched.act fast) Watched.start w → w.failures = 0 := by
  intro never
  have run := reaches_end (Watched.act 0) Watched.start repeatedPrepare (by decide +kernel)
  have failed : (endOf (Watched.act 0) Watched.start repeatedPrepare).failures = 1 := by decide +kernel
  rw [never 0 _ run] at failed
  cases failed

-- Without the second copy the same servers get along.
theorem single_prepare_passes : ∃ w, Reaches (Watched.carefulAct 0) Watched.start w ∧ w.servers.sent.length = 4 ∧ w.failures = 0 := by
  have run := reaches_end (Watched.carefulAct 0) Watched.start (repeatedPrepare.take 4) (by decide +kernel)
  exact ⟨_, run, by decide +kernel, careful_turns_never_fail 0 _ run⟩

end PaxosStore.PaxosKv
