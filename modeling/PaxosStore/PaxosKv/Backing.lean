import PaxosStore.PaxosKv.StepSpecs
import PaxosStore.Consensus.Voting

set_option autoImplicit false

namespace PaxosStore.PaxosKv

open PaxosStore.Consensus

abbrev History := Voting (Fin 3) Entry

-- The largest number with count 0: these skip the prepare phase.
def lastFast : Nat := 2 ^ 16 - 1

def Owns (i : Fin 3) (ballot : Nat) : Prop := ballot % 2 ^ 16 = selfid i

def Quiet (h : History) (i : Fin 3) (low high : Nat) : Prop := ∀ ballot, low < ballot → ballot < high → h.vote i ballot = none

structure Ledger (fast : Fin 3) (h : History) : Prop where
  sound : h.Sound lastFast
  owner : ∀ ballot value, h.proposal ballot = some value → 0 < ballot ∧ ∀ i, Owns i ballot → h.vote i ballot = some value
  first : ∀ ballot, ballot ≤ lastFast → h.proposal ballot ≠ none → ballot = selfid fast

-- What the history guarantees for the stored instance of server `i`. Once it is
-- chosen the server only answers with the chosen value.
structure PinsBacked (h : History) (i : Fin 3) (pins : PaxosInstance) : Prop where
  promised : pins.chosen = false → h.promised i = pins.promisedNum.getD 0
  accepted : pins.chosen = false → ∀ num, pins.acceptedNum = some num →
    ∃ value, pins.acceptedValue = some value ∧ h.vote i num = some value
  last : pins.chosen = false → ∀ low, pins.acceptedNum.getD 0 < low → h.vote i low = none
  ordered : pins.chosen = false → pins.acceptedNum.getD 0 ≤ pins.promisedNum.getD 0
  proposed : ∀ ballot value, h.proposal ballot = some value → Owns i ballot → ballot ≤ pins.proposedNum
  chosen : pins.chosen = true → ∃ value ballot, pins.acceptedValue = some value ∧ h.Chosen ballot value

-- The own number is promised, unused, and nobody counted voted above the hint.
structure Prepared (h : History) (i : Fin 3) (alive : PInsAliveState) : Prop where
  fresh : h.proposal alive.propNumGen.get = none
  reached : alive.propNumGen.get ≤ h.promised i
  quiet : Quiet h i alive.maxAcceptedHintNum alive.propNumGen.get
  votes : ∀ peer, alive.rspVotes peer = some true → peer ≠ i ∧ alive.propNumGen.get ≤ h.promised peer ∧
    Quiet h peer alive.maxAcceptedHintNum alive.propNumGen.get

structure Hinted (h : History) (i : Fin 3) (alive : PInsAliveState) : Prop where
  self : alive.propNumGen.selfid = selfid i
  hint : ∀ value, alive.proposingValue = some value → 0 < alive.maxAcceptedHintNum →
    h.proposal alive.maxAcceptedHintNum = some value

-- A prepare phase counts only if its number was really stored.
structure AliveBacked (h : History) (i : Fin 3) (pins : PaxosInstance) (alive : PInsAliveState) : Prop where
  hinted : Hinted h i alive
  preparing : alive.propState = .waitPrepare → alive.propNumGen.get = pins.proposedNum → Prepared h i alive
  accepting : alive.propState = .waitAccept → ∀ peer, alive.rspVotes peer = some true →
    peer ≠ i ∧ h.vote peer alive.propNumGen.get ≠ none

def AliveOk (h : History) (i : Fin 3) (pins : PaxosInstance) (alive : Option PInsAliveState) : Prop :=
  ∀ state, alive = some state → AliveBacked h i pins state

structure MessageBacked (h : History) (msg : Message) : Prop where
  broadcast : msg.type = .prop ∨ msg.type = .accpt ∨ msg.type = .fastAccpt → msg.toId = none
  answer : msg.type = .propRsp ∨ msg.type = .accptRsp ∨ msg.type = .fastAccptRsp → msg.toId ≠ none ∧ msg.toId ≠ some msg.fromId
  hint : msg.type = .propRsp → (msg.acceptedValue = none → msg.acceptedNum = none) ∧
    ∀ value, msg.acceptedValue = some value → h.proposal (msg.acceptedNum.getD 0) = some value
  promise : msg.type = .propRsp → msg.promisedNum.getD 0 = msg.proposedNum →
    msg.proposedNum ≤ h.promised msg.fromId ∧ Quiet h msg.fromId (msg.acceptedNum.getD 0) msg.proposedNum
  proposal : msg.type = .accpt ∨ msg.type = .fastAccpt → ∀ value, msg.acceptedValue = some value →
    h.proposal msg.proposedNum = some value
  vote : msg.type = .accptRsp ∨ msg.type = .fastAccptRsp → 0 < msg.proposedNum → msg.acceptedNum = some msg.proposedNum →
    h.vote msg.fromId msg.proposedNum ≠ none
  chosen : msg.type = .chosen → ∀ value, msg.acceptedValue = some value → ∃ ballot, h.Chosen ballot value

structure Backed (fast : Fin 3) (h : History) (s : Servers) : Prop where
  ledger : Ledger fast h
  pins : ∀ i, PinsBacked h i (s.server i).pins
  alive : ∀ i, AliveOk h i (s.server i).pins (s.server i).alive
  flight : ∀ msg, msg ∈ s.sent → MessageBacked h msg
  marks : ∀ i value, (i, value) ∈ s.marks → ∃ ballot, h.Chosen ballot value

-- Server `i` takes a step: it alone promises and votes, and proposes only under its own numbers.
structure Moved (fast : Fin 3) (i : Fin 3) (h next : History) : Prop where
  later : h.Extends next
  ledger : Ledger fast next
  others : ∀ j, j ≠ i → next.promised j = h.promised j ∧ next.vote j = h.vote j
  foreign : ∀ j, j ≠ i → ∀ ballot, Owns j ballot → next.proposal ballot = h.proposal ballot

theorem selfid_small (i : Fin 3) : 0 < selfid i ∧ selfid i < 2 ^ 16 := by
  unfold selfid
  omega

theorem owner_unique (i j : Fin 3) (ballot : Nat) (left : Owns i ballot) (right : Owns j ballot) : i = j := by
  unfold Owns selfid at left right
  omega

theorem owned_positive (i : Fin 3) (ballot : Nat) (owns : Owns i ballot) : 0 < ballot := by
  have small := selfid_small i
  unfold Owns at owns
  omega

theorem hinted_owns (h : History) (i : Fin 3) (alive : PInsAliveState) (hinted : Hinted h i alive) :
    Owns i alive.propNumGen.get := by
  rw [Owns, PropNumGen.get, hinted.self]
  exact compose_owner (selfid i) _ (selfid_small i).2

theorem quiet_extends (h next : History) (i : Fin 3) (low high : Nat) (later : h.Extends next) (reached : high ≤ h.promised i)
    (quiet : Quiet h i low high) : Quiet next i low high :=
  fun ballot above below => later.abstained i ballot (Nat.lt_of_lt_of_le below reached) (quiet ballot above below)

theorem quiet_raise (h : History) (i : Fin 3) (low larger high : Nat) (grown : low ≤ larger) (quiet : Quiet h i low high) :
    Quiet h i larger high :=
  fun ballot above below => quiet ballot (Nat.lt_of_le_of_lt grown above) below

theorem hinted_extends (h next : History) (i : Fin 3) (alive : PInsAliveState) (later : h.Extends next)
    (hinted : Hinted h i alive) : Hinted next i alive :=
  ⟨hinted.self, fun value known positive => later.proposal _ value (hinted.hint value known positive)⟩

theorem prepared_extends (h next : History) (i : Fin 3) (alive : PInsAliveState) (later : h.Extends next)
    (kept : next.proposal alive.propNumGen.get = h.proposal alive.propNumGen.get) (prepared : Prepared h i alive) :
    Prepared next i alive where
  fresh := kept.trans prepared.fresh
  reached := Nat.le_trans prepared.reached (later.promised i)
  quiet := quiet_extends h next i _ _ later prepared.reached prepared.quiet
  votes := by
    intro peer counted
    obtain ⟨other, reached, quiet⟩ := prepared.votes peer counted
    exact ⟨other, Nat.le_trans reached (later.promised peer), quiet_extends h next peer _ _ later reached quiet⟩

-- An in-memory state outlives a step that leaves its number alone.
theorem alive_extends (h next : History) (i : Fin 3) (pins stored : PaxosInstance) (alive : Option PInsAliveState)
    (later : h.Extends next) (kept : ∀ ballot, Owns i ballot → next.proposal ballot = h.proposal ballot)
    (same : stored.proposedNum = pins.proposedNum) (ok : AliveOk h i pins alive) : AliveOk next i stored alive := by
  intro state here
  have backed := ok state here
  constructor
  · exact hinted_extends h next i state later backed.hinted
  · intro waiting number
    rw [same] at number
    exact prepared_extends h next i state later (kept _ (hinted_owns h i state backed.hinted)) (backed.preparing waiting number)
  · intro waiting peer counted
    obtain ⟨other, voted⟩ := backed.accepting waiting peer counted
    refine ⟨other, fun absent => ?_⟩
    obtain ⟨value, known⟩ := Option.ne_none_iff_exists'.mp voted
    rw [later.vote peer _ value known] at absent
    cases absent

theorem message_extends (h next : History) (msg : Message) (later : h.Extends next) (backed : MessageBacked h msg) :
    MessageBacked next msg where
  broadcast := backed.broadcast
  answer := backed.answer
  hint := fun type => ⟨(backed.hint type).1, fun value known => later.proposal _ value ((backed.hint type).2 value known)⟩
  promise := by
    intro type equal
    obtain ⟨reached, quiet⟩ := backed.promise type equal
    exact ⟨Nat.le_trans reached (later.promised _), quiet_extends h next _ _ _ later reached quiet⟩
  proposal := fun type value known => later.proposal _ value (backed.proposal type value known)
  vote := by
    intro type positive equal absent
    obtain ⟨value, known⟩ := Option.ne_none_iff_exists'.mp (backed.vote type positive equal)
    rw [later.vote _ _ value known] at absent
    cases absent
  chosen := by
    intro type value known
    obtain ⟨ballot, chosen⟩ := backed.chosen type value known
    exact ⟨ballot, Voting.chosen_extends h next ballot value later chosen⟩

theorem pins_other (fast i j : Fin 3) (h next : History) (pins : PaxosInstance) (moved : Moved fast i h next) (other : j ≠ i)
    (backed : PinsBacked h j pins) : PinsBacked next j pins := by
  obtain ⟨samePromise, sameVotes⟩ := moved.others j other
  constructor
  · rw [samePromise]
    exact backed.promised
  · rw [sameVotes]
    exact backed.accepted
  · rw [sameVotes]
    exact backed.last
  · exact backed.ordered
  · intro ballot value known owns
    rw [moved.foreign j other ballot owns] at known
    exact backed.proposed ballot value known owns
  · intro marked
    obtain ⟨value, ballot, known, chosen⟩ := backed.chosen marked
    exact ⟨value, ballot, known, Voting.chosen_extends h next ballot value moved.later chosen⟩

theorem moved_refl (fast i : Fin 3) (h : History) (ledger : Ledger fast h) : Moved fast i h h :=
  ⟨Voting.extends_refl h, ledger, fun _ _ => ⟨rfl, rfl⟩, fun _ _ _ _ => rfl⟩

theorem moved_raise (fast i : Fin 3) (h : History) (ballot : Nat) (ledger : Ledger fast h) :
    Moved fast i h (h.raise i ballot) where
  later := Voting.extends_raise h i ballot
  ledger := ⟨Voting.sound_raise lastFast h i ballot ledger.sound, ledger.owner, ledger.first⟩
  others := fun j other => by simp [Voting.raise, other]
  foreign := fun _ _ _ _ => rfl

theorem moved_cast (fast i : Fin 3) (h : History) (ballot : Nat) (value : Entry) (ledger : Ledger fast h)
    (proposed : h.proposal ballot = some value) (allowed : h.promised i ≤ ballot) : Moved fast i h (h.cast i ballot value) where
  later := Voting.extends_cast h i ballot value allowed (Voting.vacant_of_proposed lastFast h i ballot value ledger.sound proposed)
  ledger := by
    refine ⟨Voting.sound_cast lastFast h i ballot value ledger.sound proposed allowed, ?_, ledger.first⟩
    intro other seen known
    obtain ⟨positive, owner⟩ := ledger.owner other seen known
    refine ⟨positive, fun j owns => ?_⟩
    have vacant := Voting.vacant_of_proposed lastFast h i ballot value ledger.sound proposed
    exact (Voting.extends_cast h i ballot value allowed vacant).vote j other seen (owner j owns)
  others := fun j other => by simp [Voting.cast, other]
  foreign := fun _ _ _ _ => rfl

-- A server proposes and votes for its own proposal in one step.
theorem moved_propose (fast i : Fin 3) (h : History) (ballot : Nat) (value : Entry) (ledger : Ledger fast h)
    (fresh : h.proposal ballot = none) (owns : Owns i ballot) (allowed : h.promised i ≤ ballot)
    (safe : h.Safe ballot value ∧ lastFast < ballot ∨ ballot ≤ lastFast ∧ i = fast) :
    Moved fast i h ((h.propose ballot value).cast i ballot value) := by
  have grown := Voting.extends_propose h ballot value fresh
  have sound : (h.propose ballot value).Sound lastFast := by
    apply Voting.sound_propose lastFast h ballot value ledger.sound fresh
    rcases safe with high | ⟨low, same⟩
    · exact .inl high
    · refine .inr ⟨low, fun other otherLow => ?_⟩
      by_contra known
      have here := ledger.first other otherLow known
      have equal : other = ballot := by
        unfold Owns lastFast at *
        rw [same] at owns
        omega
      exact known (equal ▸ fresh)
  have proposed : (h.propose ballot value).proposal ballot = some value := by simp [Voting.propose]
  have vacant := Voting.vacant_of_proposed lastFast _ i ballot value sound proposed
  have castGrown := Voting.extends_cast (h.propose ballot value) i ballot value allowed vacant
  constructor
  · exact Voting.extends_trans h _ _ grown castGrown
  · refine ⟨Voting.sound_cast lastFast _ i ballot value sound proposed allowed, ?_, ?_⟩
    · intro other seen known
      by_cases here : other = ballot
      · subst here
        have equal : value = seen := by simpa [Voting.cast, Voting.propose] using known
        subst equal
        refine ⟨owned_positive i other owns, fun j owner => ?_⟩
        rw [owner_unique j i other owner owns]
        simp [Voting.cast]
      · have before : h.proposal other = some seen := by simpa [Voting.cast, Voting.propose, here] using known
        obtain ⟨positive, owner⟩ := ledger.owner other seen before
        exact ⟨positive, fun j mine => castGrown.vote j other seen (owner j mine)⟩
    · intro other low known
      by_cases here : other = ballot
      · subst here
        rcases safe with ⟨_, high⟩ | ⟨_, same⟩
        · omega
        · unfold Owns lastFast at *
          rw [same] at owns
          omega
      · exact ledger.first other low (by simpa [Voting.cast, Voting.propose, here] using known)
  · intro j other
    simp [Voting.cast, Voting.propose, other]
  · intro j other seen mine
    have elsewhere : seen ≠ ballot := by
      rintro rfl
      exact other (owner_unique j i seen mine owns)
    simp [Voting.cast, Voting.propose, elsewhere]

end PaxosStore.PaxosKv
