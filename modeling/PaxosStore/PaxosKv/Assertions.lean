import PaxosStore.PaxosKv.Backing

set_option autoImplicit false

namespace PaxosStore.PaxosKv

-- A number below this can be raised twice without a wrap of the count.
def numLimit : Nat := 2 ^ 64 - 2 ^ 17

-- One more raise, for the number that a new proposer is created with.
def safeLimit : Nat := 2 ^ 64 - 2 ^ 18

theorem limit_safe (num : Nat) (safe : num < safeLimit) : num + 2 ^ 17 < numLimit := by
  rw [safeLimit] at safe
  rw [numLimit]
  omega

namespace PropNumGen

structure Small (gen : PropNumGen) : Prop where
  self : gen.selfid < 2 ^ 16
  count : gen.propCnt < 2 ^ 48

theorem small_get (gen : PropNumGen) (small : gen.Small) : gen.get = gen.propCnt * 2 ^ 16 + gen.selfid := by
  have self := small.self
  have count := small.count
  rw [get, propNumCompose, u64, u64]
  omega

-- What Update and Next leave behind when the count does not wrap.
structure Raised (gen next : PropNumGen) : Prop where
  small : next.Small
  self : next.selfid = gen.selfid
  count : gen.propCnt ≤ next.propCnt
  above : gen.get ≤ next.get

theorem raised_refl (gen : PropNumGen) (small : gen.Small) : Raised gen gen := ⟨small, rfl, Nat.le_refl _, Nat.le_refl _⟩

theorem raised_to (gen next : PropNumGen) (small : gen.Small) (self : next.selfid = gen.selfid) (count : gen.propCnt ≤ next.propCnt)
    (fits : next.propCnt < 2 ^ 48) : Raised gen next := by
  have nextSmall : next.Small := ⟨self ▸ small.self, fits⟩
  refine ⟨nextSmall, self, count, ?_⟩
  rw [small_get gen small, small_get next nextSmall, self]
  omega

theorem update_run (gen : PropNumGen) (num : Nat) (small : gen.Small) (limit : num < numLimit) :
    ∃ next, gen.update num = some next ∧ Raised gen next ∧ num ≤ next.get ∧ next.get ≤ max gen.get (num + 2 ^ 17) := by
  have self := small.self
  have value := small_get gen small
  rw [numLimit] at limit
  by_cases reached : gen.get ≥ num
  · exact ⟨gen, by rw [update, if_pos reached], raised_refl gen small, reached, Nat.le_max_left _ _⟩
  · rw [update, if_neg reached]
    by_cases larger : num % 2 ^ 16 > gen.selfid
    · have raised : Raised gen { gen with propCnt := u64 (num / 2 ^ 16 + 1) } := by
        refine raised_to gen _ small rfl ?_ ?_
        · dsimp only
          rw [u64]
          omega
        · dsimp only
          rw [u64]
          omega
      have range : num ≤ PropNumGen.get { gen with propCnt := u64 (num / 2 ^ 16 + 1) } ∧
          PropNumGen.get { gen with propCnt := u64 (num / 2 ^ 16 + 1) } ≤ num + 2 ^ 17 := by
        rw [small_get _ raised.small]
        dsimp only
        rw [u64]
        omega
      have step : (if (propNumDecompose num).1 > gen.selfid then { gen with propCnt := u64 ((propNumDecompose num).2 + 1) }
          else { gen with propCnt := (propNumDecompose num).2 } : PropNumGen) = { gen with propCnt := u64 (num / 2 ^ 16 + 1) } :=
        if_pos larger
      exact ⟨_, by rw [step, asserting_pos _ _ range.1], raised, range.1, Nat.le_trans range.2 (Nat.le_max_right _ _)⟩
    · have raised : Raised gen { gen with propCnt := num / 2 ^ 16 } := by
        refine raised_to gen _ small rfl ?_ ?_
        · dsimp only
          omega
        · dsimp only
          omega
      have range : num ≤ PropNumGen.get { gen with propCnt := num / 2 ^ 16 } ∧
          PropNumGen.get { gen with propCnt := num / 2 ^ 16 } ≤ num + 2 ^ 17 := by
        rw [small_get _ raised.small]
        dsimp only
        omega
      have step : (if (propNumDecompose num).1 > gen.selfid then { gen with propCnt := u64 ((propNumDecompose num).2 + 1) }
          else { gen with propCnt := (propNumDecompose num).2 } : PropNumGen) = { gen with propCnt := num / 2 ^ 16 } :=
        if_neg larger
      exact ⟨_, by rw [step, asserting_pos _ _ range.1], raised, range.1, Nat.le_trans range.2 (Nat.le_max_right _ _)⟩

theorem next_run (gen : PropNumGen) (num : Nat) (small : gen.Small) (limit : num < numLimit) :
    ∃ next, gen.next num = some next ∧ Raised gen next ∧ num < next.get ∧ next.get ≤ max gen.get (num + 2 ^ 17) := by
  obtain ⟨middle, updated, raised, reached, close⟩ := update_run gen num small limit
  have value := small_get middle raised.small
  rw [numLimit] at limit
  rw [next, updated, Option.bind_some, asserting_pos _ _ reached]
  by_cases equal : middle.get = num
  · have further : Raised middle { middle with propCnt := u64 (middle.propCnt + 1) } := by
      refine raised_to middle _ raised.small rfl ?_ ?_
      · dsimp only
        rw [u64]
        omega
      · dsimp only
        rw [u64]
        omega
    have range : num < PropNumGen.get { middle with propCnt := u64 (middle.propCnt + 1) } ∧
        PropNumGen.get { middle with propCnt := u64 (middle.propCnt + 1) } ≤ num + 2 ^ 17 := by
      rw [small_get _ further.small]
      dsimp only
      rw [u64]
      omega
    refine ⟨_, ?_, ⟨further.small, further.self.trans raised.self, Nat.le_trans raised.count further.count,
      Nat.le_trans raised.above further.above⟩, range.1, Nat.le_trans range.2 (Nat.le_max_right _ _)⟩
    dsimp only
    rw [if_pos equal]
    exact asserting_pos _ _ range.1
  · have above : num < middle.get := by omega
    refine ⟨middle, ?_, raised, above, close⟩
    dsimp only
    rw [if_neg equal]
    exact asserting_pos _ _ above

end PropNumGen

-- What Step relies on in a stored instance.
structure Formed (pins : PaxosInstance) : Prop where
  valued : pins.acceptedNum.isSome = pins.acceptedValue.isSome
  ordered : ∀ num, pins.acceptedNum = some num → ∃ promised, pins.promisedNum = some promised ∧ num ≤ promised
  proposed : pins.chosen = false → pins.proposedNum ≤ pins.promisedNum.getD 0
  chosen : pins.chosen = true → pins.acceptedNum.isSome = true

theorem formed_empty : Formed {} := ⟨rfl, fun _ wrong => (by cases wrong), fun _ => Nat.le_refl 0, fun wrong => by cases wrong⟩

theorem updated_promised (propNum : Nat) (pins : PaxosInstance) (open_ : pins.promisedNum.getD 0 ≤ propNum) :
    updatePromised propNum pins = some { pins with promisedNum := some propNum } := by
  rw [updatePromised, if_neg]
  cases known : pins.promisedNum with
  | none => simp
  | some old =>
      rw [known] at open_
      simpa using open_

theorem updated_accepted (propNum : Nat) (value : Entry) (pins : PaxosInstance) (formed : Formed pins)
    (open_ : pins.promisedNum.getD 0 ≤ propNum) :
    updateAccepted propNum value false pins =
      some (some { pins with promisedNum := some propNum, acceptedNum := some propNum, acceptedValue := some value }) := by
  have free : ¬ pins.promisedNum.any (· > propNum) = true := by
    cases known : pins.promisedNum with
    | none => simp
    | some old =>
        rw [known] at open_
        simpa using open_
  rw [updateAccepted, if_neg free, if_neg (by simp), asserting_pos]
  cases known : pins.acceptedNum with
  | none => simp
  | some num =>
      obtain ⟨promised, held, below⟩ := formed.ordered num known
      rw [held] at open_
      have fits : promised ≤ propNum := open_
      simp only [Option.all_some, decide_eq_true_eq]
      omega

theorem refused_accepted (propNum : Nat) (value : Entry) (fast : Bool) (pins : PaxosInstance)
    (closed : propNum < pins.promisedNum.getD 0) : updateAccepted propNum value fast pins = some none := by
  rw [updateAccepted, if_pos]
  cases known : pins.promisedNum with
  | none => simp [known] at closed
  | some old =>
      rw [known] at closed
      simpa using closed

theorem refused_promised (propNum : Nat) (pins : PaxosInstance) (closed : propNum < pins.promisedNum.getD 0) :
    updatePromised propNum pins = none := by
  rw [updatePromised, if_pos]
  cases known : pins.promisedNum with
  | none => simp [known] at closed
  | some old =>
      rw [known] at closed
      simpa using closed


theorem compose_zero (id : Nat) (small : id < 2 ^ 16) : propNumCompose id 0 = id := by
  rw [propNumCompose, u64, u64]
  omega

theorem update_low (gen : PropNumGen) (num : Nat) (low : num ≤ gen.get) : gen.update num = some gen := if_pos low

namespace PInsAliveState

-- A new round under a larger number.
structure Prepares (alive : PInsAliveState) (pins : PaxosInstance) (next : PInsAliveState) (stored : PaxosInstance) : Prop where
  state : next.propState = .waitPrepare
  raised : PropNumGen.Raised alive.propNumGen next.propNumGen
  above : pins.promisedNum.getD 0 < next.propNumGen.get
  valued : next.proposingValue.isSome = true
  votes : next.rspVotes = fun _ => none
  stored : stored = { pins with proposedNum := next.propNumGen.get, promisedNum := some next.propNumGen.get }

-- No more rounds.
structure Freezes (alive next : PInsAliveState) : Prop where
  state : next.propState = .propFrozen
  gen : next.propNumGen = alive.propNumGen
  value : next.proposingValue = alive.proposingValue

theorem hints_limited (alive : PInsAliveState) (hint : alive.maxHintNum < numLimit) (accepted : alive.maxAcceptedHintNum < numLimit) :
    max alive.maxHintNum alive.maxAcceptedHintNum < numLimit := Nat.max_lt.mpr ⟨hint, accepted⟩

theorem prepare_phase_run (alive : PInsAliveState) (pins : PaxosInstance) (formed : Formed pins) (state : alive.propState = .prepare)
    (valued : alive.proposingValue.isSome = true) (above : pins.promisedNum.getD 0 < alive.propNumGen.get) :
    ∃ next, alive.beginPreparePhase pins =
        some (.waitPrepare, next, { pins with proposedNum := alive.propNumGen.get, promisedNum := some alive.propNumGen.get }) ∧
      next.propNumGen = alive.propNumGen ∧ next.proposingValue.isSome = true ∧ (next.rspVotes = fun _ => none) := by
  have granted := updated_promised alive.propNumGen.get { pins with proposedNum := alive.propNumGen.get } (Nat.le_of_lt above)
  rw [beginPreparePhase, asserting_pos _ _ ⟨state, valued⟩]
  by_cases own : pins.acceptedNum.any (alive.maxAcceptedHintNum < ·) = true
  · have held : pins.acceptedValue.isSome = true := by
      rw [← formed.valued]
      cases known : pins.acceptedNum with
      | none => simp [known] at own
      | some num => rfl
    dsimp only
    rw [if_pos own, asserting_pos _ _ held, Option.map_some]
    dsimp only
    rw [granted]
    exact ⟨_, rfl, rfl, held, rfl⟩
  · dsimp only
    rw [if_neg own, Option.map_some]
    rw [granted]
    exact ⟨_, rfl, rfl, valued, rfl⟩

-- The number a round starts from is above what is promised.
theorem first_number (alive : PInsAliveState) (pins : PaxosInstance) (small : alive.propNumGen.Small)
    (positive : 0 < alive.propNumGen.selfid) (promised : pins.promisedNum.getD 0 < numLimit) :
    ∃ first, (match pins.promisedNum with
      | some promised => alive.propNumGen.next promised
      | none => some alive.propNumGen) = some first ∧ PropNumGen.Raised alive.propNumGen first ∧ pins.promisedNum.getD 0 < first.get := by
  cases known : pins.promisedNum with
  | none =>
      refine ⟨_, rfl, PropNumGen.raised_refl _ small, ?_⟩
      rw [PropNumGen.small_get _ small, Option.getD_none]
      omega
  | some old =>
      rw [known] at promised
      obtain ⟨first, taken, raised, above, _⟩ := PropNumGen.next_run alive.propNumGen old small promised
      exact ⟨first, taken, raised, above⟩

theorem prepare_run (alive : PInsAliveState) (pins : PaxosInstance) (formed : Formed pins) (open_ : pins.chosen = false)
    (small : alive.propNumGen.Small) (positive : 0 < alive.propNumGen.selfid) (valued : alive.proposingValue.isSome = true)
    (promised : pins.promisedNum.getD 0 < numLimit) (hint : alive.maxHintNum < numLimit)
    (accepted : alive.maxAcceptedHintNum < numLimit) :
    (∃ next, alive.enterPrepare pins = some (false, .noop, next, pins) ∧ Freezes alive next ∧ alive.activePropCnt ≠ 0) ∨
      ∃ next stored, alive.enterPrepare pins = some (true, .prop, next, stored) ∧ Prepares alive pins next stored := by
  rw [enterPrepare]
  dsimp only
  by_cases past : (alive.activePropCnt + 1) % 2 ^ 16 > maxPropCnt
  · left
    rw [if_pos past]
    refine ⟨_, rfl, ⟨rfl, rfl, rfl⟩, fun zero => ?_⟩
    rw [zero, maxPropCnt] at past
    omega
  · right
    rw [if_neg past]
    obtain ⟨first, taken, raised, above⟩ := first_number alive pins small positive promised
    obtain ⟨gen, updated, further, _, _⟩ := PropNumGen.update_run first _ raised.small (hints_limited alive hint accepted)
    have higher : pins.promisedNum.getD 0 < gen.get := Nat.lt_of_lt_of_le above further.above
    have proposed := formed.proposed open_
    obtain ⟨next, phase, same, held, votes⟩ := prepare_phase_run
      { alive with propState := .prepare, activePropCnt := (alive.activePropCnt + 1) % 2 ^ 16, propNumGen := gen } pins formed rfl valued higher
    dsimp only at same
    have total : PropNumGen.Raised alive.propNumGen gen := ⟨further.small, further.self.trans raised.self,
      Nat.le_trans raised.count further.count, Nat.le_trans raised.above further.above⟩
    refine ⟨{ next with propState := .waitPrepare }, { pins with proposedNum := gen.get, promisedNum := some gen.get },
      Option.bind_eq_some_iff.mpr ⟨first, taken, ?_⟩, ?_⟩
    · rw [updated, Option.bind_some, asserting_pos _ _ ⟨by omega, higher⟩, phase, Option.bind_some]
      exact asserting_pos _ _ rfl
    · exact ⟨rfl, same ▸ total, same ▸ higher, held, votes, by dsimp only; rw [same]⟩

theorem accept_phase_run (alive : PInsAliveState) (pins : PaxosInstance) (value : Entry) (formed : Formed pins)
    (state : alive.propState = .accept) (held : alive.proposingValue = some value)
    (open_ : pins.promisedNum.getD 0 ≤ alive.propNumGen.get) :
    alive.beginAcceptPhase pins = some (.waitAccept, { alive with rspVotes := fun _ => none }, { pins with
      promisedNum := some alive.propNumGen.get, acceptedNum := some alive.propNumGen.get, acceptedValue := some value }) := by
  rw [beginAcceptPhase, asserting_pos _ _ state, held]
  dsimp only
  rw [updated_accepted _ value pins formed open_]
  rfl

theorem accept_phase_refused (alive : PInsAliveState) (pins : PaxosInstance) (value : Entry) (state : alive.propState = .accept)
    (held : alive.proposingValue = some value) (closed : alive.propNumGen.get < pins.promisedNum.getD 0) :
    alive.beginAcceptPhase pins = some (.prepare, alive, pins) := by
  rw [beginAcceptPhase, asserting_pos _ _ state, held]
  dsimp only
  rw [refused_accepted _ value false pins closed]
  rfl

-- The promised number is accepted with the value at hand.
theorem accept_run (alive : PInsAliveState) (pins : PaxosInstance) (value : Entry) (formed : Formed pins)
    (held : alive.proposingValue = some value) (open_ : pins.promisedNum.getD 0 ≤ alive.propNumGen.get) :
    alive.enterAccept pins = some (true, .accpt, { alive with propState := .waitAccept, rspVotes := fun _ => none }, { pins with
      promisedNum := some alive.propNumGen.get, acceptedNum := some alive.propNumGen.get, acceptedValue := some value }) := by
  rw [enterAccept, accept_phase_run { alive with propState := .accept } pins value formed rfl held open_]
  rfl

theorem accept_refused (alive : PInsAliveState) (pins : PaxosInstance) (value : Entry) (held : alive.proposingValue = some value)
    (closed : alive.propNumGen.get < pins.promisedNum.getD 0) :
    alive.enterAccept pins = enterPrepare { alive with propState := .accept } pins := by
  rw [enterAccept, accept_phase_refused { alive with propState := .accept } pins value rfl held closed]
  rfl

theorem hint_run (alive : PInsAliveState) (num : Nat) (value : Option Entry)
    (positive : value.isSome = true → 0 < num) (same : num = alive.maxAcceptedHintNum → ∀ seen, value = some seen → alive.proposingValue = some seen)
    (valued : alive.proposingValue.isSome = true) (hint : alive.maxAcceptedHintNum < numLimit) (limit : num < numLimit) :
    ∃ next, alive.takeHint num value = some next ∧ next.propState = alive.propState ∧ next.propNumGen = alive.propNumGen ∧
      next.rspVotes = alive.rspVotes ∧ next.maxHintNum = alive.maxHintNum ∧ next.activePropCnt = alive.activePropCnt ∧
      next.proposingValue.isSome = true ∧ next.maxAcceptedHintNum < numLimit := by
  cases value with
  | none => exact ⟨alive, rfl, rfl, rfl, rfl, rfl, rfl, valued, hint⟩
  | some value =>
      rw [takeHint, asserting_pos _ _ (positive rfl)]
      by_cases reached : num ≥ alive.maxAcceptedHintNum
      · rw [if_pos reached]
        by_cases above : num > alive.maxAcceptedHintNum
        · rw [if_pos above]
          exact ⟨_, rfl, rfl, rfl, rfl, rfl, rfl, rfl, limit⟩
        · rw [if_neg above, asserting_pos _ _ (same (by omega) value rfl)]
          exact ⟨alive, rfl, rfl, rfl, rfl, rfl, rfl, valued, hint⟩
      · rw [if_neg reached]
        exact ⟨alive, rfl, rfl, rfl, rfl, rfl, rfl, valued, hint⟩

-- What a proposer that has not finished looks like.
structure Ready (i : Fin 3) (pins : PaxosInstance) (alive : PInsAliveState) : Prop where
  self : alive.propNumGen.selfid = selfid i
  small : alive.propNumGen.Small
  valued : alive.proposingValue.isSome = true
  reached : pins.proposedNum ≤ alive.propNumGen.get
  state : alive.propState = .waitPrepare ∨ alive.propState = .waitAccept ∨ alive.propState = .propFrozen
  preparing : alive.propState = .waitPrepare → 0 < alive.propNumGen.propCnt
  accepting : alive.propState = .waitAccept → alive.propNumGen.get = pins.proposedNum
  counted : 0 < alive.propNumGen.propCnt ∨ selfid i ≤ pins.promisedNum.getD 0

structure Limited (pins : PaxosInstance) (alive : PInsAliveState) (msg : Message) : Prop where
  promised : pins.promisedNum.getD 0 < numLimit
  proposed : pins.proposedNum < numLimit
  hint : alive.maxHintNum < numLimit
  accepted : alive.maxAcceptedHintNum < numLimit
  msgProposed : msg.proposedNum < numLimit
  msgAccepted : msg.acceptedNum.getD 0 < numLimit

def isVote (type : MessageType) : Bool := type = .accptRsp ∨ type = .fastAccptRsp

-- Whether an answer says yes.
def verdict (msg : Message) : Bool :=
  if msg.type = .propRsp then msg.promisedNum.getD 0 = msg.proposedNum else msg.acceptedNum.getD 0 = msg.proposedNum

-- The answers a waiting proposer counts.
def Answers (alive : PInsAliveState) (msg : Message) : Prop :=
  msg.proposedNum = alive.propNumGen.get ∧
    (alive.propState = .waitPrepare ∧ msg.type = .propRsp ∨ alive.propState = .waitAccept ∧ isVote msg.type = true)

structure Round (i : Fin 3) (pins : PaxosInstance) (next : PInsAliveState) (stored : PaxosInstance) : Prop where
  state : next.propState = .waitPrepare
  self : next.propNumGen.selfid = selfid i
  small : next.propNumGen.Small
  positive : 0 < next.propNumGen.propCnt
  above : pins.promisedNum.getD 0 < next.propNumGen.get
  valued : next.proposingValue.isSome = true
  votes : next.rspVotes = fun _ => none
  stored : stored = { pins with proposedNum := next.propNumGen.get, promisedNum := some next.propNumGen.get }

structure Proposal (pins : PaxosInstance) (gen : PropNumGen) (value : Entry) (next : PInsAliveState) (stored : PaxosInstance) : Prop where
  state : next.propState = .waitAccept
  sameGen : next.propNumGen = gen
  open_ : pins.promisedNum.getD 0 ≤ gen.get
  holds : next.proposingValue = some value
  votes : next.rspVotes = fun _ => none
  stored : stored = { pins with promisedNum := some gen.get, acceptedNum := some gen.get, acceptedValue := some value }

-- The vote of a counted answer is new, everything else stays.
structure Counts (alive : PInsAliveState) (msg : Message) (next : PInsAliveState) : Prop where
  state : next.propState = alive.propState
  gen : next.propNumGen = alive.propNumGen
  value : next.propState = .waitAccept → next.proposingValue = alive.proposingValue
  votes : ∀ peer vote, next.rspVotes peer = some vote →
    alive.rspVotes peer = some vote ∨ peer = msg.fromId ∧ Answers alive msg ∧ verdict msg = vote

inductive Advance (i : Fin 3) (msg : Message) (alive : PInsAliveState) (pins : PaxosInstance) :
    Bool → MessageType → PInsAliveState → PaxosInstance → Prop where
  | waits (next : PInsAliveState) (ready : Ready i pins next) (counts : next.propState = .propFrozen ∨ Counts alive msg next) :
      Advance i msg alive pins false .noop next pins
  | prepares (next : PInsAliveState) (stored : PaxosInstance) (round : Round i pins next stored) :
      Advance i msg alive pins true .prop next stored
  | proposes (next : PInsAliveState) (stored : PaxosInstance) (value : Entry) (waiting : alive.propState = .waitPrepare)
      (current : alive.propNumGen.get = pins.proposedNum) (proposal : Proposal pins alive.propNumGen value next stored) :
      Advance i msg alive pins true .accpt next stored
  | decides (next : PInsAliveState) (state : next.propState = .chosen) (accepted : pins.acceptedNum.isSome = true) :
      Advance i msg alive pins false .chosen next pins

theorem prepares_round (i : Fin 3) (alive : PInsAliveState) (pins : PaxosInstance) (next : PInsAliveState) (stored : PaxosInstance)
    (self : alive.propNumGen.selfid = selfid i) (counted : 0 < alive.propNumGen.propCnt ∨ selfid i ≤ pins.promisedNum.getD 0)
    (prepares : Prepares alive pins next stored) : Round i pins next stored where
  state := prepares.state
  self := prepares.raised.self.trans self
  small := prepares.raised.small
  positive := by
    have count := prepares.raised.count
    have above := prepares.above
    rw [PropNumGen.small_get _ prepares.raised.small, prepares.raised.self, self] at above
    rcases counted with positive | reached
    · omega
    · by_contra zero
      have none : next.propNumGen.propCnt = 0 := by omega
      rw [none] at above
      omega
  above := prepares.above
  valued := prepares.valued
  votes := prepares.votes
  stored := prepares.stored

-- Both ways out of the state PREPARE.
theorem prepare_advance (i : Fin 3) (msg : Message) (alive from_ : PInsAliveState) (pins : PaxosInstance) (formed : Formed pins)
    (open_ : pins.chosen = false) (ready : Ready i pins alive) (gen : from_.propNumGen = alive.propNumGen)
    (valued : from_.proposingValue.isSome = true) (promised : pins.promisedNum.getD 0 < numLimit)
    (hint : from_.maxHintNum < numLimit) (accepted : from_.maxAcceptedHintNum < numLimit) :
    ∃ write type next stored, from_.enterPrepare pins = some (write, type, next, stored) ∧
      Advance i msg alive pins write type next stored ∧ type ≠ .accpt := by
  have positive : 0 < from_.propNumGen.selfid := by
    rw [gen, ready.self]
    exact (Nat.succ_pos _)
  rcases prepare_run from_ pins formed open_ (gen ▸ ready.small) positive valued promised hint accepted with
    ⟨next, done, freezes, _⟩ | ⟨next, stored, done, prepares⟩
  · have sameGen := freezes.gen.trans gen
    refine ⟨_, _, _, _, done, .waits next ⟨?_, ?_, ?_, ?_, ?_, ?_, ?_, ?_⟩ (.inl freezes.state), by simp⟩
    · rw [sameGen]
      exact ready.self
    · rw [sameGen]
      exact ready.small
    · rw [freezes.value]
      exact valued
    · rw [sameGen]
      exact ready.reached
    · exact .inr (.inr freezes.state)
    · intro waiting
      rw [freezes.state] at waiting
      cases waiting
    · intro waiting
      rw [freezes.state] at waiting
      cases waiting
    · rw [sameGen]
      exact ready.counted
  · have self : from_.propNumGen.selfid = selfid i := by rw [gen, ready.self]
    have counted : 0 < from_.propNumGen.propCnt ∨ selfid i ≤ pins.promisedNum.getD 0 := by
      rw [gen]
      exact ready.counted
    exact ⟨_, _, _, _, done, .prepares next stored (prepares_round i from_ pins next stored self counted prepares), by simp⟩

theorem votes_run (peer : Fin 3) (vote : Bool) (votes : Fin 3 → Option Bool) (agrees : ∀ old, votes peer = some old → old = vote) :
    ∃ next, updateRspVotes peer vote votes = some next ∧
      ∀ j seen, next j = some seen → votes j = some seen ∨ j = peer ∧ vote = seen := by
  unfold updateRspVotes
  cases known : votes peer with
  | some old => exact ⟨votes, asserting_pos _ _ (agrees old known), fun _ _ counted => .inl counted⟩
  | none =>
      refine ⟨_, rfl, fun j seen counted => ?_⟩
      by_cases here : j = peer
      · subst here
        exact .inr ⟨rfl, by simpa using counted⟩
      · exact .inl (by simpa [here] using counted)

-- A proposer that keeps waiting in the same phase.
theorem ready_counts (i : Fin 3) (pins : PaxosInstance) (alive : PInsAliveState) (msg : Message) (next : PInsAliveState)
    (ready : Ready i pins alive) (counts : Counts alive msg next) (valued : next.proposingValue.isSome = true) :
    Ready i pins next where
  self := counts.gen ▸ ready.self
  small := counts.gen ▸ ready.small
  valued := valued
  reached := counts.gen ▸ ready.reached
  state := counts.state ▸ ready.state
  preparing := counts.gen ▸ counts.state ▸ ready.preparing
  accepting := counts.gen ▸ counts.state ▸ ready.accepting
  counted := counts.gen ▸ ready.counted

theorem counts_self (alive : PInsAliveState) (msg : Message) : Counts alive msg alive :=
  ⟨rfl, rfl, fun _ => rfl, fun _ _ counted => .inl counted⟩

theorem prop_rsp_run (i : Fin 3) (alive : PInsAliveState) (msg : Message) (pins : PaxosInstance) (formed : Formed pins)
    (open_ : pins.chosen = false) (ready : Ready i pins alive) (kind : msg.type = .propRsp)
    (promise : msg.proposedNum ≤ msg.promisedNum.getD 0)
    (agrees : Answers alive msg → ∀ old, alive.rspVotes msg.fromId = some old → old = verdict msg)
    (positive : msg.acceptedValue.isSome = true → 0 < msg.acceptedNum.getD 0)
    (same : msg.acceptedNum.getD 0 = alive.maxAcceptedHintNum → ∀ seen, msg.acceptedValue = some seen → alive.proposingValue = some seen)
    (limited : Limited pins alive msg) :
    ∃ write type next stored, alive.stepPropRsp msg pins = some (write, type, next, stored) ∧
      Advance i msg alive pins write type next stored := by
  rw [stepPropRsp, asserting_pos _ _ ready.valued]
  by_cases other : alive.propState ≠ .waitPrepare ∨ pins.proposedNum ≠ msg.proposedNum
  · rw [if_pos other]
    exact ⟨_, _, _, _, rfl, .waits alive ready (.inr (counts_self alive msg))⟩
  · rw [if_neg other]
    have waiting : alive.propState = .waitPrepare ∧ pins.proposedNum = msg.proposedNum := by simpa using other
    by_cases stale : alive.propNumGen.get ≠ msg.proposedNum
    -- The last write failed, so the number at hand was never sent.
    · have above : alive.propNumGen.get > msg.proposedNum := by
        have reached := ready.reached
        omega
      rw [if_pos stale, asserting_pos _ _ above, Option.bind_some]
      obtain ⟨write, type, next, stored, done, advance, noAccept⟩ := prepare_advance i msg alive alive pins formed open_ ready rfl
        ready.valued limited.promised limited.hint limited.accepted
      refine ⟨write, type, next, stored, ?_, advance⟩
      dsimp only [updatePropState]
      rw [done, Option.bind_some]
      exact asserting_pos _ _ (fun wrong => absurd wrong noAccept)
    · have number : alive.propNumGen.get = msg.proposedNum := by simpa using stale
      have answers : Answers alive msg := ⟨number.symm, .inl ⟨waiting.1, kind⟩⟩
      rw [if_neg stale, stepPrepareRsp, asserting_pos _ _ ⟨waiting.1, ready.valued, number ▸ promise⟩]
      have asked : decide (alive.propNumGen.get = msg.promisedNum.getD 0) = verdict msg := by
        rw [verdict, if_pos kind, number]
        exact decide_eq_decide.mpr eq_comm
      rw [asked]
      obtain ⟨votes, voted, origin⟩ := votes_run msg.fromId (verdict msg) alive.rspVotes (agrees answers)
      rw [voted, Option.bind_some]
      obtain ⟨hinted, taken, state, gen, kept, hint, _, valued, below⟩ := hint_run { alive with rspVotes := votes }
        (msg.acceptedNum.getD 0) msg.acceptedValue positive same ready.valued limited.accepted limited.msgAccepted
      dsimp only at state gen kept hint
      rw [taken, Option.map_some, Option.bind_some]
      have small : hinted.maxHintNum < numLimit := hint ▸ limited.hint
      by_cases rejected : countVotes votes false ≥ majorCnt
      · rw [if_pos rejected]
        obtain ⟨write, type, next, stored, done, advance, noAccept⟩ := prepare_advance i msg alive hinted pins formed open_ ready gen
          valued limited.promised small below
        refine ⟨write, type, next, stored, ?_, advance⟩
        dsimp only [updatePropState]
        rw [done, Option.bind_some]
        exact asserting_pos _ _ (fun wrong => absurd wrong noAccept)
      · rw [if_neg rejected]
        by_cases granted : countVotes votes true + 1 ≥ majorCnt
        · rw [if_pos granted]
          obtain ⟨value, held⟩ := Option.isSome_iff_exists.mp valued
          dsimp only [updatePropState]
          by_cases allowed : pins.promisedNum.getD 0 ≤ hinted.propNumGen.get
          · rw [accept_run hinted pins value formed held allowed, Option.bind_some]
            have current : hinted.propNumGen.get = msg.proposedNum := by rw [gen, number]
            refine ⟨_, _, _, _, asserting_pos _ _ (fun _ => ?_), .proposes _ _ value waiting.1 (by rw [number, waiting.2]) ?_⟩
            · dsimp only
              rw [current]
              exact ⟨waiting.2.symm, rfl, rfl⟩
            · exact ⟨rfl, gen, gen ▸ allowed, held, rfl, by rw [gen]⟩
          · rw [accept_refused hinted pins value held (by omega)]
            obtain ⟨write, type, next, stored, done, advance, noAccept⟩ := prepare_advance i msg alive { hinted with propState := .accept }
              pins formed open_ ready gen valued limited.promised small below
            refine ⟨write, type, next, stored, ?_, advance⟩
            rw [done, Option.bind_some]
            exact asserting_pos _ _ (fun wrong => absurd wrong noAccept)
        · rw [if_neg granted]
          have counts : Counts alive msg { hinted with propState := .waitPrepare } := by
            refine ⟨waiting.1.symm, gen, fun wrong => (by cases wrong), fun peer vote counted => ?_⟩
            rcases origin peer vote (kept ▸ counted) with old | ⟨here, seen⟩
            · exact .inl old
            · exact .inr ⟨here, answers, seen⟩
          exact ⟨_, _, _, _, asserting_pos _ _ (fun wrong => by cases wrong),
            .waits _ (ready_counts i pins alive msg _ ready counts valued) (.inr counts)⟩

theorem advance_hint (i : Fin 3) (msg : Message) (alive : PInsAliveState) (pins : PaxosInstance) (write : Bool) (type : MessageType)
    (next : PInsAliveState) (stored : PaxosInstance) (hint : Nat) (advance : Advance i msg alive pins write type next stored) :
    Advance i msg alive pins write type { next with maxHintNum := hint } stored := by
  cases advance with
  | waits _ ready counts =>
      refine .waits _ ⟨ready.self, ready.small, ready.valued, ready.reached, ready.state, ready.preparing, ready.accepting, ready.counted⟩ ?_
      rcases counts with frozen | counts
      · exact .inl frozen
      · exact .inr ⟨counts.state, counts.gen, counts.value, counts.votes⟩
  | prepares _ _ round =>
      exact .prepares _ _ ⟨round.state, round.self, round.small, round.positive, round.above, round.valued, round.votes, round.stored⟩
  | proposes _ _ value waiting current proposal =>
      exact .proposes _ _ value waiting current
        ⟨proposal.state, proposal.sameGen, proposal.open_, proposal.holds, proposal.votes, proposal.stored⟩
  | decides _ state accepted => exact .decides _ state accepted

theorem accpt_rsp_run (i : Fin 3) (alive : PInsAliveState) (msg : Message) (pins : PaxosInstance) (formed : Formed pins)
    (open_ : pins.chosen = false) (ready : Ready i pins alive) (kind : isVote msg.type = true)
    (numbered : msg.acceptedNum.isSome = true) (bare : msg.acceptedValue = none)
    (agrees : Answers alive msg → ∀ old, alive.rspVotes msg.fromId = some old → old = verdict msg)
    (decided : Answers alive msg → verdict msg = true ∨ (∃ peer, alive.rspVotes peer = some true) →
      msg.proposedNum ≤ pins.promisedNum.getD 0 ∧ msg.proposedNum ≤ pins.acceptedNum.getD 0 ∧
        alive.proposingValue = pins.acceptedValue)
    (limited : Limited pins alive msg) :
    ∃ write type next stored, alive.stepAccptRsp msg pins = some (write, type, next, stored) ∧
      Advance i msg alive pins write type next stored := by
  rw [stepAccptRsp, asserting_pos _ _ ready.valued]
  by_cases other : alive.propState ≠ .waitAccept ∨ pins.proposedNum ≠ msg.proposedNum
  · rw [if_pos other]
    exact ⟨_, _, _, _, rfl, .waits alive ready (.inr (counts_self alive msg))⟩
  · rw [if_neg other]
    have waiting : alive.propState = .waitAccept ∧ pins.proposedNum = msg.proposedNum := by simpa using other
    have number : alive.propNumGen.get = msg.proposedNum := (ready.accepting waiting.1).trans waiting.2
    have answers : Answers alive msg := ⟨number.symm, .inr ⟨waiting.1, kind⟩⟩
    have notPromise : msg.type ≠ .propRsp := by
      intro wrong
      simp [isVote, wrong] at kind
    have asked : decide (alive.propNumGen.get = msg.acceptedNum.getD 0) = verdict msg := by
      rw [verdict, if_neg notPromise, number]
      exact decide_eq_decide.mpr eq_comm
    rw [asserting_pos _ _ ⟨number, numbered, bare⟩, stepAcceptRsp, asserting_pos _ _ waiting.1, asked]
    obtain ⟨votes, voted, origin⟩ := votes_run msg.fromId (verdict msg) alive.rspVotes (agrees answers)
    rw [voted, Option.map_some, Option.bind_some]
    by_cases rejected : countVotes votes false ≥ majorCnt
    · rw [if_pos rejected]
      obtain ⟨write, type, next, stored, done, advance, _⟩ := prepare_advance i msg alive { alive with rspVotes := votes } pins formed
        open_ ready rfl ready.valued limited.promised limited.hint limited.accepted
      refine ⟨write, type, _, stored, ?_, advance_hint i msg alive pins write type next stored
        (max (max next.maxHintNum (msg.promisedNum.getD 0)) (msg.acceptedNum.getD 0)) advance⟩
      dsimp only [updatePropState]
      rw [done, asserting_pos _ _ (fun wrong => by cases wrong)]
      rfl
    · rw [if_neg rejected]
      by_cases granted : countVotes votes true + 1 ≥ majorCnt
      · rw [if_pos granted]
        have counted : 0 < countVotes votes true := by
          rw [majorCnt] at granted
          omega
        obtain ⟨peer, yes⟩ := count_positive votes true counted
        have held := decided answers <| by
          rcases origin peer true yes with old | ⟨_, seen⟩
          · exact .inr ⟨peer, old⟩
          · exact .inl seen
        dsimp only [updatePropState]
        rw [asserting_pos _ _ (fun _ => held)]
        refine ⟨_, _, _, _, rfl, .decides _ rfl ?_⟩
        rw [formed.valued, ← held.2.2]
        exact ready.valued
      · rw [if_neg granted]
        have counts : Counts alive msg { alive with rspVotes := votes, propState := .waitAccept } := by
          refine ⟨waiting.1.symm, rfl, fun _ => rfl, fun peer vote counted => ?_⟩
          rcases origin peer vote counted with old | ⟨here, seen⟩
          · exact .inl old
          · exact .inr ⟨here, answers, seen⟩
        dsimp only [updatePropState]
        rw [asserting_pos _ _ (fun wrong => by cases wrong)]
        exact ⟨_, _, _, _, rfl, advance_hint i msg alive pins false .noop _ pins _
          (.waits _ (ready_counts i pins alive msg _ ready counts ready.valued) (.inr counts))⟩

theorem compose_one : propNumCompose 0 1 = 2 ^ 16 := by decide

theorem try_step (alive : PInsAliveState) (msg : Message) (pins : PaxosInstance) (value : Entry) (gen : PropNumGen)
    (held : msg.acceptedValue = some value)
    (updated : alive.propNumGen.update (if getPropCnt msg.proposedNum = 0 then propNumCompose 0 1 else msg.proposedNum) = some gen) :
    alive.stepTry msg pins = (updatePropState { alive with
        propNumGen := gen, activePropCnt := 0, maxAcceptedHintNum := 0, proposingValue := some value, rspVotes := fun _ => none }
      pins .prepare).bind fun (write, type, alive, pins) => asserting (alive.propState = .waitPrepare) <| some (write, type, alive, pins) := by
  rw [stepTry, held]
  dsimp only
  rw [stepTryPropose, updated]
  rfl

theorem try_run (i : Fin 3) (alive : PInsAliveState) (msg : Message) (pins : PaxosInstance) (value : Entry) (formed : Formed pins)
    (open_ : pins.chosen = false) (self : alive.propNumGen.selfid = selfid i) (small : alive.propNumGen.Small)
    (held : msg.acceptedValue = some value) (promised : pins.promisedNum.getD 0 < numLimit) (hint : alive.maxHintNum < numLimit)
    (limit : msg.proposedNum < numLimit) :
    ∃ next stored, alive.stepTry msg pins = some (true, .prop, next, stored) ∧ Round i pins next stored := by
  have low : (if getPropCnt msg.proposedNum = 0 then propNumCompose 0 1 else msg.proposedNum) < numLimit := by
    split
    · rw [compose_one, numLimit]
      omega
    · exact limit
  have counted : 2 ^ 16 ≤ (if getPropCnt msg.proposedNum = 0 then propNumCompose 0 1 else msg.proposedNum) := by
    split
    · rw [compose_one]
    · rename_i positive
      rw [getPropCnt, propNumDecompose] at positive
      omega
  obtain ⟨gen, updated, raised, reached, _⟩ := PropNumGen.update_run alive.propNumGen _ small low
  have positive : 0 < gen.propCnt := by
    rw [PropNumGen.small_get gen raised.small] at reached
    have bound := raised.small.self
    by_contra zero
    have none : gen.propCnt = 0 := by omega
    rw [none] at reached
    omega
  have selfGen : gen.selfid = selfid i := raised.self.trans self
  let started : PInsAliveState := { alive with
    propNumGen := gen, activePropCnt := 0, maxAcceptedHintNum := 0, proposingValue := some value, rspVotes := fun _ => none }
  have zero : (0 : Nat) < numLimit := by
    rw [numLimit]
    omega
  rcases prepare_run started pins formed open_ raised.small (by rw [show started.propNumGen.selfid = selfid i from selfGen]; exact Nat.succ_pos _)
    rfl promised hint zero with ⟨next, _, _, active⟩ | ⟨next, stored, done, prepares⟩
  · exact absurd rfl active
  · refine ⟨next, stored, ?_, prepares_round i started pins next stored selfGen (.inl positive) prepares⟩
    rw [try_step alive msg pins value gen held updated]
    dsimp only [updatePropState]
    rw [done, Option.bind_some]
    exact asserting_pos _ _ prepares.state

-- The first round on an empty instance starts under the number it is created with.
theorem fresh_prepare (alive : PInsAliveState) (value : Entry) (held : alive.proposingValue = some value)
    (unused : alive.activePropCnt = 0) (hint : alive.maxHintNum = 0) (accepted : alive.maxAcceptedHintNum = 0)
    (positive : 0 < alive.propNumGen.get) :
    alive.enterPrepare {} = some (true, .prop,
      { alive with propState := .waitPrepare, activePropCnt := 1, rspVotes := fun _ => none },
      { proposedNum := alive.propNumGen.get, promisedNum := some alive.propNumGen.get }) := by
  rw [enterPrepare]
  dsimp only
  rw [unused, if_neg (by decide), Option.bind_some, hint, accepted, Nat.max_self, update_low _ _ (Nat.zero_le _), Option.bind_some,
    asserting_pos _ _ ⟨positive, positive⟩, beginPreparePhase, asserting_pos _ _ ⟨rfl, by rw [held]; rfl⟩]
  rfl

-- A proposer created under `gen` for an empty instance.
def begun (gen : PropNumGen) (value : Entry) : PInsAliveState :=
  { propNumGen := gen, propState := .waitPrepare, activePropCnt := 1, proposingValue := some value }

theorem begin_step (i : Fin 3) (msg : Message) (value : Entry) (gen : PropNumGen) (held : msg.acceptedValue = some value)
    (updated : PropNumGen.update ⟨selfid i, 0⟩ (if msg.type = .beginProp then propNumCompose 0 1 else 0) = some gen)
    (positive : 0 < gen.get) :
    (create (selfid i) 0).stepBegin msg {} =
      if msg.type = .beginFastProp then
        (enterAccept (begun gen value) { proposedNum := gen.get, promisedNum := some gen.get }).bind fun (write, type, alive, pins) =>
          asserting (write = true ∧ type = .accpt ∧ getPropCnt pins.proposedNum = 0) <| some (write, .fastAccpt, alive, pins)
      else some (true, .prop, begun gen value, { proposedNum := gen.get, promisedNum := some gen.get }) := by
  have prepared := fresh_prepare { create (selfid i) 0 with propNumGen := gen, proposingValue := some value } value rfl rfl rfl rfl positive
  rw [stepBegin, asserting_pos _ _ ⟨rfl, rfl, rfl⟩, held]
  dsimp only
  rw [if_neg (by decide), asserting_pos _ _ ⟨rfl, rfl, rfl⟩, stepBeginPropose, asserting_pos ((create (selfid i) 0).propState = .nil) _ rfl]
  rw [show (create (selfid i) 0).propNumGen = ⟨selfid i, 0⟩ from rfl, updated, Option.bind_some,
    asserting_pos ((create (selfid i) 0).proposingValue = none) _ rfl, Option.bind_some]
  dsimp only [updatePropState]
  rw [prepared, Option.bind_some]
  exact asserting_pos _ _ ⟨rfl, rfl, rfl⟩

theorem begin_run (i : Fin 3) (msg : Message) (value : Entry) (held : msg.acceptedValue = some value) (kind : msg.type = .beginProp) :
    ∃ next stored, (create (selfid i) 0).stepBegin msg {} = some (true, .prop, next, stored) ∧ Round i {} next stored := by
  have bounds := selfid_small i
  have small : PropNumGen.Small ⟨selfid i, 0⟩ := ⟨bounds.2, by dsimp only; omega⟩
  obtain ⟨gen, updated, raised, reached, _⟩ := PropNumGen.update_run ⟨selfid i, 0⟩ (propNumCompose 0 1) small
    (by rw [compose_one, numLimit]; omega)
  rw [compose_one, PropNumGen.small_get gen raised.small] at reached
  have positive : 0 < gen.propCnt := by
    have bound := raised.small.self
    by_contra zero
    have none : gen.propCnt = 0 := by omega
    rw [none] at reached
    omega
  have above : 0 < gen.get := by
    rw [PropNumGen.small_get gen raised.small]
    omega
  refine ⟨_, _, ?_, show Round i {} (begun gen value) _ from ⟨rfl, raised.self, raised.small, positive, above, rfl, rfl, rfl⟩⟩
  rw [begin_step i msg value gen held (by rw [if_pos kind]; exact updated) above, if_neg (by simp [kind])]
  rfl

theorem begin_fast_run (i : Fin 3) (msg : Message) (value : Entry) (held : msg.acceptedValue = some value)
    (kind : msg.type = .beginFastProp) :
    (create (selfid i) 0).stepBegin msg {} = some (true, .fastAccpt,
      { begun ⟨selfid i, 0⟩ value with propState := .waitAccept },
      { proposedNum := selfid i, promisedNum := some (selfid i), acceptedNum := some (selfid i), acceptedValue := some value }) := by
  have bounds := selfid_small i
  have number : PropNumGen.get ⟨selfid i, 0⟩ = selfid i := compose_zero (selfid i) bounds.2
  have formed : Formed { proposedNum := selfid i, promisedNum := some (selfid i) } :=
    ⟨rfl, fun _ wrong => (by cases wrong), fun _ => Nat.le_refl _, fun wrong => by cases wrong⟩
  rw [begin_step i msg value ⟨selfid i, 0⟩ held (by rw [if_neg (by simp [kind])]; exact update_low _ _ (Nat.zero_le _))
    (by rw [number]; exact bounds.1), if_pos kind, number]
  have accepted := accept_run (begun ⟨selfid i, 0⟩ value) { proposedNum := selfid i, promisedNum := some (selfid i) } value formed rfl
    (by rw [show (begun ⟨selfid i, 0⟩ value).propNumGen.get = selfid i from number]; exact Nat.le_refl _)
  rw [show (begun ⟨selfid i, 0⟩ value).propNumGen.get = selfid i from number] at accepted
  rw [accepted, Option.bind_some]
  have counted : getPropCnt (selfid i) = 0 := by
    rw [getPropCnt, propNumDecompose]
    omega
  exact asserting_pos _ _ ⟨rfl, rfl, counted⟩

end PInsAliveState

end PaxosStore.PaxosKv
