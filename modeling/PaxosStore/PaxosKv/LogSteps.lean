import PaxosStore.PaxosKv.LogRuns
import PaxosStore.PaxosKv.OrderlySteps

set_option autoImplicit false

namespace PaxosStore.PaxosKv

open PaxosStore.Consensus

def isPeerType (type : MessageType) : Bool :=
  type = .prop ∨ type = .accpt ∨ type = .fastAccpt ∨ isAnswer type ∨ type = .chosen ∨ type = .getChosen ∨ type = .noop

-- A message another server may send for one of the indexes.
structure PeerMessage (selfId : Fin 3) (m : LogMessage) : Prop where
  positive : 0 < m.index
  small : m.index < 2 ^ 64
  target : m.msg.toId = some selfId
  kind : isPeerType m.msg.type = true
  valued : m.msg.type = .chosen → m.msg.acceptedValue.isSome = true

-- The log the server goes on with: a step with an error code leaves it alone.
def StepOut.left (out : StepOut) (log : PaxosLog) : PaxosLog := if out.code = 0 then out.log else log

def stepsWell (learnerOnly : Bool) (selfId : Fin 3) (m : LogMessage) (alive : Option PInsAliveState) (log : PaxosLog) : Prop :=
  ∃ out, PLogWrapper.step learnerOnly selfId m alive log = some out ∧ isSlim (out.left log) = true ∧
    (m.msg.type = .chosen → m.index = getMaxIndex log ∨ m.index + 1 = getMaxIndex log →
      ∀ pins, findIns (out.left log) m.index = some pins → pins.chosen = true ∧ pins.acceptedValue = m.msg.acceptedValue)

-- The value of the index before the only, pending, instance arrives.
def reinserts (m : LogMessage) (log : PaxosLog) : Prop :=
  m.msg.type = .chosen ∧ ∃ ins, log = [(m.index + 1, ins)] ∧ ins.chosen = false

-- The instance a message reaches.
def reached (log : PaxosLog) (index : Nat) : Option PaxosInstance :=
  (findIns log index).or (if getMaxIndex log < index then some {} else none)

-- A message the instance can take: what is chosen or accepted under the same
-- number is what the message says, and an answer suits the proposer it is for.
def takes (learnerOnly : Bool) (selfId : Fin 3) (msg : Message) (alive : Option PInsAliveState) (pins : PaxosInstance) : Prop :=
  if pins.chosen then msg.type = .chosen → msg.acceptedValue = pins.acceptedValue
  else if learnerOnly ∧ msg.type ≠ .chosen then True
  else
    match msg.type with
    | .accpt | .fastAccpt => msg.acceptedValue.isSome = true
    | .chosen =>
        if pins.acceptedNum = some msg.proposedNum then msg.acceptedValue = pins.acceptedValue
        else ((PropNumGen.mk 0 100).next (max (max msg.proposedNum (pins.promisedNum.getD 0)) pins.proposedNum)).isSome = true
    | .propRsp | .accptRsp | .fastAccptRsp => alive.isSome = true → (wrapperStep false selfId msg alive pins).isSome = true
    | _ => True

theorem wrapper_ok (log : PaxosLog) (formed : LogFormed log) : wrapperOk log = true := by
  have complete : log.all (fun entry => !entry.2.chosen || entry.2.promisedNum.isSome && entry.2.acceptedNum.isSome &&
      entry.2.acceptedValue.isSome) = true := by
    rw [List.all_eq_true]
    intro entry member
    cases marked : entry.2.chosen with
    | false => rfl
    | true =>
        have whole := chosen_complete entry.2 (formed.entries entry.1 entry.2 member).2.2 marked
        simp [whole.1, whole.2.1, whole.2.2]
  rw [wrapperOk, complete, formed.slim]
  rcases slim_shape log formed.slim with rfl | ⟨ins, rfl⟩ | ⟨prev, ins, rfl, _⟩
  · rfl
  · simp [getMinIndex, getMaxIndex]
  · have step := consecutive prev ins formed
    have next := (keeps_both prev ins formed.slim).2.1
    simp only [getMinIndex, getMaxIndex, List.head?_cons, List.getLast?_cons_cons, List.getLast?_singleton, Option.map_some, Option.getD_some, next]
    simp
    omega

theorem get_instance_spec (log : PaxosLog) (formed : LogFormed log) (index : Nat) (positive : 0 < index) :
    getInstance log index = some (if (findIns log index).isSome then some (log, false)
      else if getMaxIndex log < index then some (log ++ [(index, ({} : PaxosInstance))], true) else none) := by
  rw [getInstance, asserting_pos _ _ ⟨positive, min_le_max log formed⟩]
  cases found : findIns log index with
  | some pins =>
      have edge := (index_bounds log formed index pins (find_member log index pins found)).2
      rw [if_neg (by omega)]
      rfl
  | none =>
      have inner : index ≠ getMinIndex log ∧ index ≠ getMaxIndex log := by
        by_contra edge
        obtain ⟨pins, here⟩ := index_present log index positive (by omega)
        obtain ⟨other, wrong⟩ := find_present log index pins here
        rw [found] at wrong
        cases wrong
      rw [if_pos inner]
      by_cases above : getMaxIndex log < index
      · rw [if_neg (by omega), if_pos above]
        rfl
      · rw [if_pos (by omega), if_neg above]
        rfl

theorem asserting_is_some {R : Type} (condition : Prop) [Decidable condition] (rest : Option R) (fine : rest.isSome = true) :
    (asserting condition rest).isSome = true ↔ condition := by
  by_cases holds : condition
  · simp [asserting, holds, fine]
  · simp [asserting, holds]

theorem chosen_takes (selfId : Fin 3) (msg : Message) (pins : PaxosInstance) (formed : Formed pins) (marked : pins.chosen = true)
    (valued : msg.type = .chosen → msg.acceptedValue.isSome = true) :
    (stepChosen selfId msg pins).isSome = true ↔ (msg.type = .chosen → msg.acceptedValue = pins.acceptedValue) := by
  rw [stepChosen, asserting_pos _ _ (chosen_complete pins formed marked)]
  cases kind : msg.type
  case chosen =>
    dsimp only
    rw [asserting_is_some _ _ rfl]
    exact ⟨fun same _ => same (valued kind), fun same _ => same rfl⟩
  all_goals exact ⟨fun _ wrong => (by cases wrong), fun _ => rfl⟩

-- CHOSEN: the value is the accepted one, or the number generator still has room.
theorem learn_takes (value : Entry) (msg : Message) (pins : PaxosInstance) (formed : Formed pins) :
    (learn value msg pins).isSome = true ↔
      if pins.acceptedNum = some msg.proposedNum then some value = pins.acceptedValue
      else ((PropNumGen.mk 0 100).next (max (max msg.proposedNum (pins.promisedNum.getD 0)) pins.proposedNum)).isSome = true := by
  unfold learn
  split
  · rw [asserting_is_some _ _ rfl]
    exact eq_comm
  · cases rolled : (PropNumGen.mk 0 100).next (max (max msg.proposedNum (pins.promisedNum.getD 0)) pins.proposedNum) with
    | none => simp
    | some gen =>
        have above := (PropNumGen.next_spec _ gen _ rolled).2
        have higher : pins.promisedNum.getD 0 < gen.get := by omega
        have ready : Formed { pins with proposedNum := gen.get, promisedNum := some gen.get } := by
          refine ⟨formed.valued, fun num known => ?_, fun _ => Nat.le_refl _, formed.chosen⟩
          obtain ⟨old, holds, below⟩ := formed.ordered num known
          rw [holds] at higher
          exact ⟨gen.get, rfl, Nat.le_trans below (Nat.le_of_lt higher)⟩
        rw [Option.bind_some, updated_promised gen.get { pins with proposedNum := gen.get } (Nat.le_of_lt higher), Option.bind_some,
          updated_accepted gen.get value _ ready (Nat.le_refl _)]
        simp

-- The acceptor's answer to a proposal can always be built.
theorem accepting_takes (selfId : Fin 3) (msg : Message) (alive : Option PInsAliveState) (pins : PaxosInstance) (type : MessageType) (quick : Bool)
    (formed : Formed pins) (kind : type = .accptRsp ∨ type = .fastAccptRsp)
    (asked : stepByType msg alive pins = stepByType.accepting msg alive pins type quick) :
    ((stepByType msg alive pins).bind fun (write, type, alive, pins) => (produceRsp selfId msg alive pins type).map fun rsp =>
      if type = .chosen then (write, rsp, alive.map PInsAliveState.markChosen, { pins with chosen := true })
      else (write, rsp, alive, pins)).isSome = true ↔ msg.acceptedValue.isSome = true := by
  have produced (state : Option PInsAliveState) (stored : PaxosInstance) (promised : stored.promisedNum.isSome = true) :
      (produceRsp selfId msg state stored type).isSome = true := by
    rcases kind with rfl | rfl
    · rw [produceRsp, produceRsp.acceptRsp, asserting_pos _ _ promised]
      rfl
    · rw [produceRsp, produceRsp.acceptRsp, asserting_pos _ _ promised]
      rfl
  rw [asked, stepByType.accepting]
  cases held : msg.acceptedValue with
  | none => simp
  | some value =>
      rw [Option.bind_some]
      rcases accepted_verdict msg.proposedNum value quick pins formed with ⟨_, granted⟩ | ⟨refused, reason⟩
      · rw [granted]
        simp only [Option.map_some, Option.bind_some, Option.isSome_map, Option.isSome_some, iff_true]
        exact produced _ _ rfl
      · rw [refused]
        simp only [Option.map_some, Option.bind_some, Option.isSome_map, Option.isSome_some, iff_true]
        apply produced
        rcases reason with closed | ⟨_, old, known, _⟩
        · cases none : pins.promisedNum with
          | none => simp [none] at closed
          | some _ => rfl
        · obtain ⟨promised, holds, _⟩ := formed.ordered old known
          rw [holds]
          rfl

-- An answer with no proposer to take it changes nothing.
theorem answer_takes (learnerOnly : Bool) (selfId : Fin 3) (msg : Message) (alive : Option PInsAliveState) (pins : PaxosInstance)
    (marked : ¬ pins.chosen = true) (learner : ¬ (learnerOnly = true ∧ msg.type ≠ .chosen)) (known : isAnswer msg.type = true) :
    (stepNotChosen learnerOnly selfId msg alive pins).isSome = true ↔
      (alive.isSome = true → (wrapperStep false selfId msg alive pins).isSome = true) := by
  rw [wrapperStep, if_neg marked, stepNotChosen, stepNotChosen, if_neg learner, if_neg (by simp)]
  cases alive with
  | some state => exact ⟨fun done _ => done, fun done => done rfl⟩
  | none =>
      have idle : stepByType msg none pins = some (false, .noop, none, pins) := by
        cases type : msg.type <;> simp [type, isAnswer] at known
        all_goals
          rw [stepByType, type]
          rfl
      rw [idle]
      exact ⟨fun _ wrong => (by cases wrong), fun _ => rfl⟩

theorem chosen_step (msg : Message) (alive : Option PInsAliveState) (pins : PaxosInstance) (value : Entry) (type : msg.type = .chosen)
    (held : msg.acceptedValue = some value) :
    stepByType msg alive pins =
      (learn value msg pins).map fun (write, pins) => (write, .noop, alive.map PInsAliveState.markChosen, pins) := by
  rw [stepByType, type]
  dsimp only
  rw [held]
  rfl

theorem wrapper_takes (learnerOnly : Bool) (selfId : Fin 3) (msg : Message) (alive : Option PInsAliveState) (pins : PaxosInstance)
    (formed : Formed pins) (kind : isPeerType msg.type = true) (valued : msg.type = .chosen → msg.acceptedValue.isSome = true) :
    (wrapperStep learnerOnly selfId msg alive pins).isSome = true ↔ takes learnerOnly selfId msg alive pins := by
  unfold takes
  by_cases marked : pins.chosen = true
  · rw [if_pos marked, wrapperStep, if_pos marked, Option.isSome_map]
    exact chosen_takes selfId msg pins formed marked valued
  · rw [if_neg marked]
    by_cases learner : learnerOnly = true ∧ msg.type ≠ .chosen
    · rw [if_pos learner, wrapperStep, if_neg marked, stepNotChosen, if_pos learner]
      exact ⟨fun _ => trivial, fun _ => rfl⟩
    · rw [if_neg learner, wrapperStep, if_neg marked]
      have answer := answer_takes learnerOnly selfId msg alive pins marked learner
      rw [stepNotChosen, if_neg learner] at answer ⊢
      cases type : msg.type <;> simp [isPeerType, isAnswer, type] at kind
      case chosen =>
        obtain ⟨value, held⟩ := Option.isSome_iff_exists.mp (valued type)
        rw [chosen_step msg alive pins value type held, held, ← learn_takes value msg pins formed]
        cases learn value msg pins with
        | none => exact Iff.rfl
        | some pair => exact Iff.rfl
      case prop =>
        refine ⟨fun _ => trivial, fun _ => ?_⟩
        have whole : pins.acceptedNum.isSome = true → pins.acceptedValue.isSome = true := by
          rw [formed.valued]
          exact id
        by_cases allowed : pins.promisedNum.getD 0 ≤ msg.proposedNum
        · rw [stepByType, type]
          dsimp only
          rw [updated_promised _ _ allowed, Option.bind_some]
          dsimp only
          rw [produceRsp, asserting_pos _ _ ⟨Nat.le_refl _, whole⟩]
          rfl
        · rw [stepByType, type]
          dsimp only
          rw [refused_promised _ _ (by omega), Option.bind_some]
          dsimp only
          rw [produceRsp, asserting_pos _ _ ⟨by omega, whole⟩]
          rfl
      case accpt => exact accepting_takes selfId msg alive pins .accptRsp false formed (.inl rfl) (by rw [stepByType, type])
      case fastAccpt => exact accepting_takes selfId msg alive pins .fastAccptRsp true formed (.inr rfl) (by rw [stepByType, type])
      case propRsp => exact answer (by rw [type]; rfl)
      case accptRsp => exact answer (by rw [type]; rfl)
      case fastAccptRsp => exact answer (by rw [type]; rfl)
      case noop =>
        rw [stepByType, type]
        exact ⟨fun _ => trivial, fun _ => rfl⟩
      case getChosen =>
        rw [stepByType, type]
        exact ⟨fun _ => trivial, fun _ => rfl⟩

theorem chosen_result (learnerOnly write : Bool) (selfId : Fin 3) (msg : Message) (alive next : Option PInsAliveState)
    (pins stored : PaxosInstance) (rsp : Option Message) (kind : msg.type = .chosen) (valued : msg.acceptedValue.isSome = true)
    (done : wrapperStep learnerOnly selfId msg alive pins = some (write, rsp, next, stored)) :
    stored.chosen = true ∧ stored.acceptedValue = msg.acceptedValue := by
  unfold wrapperStep at done
  split at done
  · rename_i marked
    obtain ⟨reply, answered, same⟩ := Option.map_eq_some_iff.mp done
    cases same
    obtain ⟨_, rest⟩ := (asserting_some _ _ _).mp answered
    rw [kind] at rest
    obtain ⟨equal, _⟩ := (asserting_some _ _ _).mp rest
    exact ⟨marked, (equal valued).symm⟩
  · rw [stepNotChosen, if_neg (by simp [kind])] at done
    obtain ⟨⟨write', type, middle, record⟩, stepped, rest⟩ := Option.bind_eq_some_iff.mp done
    obtain ⟨reply, _, same⟩ := Option.map_eq_some_iff.mp rest
    rw [stepByType, kind] at stepped
    obtain ⟨value, held, learnt⟩ := Option.bind_eq_some_iff.mp stepped
    obtain ⟨⟨write'', kept⟩, learnt, equal⟩ := Option.map_eq_some_iff.mp learnt
    cases equal
    rw [if_neg (by simp)] at same
    cases same
    have spec := learn_spec value msg pins stored _ learnt
    exact ⟨spec.1, spec.2.1.trans held.symm⟩

theorem stepped_log (index : Nat) (rsp : Option Message) (alive state : Option PInsAliveState) (grown kept : PaxosLog)
    (write fresh cut : Bool) (pins stored : PaxosInstance) (shrunk : shrinkPlog (setIns grown index stored) = some (cut, kept)) :
    ((some (write, rsp, state, stored)).bind fun (write, rsp, state, stored) =>
      (shrinkPlog (setIns grown index stored)).map fun (cut, kept) => ({
        code := 0
        rsp := rsp.map fun rsp => ⟨index, rsp⟩
        log := kept
        alive := if fresh then alive else state
        write := write || (!pins.chosen && stored.chosen) || cut } : StepOut)) =
      some ⟨0, rsp.map fun rsp => ⟨index, rsp⟩, kept, if fresh then alive else state, write || (!pins.chosen && stored.chosen) || cut⟩ := by
  rw [Option.bind_some]
  dsimp only
  rw [shrunk]
  rfl

-- A message that reaches an instance is handled well exactly if the instance takes it.
theorem instance_well (learnerOnly : Bool) (selfId : Fin 3) (m : LogMessage) (alive : Option PInsAliveState) (log grown : PaxosLog)
    (fresh : Bool) (pins : PaxosInstance) (peer : PeerMessage selfId m) (formed : LogFormed log) (pinsFormed : Formed pins)
    (found : findIns grown m.index = some pins)
    (ran : PLogWrapper.step learnerOnly selfId m alive log = stepInstance learnerOnly selfId m alive grown fresh) :
    stepsWell learnerOnly selfId m alive log ↔ takes learnerOnly selfId m.msg (if fresh then none else alive) pins := by
  rw [← wrapper_takes learnerOnly selfId m.msg _ pins pinsFormed peer.kind peer.valued]
  unfold stepsWell
  rw [ran, stepInstance, found]
  dsimp only
  by_cases learner : learnerOnly = true ∧ pins.chosen = false ∧ m.msg.type ≠ .chosen
  · rw [if_pos learner, wrapperStep, if_neg (by simp [learner.2.1]), stepNotChosen, if_pos ⟨learner.1, learner.2.2⟩]
    exact ⟨fun _ => rfl, fun _ => ⟨_, rfl, formed.slim, fun wrong => absurd wrong learner.2.2⟩⟩
  · rw [if_neg learner]
    cases stepped : wrapperStep learnerOnly selfId m.msg (if fresh then none else alive) pins with
    | none =>
        refine ⟨fun well => ?_, fun wrong => by cases wrong⟩
        obtain ⟨out, wrong, _⟩ := well
        cases wrong
    | some result =>
        obtain ⟨write, rsp, state, stored⟩ := result
        obtain ⟨cut, kept, shrunk, slim, included, _⟩ := shrink_run (setIns grown m.index stored)
        have ran := stepped_log m.index rsp alive state grown kept write fresh cut pins stored shrunk
        refine ⟨fun _ => rfl, fun _ => ⟨_, ran, slim, fun kind _ held here => ?_⟩⟩
        have member := included _ (find_member kept m.index held here)
        rcases set_member grown m.index m.index stored held member with ⟨wrong, _⟩ | ⟨_, same, _⟩
        · exact absurd rfl wrong
        · rw [same]
          exact chosen_result learnerOnly write selfId m.msg _ state pins stored rsp kind (peer.valued kind) stepped

theorem chosen_ins_member (log : PaxosLog) (index : Nat) (pins : PaxosInstance) (found : getChosenIns log = some (index, pins)) :
    (index, pins) ∈ log ∧ pins.chosen = true := by
  have member := List.mem_of_find?_eq_some found
  have marked := List.find?_some found
  exact ⟨by simpa using member, by simpa using marked⟩

-- The answer to a message that asks for an index below the log.
theorem asked_below (selfId : Fin 3) (m : LogMessage) (alive : Option PInsAliveState) (log : PaxosLog) (formed : LogFormed log)
    (maxIndex : Nat) (ins : PaxosInstance) (absent : findIns log m.index = none) (last : log.getLast? = some (maxIndex, ins))
    (below : m.index < maxIndex) :
    ∃ out, (match getChosenIns log with
      | none => some (silentOut log alive)
      | some (index, pins) =>
          asserting (m.index < index) <|
            (stepChosen selfId { m.msg with type := .getChosen } pins).bind fun rsp =>
              rsp.map fun rsp => ⟨0, some ⟨index, { rsp with toId := some m.msg.fromId }⟩, log, alive, false⟩) = some out ∧
      out.left log = log := by
  cases found : getChosenIns log with
  | none => exact ⟨_, rfl, rfl⟩
  | some entry =>
      obtain ⟨index, pins⟩ := entry
      obtain ⟨here, marked⟩ := chosen_ins_member log index pins found
      have low : m.index < index := by
        rcases slim_shape log formed.slim with rfl | ⟨one, rfl⟩ | ⟨prev, one, rfl, keeps⟩
        · cases here
        · simp only [List.mem_singleton] at here
          simp only [List.getLast?_singleton, Option.some.injEq] at last
          rw [← here] at last
          cases last
          exact below
        · have step := consecutive prev one formed
          have pending := (keeps_both prev one keeps).1
          simp only [List.getLast?_cons_cons, List.getLast?_singleton, Option.some.injEq] at last
          simp only [List.mem_cons, List.not_mem_nil, or_false] at here
          rcases here with rfl | wrong
          · have apart : m.index ≠ index := by
              rintro rfl
              obtain ⟨other, wrong⟩ := find_present [(m.index, pins), one] m.index pins (by simp)
              rw [absent] at wrong
              cases wrong
            rw [last] at step
            dsimp only at step
            omega
          · rw [← wrong, marked] at pending
            cases pending
      dsimp only
      rw [asserting_pos _ _ low, stepChosen, asserting_pos _ _ (chosen_complete pins (formed.entries index pins here).2.2 marked)]
      exact ⟨_, rfl, rfl⟩

-- A message below the log is handled well unless it would have to be re-inserted.
theorem invalid_well (selfId : Fin 3) (m : LogMessage) (alive : Option PInsAliveState) (log : PaxosLog) (formed : LogFormed log)
    (absent : findIns log m.index = none) (below : m.index < getMaxIndex log) :
    (∃ out, stepInvalidIndex selfId m alive log = some out ∧ out.left log = log) ↔ ¬ reinserts m log := by
  have missing (pins : PaxosInstance) : (m.index, pins) ∉ log := by
    intro here
    obtain ⟨found, wrong⟩ := find_present log m.index pins here
    rw [absent] at wrong
    cases wrong
  rw [stepInvalidIndex, asserting_pos _ _ formed.slim]
  cases last : log.getLast? with
  | none => simp [getMaxIndex, last] at below
  | some entry =>
      obtain ⟨maxIndex, ins⟩ := entry
      have top : getMaxIndex log = maxIndex := by simp [getMaxIndex, last]
      rw [top] at below
      dsimp only
      rw [asserting_pos _ _ ⟨by omega, below⟩]
      have quiet (other : m.msg.type ≠ .chosen) : ¬ reinserts m log := fun wrong => other wrong.1
      have asked := asked_below selfId m alive log formed maxIndex ins absent last below
      cases kind : m.msg.type
      case chosen =>
        dsimp only
        have bound := (formed.entries maxIndex ins (List.mem_of_getLast? last)).2.1
        by_cases done : u64 (m.index + 1) ≠ maxIndex ∨ ins.chosen = true
        · rw [if_pos done]
          refine ⟨fun _ wrong => ?_, fun _ => ⟨_, rfl, rfl⟩⟩
          obtain ⟨_, only, shape, pending⟩ := wrong
          rw [shape] at last
          cases last
          rcases done with far | marked
          · rw [u64] at far
            omega
          · rw [pending] at marked
            cases marked
        · rw [if_neg done]
          have near : m.index + 1 = maxIndex ∧ ins.chosen = false := by
            rw [u64] at done
            simp only [not_or, Bool.not_eq_true] at done
            refine ⟨?_, done.2⟩
            omega
          have single : log = [(maxIndex, ins)] := by
            rcases slim_shape log formed.slim with rfl | ⟨one, rfl⟩ | ⟨prev, one, rfl, _⟩
            · cases last
            · cases last
              rfl
            · have step := consecutive prev one formed
              simp only [List.getLast?_cons_cons, List.getLast?_singleton, Option.some.injEq] at last
              rw [last] at step
              dsimp only at step
              have same : m.index = prev.1 := by omega
              exact absurd (by rw [same]; simp) (missing prev.2)
          refine ⟨fun well => ?_, fun fine => absurd ⟨kind, ins, ?_, near.2⟩ fine⟩
          · obtain ⟨out, ran, _⟩ := well
            obtain ⟨_, ran⟩ := (asserting_some _ _ _).mp ran
            obtain ⟨wrong, _⟩ := (asserting_some _ _ _).mp ran
            rw [reinsert_fails] at wrong
            cases wrong
          · rw [single, near.1]
      case getChosen => exact ⟨fun _ => quiet (by simp [kind]), fun _ => asked⟩
      case prop => exact ⟨fun _ => quiet (by simp [kind]), fun _ => asked⟩
      case accpt => exact ⟨fun _ => quiet (by simp [kind]), fun _ => asked⟩
      case fastAccpt => exact ⟨fun _ => quiet (by simp [kind]), fun _ => asked⟩
      all_goals exact ⟨fun _ => quiet (by simp [kind]), fun _ => ⟨_, rfl, rfl⟩⟩

theorem peer_step (learnerOnly : Bool) (selfId : Fin 3) (m : LogMessage) (alive : Option PInsAliveState) (log : PaxosLog)
    (peer : PeerMessage selfId m) :
    PLogWrapper.step learnerOnly selfId m alive log = (getInstance log m.index).bind fun
      | none => stepInvalidIndex selfId m alive log
      | some (grown, fresh) => stepInstance learnerOnly selfId m alive grown fresh := by
  have aimed : ¬ (m.index = 0 ∨ m.msg.toId ≠ some selfId) := by
    rintro (zero | wrong)
    · have positive := peer.positive
      omega
    · exact wrong peer.target
  exact if_neg aimed

-- One promise, for index 2, at a server that has missed index 1.
def lonePending : LogServer := ⟨[(2, { promisedNum := some 65538 })], none⟩

theorem lone_pending_reached : Reaches (LogServer.act 0 7) {} lonePending :=
  ⟨[.message ⟨2, { type := .prop, fromId := 1, toId := some 0, proposedNum := 65538 }⟩ false true], by decide +kernel⟩

def chosenAt (index : Nat) : LogMessage :=
  ⟨index, { type := .chosen, fromId := 1, toId := some 0, proposedNum := 65538, acceptedValue := some ⟨9, [1]⟩ }⟩

end PaxosStore.PaxosKv
