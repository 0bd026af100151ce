import PaxosStore.PaxosKv.DbImpl

set_option autoImplicit false

namespace PaxosStore.PaxosKv

open PaxosStore.Consensus

-- Either nothing happens, or there is a proposal to write and to send.
def Proposes (write : Bool) (type : MessageType) : Prop := type = .noop ∨ write = true ∧ (type = .prop ∨ type = .fastAccpt)

namespace PInsAliveState

theorem prepare_writes (alive next : PInsAliveState) (pins stored : PaxosInstance) (write : Bool) (type : MessageType)
    (done : alive.enterPrepare pins = some (write, type, next, stored)) : Proposes write type := by
  unfold enterPrepare at done
  dsimp only at done
  split at done
  · cases done
    exact .inl rfl
  · obtain ⟨_, _, rest⟩ := Option.bind_eq_some_iff.mp done
    obtain ⟨_, _, rest⟩ := Option.bind_eq_some_iff.mp rest
    obtain ⟨_, rest⟩ := (asserting_some _ _ _).mp rest
    obtain ⟨_, _, rest⟩ := Option.bind_eq_some_iff.mp rest
    obtain ⟨_, same⟩ := (asserting_some _ _ _).mp rest
    cases same
    exact .inr ⟨rfl, .inl rfl⟩

theorem try_writes (alive next : PInsAliveState) (msg : Message) (pins stored : PaxosInstance) (write : Bool) (type : MessageType)
    (done : alive.stepTry msg pins = some (write, type, next, stored)) : Proposes write type := by
  unfold stepTry at done
  split at done
  · cases done
  · obtain ⟨⟨state, waiting⟩, tried, rest⟩ := Option.bind_eq_some_iff.mp done
    obtain ⟨gen, _, same⟩ := Option.map_eq_some_iff.mp tried
    cases same
    obtain ⟨⟨write', type', last, record⟩, updated, rest⟩ := Option.bind_eq_some_iff.mp rest
    obtain ⟨_, same⟩ := (asserting_some _ _ _).mp rest
    cases same
    rw [updatePropState] at updated
    exact prepare_writes _ next pins stored write type updated

theorem begin_writes (alive next : PInsAliveState) (msg : Message) (pins stored : PaxosInstance) (write : Bool) (type : MessageType)
    (done : alive.stepBegin msg pins = some (write, type, next, stored)) : Proposes write type := by
  obtain ⟨_, rest⟩ := (asserting_some _ _ _).mp done
  split at rest
  · cases rest
  · split at rest
    · cases rest
      exact .inl rfl
    · obtain ⟨_, rest⟩ := (asserting_some _ _ _).mp rest
      obtain ⟨_, _, rest⟩ := Option.bind_eq_some_iff.mp rest
      obtain ⟨_, _, rest⟩ := Option.bind_eq_some_iff.mp rest
      obtain ⟨first, rest⟩ := (asserting_some _ _ _).mp rest
      dsimp only at rest
      split at rest
      · obtain ⟨_, _, rest⟩ := Option.bind_eq_some_iff.mp rest
        obtain ⟨second, same⟩ := (asserting_some _ _ _).mp rest
        cases same
        exact .inr ⟨second.1, .inr rfl⟩
      · cases rest
        exact .inr ⟨first.1, .inl first.2.1⟩

end PInsAliveState

-- The types PLogWrapper::Set gives to its own messages.
def isSetType (type : MessageType) : Bool := type = .beginProp ∨ type = .beginFastProp ∨ type = .tryProp

theorem step_by_type_proposing (msg : Message) (alive : PInsAliveState) (pins : PaxosInstance)
    (kinds : msg.type = .beginProp ∨ msg.type = .beginFastProp ∨ msg.type = .tryProp) :
    stepByType msg (some alive) pins = (alive.step msg pins).map fun (write, type, state, pins) => (write, type, some state, pins) := by
  rcases kinds with kind | kind | kind <;> rw [stepByType, kind] <;> rfl

theorem proposal_step (selfId : Fin 3) (msg : Message) (alive : PInsAliveState) (pins stored : PaxosInstance) (write : Bool)
    (rsp : Option Message) (next : Option PInsAliveState) (formed : Formed pins) (pending : pins.chosen = false)
    (kind : isSetType msg.type = true) (done : wrapperStep false selfId msg (some alive) pins = some (write, rsp, next, stored)) :
    stored.chosen = false ∧ next.isSome = true ∧ (rsp.isSome = true → write = true) := by
  rw [wrapperStep, if_neg (by simp [pending]), stepNotChosen, if_neg (by simp)] at done
  obtain ⟨⟨moved, type, state, record⟩, typed, rest⟩ := Option.bind_eq_some_iff.mp done
  obtain ⟨reply, produced, same⟩ := Option.map_eq_some_iff.mp rest
  have kinds : msg.type = .beginProp ∨ msg.type = .beginFastProp ∨ msg.type = .tryProp := of_decide_eq_true kind
  rw [step_by_type_proposing msg alive pins kinds] at typed
  obtain ⟨⟨write', type', state', record'⟩, ran, equal⟩ := Option.map_eq_some_iff.mp typed
  simp only [Prod.mk.injEq] at equal
  obtain ⟨rfl, rfl, rfl, rfl⟩ := equal
  have kept := (step_moves alive state' pins record' write' type' msg formed pending ran).2
  obtain ⟨_, ran⟩ := (asserting_some _ _ _).mp ran
  have writes : Proposes write' type' := by
    rcases kinds with kind | kind | kind <;> rw [kind] at ran
    · exact PInsAliveState.begin_writes alive state' msg pins record' write' type' ran
    · exact PInsAliveState.begin_writes alive state' msg pins record' write' type' ran
    · exact PInsAliveState.try_writes alive state' msg pins record' write' type' ran
  have unmarked : type' ≠ .chosen := by
    rintro rfl
    rcases writes with wrong | ⟨_, wrong | wrong⟩ <;> cases wrong
  rw [if_neg unmarked] at same
  simp only [Prod.mk.injEq] at same
  obtain ⟨rfl, rfl, rfl, rfl⟩ := same
  refine ⟨kept, rfl, fun answered => ?_⟩
  rcases writes with rfl | ⟨moved, _⟩
  · simp only [produceRsp, Option.some.injEq] at produced
    rw [← produced] at answered
    cases answered
  · exact moved

-- What stands in front of the instance with this index: nothing, or the chosen one before it.
def Front (front : PaxosLog) (index : Nat) : Prop :=
  front = [] ∨ ∃ prev pins, front = [(prev, pins)] ∧ u64 (prev + 1) = index ∧ prev ≠ index ∧ pins.chosen = true ∧ pins.acceptedValue.isSome = true

section Front

variable (front : PaxosLog) (index : Nat) (pins : PaxosInstance) (here : Front front index)

include here

theorem front_slim (pending : pins.chosen = false) : isSlim (front ++ [(index, pins)]) = true := by
  rcases here with rfl | ⟨prev, old, rfl, next, _, marked, valued⟩
  · rfl
  · simp [isSlim, keepsBoth, next, marked, valued, pending]

theorem front_find : findIns (front ++ [(index, pins)]) index = some pins := by
  rcases here with rfl | ⟨prev, old, rfl, _, other, _, _⟩
  · simp [findIns]
  · simp [findIns, other]

theorem front_set (stored : PaxosInstance) : setIns (front ++ [(index, pins)]) index stored = front ++ [(index, stored)] := by
  rcases here with rfl | ⟨prev, old, rfl, _, other, _, _⟩
  · simp [setIns]
  · simp [setIns, other]

theorem front_shrink (pending : pins.chosen = false) :
    shrinkPlog (front ++ [(index, pins)]) = some (false, front ++ [(index, pins)]) := by
  rw [shrinkPlog, if_pos (front_slim front index pins here pending)]

end Front

theorem chosen_append (front : PaxosLog) (index : Nat) (pins : PaxosInstance) (pending : pins.chosen = false) :
    getChosenIns (front ++ [(index, pins)]) = getChosenIns front := by
  simp [getChosenIns, pending]

-- What PLogWrapper::Set leaves when it is not refused.
structure SetDone (front : PaxosLog) (index : Nat) (out : StepOut) : Prop where
  code : out.code = 0
  log : ∃ stored, stored.chosen = false ∧ out.log = front ++ [(index, stored)]
  alive : out.alive.isSome = true
  rsp : ∀ rsp, out.rsp = some rsp → rsp.index = index ∧ out.write = true

namespace PLogWrapper

theorem step_last (learnerOnly : Bool) (selfId : Fin 3) (index : Nat) (msg : Message) (alive : Option PInsAliveState) (front : PaxosLog)
    (pins : PaxosInstance) (here : Front front index) (positive : 0 < index) (target : msg.toId = some selfId)
    (formed : LogFormed (front ++ [(index, pins)])) :
    step learnerOnly selfId ⟨index, msg⟩ alive (front ++ [(index, pins)]) =
      stepInstance learnerOnly selfId ⟨index, msg⟩ alive (front ++ [(index, pins)]) false := by
  have found := front_find front index pins here
  rw [step, if_neg (by simp [target]; omega), get_instance_spec _ formed index positive, found]
  rfl

theorem learner_refused (selfId : Fin 3) (index : Nat) (msg : Message) (alive : Option PInsAliveState) (front : PaxosLog)
    (pins : PaxosInstance) (here : Front front index) (positive : 0 < index) (target : msg.toId = some selfId)
    (formed : LogFormed (front ++ [(index, pins)])) (pending : pins.chosen = false) (kind : isSetType msg.type = true) :
    step true selfId ⟨index, msg⟩ alive (front ++ [(index, pins)]) = some ⟨-50221, none, front ++ [(index, pins)], alive, false⟩ := by
  have other : msg.type ≠ .chosen := by
    intro wrong
    rw [wrong] at kind
    cases kind
  have found := front_find front index pins here
  rw [step_last true selfId index msg alive front pins here positive target formed, stepInstance, found]
  simp [pending, other]

theorem proposal_done (selfId : Fin 3) (index : Nat) (msg : Message) (alive : PInsAliveState) (front : PaxosLog) (pins : PaxosInstance)
    (out : StepOut) (here : Front front index) (positive : 0 < index) (target : msg.toId = some selfId)
    (formed : LogFormed (front ++ [(index, pins)])) (pending : pins.chosen = false) (kind : isSetType msg.type = true)
    (done : step false selfId ⟨index, msg⟩ (some alive) (front ++ [(index, pins)]) = some out) : SetDone front index out := by
  have found := front_find front index pins here
  rw [step_last false selfId index msg _ front pins here positive target formed, stepInstance, found] at done
  simp only [Bool.false_eq_true, false_and, if_false] at done
  obtain ⟨⟨write, rsp, state, stored⟩, stepped, rest⟩ := Option.bind_eq_some_iff.mp done
  obtain ⟨open_, cached, writes⟩ := proposal_step selfId msg alive pins stored write rsp state
    (formed.entries index pins (by simp)).2.2 pending kind stepped
  obtain ⟨⟨cut, kept⟩, shrunk, same⟩ := Option.map_eq_some_iff.mp rest
  rw [front_set front index pins here stored, front_shrink front index stored here open_] at shrunk
  cases shrunk
  cases same
  refine ⟨rfl, ⟨stored, open_, rfl⟩, cached, fun reply sent => ?_⟩
  obtain ⟨answer, known, rfl⟩ := Option.map_eq_some_iff.mp sent
  refine ⟨rfl, ?_⟩
  dsimp only
  rw [writes (Option.isSome_iff_exists.mpr ⟨answer, known⟩)]
  rfl

end PLogWrapper

-- The logs that Set may write to, with what stands in front of its instance.
inductive Writable : PaxosLog → PaxosLog → Prop where
  | empty : Writable [] []
  | settled (index : Nat) (pins : PaxosInstance) (marked : pins.chosen = true) : Writable [(index, pins)] [(index, pins)]
  | first (pins : PaxosInstance) (pending : pins.chosen = false) : Writable [] [(1, pins)]
  | second (prev : Nat) (old : PaxosInstance) (index : Nat) (pins : PaxosInstance) (marked : old.chosen = true) (pending : pins.chosen = false)
      (next : prev + 1 = index) : Writable [(prev, old)] [(prev, old), (index, pins)]

theorem writable (log : PaxosLog) (formed : LogFormed log) (open_ : canWrite log = some 0) : ∃ front, Writable front log := by
  rcases slim_shape log formed.slim with rfl | ⟨⟨index, pins⟩, rfl⟩ | ⟨⟨prev, old⟩, ⟨index, pins⟩, rfl, keeps⟩
  · exact ⟨[], .empty⟩
  · cases marked : pins.chosen with
    | true => exact ⟨_, .settled index pins marked⟩
    | false =>
        have code := ((asserting_some _ _ _).mp open_).2
        simp only [marked, Bool.false_eq_true, if_false, Option.some.injEq] at code
        by_cases first : index = 1
        · subst first
          exact ⟨[], .first pins marked⟩
        · rw [if_neg first] at code
          cases code
  · have pending : pins.chosen = false := (keeps_both _ _ keeps).1
    have next := consecutive _ _ formed
    obtain ⟨chosen, found, _⟩ := Option.bind_eq_some_iff.mp ((asserting_some _ _ _).mp open_).2
    have marked : old.chosen = true := by
      by_contra other
      simp [getChosenIns, pending, other] at found
    exact ⟨_, .second prev old index pins marked pending next⟩

section Writable

variable (front log : PaxosLog) (formed : LogFormed log) (open_ : Writable front log)

include formed open_

theorem writable_front (positive : 0 < proposedIndex log) : Front front (proposedIndex log) := by
  cases open_ with
  | empty => exact .inl rfl
  | settled index pins marked =>
      obtain ⟨_, small, sound⟩ := formed.entries index pins (by simp)
      have next : proposedIndex [(index, pins)] = u64 (index + 1) := by simp [proposedIndex, getMaxIns, marked]
      have valued : pins.acceptedValue.isSome = true := by
        rw [← sound.valued]
        exact sound.chosen marked
      refine .inr ⟨index, pins, rfl, next.symm, ?_, marked, valued⟩
      rw [next, u64] at positive ⊢
      omega
  | first pins pending => exact .inl rfl
  | second prev old index pins marked pending next =>
      obtain ⟨_, small, _⟩ := formed.entries index pins (by simp)
      have same : proposedIndex [(prev, old), (index, pins)] = index := by simp [proposedIndex, getMaxIns, pending]
      have valued : old.acceptedValue.isSome = true := (keeps_both (prev, old) (index, pins) formed.slim).2.2
      have step : u64 (prev + 1) = index := (keeps_both (prev, old) (index, pins) formed.slim).2.1
      exact .inr ⟨prev, old, rfl, by rw [same]; exact step, by rw [same]; omega, marked, valued⟩

omit formed in
theorem writable_chosen : getChosenIns log = getChosenIns front := by
  cases open_ with
  | empty => rfl
  | settled index pins marked => rfl
  | first pins pending => exact chosen_append [] 1 pins pending
  | second prev old index pins marked pending next => exact chosen_append [(prev, old)] index pins pending

-- The assertions on the header in SetNoLockNoWrite and packRawValue.
theorem writable_header (header : PaxosLogHeader) (max : header.maxIndex = getMaxIndex log) (chosen : header.chosenIndex = getChosenIndex log) :
    (header.maxIndex = 0 ∨ 0 < header.chosenIndex ∨ header.maxIndex = 1) ∧
      (u64 (header.chosenIndex + 1) = header.maxIndex ∨ header.chosenIndex = header.maxIndex) := by
  rw [max, chosen, getChosenIndex, writable_chosen front log open_]
  cases open_ with
  | empty => exact ⟨.inl rfl, .inr rfl⟩
  | settled index pins marked =>
      have positive := (formed.entries index pins (by simp)).1
      have found : getChosenIns [(index, pins)] = some (index, pins) := by simp [getChosenIns, marked]
      rw [found]
      exact ⟨.inr (.inl positive), .inr rfl⟩
  | first pins pending => exact ⟨.inr (.inr rfl), .inl rfl⟩
  | second prev old index pins marked pending next =>
      have positive := (formed.entries prev old (by simp)).1
      have found : getChosenIns [(prev, old)] = some (prev, old) := by simp [getChosenIns, marked]
      rw [found]
      exact ⟨.inr (.inl positive), .inl (keeps_both (prev, old) (index, pins) formed.slim).2.1⟩

end Writable

namespace PLogWrapper

-- A failed step keeps its reply and its state back.
def withdrawn (stepped : StepOut) : Option StepOut :=
  if stepped.code ≠ 0 then some { stepped with rsp := none, alive := none } else asserting (stepped.rsp.isSome = true) (some stepped)

-- The call of Step that Set makes.
def SetCall (learnerOnly : Bool) (selfId : Fin 3) (front log : PaxosLog) (out : StepOut) : Prop :=
  ∃ msg alive pins stepped, msg.toId = some selfId ∧ isSetType msg.type = true ∧ pins.chosen = false ∧
    LogFormed (front ++ [(proposedIndex log, pins)]) ∧ 0 < proposedIndex log ∧
    step learnerOnly selfId ⟨proposedIndex log, msg⟩ (some alive) (front ++ [(proposedIndex log, pins)]) = some stepped ∧
    withdrawn stepped = some out

theorem settled_index (log : PaxosLog) (settled : (getMaxIns log).any (!·.2.chosen) = false) :
    proposedIndex log = match getMaxIns log with
      | none => 1
      | some (index, _) => u64 (index + 1) := by
  unfold proposedIndex
  cases last : getMaxIns log with
  | none => rfl
  | some entry =>
      have marked : entry.2.chosen = true := by simpa [last] using settled
      exact if_pos marked

theorem normal_call (learnerOnly : Bool) (selfId : Fin 3) (memberId : Nat) (entry : Entry) (log : PaxosLog) (out : StepOut)
    (formed : LogFormed log) (settled : (getMaxIns log).any (!·.2.chosen) = false)
    (done : normalSet learnerOnly selfId memberId entry true log = some out) : SetCall learnerOnly selfId log log out := by
  obtain ⟨_, rest⟩ := (asserting_some _ _ _).mp done
  rw [settled, if_neg (by simp)] at rest
  obtain ⟨positive, rest⟩ := (asserting_some _ _ _).mp rest
  obtain ⟨stepped, ran, rest⟩ := Option.bind_eq_some_iff.mp rest
  obtain ⟨added, _⟩ := append_next log _ formed settled rfl positive
  rw [SetCall, settled_index log settled]
  refine ⟨_, _, {}, stepped, rfl, ?_, rfl, added.formed, positive, ran, rest⟩
  dsimp only
  split
  · rfl
  · rfl

theorem preempt_call (learnerOnly : Bool) (selfId : Fin 3) (entry : Entry) (front : PaxosLog) (index : Nat) (pins : PaxosInstance)
    (out : StepOut) (formed : LogFormed (front ++ [(index, pins)])) (pending : pins.chosen = false)
    (follows : index = 1 ∨ ∃ chosen, getChosenIns front = some chosen ∧ index = u64 (chosen.1 + 1))
    (done : preemptSet learnerOnly selfId entry (front ++ [(index, pins)]) = some out) :
    SetCall learnerOnly selfId front (front ++ [(index, pins)]) out := by
  have last : getMaxIns (front ++ [(index, pins)]) = some (index, pins) := by simp [getMaxIns]
  have same : proposedIndex (front ++ [(index, pins)]) = index := by simp [proposedIndex, last, pending]
  obtain ⟨_, rest⟩ := (asserting_some _ _ _).mp done
  rw [last] at rest
  dsimp only at rest
  rw [chosen_append front index pins pending] at rest
  split at rest
  · rename_i out_
    rcases follows with first | ⟨chosen, found, next⟩
    · exact absurd first out_.2
    · simp [found, next] at out_
  · obtain ⟨⟨_, positive⟩, rest⟩ := (asserting_some _ _ _).mp rest
    obtain ⟨gen, _, rest⟩ := Option.bind_eq_some_iff.mp rest
    obtain ⟨stepped, ran, rest⟩ := Option.bind_eq_some_iff.mp rest
    rw [SetCall, same]
    exact ⟨_, _, pins, stepped, rfl, rfl, pending, formed, positive, ran, rest⟩

theorem set_call (learnerOnly : Bool) (selfId : Fin 3) (memberId : Nat) (entry : Entry) (front log : PaxosLog) (out : StepOut)
    (formed : LogFormed log) (open_ : Writable front log) (done : set learnerOnly selfId memberId entry true log = some out) :
    SetCall learnerOnly selfId front log out := by
  unfold set at done
  cases open_ with
  | empty =>
      have settled : (getMaxIns []).any (!·.2.chosen) = false := rfl
      rw [settled, if_neg (by simp)] at done
      exact normal_call learnerOnly selfId memberId entry [] out formed settled done
  | settled index pins marked =>
      have settled : (getMaxIns [(index, pins)]).any (!·.2.chosen) = false := by simp [getMaxIns, marked]
      rw [settled, if_neg (by simp)] at done
      exact normal_call learnerOnly selfId memberId entry _ out formed settled done
  | first pins pending =>
      have waits : (getMaxIns [(1, pins)]).any (!·.2.chosen) = true := by simp [getMaxIns, pending]
      rw [waits, if_pos rfl] at done
      exact preempt_call learnerOnly selfId entry [] 1 pins out formed pending (.inl rfl) done
  | second prev old index pins marked pending next =>
      have waits : (getMaxIns [(prev, old), (index, pins)]).any (!·.2.chosen) = true := by simp [getMaxIns, pending]
      have found : getChosenIns [(prev, old)] = some (prev, old) := by simp [getChosenIns, marked]
      have follows := (keeps_both (prev, old) (index, pins) formed.slim).2.1
      rw [waits, if_pos rfl] at done
      exact preempt_call learnerOnly selfId entry [(prev, old)] index pins out formed pending (.inr ⟨_, found, follows.symm⟩) done

theorem set_refused (selfId : Fin 3) (memberId : Nat) (entry : Entry) (front log : PaxosLog) (out : StepOut) (formed : LogFormed log)
    (open_ : Writable front log) (done : set true selfId memberId entry true log = some out) :
    out.code ≠ 0 ∧ out.rsp = none ∧ out.alive = none := by
  obtain ⟨msg, alive, pins, stepped, target, kind, pending, grown, positive, ran, ends⟩ :=
    set_call true selfId memberId entry front log out formed open_ done
  rw [learner_refused selfId _ msg _ front pins (writable_front front log formed open_ positive) positive target grown pending kind] at ran
  cases ran
  cases ends
  exact ⟨fun wrong => (by cases wrong), rfl, rfl⟩

theorem set_done (selfId : Fin 3) (memberId : Nat) (entry : Entry) (front log : PaxosLog) (out : StepOut) (formed : LogFormed log)
    (open_ : Writable front log) (done : set false selfId memberId entry true log = some out) :
    SetDone front (proposedIndex log) out ∧ out.rsp.isSome = true ∧ 0 < proposedIndex log := by
  obtain ⟨msg, alive, pins, stepped, target, kind, pending, grown, positive, ran, ends⟩ :=
    set_call false selfId memberId entry front log out formed open_ done
  have result := proposal_done selfId _ msg alive front pins stepped (writable_front front log formed open_ positive) positive target grown
    pending kind ran
  rw [withdrawn, if_neg (by simp [result.code])] at ends
  obtain ⟨answered, same⟩ := (asserting_some _ _ _).mp ends
  cases same
  exact ⟨result, answered, positive⟩

theorem set_next (learnerOnly : Bool) (selfId : Fin 3) (memberId : Nat) (entry : Entry) (log : PaxosLog) (out : StepOut)
    (formed : LogFormed log) (done : set learnerOnly selfId memberId entry true log = some out) : OutNext log out := by
  unfold set at done
  split at done
  · exact preempt_set_next learnerOnly selfId entry log out formed done
  · exact normal_set_next learnerOnly selfId memberId entry true log out formed done

end PLogWrapper

-- A new last instance changes nothing in the header but the last index.
theorem header_grows (codec : DataCodec) (header : PaxosLogHeader) (log next : PaxosLog) (checked : assertCheck codec header log = true)
    (slim : isSlim next = true) (same : getChosenIns next = getChosenIns log) :
    updateHeader codec next header = some { header with maxIndex := getMaxIndex next } ∧
      assertCheck codec { header with maxIndex := getMaxIndex next } next = true := by
  simp only [assertCheck, Bool.and_eq_true, decide_eq_true_eq] at checked
  obtain ⟨⟨⟨_, chosen⟩, reqid⟩, version⟩ := checked
  have index : getChosenIndex next = getChosenIndex log := by rw [getChosenIndex, same, getChosenIndex]
  have id : getChosenReqid next = getChosenReqid log := by rw [getChosenReqid, same, getChosenReqid]
  constructor
  · rw [updateHeader, asserting_pos _ _ slim]
    exact if_pos (by rw [index]; exact chosen)
  · simp only [assertCheck, Bool.and_eq_true, decide_eq_true_eq]
    exact ⟨⟨⟨trivial, by rw [index]; exact chosen⟩, by rw [id]; exact reqid⟩, by rw [same]; exact version⟩

-- A stored log with its header, and a cache that holds nothing above it.
structure Sound (codec : DataCodec) (key : List UInt8) (s : KeyState) : Prop where
  formed : LogFormed s.log
  checked : assertCheck codec s.header s.log = true
  keyed : ∀ held, s.cache = some held → held.key = key
  below : ∀ held, s.cache = some held → held.index ≤ getMaxIndex s.log
  queued : ∀ index, index ∈ s.timeouts → 0 < index

theorem sound_start (codec : DataCodec) (key : List UInt8) : Sound codec key {} :=
  ⟨formed_nil, rfl, fun _ wrong => (by cases wrong), fun _ wrong => (by cases wrong), fun _ wrong => by cases wrong⟩

theorem sound_restart (codec : DataCodec) (key : List UInt8) (s : KeyState) (sound : Sound codec key s) : Sound codec key s.restart :=
  ⟨sound.formed, sound.checked, fun _ wrong => (by cases wrong), fun _ wrong => (by cases wrong), fun _ wrong => by cases wrong⟩

theorem proposed_above (log : PaxosLog) (formed : LogFormed log) (positive : 0 < proposedIndex log) : getMaxIndex log ≤ proposedIndex log := by
  unfold proposedIndex getMaxIndex getMaxIns at *
  cases last : log.getLast? with
  | none => exact Nat.zero_le _
  | some entry =>
      have small := (formed.entries entry.1 entry.2 (List.mem_of_getLast? last)).2.1
      rw [last] at positive
      dsimp only at positive ⊢
      split at positive
      · rename_i marked
        rw [if_pos marked]
        simp only [Option.map_some, Option.getD_some]
        rw [u64] at positive ⊢
        omega
      · rename_i marked
        rw [if_neg marked]
        exact Nat.le_refl _

namespace DBImpl

section Sound

variable (codec : DataCodec) (selfId : Fin 3) (memberId : Nat) (key : List UInt8) (req : SetRequest) (s : KeyState) (sound : Sound codec key s)

-- Whether a Set gets as far as PLogWrapper::Set.
def proposesTo : Bool :=
  req.readCode = 0 && canWrite s.log = some 0 && req.prevVersion.all (· = s.header.version) &&
    (codec.serializeToString ⟨u64 (s.header.version + 1), 0, req.value, req.timestamp⟩).isSome

-- What a Set that is let through is about to write.
structure ReadyFor (ready : Ready) : Prop where
  index : ready.index = proposedIndex s.log
  positive : 0 < ready.index
  max : getMaxIndex ready.log = ready.index
  checked : assertCheck codec ready.header ready.log = true
  next : LogNext s.log ready.log
  chosen : getChosenIns ready.log = getChosenIns s.log

include sound

theorem proposed_ready (front : PaxosLog) (out : StepOut) (open_ : Writable front s.log)
    (entry : Entry) (done : PLogWrapper.set false selfId memberId entry true s.log = some out) :
    ∃ ready, proposed codec s out = .ok (.ready ready) ∧ ReadyFor codec s ready := by
  obtain ⟨result, answered, positive⟩ := PLogWrapper.set_done selfId memberId entry front s.log out sound.formed open_ done
  obtain ⟨rsp, sent⟩ := Option.isSome_iff_exists.mp answered
  obtain ⟨alive, cached⟩ := Option.isSome_iff_exists.mp result.alive
  obtain ⟨indexed, written⟩ := result.rsp rsp sent
  obtain ⟨stored, pending, log⟩ := result.log
  have moved := (PLogWrapper.set_next false selfId memberId entry s.log out sound.formed done).moved result.code
  have max : getMaxIndex out.log = proposedIndex s.log := by rw [log, max_append]
  have chosen : getChosenIns out.log = getChosenIns s.log := by
    rw [log, chosen_append front _ stored pending, writable_chosen front s.log open_]
  obtain ⟨updated, checked⟩ := header_grows codec s.header s.log out.log sound.checked moved.formed.slim chosen
  refine ⟨⟨_, out.log, proposedIndex s.log, alive, rsp⟩, ?_, rfl, positive, max, checked, moved, chosen⟩
  rw [proposed, if_neg (by simp [result.code]), sent, cached]
  dsimp only
  rw [assertAt, if_pos ⟨indexed, by rw [indexed, max], written⟩, updated]
  exact if_pos checked

-- A Set that is stopped before the wrapper has an error to return, unless it
-- reads the chosen index of a log without one.
theorem early_end (stays : proposesTo codec req s = false) :
    (∃ code, code ≠ 0 ∧ setNoLockNoWrite codec selfId memberId req s = .ok (.refused code false)) ∨
      setNoLockNoWrite codec selfId memberId req s = .error .canWrite := by
  unfold setNoLockNoWrite
  by_cases read : req.readCode = 0
  · rw [if_neg (by simp [read]), assertAt, if_pos sound.checked]
    cases known : canWrite s.log with
    | none => exact .inr rfl
    | some code =>
        left
        dsimp only [atSite, Except.bind]
        by_cases open_ : code = 0
        · subst open_
          obtain ⟨front, shape⟩ := writable s.log sound.formed known
          have checked := sound.checked
          simp only [assertCheck, Bool.and_eq_true, decide_eq_true_eq] at checked
          obtain ⟨first, second⟩ := writable_header front s.log sound.formed shape s.header checked.1.1.1 checked.1.1.2
          rw [if_neg (by simp), assertAt, if_pos first]
          by_cases version : req.prevVersion.any (· ≠ s.header.version) = true
          · exact ⟨_, by decide, if_pos version⟩
          · rw [if_neg version, packRawValue, asserting_pos _ _ second]
            have same : req.prevVersion.all (· = s.header.version) = true := by
              cases want : req.prevVersion with
              | none => rfl
              | some number => simpa [want] using version
            have nothing : codec.serializeToString ⟨u64 (s.header.version + 1), 0, req.value, req.timestamp⟩ = none := by
              simpa [proposesTo, read, known, same] using stays
            rw [nothing]
            exact ⟨serializeDbDataErr, by decide, rfl⟩
        · exact ⟨code, open_, if_pos open_⟩
  · exact .inl ⟨req.readCode, read, if_pos read⟩

-- A Set that reaches the wrapper is what the wrapper makes of it.
theorem late_end (reaches : proposesTo codec req s = true) :
    ∃ rawValue front, Writable front s.log ∧ setNoLockNoWrite codec selfId memberId req s =
      (atSite .wrapper (PLogWrapper.set req.learnerOnly selfId memberId ⟨req.reqid, rawValue⟩ true s.log)).bind (proposed codec s) := by
  simp only [proposesTo, Bool.and_eq_true, decide_eq_true_eq] at reaches
  obtain ⟨⟨⟨read, known⟩, version⟩, packed⟩ := reaches
  obtain ⟨rawValue, serialized⟩ := Option.isSome_iff_exists.mp packed
  obtain ⟨front, shape⟩ := writable s.log sound.formed known
  have checked := sound.checked
  simp only [assertCheck, Bool.and_eq_true, decide_eq_true_eq] at checked
  obtain ⟨first, second⟩ := writable_header front s.log sound.formed shape s.header checked.1.1.1 checked.1.1.2
  have agrees : req.prevVersion.any (· ≠ s.header.version) ≠ true := by
    cases want : req.prevVersion with
    | none => simp
    | some number => simpa [want] using version
  have filled : rawValue ≠ [] := by
    rintro rfl
    exact codec.nonempty _ serialized
  refine ⟨rawValue, front, shape, ?_⟩
  rw [setNoLockNoWrite, if_neg (by simp [read]), assertAt, if_pos sound.checked, known]
  dsimp only [atSite, Except.bind]
  rw [if_neg (by simp), assertAt, if_pos first, if_neg agrees, packRawValue, asserting_pos _ _ second, serialized]
  dsimp only
  rw [asserting_pos _ _ filled]
  dsimp only
  rw [asserting_pos _ _ (wrapper_ok s.log sound.formed)]

end Sound

end DBImpl

end PaxosStore.PaxosKv
