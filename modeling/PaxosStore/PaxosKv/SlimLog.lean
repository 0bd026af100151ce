import PaxosStore.PaxosKv.PLogWrapper
import PaxosStore.PaxosKv.InstanceGrowth

set_option autoImplicit false

namespace PaxosStore.PaxosKv

-- A log as it is stored: at most two instances, the later one pending.
structure LogFormed (log : PaxosLog) : Prop where
  slim : isSlim log = true
  entries : ∀ index pins, (index, pins) ∈ log → 0 < index ∧ index < 2 ^ 64 ∧ Formed pins

theorem formed_nil : LogFormed [] := ⟨rfl, fun _ _ wrong => by cases wrong⟩

theorem keeps_both (prev ins : Nat × PaxosInstance) (keeps : keepsBoth prev ins = true) :
    ins.2.chosen = false ∧ u64 (prev.1 + 1) = ins.1 ∧ prev.2.acceptedValue.isSome = true := by
  simp only [keepsBoth, Bool.and_eq_true, Bool.not_eq_true', decide_eq_true_eq] at keeps
  exact ⟨keeps.1.1.1, keeps.1.1.2, keeps.1.2⟩

theorem slim_shape (log : PaxosLog) (slim : isSlim log = true) :
    log = [] ∨ (∃ ins, log = [ins]) ∨ ∃ prev ins, log = [prev, ins] ∧ keepsBoth prev ins = true := by
  match log, slim with
  | [], _ => exact .inl rfl
  | [ins], _ => exact .inr (.inl ⟨ins, rfl⟩)
  | [prev, ins], keeps => exact .inr (.inr ⟨prev, ins, rfl, keeps⟩)

theorem consecutive (prev ins : Nat × PaxosInstance) (formed : LogFormed [prev, ins]) : prev.1 + 1 = ins.1 := by
  have next := (keeps_both prev ins formed.slim).2.1
  have first := formed.entries prev.1 prev.2 (by simp)
  have second := formed.entries ins.1 ins.2 (by simp)
  rw [u64] at next
  omega

theorem entry_unique (log : PaxosLog) (formed : LogFormed log) (index : Nat) (left right : PaxosInstance) (here : (index, left) ∈ log)
    (there : (index, right) ∈ log) : left = right := by
  rcases slim_shape log formed.slim with rfl | ⟨ins, rfl⟩ | ⟨prev, ins, rfl, _⟩
  · cases here
  · simp only [List.mem_singleton] at here there
    rw [← there] at here
    exact (Prod.mk.inj here).2
  · have step := consecutive prev ins formed
    simp only [List.mem_cons, List.not_mem_nil, or_false] at here there
    rcases here with rfl | rfl
    · rcases there with same | rfl
      · exact (Prod.mk.inj same).2.symm
      · simp at step
    · rcases there with rfl | same
      · simp at step
      · exact (Prod.mk.inj same).2.symm

theorem index_bounds (log : PaxosLog) (formed : LogFormed log) (index : Nat) (pins : PaxosInstance) (here : (index, pins) ∈ log) :
    index ≤ getMaxIndex log ∧ (index = getMinIndex log ∨ index = getMaxIndex log) := by
  rcases slim_shape log formed.slim with rfl | ⟨ins, rfl⟩ | ⟨prev, ins, rfl, _⟩
  · cases here
  · simp only [List.mem_singleton] at here
    subst here
    exact ⟨Nat.le_refl _, .inl rfl⟩
  · have step := consecutive prev ins formed
    simp only [List.mem_cons, List.not_mem_nil, or_false] at here
    rcases here with rfl | rfl
    · refine ⟨?_, .inl rfl⟩
      simp only [getMaxIndex, List.getLast?_cons_cons, List.getLast?_singleton, Option.map_some, Option.getD_some]
      exact step ▸ Nat.le_succ _
    · exact ⟨Nat.le_refl _, .inr rfl⟩

theorem min_le_max (log : PaxosLog) (formed : LogFormed log) : getMinIndex log ≤ getMaxIndex log := by
  cases log with
  | nil => exact Nat.le_refl _
  | cons first rest => exact (index_bounds (first :: rest) formed first.1 first.2 (by simp)).1

theorem index_present (log : PaxosLog) (index : Nat) (positive : 0 < index) (edge : index = getMinIndex log ∨ index = getMaxIndex log) :
    ∃ pins, (index, pins) ∈ log := by
  rcases edge with rfl | rfl
  · cases log with
    | nil => simp [getMinIndex] at positive
    | cons first rest => exact ⟨first.2, by simp [getMinIndex]⟩
  · cases last : log.getLast? with
    | none => simp [getMaxIndex, last] at positive
    | some entry =>
        refine ⟨entry.2, ?_⟩
        have member := List.mem_of_getLast? last
        simpa [getMaxIndex, last] using member

theorem find_member (log : PaxosLog) (index : Nat) (pins : PaxosInstance) (found : findIns log index = some pins) : (index, pins) ∈ log := by
  obtain ⟨entry, here, rfl⟩ := Option.map_eq_some_iff.mp found
  have same : entry.1 = index := by simpa using List.find?_some here
  have member := List.mem_of_find?_eq_some here
  rw [← same]
  exact member

theorem find_present (log : PaxosLog) (index : Nat) (pins : PaxosInstance) (here : (index, pins) ∈ log) :
    ∃ found, findIns log index = some found := by
  cases absent : log.find? (·.1 = index) with
  | none =>
      have other := List.find?_eq_none.mp absent (index, pins) here
      simp at other
  | some entry => exact ⟨entry.2, by rw [findIns, absent]; rfl⟩

theorem find_iff (log : PaxosLog) (formed : LogFormed log) (index : Nat) (pins : PaxosInstance) :
    findIns log index = some pins ↔ (index, pins) ∈ log := by
  refine ⟨find_member log index pins, fun here => ?_⟩
  obtain ⟨found, known⟩ := find_present log index pins here
  rw [known, entry_unique log formed index found pins (find_member log index found known) here]

theorem max_append (log : PaxosLog) (index : Nat) (pins : PaxosInstance) : getMaxIndex (log ++ [(index, pins)]) = index := by
  simp [getMaxIndex]

theorem set_max (log : PaxosLog) (index : Nat) (pins : PaxosInstance) : getMaxIndex (setIns log index pins) = getMaxIndex log := by
  simp only [getMaxIndex, setIns, List.getLast?_map, Option.map_map]
  cases log.getLast? with
  | none => rfl
  | some entry =>
      simp only [Option.map_some, Option.getD_some, Function.comp_apply]
      split
      · rename_i same
        exact same.symm
      · rfl

theorem set_member (log : PaxosLog) (index key : Nat) (pins held : PaxosInstance) (here : (key, held) ∈ setIns log index pins) :
    key ≠ index ∧ (key, held) ∈ log ∨ key = index ∧ held = pins ∧ ∃ old, (index, old) ∈ log := by
  obtain ⟨entry, member, same⟩ := List.mem_map.mp here
  split at same
  · rename_i equal
    obtain ⟨rfl, rfl⟩ := Prod.mk.inj same
    exact .inr ⟨rfl, rfl, entry.2, equal ▸ member⟩
  · rename_i other
    cases same
    exact .inl ⟨other, member⟩

theorem shrink_run (log : PaxosLog) : ∃ cut kept, shrinkPlog log = some (cut, kept) ∧ isSlim kept = true ∧
    (∀ entry, entry ∈ kept → entry ∈ log) ∧ getMaxIndex kept = getMaxIndex log := by
  unfold shrinkPlog
  by_cases slim : isSlim log = true
  · exact ⟨false, log, by rw [if_pos slim], slim, fun _ member => member, rfl⟩
  · rw [if_neg slim]
    match shape : log.reverse with
    | [] =>
        have empty : log = [] := by simpa using shape
        exact absurd (empty ▸ rfl) slim
    | [ins] =>
        have single : log = [ins] := by simpa using congrArg List.reverse shape
        exact absurd (single ▸ rfl) slim
    | ins :: prev :: rest =>
        have whole : log = rest.reverse ++ [prev, ins] := by simpa using congrArg List.reverse shape
        have last : getMaxIndex log = ins.1 := by simp [getMaxIndex, whole]
        dsimp only
        split
        · rename_i keeps
          refine ⟨true, [prev, ins], asserting_pos _ _ keeps, keeps, fun entry member => ?_, last ▸ rfl⟩
          rw [whole]
          exact List.mem_append_right _ member
        · refine ⟨true, [ins], asserting_pos _ _ rfl, rfl, fun entry member => ?_, last ▸ rfl⟩
          rw [whole, List.mem_singleton.mp member]
          simp

-- What an operation leaves of a log: later instances, or new ones above all old ones.
structure LogNext (log next : PaxosLog) : Prop where
  formed : LogFormed next
  max : getMaxIndex log ≤ getMaxIndex next
  entries : ∀ index pins, (index, pins) ∈ next → (∃ old, (index, old) ∈ log ∧ Later old pins) ∨ getMaxIndex log < index

theorem next_refl (log : PaxosLog) (formed : LogFormed log) : LogNext log log :=
  ⟨formed, Nat.le_refl _, fun _ pins here => .inl ⟨pins, here, later_refl pins⟩⟩

theorem next_trans (first second third : PaxosLog) (left : LogNext first second) (right : LogNext second third) : LogNext first third where
  formed := right.formed
  max := Nat.le_trans left.max right.max
  entries := by
    intro index pins here
    rcases right.entries index pins here with ⟨middle, there, later⟩ | above
    · rcases left.entries index middle there with ⟨old, known, before⟩ | high
      · exact .inl ⟨old, known, later_trans old middle pins before later⟩
      · exact .inr high
    · exact .inr (Nat.lt_of_le_of_lt left.max above)

def isAnswer (type : MessageType) : Bool := type = .propRsp ∨ type = .accptRsp ∨ type = .fastAccptRsp

-- What an operation returns: its log, and answers only about instances it has.
structure OutNext (log : PaxosLog) (out : StepOut) : Prop where
  moved : out.code = 0 → LogNext log out.log
  answered : ∀ rsp, out.rsp = some rsp → isAnswer rsp.msg.type = true → (∃ pins, (rsp.index, pins) ∈ log) ∨ getMaxIndex log < rsp.index

theorem out_silent (log : PaxosLog) (formed : LogFormed log) (code : Int) (alive : Option PInsAliveState) (write : Bool) :
    OutNext log ⟨code, none, log, alive, write⟩ :=
  ⟨fun _ => next_refl log formed, fun _ wrong => by cases wrong⟩

theorem out_trans (first second : PaxosLog) (out : StepOut) (left : LogNext first second) (right : OutNext second out) : OutNext first out where
  moved := fun fine => next_trans first second out.log left (right.moved fine)
  answered := by
    intro rsp sent kind
    rcases right.answered rsp sent kind with ⟨pins, here⟩ | above
    · rcases left.entries _ pins here with ⟨old, known, _⟩ | high
      · exact .inl ⟨old, known⟩
      · exact .inr high
    · exact .inr (Nat.lt_of_le_of_lt left.max above)

theorem chosen_reply (selfId : Fin 3) (msg rsp : Message) (pins : PaxosInstance) (done : stepChosen selfId msg pins = some (some rsp)) :
    rsp.type = .chosen := by
  obtain ⟨_, rest⟩ := (asserting_some _ _ _).mp done
  cases kind : msg.type <;> rw [kind] at rest <;> dsimp only at rest
  case chosen =>
    obtain ⟨_, wrong⟩ := (asserting_some _ _ _).mp rest
    cases wrong
  all_goals first
    | cases rest
      rfl
    | cases rest

-- The new instance in front of a pending one has no value, so it is never kept.
theorem reinsert_fails (index : Nat) (last : Nat × PaxosInstance) : isSlim [(index, {}), last] = false := by
  simp [isSlim, keepsBoth]

-- The question for the chosen instance leaves the log alone.
theorem asked_quiet (selfId : Fin 3) (m : LogMessage) (alive : Option PInsAliveState) (log : PaxosLog) (out : StepOut)
    (done : (match getChosenIns log with
      | none => some (silentOut log alive)
      | some (index, pins) =>
          asserting (m.index < index) <|
            (stepChosen selfId { m.msg with type := .getChosen } pins).bind fun rsp =>
              rsp.map fun rsp => ⟨0, some ⟨index, { rsp with toId := some m.msg.fromId }⟩, log, alive, false⟩) = some out) :
    out.log = log ∧ (∀ rsp, out.rsp = some rsp → rsp.msg.type = .chosen) ∧ out.alive = alive ∧ out.write = false := by
  split at done
  · cases done
    exact ⟨rfl, fun _ wrong => (by cases wrong), rfl, rfl⟩
  · obtain ⟨_, done⟩ := (asserting_some _ _ _).mp done
    obtain ⟨reply, answered, mapped⟩ := Option.bind_eq_some_iff.mp done
    obtain ⟨rsp, rfl, same⟩ := Option.map_eq_some_iff.mp mapped
    cases same
    refine ⟨rfl, fun sent known => ?_, rfl, rfl⟩
    cases known
    exact chosen_reply selfId _ rsp _ answered

-- Below the log nothing changes; at most the last chosen value is sent.
theorem invalid_quiet (selfId : Fin 3) (m : LogMessage) (alive : Option PInsAliveState) (log : PaxosLog) (out : StepOut)
    (done : stepInvalidIndex selfId m alive log = some out) :
    out.log = log ∧ (∀ rsp, out.rsp = some rsp → rsp.msg.type = .chosen) ∧ out.alive = alive ∧ out.write = false := by
  obtain ⟨_, rest⟩ := (asserting_some _ _ _).mp done
  split at rest
  · cases rest
    exact ⟨rfl, fun _ wrong => (by cases wrong), rfl, rfl⟩
  · obtain ⟨_, rest⟩ := (asserting_some _ _ _).mp rest
    cases kind : m.msg.type <;> rw [kind] at rest <;> dsimp only at rest
    case getChosen => exact asked_quiet selfId m alive log out rest
    case prop => exact asked_quiet selfId m alive log out rest
    case accpt => exact asked_quiet selfId m alive log out rest
    case fastAccpt => exact asked_quiet selfId m alive log out rest
    case chosen =>
      split at rest
      · cases rest
        exact ⟨rfl, fun _ wrong => (by cases wrong), rfl, rfl⟩
      · obtain ⟨_, rest⟩ := (asserting_some _ _ _).mp rest
        obtain ⟨wrong, _⟩ := (asserting_some _ _ _).mp rest
        rw [reinsert_fails] at wrong
        cases wrong
    all_goals
      cases rest
      exact ⟨rfl, fun _ wrong => (by cases wrong), rfl, rfl⟩

theorem invalid_next (selfId : Fin 3) (m : LogMessage) (alive : Option PInsAliveState) (log : PaxosLog) (out : StepOut) (formed : LogFormed log)
    (done : stepInvalidIndex selfId m alive log = some out) : OutNext log out := by
  obtain ⟨same, chosen, _⟩ := invalid_quiet selfId m alive log out done
  refine ⟨fun _ => by rw [same]; exact next_refl log formed, fun rsp sent kind => ?_⟩
  simp [isAnswer, chosen rsp sent] at kind

-- The log in which an instance takes its step.
structure Grown (log grown : PaxosLog) (index : Nat) (fresh : Bool) : Prop where
  max : getMaxIndex log ≤ getMaxIndex grown
  entries : ∀ key pins, (key, pins) ∈ grown → (key, pins) ∈ log ∨ key = index ∧ pins = {} ∧ fresh = true
  above : fresh = true → getMaxIndex log < index
  same : fresh = false → grown = log

theorem instance_grown (log grown : PaxosLog) (index : Nat) (fresh : Bool) (done : getInstance log index = some (some (grown, fresh))) :
    Grown log grown index fresh ∧ 0 < index := by
  obtain ⟨⟨positive, _⟩, rest⟩ := (asserting_some _ _ _).mp done
  split at rest
  · rename_i inner
    split at rest
    · cases rest
    · rename_i above
      cases rest
      have high : getMaxIndex log < index := by omega
      refine ⟨⟨by rw [max_append]; omega, fun key pins here => ?_, fun _ => high, fun wrong => by cases wrong⟩, positive⟩
      rcases List.mem_append.mp here with old | new
      · exact .inl old
      · obtain ⟨rfl, rfl⟩ := Prod.mk.inj (List.mem_singleton.mp new)
        exact .inr ⟨rfl, rfl, rfl⟩
  · cases rest
    exact ⟨⟨Nat.le_refl _, fun _ _ here => .inl here, fun wrong => (by cases wrong), fun _ => rfl⟩, positive⟩

theorem instance_next (learnerOnly : Bool) (selfId : Fin 3) (m : LogMessage) (alive : Option PInsAliveState) (log grown : PaxosLog)
    (fresh : Bool) (out : StepOut) (formed : LogFormed log) (small : m.index < 2 ^ 64) (positive : 0 < m.index)
    (grows : Grown log grown m.index fresh) (done : stepInstance learnerOnly selfId m alive grown fresh = some out) : OutNext log out := by
  unfold stepInstance at done
  split at done
  · cases done
  · rename_i pins found
    have here := find_member grown m.index pins found
    have known : (∃ old, (m.index, old) ∈ log ∧ old = pins) ∨ getMaxIndex log < m.index ∧ pins = {} := by
      rcases grows.entries m.index pins here with there | ⟨_, empty, isFresh⟩
      · exact .inl ⟨pins, there, rfl⟩
      · exact .inr ⟨grows.above isFresh, empty⟩
    have pinsFormed : Formed pins := by
      rcases known with ⟨old, there, rfl⟩ | ⟨_, rfl⟩
      · exact (formed.entries m.index old there).2.2
      · exact formed_empty
    split at done
    · cases done
      exact ⟨fun wrong => by simp at wrong, fun _ wrong => by cases wrong⟩
    · obtain ⟨⟨write, rsp, state, stored⟩, stepped, rest⟩ := Option.bind_eq_some_iff.mp done
      obtain ⟨⟨cut, kept⟩, shrunk, same⟩ := Option.map_eq_some_iff.mp rest
      cases same
      have moved := wrapper_moves learnerOnly selfId m.msg _ state pins stored write rsp pinsFormed stepped
      obtain ⟨cut', kept', shrunk', slim, included, last⟩ := shrink_run (setIns grown m.index stored)
      rw [shrunk] at shrunk'
      cases shrunk'
      have origin (key : Nat) (held : PaxosInstance) (member : (key, held) ∈ kept) :
          (key, held) ∈ log ∨ key = m.index ∧ held = stored := by
        rcases set_member grown m.index key stored held (included _ member) with ⟨other, there⟩ | ⟨equal, value, _⟩
        · rcases grows.entries key held there with old | ⟨wrong, _⟩
          · exact .inl old
          · exact absurd wrong other
        · exact .inr ⟨equal, value⟩
      refine ⟨fun _ => ⟨⟨slim, fun key held member => ?_⟩, ?_, fun key held member => ?_⟩, fun reply sent _ => ?_⟩
      · rcases origin key held member with there | ⟨rfl, rfl⟩
        · exact formed.entries key held there
        · exact ⟨positive, small, moved.formed⟩
      · dsimp only
        rw [last, set_max]
        exact grows.max
      · rcases origin key held member with there | ⟨rfl, rfl⟩
        · exact .inl ⟨held, there, later_refl held⟩
        · rcases known with ⟨old, there, rfl⟩ | ⟨above, _⟩
          · exact .inl ⟨old, there, moved.later⟩
          · exact .inr above
      · obtain ⟨answer, _, rfl⟩ := Option.map_eq_some_iff.mp sent
        rcases known with ⟨old, there, _⟩ | ⟨above, _⟩
        · exact .inl ⟨old, there⟩
        · exact .inr above

namespace PLogWrapper

theorem step_next (learnerOnly : Bool) (selfId : Fin 3) (m : LogMessage) (alive : Option PInsAliveState) (log : PaxosLog) (out : StepOut)
    (formed : LogFormed log) (small : m.index < 2 ^ 64) (done : step learnerOnly selfId m alive log = some out) : OutNext log out := by
  unfold step at done
  split at done
  · split at done
    · exact invalid_next selfId m alive log out formed done
    · cases done
      exact out_silent log formed _ _ _
  · obtain ⟨found, known, rest⟩ := Option.bind_eq_some_iff.mp done
    cases found with
    | none => exact invalid_next selfId m alive log out formed rest
    | some pair =>
        obtain ⟨grown, fresh⟩ := pair
        obtain ⟨grows, positive⟩ := instance_grown log grown m.index fresh known
        exact instance_next learnerOnly selfId m alive log grown fresh out formed small positive grows rest

-- A new pending instance after a chosen one.
theorem append_next (log : PaxosLog) (index : Nat) (formed : LogFormed log) (settled : (getMaxIns log).any (!·.2.chosen) = false)
    (number : index = match getMaxIns log with
      | none => 1
      | some (index, _) => u64 (index + 1))
    (positive : 0 < index) : LogNext log (log ++ [(index, ({} : PaxosInstance))]) ∧ index < 2 ^ 64 := by
  rcases slim_shape log formed.slim with rfl | ⟨⟨last, ins⟩, rfl⟩ | ⟨prev, ins, rfl, keeps⟩
  · have first : index = 1 := number
    subst first
    refine ⟨⟨⟨rfl, fun key pins here => ?_⟩, Nat.zero_le _, fun key pins here => .inr ?_⟩, by omega⟩
    · simp only [List.nil_append, List.mem_singleton] at here
      cases here
      exact ⟨Nat.one_pos, by omega, formed_empty⟩
    · simp only [List.nil_append, List.mem_singleton] at here
      cases here
      exact Nat.one_pos
  · have marked : ins.chosen = true := by simpa [getMaxIns] using settled
    have old := formed.entries last ins (by simp)
    have next : index = u64 (last + 1) := number
    have plain : index = last + 1 := by
      rw [u64] at next
      omega
    have valued : ins.acceptedValue.isSome = true := by
      rw [← old.2.2.valued]
      exact old.2.2.chosen marked
    have top : getMaxIndex [(last, ins)] = last := rfl
    refine ⟨⟨⟨?_, fun key pins here => ?_⟩, ?_, fun key pins here => ?_⟩, ?_⟩
    · simp [isSlim, keepsBoth, next, marked, valued]
    · simp only [List.cons_append, List.nil_append, List.mem_cons, List.not_mem_nil, or_false] at here
      rcases here with same | same
      · cases same
        exact old
      · cases same
        rw [u64] at next
        exact ⟨positive, by omega, formed_empty⟩
    · rw [max_append, top]
      omega
    · simp only [List.cons_append, List.nil_append, List.mem_cons, List.not_mem_nil, or_false] at here
      rcases here with same | same
      · cases same
        exact .inl ⟨ins, by simp, later_refl ins⟩
      · cases same
        right
        rw [top]
        omega
    · rw [u64] at next
      omega
  · have pending := (keeps_both prev ins keeps).1
    simp [getMaxIns, pending] at settled

-- A failed operation keeps its reply and its state back.
theorem withdrawn_next (log : PaxosLog) (out result : StepOut) (next : OutNext log out)
    (done : (if out.code ≠ 0 then some { out with rsp := none, alive := none } else asserting (out.rsp.isSome = true) (some out)) = some result) :
    OutNext log result := by
  split at done
  · rename_i wrong
    cases done
    exact ⟨fun fine => absurd fine wrong, fun _ wrong => by cases wrong⟩
  · obtain ⟨_, same⟩ := (asserting_some _ _ _).mp done
    cases same
    exact next

theorem normal_set_next (learnerOnly : Bool) (selfId : Fin 3) (memberId : Nat) (entry : Entry) (doFastAccpt : Bool) (log : PaxosLog)
    (out : StepOut) (formed : LogFormed log) (done : normalSet learnerOnly selfId memberId entry doFastAccpt log = some out) :
    OutNext log out := by
  obtain ⟨_, rest⟩ := (asserting_some _ _ _).mp done
  split at rest
  · cases rest
    exact out_silent log formed _ _ _
  · rename_i settled
    obtain ⟨positive, rest⟩ := (asserting_some _ _ _).mp rest
    obtain ⟨stepped, ran, rest⟩ := Option.bind_eq_some_iff.mp rest
    obtain ⟨added, small⟩ := append_next log _ formed (by simpa using settled) rfl positive
    have next := step_next learnerOnly selfId _ _ _ stepped added.formed small ran
    exact withdrawn_next log stepped out (out_trans log _ stepped added next) rest

theorem preempt_set_next (learnerOnly : Bool) (selfId : Fin 3) (entry : Entry) (log : PaxosLog) (out : StepOut) (formed : LogFormed log)
    (done : preemptSet learnerOnly selfId entry log = some out) : OutNext log out := by
  obtain ⟨_, rest⟩ := (asserting_some _ _ _).mp done
  split at rest
  · cases rest
    exact out_silent log formed _ _ _
  · rename_i index ins last
    split at rest
    · cases rest
      exact out_silent log formed _ _ _
    · obtain ⟨_, rest⟩ := (asserting_some _ _ _).mp rest
      obtain ⟨gen, _, rest⟩ := Option.bind_eq_some_iff.mp rest
      obtain ⟨stepped, ran, rest⟩ := Option.bind_eq_some_iff.mp rest
      have small := (formed.entries index ins (List.mem_of_getLast? last)).2.1
      exact withdrawn_next log stepped out (step_next learnerOnly selfId _ _ log stepped formed small ran) rest

theorem try_redo_next (learnerOnly : Bool) (selfId : Fin 3) (aliveIndex : Nat) (alive : PInsAliveState) (log : PaxosLog) (out : StepOut)
    (formed : LogFormed log) (done : tryRedoProp learnerOnly selfId aliveIndex alive log = some out) : OutNext log out := by
  obtain ⟨_, rest⟩ := (asserting_some _ _ _).mp done
  split at rest
  · cases rest
    exact out_silent log formed _ _ _
  · rename_i index ins last
    have small := (formed.entries index ins (List.mem_of_getLast? last)).2.1
    split at rest
    · cases rest
      exact out_silent log formed _ _ _
    · obtain ⟨_, rest⟩ := (asserting_some _ _ _).mp rest
      obtain ⟨gen, _, rest⟩ := Option.bind_eq_some_iff.mp rest
      dsimp only at rest
      split at rest
      · exact step_next learnerOnly selfId _ _ log out formed small rest
      · split at rest
        · split at rest
          · cases rest
            exact out_silent log formed _ _ _
          · exact step_next learnerOnly selfId _ _ log out formed small rest
        · cases rest

end PLogWrapper

end PaxosStore.PaxosKv
