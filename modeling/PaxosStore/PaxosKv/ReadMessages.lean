import PaxosStore.PaxosKv.DbRuns

set_option autoImplicit false

namespace PaxosStore.PaxosKv

open PaxosStore.Consensus

def isReadType (type : MessageType) : Bool := type = .getChosen ∨ type = .noop

theorem set_same (log : PaxosLog) (formed : LogFormed log) (index : Nat) (pins : PaxosInstance) (here : (index, pins) ∈ log) :
    setIns log index pins = log := by
  rw [setIns, List.map_congr_left (g := id), List.map_id]
  intro entry member
  by_cases same : entry.1 = index
  · rw [if_pos same]
    have equal := entry_unique log formed index pins entry.2 here (by rw [← same]; exact member)
    rw [equal, ← same]
    rfl
  · rw [if_neg same]
    rfl

-- An instance answers with what it has.
theorem read_instance (selfId : Fin 3) (msg : Message) (alive : Option PInsAliveState) (pins : PaxosInstance) (formed : Formed pins)
    (kind : isReadType msg.type = true) :
    ∃ rsp, wrapperStep false selfId msg alive pins = some (false, rsp, alive, pins) := by
  by_cases marked : pins.chosen = true
  · rw [wrapperStep, if_pos marked, stepChosen, asserting_pos _ _ (chosen_complete pins formed marked)]
    rcases of_decide_eq_true kind with type | type
    all_goals
      rw [type]
      exact ⟨_, rfl⟩
  · rw [wrapperStep, if_neg marked, stepNotChosen, if_neg (by simp), stepByType]
    rcases of_decide_eq_true kind with type | type
    all_goals
      rw [type]
      exact ⟨none, rfl⟩

-- What a step leaves alone: the log, unless it has an error code, and the storage.
structure Unmoved (log : PaxosLog) (out : StepOut) : Prop where
  log : out.code = 0 → out.log = log
  write : out.write = false

theorem quiet_instance (learnerOnly : Bool) (selfId : Fin 3) (m : LogMessage) (alive : Option PInsAliveState) (log : PaxosLog)
    (pins : PaxosInstance) (formed : LogFormed log) (kind : isReadType m.msg.type = true) (found : findIns log m.index = some pins) :
    ∃ out, stepInstance learnerOnly selfId m alive log false = some out ∧ Unmoved log out := by
  have here := find_member log m.index pins found
  have other : m.msg.type ≠ .chosen := by
    intro wrong
    rw [wrong] at kind
    cases kind
  rw [stepInstance, found]
  dsimp only
  by_cases learner : learnerOnly = true ∧ pins.chosen = false ∧ m.msg.type ≠ .chosen
  · rw [if_pos learner]
    exact ⟨_, rfl, fun _ => rfl, rfl⟩
  · have same : wrapperStep learnerOnly selfId m.msg alive pins = wrapperStep false selfId m.msg alive pins := by
      cases learnerOnly with
      | false => rfl
      | true =>
          have marked : pins.chosen = true := by simpa [other] using learner
          rw [wrapperStep, if_pos marked, wrapperStep, if_pos marked]
    obtain ⟨rsp, answered⟩ := read_instance selfId m.msg alive pins (formed.entries m.index pins here).2.2 kind
    rw [if_neg learner, if_neg (by simp), same, answered, Option.bind_some]
    dsimp only
    rw [set_same log formed m.index pins here, shrinkPlog, if_pos formed.slim]
    exact ⟨_, rfl, fun _ => rfl, by simp⟩

theorem quiet_invalid (selfId : Fin 3) (m : LogMessage) (alive : Option PInsAliveState) (log : PaxosLog) (formed : LogFormed log)
    (kind : isReadType m.msg.type = true) (absent : findIns log m.index = none) (below : m.index < getMaxIndex log) :
    ∃ out, stepInvalidIndex selfId m alive log = some out ∧ Unmoved log out := by
  have other : ¬ reinserts m log := by
    intro wrong
    rw [wrong.1] at kind
    cases kind
  obtain ⟨out, done, _⟩ := (invalid_well selfId m alive log formed absent below).mpr other
  obtain ⟨same, _, _, unwritten⟩ := invalid_quiet selfId m alive log out done
  exact ⟨out, done, fun _ => same, unwritten⟩

-- A new instance is appended, and either stays unseen by the header or drops
-- instances of the log.
theorem loud_instance (selfId : Fin 3) (m : LogMessage) (alive : Option PInsAliveState) (log : PaxosLog)
    (kind : isReadType m.msg.type = true) (absent : findIns log m.index = none) (out : StepOut)
    (done : stepInstance false selfId m alive (log ++ [(m.index, ({} : PaxosInstance))]) true = some out) :
    out.code = 0 ∧ (out.write = false → getMaxIndex out.log = m.index) := by
  have there : findIns (log ++ [(m.index, ({} : PaxosInstance))]) m.index = some {} := by
    have gone : log.find? (·.1 = m.index) = none := by simpa [findIns] using absent
    simp [findIns, List.find?_append, gone]
  obtain ⟨rsp, answered⟩ := read_instance selfId m.msg none {} formed_empty kind
  rw [stepInstance, there] at done
  dsimp only at done
  rw [if_neg (by simp), if_pos rfl, answered, Option.bind_some] at done
  obtain ⟨⟨cut, kept⟩, shrunk, same⟩ := Option.map_eq_some_iff.mp done
  obtain ⟨cut', kept', shrunk', _, _, max⟩ := shrink_run (setIns (log ++ [(m.index, ({} : PaxosInstance))]) m.index {})
  rw [shrunk] at shrunk'
  cases shrunk'
  cases same
  refine ⟨rfl, fun _ => ?_⟩
  dsimp only
  rw [max, set_max, max_append]

namespace DBImpl

variable (codec : DataCodec) (key : List UInt8) (m : LogMessage) (learnerOnly : Bool) (readCode writeCode : Int) (s : KeyState)

-- The message goes through, the stored log and header stay, and no write was asked for.
structure ReadsOnly (receiver : Fin 3) : Prop where
  returns : ∃ code after rsp alive, postPaxosMsg codec key m learnerOnly readCode writeCode s = .returned code after rsp alive ∧
    after.header = s.header ∧ after.log = s.log
  unwritten : readCode = 0 → ∀ out,
    PLogWrapper.step learnerOnly receiver m ((PInsAliveStateTimeoutCache.moreGet m.index s.cache).2.map (·.state)) s.log = some out →
      out.write = false

-- The index does not go beyond the log, or the server does not vote.
def withinLog : Prop := readCode ≠ 0 ∨ m.index ≤ getMaxIndex s.log ∨ learnerOnly = true

section Steps

variable {codec key m learnerOnly readCode writeCode s}
variable (sound : Sound codec key s) (self : Fin 3) (target : m.msg.toId = some self) (positive : 0 < m.index)
  (kind : isReadType m.msg.type = true) (alive : Option PInsAliveState)

include sound target positive

theorem aimed_step : PLogWrapper.step learnerOnly self m alive s.log =
    (if (findIns s.log m.index).isSome then stepInstance learnerOnly self m alive s.log false
     else if getMaxIndex s.log < m.index then stepInstance learnerOnly self m alive (s.log ++ [(m.index, ({} : PaxosInstance))]) true
     else stepInvalidIndex self m alive s.log) := by
  rw [PLogWrapper.step, if_neg (by simp [target]; omega), get_instance_spec s.log sound.formed m.index positive, Option.bind_some]
  by_cases there : (findIns s.log m.index).isSome = true
  · rw [if_pos there, if_pos there]
  · rw [if_neg there, if_neg there]
    by_cases above : getMaxIndex s.log < m.index
    · rw [if_pos above, if_pos above]
    · rw [if_neg above, if_neg above]

include kind

theorem within_unmoved (within : m.index ≤ getMaxIndex s.log ∨ learnerOnly = true) :
    ∃ out, PLogWrapper.step learnerOnly self m alive s.log = some out ∧ Unmoved s.log out := by
  rw [aimed_step sound self target positive alive]
  cases found : findIns s.log m.index with
  | some pins =>
      rw [if_pos (by simp)]
      exact quiet_instance learnerOnly self m alive s.log pins sound.formed kind found
  | none =>
      rw [if_neg (by simp)]
      by_cases above : getMaxIndex s.log < m.index
      · rw [if_pos above]
        have learner : learnerOnly = true := by
          rcases within with low | learner
          · omega
          · exact learner
        have there : findIns (s.log ++ [(m.index, ({} : PaxosInstance))]) m.index = some {} := by
          have gone : s.log.find? (·.1 = m.index) = none := by simpa [findIns] using found
          simp [findIns, List.find?_append, gone]
        have other : m.msg.type ≠ .chosen := by
          intro wrong
          rw [wrong] at kind
          cases kind
        rw [stepInstance, there]
        dsimp only
        rw [if_pos ⟨learner, rfl, other⟩]
        exact ⟨_, rfl, fun wrong => by simp at wrong, rfl⟩
      · rw [if_neg above]
        have low : m.index < getMaxIndex s.log := by
          rcases Nat.lt_or_ge m.index (getMaxIndex s.log) with low | high
          · exact low
          · obtain ⟨pins, here⟩ := index_present s.log m.index positive (.inr (by omega))
            obtain ⟨other, wrong⟩ := find_present s.log m.index pins here
            rw [found] at wrong
            cases wrong
        exact quiet_invalid self m alive s.log sound.formed kind found low

theorem beyond_moves (above : getMaxIndex s.log < m.index) (out : StepOut)
    (done : PLogWrapper.step false self m alive s.log = some out) : out.code = 0 ∧ (out.write = false → getMaxIndex out.log = m.index) := by
  have absent : findIns s.log m.index = none := by
    cases found : findIns s.log m.index with
    | none => rfl
    | some pins =>
        have low := (index_bounds s.log sound.formed m.index pins (find_member s.log m.index pins found)).1
        omega
  rw [aimed_step sound self target positive alive, absent, if_neg (by simp), if_pos above] at done
  exact loud_instance self m alive s.log kind absent out done

end Steps

-- A step that leaves the log alone is followed by nothing but the clean-up of the cache.
theorem unmoved_returns (sound : Sound codec key s) (index conflictIndex : Nat) (alive : Option CachedState) (out : StepOut)
    (given : ∀ held, alive = some held → s.cache = some held) (unmoved : Unmoved s.log out) :
    ∃ code after rsp alive', stepped codec key s index conflictIndex writeCode alive out = .returned code after rsp alive' ∧
      after.header = s.header ∧ after.log = s.log := by
  unfold stepped
  dsimp only
  by_cases fails : out.code ≠ 0
  · rw [if_pos fails]
    exact ⟨_, _, _, _, rfl, rfl, rfl⟩
  · have keyed : ∀ held, ((alive.bind fun held => out.alive.map fun state => { held with state := state }).or s.cache) = some held →
        held.key = key := by
      intro held known
      rcases Option.or_eq_some_iff.mp known with changed | ⟨_, same⟩
      · obtain ⟨old, here, mapped⟩ := Option.bind_eq_some_iff.mp changed
        obtain ⟨state, _, rfl⟩ := Option.map_eq_some_iff.mp mapped
        exact sound.keyed old (given old here)
      · exact sound.keyed held same
    rw [if_neg fails, unmoved.write, if_neg (by simp)]
    dsimp only
    rw [unmoved.log (by simpa using fails), if_neg (by simp [sound.checked]), if_neg (by simp)]
    obtain ⟨left, dropped, _⟩ := outdated_run key index conflictIndex s.header.maxIndex
      (alive.bind fun held => out.alive.map fun state => { held with state := state }) _ keyed
    simp only [Bool.false_eq_true, if_false]
    rw [dropped]
    exact ⟨_, _, _, _, rfl, rfl, rfl⟩

-- GET_CHOSEN and NOOP change nothing exactly if they do not go beyond the log of
-- a server that votes.
theorem read_messages_iff (selfId : Fin 3) (memberId : Nat) (run : Reaches (act codec selfId memberId key) {} s) (self : Fin 3)
    (target : m.msg.toId = some self) (positive : 0 < m.index) (kind : isReadType m.msg.type = true) :
    ReadsOnly codec key m learnerOnly readCode writeCode s self ↔ withinLog m learnerOnly readCode s := by
  have sound := run_sound codec selfId memberId key s run
  have checked : wrapperOk s.log = true := wrapper_ok s.log sound.formed
  by_cases read : readCode = 0
  · subst read
    have delivered := message_delivered codec key s sound m learnerOnly writeCode
    rw [target, Option.bind_some, asserting_pos _ _ checked] at delivered
    constructor
    · intro only
      rw [withinLog]
      by_contra beyond
      simp only [ne_eq, not_true_eq_false, false_or, not_or, Nat.not_le, Bool.not_eq_true] at beyond
      obtain ⟨above, votes⟩ := beyond
      obtain ⟨code, after, rsp, alive, returned, _⟩ := only.returns
      rw [delivered] at returned
      cases done : PLogWrapper.step learnerOnly self m ((PInsAliveStateTimeoutCache.moreGet m.index s.cache).2.map (·.state)) s.log with
      | none =>
          rw [done] at returned
          cases returned
      | some out =>
          have unwritten := only.unwritten rfl out done
          rw [done] at returned
          rw [votes] at done
          obtain ⟨fine, max⟩ := beyond_moves sound self target positive kind _ above out done
          -- The header still has the old max index.
          have unseen : assertCheck codec s.header out.log = false := by
            have old : s.header.maxIndex = getMaxIndex s.log := by
              have whole := sound.checked
              simp only [assertCheck, Bool.and_eq_true, decide_eq_true_eq] at whole
              exact whole.1.1.1
            rw [assertCheck, max unwritten, old, decide_eq_false (by omega)]
            rfl
          dsimp only at returned
          rw [stepped, if_neg (by simp [fine]), unwritten] at returned
          simp [unseen] at returned
    · intro within
      have low : m.index ≤ getMaxIndex s.log ∨ learnerOnly = true := by
        rcases within with wrong | low
        · exact absurd rfl wrong
        · exact low
      obtain ⟨out, done, unmoved⟩ := within_unmoved sound self target positive kind
        ((PInsAliveStateTimeoutCache.moreGet m.index s.cache).2.map (·.state)) low
      refine ⟨?_, fun _ other again => ?_⟩
      · rw [delivered, done]
        exact unmoved_returns codec key writeCode s sound m.index _ _ out (fun held known => (cached_given s m.index held known).1) unmoved
      · rw [done] at again
        cases again
        exact unmoved.write
  · refine ⟨fun _ => .inl read, fun _ => ⟨⟨readCode, s, none, none, ?_, rfl, rfl⟩, fun wrong => absurd wrong read⟩⟩
    rw [postPaxosMsg, if_pos read]

def askChosen : LogMessage := ⟨1, { type := .getChosen, fromId := 1, toId := some 0, proposedNum := 0 }⟩

-- The first message a key gets asks for its first value.
theorem early_question_stops : ¬ ∀ codec selfId memberId key m learnerOnly readCode writeCode s,
    Reaches (act codec selfId memberId key) {} s → ∀ self, m.msg.toId = some self → 0 < m.index → m.index < 2 ^ 64 → isReadType m.msg.type = true →
      ReadsOnly codec key m learnerOnly readCode writeCode s self := by
  intro always
  have reads := always wireCodec 0 1 someKey askChosen false 0 0 {} (reaches_end _ _ [] (by decide +kernel)) 0
    (by decide) (by decide) (by decide) (by decide)
  obtain ⟨_, _, _, _, returned, _⟩ := reads.returns
  have stopped : CallResult.stop (postPaxosMsg wireCodec someKey askChosen false 0 0 {}) = some .assertCheck := by decide +kernel
  rw [returned] at stopped
  cases stopped

theorem later_question_reads : ReadsOnly wireCodec someKey askChosen false 0 0 afterFirst 0 :=
  (read_messages_iff wireCodec someKey askChosen false 0 0 afterFirst 0 1 (reaches_end _ _ _ (by decide +kernel)) 0
    (by decide) (by decide) (by decide)).mpr (.inr (.inl (by decide +kernel)))

end DBImpl

end PaxosStore.PaxosKv
