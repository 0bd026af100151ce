import PaxosStore.PaxosKv.ReadMessages

set_option autoImplicit false

namespace PaxosStore.PaxosKv

open PaxosStore.Consensus

-- A message with a new index makes room in the log. It drops the chosen instance
-- unless it has a chosen value itself or comes right after it.
def dropsChosen (m : LogMessage) (log : PaxosLog) : Prop :=
  m.msg.type ≠ .chosen ∧ getMaxIndex log < m.index ∧ 0 < getChosenIndex log ∧
    ¬ (getChosenIndex log = getMaxIndex log ∧ m.index = getMaxIndex log + 1)

instance (m : LogMessage) (log : PaxosLog) : Decidable (dropsChosen m log) := inferInstanceAs (Decidable (_ ∧ _))

-- Where the chosen instance of a stored log is.
inductive ChosenAt : PaxosLog → Prop where
  | last (index : Nat) (pins : PaxosInstance) (marked : pins.chosen = true) : ChosenAt [(index, pins)]
  | first (prev ins : Nat × PaxosInstance) (marked : prev.2.chosen = true) (keeps : keepsBoth prev ins = true) : ChosenAt [prev, ins]

theorem chosen_at (log : PaxosLog) (formed : LogFormed log) (positive : 0 < getChosenIndex log) : ChosenAt log := by
  rcases slim_shape log formed.slim with rfl | ⟨⟨index, pins⟩, rfl⟩ | ⟨prev, ins, rfl, keeps⟩
  · cases positive
  · refine .last index pins ?_
    by_contra other
    simp [getChosenIndex, getChosenIns, other] at positive
  · refine .first prev ins ?_ keeps
    have pending := (keeps_both prev ins keeps).1
    by_contra other
    simp [getChosenIndex, getChosenIns, other, pending] at positive

theorem chosen_last (log : PaxosLog) (entry : Nat × PaxosInstance) (marked : entry.2.chosen = true) :
    getChosenIndex (log ++ [entry]) = entry.1 := by
  simp [getChosenIndex, getChosenIns, marked]

theorem chosen_below (log : PaxosLog) (formed : LogFormed log) : getChosenIndex log ≤ getMaxIndex log := by
  rw [getChosenIndex]
  cases found : getChosenIns log with
  | none => exact Nat.zero_le _
  | some entry => exact (index_bounds log formed entry.1 entry.2 (chosen_ins_member log entry.1 entry.2 found).1).1

-- The cut keeps a chosen last instance.
theorem shrink_chosen (log kept : PaxosLog) (cut : Bool) (entry : Nat × PaxosInstance) (marked : entry.2.chosen = true)
    (done : shrinkPlog (log ++ [entry]) = some (cut, kept)) : getChosenIndex kept = entry.1 := by
  unfold shrinkPlog at done
  split at done
  · cases done
    exact chosen_last log entry marked
  · rw [List.reverse_append, List.reverse_singleton, List.singleton_append] at done
    cases shape : log.reverse with
    | nil =>
        rw [shape] at done
        cases done
    | cons prev rest =>
        rw [shape] at done
        have apart : keepsBoth prev entry = false := by simp [keepsBoth, marked]
        dsimp only at done
        rw [apart, if_neg (by simp)] at done
        obtain ⟨_, same⟩ := (asserting_some _ _ _).mp done
        cases same
        exact chosen_last [] entry marked

-- A new instance is chosen by nothing but CHOSEN.
theorem fresh_pending (selfId : Fin 3) (msg : Message) (write : Bool) (rsp : Option Message) (next : Option PInsAliveState)
    (stored : PaxosInstance) (other : msg.type ≠ .chosen) (done : wrapperStep false selfId msg none {} = some (write, rsp, next, stored)) :
    stored.chosen = false := by
  rw [wrapperStep, if_neg (by simp), stepNotChosen, if_neg (by simp)] at done
  obtain ⟨⟨write', type, alive, pins⟩, stepped, rest⟩ := Option.bind_eq_some_iff.mp done
  obtain ⟨reply, _, same⟩ := Option.map_eq_some_iff.mp rest
  have quiet : pins.chosen = false ∧ type ≠ .chosen := by
    rw [stepByType] at stepped
    have accepting (answer : MessageType) (fast : Bool) (fine : answer ≠ .chosen)
        (stepped : stepByType.accepting msg none {} answer fast = some (write', type, alive, pins)) :
        pins.chosen = false ∧ type ≠ .chosen := by
      obtain ⟨value, _, stepped⟩ := Option.bind_eq_some_iff.mp stepped
      obtain ⟨accepted, updated, same⟩ := Option.map_eq_some_iff.mp stepped
      cases accepted with
      | none =>
          cases same
          exact ⟨rfl, fine⟩
      | some accepted =>
          cases same
          rw [updateAccepted, if_neg (by simp), if_neg (by simp)] at updated
          obtain ⟨_, equal⟩ := (asserting_some _ _ _).mp updated
          cases equal
          exact ⟨rfl, fine⟩
    cases kind : msg.type <;> rw [kind] at stepped
    case chosen => exact absurd kind other
    case prop =>
      cases stepped
      exact ⟨rfl, by simp⟩
    case accpt => exact accepting _ _ (by simp) stepped
    case fastAccpt => exact accepting _ _ (by simp) stepped
    all_goals
      cases stepped
      exact ⟨rfl, by simp⟩
  rw [if_neg quiet.2] at same
  cases same
  exact quiet.1

theorem fresh_takes (selfId : Fin 3) (msg : Message) (other : msg.type ≠ .chosen)
    (valued : msg.type = .accpt ∨ msg.type = .fastAccpt → msg.acceptedValue.isSome = true) :
    (wrapperStep false selfId msg none {}).isSome = true := by
  rw [wrapperStep, if_neg (by simp), stepNotChosen, if_neg (by simp), stepByType]
  cases kind : msg.type
  case chosen => exact absurd kind other
  case accpt =>
    obtain ⟨value, held⟩ := Option.isSome_iff_exists.mp (valued (.inl kind))
    simp [stepByType.accepting, held, updateAccepted, asserting, produceRsp, produceRsp.acceptRsp]
  case fastAccpt =>
    obtain ⟨value, held⟩ := Option.isSome_iff_exists.mp (valued (.inr kind))
    simp [stepByType.accepting, held, updateAccepted, asserting, produceRsp, produceRsp.acceptRsp]
  case prop => simp [updatePromised, produceRsp, asserting]
  all_goals rfl

-- The chosen instance of a log, and what a step of an instance leaves of it.
section Chosen

variable (learnerOnly : Bool) (selfId : Fin 3) (m : LogMessage) (alive : Option PInsAliveState) (log : PaxosLog)
  (formed : LogFormed log) (out : StepOut)

include formed

theorem instance_keeps_chosen (done : stepInstance learnerOnly selfId m alive log false = some out) (fine : out.code = 0) :
    getChosenIndex log ≤ getChosenIndex out.log := by
  unfold stepInstance at done
  split at done
  · cases done
  · rename_i pins found
    have here := find_member log m.index pins found
    split at done
    · cases done
      cases fine
    · obtain ⟨⟨write, rsp, state, stored⟩, stepped, rest⟩ := Option.bind_eq_some_iff.mp done
      obtain ⟨⟨cut, kept⟩, shrunk, same⟩ := Option.map_eq_some_iff.mp rest
      cases same
      rcases Nat.eq_zero_or_pos (getChosenIndex log) with zero | positive
      · rw [zero]
        exact Nat.zero_le _
      · have moved := wrapper_moves learnerOnly selfId m.msg _ state pins stored write rsp (formed.entries m.index pins here).2.2 stepped
        dsimp only
        by_cases marked : pins.chosen = true
        · -- A chosen instance only answers.
          rw [wrapperStep, if_pos marked] at stepped
          obtain ⟨_, _, same⟩ := Option.map_eq_some_iff.mp stepped
          cases same
          rw [set_same log formed m.index _ here, shrinkPlog, if_pos formed.slim] at shrunk
          cases shrunk
          exact Nat.le_refl _
        · cases chosen_at log formed positive with
          | last index old chosen =>
              rw [List.mem_singleton] at here
              cases here
              exact absurd chosen marked
          | first prev ins chosen keeps =>
              have step := consecutive prev ins formed
              simp only [List.mem_cons, List.not_mem_nil, or_false] at here
              rcases here with rfl | rfl
              · exact absurd chosen marked
              · have set : setIns [prev, (m.index, pins)] m.index stored = [prev] ++ [(m.index, stored)] := by
                  have apart : prev.1 ≠ m.index := by
                    dsimp only at step
                    omega
                  simp [setIns, apart]
                rw [set] at shrunk
                have before : getChosenIndex [prev, (m.index, pins)] = prev.1 := by
                  simp [getChosenIndex, getChosenIns, marked, chosen]
                rw [before]
                by_cases now : stored.chosen = true
                · rw [shrink_chosen [prev] kept cut (m.index, stored) now shrunk]
                  dsimp only at step ⊢
                  omega
                · have slim : isSlim ([prev] ++ [(m.index, stored)]) = true := by
                    obtain ⟨_, wrapped, valued⟩ := keeps_both prev (m.index, pins) keeps
                    simp [isSlim, keepsBoth, now, wrapped, valued, chosen]
                  rw [shrinkPlog, if_pos slim] at shrunk
                  cases shrunk
                  simp [getChosenIndex, getChosenIns, now, chosen]

-- A pending instance above a log with a chosen one.
theorem fresh_cut (index : Nat) (stored : PaxosInstance) (pending : stored.chosen = false) (positive : 0 < getChosenIndex log)
    (above : getMaxIndex log < index) (small : index < 2 ^ 64) :
    if getChosenIndex log = getMaxIndex log ∧ index = getMaxIndex log + 1 then
      shrinkPlog (log ++ [(index, stored)]) = some (false, log ++ [(index, stored)])
    else ∃ kept, shrinkPlog (log ++ [(index, stored)]) = some (true, kept) ∧ isSlim kept = true ∧ getChosenIns kept = none := by
  have alone (slim : isSlim (log ++ [(index, stored)]) = false) (prev : Nat × PaxosInstance) (rest : PaxosLog)
      (shape : log.reverse = prev :: rest) (kept : PaxosLog)
      (same : (if keepsBoth prev (index, stored) then [prev, (index, stored)] else [(index, stored)]) = kept)
      (none_ : getChosenIns kept = none) :
      ∃ kept, shrinkPlog (log ++ [(index, stored)]) = some (true, kept) ∧ isSlim kept = true ∧ getChosenIns kept = none := by
    have cut : isSlim kept = true := by
      rw [← same]
      split
      · rename_i keeps
        exact keeps
      · rfl
    refine ⟨kept, ?_, cut, none_⟩
    rw [shrinkPlog, if_neg (by simp [slim]), List.reverse_append, shape, List.reverse_singleton, List.singleton_append]
    dsimp only
    rw [same, asserting_pos _ _ cut]
  cases chosen_at log formed positive with
  | last max pins marked =>
      have bound := (formed.entries max pins (by simp)).2.1
      have valued := (chosen_complete pins (formed.entries max pins (by simp)).2.2 marked).2.2
      have place : getChosenIndex [(max, pins)] = max ∧ getMaxIndex [(max, pins)] = max := by
        simp [getChosenIndex, getChosenIns, getMaxIndex, marked]
      rw [place.2] at above
      rw [place.1, place.2]
      by_cases next : index = max + 1
      · rw [if_pos ⟨rfl, next⟩]
        have slim : isSlim ([(max, pins)] ++ [(index, stored)]) = true := by
          have wrapped : u64 (max + 1) = index := by
            rw [u64]
            omega
          simp [isSlim, keepsBoth, pending, wrapped, valued, marked]
        rw [shrinkPlog, if_pos slim]
      · rw [if_neg (fun both => next both.2)]
        have apart : keepsBoth (max, pins) (index, stored) = false := by
          have wrapped : u64 (max + 1) ≠ index := by
            rw [u64]
            omega
          simp [keepsBoth, wrapped]
        refine alone ?_ (max, pins) [] rfl [(index, stored)] (by rw [apart]; rfl) (by simp [getChosenIns, pending])
        exact apart
  | first prev ins marked keeps =>
      have step := consecutive prev ins formed
      have open_ := (keeps_both prev ins keeps).1
      have place : getChosenIndex [prev, ins] = prev.1 ∧ getMaxIndex [prev, ins] = ins.1 := by
        simp [getChosenIndex, getChosenIns, getMaxIndex, marked, open_]
      rw [place.1, place.2, if_neg (by omega)]
      refine alone rfl ins [prev] rfl _ rfl ?_
      split
      · simp [getChosenIns, pending, open_]
      · simp [getChosenIns, pending]

theorem set_fresh (index : Nat) (stored : PaxosInstance) (above : getMaxIndex log < index) :
    setIns (log ++ [(index, ({} : PaxosInstance))]) index stored = log ++ [(index, stored)] := by
  rw [setIns, List.map_append, List.map_congr_left (g := id), List.map_id]
  · simp
  · intro entry member
    have low := (index_bounds log formed entry.1 entry.2 member).1
    rw [if_neg (by omega)]
    rfl

theorem find_fresh (index : Nat) (above : getMaxIndex log < index) :
    findIns (log ++ [(index, ({} : PaxosInstance))]) index = some {} := by
  have gone : log.find? (·.1 = index) = none := by
    rw [List.find?_eq_none]
    intro entry member
    have low := (index_bounds log formed entry.1 entry.2 member).1
    simp
    omega
  simp [findIns, List.find?_append, gone]

theorem fresh_keeps_chosen (above : getMaxIndex log < m.index) (small : m.index < 2 ^ 64) (keeps : ¬ dropsChosen m log)
    (done : stepInstance learnerOnly selfId m alive (log ++ [(m.index, ({} : PaxosInstance))]) true = some out) (fine : out.code = 0) :
    getChosenIndex log ≤ getChosenIndex out.log := by
  rw [stepInstance, find_fresh log formed m.index above] at done
  dsimp only at done
  split at done
  · cases done
    cases fine
  · rename_i votes
    obtain ⟨⟨write, rsp, state, stored⟩, stepped, rest⟩ := Option.bind_eq_some_iff.mp done
    obtain ⟨⟨cut, kept⟩, shrunk, same⟩ := Option.map_eq_some_iff.mp rest
    cases same
    rw [set_fresh log formed m.index stored above] at shrunk
    rw [if_pos rfl] at stepped
    dsimp only
    rcases Nat.eq_zero_or_pos (getChosenIndex log) with zero | positive
    · rw [zero]
      exact Nat.zero_le _
    · have below := chosen_below log formed
      by_cases marked : stored.chosen = true
      · rw [shrink_chosen log kept cut (m.index, stored) marked shrunk]
        dsimp only
        omega
      · have other : m.msg.type ≠ .chosen := by
          intro kind
          rw [wrapperStep, if_neg (by simp), stepNotChosen, if_neg (by simp [kind])] at stepped
          obtain ⟨⟨write', type, middle, record⟩, stepped, rest⟩ := Option.bind_eq_some_iff.mp stepped
          obtain ⟨reply, _, same⟩ := Option.map_eq_some_iff.mp rest
          rw [stepByType, kind] at stepped
          obtain ⟨value, held, learnt⟩ := Option.bind_eq_some_iff.mp stepped
          obtain ⟨⟨write'', kept⟩, learnt, equal⟩ := Option.map_eq_some_iff.mp learnt
          cases equal
          rw [if_neg (by simp)] at same
          cases same
          exact marked (learn_spec value m.msg {} _ _ learnt).1
        have near : getChosenIndex log = getMaxIndex log ∧ m.index = getMaxIndex log + 1 := by
          by_contra far
          exact keeps ⟨other, above, positive, far⟩
        have whole := fresh_cut log formed m.index stored (by simpa using marked) positive above small
        rw [if_pos near, shrunk] at whole
        cases whole
        rw [getChosenIndex, getChosenIndex, chosen_append log m.index stored (by simpa using marked)]

theorem fresh_drops_chosen (small : m.index < 2 ^ 64) (drops : dropsChosen m log)
    (valued : m.msg.type = .accpt ∨ m.msg.type = .fastAccpt → m.msg.acceptedValue.isSome = true) :
    ∃ out, stepInstance false selfId m alive (log ++ [(m.index, ({} : PaxosInstance))]) true = some out ∧ out.code = 0 ∧ out.write = true ∧
      isSlim out.log = true ∧ getChosenIns out.log = none := by
  obtain ⟨other, above, positive, far⟩ := drops
  obtain ⟨⟨write, rsp, next, stored⟩, stepped⟩ := Option.isSome_iff_exists.mp (fresh_takes selfId m.msg other valued)
  have pending := fresh_pending selfId m.msg write rsp next stored other stepped
  have whole := fresh_cut log formed m.index stored pending positive above small
  rw [if_neg far] at whole
  obtain ⟨kept, shrunk, slim, none_⟩ := whole
  rw [stepInstance, find_fresh log formed m.index above]
  dsimp only
  rw [if_neg (by simp), if_pos rfl, stepped, Option.bind_some]
  dsimp only
  rw [set_fresh log formed m.index stored above, shrunk]
  exact ⟨_, rfl, rfl, by simp, slim, none_⟩

end Chosen

namespace DBImpl

variable (codec : DataCodec) (selfId : Fin 3) (memberId : Nat) (key : List UInt8)

-- A message that is applied, and its result stored, by a server that votes, and
-- that drops the chosen instance. ACCPT has to bring a value.
def losesChosen (s : KeyState) : DbOp → Bool
  | .message m learnerOnly readCode writeCode =>
      readCode = 0 ∧ writeCode = 0 ∧ learnerOnly = false ∧ m.msg.toId.isSome ∧ dropsChosen m s.log ∧
        (m.msg.type = .accpt ∨ m.msg.type = .fastAccpt → m.msg.acceptedValue.isSome)
  | _ => false

section Step

variable (s : KeyState) (sound : Sound codec key s)

theorem stepped_log (index conflictIndex : Nat) (writeCode : Int) (alive : Option CachedState) (out : StepOut) :
    (stepped codec key s index conflictIndex writeCode alive out).after.log = s.log ∨
      out.code = 0 ∧ writeCode = 0 ∧ (stepped codec key s index conflictIndex writeCode alive out).after.log = out.log := by
  unfold stepped
  dsimp only
  split
  · exact .inl rfl
  · rename_i fine
    split
    · exact .inl rfl
    · split
      · exact .inl rfl
      · split
        · exact .inl rfl
        · rename_i stores
          split
          · split
            · right
              exact ⟨by simpa using fine, by simp_all, rfl⟩
            · exact .inl rfl
          · split
            · right
              exact ⟨by simpa using fine, by simp_all, rfl⟩
            · exact .inl rfl

theorem write_log (req : SetRequest) (ready : Ready) :
    (writeAndInsert codec key req s ready).after.log = s.log ∨ (writeAndInsert codec key req s ready).after.log = ready.log := by
  unfold writeAndInsert
  split
  · exact .inl rfl
  · split
    · split
      · exact .inl rfl
      · exact .inl rfl
    · dsimp only
      split
      · exact .inr rfl
      · split
        · exact .inr rfl
        · exact .inr rfl

include sound

theorem set_chosen (req : SetRequest) : getChosenIns (set codec selfId memberId key req s).after.log = getChosenIns s.log := by
  have inner : getChosenIns (setNoLock codec selfId memberId key req s).after.log = getChosenIns s.log := by
    rcases set_no_lock_cases codec selfId memberId key req s sound with
      ⟨_, _, _, same⟩ | ⟨_, same⟩ | ⟨_, same⟩ | ⟨_, _, same⟩ | ⟨ready, _, _, fine, same⟩
    · rw [same]
      rfl
    · rw [same]
      rfl
    · rw [same]
      rfl
    · rw [same]
      rfl
    · rw [same]
      rcases write_log codec key s req ready with log | log
      · rw [log]
      · rw [log, fine.chosen]
  unfold set
  split
  · rfl
  · cases done : setNoLock codec selfId memberId key req s with
    | returned code after rsp alive =>
        rw [done] at inner
        dsimp only
        split
        · split
          · exact inner
          · exact inner
        · split
          · exact inner
          · exact inner
    | aborted site after =>
        rw [done] at inner
        exact inner

theorem message_keeps_chosen (m : LogMessage) (learnerOnly : Bool) (readCode writeCode : Int) (small : m.index < 2 ^ 64)
    (keeps : losesChosen s (.message m learnerOnly readCode writeCode) = false) :
    getChosenIndex s.log ≤ getChosenIndex (postPaxosMsg codec key m learnerOnly readCode writeCode s).after.log := by
  by_cases read : readCode = 0
  · subst read
    rw [message_delivered codec key s sound m learnerOnly writeCode]
    split
    · exact Nat.le_refl _
    · rename_i out done
      obtain ⟨self, target, done⟩ := Option.bind_eq_some_iff.mp done
      obtain ⟨_, done⟩ := (asserting_some _ _ _).mp done
      rcases stepped_log codec key s m.index _ writeCode _ out with log | ⟨fine, written, log⟩
      · rw [log]
      · rw [log]
        rcases Nat.eq_zero_or_pos m.index with zero | positive
        · -- Index 0 is below every instance.
          have same : out.log = s.log := by
            rw [PLogWrapper.step, if_pos (.inl zero)] at done
            split at done
            · exact (invalid_quiet self m _ s.log out done).1
            · cases done
              rfl
          rw [same]
        · rw [aimed_step sound self target positive] at done
          split at done
          · exact instance_keeps_chosen learnerOnly self m _ s.log sound.formed out done fine
          · split at done
            · rename_i absent above
              by_cases drops : dropsChosen m s.log
              · have learner : learnerOnly = true := by
                  by_contra votes
                  have silent : ¬ (m.msg.type = .accpt ∨ m.msg.type = .fastAccpt → m.msg.acceptedValue.isSome = true) := by
                    intro valued
                    simp only [losesChosen, decide_eq_false_iff_not] at keeps
                    exact keeps ⟨trivial, written, by simpa using votes, by rw [target]; rfl, drops, valued⟩
                  simp only [Classical.not_imp] at silent
                  rw [stepInstance, find_fresh s.log sound.formed m.index above] at done
                  dsimp only at done
                  rw [if_neg (by simp [votes])] at done
                  obtain ⟨⟨write, rsp, state, stored⟩, stepped, _⟩ := Option.bind_eq_some_iff.mp done
                  rw [wrapperStep, if_neg (by simp), stepNotChosen, if_neg (by simp [votes]), stepByType] at stepped
                  have none_ : m.msg.acceptedValue = none := by simpa using silent.2
                  rcases silent.1 with type | type
                  all_goals
                    rw [type] at stepped
                    simp [stepByType.accepting, none_] at stepped
                rw [stepInstance, find_fresh s.log sound.formed m.index above] at done
                dsimp only at done
                rw [if_pos ⟨learner, rfl, drops.1⟩] at done
                cases done
                cases fine
              · exact fresh_keeps_chosen learnerOnly self m _ s.log sound.formed out above small drops done fine
            · rw [(invalid_quiet self m _ s.log out done).1]
  · rw [postPaxosMsg, if_pos read]
    exact Nat.le_refl _

-- A step lowers the chosen index of a key exactly if it is such a message.
theorem loses_chosen_iff (op : DbOp) (allowed : possible s op = true) :
    getChosenIndex (perform codec selfId memberId key s op).after.log < getChosenIndex s.log ↔ losesChosen s op = true := by
  cases op with
  | set req =>
      refine ⟨fun wrong => ?_, fun wrong => by cases wrong⟩
      have same := set_chosen codec selfId memberId key s sound req
      simp only [perform, getChosenIndex, same] at wrong
      omega
  | finish index reqid notified readCode =>
      refine ⟨fun wrong => ?_, fun wrong => by cases wrong⟩
      have same : (finish key s index reqid notified readCode).after.log = s.log := by
        unfold finish
        split
        · rfl
        · split
          · rfl
          · rfl
      simp only [perform, same] at wrong
      omega
  | expire index sameNum =>
      refine ⟨fun wrong => ?_, fun wrong => by cases wrong⟩
      have same : (expire s index sameNum).after.log = s.log := by
        unfold expire
        split
        · rfl
        · rfl
      simp only [perform, same] at wrong
      omega
  | restart =>
      refine ⟨fun wrong => ?_, fun wrong => by cases wrong⟩
      have same : s.restart.log = s.log := rfl
      simp only [perform, CallResult.after, same] at wrong
      omega
  | message m learnerOnly readCode writeCode =>
      have small : m.index < 2 ^ 64 := of_decide_eq_true allowed
      constructor
      · intro lowers
        by_contra keeps
        have kept := message_keeps_chosen codec key s sound m learnerOnly readCode writeCode small (by simpa using keeps)
        simp only [perform] at lowers
        omega
      · intro loses
        obtain ⟨read, written, votes, target, drops, valued⟩ := of_decide_eq_true loses
        subst read written votes
        obtain ⟨self, target⟩ := Option.isSome_iff_exists.mp target
        have positive : 0 < m.index := Nat.lt_of_le_of_lt (Nat.zero_le _) drops.2.1
        obtain ⟨out, done, fine, write, slim, none_⟩ := fresh_drops_chosen self m
          ((PInsAliveStateTimeoutCache.moreGet m.index s.cache).2.map (·.state)) s.log sound.formed small drops valued
        have absent : findIns s.log m.index = none := by
          cases found : findIns s.log m.index with
          | none => rfl
          | some pins =>
              have low := (index_bounds s.log sound.formed m.index pins (find_member s.log m.index pins found)).1
              have above := drops.2.1
              omega
        have zero : getChosenIndex out.log = 0 := by rw [getChosenIndex, none_]; rfl
        have header : s.header.chosenIndex = getChosenIndex s.log := by
          have whole := sound.checked
          simp only [assertCheck, Bool.and_eq_true, decide_eq_true_eq] at whole
          exact whole.1.1.2
        have updated : updateHeader codec out.log s.header = some ⟨getMaxIndex out.log, 0, 0, 0⟩ := by
          rw [updateHeader, asserting_pos _ _ slim]
          have changed : s.header.chosenIndex ≠ getChosenIndex out.log := by
            have high := drops.2.2.1
            omega
          dsimp only
          rw [if_neg changed, if_pos zero]
        have checked : assertCheck codec ⟨getMaxIndex out.log, 0, 0, 0⟩ out.log = true := by
          simp [assertCheck, getChosenReqid, zero, none_]
        have stored : (stepped codec key s m.index (PInsAliveStateTimeoutCache.moreGet m.index s.cache).1 0
            (PInsAliveStateTimeoutCache.moreGet m.index s.cache).2 out).after.log = out.log := by
          unfold stepped
          dsimp only
          rw [if_neg (by simp [fine]), write, if_pos rfl, updated]
          dsimp only
          rw [if_neg (by simp [checked]), if_neg (by simp)]
          split
          · rfl
          · rfl
        simp only [perform]
        rw [message_delivered codec key s sound m false 0, target, Option.bind_some, asserting_pos _ _ (wrapper_ok s.log sound.formed),
          aimed_step sound self target positive, absent, if_neg (by simp), if_pos drops.2.1, done]
        dsimp only
        rw [stored, zero]
        exact drops.2.2.1

end Step

end DBImpl

end PaxosStore.PaxosKv
