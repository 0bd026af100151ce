import PaxosStore.PaxosKv.LogMirrors

set_option autoImplicit false

namespace PaxosStore.PaxosKv

open PaxosStore.Consensus

section Proposals

variable {allowed : Fin 3 → Prop} {opened : Prop} {i : Fin 3} {s : LogServer} {before : Servers} {memberId : Nat}

-- A server that proposes something of its own: the log it does so in, and why it may begin
-- with the fast path.
structure Proposing (memberId : Nat) (i : Fin 3) (s : LogServer) (index : Nat) (msg : Message) (grown : PaxosLog) : Prop where
  positive : 0 < index
  request : Servers.isRequest msg.type = true
  entries : ∀ key pins, (key, pins) ∈ grown → (key, pins) ∈ s.log ∨ key = index ∧ pins = {} ∧ getMaxIndex s.log < index
  top : getMaxIndex grown = index
  max : getMaxIndex s.log ≤ index
  opened : index = 1 ∨ ∃ last pins, index = last + 1 ∧ (last, pins) ∈ s.log ∧ pins.chosen = true
  quick : msg.type = .beginFastProp → ∃ last pins, index = last + 1 ∧ (last, pins) ∈ s.log ∧ pins.chosen = true ∧
    PLogWrapper.belongTo ((pins.acceptedValue.map (·.reqid)).getD 0) memberId = true

def ProposesOwn (memberId : Nat) (i : Fin 3) (s : LogServer) (out : StepOut) : Prop :=
  out.code ≠ 0 ∨ ∃ learnerOnly index msg count grown, Proposing memberId i s index msg grown ∧
    stepInstance learnerOnly i ⟨index, msg⟩ (some (.create (selfid i) count)) grown false = some out

theorem withdrawn_own {stepped out : StepOut} (proposes : ProposesOwn memberId i s stepped)
    (done : (if stepped.code ≠ 0 then some { stepped with rsp := none, alive := none } else asserting (stepped.rsp.isSome = true) (some stepped)) =
      some out) : ProposesOwn memberId i s out := by
  split at done
  · rename_i wrong
    cases done
    exact .inl wrong
  · obtain ⟨_, same⟩ := (asserting_some _ _ _).mp done
    cases same
    exact proposes

theorem last_member {log : PaxosLog} {index : Nat} {pins : PaxosInstance} (last : getMaxIns log = some (index, pins)) :
    (index, pins) ∈ log ∧ getMaxIndex log = index := by
  refine ⟨List.mem_of_getLast? last, ?_⟩
  rw [getMaxIndex, show log.getLast? = some (index, pins) from last]
  rfl

-- A new instance at the end of a log whose last one is chosen.
theorem appended_proposes (housed : Housed s) {learnerOnly : Bool} {index : Nat} {msg : Message} {out : StepOut}
    (settled : (getMaxIns s.log).any (!·.2.chosen) = false) (first : getMaxIns s.log = none → index = 1)
    (number : ∀ last pins, getMaxIns s.log = some (last, pins) → index = u64 (last + 1)) (positive : 0 < index)
    (added : LogFormed (s.log ++ [(index, ({} : PaxosInstance))])) (request : Servers.isRequest msg.type = true) (target : msg.toId = some i)
    (mine : msg.type = .beginFastProp →
      (getMaxIns s.log).any (fun max => PLogWrapper.belongTo ((max.2.acceptedValue.map (·.reqid)).getD 0) memberId) = true)
    (ran : PLogWrapper.step learnerOnly i ⟨index, msg⟩ (some (.create (selfid i) 0)) (s.log ++ [(index, ({} : PaxosInstance))]) = some out) :
    ProposesOwn memberId i s out := by
  have found : findIns (s.log ++ [(index, ({} : PaxosInstance))]) index = some {} :=
    (find_iff _ added index {}).mpr (List.mem_append_right _ (List.mem_singleton_self _))
  rw [step_present added positive target found] at ran
  have follows (last : Nat) (pins : PaxosInstance) (known : getMaxIns s.log = some (last, pins)) : index = last + 1 := by
    have bound := (housed.formed.entries last pins (last_member known).1).2.1
    have next := number last pins known
    rw [u64] at next
    omega
  have above : getMaxIndex s.log < index := by
    cases known : getMaxIns s.log with
    | none =>
        rw [getMaxIndex, show s.log.getLast? = none from known]
        exact positive
    | some entry =>
        rw [(last_member known).2, follows entry.1 entry.2 known]
        exact Nat.lt_succ_self _
  refine .inr ⟨learnerOnly, index, msg, 0, _, ⟨positive, request, fun key pins here => ?_, max_append _ _ _, Nat.le_of_lt above, ?_, fun fast => ?_⟩, ran⟩
  · rcases List.mem_append.mp here with old | new
    · exact .inl old
    · obtain ⟨rfl, rfl⟩ := Prod.mk.inj (List.mem_singleton.mp new)
      exact .inr ⟨rfl, rfl, above⟩
  · cases known : getMaxIns s.log with
    | none => exact .inl (first known)
    | some entry =>
        rw [known] at settled
        exact .inr ⟨entry.1, entry.2, follows entry.1 entry.2 known, (last_member known).1, by simpa using settled⟩
  · have own := mine fast
    cases known : getMaxIns s.log with
    | none =>
        rw [known] at own
        cases own
    | some entry =>
        rw [known] at own settled
        exact ⟨entry.1, entry.2, follows entry.1 entry.2 known, (last_member known).1, by simpa using settled, own⟩

theorem normal_set_proposes (housed : Housed s) {learnerOnly doFastAccpt : Bool} {entry : Entry} {out : StepOut}
    (done : PLogWrapper.normalSet learnerOnly i memberId entry doFastAccpt s.log = some out) : ProposesOwn memberId i s out := by
  obtain ⟨_, rest⟩ := (asserting_some _ _ _).mp done
  split at rest
  · cases rest
    exact .inl (show (-100 : Int) ≠ 0 by decide)
  · rename_i settled
    obtain ⟨positive, rest⟩ := (asserting_some _ _ _).mp rest
    obtain ⟨stepped, ran, rest⟩ := Option.bind_eq_some_iff.mp rest
    have settled : (getMaxIns s.log).any (!·.2.chosen) = false := by simpa using settled
    obtain ⟨added, _⟩ := PLogWrapper.append_next s.log _ housed.formed settled rfl positive
    refine withdrawn_own (appended_proposes housed settled ?_ ?_ positive added.formed ?_ rfl ?_ ran) rest
    · intro absent
      rw [absent]
    · intro last pins known
      rw [known]
    · dsimp only
      split
      · rfl
      · rfl
    · dsimp only
      intro fast
      split at fast
      · rename_i asked
        exact (Bool.and_eq_true_iff.mp asked).2
      · cases fast

theorem preempt_set_proposes (housed : Housed s) {learnerOnly : Bool} {entry : Entry} {out : StepOut}
    (done : PLogWrapper.preemptSet learnerOnly i entry s.log = some out) : ProposesOwn memberId i s out := by
  obtain ⟨_, rest⟩ := (asserting_some _ _ _).mp done
  split at rest
  · cases rest
    exact .inl (show (-11 : Int) ≠ 0 by decide)
  · rename_i index ins last
    split at rest
    · cases rest
      exact .inl (show (-11 : Int) ≠ 0 by decide)
    · rename_i ready
      obtain ⟨⟨_, positive⟩, rest⟩ := (asserting_some _ _ _).mp rest
      obtain ⟨gen, _, rest⟩ := Option.bind_eq_some_iff.mp rest
      obtain ⟨stepped, ran, rest⟩ := Option.bind_eq_some_iff.mp rest
      obtain ⟨there, max⟩ := last_member last
      have opened : index = 1 ∨ ∃ last pins, index = last + 1 ∧ (last, pins) ∈ s.log ∧ pins.chosen = true := by
        by_cases first : index = 1
        · exact .inl first
        · cases chosen : getChosenIns s.log with
          | none =>
              rw [chosen] at ready
              exact absurd ⟨rfl, first⟩ ready
          | some pair =>
              obtain ⟨here, marked⟩ := chosen_ins_member s.log pair.1 pair.2 chosen
              have bound := (housed.formed.entries pair.1 pair.2 here).2.1
              have next : index = u64 (pair.1 + 1) := by
                by_contra wrong
                rw [chosen] at ready
                exact ready ⟨by simpa using wrong, first⟩
              have small := (housed.formed.entries index ins there).1
              rw [u64] at next
              exact .inr ⟨pair.1, pair.2, by omega, here, marked⟩
      have found := (find_iff s.log housed.formed index ins).mpr there
      rw [step_present housed.formed positive rfl found] at ran
      refine withdrawn_own (.inr ⟨learnerOnly, index, _, _, _, ?_, ran⟩) rest
      exact ⟨positive, rfl, fun _ _ here => .inl here, max, Nat.le_of_eq max, opened, fun wrong => by cases wrong⟩

theorem filter_cached {log : PaxosLog} (keep : Nat × PInsAliveState → Bool) (index : Nat) :
    (LogServer.mk log (s.alive.filter keep)).cached index = none ∨ (LogServer.mk log (s.alive.filter keep)).cached index = s.cached index := by
  cases alive : s.alive with
  | none =>
      rw [LogServer.cached, Option.filter_none]
      exact .inl rfl
  | some entry =>
      rw [Option.filter_some]
      split
      · rw [LogServer.cached, LogServer.cached, alive]
        exact .inr rfl
      · exact .inl rfl

-- What of a proposal is stored at its own index, and that the other ones are left alone.
theorem proposal_shadow {index key : Nat} (mirrors : Mirrors s key (before.server i)) {msg : Message} {count : Nat} {grown : PaxosLog}
    (proposing : Proposing memberId i s index msg grown) {learnerOnly : Bool} {out : StepOut} {next : LogServer} {reply : Option LogMessage}
    (quick : key = index → msg.type = .beginFastProp → ∀ fast, allowed fast → i = fast) (open_ : key = index → opened)
    (done : stepInstance learnerOnly i ⟨index, msg⟩ (some (.create (selfid i) count)) grown false = some out) (code : out.code = 0)
    (log : next.log = out.log) (alive : next.cached key = none ∨ key = index ∧ next.cached key = out.alive) (answer : reply = none ∨ reply = out.rsp) :
    ∃ after, Shadow allowed opened i key next reply before after := by
  obtain ⟨pins, found, rfl | ⟨write, rsp, state, stored, cut, kept, stepped, shrunk, rfl⟩⟩ := instance_cases done
  · exact absurd code (show (-50221 : Int) ≠ 0 by decide)
  · obtain ⟨_, _, again, _, included, max⟩ := shrink_run (setIns grown index stored)
    obtain ⟨rfl, rfl⟩ := Prod.mk.inj (Option.some.inj (shrunk.symm.trans again))
    rw [set_max, proposing.top] at max
    dsimp only at log alive answer
    by_cases here : key = index
    · subst here
      have known : (before.server i).pins = pins := by
        rcases proposing.entries key pins (find_member grown key pins found) with there | ⟨_, rfl, above⟩
        · exact mirrors.stored pins there
        · exact mirrors.fresh above
      let middle := before.setServer i { before.server i with alive := some (.create (selfid i) count) }
      have set : middle.server i = { before.server i with alive := some (.create (selfid i) count) } := Function.update_self _ _ _
      have stepped : wrapperStep learnerOnly i msg (middle.server i).alive (middle.server i).pins = some (write, rsp, state, stored) := by
        rw [set, known]
        exact stepped
      obtain ⟨result, replied⟩ := handle_stores true stepped (by rw [Bool.not_true, Bool.and_false])
      refine shadow_settles (middle.handle i msg learnerOnly true) (fun fast able => ?_) ?_ ?_ ?_ (fun j other => ?_)
        (fun other there => handle_sent middle i msg learnerOnly true other there) ?_ (fun closed => absurd (open_ rfl) closed)
      · refine reaches_trans _ _ _ _ (reaches_step _ before (.create i count) middle rfl) ?_
        exact request_reaches middle i msg learnerOnly true fast proposing.request (fun asked => quick rfl asked fast able)
      · rw [result, log]
        intro held member
        rcases set_member grown key key stored held (included _ member) with ⟨wrong, _⟩ | ⟨_, same, _⟩
        · exact absurd rfl wrong
        · exact same.symm
      · rw [log, max]
        exact fun above => absurd above (Nat.lt_irrefl _)
      · rw [result]
        exact alive.imp_right fun same => same.2.symm
      · exact (handle_others middle i msg learnerOnly true j other).trans (Function.update_of_ne other _ _)
      · rintro given rfl _
        rcases answer with wrong | same
        · cases wrong
        · obtain ⟨reply, there, rfl⟩ := Option.map_eq_some_iff.mp same.symm
          exact replied reply there
    · refine shadow_settles before (fun fast _ => reaches_refl _ _) ?_ ?_ (.inl ?_) (fun _ _ => rfl) (fun _ there => there) ?_
        (fun _ blank => blank)
      · rw [log]
        intro held member
        rcases set_member grown index key stored held (included _ member) with ⟨_, there⟩ | ⟨wrong, _⟩
        · rcases proposing.entries key held there with old | ⟨wrong, _⟩
          · exact mirrors.stored held old
          · exact absurd wrong here
        · exact absurd wrong here
      · rw [log, max]
        exact fun above => mirrors.fresh (Nat.lt_of_le_of_lt proposing.max above)
      · exact alive.resolve_right fun wrong => here wrong.1
      · rintro given rfl same
        rcases answer with wrong | sent
        · cases wrong
        · obtain ⟨reply, _, rfl⟩ := Option.map_eq_some_iff.mp sent.symm
          exact absurd same.symm here

theorem proposed_max {learnerOnly : Bool} {index : Nat} {msg : Message} {count : Nat} {grown : PaxosLog} {out : StepOut}
    (proposing : Proposing memberId i s index msg grown)
    (done : stepInstance learnerOnly i ⟨index, msg⟩ (some (.create (selfid i) count)) grown false = some out) (code : out.code = 0) :
    getMaxIndex out.log = index := by
  obtain ⟨pins, _, rfl | ⟨write, rsp, state, stored, cut, kept, _, shrunk, rfl⟩⟩ := instance_cases done
  · exact absurd code (show (-50221 : Int) ≠ 0 by decide)
  · obtain ⟨_, _, again, _, _, max⟩ := shrink_run (setIns grown index stored)
    obtain ⟨rfl, rfl⟩ := Prod.mk.inj (Option.some.inj (shrunk.symm.trans again))
    exact max.trans ((set_max _ _ _).trans proposing.top)

-- A set of the server, at every index.
theorem propose_shadow {key : Nat} (mirrors : Mirrors s key (before.server i)) (written : Bool) {out : Option StepOut}
    (proposes : ∀ result, out = some result → ProposesOwn memberId i s result)
    (quick : ∀ last pins, key = last + 1 → (last, pins) ∈ s.log → pins.chosen = true →
      PLogWrapper.belongTo ((pins.acceptedValue.map (·.reqid)).getD 0) memberId = true → ∀ fast, allowed fast → i = fast)
    (opens : key = 1 ∨ (∃ last pins, key = last + 1 ∧ (last, pins) ∈ s.log ∧ pins.chosen = true) → opened) :
    ∃ after, Shadow allowed opened i key (s.propose written out).1 (s.propose written out).2 before after := by
  cases out with
  | none => exact shadow_rests mirrors rfl (.inl rfl)
  | some out =>
      unfold LogServer.propose
      dsimp only
      split
      · exact shadow_rests mirrors rfl (.inl rfl)
      · rename_i fine
        obtain ⟨learnerOnly, index, msg, count, grown, proposing, done⟩ := (proposes out rfl).resolve_left fine
        have code : out.code = 0 := not_not.mp fine
        have able (here : key = index) (asked : msg.type = .beginFastProp) (fast : Fin 3) (usable : allowed fast) : i = fast := by
          obtain ⟨last, pins, next, there, marked, mine⟩ := proposing.quick asked
          exact quick last pins (here.trans next) there marked mine fast usable
        split
        · exact shadow_rests mirrors rfl (filter_cached _ key)
        · split
          · exact proposal_shadow mirrors proposing able (fun here => opens (here ▸ proposing.opened)) done code rfl (.inl rfl) (.inl rfl)
          · refine proposal_shadow mirrors proposing able (fun here => opens (here ▸ proposing.opened)) done code rfl ?_ (.inr rfl)
            rw [proposed_max proposing done code]
            by_cases here : key = index
            · subst here
              exact (LogServer.cached_here out.alive).imp_right fun same => ⟨rfl, same⟩
            · exact .inl (LogServer.cached_elsewhere here)

-- Every operation of the server, at every index.
theorem perform_shadow (housed : Housed s) {key : Nat} (mirrors : Mirrors s key (before.server i)) (op : LogOp)
    (enters : ∀ m learnerOnly written, op = .message m learnerOnly written → key = m.index → ∀ fast, allowed fast →
      Reaches (Servers.act fast) before (before.handle i m.msg learnerOnly written))
    (quiet : ∀ m learnerOnly written, op = .message m learnerOnly written → key = m.index → Blank before →
      Blank (before.handle i m.msg learnerOnly written))
    (quick : ∀ last pins, key = last + 1 → (last, pins) ∈ s.log → pins.chosen = true →
      PLogWrapper.belongTo ((pins.acceptedValue.map (·.reqid)).getD 0) memberId = true → ∀ fast, allowed fast → i = fast)
    (opens : key = 1 ∨ (∃ last pins, key = last + 1 ∧ (last, pins) ∈ s.log ∧ pins.chosen = true) → opened) :
    ∃ after, Shadow allowed opened i key (s.perform i memberId op).1 (s.perform i memberId op).2 before after := by
  cases op with
  | message m learnerOnly written =>
      exact message_shadow housed mirrors m learnerOnly written memberId (enters m learnerOnly written rfl) (quiet m learnerOnly written rfl)
  | normalSet entry doFastAccpt learnerOnly written =>
      refine propose_shadow mirrors written (fun out done => ?_) quick opens
      exact normal_set_proposes housed ((asserting_some _ _ _).mp done).2
  | preemptSet entry learnerOnly written =>
      refine propose_shadow mirrors written (fun out done => ?_) quick opens
      exact preempt_set_proposes housed ((asserting_some _ _ _).mp done).2
  | tryRedoProp learnerOnly written => exact redo_shadow housed mirrors learnerOnly written memberId
  | lose => exact shadow_rests mirrors rfl (.inl rfl)

-- The cached proposer is always for an index of the log.
theorem handle_housed (housed : Housed s) (index : Nat) (written : Bool) (out : Option StepOut)
    (next : LogNext s.log (s.handle index written out).1.log) : Housed (s.handle index written out).1 := by
  refine ⟨next.formed, fun key state alive => ?_⟩
  have old : ∃ state, s.alive = some (key, state) := by
    cases out with
    | none => cases alive
    | some out =>
        have alive : s.recached index out.alive = some (key, state) := by
          rw [handle_some, LogServer.commit] at alive
          split at alive
          · exact alive
          · exact alive
        unfold LogServer.recached at alive
        split at alive
        · rename_i held
          obtain ⟨cached, known⟩ := Option.isSome_iff_exists.mp held
          obtain ⟨later, _, same⟩ := Option.map_eq_some_iff.mp alive
          obtain ⟨rfl, _⟩ := Prod.mk.inj same
          exact ⟨cached, (LogServer.cached_some known).1⟩
        · exact ⟨state, alive⟩
  obtain ⟨before, known⟩ := old
  obtain ⟨positive, bound⟩ := housed.below key before known
  exact ⟨positive, Nat.le_trans bound next.max⟩

theorem propose_housed (housed : Housed s) (written : Bool) (out : Option StepOut)
    (proposes : ∀ result, out = some result → ProposesOwn memberId i s result)
    (next : LogNext s.log (s.propose written out).1.log) : Housed (s.propose written out).1 := by
  refine ⟨next.formed, fun key state alive => ?_⟩
  cases out with
  | none => cases alive
  | some out =>
      unfold LogServer.propose at alive next ⊢
      dsimp only at alive next ⊢
      split at alive
      · cases alive
      · rename_i fine
        rw [if_neg fine] at next ⊢
        split at alive
        · rename_i lost
          rw [if_pos lost] at next ⊢
          exact housed.below key state (Option.filter_eq_some_iff.mp alive).1
        · rename_i stored
          rw [if_neg stored] at next ⊢
          split at alive
          · cases alive
          · rename_i absent
            rw [if_neg absent]
            obtain ⟨later, _, same⟩ := Option.map_eq_some_iff.mp alive
            obtain ⟨rfl, _⟩ := Prod.mk.inj same
            obtain ⟨learnerOnly, index, msg, count, grown, proposing, done⟩ := (proposes out rfl).resolve_left fine
            refine ⟨?_, Nat.le_refl _⟩
            rw [proposed_max proposing done (not_not.mp fine)]
            exact proposing.positive

theorem perform_housed (housed : Housed s) (op : LogOp) (small : LogServer.fits op = true) : Housed (s.perform i memberId op).1 := by
  have next := (LogServer.perform_performs i memberId s op housed.formed small).moved
  cases op with
  | message m learnerOnly written => exact handle_housed housed m.index written _ next
  | normalSet entry doFastAccpt learnerOnly written =>
      exact propose_housed housed written _ (fun out done => normal_set_proposes housed ((asserting_some _ _ _).mp done).2) next
  | preemptSet entry learnerOnly written =>
      have proposes (out : StepOut) (done : asserting (wrapperOk s.log) (PLogWrapper.preemptSet learnerOnly i entry s.log) = some out) :
          ProposesOwn memberId i s out := preempt_set_proposes housed ((asserting_some _ _ _).mp done).2
      exact propose_housed housed written _ proposes next
  | tryRedoProp learnerOnly written =>
      rw [LogServer.perform] at next ⊢
      split
      · exact housed
      · rename_i alive
        rw [alive] at next
        dsimp only at next
        split
        · exact housed
        · rename_i open_
          rw [if_neg open_] at next
          exact handle_housed housed _ written _ next
  | lose => exact ⟨next.formed, fun _ _ wrong => by cases wrong⟩

end Proposals

end PaxosStore.PaxosKv
