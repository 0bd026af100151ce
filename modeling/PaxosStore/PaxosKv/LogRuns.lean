import PaxosStore.PaxosKv.SlimLog
import PaxosStore.Consensus.Run

set_option autoImplicit false

namespace PaxosStore.PaxosKv

open PaxosStore.Consensus

-- One key at one server: the stored log and the cached proposer with its index.
structure LogServer where
  log : PaxosLog := []
  alive : Option (Nat × PInsAliveState) := none
deriving DecidableEq

inductive LogOp where
  | message (m : LogMessage) (learnerOnly written : Bool)
  | normalSet (entry : Entry) (doFastAccpt learnerOnly written : Bool)
  | preemptSet (entry : Entry) (learnerOnly written : Bool)
  | tryRedoProp (learnerOnly written : Bool)
  | lose
deriving DecidableEq

namespace LogServer

-- The cache gives out a state only for its own index and only until it is chosen.
def cached (s : LogServer) (index : Nat) : Option PInsAliveState :=
  s.alive.bind fun (key, state) => if key = index ∧ state.propState ≠ .chosen then some state else none

-- A log is stored if the step asks for it. The reply goes out after that.
def commit (s : LogServer) (out : StepOut) (written : Bool) (alive : Option (Nat × PInsAliveState)) : LogServer × Option LogMessage :=
  if out.code ≠ 0 ∨ out.write ∧ !written then ({ s with alive := alive }, none)
  else (⟨if out.write then out.log else s.log, alive⟩, out.rsp)

-- The state changes in memory whatever becomes of the write. A failed assertion
-- takes the process and its cache down.
def handle (s : LogServer) (index : Nat) (written : Bool) : Option StepOut → LogServer × Option LogMessage
  | none => ({ s with alive := none }, none)
  | some out =>
      s.commit out written (if (s.cached index).isSome then out.alive.map fun state => (index, state) else s.alive)

-- A new proposer is cached only after the write, and only if the key has none.
def propose (s : LogServer) (written : Bool) : Option StepOut → LogServer × Option LogMessage
  | none => ({ s with alive := none }, none)
  | some out =>
      if out.code ≠ 0 then ({ s with alive := none }, none)
      else if !written then
        ({ s with alive := s.alive.filter fun (key, _) => key ≠ getMaxIndex out.log }, none)
      else if s.alive.isSome then (⟨out.log, none⟩, none)
      else (⟨out.log, out.alive.map fun state => (getMaxIndex out.log, state)⟩, out.rsp)

def perform (selfId : Fin 3) (memberId : Nat) (s : LogServer) : LogOp → LogServer × Option LogMessage
  | .message m learnerOnly written =>
      s.handle m.index written <|
        asserting (wrapperOk s.log) (PLogWrapper.step learnerOnly selfId m (s.cached m.index) s.log)
  | .normalSet entry doFastAccpt learnerOnly written =>
      s.propose written <| asserting (wrapperOk s.log) (PLogWrapper.normalSet learnerOnly selfId memberId entry doFastAccpt s.log)
  | .preemptSet entry learnerOnly written =>
      s.propose written <| asserting (wrapperOk s.log) (PLogWrapper.preemptSet learnerOnly selfId entry s.log)
  | .tryRedoProp learnerOnly written =>
      match s.alive with
      | none => (s, none)
      | some (index, state) =>
          if state.propState = .chosen then (s, none)
          else s.handle index written <| asserting (wrapperOk s.log) (PLogWrapper.tryRedoProp learnerOnly selfId index state s.log)
  | .lose => ({ s with alive := none }, none)

-- Indexes have 64 bits.
def fits : LogOp → Bool
  | .message m _ _ => m.index < 2 ^ 64
  | _ => true

def act (selfId : Fin 3) (memberId : Nat) (s : LogServer) (op : LogOp) : Option LogServer :=
  if fits op then some (s.perform selfId memberId op).1 else none

-- What an operation does to the stored log, and what it may answer.
structure Performs (s : LogServer) (result : LogServer × Option LogMessage) : Prop where
  moved : LogNext s.log result.1.log
  answered : ∀ rsp, result.2 = some rsp → isAnswer rsp.msg.type = true → (∃ pins, (rsp.index, pins) ∈ s.log) ∨ getMaxIndex s.log < rsp.index

theorem performs_same (s : LogServer) (formed : LogFormed s.log) (alive : Option (Nat × PInsAliveState)) :
    Performs s ({ s with alive := alive }, none) :=
  ⟨next_refl s.log formed, fun _ wrong => by cases wrong⟩

theorem commit_performs (s : LogServer) (out : StepOut) (written : Bool) (alive : Option (Nat × PInsAliveState)) (formed : LogFormed s.log)
    (next : OutNext s.log out) : Performs s (s.commit out written alive) := by
  unfold commit
  split
  · exact performs_same s formed alive
  · rename_i fine
    have code : out.code = 0 := by
      by_contra wrong
      exact fine (.inl wrong)
    refine ⟨?_, next.answered⟩
    dsimp only
    split
    · exact next.moved code
    · exact next_refl s.log formed

theorem handle_performs (s : LogServer) (index : Nat) (written : Bool) (out : Option StepOut) (formed : LogFormed s.log)
    (next : ∀ result, out = some result → OutNext s.log result) : Performs s (s.handle index written out) := by
  cases out with
  | none => exact performs_same s formed none
  | some out => exact commit_performs s out written _ formed (next out rfl)

theorem propose_performs (s : LogServer) (written : Bool) (out : Option StepOut) (formed : LogFormed s.log)
    (next : ∀ result, out = some result → OutNext s.log result) : Performs s (s.propose written out) := by
  cases out with
  | none => exact performs_same s formed none
  | some out =>
      have moved := next out rfl
      unfold propose
      dsimp only
      split
      · exact performs_same s formed none
      · rename_i fine
        have code : out.code = 0 := by simpa using fine
        split
        · exact performs_same s formed _
        · split
          · exact ⟨moved.moved code, fun _ wrong => by cases wrong⟩
          · exact ⟨moved.moved code, moved.answered⟩

theorem perform_performs (selfId : Fin 3) (memberId : Nat) (s : LogServer) (op : LogOp) (formed : LogFormed s.log) (small : fits op = true) :
    Performs s (s.perform selfId memberId op) := by
  cases op with
  | message m learnerOnly written =>
      apply handle_performs s m.index written _ formed
      intro out done
      obtain ⟨_, done⟩ := (asserting_some _ _ _).mp done
      exact PLogWrapper.step_next learnerOnly selfId m _ s.log out formed (of_decide_eq_true small) done
  | normalSet entry doFastAccpt learnerOnly written =>
      apply propose_performs s written _ formed
      intro out done
      obtain ⟨_, done⟩ := (asserting_some _ _ _).mp done
      exact PLogWrapper.normal_set_next learnerOnly selfId memberId entry doFastAccpt s.log out formed done
  | preemptSet entry learnerOnly written =>
      apply propose_performs s written _ formed
      intro out done
      obtain ⟨_, done⟩ := (asserting_some _ _ _).mp done
      exact PLogWrapper.preempt_set_next learnerOnly selfId entry s.log out formed done
  | tryRedoProp learnerOnly written =>
      rw [perform]
      split
      · exact performs_same s formed s.alive
      · split
        · exact performs_same s formed s.alive
        · apply handle_performs s _ written _ formed
          intro out done
          obtain ⟨_, done⟩ := (asserting_some _ _ _).mp done
          exact PLogWrapper.try_redo_next learnerOnly selfId _ _ s.log out formed done
  | lose => exact performs_same s formed none

theorem run_next (selfId : Fin 3) (memberId : Nat) (s t : LogServer) (formed : LogFormed s.log) (run : Reaches (act selfId memberId) s t) :
    LogNext s.log t.log := by
  refine run_invariant (act selfId memberId) (fun u => LogNext s.log u.log) ?_ s t (next_refl s.log formed) run
  intro u op v known done
  rw [act] at done
  split at done
  · rename_i small
    cases done
    exact next_trans s.log u.log _ known (perform_performs selfId memberId u op known.formed small).moved
  · cases done

end LogServer

-- The stored log of a key never goes back: not in its last index, not in what an
-- instance has promised, accepted or learnt, and an index that has left the log
-- is never answered for again.
theorem log_only_grows (selfId : Fin 3) (memberId : Nat) (s t : LogServer) (first : Reaches (LogServer.act selfId memberId) {} s)
    (rest : Reaches (LogServer.act selfId memberId) s t) :
    getMaxIndex s.log ≤ getMaxIndex t.log ∧
    (∀ index old new, findIns s.log index = some old → findIns t.log index = some new → Later old new) ∧
    ∀ index, findIns s.log index ≠ none → findIns t.log index = none → ∀ u, Reaches (LogServer.act selfId memberId) t u →
      ∀ op, LogServer.fits op = true → ∀ rsp, (u.perform selfId memberId op).2 = some rsp → rsp.index = index →
        isAnswer rsp.msg.type = false := by
  have before := (LogServer.run_next selfId memberId {} s formed_nil first).formed
  have next := LogServer.run_next selfId memberId s t before rest
  refine ⟨next.max, fun index old new here there => ?_, fun index present absent u later op small rsp sent same => ?_⟩
  · have member := find_member s.log index old here
    rcases next.entries index new (find_member t.log index new there) with ⟨known, origin, grown⟩ | above
    · rw [entry_unique s.log before index old known member origin]
      exact grown
    · have bound := (index_bounds s.log before index old member).1
      omega
  · obtain ⟨old, here⟩ := Option.ne_none_iff_exists'.mp present
    have bound := Nat.le_trans (index_bounds s.log before index old (find_member s.log index old here)).1 next.max
    have onward := LogServer.run_next selfId memberId t u next.formed later
    by_contra answer
    have kind : isAnswer rsp.msg.type = true := by simpa using answer
    rcases (LogServer.perform_performs selfId memberId u op onward.formed small).answered rsp sent kind with ⟨pins, held⟩ | above
    · rw [same] at held
      rcases onward.entries index pins held with ⟨known, origin, _⟩ | high
      · obtain ⟨found, wrong⟩ := find_present t.log index known origin
        rw [absent] at wrong
        cases wrong
      · omega
    · have top := onward.max
      rw [same] at above
      omega

-- A promise for index 1, then one for index 5, which takes its place in the log.
def promisedTwice : List LogOp :=
  let prop (index num : Nat) : LogMessage := ⟨index, { type := .prop, fromId := 1, toId := some 0, proposedNum := num }⟩
  [.message (prop 1 65538) false true, .message (prop 5 65538) false true]

theorem dropped_index_unanswered : ∃ s t : LogServer, Reaches (LogServer.act 0 7) {} s ∧ Reaches (LogServer.act 0 7) s t ∧
    findIns s.log 1 ≠ none ∧ findIns t.log 1 = none ∧ getMaxIndex s.log ≤ getMaxIndex t.log ∧
    ∀ op, LogServer.fits op = true → ∀ rsp, (t.perform 0 7 op).2 = some rsp → rsp.index = 1 → isAnswer rsp.msg.type = false := by
  have first := reaches_end (LogServer.act 0 7) {} (promisedTwice.take 1) (by decide +kernel)
  have rest := reaches_end (LogServer.act 0 7) (endOf (LogServer.act 0 7) {} (promisedTwice.take 1)) (promisedTwice.drop 1) (by decide +kernel)
  have present : findIns (endOf (LogServer.act 0 7) {} (promisedTwice.take 1)).log 1 ≠ none := by decide +kernel
  have absent : findIns (endOf (LogServer.act 0 7) (endOf (LogServer.act 0 7) {} (promisedTwice.take 1)) (promisedTwice.drop 1)).log 1 = none := by
    decide +kernel
  obtain ⟨max, _, silent⟩ := log_only_grows 0 7 _ _ first rest
  exact ⟨_, _, first, rest, present, absent, max, silent 1 present absent _ (reaches_refl _ _)⟩

end PaxosStore.PaxosKv
