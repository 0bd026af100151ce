import PaxosStore.PaxosKv.RoundNumbers

set_option autoImplicit false

namespace PaxosStore.PaxosKv

open PaxosStore.Consensus

-- The stored proposal numbers only grow, and new instances are above all old ones.
def NumbersGrow (log next : PaxosLog) : Prop :=
  ∀ index pins, (index, pins) ∈ next → (∃ old, (index, old) ∈ log ∧ old.proposedNum ≤ pins.proposedNum) ∨ getMaxIndex log < index

theorem numbers_refl (log : PaxosLog) : NumbersGrow log log := fun _ pins here => .inl ⟨pins, here, Nat.le_refl _⟩

-- What PLogWrapper::Step says about the proposal numbers of the message's index.
inductive OutSpeaks (alive : Option PInsAliveState) (log : PaxosLog) (index : Nat) (out : StepOut) : Prop where
  | silent (quiet : ∀ sent, out.rsp = some sent → isRound sent.msg.type = false) (grows : NumbersGrow log out.log)
      (kept : KeepsState alive out.alive) : OutSpeaks alive log index out
  | round (old state : PInsAliveState) (pins stored : PaxosInstance) (reply : Message) (was : alive = some old)
      (is_ : out.alive = some state) (here : (index, pins) ∈ log) (numbers : Numbers old pins true reply.type state stored)
      (kind : isRound reply.type = true) (number : reply.proposedNum = state.propNumGen.get) (counted : Counted reply)
      (rsp : out.rsp = some ⟨index, reply⟩) (write : out.write = true)
      (there : ∀ other, (index, other) ∈ out.log → other = stored) (grows : NumbersGrow log out.log)
      (max : getMaxIndex out.log = getMaxIndex log) : OutSpeaks alive log index out

theorem round_number (old state : PInsAliveState) (pins stored : PaxosInstance) (type : MessageType) (kind : isRound type = true)
    (numbers : Numbers old pins true type state stored) :
    state.propNumGen.selfid = old.propNumGen.selfid ∧ stored.proposedNum = state.propNumGen.get ∧
      pins.proposedNum ≤ state.propNumGen.get := by
  cases numbers with
  | idle _ _ _ silent =>
      rw [silent] at kind
      cases kind
  | opens _ _ self above number => exact ⟨self, number, Nat.le_of_lt above⟩
  | goesOn _ _ self _ _ number => exact ⟨self, number.2, Nat.le_of_eq number.1⟩
  | quick _ _ self _ above number => exact ⟨self, number, Nat.le_of_lt above⟩

theorem instance_speaks (learnerOnly : Bool) (selfId : Fin 3) (m : LogMessage) (alive : Option PInsAliveState) (log grown : PaxosLog)
    (fresh : Bool) (out : StepOut) (formed : LogFormed log) (grows : Grown log grown m.index fresh)
    (done : stepInstance learnerOnly selfId m alive grown fresh = some out) : OutSpeaks alive log m.index out := by
  have enlarged : NumbersGrow log grown := by
    intro key pins here
    rcases grows.entries key pins here with old | ⟨rfl, _, isFresh⟩
    · exact .inl ⟨pins, old, Nat.le_refl _⟩
    · exact .inr (grows.above isFresh)
  unfold stepInstance at done
  split at done
  · cases done
  · rename_i pins found
    have here := find_member grown m.index pins found
    split at done
    · cases done
      exact .silent (fun _ wrong => by cases wrong) enlarged (keeps_refl alive)
    · obtain ⟨⟨write, rsp, state, stored⟩, stepped, rest⟩ := Option.bind_eq_some_iff.mp done
      obtain ⟨⟨cut, kept⟩, shrunk, same⟩ := Option.map_eq_some_iff.mp rest
      cases same
      obtain ⟨_, _, shrunk', _, included, last⟩ := shrink_run (setIns grown m.index stored)
      rw [shrunk] at shrunk'
      cases shrunk'
      have speaks := wrapper_speaks learnerOnly selfId m.msg _ state pins stored write rsp stepped
      have climbs (above : pins.proposedNum ≤ stored.proposedNum) : NumbersGrow log kept := by
        intro key held member
        rcases set_member grown m.index key stored held (included _ member) with ⟨_, there⟩ | ⟨rfl, rfl, _⟩
        · exact enlarged key held there
        · rcases enlarged m.index pins here with ⟨old, there, low⟩ | high
          · exact .inl ⟨old, there, Nat.le_trans low above⟩
          · exact .inr high
      cases speaks with
      | silent _ _ quiet above keeps =>
          refine .silent (fun sent known => ?_) (climbs above) ?_
          · obtain ⟨reply, answered, rfl⟩ := Option.map_eq_some_iff.mp known
            exact quiet reply answered
          · cases fresh with
            | true => exact keeps_refl alive
            | false => exact keeps
      | round old next reply was is_ numbers kind number counted =>
          cases fresh with
          | true => cases was
          | false =>
              have same := grows.same rfl
              subst same
              have low := round_number old next pins stored reply.type kind numbers
              refine .round old next pins stored reply was is_ here numbers kind number counted rfl rfl (fun other member => ?_)
                (climbs (by omega)) (by rw [last, set_max])
              rcases set_member grown m.index m.index stored other (included _ member) with ⟨wrong, _⟩ | ⟨_, equal, _⟩
              · exact absurd rfl wrong
              · exact equal

namespace PLogWrapper

theorem step_speaks (learnerOnly : Bool) (selfId : Fin 3) (m : LogMessage) (alive : Option PInsAliveState) (log : PaxosLog) (out : StepOut)
    (formed : LogFormed log) (done : step learnerOnly selfId m alive log = some out) : OutSpeaks alive log m.index out := by
  have invalid (done : stepInvalidIndex selfId m alive log = some out) : OutSpeaks alive log m.index out := by
    obtain ⟨same, chosen, kept, _⟩ := invalid_quiet selfId m alive log out done
    refine .silent (fun sent known => ?_) (by rw [same]; exact numbers_refl log) (by rw [kept]; exact keeps_refl alive)
    rw [chosen sent known]
    rfl
  unfold step at done
  split at done
  · split at done
    · exact invalid done
    · cases done
      exact .silent (fun _ wrong => by cases wrong) (numbers_refl log) (keeps_refl alive)
  · obtain ⟨found, known, rest⟩ := Option.bind_eq_some_iff.mp done
    cases found with
    | none => exact invalid rest
    | some pair =>
        obtain ⟨grown, fresh⟩ := pair
        exact instance_speaks learnerOnly selfId m alive log grown fresh out formed (instance_grown log grown m.index fresh known).1 rest

end PLogWrapper

-- Of two messages of rounds at one index the later one has the larger number,
-- or it is the ACCPT of the round that a PROP has opened.
def Follows (first later : LogMessage) : Prop :=
  first.index = later.index → isRound first.msg.type = true → isRound later.msg.type = true →
    first.msg.proposedNum < later.msg.proposedNum ∨
      first.msg.type = .prop ∧ later.msg.type = .accpt ∧ first.msg.proposedNum = later.msg.proposedNum

-- A stored log, a cached proposer and all that was sent, oldest first.
structure Spoken (selfId : Fin 3) (log : PaxosLog) (alive : Option (Nat × PInsAliveState)) (sent : List LogMessage) : Prop where
  formed : LogFormed log
  own : ∀ index state, alive = some (index, state) → state.propNumGen.selfid = selfid selfId
  waits : ∀ index state, alive = some (index, state) → state.propState = .waitPrepare → ∀ m, m ∈ sent → m.index = index →
    isAccept m.msg.type = true → m.msg.proposedNum < state.propNumGen.get
  below : ∀ m, m ∈ sent → isRound m.msg.type = true → m.index ≤ getMaxIndex log ∧
    ∀ pins, (m.index, pins) ∈ log → m.msg.proposedNum ≤ pins.proposedNum
  lawful : ∀ m, m ∈ sent → isRound m.msg.type = true → Owns selfId m.msg.proposedNum ∧ Counted m.msg
  ordered : sent.Pairwise Follows

theorem accept_round (type : MessageType) (kind : isAccept type = true) : isRound type = true := by
  simp only [isRound, kind, or_true, decide_true]

section Spoken

variable (selfId : Fin 3) (log : PaxosLog) (alive : Option (Nat × PInsAliveState)) (sent : List LogMessage)
  (spoken : Spoken selfId log alive sent)

include spoken

theorem spoken_lost : Spoken selfId log none sent where
  formed := spoken.formed
  own := fun _ _ wrong => by cases wrong
  waits := fun _ _ wrong => by cases wrong
  below := spoken.below
  lawful := spoken.lawful
  ordered := spoken.ordered

theorem spoken_log (next : PaxosLog) (formed : LogFormed next) (grows : NumbersGrow log next) (max : getMaxIndex log ≤ getMaxIndex next) :
    Spoken selfId next alive sent where
  formed := formed
  own := spoken.own
  waits := spoken.waits
  below := by
    intro m member kind
    obtain ⟨low, numbers⟩ := spoken.below m member kind
    refine ⟨Nat.le_trans low max, fun pins here => ?_⟩
    rcases grows m.index pins here with ⟨old, there, under⟩ | above
    · exact Nat.le_trans (numbers old there) under
    · omega
  lawful := spoken.lawful
  ordered := spoken.ordered

theorem spoken_quiet (rsp : Option LogMessage) (quiet : ∀ reply, rsp = some reply → isRound reply.msg.type = false) :
    Spoken selfId log alive (sent ++ rsp.toList) := by
  have old (m : LogMessage) (member : m ∈ sent ++ rsp.toList) (kind : isRound m.msg.type = true) : m ∈ sent := by
    rcases List.mem_append.mp member with old | new
    · exact old
    · rw [quiet m (Option.mem_toList.mp new)] at kind
      cases kind
  refine ⟨spoken.formed, spoken.own, fun index state here waiting m member same kind => ?_, fun m member kind => ?_, fun m member kind => ?_, ?_⟩
  · exact spoken.waits index state here waiting m (old m member (accept_round _ kind)) same kind
  · exact spoken.below m (old m member kind) kind
  · exact spoken.lawful m (old m member kind) kind
  · refine List.pairwise_append.mpr ⟨spoken.ordered, ?_, fun m _ reply new _ _ kind => ?_⟩
    · cases rsp with
      | none => exact List.Pairwise.nil
      | some reply => exact List.pairwise_singleton _ _
    · rw [quiet reply (Option.mem_toList.mp new)] at kind
      cases kind

end Spoken

section Proposer

variable (selfId : Fin 3) (log : PaxosLog) (index : Nat) (old : PInsAliveState) (sent : List LogMessage)
  (spoken : Spoken selfId log (some (index, old)) sent)

include spoken

theorem spoken_kept (next : Option PInsAliveState) (kept : KeepsState (some old) next) :
    Spoken selfId log (next.map fun state => (index, state)) sent where
  formed := spoken.formed
  own := by
    intro key state here
    obtain ⟨held, known, same⟩ := Option.map_eq_some_iff.mp here
    obtain ⟨rfl, rfl⟩ := Prod.mk.inj same
    obtain ⟨before, was, self, _⟩ := kept held known
    cases was
    exact self.trans (spoken.own index old rfl)
  waits := by
    intro key state here waiting m member same kind
    obtain ⟨held, known, equal⟩ := Option.map_eq_some_iff.mp here
    obtain ⟨rfl, rfl⟩ := Prod.mk.inj equal
    obtain ⟨before, was, _, still⟩ := kept held known
    cases was
    obtain ⟨waited, number⟩ := still waiting
    rw [number]
    exact spoken.waits index old rfl waited m member same kind
  below := spoken.below
  lawful := spoken.lawful
  ordered := spoken.ordered

variable (state : PInsAliveState) (pins stored : PaxosInstance) (type : MessageType) (kind : isRound type = true)
  (here : (index, pins) ∈ log) (numbers : Numbers old pins true type state stored)

include kind here numbers

-- What was sent before is at most what the instance has stored.
theorem round_unsaid : Spoken selfId log (some (index, state)) sent where
  formed := spoken.formed
  own := by
    intro key held same
    cases same
    exact (round_number old state pins stored type kind numbers).1.trans (spoken.own index old rfl)
  waits := by
    intro key held same waiting m member equal accept
    cases same
    have low := (spoken.below m member (accept_round _ accept)).2 pins (by rw [equal]; exact here)
    cases numbers with
    | idle _ _ _ silent =>
        rw [silent] at kind
        cases kind
    | opens _ _ _ above _ => exact Nat.lt_of_le_of_lt low above
    | goesOn _ _ _ _ accepting _ =>
        rw [accepting] at waiting
        cases waiting
    | quick _ _ _ accepting _ _ =>
        rw [accepting] at waiting
        cases waiting
  below := spoken.below
  lawful := spoken.lawful
  ordered := spoken.ordered

theorem round_said (next : PaxosLog) (reply : Message) (typed : reply.type = type) (formed : LogFormed next) (grows : NumbersGrow log next)
    (max : getMaxIndex log ≤ getMaxIndex next) (there : ∀ other, (index, other) ∈ next → other = stored)
    (number : reply.proposedNum = state.propNumGen.get) (counted : Counted reply) :
    Spoken selfId next (some (index, state)) (sent ++ [⟨index, reply⟩]) := by
  have unsaid := round_unsaid selfId log index old sent spoken state pins stored type kind here numbers
  have moved := spoken_log selfId log _ sent unsaid next formed grows max
  obtain ⟨self, kept, least⟩ := round_number old state pins stored type kind numbers
  have own := unsaid.own index state rfl
  have owned : Owns selfId reply.proposedNum := by
    rw [number, Owns, PropNumGen.get, own]
    exact compose_owner (selfid selfId) _ (selfid_small selfId).2
  refine ⟨formed, moved.own, fun key held same waiting m member equal accept => ?_, fun m member round => ?_, fun m member round => ?_, ?_⟩
  · rcases List.mem_append.mp member with before | new
    · exact moved.waits key held same waiting m before equal accept
    · -- The message of a state that waits for promises is no ACCPT.
      cases same
      rw [List.mem_singleton.mp new, typed] at accept
      cases numbers with
      | idle _ _ _ silent =>
          rw [silent] at kind
          cases kind
      | opens => cases accept
      | goesOn _ _ _ _ accepting _ =>
          rw [accepting] at waiting
          cases waiting
      | quick _ _ _ accepting _ _ =>
          rw [accepting] at waiting
          cases waiting
  · rcases List.mem_append.mp member with before | new
    · exact moved.below m before round
    · rw [List.mem_singleton.mp new]
      refine ⟨Nat.le_trans (index_bounds log spoken.formed index pins here).1 max, fun other placed => ?_⟩
      rw [there other placed, kept]
      exact Nat.le_of_eq number
  · rcases List.mem_append.mp member with before | new
    · exact spoken.lawful m before round
    · rw [List.mem_singleton.mp new]
      exact ⟨owned, counted⟩
  · refine List.pairwise_append.mpr ⟨spoken.ordered, List.pairwise_singleton _ _, fun m before later new same round _ => ?_⟩
    rw [List.mem_singleton.mp new] at same ⊢
    dsimp only at same ⊢
    have low := (spoken.below m before round).2 pins (by rw [same]; exact here)
    rw [number, typed]
    cases numbers with
    | idle _ _ _ silent =>
        rw [silent] at kind
        cases kind
    | opens _ _ _ above _ => exact .inl (Nat.lt_of_le_of_lt low above)
    | quick _ _ _ _ above _ => exact .inl (Nat.lt_of_le_of_lt low above)
    | goesOn _ _ _ prepared _ equal =>
        by_cases accept : isAccept m.msg.type = true
        · left
          rw [prepared.2]
          exact spoken.waits index old rfl prepared.1 m before same accept
        · have opened : m.msg.type = .prop := by simpa [isRound, accept] using round
          rcases Nat.lt_or_eq_of_le (Nat.le_trans low least) with less | equal
          · exact .inl less
          · exact .inr ⟨opened, rfl, equal⟩

end Proposer

-- A step of the cached proposer: its result may be stored and sent, only stored, or lost.
structure Continues (selfId : Fin 3) (log : PaxosLog) (index : Nat) (out : StepOut) (sent : List LogMessage) : Prop where
  lost : Spoken selfId log (out.alive.map fun state => (index, state)) sent
  stored : LogNext log out.log → Spoken selfId out.log (out.alive.map fun state => (index, state)) (sent ++ out.rsp.toList)
  unwritten : out.write = false → Spoken selfId log (out.alive.map fun state => (index, state)) (sent ++ out.rsp.toList)

theorem proposer_continues (selfId : Fin 3) (log : PaxosLog) (index : Nat) (old : PInsAliveState) (out : StepOut) (sent : List LogMessage)
    (spoken : Spoken selfId log (some (index, old)) sent) (speaks : OutSpeaks (some old) log index out) :
    Continues selfId log index out sent := by
  cases speaks with
  | silent quiet grows kept =>
      have same := spoken_kept selfId log index old sent spoken out.alive kept
      have heard := spoken_quiet selfId log _ sent same out.rsp quiet
      exact ⟨same, fun next => spoken_log selfId log _ _ heard out.log next.formed grows next.max, fun _ => heard⟩
  | round before state pins stored reply was is_ here numbers kind number counted rsp write there grows max =>
      cases was
      refine ⟨?_, fun next => ?_, fun wrong => by rw [write] at wrong; cases wrong⟩
      · rw [is_]
        exact round_unsaid selfId log index old sent spoken state pins stored reply.type kind here numbers
      · rw [is_, rsp]
        exact round_said selfId log index old sent spoken state pins stored reply.type kind here numbers out.log reply rfl next.formed grows
          next.max there number counted

theorem speaks_grow (alive : Option PInsAliveState) (log : PaxosLog) (index : Nat) (out : StepOut) (speaks : OutSpeaks alive log index out) :
    NumbersGrow log out.log := by
  cases speaks with
  | silent _ grows _ => exact grows
  | round _ _ _ _ _ _ _ _ _ _ _ _ _ _ _ grows _ => exact grows

-- A silent step could be one of any index, and a round does not move the last one.
theorem speaks_last (alive : Option PInsAliveState) (log : PaxosLog) (out : StepOut) (speaks : OutSpeaks alive log (getMaxIndex log) out) :
    OutSpeaks alive log (getMaxIndex out.log) out := by
  cases speaks with
  | silent quiet grows kept => exact .silent quiet grows kept
  | round old state pins stored reply was is_ here numbers kind number counted rsp write there grows max =>
      rw [← max] at here rsp there
      exact .round old state pins stored reply was is_ here numbers kind number counted rsp write there grows max

-- Without a cached proposer nothing is sent in a round.
theorem no_proposer_silent (log : PaxosLog) (index : Nat) (out : StepOut) (speaks : OutSpeaks none log index out) :
    (∀ reply, out.rsp = some reply → isRound reply.msg.type = false) ∧ NumbersGrow log out.log ∧ out.alive = none := by
  cases speaks with
  | silent quiet grows kept =>
      refine ⟨quiet, grows, ?_⟩
      cases known : out.alive with
      | none => rfl
      | some state =>
          obtain ⟨_, wrong, _⟩ := kept state known
          cases wrong
  | round _ _ _ _ _ wrong => cases wrong

namespace LogServer

-- The server with the history of what it has sent.
def speak (selfId : Fin 3) (memberId : Nat) (s : LogServer × List LogMessage) (op : LogOp) : Option (LogServer × List LogMessage) :=
  if fits op then some ((s.1.perform selfId memberId op).1, s.2 ++ (s.1.perform selfId memberId op).2.toList) else none

def Sound (selfId : Fin 3) (s : LogServer) (sent : List LogMessage) : Prop := Spoken selfId s.log s.alive sent

theorem cached_alive (s : LogServer) (index : Nat) (state : PInsAliveState) (known : s.cached index = some state) : s.alive = some (index, state) := by
  obtain ⟨⟨key, held⟩, here, chosen⟩ := Option.bind_eq_some_iff.mp known
  dsimp only at chosen
  split at chosen
  · rename_i fine
    cases chosen
    rw [here, fine.1]
  · cases chosen

theorem commit_sound (selfId : Fin 3) (s : LogServer) (sent : List LogMessage) (out : StepOut) (written : Bool) (alive : Option (Nat × PInsAliveState))
    (lost : Spoken selfId s.log alive sent) (stored : out.code = 0 → Spoken selfId out.log alive (sent ++ out.rsp.toList))
    (unwritten : out.write = false → Spoken selfId s.log alive (sent ++ out.rsp.toList)) :
    Sound selfId (s.commit out written alive).1 (sent ++ (s.commit out written alive).2.toList) := by
  unfold commit
  split
  · simpa [Sound] using lost
  · rename_i fine
    have code : out.code = 0 := by
      by_contra wrong
      exact fine (.inl wrong)
    dsimp only [Sound]
    cases write : out.write with
    | true => exact stored code
    | false => exact unwritten write

-- A Set steps a proposer of its own on the last index of the log, which it may have added.
def SetSpeaks (selfId : Fin 3) (log : PaxosLog) (out : StepOut) : Prop :=
  ∃ base old, NumbersGrow log base ∧ getMaxIndex log ≤ getMaxIndex base ∧ LogFormed base ∧ old.propNumGen.selfid = selfid selfId ∧
    old.propState = .nil ∧ OutSpeaks (some old) base (getMaxIndex out.log) out ∧ LogNext base out.log

theorem filter_alive (alive : Option (Nat × PInsAliveState)) (keep : Nat × PInsAliveState → Bool) :
    alive.filter keep = none ∨ alive.filter keep = alive := by
  cases alive with
  | none => exact .inl rfl
  | some held =>
      rw [Option.filter]
      split
      · exact .inr rfl
      · exact .inl rfl

section Steps

variable (selfId : Fin 3) (memberId : Nat) (s : LogServer) (sent : List LogMessage) (sound : Sound selfId s sent)

include sound

theorem handle_sound (index : Nat) (written : Bool) (out : Option StepOut)
    (speaks : ∀ result, out = some result → OutNext s.log result ∧ OutSpeaks (s.cached index) s.log index result) :
    Sound selfId (s.handle index written out).1 (sent ++ (s.handle index written out).2.toList) := by
  cases out with
  | none => simpa [handle, Sound] using spoken_lost selfId s.log s.alive sent sound
  | some out =>
      obtain ⟨next, spoke⟩ := speaks out rfl
      unfold handle
      cases known : s.cached index with
      | none =>
          rw [known] at spoke
          obtain ⟨quiet, grows, _⟩ := no_proposer_silent s.log index out spoke
          have heard := spoken_quiet selfId s.log s.alive sent sound out.rsp quiet
          exact commit_sound selfId s sent out written s.alive sound
            (fun code => spoken_log selfId s.log s.alive _ heard out.log (next.moved code).formed grows (next.moved code).max) (fun _ => heard)
      | some old =>
          rw [known] at spoke
          have here := cached_alive s index old known
          have spoken : Spoken selfId s.log (some (index, old)) sent := by
            rw [← here]
            exact sound
          have goes := proposer_continues selfId s.log index old out sent spoken spoke
          exact commit_sound selfId s sent out written _ goes.lost (fun code => goes.stored (next.moved code)) goes.unwritten

theorem propose_sound (written : Bool) (out : Option StepOut)
    (speaks : ∀ result, out = some result → result.code = 0 → SetSpeaks selfId s.log result) :
    Sound selfId (s.propose written out).1 (sent ++ (s.propose written out).2.toList) := by
  cases out with
  | none => simpa [propose, Sound] using spoken_lost selfId s.log s.alive sent sound
  | some out =>
      unfold propose
      dsimp only
      split
      · simpa [Sound] using spoken_lost selfId s.log s.alive sent sound
      · rename_i fine
        obtain ⟨base, old, grows, max, formed, self, state, spoke, next⟩ := speaks out rfl (by simpa using fine)
        have grown := spoken_log selfId s.log s.alive sent sound base formed grows max
        have ready : Spoken selfId base (some (getMaxIndex out.log, old)) sent :=
          { formed := formed
            own := fun _ _ same => by cases same; exact self
            waits := fun _ _ same waiting => by cases same; rw [state] at waiting; cases waiting
            below := grown.below
            lawful := grown.lawful
            ordered := grown.ordered }
        have goes := proposer_continues selfId base _ old out sent ready spoke
        split
        · simp only [Sound, Option.toList_none, List.append_nil]
          have kept := spoken_lost selfId s.log s.alive sent sound
          rcases filter_alive s.alive _ with filtered | filtered
          · rw [filtered]
            exact kept
          · rw [filtered]
            exact sound
        · split
          · simp only [Sound, Option.toList_none, List.append_nil]
            exact spoken_lost selfId out.log s.alive sent (spoken_log selfId base s.alive sent grown out.log next.formed
              (speaks_grow (some old) base _ out spoke) next.max)
          · exact goes.stored next

end Steps

-- The step inside a Set, and what is left of it if it fails.
theorem step_set_speaks (learnerOnly : Bool) (selfId : Fin 3) (log base : PaxosLog) (index : Nat) (msg : Message) (propCnt : Nat)
    (stepped out : StepOut) (formed : LogFormed base) (grows : NumbersGrow log base) (max : getMaxIndex log ≤ getMaxIndex base)
    (last : getMaxIndex base = index) (small : index < 2 ^ 64)
    (ran : PLogWrapper.step learnerOnly selfId ⟨index, msg⟩ (some (.create (selfid selfId) propCnt)) base = some stepped)
    (done : (if stepped.code ≠ 0 then some { stepped with rsp := none, alive := none } else asserting stepped.rsp.isSome (some stepped)) = some out)
    (fine : out.code = 0) : SetSpeaks selfId log out := by
  have same : out = stepped := by
    split at done
    · rename_i wrong
      cases done
      exact absurd fine wrong
    · obtain ⟨_, equal⟩ := (asserting_some _ _ _).mp done
      cases equal
      rfl
  subst same last
  have next := PLogWrapper.step_next learnerOnly selfId ⟨getMaxIndex base, msg⟩ _ base out formed small ran
  have spoke := PLogWrapper.step_speaks learnerOnly selfId ⟨getMaxIndex base, msg⟩ _ base out formed ran
  exact ⟨base, _, grows, max, formed, rfl, rfl, speaks_last _ base out spoke, next.moved fine⟩

theorem normal_set_speaks (learnerOnly : Bool) (selfId : Fin 3) (memberId : Nat) (entry : Entry) (doFastAccpt : Bool) (log : PaxosLog)
    (out : StepOut) (formed : LogFormed log) (done : PLogWrapper.normalSet learnerOnly selfId memberId entry doFastAccpt log = some out)
    (fine : out.code = 0) : SetSpeaks selfId log out := by
  obtain ⟨_, rest⟩ := (asserting_some _ _ _).mp done
  split at rest
  · cases rest
    cases fine
  · rename_i settled
    obtain ⟨positive, rest⟩ := (asserting_some _ _ _).mp rest
    obtain ⟨stepped, ran, rest⟩ := Option.bind_eq_some_iff.mp rest
    obtain ⟨added, small⟩ := PLogWrapper.append_next log _ formed (by simpa using settled) rfl positive
    refine step_set_speaks learnerOnly selfId log _ _ _ 0 stepped out added.formed (fun index pins here => ?_) added.max
      (max_append log _ {}) small ran rest fine
    rcases added.entries index pins here with ⟨old, there, _⟩ | above
    · have same := entry_unique _ added.formed index old pins (List.mem_append_left _ there) here
      exact .inl ⟨old, there, by rw [same]⟩
    · exact .inr above

theorem preempt_set_speaks (learnerOnly : Bool) (selfId : Fin 3) (entry : Entry) (log : PaxosLog) (out : StepOut) (formed : LogFormed log)
    (done : PLogWrapper.preemptSet learnerOnly selfId entry log = some out) (fine : out.code = 0) : SetSpeaks selfId log out := by
  obtain ⟨_, rest⟩ := (asserting_some _ _ _).mp done
  split at rest
  · cases rest
    cases fine
  · rename_i index ins last
    have top : getMaxIndex log = index := by
      rw [getMaxIns] at last
      simp [getMaxIndex, last]
    subst top
    split at rest
    · cases rest
      cases fine
    · obtain ⟨_, rest⟩ := (asserting_some _ _ _).mp rest
      obtain ⟨gen, _, rest⟩ := Option.bind_eq_some_iff.mp rest
      obtain ⟨stepped, ran, rest⟩ := Option.bind_eq_some_iff.mp rest
      have small := (formed.entries _ ins (List.mem_of_getLast? last)).2.1
      exact step_set_speaks learnerOnly selfId log log _ _ _ stepped out formed (numbers_refl log) (Nat.le_refl _) rfl small ran rest fine

theorem try_redo_speaks (learnerOnly : Bool) (selfId : Fin 3) (index : Nat) (alive : PInsAliveState) (log : PaxosLog) (out : StepOut)
    (formed : LogFormed log) (done : PLogWrapper.tryRedoProp learnerOnly selfId index alive log = some out) :
    OutSpeaks (some alive) log index out := by
  have refused (code : Int) : OutSpeaks (some alive) log index ⟨code, none, log, some alive, false⟩ :=
    .silent (fun _ wrong => by cases wrong) (numbers_refl log) (keeps_refl _)
  obtain ⟨_, rest⟩ := (asserting_some _ _ _).mp done
  split at rest
  · cases rest
    exact refused 1
  · rename_i last ins _
    split at rest
    · cases rest
      exact refused 1
    · obtain ⟨same, rest⟩ := (asserting_some _ _ _).mp rest
      subst same
      obtain ⟨gen, _, rest⟩ := Option.bind_eq_some_iff.mp rest
      dsimp only at rest
      split at rest
      · exact PLogWrapper.step_speaks learnerOnly selfId _ _ log out formed rest
      · split at rest
        · split at rest
          · cases rest
            exact refused (-21)
          · exact PLogWrapper.step_speaks learnerOnly selfId _ _ log out formed rest
        · cases rest

theorem perform_sound (selfId : Fin 3) (memberId : Nat) (s : LogServer) (sent : List LogMessage) (op : LogOp) (sound : Sound selfId s sent)
    (small : fits op = true) : Sound selfId (s.perform selfId memberId op).1 (sent ++ (s.perform selfId memberId op).2.toList) := by
  have formed := sound.formed
  have silent : Sound selfId s (sent ++ (none : Option LogMessage).toList) := by simpa [Sound] using sound
  cases op with
  | message m learnerOnly written =>
      apply handle_sound selfId s sent sound m.index written
      intro out done
      obtain ⟨_, done⟩ := (asserting_some _ _ _).mp done
      exact ⟨PLogWrapper.step_next learnerOnly selfId m _ s.log out formed (of_decide_eq_true small) done,
        PLogWrapper.step_speaks learnerOnly selfId m _ s.log out formed done⟩
  | normalSet entry doFastAccpt learnerOnly written =>
      apply propose_sound selfId s sent sound written
      intro out done fine
      obtain ⟨_, done⟩ := (asserting_some _ _ _).mp done
      exact normal_set_speaks learnerOnly selfId memberId entry doFastAccpt s.log out formed done fine
  | preemptSet entry learnerOnly written =>
      apply propose_sound selfId s sent sound written
      intro out done fine
      obtain ⟨_, done⟩ := (asserting_some _ _ _).mp done
      exact preempt_set_speaks learnerOnly selfId entry s.log out formed done fine
  | tryRedoProp learnerOnly written =>
      rw [perform]
      split
      · exact silent
      · rename_i index state here
        split
        · exact silent
        · rename_i open_
          have cached : s.cached index = some state := by simp [LogServer.cached, here, open_]
          apply handle_sound selfId s sent sound index written
          intro out done
          obtain ⟨_, done⟩ := (asserting_some _ _ _).mp done
          refine ⟨PLogWrapper.try_redo_next learnerOnly selfId _ _ s.log out formed done, ?_⟩
          rw [cached]
          exact try_redo_speaks learnerOnly selfId index state s.log out formed done
  | lose => simpa [Sound, perform] using spoken_lost selfId s.log s.alive sent sound

theorem run_sound (selfId : Fin 3) (memberId : Nat) (s : LogServer × List LogMessage) (run : Reaches (speak selfId memberId) ({}, []) s) :
    Sound selfId s.1 s.2 := by
  refine run_invariant (speak selfId memberId) (fun u => Sound selfId u.1 u.2) ?_ ({}, []) s ?_ run
  · intro u op v sound done
    rw [speak] at done
    split at done
    · rename_i small
      cases done
      exact perform_sound selfId memberId u.1 u.2 op sound small
    · cases done
  · exact
      { formed := formed_nil
        own := fun _ _ wrong => by cases wrong
        waits := fun _ _ wrong => by cases wrong
        below := fun _ wrong => by cases wrong
        lawful := fun _ wrong => by cases wrong
        ordered := List.Pairwise.nil }

end LogServer

-- What a server sends for one index in any run: its own numbers, counted from 1
-- except in a fast round, larger from round to round, and with one value each.
structure UniqueNumbers (selfId : Fin 3) (sent : List LogMessage) : Prop where
  lawful : ∀ m, m ∈ sent → isRound m.msg.type = true → Owns selfId m.msg.proposedNum ∧ Counted m.msg
  ordered : sent.Pairwise Follows
  valued : ∀ left right, left ∈ sent → right ∈ sent → left.index = right.index → isAccept left.msg.type = true →
    isAccept right.msg.type = true → left.msg.proposedNum = right.msg.proposedNum → left.msg.acceptedValue = right.msg.acceptedValue

theorem proposal_numbers_unique (selfId : Fin 3) (memberId : Nat) (s : LogServer) (sent : List LogMessage)
    (run : Reaches (LogServer.speak selfId memberId) ({}, []) (s, sent)) : UniqueNumbers selfId sent := by
  have sound : LogServer.Sound selfId s sent := LogServer.run_sound selfId memberId (s, sent) run
  refine ⟨sound.lawful, sound.ordered, fun left right before after same accepts again equal => ?_⟩
  have apart (first later : LogMessage) (follows : Follows first later) (same : first.index = later.index)
      (accepts : isAccept first.msg.type = true) (again : isAccept later.msg.type = true)
      (equal : first.msg.proposedNum = later.msg.proposedNum) : first.msg.acceptedValue = later.msg.acceptedValue := by
    rcases follows same (accept_round _ accepts) (accept_round _ again) with less | ⟨opened, _⟩
    · omega
    · rw [opened] at accepts
      cases accepts
  obtain ⟨i, inside, rfl⟩ := List.getElem_of_mem before
  obtain ⟨j, within, rfl⟩ := List.getElem_of_mem after
  have ordered := List.pairwise_iff_getElem.mp sound.ordered
  rcases Nat.lt_trichotomy i j with low | rfl | high
  · exact apart _ _ (ordered i j inside within low) same accepts again equal
  · rfl
  · exact (apart _ _ (ordered j i within inside high) same.symm again accepts equal.symm).symm

-- A round that fails to be written, the loss of its state, and a new round at the same index.
def retried : List LogOp :=
  [.normalSet ⟨2 ^ 48 + 1, [1]⟩ true false true, .lose, .preemptSet ⟨2 ^ 48 + 2, [2]⟩ false false, .preemptSet ⟨2 ^ 48 + 3, [3]⟩ false true,
   .message ⟨1, { type := .propRsp, fromId := 1, toId := some 0, proposedNum := 131073, promisedNum := some 131073 }⟩ false true]

theorem retried_numbers_unique : UniqueNumbers 0 (endOf (LogServer.speak 0 1) ({}, []) retried).2 ∧
    (endOf (LogServer.speak 0 1) ({}, []) retried).2.map (fun m => (m.msg.type, m.msg.proposedNum)) =
      [(.prop, 65537), (.prop, 131073), (.accpt, 131073)] :=
  ⟨proposal_numbers_unique 0 1 _ _ (reaches_end (LogServer.speak 0 1) ({}, []) retried (by decide +kernel)), by decide +kernel⟩

end PaxosStore.PaxosKv
