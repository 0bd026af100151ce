import PaxosStore.PaxosKv.ProposerSteps
import PaxosStore.PaxosKv.LogRuns

set_option autoImplicit false

namespace PaxosStore.PaxosKv

open PaxosStore.Consensus PInsAliveState

def isAccept (type : MessageType) : Bool := type = .accpt ∨ type = .fastAccpt

-- What a proposer sends: PROP opens an ordinary round, ACCPT goes on with it,
-- and FAST_ACCPT is a round of its own.
def isRound (type : MessageType) : Bool := type = .prop ∨ isAccept type

-- What the state does with its number, by the type of the reply.
inductive Numbers (alive : PInsAliveState) (pins : PaxosInstance) : Bool → MessageType → PInsAliveState → PaxosInstance → Prop where
  | idle (write : Bool) (type : MessageType) (next : PInsAliveState) (silent : isRound type = false)
      (self : next.propNumGen.selfid = alive.propNumGen.selfid)
      (waiting : next.propState = .waitPrepare → alive.propState = .waitPrepare ∧ next.propNumGen = alive.propNumGen) :
      Numbers alive pins write type next pins
  | opens (next : PInsAliveState) (stored : PaxosInstance) (self : next.propNumGen.selfid = alive.propNumGen.selfid)
      (above : pins.proposedNum < next.propNumGen.get) (number : stored.proposedNum = next.propNumGen.get) :
      Numbers alive pins true .prop next stored
  | goesOn (next : PInsAliveState) (stored : PaxosInstance) (self : next.propNumGen.selfid = alive.propNumGen.selfid)
      (prepared : alive.propState = .waitPrepare ∧ next.propNumGen = alive.propNumGen) (state : next.propState = .waitAccept)
      (number : pins.proposedNum = next.propNumGen.get ∧ stored.proposedNum = next.propNumGen.get) :
      Numbers alive pins true .accpt next stored
  | quick (next : PInsAliveState) (stored : PaxosInstance) (self : next.propNumGen.selfid = alive.propNumGen.selfid)
      (state : next.propState = .waitAccept) (above : pins.proposedNum < next.propNumGen.get)
      (number : stored.proposedNum = next.propNumGen.get) :
      Numbers alive pins true .fastAccpt next stored

section Alive

variable (origin alive next : PInsAliveState) (pins stored : PaxosInstance) (write : Bool) (type : MessageType) (msg : Message)

-- A round is opened with a number of the same server; where the state came from does not matter.
theorem prepare_numbers (same : alive.propNumGen.selfid = origin.propNumGen.selfid)
    (done : alive.enterPrepare pins = some (write, type, next, stored)) : Numbers origin pins write type next stored := by
  have written : type = .prop → write = true := by
    rintro rfl
    unfold enterPrepare at done
    dsimp only at done
    split at done
    · cases done
    · obtain ⟨_, _, rest⟩ := Option.bind_eq_some_iff.mp done
      obtain ⟨_, _, rest⟩ := Option.bind_eq_some_iff.mp rest
      obtain ⟨_, rest⟩ := (asserting_some _ _ _).mp rest
      obtain ⟨_, _, rest⟩ := Option.bind_eq_some_iff.mp rest
      obtain ⟨_, kept⟩ := (asserting_some _ _ _).mp rest
      cases kept
      rfl
  rcases prepare_spec alive next pins stored write type done with ⟨rfl, rfl, state, gen, _, _⟩ | ⟨rfl, _, self, above, _, _, _, rfl⟩
  · exact .idle write .noop next rfl (by rw [gen, same]) (fun wrong => by rw [state] at wrong; cases wrong)
  · rw [written rfl]
    exact .opens next _ (self.trans same) above rfl

theorem accept_numbers (prepared : origin.propState = .waitPrepare) (same : alive.propNumGen = origin.propNumGen)
    (number : pins.proposedNum = alive.propNumGen.get) (done : alive.enterAccept pins = some (write, type, next, stored)) :
    Numbers origin pins write type next stored := by
  have written : type = .accpt → write = true := by
    rintro rfl
    obtain ⟨⟨state, waiting, later⟩, _, rest⟩ := Option.bind_eq_some_iff.mp done
    dsimp only at rest
    split at rest
    · rcases prepare_spec _ _ _ _ _ _ rest with ⟨wrong, _⟩ | ⟨wrong, _⟩
      · cases wrong
      · cases wrong
    · cases rest
      rfl
  rcases accept_spec alive next pins stored write type done with ⟨state, again⟩ | ⟨rfl, value, _, _, rfl, rfl⟩
  · exact prepare_numbers origin _ next pins stored write type (congrArg _ same) again
  · rw [written rfl]
    exact .goesOn _ _ (congrArg _ same) ⟨prepared, same⟩ rfl ⟨number, number⟩

theorem prop_rsp_numbers (done : alive.stepPropRsp msg pins = some (write, type, next, stored)) :
    Numbers alive pins write type next stored := by
  obtain ⟨_, rest⟩ := (asserting_some _ _ _).mp done
  split at rest
  · cases rest
    exact .idle _ _ _ rfl rfl (fun state => ⟨state, rfl⟩)
  · rename_i current
    obtain ⟨waiting, number⟩ := not_or.mp current
    have waiting : alive.propState = .waitPrepare := not_not.mp waiting
    have number : pins.proposedNum = msg.proposedNum := not_not.mp number
    obtain ⟨⟨state, middle⟩, stepped, rest⟩ := Option.bind_eq_some_iff.mp rest
    obtain ⟨⟨write', type', next', stored'⟩, entered, rest⟩ := Option.bind_eq_some_iff.mp rest
    obtain ⟨_, kept⟩ := (asserting_some _ _ _).mp rest
    cases kept
    split at stepped
    · obtain ⟨_, redo⟩ := (asserting_some _ _ _).mp stepped
      cases redo
      exact prepare_numbers alive alive next pins stored write type rfl entered
    · rename_i same
      have same : alive.propNumGen.get = msg.proposedNum := not_not.mp same
      obtain ⟨_, stepped⟩ := (asserting_some _ _ _).mp stepped
      obtain ⟨votes, _, stepped⟩ := Option.bind_eq_some_iff.mp stepped
      obtain ⟨taken, hint, result⟩ := Option.map_eq_some_iff.mp stepped
      have gen : taken.propNumGen = alive.propNumGen := by
        rcases hint_spec _ taken _ _ hint with ⟨rfl, _⟩ | ⟨_, _, rfl⟩
        · rfl
        · rfl
      split at result
      · cases result
        exact prepare_numbers alive middle next pins stored write type (congrArg _ gen) entered
      · split at result
        · cases result
          exact accept_numbers alive middle next pins stored write type waiting gen (by rw [gen]; exact number.trans same.symm) entered
        · cases result
          cases entered
          exact .idle _ _ _ rfl (congrArg _ gen) (fun _ => ⟨waiting, gen⟩)

theorem accpt_rsp_numbers (done : alive.stepAccptRsp msg pins = some (write, type, next, stored)) :
    Numbers alive pins write type next stored := by
  obtain ⟨_, rest⟩ := (asserting_some _ _ _).mp done
  split at rest
  · cases rest
    exact .idle _ _ _ rfl rfl (fun state => ⟨state, rfl⟩)
  · obtain ⟨_, rest⟩ := (asserting_some _ _ _).mp rest
    obtain ⟨⟨state, middle⟩, stepped, rest⟩ := Option.bind_eq_some_iff.mp rest
    obtain ⟨_, rest⟩ := (asserting_some _ _ _).mp rest
    obtain ⟨⟨write', type', last, stored'⟩, entered, result⟩ := Option.map_eq_some_iff.mp rest
    cases result
    obtain ⟨_, shape, verdict⟩ := accept_rsp_spec alive middle msg.fromId _ state stepped
    have same : middle.propNumGen = alive.propNumGen := by rw [shape]
    -- The hint for later rounds is not a number yet.
    have hinted (num : Nat) (numbers : Numbers alive pins write type last stored) :
        Numbers alive pins write type { last with maxHintNum := num } stored := by
      cases numbers with
      | idle _ _ _ silent self waiting => exact .idle write type _ silent self waiting
      | opens _ _ self above number => exact .opens _ stored self above number
      | goesOn _ _ self prepared state number => exact .goesOn _ stored self prepared state number
      | quick _ _ self state above number => exact .quick _ stored self state above number
    apply hinted
    rcases verdict with rfl | ⟨rfl, _⟩ | rfl
    · exact prepare_numbers alive middle last pins stored write type (congrArg _ same) entered
    · cases entered
      exact .idle _ _ _ rfl (congrArg _ same) (fun wrong => by cases wrong)
    · cases entered
      exact .idle _ _ _ rfl (congrArg _ same) (fun wrong => by cases wrong)

theorem try_numbers (done : alive.stepTry msg pins = some (write, type, next, stored)) : Numbers alive pins write type next stored := by
  unfold stepTry at done
  split at done
  · cases done
  · obtain ⟨⟨state, middle⟩, stepped, rest⟩ := Option.bind_eq_some_iff.mp done
    obtain ⟨gen, updated, result⟩ := Option.map_eq_some_iff.mp stepped
    cases result
    obtain ⟨⟨write', type', last, stored'⟩, entered, rest⟩ := Option.bind_eq_some_iff.mp rest
    obtain ⟨_, kept⟩ := (asserting_some _ _ _).mp rest
    cases kept
    have self := (PropNumGen.update_spec _ gen _ updated).1
    rw [updatePropState] at entered
    exact prepare_numbers alive _ next pins stored write type self entered

theorem begin_numbers (done : alive.stepBegin msg pins = some (write, type, next, stored)) : Numbers alive pins write type next stored := by
  obtain ⟨_, rest⟩ := (asserting_some _ _ _).mp done
  cases carried : msg.acceptedValue with
  | none => simp [carried] at rest
  | some value =>
      simp only [carried] at rest
      split at rest
      · cases rest
        exact .idle _ _ _ rfl rfl (fun state => ⟨state, rfl⟩)
      · obtain ⟨_, rest⟩ := (asserting_some _ _ _).mp rest
        obtain ⟨⟨state, middle⟩, stepped, rest⟩ := Option.bind_eq_some_iff.mp rest
        obtain ⟨_, stepped⟩ := (asserting_some _ _ _).mp stepped
        obtain ⟨gen, updated, stepped⟩ := Option.bind_eq_some_iff.mp stepped
        obtain ⟨_, result⟩ := (asserting_some _ _ _).mp stepped
        cases result
        obtain ⟨⟨firstWrite, firstType, waiting, promised⟩, entered, rest⟩ := Option.bind_eq_some_iff.mp rest
        obtain ⟨⟨_, kind, _⟩, rest⟩ := (asserting_some _ _ _).mp rest
        have self := (PropNumGen.update_spec _ gen _ updated).1
        have first := prepare_numbers alive _ waiting pins promised firstWrite firstType self entered
        split at rest
        · obtain ⟨⟨lastWrite, lastType, last, stored'⟩, accepted, rest⟩ := Option.bind_eq_some_iff.mp rest
          obtain ⟨⟨wrote, lastKind, _⟩, kept⟩ := (asserting_some _ _ _).mp rest
          cases kept
          have lastKind : lastType = .accpt := lastKind
          have wrote : lastWrite = true := wrote
          subst lastKind wrote
          have kind : firstType = .prop := kind
          subst kind
          cases first with
          | idle _ _ _ silent => cases silent
          | opens _ _ self above number =>
              rcases accept_spec waiting last promised stored' true _ accepted with ⟨_, again⟩ | ⟨_, _, _, _, rfl, rfl⟩
              · rcases prepare_spec _ _ _ _ _ _ again with ⟨wrong, _⟩ | ⟨wrong, _⟩
                · cases wrong
                · cases wrong
              · exact .quick _ _ self rfl above number
        · cases rest
          exact first

theorem step_numbers (done : alive.step msg pins = some (write, type, next, stored)) : Numbers alive pins write type next stored := by
  obtain ⟨_, rest⟩ := (asserting_some _ _ _).mp done
  cases kind : msg.type <;> rw [kind] at rest <;> dsimp only at rest
  case propRsp => exact prop_rsp_numbers alive next pins stored write type msg rest
  case accptRsp => exact accpt_rsp_numbers alive next pins stored write type msg rest
  case fastAccptRsp => exact accpt_rsp_numbers alive next pins stored write type msg rest
  case tryProp => exact try_numbers alive next pins stored write type msg rest
  case tryRedoProp => exact try_numbers alive next pins stored write type msg rest
  case beginProp => exact begin_numbers alive next pins stored write type msg rest
  case beginFastProp => exact begin_numbers alive next pins stored write type msg rest
  all_goals cases rest

end Alive

-- The count of a number tells the kind of its round.
def Counted (msg : Message) : Prop :=
  (msg.type = .fastAccpt → getPropCnt msg.proposedNum = 0) ∧ (msg.type = .prop ∨ msg.type = .accpt → 1 ≤ getPropCnt msg.proposedNum)

-- A state that goes on waiting for promises waits under the number it had.
def KeepsState (alive next : Option PInsAliveState) : Prop :=
  ∀ state, next = some state → ∃ old, alive = some old ∧ state.propNumGen.selfid = old.propNumGen.selfid ∧
    (state.propState = .waitPrepare → old.propState = .waitPrepare ∧ state.propNumGen = old.propNumGen)

theorem keeps_refl (alive : Option PInsAliveState) : KeepsState alive alive :=
  fun state here => ⟨state, here, rfl, fun waits => ⟨waits, rfl⟩⟩

theorem keeps_marked (alive : Option PInsAliveState) : KeepsState alive (alive.map markChosen) := by
  intro state marked
  obtain ⟨old, here, rfl⟩ := Option.map_eq_some_iff.mp marked
  exact ⟨old, here, rfl, fun wrong => by cases wrong⟩

-- What PInsWrapper::Step says about proposal numbers.
inductive Speaks (alive next : Option PInsAliveState) (pins stored : PaxosInstance) : Bool → Option Message → Prop where
  | silent (write : Bool) (rsp : Option Message) (quiet : ∀ reply, rsp = some reply → isRound reply.type = false)
      (grows : pins.proposedNum ≤ stored.proposedNum) (kept : KeepsState alive next) :
      Speaks alive next pins stored write rsp
  | round (old state : PInsAliveState) (reply : Message) (was : alive = some old) (is_ : next = some state)
      (numbers : Numbers old pins true reply.type state stored) (kind : isRound reply.type = true)
      (number : reply.proposedNum = state.propNumGen.get) (counted : Counted reply) : Speaks alive next pins stored true (some reply)

section Wrapper

variable (learnerOnly : Bool) (selfId : Fin 3) (msg : Message) (alive next : Option PInsAliveState) (pins stored : PaxosInstance)
  (write : Bool) (rsp : Option Message) (type : MessageType)

-- The reply has the type it was asked for, and a round its number and a fitting count.
theorem produced_round (reply : Message) (done : produceRsp selfId msg alive pins type = some (some reply)) :
    reply.type = type ∧ (isRound type = true → reply.proposedNum = pins.proposedNum ∧ Counted reply) := by
  have broadcast (kind : MessageType) (count : Bool) (done : produceRsp.broadcast selfId alive pins kind count = some (some reply)) :
      reply.type = kind ∧ reply.proposedNum = pins.proposedNum ∧ count = true := by
    unfold produceRsp.broadcast at done
    cases alive with
    | none => cases done
    | some state =>
        obtain ⟨⟨_, _, _, number, _, counts⟩, same⟩ := (asserting_some _ _ _).mp done
        cases same
        exact ⟨rfl, number.symm, counts⟩
  have answered (kind : MessageType) (done : produceRsp.acceptRsp selfId msg pins kind = some (some reply)) : reply.type = kind := by
    obtain ⟨_, same⟩ := (asserting_some _ _ _).mp done
    cases same
    rfl
  cases type <;> simp only [produceRsp] at done
  case noop => cases done
  case propRsp =>
    obtain ⟨_, same⟩ := (asserting_some _ _ _).mp done
    cases same
    exact ⟨rfl, fun wrong => by cases wrong⟩
  case accptRsp => exact ⟨answered _ done, fun wrong => by cases wrong⟩
  case fastAccptRsp => exact ⟨answered _ done, fun wrong => by cases wrong⟩
  case prop =>
    obtain ⟨⟨_, count⟩, same⟩ := (asserting_some _ _ _).mp done
    cases same
    exact ⟨rfl, fun _ => ⟨rfl, fun wrong => (by cases wrong), fun _ => count⟩⟩
  case accpt =>
    obtain ⟨kind, number, count⟩ := broadcast _ _ done
    refine ⟨kind, fun _ => ⟨number, fun wrong => ?_, fun _ => ?_⟩⟩
    · rw [kind] at wrong
      cases wrong
    · rw [number]
      exact of_decide_eq_true count
  case fastAccpt =>
    obtain ⟨kind, number, count⟩ := broadcast _ _ done
    refine ⟨kind, fun _ => ⟨number, fun _ => ?_, fun wrong => ?_⟩⟩
    · rw [number]
      exact of_decide_eq_true count
    · rw [kind] at wrong
      rcases wrong with wrong | wrong <;> cases wrong
  case chosen =>
    obtain ⟨_, same⟩ := (asserting_some _ _ _).mp done
    cases same
    exact ⟨rfl, fun wrong => by cases wrong⟩
  all_goals cases done

theorem learn_grows (value : Entry) (done : learn value msg pins = some (write, stored)) : pins.proposedNum ≤ stored.proposedNum := by
  unfold learn at done
  split at done
  · obtain ⟨_, kept⟩ := (asserting_some _ _ _).mp done
    cases kept
    exact Nat.le_refl _
  · obtain ⟨gen, rolled, rest⟩ := Option.bind_eq_some_iff.mp done
    obtain ⟨promised, first, rest⟩ := Option.bind_eq_some_iff.mp rest
    obtain ⟨verdict, second, rest⟩ := Option.bind_eq_some_iff.mp rest
    obtain ⟨accepted, third, result⟩ := Option.map_eq_some_iff.mp rest
    cases result
    subst third
    have above := (PropNumGen.next_spec _ gen _ rolled).2
    obtain ⟨_, rfl⟩ := promised_spec _ _ _ first
    obtain ⟨_, rfl⟩ := accepted_spec _ _ _ _ _ second
    dsimp only
    omega

-- An acceptor leaves the numbers of its own proposer alone.
theorem type_numbers (done : stepByType msg alive pins = some (write, type, next, stored)) :
    (isRound type = false ∧ pins.proposedNum ≤ stored.proposedNum ∧ KeepsState alive next) ∨
      ∃ old state, alive = some old ∧ next = some state ∧ Numbers old pins write type state stored := by
  have accepting (reply : MessageType) (fast : Bool) (silent : isRound reply = false)
      (done : stepByType.accepting msg alive pins reply fast = some (write, type, next, stored)) :
      isRound type = false ∧ pins.proposedNum ≤ stored.proposedNum ∧ KeepsState alive next := by
    obtain ⟨value, _, rest⟩ := Option.bind_eq_some_iff.mp done
    obtain ⟨verdict, updated, equal⟩ := Option.map_eq_some_iff.mp rest
    cases verdict with
    | none =>
        cases equal
        exact ⟨silent, Nat.le_refl _, keeps_refl _⟩
    | some record =>
        cases equal
        obtain ⟨_, rfl⟩ := accepted_spec _ value fast pins _ updated
        exact ⟨silent, Nat.le_refl _, keeps_refl _⟩
  have proposing (done : stepByType.proposing msg alive pins = some (write, type, next, stored)) :
      (isRound type = false ∧ pins.proposedNum ≤ stored.proposedNum ∧ KeepsState alive next) ∨
        ∃ old state, alive = some old ∧ next = some state ∧ Numbers old pins write type state stored := by
    unfold stepByType.proposing at done
    cases alive with
    | none =>
        cases done
        exact .inl ⟨rfl, Nat.le_refl _, keeps_refl _⟩
    | some old =>
        obtain ⟨⟨write', type', last, record⟩, stepped, equal⟩ := Option.map_eq_some_iff.mp done
        cases equal
        exact .inr ⟨old, last, rfl, rfl, step_numbers old last pins stored write type msg stepped⟩
  unfold stepByType at done
  cases kind : msg.type <;> rw [kind] at done <;> dsimp only at done
  case chosen =>
    obtain ⟨value, _, rest⟩ := Option.bind_eq_some_iff.mp done
    obtain ⟨⟨write', record⟩, learnt, equal⟩ := Option.map_eq_some_iff.mp rest
    cases equal
    exact .inl ⟨rfl, learn_grows msg pins _ _ value learnt, keeps_marked alive⟩
  case prop =>
    split at done
    · rename_i record granted
      cases done
      obtain ⟨_, rfl⟩ := promised_spec _ _ _ granted
      exact .inl ⟨rfl, Nat.le_refl _, keeps_refl _⟩
    · cases done
      exact .inl ⟨rfl, Nat.le_refl _, keeps_refl _⟩
  case accpt => exact .inl (accepting .accptRsp false rfl done)
  case fastAccpt => exact .inl (accepting .fastAccptRsp true rfl done)
  case noop =>
    cases done
    exact .inl ⟨rfl, Nat.le_refl _, keeps_refl _⟩
  case getChosen =>
    cases done
    exact .inl ⟨rfl, Nat.le_refl _, keeps_refl _⟩
  all_goals exact proposing done

theorem wrapper_speaks (done : wrapperStep learnerOnly selfId msg alive pins = some (write, rsp, next, stored)) :
    Speaks alive next pins stored write rsp := by
  unfold wrapperStep at done
  split at done
  · obtain ⟨reply, answered, same⟩ := Option.map_eq_some_iff.mp done
    cases same
    refine .silent _ _ (fun sent known => ?_) (Nat.le_refl _) (keeps_refl _)
    rw [known] at answered
    rw [chosen_reply selfId msg sent pins answered]
    rfl
  · unfold stepNotChosen at done
    split at done
    · cases done
      exact .silent _ _ (fun _ wrong => by cases wrong) (Nat.le_refl _) (keeps_refl _)
    · obtain ⟨⟨write', type, middle, record⟩, stepped, rest⟩ := Option.bind_eq_some_iff.mp done
      obtain ⟨reply, answered, same⟩ := Option.map_eq_some_iff.mp rest
      have shape : write = write' ∧ rsp = reply ∧ stored.proposedNum = record.proposedNum ∧
          (type ≠ .chosen → next = middle ∧ stored = record) ∧ (type = .chosen → next = middle.map markChosen) := by
        split at same
        · rename_i chosen
          cases same
          exact ⟨rfl, rfl, rfl, fun other => absurd chosen other, fun _ => rfl⟩
        · rename_i other
          cases same
          exact ⟨rfl, rfl, rfl, fun _ => ⟨rfl, rfl⟩, fun chosen => absurd chosen other⟩
      obtain ⟨rfl, rfl, number, plain, chosen⟩ := shape
      have quiet (silent : isRound type = false) (sent : Message) (known : rsp = some sent) : isRound sent.type = false := by
        rw [known] at answered
        rw [(produced_round selfId msg middle record type sent answered).1]
        exact silent
      have marked (silent : isRound type = false) (grows : pins.proposedNum ≤ record.proposedNum) (kept : KeepsState alive middle) :
          Speaks alive next pins stored write rsp := by
        refine .silent _ _ (quiet silent) (by rw [number]; exact grows) ?_
        by_cases past : type = .chosen
        · rw [chosen past]
          intro state known
          obtain ⟨held, here, rfl⟩ := Option.map_eq_some_iff.mp known
          obtain ⟨old, was, self, _⟩ := kept held here
          exact ⟨old, was, self, fun wrong => by cases wrong⟩
        · rw [(plain past).1]
          exact kept
      rcases type_numbers msg alive middle pins record write type stepped with ⟨silent, grows, kept⟩ | ⟨old, state, rfl, rfl, numbers⟩
      · exact marked silent grows kept
      · by_cases kind : isRound type = true
        · have past : type ≠ .chosen := by
            rintro rfl
            cases kind
          obtain ⟨rfl, rfl⟩ := plain past
          have wrote : write = true ∧ stored.proposedNum = state.propNumGen.get := by
            cases numbers with
            | idle _ _ _ silent =>
                rw [silent] at kind
                cases kind
            | opens _ _ _ _ number => exact ⟨rfl, number⟩
            | goesOn _ _ _ _ _ number => exact ⟨rfl, number.2⟩
            | quick _ _ _ _ _ number => exact ⟨rfl, number⟩
          obtain ⟨rfl, stored_⟩ := wrote
          cases rsp with
          | none =>
              -- A round always has a reply.
              exfalso
              cases type <;> simp [isRound, isAccept] at kind
              · obtain ⟨_, wrong⟩ := (asserting_some _ _ _).mp answered
                cases wrong
              · obtain ⟨_, wrong⟩ := (asserting_some _ _ _).mp answered
                cases wrong
              · obtain ⟨_, wrong⟩ := (asserting_some _ _ _).mp answered
                cases wrong
          | some reply =>
              obtain ⟨equal, fits⟩ := produced_round selfId msg _ _ type reply answered
              obtain ⟨same, counted⟩ := fits kind
              exact .round old state reply rfl rfl (by rw [equal]; exact numbers) (by rw [equal]; exact kind) (same.trans stored_) counted
        · have silent : isRound type = false := by simpa using kind
          cases numbers with
          | idle _ _ _ _ self waiting =>
              refine marked silent (Nat.le_refl _) (fun held here => ?_)
              cases here
              exact ⟨old, rfl, self, waiting⟩
          | opens => cases silent
          | goesOn => cases silent
          | quick => cases silent

end Wrapper

end PaxosStore.PaxosKv
