import PaxosStore.PaxosKv.ServerSteps
import PaxosStore.Consensus.Run

set_option autoImplicit false

namespace PaxosStore.PaxosKv

open PaxosStore.Consensus PInsAliveState

theorem wrapper_outcome (fast i : Fin 3) (h : History) (msg : Message) (pins stored : PaxosInstance) (alive next : Option PInsAliveState)
    (rsp : Option Message) (learnerOnly write : Bool) (ledger : Ledger fast h) (backed : PinsBacked h i pins)
    (ok : AliveOk h i pins alive) (flight : MessageBacked h msg) (remote : isProtocol msg.type = true → msg.fromId ≠ i)
    (quick : msg.type = .beginFastProp → i = fast)
    (done : wrapperStep learnerOnly i msg alive pins = some (write, rsp, next, stored)) :
    Outcome fast i h pins stored next rsp := by
  unfold wrapperStep at done
  split at done
  · rename_i marked
    obtain ⟨reply, answered, result⟩ := Option.map_eq_some_iff.mp done
    cases result
    obtain ⟨value, ballot, held, chosen⟩ := backed.chosen marked
    apply silent_outcome fast i h pins alive rsp ledger backed ok
    rintro answer rfl
    obtain ⟨_, rest⟩ := (asserting_some _ _ _).mp answered
    have shape : answer.type = .chosen ∧ answer.acceptedValue = pins.acceptedValue := by
      cases kind : msg.type <;> simp only [kind] at rest
      case chosen =>
        obtain ⟨_, nothing⟩ := (asserting_some _ _ _).mp rest
        cases nothing
      all_goals cases rest
      all_goals exact ⟨rfl, rfl⟩
    apply chosen_message h answer shape.1
    intro seen known
    rw [shape.2, held] at known
    cases known
    exact ⟨ballot, chosen⟩
  · rename_i unmarked
    have open_ : pins.chosen = false := by simpa using unmarked
    exact not_chosen_outcome fast i h msg pins stored alive rsp ledger backed open_ ok flight learnerOnly write next remote quick done

theorem produced_type (selfId : Fin 3) (msg reply : Message) (alive : Option PInsAliveState) (pins : PaxosInstance)
    (type : MessageType) (done : produceRsp selfId msg alive pins type = some (some reply)) : reply.type = type := by
  cases type
  case noop => cases done
  case accpt =>
    cases alive with
    | none => cases done
    | some state => exact (broadcast_reply selfId pins state .accpt reply _ done).2.1
  case fastAccpt =>
    cases alive with
    | none => cases done
    | some state => exact (broadcast_reply selfId pins state .fastAccpt reply _ done).2.1
  all_goals first
    | cases done
    | obtain ⟨_, kept⟩ := (asserting_some _ _ _).mp done
      cases kept
      rfl

theorem reply_type (learnerOnly write : Bool) (selfId : Fin 3) (msg reply : Message) (alive next : Option PInsAliveState)
    (pins stored : PaxosInstance) (done : wrapperStep learnerOnly selfId msg alive pins = some (write, some reply, next, stored)) :
    reply.type ≠ .beginFastProp := by
  unfold wrapperStep at done
  split at done
  · obtain ⟨answer, answered, result⟩ := Option.map_eq_some_iff.mp done
    cases result
    obtain ⟨_, rest⟩ := (asserting_some _ _ _).mp answered
    cases kind : msg.type <;> simp only [kind] at rest
    case chosen =>
      obtain ⟨_, nothing⟩ := (asserting_some _ _ _).mp rest
      cases nothing
    all_goals cases rest
    all_goals simp
  · unfold stepNotChosen at done
    split at done
    · cases done
    · obtain ⟨⟨write', type, middle, record⟩, _, rest⟩ := Option.bind_eq_some_iff.mp done
      obtain ⟨answer, produced, result⟩ := Option.map_eq_some_iff.mp rest
      have same : answer = some reply := by
        split at result
        · exact (Prod.mk.inj (Prod.mk.inj result).2).1
        · exact (Prod.mk.inj (Prod.mk.inj result).2).1
      rw [same] at produced
      rw [produced_type selfId msg reply middle record type produced]
      rintro rfl
      cases produced

-- One server changes; the others see at most a longer history.
theorem backed_set (fast i : Fin 3) (h next : History) (s : Servers) (server : Server) (backed : Backed fast h s)
    (moved : Moved fast i h next) (pins : PinsBacked next i server.pins) (alive : AliveOk next i server.pins server.alive) :
    Backed fast next (s.setServer i server) where
  ledger := moved.ledger
  pins := by
    intro j
    by_cases here : j = i
    · subst here
      simpa [Servers.setServer] using pins
    · simpa [Servers.setServer, here] using pins_other fast i j h next _ moved here (backed.pins j)
  alive := by
    intro j
    by_cases here : j = i
    · subst here
      simpa [Servers.setServer] using alive
    · simpa [Servers.setServer, here] using
        alive_extends h next j _ _ _ moved.later (moved.foreign j here) rfl (backed.alive j)
  flight := fun msg member => message_extends h next msg moved.later (backed.flight msg member)
  marks := by
    intro j value member
    obtain ⟨ballot, chosen⟩ := backed.marks j value member
    exact ⟨ballot, Voting.chosen_extends h next ballot value moved.later chosen⟩

theorem backed_lose (fast i : Fin 3) (h : History) (s : Servers) (backed : Backed fast h s) :
    Backed fast h (s.setServer i { s.server i with alive := none }) :=
  backed_set fast i h h s _ backed (moved_refl fast i h backed.ledger) (backed.pins i) (fun _ absent => by cases absent)

theorem backed_handle (fast i : Fin 3) (h : History) (s : Servers) (msg : Message) (learnerOnly written : Bool)
    (backed : Backed fast h s) (flight : MessageBacked h msg) (remote : isProtocol msg.type = true → msg.fromId ≠ i)
    (quick : msg.type = .beginFastProp → i = fast) : ∃ next, Backed fast next (s.handle i msg learnerOnly written) := by
  unfold Servers.handle
  cases stepped : wrapperStep learnerOnly i msg (s.server i).alive (s.server i).pins with
  | none => exact ⟨h, backed_lose fast i h s backed⟩
  | some result =>
      obtain ⟨write, rsp, alive, pins⟩ := result
      have outcome := wrapper_outcome fast i h msg (s.server i).pins pins (s.server i).alive alive rsp learnerOnly write
        backed.ledger (backed.pins i) (backed.alive i) flight remote quick stepped
      have marks : ∀ j value, (j, value) ∈ (if (!(s.server i).pins.chosen && pins.chosen) = true then
          (pins.acceptedValue.map fun value => (i, value)).toList ++ s.marks else s.marks) → ∃ ballot, h.Chosen ballot value := by
        intro j value member
        split at member
        · rename_i marked
          have fresh : (s.server i).pins.chosen = false ∧ pins.chosen = true := by simpa using marked
          rcases List.mem_append.mp member with new | old
          · have held : pins.acceptedValue = some value := by
              have pair : ∃ seen, pins.acceptedValue = some seen ∧ i = j ∧ seen = value := by simpa using new
              obtain ⟨seen, held, _, rfl⟩ := pair
              exact held
            exact outcome.marked fresh.1 fresh.2 value held
          · exact backed.marks j value old
        · exact backed.marks j value member
      dsimp only
      split
      · have kept := backed_set fast i h h s ⟨(s.server i).pins, alive⟩ backed (moved_refl fast i h backed.ledger) (backed.pins i) outcome.failed
        exact ⟨h, ⟨kept.ledger, kept.pins, kept.alive, kept.flight, marks⟩⟩
      · obtain ⟨next, moved, pinsBacked, aliveOk, reply⟩ := outcome.done
        have kept := backed_set fast i h next s ⟨pins, alive⟩ backed moved pinsBacked aliveOk
        refine ⟨next, ⟨kept.ledger, kept.pins, kept.alive, ?_, ?_⟩⟩
        · intro other member
          rcases List.mem_append.mp member with new | old
          · exact reply other (by simpa using new)
          · exact kept.flight other old
        · intro j value member
          obtain ⟨ballot, chosen⟩ := marks j value member
          exact ⟨ballot, Voting.chosen_extends h next ballot value moved.later chosen⟩

theorem sent_handle (s : Servers) (i : Fin 3) (msg other : Message) (learnerOnly written : Bool)
    (member : other ∈ (s.handle i msg learnerOnly written).sent) : other ∈ s.sent ∨ other.type ≠ .beginFastProp := by
  unfold Servers.handle at member
  cases stepped : wrapperStep learnerOnly i msg (s.server i).alive (s.server i).pins with
  | none =>
      rw [stepped] at member
      exact .inl member
  | some result =>
      obtain ⟨write, rsp, alive, pins⟩ := result
      rw [stepped] at member
      dsimp only at member
      split at member
      · exact .inl member
      · rcases List.mem_append.mp member with new | old
        · have sent : rsp = some other := by simpa using new
          rw [sent] at stepped
          exact .inr (reply_type _ _ _ _ _ _ _ _ _ stepped)
        · exact .inl old

-- Nobody sends the request for the fast path to another server.
def NoBegin (s : Servers) : Prop := ∀ msg, msg ∈ s.sent → msg.type ≠ .beginFastProp

theorem no_begin_act (fast : Fin 3) (s : Servers) (event : Event) (t : Servers) (inv : NoBegin s)
    (done : s.act fast event = some t) : NoBegin t := by
  intro msg member
  cases event with
  | request i request learnerOnly written =>
      rw [Servers.act] at done
      split at done
      · cases done
        exact (sent_handle s i request msg learnerOnly written member).elim (inv msg) id
      · cases done
  | receive i request learnerOnly written =>
      rw [Servers.act] at done
      split at done
      · cases done
        exact (sent_handle s i request msg learnerOnly written member).elim (inv msg) id
      · cases done
  | create i propCnt =>
      cases done
      exact inv msg member
  | lose i =>
      cases done
      exact inv msg member

theorem backed_act (fast : Fin 3) (s : Servers) (event : Event) (t : Servers) (inv : NoBegin s ∧ ∃ h, Backed fast h s)
    (done : s.act fast event = some t) : NoBegin t ∧ ∃ h, Backed fast h t := by
  refine ⟨no_begin_act fast s event t inv.1 done, ?_⟩
  obtain ⟨unsent, h, backed⟩ := inv
  cases event with
  | request i msg learnerOnly written =>
      rw [Servers.act] at done
      split at done
      · rename_i allowed
        cases done
        apply backed_handle fast i h s msg learnerOnly written backed (plain_message h msg (.inr allowed.1)) _ allowed.2
        intro protocol
        have request := allowed.1
        cases type : msg.type <;> simp [isProtocol, Servers.isRequest, type] at protocol request
      · cases done
  | receive i msg learnerOnly written =>
      rw [Servers.act] at done
      split at done
      · rename_i allowed
        cases done
        have flight := backed.flight msg allowed.1
        have target : msg.toId = some i ∨ msg.toId = none ∧ msg.fromId ≠ i := of_decide_eq_true allowed.2
        apply backed_handle fast i h s msg learnerOnly written backed flight
        · intro protocol
          rcases target with direct | ⟨_, other⟩
          · have broadcast := flight.broadcast
            have answer := flight.answer
            cases type : msg.type <;> simp [isProtocol, type, direct] at protocol broadcast answer
            all_goals exact fun same => answer same.symm
          · exact other
        · exact fun begin_ => absurd begin_ (unsent msg allowed.1)
      · cases done
  | create i propCnt =>
      cases done
      refine ⟨h, backed_set fast i h h s _ backed (moved_refl fast i h backed.ledger) (backed.pins i) ?_⟩
      apply alive_ok_some
      apply idle_backed
      · exact ⟨rfl, fun _ held => by cases held⟩
      · simp [PInsAliveState.create]
      · simp [PInsAliveState.create]
  | lose i =>
      cases done
      exact ⟨h, backed_lose fast i h s backed⟩

theorem backed_start (fast : Fin 3) : NoBegin Servers.start ∧ ∃ h, Backed fast h Servers.start := by
  refine ⟨fun _ member => (by cases member), Voting.empty, ?_⟩
  constructor
  · exact ⟨Voting.sound_empty lastFast, fun _ _ known => (by cases known), fun _ _ known => absurd rfl known⟩
  · intro i
    exact
      { promised := fun _ => rfl
        accepted := fun _ _ known => by cases known
        last := fun _ _ _ => rfl
        ordered := fun _ => Nat.le_refl _
        proposed := fun _ _ known => by cases known
        chosen := fun marked => by cases marked }
  · exact fun _ _ absent => by cases absent
  · exact fun _ member => by cases member
  · exact fun _ _ member => by cases member

-- Every chosen mark, also one whose write then fails, is for the same value, and
-- so is every instance stored as chosen.
theorem chosen_marks_agree (fast : Fin 3) (s : Servers) (run : Reaches (Servers.act fast) Servers.start s) :
    (∀ i j first second, (i, first) ∈ s.marks → (j, second) ∈ s.marks → first = second) ∧
    ∀ i j, (s.server i).pins.chosen = true → (s.server j).pins.chosen = true →
      (s.server i).pins.acceptedValue = (s.server j).pins.acceptedValue := by
  obtain ⟨_, h, backed⟩ := run_invariant (Servers.act fast) (fun s => NoBegin s ∧ ∃ h, Backed fast h s) (backed_act fast)
    Servers.start s (backed_start fast) run
  constructor
  · intro i j first second left right
    obtain ⟨low, chosenLeft⟩ := backed.marks i first left
    obtain ⟨high, chosenRight⟩ := backed.marks j second right
    exact Voting.chosen_agree lastFast h backed.ledger.sound low high first second chosenLeft chosenRight
  · intro i j left right
    obtain ⟨first, low, held, chosenLeft⟩ := (backed.pins i).chosen left
    obtain ⟨second, high, heldToo, chosenRight⟩ := (backed.pins j).chosen right
    rw [held, heldToo, Voting.chosen_agree lastFast h backed.ledger.sound low high first second chosenLeft chosenRight]

-- Server 0 proposes; the first write of its acceptance fails, so it tries again.
def retriedRound : List Event :=
  let value : Entry := ⟨7, [1]⟩
  let ask (type : MessageType) : Message := { type := type, fromId := 0, toId := some 0, proposedNum := 1, acceptedValue := some value }
  let prop (num : Nat) : Message := { type := .prop, fromId := 0, toId := none, proposedNum := num }
  let promise (num : Nat) : Message := { type := .propRsp, fromId := 1, toId := some 0, proposedNum := num, promisedNum := some num }
  let accpt : Message := { type := .accpt, fromId := 0, toId := none, proposedNum := 131073, acceptedValue := some value }
  let vote : Message := { type := .accptRsp, fromId := 1, toId := some 0, proposedNum := 131073, acceptedNum := some 131073 }
  let chosen : Message := { type := .chosen, fromId := 0, toId := none, proposedNum := 131073, acceptedValue := some value }
  [.create 0 0, .request 0 (ask .beginProp) false true, .receive 1 (prop 65537) false true, .receive 0 (promise 65537) false false,
    .request 0 (ask .tryRedoProp) false true, .receive 1 (prop 131073) false true, .receive 0 (promise 131073) false true,
    .receive 1 accpt false true, .receive 0 vote false true, .receive 2 chosen false true]

theorem retried_round_agrees : ∃ s, Reaches (Servers.act 0) Servers.start s ∧ (0, ⟨7, [1]⟩) ∈ s.marks ∧
    (s.server 0).pins.chosen = true ∧ (s.server 2).pins.chosen = true ∧
    (s.server 0).pins.acceptedValue = (s.server 2).pins.acceptedValue := by
  have run := reaches_end (Servers.act 0) Servers.start retriedRound (by decide +kernel)
  have marked : (0, ⟨7, [1]⟩) ∈ (endOf (Servers.act 0) Servers.start retriedRound).marks := by decide +kernel
  have left : ((endOf (Servers.act 0) Servers.start retriedRound).server 0).pins.chosen = true := by decide +kernel
  have right : ((endOf (Servers.act 0) Servers.start retriedRound).server 2).pins.chosen = true := by decide +kernel
  exact ⟨_, run, marked, left, right, (chosen_marks_agree 0 _ run).2 0 2 left right⟩

end PaxosStore.PaxosKv
