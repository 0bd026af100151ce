import PaxosStore.Certain.MessageMoves

set_option autoImplicit false

namespace PaxosStore.Certain

open Site

variable {n : Nat}

namespace Site

-- Commands are kept where they belong, and the watermarks are in order.
structure RegularEntity (entityId : Nat) (entity : EntityInfo n) : Prop where
  below : entity.maxContChosenEntry ≤ entity.maxChosenEntry
  parked : ∀ cmd, entity.waitingMsg = some cmd → cmd.entityId = entityId ∧ cmd.plogLoad = false
  asked : ∀ client, entity.clientCmd = some client → client.entityId = entityId ∧ client.cmdId ≠ .replay

structure Regular (s : Site n) : Prop where
  entities : ∀ entityId entity, s.entityInfos entityId = some entity → RegularEntity entityId entity
  slots : ∀ key info, s.entryInfos key = some info → ∀ peer cmd, info.waitingMsgs peer = some cmd →
    cmd.key = key ∧ cmd.plogLoad = false

-- A load response in hand is no message: it has no two acceptors.
def Tokens (s : Site n) : Prop :=
  ∀ cmd, cmd ∈ s.hand ∨ cmd ∈ s.plogReqs ∨ cmd ∈ s.plogRsps → cmd.plogLoad = true → cmd.peerAcceptorId = cmd.localAcceptorId

structure Orderly (s : Site n) : Prop where
  regular : Regular s
  tokens : Tokens s

theorem regular_entity (s : Site n) (entityId : Nat) (new : Option (EntityInfo n)) (regular : Regular s)
    (fine : ∀ entity, new = some entity → RegularEntity entityId entity) : Regular (s.setEntity entityId new) where
  entities := by
    intro other entity here
    by_cases same : other = entityId
    · subst same
      exact fine entity (by simpa [setEntity] using here)
    · exact regular.entities other entity (by simpa [setEntity, same] using here)
  slots := regular.slots

theorem regular_entry (s : Site n) (key : EntryKey) (new : Option (EntryInfo n)) (regular : Regular s)
    (fine : ∀ info, new = some info → ∀ peer cmd, info.waitingMsgs peer = some cmd → cmd.key = key ∧ cmd.plogLoad = false) :
    Regular (s.setEntry key new) where
  entities := regular.entities
  slots := by
    intro other info here
    by_cases same : other = key
    · subst same
      exact fine info (by simpa [setEntry] using here)
    · exact regular.slots other info (by simpa [setEntry, same] using here)

theorem regular_same (s t : Site n) (regular : Regular s) (entities : t.entityInfos = s.entityInfos)
    (entries : t.entryInfos = s.entryInfos) : Regular t :=
  ⟨by rw [entities]; exact regular.entities, by rw [entries]; exact regular.slots⟩

theorem raised_regular (entityId : Nat) (entity : EntityInfo n) (entry : Nat) (mine : Bool) (fine : RegularEntity entityId entity) :
    RegularEntity entityId (raisedBy entity entry mine) := by
  have below := fine.below
  refine ⟨?_, ?_, ?_⟩
  · simp only [raisedBy, Node.chosenWatermarks]
    split <;> split <;> split <;> simp_all <;> omega
  · have same : (raisedBy entity entry mine).waitingMsg = entity.waitingMsg := by
      simp only [raisedBy, Node.chosenWatermarks]
      split <;> split <;> split <;> rfl
    rw [same]
    exact fine.parked
  · have same : (raisedBy entity entry mine).clientCmd = entity.clientCmd := by
      simp only [raisedBy, Node.chosenWatermarks]
      split <;> split <;> split <;> rfl
    rw [same]
    exact fine.asked

theorem raise_regular (s : Site n) (key : EntryKey) (entity : EntityInfo n) (machine : EntryStateMachine n) (pushed : Bool)
    (known : s.entityInfos key.entityId = some entity) (regular : Regular s) : Regular (s.raise key entity machine pushed) := by
  refine regular_same (s.setEntity key.entityId (some
    (raisedBy entity key.entry (machine.hasAcceptedMyProposal entity.localAcceptorId)))) _ ?_ (by simp [setEntity]) (by simp [setEntity])
  exact regular_entity s key.entityId _ regular fun new here => by
    cases here
    exact raised_regular key.entityId entity key.entry _ (regular.entities key.entityId entity known)

theorem raise_if_regular (s : Site n) (key : EntryKey) (entity : EntityInfo n) (machine : EntryStateMachine n) (pushed : Bool)
    (known : s.entityInfos key.entityId = some entity) (regular : Regular s) : Regular (s.raiseIfChosen key entity machine pushed) := by
  rw [raiseIfChosen]
  split
  · exact raise_regular s key entity machine pushed known regular
  · exact regular

theorem entity_move_regular (s : Site n) (entityId : Nat) (entity new : EntityInfo n) (move : EntityMove s entityId entity new)
    (fine : RegularEntity entityId entity) : RegularEntity entityId new := by
  have below := fine.below
  cases move with
  | heard cmd peer held same ours ahead => exact ⟨by dsimp only; omega, fine.parked, fine.asked⟩
  | park cmd held same loading plain => exact ⟨below, fun other here => by cases here; exact ⟨same, plain⟩, fine.asked⟩
  | ask client same kind idle loading => exact ⟨below, fine.parked, fun other here => by cases here; exact ⟨same, kind⟩⟩
  | take => exact ⟨below, fine.parked, fun other here => by cases here⟩
  | catchup | recover | number => exact ⟨below, fine.parked, fine.asked⟩

theorem tokens_ours (s : Site n) (entity : EntityInfo n) (cmd : PaxosCmd) (tokens : Tokens s) (held : cmd ∈ s.hand)
    (ours : Ours entity cmd) : cmd.plogLoad = false := by
  cases load : cmd.plogLoad with
  | false => rfl
  | true => exact absurd (tokens cmd (.inl held) load) ours.2.1

theorem entry_move_slots (s : Site n) (key : EntryKey) (info new : EntryInfo n) (tokens : Tokens s) (move : EntryMove s key info new)
    (fine : ∀ peer cmd, info.waitingMsgs peer = some cmd → cmd.key = key ∧ cmd.plogLoad = false) :
    ∀ peer cmd, new.waitingMsgs peer = some cmd → cmd.key = key ∧ cmd.plogLoad = false := by
  cases move with
  | slot cmd peer entity held same known ours sender uncertain =>
      intro other found here
      by_cases equal : other = peer
      · subst equal
        simp only [Function.update_self, Option.some.injEq] at here
        exact here ▸ ⟨same, tokens_ours s entity cmd tokens held ours⟩
      · exact fine other found (by simpa [equal] using here)
  | unslot peer =>
      intro other found here
      by_cases equal : other = peer
      · subst equal
        simp at here
      · exact fine other found (by simpa [equal] using here)
  | book | count => exact fine

theorem loaded_from_plog_regular (entityId : Nat) (entity : EntityInfo n) (maxPlogEntry maxCommittedEntry : Nat)
    (fine : RegularEntity entityId entity) :
    RegularEntity entityId { Node.updateByLoadFromPlog { entity with loading := false } maxPlogEntry maxCommittedEntry with
      waitingMsg := none } := by
  have below := fine.below
  refine ⟨?_, fun cmd here => (by cases here), fine.asked⟩
  simp only [Node.updateByLoadFromPlog]
  split <;> omega

theorem regular_move (arrives : PaxosCmd → Prop) (s t : Site n) (move : Move arrives s t) (regular : Regular s) (tokens : Tokens s) :
    Regular t := by
  cases move with
  | entity entityId old new known allowed =>
      exact regular_entity s entityId _ regular fun entity here => by
        cases here
        exact entity_move_regular s entityId old new allowed (regular.entities entityId old known)
  | recovered entityId entry timestamp old known =>
      have fine := regular.entities entityId old known
      have below := fine.below
      refine regular_same (s.setEntity entityId (some (recoveredBy old entry timestamp))) _ ?_ rfl rfl
      exact regular_entity s entityId _ regular fun entity here => by
        cases here
        exact ⟨by simp only [recoveredBy]; omega, fine.parked, fine.asked⟩
  | chosen key entity info pushed live certain known closed => exact raise_regular s key entity info.machine pushed known regular
  | finish entityId valueId old client result known asking fair =>
      have fine := regular.entities entityId old known
      refine regular_same (s.setEntity entityId (some { old with clientCmd := none })) _ ?_ rfl rfl
      exact regular_entity s entityId _ regular fun entity here => by
        cases here
        exact ⟨fine.below, fine.parked, fun other asked => by cases asked⟩
  | newEntity entityId new absent loading home fresh idle quiet =>
      refine regular_same (s.setEntity entityId (some new)) _ ?_ rfl rfl
      exact regular_entity s entityId _ regular fun entity here => by
        cases here
        exact ⟨by rw [fresh.1]; exact Nat.zero_le _, fun cmd parked => absurd (quiet.symm.trans parked) (by simp),
          fun client asked => absurd (idle.symm.trans asked) (by simp)⟩
  | entry key old new live allowed =>
      exact regular_entry s key _ regular fun info here => by
        cases here
        exact entry_move_slots s key old new tokens allowed (regular.slots key old live)
  | createFresh key entity flags pending info absent known openable seen beyond blank certain =>
      refine regular_same (s.setEntry key (some info)) _ (regular_entry s key _ regular fun other here => ?_) rfl rfl
      cases here
      intro peer cmd slot
      rw [blank.slots] at slot
      cases slot
  | createLoading key entity flags pending info absent known openable seen blank uncertain =>
      refine regular_same (s.setEntry key (some info)) _ (regular_entry s key _ regular fun other here => ?_) rfl rfl
      cases here
      intro peer cmd slot
      rw [blank.slots] at slot
      cases slot
  | destroy key entity info live known certain =>
      exact regular_same (s.setEntry key none) _ (regular_entry s key _ regular fun other here => by cases here) rfl rfl
  | absorb cmd entity info peer next marks held known ours sender live certain learns same =>
      refine regular_same (s.setEntry cmd.key (some { info with machine := next })) _ ?_ rfl rfl
      exact regular_entry s cmd.key _ regular fun other here => by cases here; exact regular.slots cmd.key info live
  | store cmd entity info peer next marks held known ours sender live certain learns newer =>
      refine regular_same (s.setEntry cmd.key (some { info with machine := next, uncertain := true })) _ ?_ rfl rfl
      exact regular_entry s cmd.key _ regular fun other here => by cases here; exact regular.slots cmd.key info live
  | write key entity info client started base reading next valueId marks known ready idle home about matched kind starts live =>
      have fine := regular.entities key.entityId entity known
      have sameHome : started.entityId = client.entityId ∧ started.cmdId = client.cmdId := by
        cases starts with
        | plain | read => exact ⟨rfl, rfl⟩
      have notReplay : started.cmdId ≠ .replay := by
        rw [sameHome.2]
        rcases kind with kind | kind <;> rw [kind] <;> decide
      refine regular_same ((s.setEntry key (some { info with machine := next, uncertain := true })).setEntity key.entityId
        (some { entity with clientCmd := some { started with valueId := valueId }, uuidBase := base })) _ (regular_entity _ key.entityId _
          (regular_entry s key _ regular fun other here => by cases here; exact regular.slots key info live) fun new here => ?_) rfl rfl
      cases here
      exact ⟨fine.below, fine.parked, fun other here => by cases here; exact ⟨sameHome.1.trans home, notReplay⟩⟩
  | stray key entity info preAuth code next reading known ready matched live certain done failed =>
      refine regular_same (s.setEntry key (some { info with machine := next })) _ ?_ rfl rfl
      exact regular_entry s key _ regular fun other here => by cases here; exact regular.slots key info live
  | openRead key entity info client next known ready idle home kind about matched live certain reset =>
      have fine := regular.entities key.entityId entity known
      refine regular_same ((s.setEntity key.entityId (some
        { entity with clientCmd := some { client with uuid := entity.uuidBase }, uuidBase := entity.uuidBase + 1 })).setEntry key
          (some { info with machine := next })) _ (regular_entry _ key _ (regular_entity s key.entityId _ regular fun new here => ?_)
            fun other here => by cases here; exact regular.slots key info live) rfl rfl
      cases here
      exact ⟨fine.below, fine.parked, fun other here => by cases here; exact ⟨home, by rw [kind]; decide⟩⟩
  | setDone index cmd entity info pushed next isSet entryOp done live uncertain known =>
      refine regular_same _ _ (raise_if_regular (s.setEntry cmd.key (some { info with uncertain := false })) cmd.key entity info.machine
        pushed known ?_) rfl rfl
      exact regular_entry s cmd.key _ regular fun other here => by cases here; exact regular.slots cmd.key info live
  | getDone index cmd entity info record code machine pushed free next isGet entryOp notSet found live uncertain known loaded =>
      have settled : Regular (s.setEntry cmd.key (some { info with uncertain := false, machine := machine })) :=
        regular_entry s cmd.key _ regular fun other here => by cases here; exact regular.slots cmd.key info live
      refine regular_same (if code = .ok then _ else _) _ ?_ rfl rfl
      split
      · exact raise_if_regular _ cmd.key entity machine pushed known settled
      · exact settled
  | opFailed index cmd entity info next entryOp failed live uncertain known answered =>
      exact regular_same (s.setEntry cmd.key none) _ (regular_entry s cmd.key _ regular fun other here => by cases here) rfl rfl
  | loadDone index cmd entity next isLoad done known loading =>
      refine regular_same (s.setEntity cmd.entityId (some
        { Node.updateByLoadFromPlog { entity with loading := false } cmd.entry cmd.maxCommittedEntry with waitingMsg := none })) _
        (regular_entity s cmd.entityId _ regular fun new here => ?_) rfl rfl
      cases here
      exact loaded_from_plog_regular cmd.entityId entity cmd.entry cmd.maxCommittedEntry (regular.entities cmd.entityId entity known)
  | loadFailed index cmd entity next isLoad failed known loading idle =>
      exact regular_same (s.setEntity cmd.entityId none) _
        (regular_entity s cmd.entityId _ regular fun other here => by cases here) rfl rfl
  | _ => exact regular_same s _ regular rfl rfl

-- What the queues and the hand gain.
theorem tokens_gain (s t : Site n) (tokens : Tokens s)
    (gain : ∀ cmd, cmd ∈ t.hand ∨ cmd ∈ t.plogReqs ∨ cmd ∈ t.plogRsps → cmd ∈ s.hand ∨ cmd ∈ s.plogReqs ∨ cmd ∈ s.plogRsps ∨
      (cmd.plogLoad = true → cmd.peerAcceptorId = cmd.localAcceptorId)) : Tokens t := by
  intro cmd there load
  rcases gain cmd there with held | asked | answered | fine
  · exact tokens cmd (.inl held) load
  · exact tokens cmd (.inr (.inl asked)) load
  · exact tokens cmd (.inr (.inr answered)) load
  · exact fine load

theorem tokens_same (s t : Site n) (tokens : Tokens s) (hand : t.hand = s.hand) (reqs : t.plogReqs = s.plogReqs)
    (rsps : t.plogRsps = s.plogRsps) : Tokens t := by
  intro cmd there load
  rw [hand, reqs, rsps] at there
  exact tokens cmd there load

theorem tokens_req (s t : Site n) (req : PaxosCmd) (tokens : Tokens s) (hand : t.hand = s.hand) (reqs : t.plogReqs = s.plogReqs ++ [req])
    (rsps : t.plogRsps = s.plogRsps) (fine : req.plogLoad = true → req.peerAcceptorId = req.localAcceptorId) : Tokens t := by
  refine tokens_gain s t tokens fun cmd there => ?_
  rw [hand, reqs, rsps, List.mem_append, List.mem_singleton] at there
  rcases there with held | (asked | rfl) | answered
  · exact .inl held
  · exact .inr (.inl asked)
  · exact .inr (.inr (.inr fine))
  · exact .inr (.inr (.inl answered))

theorem tokens_rsp (s t : Site n) (index : Nat) (cmd rsp : PaxosCmd) (next : s.plogReqs[index]? = some cmd) (tokens : Tokens s)
    (hand : t.hand = s.hand) (reqs : t.plogReqs = s.plogReqs.eraseIdx index) (rsps : t.plogRsps = s.plogRsps ++ [rsp])
    (sameLoad : rsp.plogLoad = cmd.plogLoad) (samePeer : rsp.peerAcceptorId = cmd.peerAcceptorId)
    (sameLocal : rsp.localAcceptorId = cmd.localAcceptorId) : Tokens t := by
  refine tokens_gain s t tokens fun other there => ?_
  rw [hand, reqs, rsps, List.mem_append, List.mem_singleton] at there
  rcases there with held | asked | answered | rfl
  · exact .inl held
  · exact .inr (.inl (List.mem_of_mem_eraseIdx asked))
  · exact .inr (.inr (.inl answered))
  · refine .inr (.inr (.inr fun load => ?_))
    rw [samePeer, sameLocal]
    rw [sameLoad] at load
    exact tokens cmd (.inr (.inl (List.mem_of_getElem? next))) load

theorem tokens_fewer (s t : Site n) (tokens : Tokens s) (hand : ∀ cmd ∈ t.hand, cmd ∈ s.hand)
    (reqs : ∀ cmd ∈ t.plogReqs, cmd ∈ s.plogReqs) (rsps : ∀ cmd ∈ t.plogRsps, cmd ∈ s.plogRsps) : Tokens t := by
  intro cmd there load
  rcases there with held | asked | answered
  · exact tokens cmd (.inl (hand cmd held)) load
  · exact tokens cmd (.inr (.inl (reqs cmd asked))) load
  · exact tokens cmd (.inr (.inr (rsps cmd answered))) load

theorem holdable_tokens (arrives : PaxosCmd → Prop) (s : Site n) (cmd : PaxosCmd) (regular : Regular s) (tokens : Tokens s)
    (allowed : Holdable arrives s cmd) : cmd.plogLoad = true → cmd.peerAcceptorId = cmd.localAcceptorId := by
  intro load
  cases allowed with
  | arrive other delivered => cases load
  | switch other entity held known =>
      simp only [PaxosCmd.switchToLocalView] at load ⊢
      split
      · rw [if_pos ‹_›] at load
        exact tokens other (.inl held) load
      · rw [if_neg ‹_›] at load
        exact (tokens other (.inl held) load).symm
  | waiting key info peer _ live slot =>
      rw [(regular.slots key info live peer cmd slot).2] at load
      cases load
  | restored other info held live first second => exact tokens other (.inl held) load

theorem tokens_move (arrives : PaxosCmd → Prop) (s t : Site n) (move : Move arrives s t) (regular : Regular s) (tokens : Tokens s) :
    Tokens t := by
  cases move with
  | hold cmd allowed =>
      refine tokens_gain s _ tokens fun other there => ?_
      rcases there with held | asked | answered
      · rcases List.mem_cons.mp held with rfl | held
        · exact .inr (.inr (.inr (holdable_tokens arrives s other regular tokens allowed)))
        · exact .inl held
      · exact .inr (.inl asked)
      · exact .inr (.inr (.inl answered))
  | release rest fewer kept => exact tokens_fewer s _ tokens fewer (fun _ member => member) fun _ member => member
  | unload cmd rest held idle =>
      exact tokens_fewer s _ tokens (fun other member => by rw [held]; exact List.mem_cons_of_mem _ member) (fun _ member => member)
        fun _ member => member
  | newEntity entityId new => exact tokens_req s _ (loadReq entityId) tokens rfl rfl rfl fun _ => rfl
  | askPlog cmd entity held known ours =>
      exact tokens_req s _ _ tokens rfl rfl rfl fun load => tokens cmd (.inl held) load
  | createLoading key entity flags pending info absent known openable seen blank uncertain =>
      exact tokens_req s _ (getReq key) tokens rfl rfl rfl fun load => by cases load
  | store cmd entity info peer next marks held known ours sender live certain learns newer =>
      exact tokens_req s _ _ tokens rfl rfl rfl fun load => by cases load
  | write key entity info client started base reading next valueId marks =>
      exact tokens_req s _ _ tokens rfl rfl rfl fun load => by cases load
  | setWritten index cmd result next operation isSet outcome => exact tokens_rsp s _ index cmd _ next tokens rfl rfl rfl rfl rfl rfl
  | setLost index cmd result next operation isSet failed => exact tokens_rsp s _ index cmd _ next tokens rfl rfl rfl rfl rfl rfl
  | getRead index cmd next operation isGet =>
      cases s.plogRecord cmd.key with
      | none => exact tokens_rsp s _ index cmd _ next tokens rfl rfl rfl rfl rfl rfl
      | some record => exact tokens_rsp s _ index cmd _ next tokens rfl rfl rfl rfl rfl rfl
  | getLost index cmd result next operation isGet failed => exact tokens_rsp s _ index cmd _ next tokens rfl rfl rfl rfl rfl rfl
  | maxRead index maxCommittedEntry cmd next isLoad own => exact tokens_rsp s _ index cmd _ next tokens rfl rfl rfl rfl rfl rfl
  | maxLost index cmd result next isLoad own failed => exact tokens_rsp s _ index cmd _ next tokens rfl rfl rfl rfl rfl rfl
  | returnChosen index cmd record next isReturn durable accepted =>
      exact tokens_fewer s _ tokens (fun _ member => member) (fun _ member => List.mem_of_mem_eraseIdx member) fun _ member => member
  | returnBare index cmd record next isReturn durable result =>
      exact tokens_fewer s _ tokens (fun _ member => member) (fun _ member => List.mem_of_mem_eraseIdx member) fun _ member => member
  | returnEcho index cmd next isReturn result =>
      exact tokens_fewer s _ tokens (fun _ member => member) (fun _ member => List.mem_of_mem_eraseIdx member) fun _ member => member
  | chosen key entity info pushed => exact tokens_same s _ tokens (by simp) (by simp) (by simp)
  | setDone index cmd =>
      exact tokens_fewer s _ tokens (by simp [setEntry]) (by simp [setEntry]) fun _ member => List.mem_of_mem_eraseIdx member
  | getDone index cmd entity info record code =>
      refine tokens_fewer s _ tokens ?_ ?_ fun _ member => List.mem_of_mem_eraseIdx member
      · by_cases fine : code = .ok <;> simp [fine, setEntry]
      · by_cases fine : code = .ok <;> simp [fine, setEntry]
  | opFailed index cmd =>
      exact tokens_fewer s _ tokens (fun _ member => member) (fun _ member => member) fun _ member => List.mem_of_mem_eraseIdx member
  | loadFailed index cmd =>
      exact tokens_fewer s _ tokens (fun _ member => member) (fun _ member => member) fun _ member => List.mem_of_mem_eraseIdx member
  | ignored index cmd =>
      exact tokens_fewer s _ tokens (fun _ member => member) (fun _ member => member) fun _ member => List.mem_of_mem_eraseIdx member
  | loadDone index cmd entity next isLoad done known loading =>
      refine tokens_gain s _ tokens fun other there => ?_
      rcases there with held | asked | answered
      · rcases List.mem_append.mp held with parked | held
        · have fine := (regular.entities cmd.entityId entity known).parked other (Option.mem_toList.mp parked)
          exact .inr (.inr (.inr fun load => by rw [fine.2] at load; cases load))
        · rcases List.mem_cons.mp held with rfl | held
          · exact .inr (.inr (.inl (List.mem_of_getElem? next)))
          · exact .inl held
      · exact .inr (.inl asked)
      · exact .inr (.inr (.inl (List.mem_of_mem_eraseIdx answered)))
  | _ => exact tokens_same s _ tokens rfl rfl rfl

theorem orderly_moves (arrives : PaxosCmd → Prop) (s t : Site n) (moves : Moves arrives s t) (orderly : Orderly s) : Orderly t := by
  induction moves with
  | refl => exact orderly
  | tail _ move ih => exact ⟨regular_move arrives _ _ move ih.regular ih.tokens, tokens_move arrives _ _ move ih.regular ih.tokens⟩

end Site

namespace Node

theorem leads_orderly (s t : Node n) (leads : Leads [] s t) (orderly : Orderly (s.site [])) : Orderly (t.site []) :=
  orderly_moves (fun _ => False) _ _ (leads _ [] fun _ member => member) orderly

theorem orderly_hand (arrives : PaxosCmd → Prop) (s t : Node n) (hand : List PaxosCmd) (moves : Moves arrives (s.site []) (t.site hand))
    (orderly : Orderly (s.site [])) : Orderly (t.site []) := by
  have after := orderly_moves arrives _ _ moves orderly
  exact ⟨regular_same _ _ after.regular rfl rfl, tokens_fewer _ _ after.tokens (fun _ member => by cases member) (fun _ member => member)
    fun _ member => member⟩

theorem loaded_fit (s : Node n) (entityId : Nat) (hand : List PaxosCmd) (loaded : Loaded entityId (s.site hand)) (entity : EntityInfo n)
    (known : s.entityInfos entityId = some entity) : Fit entity := by
  obtain ⟨other, here, settled⟩ := loaded
  have same : other = entity := Option.some.inj (here.symm.trans known)
  subst same
  exact ⟨settled.below, fun loading => by rw [settled.ready] at loading; cases loading⟩

theorem waiting_msgs_leads (o : Options n) (p : EntryPtr) (peers : List (Fin n)) (s t : Node n)
    (loaded : Loaded p.key.entityId (s.site [])) (orderly : Orderly (s.site []))
    (done : handleWaitingMsgs o p peers s = some t) : Leads [] s t := by
  induction peers generalizing s with
  | nil =>
      cases done
      exact leads_refl [] _
  | cons peer rest ih =>
      rw [handleWaitingMsgs] at done
      obtain ⟨info, found, after⟩ := Option.bind_eq_some_iff.mp done
      obtain ⟨live, _⟩ := deref_some s p info found
      split at after
      · exact ih s loaded orderly after
      · rename_i cmd slot
        obtain ⟨⟨ret, u⟩, handled, after⟩ := Option.bind_eq_some_iff.mp after
        obtain ⟨again, foundAgain, after⟩ := Option.bind_eq_some_iff.mp after
        obtain ⟨about, plain⟩ := orderly.regular.slots p.key info live peer cmd slot
        have sameId : cmd.entityId = p.key.entityId := by rw [← about]; rfl
        have taken : Leads [] s (s.setEntry p.key (some { info with waitingMsgs := Function.update info.waitingMsgs peer none })) := by
          apply leads_move
          intro arrives hand _
          exact .entry p.key info _ live (.unslot peer)
        have ready := leads_loaded [] p.key.entityId s _ taken loaded
        have first : Leads [] s u := by
          refine leads_hold [] cmd s u plain (fun arrives hand _ => .waiting p.key info peer cmd live slot) ?_
          refine leads_trans [cmd] s _ u (leads_any [cmd] s _ taken) (handle_paxos_leads o _ u cmd ret plain ?_ handled)
          rw [sameId]
          exact loaded_fit _ p.key.entityId [] ready
        split at after
        · cases after
          exact first
        · exact leads_trans [] s u t first (ih u (leads_loaded [] p.key.entityId s u first loaded) (leads_orderly s u first orderly) after)

theorem handle_waiting_leads (o : Options n) (s t : Node n) (p : EntryPtr) (loaded : Loaded p.key.entityId (s.site []))
    (orderly : Orderly (s.site [])) (done : s.handleWaitingMsg o p = some t) : Leads [] s t := by
  obtain ⟨u, handled, sized⟩ := Option.bind_eq_some_iff.mp done
  have first := waiting_msgs_leads o p (List.finRange n) s u loaded orderly handled
  obtain ⟨info, size, found, effect⟩ := update_memory_size_spec o u t p sized
  refine leads_trans [] s u t first ?_
  apply leads_site [] u t _ effect
  intro arrives hand _
  exact .entry p.key info _ (deref_some u p info found).1 (.book info.broadcast info.compensateMsgs info.peerToSync size
    info.expiredTimestampSec info.catchupTimestampMsec info.catchupTimes)

-- The node that has taken a completion off its queue.
def taken (s : Node n) (index : Nat) : Node n := { s with plogRsps := s.plogRsps.eraseIdx index }

theorem complete_entry_spec (s t : Node n) (key : EntryKey) (p : EntryPtr) (done : s.completeEntry key = some (p, t)) :
    ∃ info, s.entryInfos key = some info ∧ info.uncertain = true ∧ p.key = key ∧
      t = s.setEntry key (some { info with uncertain := false }) := by
  obtain ⟨info, live, rest⟩ := Option.bind_eq_some_iff.mp done
  split at rest
  · cases rest
  · rename_i pending
    cases rest
    exact ⟨info, live, by simpa using pending, rfl, rfl⟩

-- ClearEntryInfo after a plog operation that failed.
theorem failed_leads (s u t : Node n) (index : Nat) (cmd : PaxosCmd) (p : EntryPtr) (next : s.plogRsps[index]? = some cmd)
    (entryOp : cmd.plogLoad = false ∧ (cmd.plogSetRecord = true ∨ cmd.plogGetRecord = true)) (failed : cmd.result ≠ .ok)
    (completed : (s.taken index).completeEntry cmd.key = some (p, u)) (cleared : u.clearEntryInfo p = some t) : Leads [] s t := by
  obtain ⟨info, live, uncertain, about, rfl⟩ := complete_entry_spec (s.taken index) u cmd.key p completed
  obtain ⟨info', entity, found, owner, outcome⟩ := clear_entry_spec _ t p cleared
  obtain ⟨here, _⟩ := deref_some _ p info' found
  rw [about] at here
  simp only [setEntry, Function.update_self, Option.some.injEq] at here
  subst here
  obtain ⟨known, _⟩ := entity_of_some _ p.key _ entity owner
  have known : s.entityInfos cmd.entityId = some entity := by
    rw [about] at known
    exact known
  intro arrives hand _
  rcases outcome with ⟨free, effect⟩ | ⟨client, asking, _, effect⟩
  · have apart : ∀ client, entity.clientCmd = some client → client.entry ≠ cmd.entry := by
      intro client asking
      rcases free with idle | ⟨other, asked, elsewhere⟩
      · exact absurd (idle.symm.trans asking) (by simp)
      · have same : other = client := Option.some.inj (asked.symm.trans asking)
        subst same
        rw [about] at elsewhere
        exact elsewhere
    rw [effect hand, about]
    refine .head (.opFailed index cmd entity info next entryOp failed live uncertain known apart) (moves_of_eq arrives _ _ ?_)
    simp [site, taken, setEntry, Site.setEntry, Site.note, lostMark, destroyedMark, Site.plogRecord]
  · rw [effect hand, about]
    refine .head (.finish cmd.entityId client.valueId entity client .entryCleanup known asking (by intro wrong; cases wrong))
      (.head (.opFailed index cmd { entity with clientCmd := none } info next entryOp failed live uncertain
        (by simp [Site.setEntity]) fun other asked => by cases asked) (moves_of_eq arrives _ _ ?_))
    simp [site, taken, setEntry, Site.setEntry, Site.setEntity, Site.note, lostMark, destroyedMark, Site.plogRecord, finished,
      PaxosCmd.key]

theorem raise_taken (s : Node n) (index : Nat) (key : EntryKey) (entity : EntityInfo n) (machine : EntryStateMachine n) (pushed : Bool)
    (hand : List PaxosCmd) (old new : EntryInfo n) :
    Site.setEntry { ((s.site hand).setEntry key (some old)).raise key entity machine pushed with plogRsps := s.plogRsps.eraseIdx index }
        key (some new) =
      ((((s.taken index).setEntry key (some old)).site hand).raise key entity machine pushed).setEntry key (some new) := by
  simp only [raise, handOver]
  split <;> rfl

-- The completion of a Set with the UpdateByChosenEntry after it.
theorem set_done_leads (o : Options n) (s u v : Node n) (index : Nat) (cmd : PaxosCmd) (p : EntryPtr)
    (next : s.plogRsps[index]? = some cmd) (isSet : cmd.plogSetRecord = true) (entryOp : cmd.plogLoad = false)
    (success : cmd.result = .ok) (completed : (s.taken index).completeEntry cmd.key = some (p, u))
    (raised : u.updateByChosenEntry o p = some v) :
    Leads [] s v ∧ ∃ info, v.entryInfos p.key = some info ∧ info.uncertain = false := by
  obtain ⟨info, live, uncertain, about, rfl⟩ := complete_entry_spec (s.taken index) u cmd.key p completed
  obtain ⟨info', entity, found, owner, outcome⟩ := update_by_chosen_spec o _ v p raised
  obtain ⟨here, _⟩ := deref_some _ p info' found
  rw [about] at here
  simp only [setEntry, Function.update_self, Option.some.injEq] at here
  subst here
  obtain ⟨known, _⟩ := entity_of_some _ p.key _ entity owner
  have known : s.entityInfos cmd.entityId = some entity := by
    rw [about] at known
    exact known
  have move (arrives : PaxosCmd → Prop) (hand : List PaxosCmd) (pushed : Bool) := @Move.setDone n arrives (s.site hand) index cmd entity
    info pushed next isSet entryOp success live uncertain known
  rcases outcome with ⟨open_, rfl⟩ | ⟨closed, _, expired, pushed, effect⟩
  · refine ⟨fun arrives hand _ => .head (move arrives hand false) (moves_of_eq arrives _ _ ?_), { info with uncertain := false },
      by simp [about, setEntry], rfl⟩
    rw [raiseIfChosen, if_neg open_]
    rfl
  · refine ⟨fun arrives hand _ => ?_, { info with uncertain := false, expiredTimestampSec := expired }, ?_, rfl⟩
    · rw [effect hand]
      refine .head (move arrives hand pushed) (.head (.entry cmd.key { info with uncertain := false } _ (by simp [Site.setEntry])
        (.book info.broadcast info.compensateMsgs info.peerToSync info.totalSize expired info.catchupTimestampMsec info.catchupTimes))
        (moves_of_eq arrives _ _ ?_))
      rw [raiseIfChosen, if_pos closed, about]
      exact raise_taken s index cmd.key entity info.machine pushed hand _ _
    · have entries : v.entryInfos = _ := congrArg Site.entryInfos (effect [])
      rw [entries]
      simp [Site.setEntry]

theorem finish_if_chosen_leads (s t : Node n) (p : EntryPtr) (certain : ∀ info, s.entryInfos p.key = some info → info.uncertain = false)
    (done : s.finishIfChosen p = some t) : Leads [] s t ∧ t.entryInfos = s.entryInfos := by
  obtain ⟨info, found, rest⟩ := Option.bind_eq_some_iff.mp done
  obtain ⟨live, _⟩ := deref_some s p info found
  split at rest
  · cases rest
    exact ⟨leads_refl [] _, rfl⟩
  · rename_i closed
    have closed : info.machine.entryState = .chosen := by simpa using closed
    split at rest
    · cases rest
    · obtain ⟨entity, owner, rest⟩ := Option.bind_eq_some_iff.mp rest
      obtain ⟨known, _⟩ := entity_of_some s p.key info entity owner
      split at rest
      · cases rest
        exact ⟨leads_refl [] _, rfl⟩
      · rename_i client asking
        split at rest
        · rename_i mine
          obtain ⟨again, knownAgain, ⟨_, rfl⟩ | ⟨other, asked, effect⟩⟩ := finish_client_spec s t p.key.entityId .ok rest
          · exact ⟨leads_refl [] _, rfl⟩
          · have same : again = entity := Option.some.inj (knownAgain.symm.trans known)
            subst same
            have same : other = client := Option.some.inj (asked.symm.trans asking)
            subst same
            refine ⟨leads_site [] s t _ effect fun arrives hand _ => ?_, congrArg Site.entryInfos (effect [])⟩
            refine .finish p.key.entityId other.valueId again other .ok known asking fun _ => ⟨rfl, ?_⟩
            exact .chosen again info known (by rw [mine.1]; exact live) (certain info live) closed mine.2
        · cases rest
          exact ⟨leads_refl [] _, rfl⟩

theorem sync_after_set_sends (s t : Node n) (p : EntryPtr) (certain : ∀ info, s.entryInfos p.key = some info → info.uncertain = false)
    (done : s.syncAfterSet p = some t) : Sends s t := by
  obtain ⟨info, found, rest⟩ := Option.bind_eq_some_iff.mp done
  split at rest
  · exact broadcast_sends s t p false (fun _ => certain) rest
  · split at rest
    · split at rest
      · obtain ⟨_, _, rest⟩ := Option.bind_eq_some_iff.mp rest
        obtain ⟨_, _, rest⟩ := Option.bind_eq_some_iff.mp rest
        exact sync_to_peers_sends s t p false _ (fun _ => certain) rest
      · split at rest
        · obtain ⟨_, _, rest⟩ := Option.bind_eq_some_iff.mp rest
          obtain ⟨_, _, rest⟩ := Option.bind_eq_some_iff.mp rest
          exact sync_to_peers_sends s t p false _ (fun _ => certain) rest
        · cases rest
          exact sends_refl _
    · obtain ⟨peer, _, rest⟩ := Option.bind_eq_some_iff.mp rest
      exact sync_sends s t p peer false certain rest

theorem handle_set_leads (o : Options n) (s t : Node n) (index : Nat) (cmd : PaxosCmd) (ret : RetCode)
    (next : s.plogRsps[index]? = some cmd) (isSet : cmd.plogSetRecord = true) (entryOp : cmd.plogLoad = false)
    (loaded : Loaded cmd.entityId (s.site [])) (orderly : Orderly (s.site []))
    (done : (s.taken index).handleSetFromPlog o cmd = some (ret, t)) : Leads [] s t := by
  obtain ⟨⟨p, u⟩, completed, rest⟩ := Option.bind_eq_some_iff.mp done
  have about := (complete_entry_spec (s.taken index) u cmd.key p completed).choose_spec.2.2.1
  have sameId : p.key.entityId = cmd.entityId := by rw [about]; rfl
  dsimp only at rest
  split at rest
  · rename_i failed
    obtain ⟨v, cleared, rest⟩ := Option.bind_eq_some_iff.mp rest
    cases rest
    exact failed_leads s u t index cmd p next ⟨entryOp, .inl isSet⟩ failed completed cleared
  · rename_i success
    obtain ⟨v, raised, rest⟩ := Option.bind_eq_some_iff.mp rest
    obtain ⟨first, info, live, certain⟩ := set_done_leads o s u v index cmd p next isSet entryOp (by simpa using success) completed raised
    obtain ⟨w, answered, rest⟩ := Option.bind_eq_some_iff.mp rest
    have settled : ∀ other, v.entryInfos p.key = some other → other.uncertain = false := by
      intro other here
      rw [live] at here
      cases here
      exact certain
    obtain ⟨second, entries⟩ := finish_if_chosen_leads v w p settled answered
    obtain ⟨flags, _, rest⟩ := Option.bind_eq_some_iff.mp rest
    split at rest
    · cases rest
      exact leads_trans [] s v t first second
    · obtain ⟨x, synced, rest⟩ := Option.bind_eq_some_iff.mp rest
      obtain ⟨last, found, rest⟩ := Option.bind_eq_some_iff.mp rest
      obtain ⟨y, waited, rest⟩ := Option.bind_eq_some_iff.mp rest
      cases rest
      have sends := sync_after_set_sends w x p (by rw [entries]; exact settled) synced
      have cleared : Leads [] x (x.setEntry p.key (some { last with broadcast := false, compensateMsgs := false, peerToSync := none })) := by
        apply leads_move
        intro arrives hand _
        exact .entry p.key last _ (deref_some x p last found).1 (.book false false none last.totalSize last.expiredTimestampSec
          last.catchupTimestampMsec last.catchupTimes)
      have before := leads_trans [] s v _ first (leads_trans [] v w _ second (leads_trans [] w x _ sends.leads cleared))
      refine leads_trans [] s _ t before (handle_waiting_leads o _ t p ?_ (leads_orderly s _ before orderly) waited)
      rw [sameId]
      exact leads_loaded [] cmd.entityId s _ before loaded

-- The record a Get completion hands to the machine.
theorem get_result (cmd out : PaxosCmd)
    (same : out = if cmd.result = .implPlogNotFound then { cmd with localEntryRecord := {}, result := .ok } else cmd) :
    out.entityId = cmd.entityId ∧ (out.result ≠ .ok → out = cmd) ∧ (out.result = .ok →
      cmd.result = .ok ∧ out.localEntryRecord = cmd.localEntryRecord ∨
        cmd.result = .implPlogNotFound ∧ out.localEntryRecord = {}) := by
  subst same
  split
  · rename_i missing
    exact ⟨rfl, fun wrong => absurd rfl wrong, fun _ => .inr ⟨missing, rfl⟩⟩
  · exact ⟨rfl, fun _ => rfl, fun success => .inl ⟨success, rfl⟩⟩

theorem handle_get_moves (arrives : PaxosCmd → Prop) (o : Options n) (s t : Node n) (index : Nat) (cmd : PaxosCmd) (ret : RetCode)
    (next : s.plogRsps[index]? = some cmd) (isGet : cmd.plogGetRecord = true) (entryOp : cmd.plogLoad = false)
    (notSet : cmd.plogSetRecord = false) (loaded : Loaded cmd.entityId (s.site [])) (orderly : Orderly (s.site []))
    (done : (s.taken index).handleGetFromPlog o cmd = some (ret, t)) : Moves arrives (s.site []) (t.site []) := by
  obtain ⟨⟨p, u⟩, completed, rest⟩ := Option.bind_eq_some_iff.mp done
  dsimp only at rest
  generalize shape : (if cmd.result = .implPlogNotFound then { cmd with localEntryRecord := {}, result := .ok } else cmd) = out at rest
  obtain ⟨_, failing, success⟩ := get_result cmd out shape.symm
  split at rest
  · rename_i failed
    obtain ⟨v, cleared, rest⟩ := Option.bind_eq_some_iff.mp rest
    cases rest
    have same := failing failed
    subst same
    exact failed_leads s u t index out p next ⟨entryOp, .inr isGet⟩ failed completed cleared arrives [] (by simp)
  · rename_i fine
    have read := success (by simpa using fine)
    obtain ⟨info, live, uncertain, about, rfl⟩ := complete_entry_spec (s.taken index) u cmd.key p completed
    have sameId : p.key.entityId = cmd.entityId := by rw [about]; rfl
    obtain ⟨info', found, rest⟩ := Option.bind_eq_some_iff.mp rest
    obtain ⟨entity, owner, rest⟩ := Option.bind_eq_some_iff.mp rest
    obtain ⟨here, _⟩ := deref_some _ p info' found
    rw [about] at here
    simp only [setEntry, Function.update_self, Option.some.injEq] at here
    subst here
    obtain ⟨known, _⟩ := entity_of_some _ p.key _ entity owner
    have known : s.entityInfos cmd.entityId = some entity := by
      rw [about] at known
      exact known
    obtain ⟨⟨code, machine⟩, updated, rest⟩ := Option.bind_eq_some_iff.mp rest
    obtain ⟨v, set, rest⟩ := Option.bind_eq_some_iff.mp rest
    obtain ⟨w, sized, after⟩ := Option.bind_eq_some_iff.mp rest
    obtain ⟨again, foundAgain, rfl⟩ := set_machine_spec _ v p machine set
    obtain ⟨liveAgain, _⟩ := deref_some _ p again foundAgain
    rw [about] at liveAgain
    simp only [setEntry, Function.update_self, Option.some.injEq] at liveAgain
    subst liveAgain
    obtain ⟨last, size, foundLast, effect⟩ := update_memory_size_spec o _ w p sized
    obtain ⟨liveLast, _⟩ := deref_some _ p last foundLast
    rw [about] at liveLast
    simp only [setEntry, Function.update_self, Option.some.injEq] at liveLast
    subst liveLast
    have move (pushed : Bool) := @Move.getDone n arrives (s.site []) index cmd entity
      info out.localEntryRecord code machine pushed rfl next isGet entryOp notSet read live uncertain known updated
    have sited : w.site [] =
        { (s.site []).setEntry cmd.key (some { info with uncertain := false, machine := machine, totalSize := size }) with
          plogRsps := s.plogRsps.eraseIdx index } := by
      rw [effect [], about]
      simp [site, taken, setEntry, Site.setEntry]
    have book (info : EntryInfo n) (size expired : Nat) (x : Site n) := @EntryMove.book n x cmd.key
      info info.broadcast info.compensateMsgs info.peerToSync size expired info.catchupTimestampMsec info.catchupTimes
    dsimp only at after
    split at after
    · rename_i failed
      cases after
      rw [sited]
      refine .head (move false) (.head (.entry cmd.key { info with uncertain := false, machine := machine } _
        (by simp [failed, Site.setEntry]) (book _ size info.expiredTimestampSec _)) (moves_of_eq arrives _ _ ?_))
      simp [site, failed, Site.setEntry]
    · rename_i fine
      have fine : code = .ok := by simpa using fine
      obtain ⟨x, raised, last⟩ := Option.bind_eq_some_iff.mp after
      obtain ⟨y, waited, last⟩ := Option.bind_eq_some_iff.mp last
      obtain ⟨_, _, last⟩ := Option.bind_eq_some_iff.mp last
      obtain ⟨_, _, last⟩ := Option.bind_eq_some_iff.mp last
      obtain ⟨z, caught, last⟩ := Option.bind_eq_some_iff.mp last
      cases last
      obtain ⟨info', entity', found', owner', outcome⟩ := update_by_chosen_spec o w x p raised
      have entries : w.entryInfos = _ := congrArg Site.entryInfos sited
      have entities : w.entityInfos = s.entityInfos := congrArg Site.entityInfos sited
      obtain ⟨here, _⟩ := deref_some w p info' found'
      rw [entries, about] at here
      simp only [Site.setEntry, Function.update_self, Option.some.injEq] at here
      subst here
      obtain ⟨knownAgain, _⟩ := entity_of_some w p.key _ entity' owner'
      rw [entities, sameId] at knownAgain
      have same : entity' = entity := Option.some.inj (knownAgain.symm.trans known)
      subst same
      have first : Moves arrives (s.site []) (x.site []) := by
        rcases outcome with ⟨open_, rfl⟩ | ⟨closed, _, expired, pushed, effect⟩
        · rw [sited]
          refine .head (move false) (.head (.entry cmd.key { info with uncertain := false, machine := machine } _
            (by simp [fine, Site.setEntry]) (book _ size info.expiredTimestampSec _)) (moves_of_eq arrives _ _ ?_))
          rw [if_pos fine, raiseIfChosen, if_neg open_]
          simp [site, Site.setEntry]
        · rw [effect [], sited, about]
          refine .head (move pushed) (.head (.entry cmd.key { info with uncertain := false, machine := machine } _
            (by simp [fine, Site.setEntry]) (book _ size expired _)) (moves_of_eq arrives _ _ ?_))
          rw [if_pos fine, raiseIfChosen, if_pos closed]
          simp only [raise, handOver]
          split <;> simp [site, Site.setEntry, Site.setEntity, Site.plogRecord]
      have ready : Loaded p.key.entityId (x.site []) := by
        rw [sameId]
        exact loaded_moves arrives cmd.entityId _ _ first loaded
      have second := handle_waiting_leads o x y p ready (orderly_moves arrives _ _ first orderly) waited
      have third := try_catchup_loaded o y t p.key.entityId caught (leads_loaded [] p.key.entityId x y second ready)
      exact .trans first (.trans (second arrives [] (by simp)) (third arrives [] (by simp)))

-- The command that waited for the load is taken out and comes again; only then
-- the load response leaves the hand.
theorem parked_cmd_moves (arrives : PaxosCmd → Prop) (o : Options n) (s t : Node n) (rsp : PaxosCmd)
    (loaded : Loaded rsp.entityId (s.site [])) (orderly : Orderly (s.site [])) (done : s.handleParkedCmd o rsp.entityId = some t) :
    Moves arrives (s.site [rsp]) (t.site []) := by
  obtain ⟨entity, known, rest⟩ := Option.bind_eq_some_iff.mp done
  split at rest
  · rename_i idle
    cases rest
    refine .single (.unload rsp [] rfl fun other here => ?_)
    have same : other = entity := Option.some.inj (here.symm.trans known)
    rw [same]
    exact idle
  · rename_i client asking
    obtain ⟨⟨ret, last⟩, handled, rest⟩ := Option.bind_eq_some_iff.mp rest
    cases rest
    obtain ⟨sameId, notReplay⟩ := (orderly.regular.entities rsp.entityId entity known).asked client asking
    have sane := loaded_fit s rsp.entityId [] loaded entity known
    have leads := handle_client_leads o (s.setEntity rsp.entityId (some { entity with clientCmd := none })) t client ret notReplay (by
      intro other here
      rw [sameId] at here
      simp only [setEntity, Function.update_self, Option.some.injEq] at here
      subst here
      exact ⟨sane.below, sane.level⟩) handled
    refine .head (.entity rsp.entityId entity _ known .take) (.head (.unload rsp [] rfl fun other here => ?_) (leads arrives [] (by simp)))
    simp only [Site.setEntity, Function.update_self, Option.some.injEq] at here
    rw [← here]

theorem load_failed_leads (s u : Node n) (index : Nat) (cmd : PaxosCmd) (entity : EntityInfo n)
    (next : s.plogRsps[index]? = some cmd) (isLoad : cmd.plogLoad = true) (failed : cmd.result ≠ .ok)
    (known : s.entityInfos cmd.entityId = some entity) (loading : entity.loading = true)
    (answered : ((s.taken index).setEntity cmd.entityId (some { entity with loading := false })).finishClientCmd cmd.entityId cmd.result =
      some u) : Leads [] s (u.setEntity cmd.entityId none) := by
  obtain ⟨other, here, outcome⟩ := finish_client_spec _ u cmd.entityId cmd.result answered
  simp only [setEntity, Function.update_self, Option.some.injEq] at here
  subst here
  intro arrives hand _
  have last : (u.setEntity cmd.entityId none).site hand = (u.site hand).setEntity cmd.entityId none := rfl
  rcases outcome with ⟨idle, rfl⟩ | ⟨client, asking, effect⟩
  · refine .head (.loadFailed index cmd entity next isLoad failed known loading idle) (moves_of_eq arrives _ _ ?_)
    simp [site, taken, setEntity, Site.setEntity]
  · rw [last, effect hand]
    refine .head (.finish cmd.entityId client.valueId entity client cmd.result known asking fun success => absurd success failed)
      (.head (.loadFailed index cmd { entity with clientCmd := none } next isLoad failed (by simp [Site.setEntity]) loading rfl)
        (moves_of_eq arrives _ _ ?_))
    simp [site, taken, setEntity, Site.setEntity, finished]

-- The parked message is handled in hand, right after the load.
theorem load_done_moves (arrives : PaxosCmd → Prop) (o : Options n) (s u : Node n) (index : Nat) (cmd : PaxosCmd) (entity : EntityInfo n)
    (next : s.plogRsps[index]? = some cmd) (isLoad : cmd.plogLoad = true) (success : cmd.result = .ok)
    (known : s.entityInfos cmd.entityId = some entity) (loading : entity.loading = true) (orderly : Orderly (s.site []))
    (parked : handleParkedMsg o (((s.taken index).setEntity cmd.entityId (some
      (updateByLoadFromPlog { entity with loading := false } cmd.entry cmd.maxCommittedEntry))).mark
        (.loaded cmd.entityId cmd.maxCommittedEntry)) cmd.entityId = some u) :
    Moves arrives (s.site []) (u.site [cmd]) ∧ Loaded cmd.entityId (u.site []) := by
  obtain ⟨other, here, rest⟩ := Option.bind_eq_some_iff.mp parked
  simp only [mark, setEntity, Function.update_self, Option.some.injEq] at here
  subst here
  have move := @Move.loadDone n arrives (s.site []) index cmd entity next isLoad success known loading
  have fine := orderly.regular.entities cmd.entityId entity known
  have settled : Settled { updateByLoadFromPlog { entity with loading := false } cmd.entry cmd.maxCommittedEntry with waitingMsg := none } :=
    ⟨rfl, (loaded_from_plog_regular cmd.entityId entity cmd.entry cmd.maxCommittedEntry fine).below⟩
  cases waits : entity.waitingMsg with
  | none =>
      have quiet : (updateByLoadFromPlog { entity with loading := false } cmd.entry cmd.maxCommittedEntry).waitingMsg = none := waits
      rw [quiet] at rest
      cases rest
      have eta : updateByLoadFromPlog { entity with loading := false } cmd.entry cmd.maxCommittedEntry =
          { updateByLoadFromPlog { entity with loading := false } cmd.entry cmd.maxCommittedEntry with waitingMsg := none } := by
        simp only [updateByLoadFromPlog, waits]
      refine ⟨.head move (moves_of_eq arrives _ _ ?_), ?_⟩
      · simp [site, taken, mark, setEntity, Site.setEntity, updateByLoadFromPlog, waits]
      · rw [eta]
        exact ⟨_, by simp [site, mark, setEntity], settled⟩
  | some msg =>
      have noisy : (updateByLoadFromPlog { entity with loading := false } cmd.entry cmd.maxCommittedEntry).waitingMsg = some msg := waits
      rw [noisy] at rest
      obtain ⟨⟨ret, last⟩, handled, rest⟩ := Option.bind_eq_some_iff.mp rest
      cases rest
      obtain ⟨about, plain⟩ := fine.parked msg waits
      have merged (x : Node n) (first second : Option (EntityInfo n)) (m m' : Mark n) :
          (((x.setEntity cmd.entityId first).mark m).mark m').setEntity cmd.entityId second =
            ((x.setEntity cmd.entityId second).mark m).mark m' := by
        simp [setEntity, mark]
      rw [merged] at handled
      have ready (hand : List PaxosCmd) : Loaded cmd.entityId (((((s.taken index).setEntity cmd.entityId (some
          { updateByLoadFromPlog { entity with loading := false } cmd.entry cmd.maxCommittedEntry with waitingMsg := none })).mark
            (.loaded cmd.entityId cmd.maxCommittedEntry)).mark (.parked msg.key msg.uuid entity.clientCmd)).site hand) :=
        ⟨_, by simp [site, setEntity, mark], settled⟩
      have leads := handle_paxos_leads o ((((s.taken index).setEntity cmd.entityId (some
        { updateByLoadFromPlog { entity with loading := false } cmd.entry cmd.maxCommittedEntry with waitingMsg := none })).mark
          (.loaded cmd.entityId cmd.maxCommittedEntry)).mark (.parked msg.key msg.uuid entity.clientCmd)) u msg ret plain (by
          rw [about]
          exact loaded_fit _ cmd.entityId [] (ready [])) handled
      refine ⟨?_, leads_loaded [msg] cmd.entityId _ u leads (ready [msg])⟩
      refine .head move (.trans (moves_of_eq arrives _ _ ?_) (.trans (leads arrives (msg :: [cmd]) (by simp))
        (.single (.release [cmd] (fun _ member => List.mem_cons_of_mem _ member) fun other member load => ?_))))
      · simp [site, taken, setEntity, Site.setEntity, updateByLoadFromPlog, waits, mark]
      · rcases List.mem_cons.mp member with rfl | member
        · rw [plain] at load
          cases load
        · exact member

theorem handle_load_moves (arrives : PaxosCmd → Prop) (o : Options n) (s t : Node n) (index : Nat) (cmd : PaxosCmd) (ret : RetCode)
    (next : s.plogRsps[index]? = some cmd) (isLoad : cmd.plogLoad = true) (orderly : Orderly (s.site []))
    (done : (s.taken index).handleLoadFromPlog o cmd = some (ret, t)) : Moves arrives (s.site []) (t.site []) := by
  obtain ⟨entity, known, rest⟩ := Option.bind_eq_some_iff.mp done
  split at rest
  · cases rest
  · rename_i loading
    have loading : entity.loading = true := by simpa using loading
    dsimp only at rest
    split at rest
    · rename_i failed
      obtain ⟨u, answered, rest⟩ := Option.bind_eq_some_iff.mp rest
      cases rest
      exact load_failed_leads s u index cmd entity next isLoad failed known loading answered arrives [] (by simp)
    · rename_i success
      obtain ⟨u, parked, rest⟩ := Option.bind_eq_some_iff.mp rest
      obtain ⟨v, asked, rest⟩ := Option.bind_eq_some_iff.mp rest
      cases rest
      obtain ⟨first, loaded⟩ := load_done_moves arrives o s u index cmd entity next isLoad (by simpa using success) known loading orderly
        parked
      exact .trans first (parked_cmd_moves arrives o u t cmd loaded (orderly_hand arrives s u [cmd] first orderly) asked)

theorem handle_recover_leads (o : Options n) (s t : Node n) (cmd : PaxosCmd) (ret : RetCode)
    (fit : ∀ entity, s.entityInfos cmd.entityId = some entity → Fit entity) (done : s.handleRecoverRspCmd o cmd = some (ret, t)) :
    Leads [] s t := by
  obtain ⟨⟨code, u⟩, made, rest⟩ := Option.bind_eq_some_iff.mp done
  have first := (entity_if_miss_leads o s u cmd.entityId code made).1
  dsimp only at rest
  split at rest
  · cases rest
    exact first
  · obtain ⟨entity, known, rest⟩ := Option.bind_eq_some_iff.mp rest
    have sane := entity_if_miss_fit o s u cmd.entityId code made fit entity known
    refine leads_trans [] s u t first ?_
    split at rest
    · cases rest
      apply leads_move
      intro arrives hand _
      exact .entity cmd.entityId entity _ known (.recover false _)
    · obtain ⟨v, caught, rest⟩ := Option.bind_eq_some_iff.mp rest
      cases rest
      refine leads_trans [] u _ t ?_ (try_catchup_leads o _ t cmd.entityId caught ?_)
      · apply leads_move
        intro arrives hand _
        exact .recovered cmd.entityId cmd.entry _ entity known
      · intro new here
        simp only [mark, setEntity, Function.update_self, Option.some.injEq] at here
        subst here
        cases loading : entity.loading with
        | false => exact .inl rfl
        | true =>
            have level := sane.level loading
            exact .inr (by dsimp only; omega)

theorem move_finished_site (cmds : List ClientCmd) (s : Node n) (hand : List PaxosCmd) :
    (moveFinished cmds s).site hand = { s.site hand with answered := fun cmd => cmd ∈ s.userRspQueue ∨ cmd ∈ cmds } := by
  induction cmds generalizing s with
  | nil => simp [moveFinished, site]
  | cons cmd rest ih =>
      simp only [moveFinished]
      split
      · rfl
      · rw [ih]
        simp only [site, ask, List.mem_append, List.mem_cons]
        congr 1
        funext other
        exact propext (by tauto)

theorem finish_cmd_entities (s : Node n) (cmd : ClientCmd) (result : RetCode) : (s.finishCmd cmd result).entityInfos = s.entityInfos :=
  congrArg Site.entityInfos (finish_cmd_site s cmd result [])

theorem take_timeouts_leads (elements : List (Nat × Nat)) (s t : Node n) (done : takeTimeouts elements s = some t)
    (fit : ∀ entityId entity, s.entityInfos entityId = some entity → Fit entity) :
    Leads [] s t ∧ ∀ entityId entity, t.entityInfos entityId = some entity → Fit entity := by
  induction elements generalizing s with
  | nil =>
      cases done
      exact ⟨leads_refl [] _, fit⟩
  | cons element rest ih =>
      obtain ⟨entityId, deadline⟩ := element
      rw [takeTimeouts] at done
      split at done
      · exact ih s done fit
      · obtain ⟨entity, known, after⟩ := Option.bind_eq_some_iff.mp done
        have sane := fit entityId entity known
        split at after
        · obtain ⟨leads, sound⟩ := ih _ after fit
          exact ⟨leads_trans [] s _ t (leads_same [] s _ fun _ => rfl) leads, sound⟩
        · rename_i client asking
          obtain ⟨leads, sound⟩ := ih _ after (by
            intro other found here
            rw [finish_cmd_entities] at here
            by_cases equal : other = entityId
            · subst equal
              simp only [setEntity, Function.update_self, Option.some.injEq] at here
              subst here
              exact ⟨sane.below, sane.level⟩
            · exact fit other found (by simpa [setEntity, equal] using here))
          refine ⟨leads_trans [] s _ t ?_ leads, sound⟩
          apply leads_site [] s _ _ (finish_cmd_site _ client .timeout)
          intro arrives hand _
          exact .finish entityId client.valueId entity client .timeout known asking (by intro wrong; cases wrong)

theorem check_work_leads (o : Options n) (s t : Node n) (next : Option Nat)
    (fit : ∀ entityId entity, s.entityInfos entityId = some entity → Fit entity)
    (done : s.checkIfHasWork o next = some t) : Leads [] s t := by
  obtain ⟨u, timed, rest⟩ := Option.bind_eq_some_iff.mp done
  obtain ⟨v, cleaned, rest⟩ := Option.bind_eq_some_iff.mp rest
  have moved : Leads [] s (moveFinished s.finishedList s) :=
    leads_same [] s _ fun hand => move_finished_site s.finishedList s hand
  have sameEntities : (moveFinished s.finishedList s).entityInfos = s.entityInfos :=
    congrArg Site.entityInfos (move_finished_site s.finishedList s [])
  obtain ⟨finished, sane⟩ := take_timeouts_leads _ _ u timed (by rw [sameEntities]; exact fit)
  have shed := cleanup_sheds _ _ 0 u v cleaned
  have before := leads_trans [] s _ v moved (leads_trans [] _ u v finished (sheds_leads u v shed))
  cases next with
  | none =>
      cases rest
      exact before
  | some entityId =>
      refine leads_trans [] s v t before (try_catchup_leads o v t entityId rest fun entity known => ?_)
      rw [shed.entities] at known
      cases loading : entity.loading with
      | false => exact .inl rfl
      | true => exact .inr ((sane entityId entity known).level loading)

theorem return_msg_leads (s t : Node n) (index : Nat) (cmd : PaxosCmd) (outcome : PlogOutcome) (next : s.plogReqs[index]? = some cmd)
    (isReturn : cmd.plogReturnMsg = true) (legal : outcome.legal = true)
    (done : returnMsg { s with plogReqs := s.plogReqs.eraseIdx index } cmd outcome = some t) : Leads [] s t := by
  have echo (result : RetCode) (arrives : PaxosCmd → Prop) (hand : List PaxosCmd) :=
    @Move.returnEcho n arrives (s.site hand) index cmd next isReturn result
  cases outcome with
  | failed code applied =>
      have apart : code ≠ .ok ∧ code ≠ .implPlogNotFound := by simpa [PlogOutcome.legal] using legal
      simp only [returnMsg, getRecord, apart.1, apart.2, false_and, or_self, if_false] at done
      cases done
      exact leads_move [] s _ fun arrives hand _ => echo code arrives hand
  | ok =>
      have sameRecord : plogRecord { s with plogReqs := s.plogReqs.eraseIdx index } cmd.key = s.plogRecord cmd.key := rfl
      cases durable : s.plogRecord cmd.key with
      | none =>
          have missing : getRecord { s with plogReqs := s.plogReqs.eraseIdx index } cmd .ok = { cmd with result := .implPlogNotFound } := by
            simp only [getRecord]
            rw [sameRecord, durable]
          simp [returnMsg, missing] at done
          subst done
          exact leads_move [] s _ fun arrives hand _ => echo .implPlogNotFound arrives hand
      | some record =>
          have found : getRecord { s with plogReqs := s.plogReqs.eraseIdx index } cmd .ok = { cmd with localEntryRecord := record } := by
            simp only [getRecord]
            rw [sameRecord, durable]
          simp only [returnMsg, found] at done
          have bare (result : RetCode) (arrives : PaxosCmd → Prop) (hand : List PaxosCmd) :=
            @Move.returnBare n arrives (s.site hand) index cmd record next isReturn durable result
          split at done
          · rename_i accepted
            split at done
            · cases done
            · cases done
              exact leads_move [] s _ fun arrives hand _ => .returnChosen index cmd record next isReturn durable accepted.2
          · split at done
            · cases done
              exact leads_move [] s _ fun arrives hand _ => bare .implPlogNotFound arrives hand
            · cases done
              exact leads_move [] s _ fun arrives hand _ => bare cmd.result arrives hand

theorem do_plog_req_leads (s t : Node n) (index maxCommittedEntry : Nat) (outcome : PlogOutcome)
    (done : s.doPlogReq index maxCommittedEntry outcome = some t) : Leads [] s t := by
  obtain ⟨cmd, next, rest⟩ := Option.bind_eq_some_iff.mp done
  dsimp only at rest
  split at rest
  · cases rest
  · rename_i legal
    have legal : outcome.legal = true := by simpa using legal
    split at rest
    · rename_i isReturn
      exact return_msg_leads s t index cmd outcome next isReturn legal rest
    · rename_i own
      have own : cmd.plogReturnMsg = false := by simpa using own
      split at rest
      · rename_i isLoad
        cases outcome with
        | ok =>
            cases rest
            exact leads_move [] s _ fun arrives hand _ => .maxRead index maxCommittedEntry cmd next isLoad own
        | failed code applied =>
            cases rest
            have apart : code ≠ .ok ∧ code ≠ .implPlogNotFound := by simpa [PlogOutcome.legal] using legal
            exact leads_move [] s _ fun arrives hand _ => .maxLost index cmd code next isLoad own apart.1
      · rename_i notLoad
        split at rest
        · rename_i isSet
          have operation : isOp cmd = true := by simp [isOp, own, notLoad, isSet]
          cases outcome with
          | ok =>
              cases rest
              exact leads_move [] s _ fun arrives hand _ => .setWritten index cmd cmd.result next operation isSet (.inl rfl)
          | failed code applied =>
              have apart : code ≠ .ok ∧ code ≠ .implPlogNotFound := by simpa [PlogOutcome.legal] using legal
              cases applied with
              | true =>
                  cases rest
                  exact leads_move [] s _ fun arrives hand _ => .setWritten index cmd code next operation isSet (.inr apart.1)
              | false =>
                  cases rest
                  exact leads_move [] s _ fun arrives hand _ => .setLost index cmd code next operation isSet apart.1
        · rename_i notSet
          split at rest
          · rename_i isGet
            have operation : isOp cmd = true := by simp [isOp, own, notLoad, isGet]
            have notSet : cmd.plogSetRecord = false := by simpa using notSet
            cases outcome with
            | ok =>
                cases rest
                exact leads_move [] s _ fun arrives hand _ => .getRead index cmd next operation notSet
            | failed code applied =>
                cases rest
                have apart : code ≠ .ok ∧ code ≠ .implPlogNotFound := by simpa [PlogOutcome.legal] using legal
                exact leads_move [] s _ fun arrives hand _ => .getLost index cmd code next operation notSet apart
          · cases rest

end Node

namespace Site

-- What the handlers rely on: entries belong to loaded entities, and an entity
-- that is still loading has no gap to catch up with.
structure Calm (s : Site n) : Prop where
  orderly : Orderly s
  level : ∀ entityId entity, s.entityInfos entityId = some entity → entity.loading = true →
    entity.maxContChosenEntry = entity.maxChosenEntry
  homes : ∀ key info, s.entryInfos key = some info → ∃ entity, s.entityInfos key.entityId = some entity ∧ entity.loading = false

end Site

namespace Node

theorem calm_fit (s : Node n) (calm : Calm (s.site [])) (entityId : Nat) (entity : EntityInfo n)
    (known : s.entityInfos entityId = some entity) : Fit entity :=
  ⟨(calm.orderly.regular.entities entityId entity known).below, calm.level entityId entity known⟩

theorem calm_loaded (s : Node n) (calm : Calm (s.site [])) (key : EntryKey) (info : EntryInfo n)
    (live : s.entryInfos key = some info) : Loaded key.entityId (s.site []) := by
  obtain ⟨entity, known, ready⟩ := calm.homes key info live
  exact ⟨entity, known, ready, (calm.orderly.regular.entities key.entityId entity known).below⟩

theorem plog_rsp_moves (arrives : PaxosCmd → Prop) (o : Options n) (s t : Node n) (index : Nat) (cmd : PaxosCmd) (ret : RetCode) (calm : Calm (s.site []))
    (next : s.plogRsps[index]? = some cmd) (done : (s.taken index).handlePlogRspCmd o cmd = some (ret, t)) :
    Moves arrives (s.site []) (t.site []) := by
  rw [handlePlogRspCmd] at done
  split at done
  · rename_i isLoad
    exact handle_load_moves arrives o s t index cmd ret next isLoad calm.orderly done
  · rename_i notLoad
    have notLoad : cmd.plogLoad = false := by simpa using notLoad
    split at done
    · rename_i isSet
      obtain ⟨⟨p, u⟩, completed, _⟩ := Option.bind_eq_some_iff.mp done
      obtain ⟨info, live, _⟩ := complete_entry_spec (s.taken index) u cmd.key p completed
      exact handle_set_leads o s t index cmd ret next isSet notLoad (calm_loaded s calm cmd.key info live) calm.orderly done arrives []
        (by simp)
    · rename_i notSet
      have notSet : cmd.plogSetRecord = false := by simpa using notSet
      split at done
      · rename_i isGet
        obtain ⟨⟨p, u⟩, completed, _⟩ := Option.bind_eq_some_iff.mp done
        obtain ⟨info, live, _⟩ := complete_entry_spec (s.taken index) u cmd.key p completed
        exact handle_get_moves arrives o s t index cmd ret next isGet notLoad notSet (calm_loaded s calm cmd.key info live) calm.orderly done
      · rename_i notGet
        cases done
        exact .single (.ignored index cmd next (by simp [isOp, notSet, notGet]) notLoad)

-- Each event is a sequence of moves that begins and ends with empty hands.
theorem handle_moves (arrives : PaxosCmd → Prop) (o : Options n) (s t : Node n) (env : Env n) (event : Event)
    (calm : Calm (s.site [])) (delivered : ∀ cmd, event = .paxosCmd cmd → arrives cmd) (done : s.handle o env event = some t) :
    Moves arrives (s.site []) (t.site []) := by
  have fit := calm_fit s calm
  cases event with
  | clientCmd cmdId entityId entry timestampUsec timeoutMsec value uuids =>
      rw [handle] at done
      split at done
      · cases done
      · rename_i notReplay
        obtain ⟨⟨ret, u⟩, handled, same⟩ := Option.map_eq_some_iff.mp done
        cases same
        exact handle_client_leads o { s with env := env } u _ ret notReplay (fit entityId) handled arrives [] (by simp)
  | paxosCmd cmd =>
      obtain ⟨⟨ret, u⟩, handled, same⟩ := Option.map_eq_some_iff.mp done
      cases same
      have leads := handle_paxos_leads o { s with env := env } u cmd.parsed ret rfl (fit cmd.entityId) handled
      refine .head (.hold cmd.parsed (.arrive cmd (delivered cmd rfl))) (.trans (leads arrives [cmd.parsed] (by simp))
        (.single (.release [] (by simp) fun other member load => ?_)))
      rw [List.mem_singleton.mp member] at load
      cases load
  | plogReq index maxCommittedEntry outcome => exact do_plog_req_leads s t index maxCommittedEntry outcome done arrives [] (by simp)
  | plogRsp index =>
      obtain ⟨cmd, next, rest⟩ := Option.bind_eq_some_iff.mp done
      obtain ⟨⟨ret, u⟩, handled, same⟩ := Option.bind_eq_some_iff.mp rest
      cases same
      exact plog_rsp_moves arrives o { s with env := env } t index cmd ret calm next handled
  | recoverReq index maxCommittedEntry result =>
      obtain ⟨cmd, next, same⟩ := Option.bind_eq_some_iff.mp done
      cases same
      exact .refl
  | recoverRsp index =>
      obtain ⟨cmd, next, rest⟩ := Option.bind_eq_some_iff.mp done
      obtain ⟨⟨ret, u⟩, handled, same⟩ := Option.bind_eq_some_iff.mp rest
      cases same
      exact handle_recover_leads o { s with env := env, recoverRsps := s.recoverRsps.eraseIdx index } t cmd ret (fit cmd.entityId) handled
        arrives [] (by simp)
  | tick next => exact check_work_leads o { s with env := env } t next fit done arrives [] (by simp)

end Node

end PaxosStore.Certain
