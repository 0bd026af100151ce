import PaxosStore.Certain.Moves

set_option autoImplicit false

namespace PaxosStore.Certain

open Site

variable {n : Nat}

namespace Site

theorem set_entry_twice (s : Site n) (key : EntryKey) (first second : Option (EntryInfo n)) :
    (s.setEntry key first).setEntry key second = s.setEntry key second := by
  simp [setEntry]

theorem set_entity_twice (s : Site n) (entityId : Nat) (first second : Option (EntityInfo n)) :
    (s.setEntity entityId first).setEntity entityId second = s.setEntity entityId second := by
  simp [setEntity]

theorem set_entry_same (s : Site n) (key : EntryKey) (info : EntryInfo n) (live : s.entryInfos key = some info) :
    s.setEntry key (some info) = s := by
  simp [setEntry, ← live]

theorem set_entity_same (s : Site n) (entityId : Nat) (entity : EntityInfo n) (known : s.entityInfos entityId = some entity) :
    s.setEntity entityId (some entity) = s := by
  simp [setEntity, ← known]

-- Handing an entry over shows in the db queue and the marks only.
section

variable (s : Site n) (key : EntryKey) (entity : EntityInfo n) (record : EntryRecord) (machine : EntryStateMachine n) (pushed : Bool)

theorem hand_over_rest : ∃ reqs marks, s.handOver key entity record pushed = { s with dbReqs := reqs, marks := marks } := by
  rw [handOver]
  split
  · exact ⟨_, _, rfl⟩
  · exact ⟨s.dbReqs, s.marks, rfl⟩

@[simp] theorem hand_over_entities : (s.handOver key entity record pushed).entityInfos = s.entityInfos := by
  obtain ⟨reqs, marks, same⟩ := hand_over_rest s key entity record pushed
  rw [same]

@[simp] theorem hand_over_entries : (s.handOver key entity record pushed).entryInfos = s.entryInfos := by
  obtain ⟨reqs, marks, same⟩ := hand_over_rest s key entity record pushed
  rw [same]

@[simp] theorem hand_over_reqs : (s.handOver key entity record pushed).plogReqs = s.plogReqs := by
  obtain ⟨reqs, marks, same⟩ := hand_over_rest s key entity record pushed
  rw [same]

@[simp] theorem hand_over_rsps : (s.handOver key entity record pushed).plogRsps = s.plogRsps := by
  obtain ⟨reqs, marks, same⟩ := hand_over_rest s key entity record pushed
  rw [same]

@[simp] theorem hand_over_sent : (s.handOver key entity record pushed).sent = s.sent := by
  obtain ⟨reqs, marks, same⟩ := hand_over_rest s key entity record pushed
  rw [same]

@[simp] theorem hand_over_plog : (s.handOver key entity record pushed).plog = s.plog := by
  obtain ⟨reqs, marks, same⟩ := hand_over_rest s key entity record pushed
  rw [same]

@[simp] theorem hand_over_answered : (s.handOver key entity record pushed).answered = s.answered := by
  obtain ⟨reqs, marks, same⟩ := hand_over_rest s key entity record pushed
  rw [same]

@[simp] theorem hand_over_hand : (s.handOver key entity record pushed).hand = s.hand := by
  obtain ⟨reqs, marks, same⟩ := hand_over_rest s key entity record pushed
  rw [same]

@[simp] theorem raise_entities : (s.raise key entity machine pushed).entityInfos = Function.update s.entityInfos key.entityId
    (some (raisedBy entity key.entry (machine.hasAcceptedMyProposal entity.localAcceptorId))) := by
  simp [raise, setEntity]

@[simp] theorem raise_entries : (s.raise key entity machine pushed).entryInfos = s.entryInfos := by
  simp [raise, setEntity]

@[simp] theorem raise_reqs : (s.raise key entity machine pushed).plogReqs = s.plogReqs := by
  simp [raise, setEntity]

@[simp] theorem raise_rsps : (s.raise key entity machine pushed).plogRsps = s.plogRsps := by
  simp [raise, setEntity]

@[simp] theorem raise_sent : (s.raise key entity machine pushed).sent = s.sent := by
  simp [raise, setEntity]

@[simp] theorem raise_plog : (s.raise key entity machine pushed).plog = s.plog := by
  simp [raise, setEntity]

@[simp] theorem raise_answered : (s.raise key entity machine pushed).answered = s.answered := by
  simp [raise, setEntity]

@[simp] theorem raise_hand : (s.raise key entity machine pushed).hand = s.hand := by
  simp [raise, setEntity]

@[simp] theorem raise_if_entries : (s.raiseIfChosen key entity machine pushed).entryInfos = s.entryInfos := by
  rw [raiseIfChosen]
  split <;> simp

@[simp] theorem raise_if_reqs : (s.raiseIfChosen key entity machine pushed).plogReqs = s.plogReqs := by
  rw [raiseIfChosen]
  split <;> simp

@[simp] theorem raise_if_rsps : (s.raiseIfChosen key entity machine pushed).plogRsps = s.plogRsps := by
  rw [raiseIfChosen]
  split <;> simp

@[simp] theorem raise_if_sent : (s.raiseIfChosen key entity machine pushed).sent = s.sent := by
  rw [raiseIfChosen]
  split <;> simp

@[simp] theorem raise_if_plog : (s.raiseIfChosen key entity machine pushed).plog = s.plog := by
  rw [raiseIfChosen]
  split <;> simp

@[simp] theorem raise_if_answered : (s.raiseIfChosen key entity machine pushed).answered = s.answered := by
  rw [raiseIfChosen]
  split <;> simp

@[simp] theorem raise_if_hand : (s.raiseIfChosen key entity machine pushed).hand = s.hand := by
  rw [raiseIfChosen]
  split <;> simp

end

end Site

namespace Node

theorem deref_some (s : Node n) (p : EntryPtr) (info : EntryInfo n) (found : s.deref p = some info) :
    s.entryInfos p.key = some info ∧ info.number = p.number := by
  obtain ⟨known, same⟩ := Option.filter_eq_some_iff.mp found
  exact ⟨known, of_decide_eq_true same⟩

theorem entity_of_some (s : Node n) (key : EntryKey) (info : EntryInfo n) (entity : EntityInfo n)
    (found : s.entityOf key info = some entity) : s.entityInfos key.entityId = some entity ∧ entity.number = info.entityNumber := by
  obtain ⟨known, same⟩ := Option.filter_eq_some_iff.mp found
  exact ⟨known, of_decide_eq_true same⟩

theorem ask_site (s : Node n) (hand : List PaxosCmd) : s.ask.2.site hand = s.site hand := rfl

theorem update_memory_size_spec (o : Options n) (s t : Node n) (p : EntryPtr) (done : updateMemorySize o s p = some t) :
    ∃ info size, s.deref p = some info ∧
      ∀ hand, t.site hand = (s.site hand).setEntry p.key (some { info with totalSize := size }) := by
  obtain ⟨info, found, rest⟩ := Option.bind_eq_some_iff.mp done
  cases rest
  exact ⟨info, _, found, fun _ => rfl⟩

theorem destroy_spec (s t : Node n) (p : EntryPtr) (done : s.destroyEntryInfo p = some t) :
    ∃ info entity, s.deref p = some info ∧ s.entityOf p.key info = some entity ∧
      ∀ hand, t.site hand = ((s.site hand).setEntry p.key none).note (destroyedMark (s.site hand) entity p.key) := by
  obtain ⟨info, found, rest⟩ := Option.bind_eq_some_iff.mp done
  obtain ⟨entity, owner, rest⟩ := Option.bind_eq_some_iff.mp rest
  cases rest
  exact ⟨info, entity, found, owner, fun _ => rfl⟩

theorem create_entry_spec (o : Options n) (s t : Node n) (entityId entry : Nat) (p : EntryPtr)
    (done : s.createEntryInfo o entityId entry = some (p, t)) :
    ∃ entity flags info, s.entityInfos entityId = some entity ∧ Blank entity flags info ∧
      info.uncertain = false ∧ p = ⟨⟨entityId, entry⟩, info.number⟩ ∧
      ∀ hand, t.site hand =
        ((s.site hand).setEntry ⟨entityId, entry⟩ (some info)).note (.created ⟨entityId, entry⟩ flags entity.clientCmd) := by
  obtain ⟨entity, known, rest⟩ := Option.bind_eq_some_iff.mp done
  obtain ⟨u, sized, rest⟩ := Option.bind_eq_some_iff.mp rest
  cases rest
  obtain ⟨info, size, found, effect⟩ := update_memory_size_spec o _ _ _ sized
  obtain ⟨live, _⟩ := deref_some _ _ _ found
  have same : s.newEntryInfo entity = info := by
    simpa [takeRoom, mark, setEntry, newEntryInfo] using live
  subst same
  refine ⟨entity, s.garbage.2, { s.newEntryInfo entity with totalSize := size }, known,
    ⟨rfl, rfl, rfl⟩, rfl, rfl, fun hand => ?_⟩
  rw [effect]
  simp [site, takeRoom, mark, setEntry, newEntryInfo, Site.setEntry, Site.note]

theorem finish_cmd_site (s : Node n) (cmd : ClientCmd) (result : RetCode) (hand : List PaxosCmd) :
    (s.finishCmd cmd result).site hand =
      { s.site hand with answered := fun other => other = { cmd with result := result } ∨ (s.site hand).answered other } := by
  cases refused : s.env.refusals.headD false with
  | true => 
      simp only [finishCmd, pushUserRsp, ask, refused, site, if_true, List.mem_append, List.mem_singleton]
      congr 1
      funext other
      exact propext (by tauto)
  | false =>
      simp only [finishCmd, pushUserRsp, ask, refused, site]
      congr 1
      funext other
      exact propext (by simp; tauto)

def finished (s : Site n) (entityId : Nat) (entity : EntityInfo n) (client : ClientCmd) (result : RetCode) : Site n :=
  { s.setEntity entityId (some { entity with clientCmd := none }) with
    answered := fun cmd => cmd = { client with result := result } ∨ s.answered cmd }

theorem finish_client_spec (s t : Node n) (entityId : Nat) (result : RetCode) (done : s.finishClientCmd entityId result = some t) :
    ∃ entity, s.entityInfos entityId = some entity ∧
      (entity.clientCmd = none ∧ t = s ∨
        ∃ client, entity.clientCmd = some client ∧ ∀ hand, t.site hand = finished (s.site hand) entityId entity client result) := by
  obtain ⟨entity, known, rest⟩ := Option.bind_eq_some_iff.mp done
  refine ⟨entity, known, ?_⟩
  cases asking : entity.clientCmd with
  | none =>
      simp only [asking, Option.some.injEq] at rest
      exact .inl ⟨rfl, rest.symm⟩
  | some client =>
      simp only [asking, Option.some.injEq] at rest
      refine .inr ⟨client, rfl, fun hand => ?_⟩
      rw [← rest, finish_cmd_site]
      rfl

theorem finish_entry_spec (s t : Node n) (key : EntryKey) (result : RetCode) (done : s.finishEntryCmd key result = some t) :
    ∃ entity, s.entityInfos key.entityId = some entity ∧
      ((entity.clientCmd = none ∨ ∃ client, entity.clientCmd = some client ∧ client.entry ≠ key.entry) ∧ t = s ∨
        ∃ client, entity.clientCmd = some client ∧ client.entry = key.entry ∧
          ∀ hand, t.site hand = finished (s.site hand) key.entityId entity client result) := by
  obtain ⟨entity, known, rest⟩ := Option.bind_eq_some_iff.mp done
  refine ⟨entity, known, ?_⟩
  cases asking : entity.clientCmd with
  | none =>
      simp only [asking, Option.some.injEq] at rest
      exact .inl ⟨.inl rfl, rest.symm⟩
  | some client =>
      simp only [asking] at rest
      by_cases about : client.entry = key.entry
      · rw [if_pos about] at rest
        obtain ⟨again, knownAgain, ⟨idle, _⟩ | ⟨other, askingAgain, answer⟩⟩ := finish_client_spec s t _ _ rest
        · rw [known] at knownAgain
          cases knownAgain
          rw [asking] at idle
          cases idle
        · rw [known] at knownAgain
          cases knownAgain
          rw [asking] at askingAgain
          cases askingAgain
          exact .inr ⟨client, rfl, about, answer⟩
      · rw [if_neg about] at rest
        cases rest
        exact .inl ⟨.inr ⟨client, rfl, about⟩, rfl⟩

-- The function is a sequence of moves, whatever else is in hand.
def Leads (held : List PaxosCmd) (s t : Node n) : Prop :=
  ∀ arrives hand, (∀ cmd ∈ held, cmd ∈ hand) → Moves arrives (s.site hand) (t.site hand)

theorem leads_refl (held : List PaxosCmd) (s : Node n) : Leads held s s := fun _ _ _ => .refl

theorem leads_trans (held : List PaxosCmd) (s t u : Node n) (first : Leads held s t) (second : Leads held t u) : Leads held s u :=
  fun arrives hand inHand => (first arrives hand inHand).trans (second arrives hand inHand)

theorem leads_more (held more : List PaxosCmd) (s t : Node n) (fewer : ∀ cmd ∈ held, cmd ∈ more) (leads : Leads held s t) :
    Leads more s t :=
  fun arrives hand inHand => leads arrives hand fun cmd member => inHand cmd (fewer cmd member)

theorem leads_any (held : List PaxosCmd) (s t : Node n) (leads : Leads [] s t) : Leads held s t :=
  leads_more [] held s t (by simp) leads

theorem leads_move (held : List PaxosCmd) (s t : Node n)
    (move : ∀ arrives hand, (∀ cmd ∈ held, cmd ∈ hand) → Move arrives (s.site hand) (t.site hand)) : Leads held s t :=
  fun arrives hand inHand => .single (move arrives hand inHand)

theorem leads_same (held : List PaxosCmd) (s t : Node n) (same : ∀ hand, t.site hand = s.site hand) : Leads held s t := by
  intro arrives hand _
  rw [same hand]
  exact .refl

-- A further command is taken into the hand and released at the end.
theorem leads_hold (held : List PaxosCmd) (cmd : PaxosCmd) (s t : Node n) (plain : cmd.plogLoad = false)
    (allowed : ∀ arrives hand, (∀ other ∈ held, other ∈ hand) → Holdable arrives (s.site hand) cmd) (leads : Leads [cmd] s t) :
    Leads held s t := by
  intro arrives hand inHand
  have taken : Moves arrives (s.site hand) (s.site (cmd :: hand)) := .single (.hold cmd (allowed arrives hand inHand))
  have handled := leads arrives (cmd :: hand) (by simp)
  have released : Moves arrives (t.site (cmd :: hand)) (t.site hand) :=
    .single (.release hand (fun other member => List.mem_cons_of_mem cmd member) fun other member token => by
      rcases List.mem_cons.mp member with rfl | member
      · rw [plain] at token
        cases token
      · exact member)
  exact (taken.trans handled).trans released

-- The same entities up to commands that are not there yet.
def Alike (old new : Nat → Option (EntityInfo n)) : Prop :=
  ∀ entityId entity, old entityId = some entity →
    ∃ pending, new entityId = some { entity with clientCmd := pending } ∧ (pending = none ∨ pending = entity.clientCmd)

theorem alike_refl (entities : Nat → Option (EntityInfo n)) : Alike entities entities :=
  fun _ entity known => ⟨entity.clientCmd, known, .inr rfl⟩

-- A sequence of moves that does not depend on the entities' client commands.
def Shapes (s t : Node n) : Prop :=
  ∀ arrives hand entities, Alike s.entityInfos entities →
    Moves arrives { s.site hand with entityInfos := entities } { t.site hand with entityInfos := entities }

theorem shapes_leads (s t : Node n) (shapes : Shapes s t) (same : t.entityInfos = s.entityInfos) : Leads [] s t := by
  intro arrives hand _
  have moves := shapes arrives hand s.entityInfos (alike_refl s.entityInfos)
  rw [← same] at moves
  have start : { s.site hand with entityInfos := t.entityInfos } = s.site hand := by rw [same]; rfl
  rw [start] at moves
  exact moves

-- What evictions do: certain entries go, nothing else changes.
structure Sheds (s t : Node n) : Prop where
  shapes : Shapes s t
  entities : t.entityInfos = s.entityInfos
  entries : ∀ key info, t.entryInfos key = some info → s.entryInfos key = some info
  marks : ∀ m ∈ s.marks, m ∈ t.marks

theorem sheds_trans (s t u : Node n) (first : Sheds s t) (second : Sheds t u) : Sheds s u where
  shapes := fun arrives hand entities alike =>
    (first.shapes arrives hand entities alike).trans (second.shapes arrives hand entities (by rw [first.entities]; exact alike))
  entities := second.entities.trans first.entities
  entries := fun key info live => first.entries key info (second.entries key info live)
  marks := fun m member => second.marks m (first.marks m member)

theorem sheds_leads (s t : Node n) (shed : Sheds s t) : Leads [] s t := shapes_leads s t shed.shapes shed.entities

theorem sheds_same (s t : Node n) (same : ∀ hand, t.site hand = s.site hand) : Sheds s t where
  shapes := fun arrives hand entities _ => by
    rw [same hand]
    exact .refl
  entities := congrArg Site.entityInfos (same [])
  entries := fun key info live => by
    have entries : t.entryInfos = s.entryInfos := congrArg Site.entryInfos (same [])
    rw [← entries]
    exact live
  marks := fun m member => by
    have marks : t.marks = s.marks := congrArg Site.marks (same [])
    rw [marks]
    exact member

theorem sheds_refl (s : Node n) : Sheds s s := sheds_same s s fun _ => rfl

theorem destroy_sheds (s t : Node n) (key : EntryKey) (number : Nat) (info : EntryInfo n) (live : s.entryInfos key = some info)
    (certain : info.uncertain = false) (done : s.destroyEntryInfo ⟨key, number⟩ = some t) : Sheds s t := by
  obtain ⟨other, entity, found, owner, effect⟩ := destroy_spec s t _ done
  obtain ⟨here, _⟩ := deref_some s _ other found
  obtain ⟨known, _⟩ := entity_of_some s _ other entity owner
  refine ⟨?_, congrArg Site.entityInfos (effect []), ?_, ?_⟩
  · intro arrives hand entities alike
    obtain ⟨pending, here, _⟩ := alike key.entityId entity known
    rw [effect hand]
    exact .single (.destroy key { entity with clientCmd := pending } info live here certain)
  rotate_left
  · intro m member
    have after : t.marks = _ := congrArg Site.marks (effect [])
    rw [after]
    exact List.mem_cons_of_mem _ member
  · intro k i kept
    have after : t.entryInfos = Function.update s.entryInfos key none := congrArg Site.entryInfos (effect [])
    rw [after] at kept
    by_cases same : k = key
    · subst same
      simp at kept
    · simpa [same] using kept

theorem remove_old_chosen_sheds (o : Options n) (count left : Nat) (s t : Node n)
    (done : removeOldChosen o count s = some (left, t)) : Sheds s t := by
  induction count generalizing s with
  | zero =>
      cases done
      exact sheds_refl _
  | succ count ih =>
      rw [removeOldChosen] at done
      split at done
      · cases done
        exact sheds_refl _
      · rename_i key rest _
        split at done
        · have popped : Sheds s { s with oldChosenList := rest } := sheds_same s _ fun _ => rfl
          split at done
          · exact sheds_trans s _ t popped (ih _ done)
          · rename_i info live
            split at done
            · cases done
            · rename_i certain
              obtain ⟨u, first, later⟩ := Option.bind_eq_some_iff.mp done
              have gone := destroy_sheds { s with oldChosenList := rest } u key info.number info live (by simpa using certain) first
              exact sheds_trans s _ t (sheds_trans s _ u popped gone) (ih u later)
        · cases done
          exact sheds_refl _

theorem remove_oldest_sheds (o : Options n) (count : Nat) (s t : Node n) (done : removeOldest o count s = some t) : Sheds s t := by
  induction count generalizing s with
  | zero =>
      cases done
      exact sheds_refl _
  | succ count ih =>
      rw [removeOldest] at done
      split at done
      · split at done
        · cases done
        · rename_i key _
          split at done
          · cases done
          · rename_i info live
            split at done
            · exact sheds_trans s _ t (sheds_same s (s.refreshEntryInfo key) fun _ => rfl) (ih _ done)
            · rename_i certain
              obtain ⟨u, first, later⟩ := Option.bind_eq_some_iff.mp done
              exact sheds_trans s u t (destroy_sheds s u key info.number info live (by simpa using certain) first) (ih u later)
      · cases done
        exact sheds_refl _

theorem make_enough_room_sheds (o : Options n) (s t : Node n) (room : Bool) (done : s.makeEnoughRoom o = some (room, t)) :
    Sheds s t := by
  rw [makeEnoughRoom] at done
  split at done
  · cases done
  · split at done
    · cases done
      exact sheds_refl _
    · obtain ⟨⟨left, u⟩, first, rest⟩ := Option.bind_eq_some_iff.mp done
      have old := remove_old_chosen_sheds o kMaxCleanupNum left s u first
      dsimp only at rest
      split at rest
      · cases rest
        exact old
      · obtain ⟨v, second, rest⟩ := Option.bind_eq_some_iff.mp rest
        cases rest
        exact sheds_trans s u _ old (remove_oldest_sheds o left u _ second)

theorem cleanup_sheds (nowSec : Nat) (keys : List EntryKey) (count : Nat) (s t : Node n)
    (done : cleanupExpired nowSec keys count s = some t) : Sheds s t := by
  induction keys generalizing s count with
  | nil =>
      cases done
      exact sheds_same s _ fun _ => rfl
  | cons key rest ih =>
      rw [cleanupExpired] at done
      split at done
      · cases done
        exact sheds_same s _ fun _ => rfl
      · split at done
        · exact ih count s done
        · rename_i info live
          split at done
          · cases done
          · rename_i certain
            split at done
            · cases done
              exact sheds_same s _ fun _ => rfl
            · obtain ⟨u, first, later⟩ := Option.bind_eq_some_iff.mp done
              exact sheds_trans s u t (destroy_sheds s u key info.number info live (by simpa using certain) first) (ih _ u later)

theorem go_to_plog_spec (s : Node n) (cmd : PaxosCmd) :
    (s.goToPlogReqQueue cmd).1 = true ∧ (∀ hand, (s.goToPlogReqQueue cmd).2.site hand = s.site hand) ∨
      (s.goToPlogReqQueue cmd).1 = false ∧
        ∀ hand, (s.goToPlogReqQueue cmd).2.site hand = { s.site hand with plogReqs := s.plogReqs ++ [cmd] } := by
  cases refused : s.env.refusals.headD false with
  | true =>
      left
      simp only [goToPlogReqQueue, ask, refused]
      exact ⟨rfl, fun _ => rfl⟩
  | false =>
      right
      simp only [goToPlogReqQueue, ask, refused]
      exact ⟨rfl, fun _ => rfl⟩

theorem load_entry_spec (s t : Node n) (p : EntryPtr) (loaded : Bool) (done : s.loadEntryInfo p = some (loaded, t)) :
    ∃ info, s.deref p = some info ∧
      (loaded = false ∧ (∀ hand, t.site hand = s.site hand) ∨
        loaded = true ∧ ∀ hand, t.site hand =
          { (s.site hand).setEntry p.key (some { info with uncertain := true }) with
            plogReqs := s.plogReqs ++ [getReq p.key] }) := by
  obtain ⟨info, found, rest⟩ := Option.bind_eq_some_iff.mp done
  refine ⟨info, found, ?_⟩
  obtain ⟨refused, same⟩ | ⟨taken, pushed⟩ := go_to_plog_spec s (getReq p.key)
  · rw [getReq] at refused same
    simp only [refused, if_true, Option.some.injEq, Prod.mk.injEq] at rest
    obtain ⟨rfl, rfl⟩ := rest
    exact .inl ⟨rfl, same⟩
  · rw [getReq] at taken pushed
    simp only [taken, Bool.false_eq_true, if_false] at rest
    split at rest
    · cases rest
    · simp only [Option.some.injEq, Prod.mk.injEq] at rest
      obtain ⟨rfl, rfl⟩ := rest
      refine .inr ⟨rfl, fun hand => ?_⟩
      have after := pushed hand
      simp only [site, Site.mk.injEq] at after
      simp only [site, setEntry, Site.setEntry, after, getReq]

theorem load_entity_spec (s t : Node n) (entityId : Nat) (loaded : Bool) (done : s.loadEntityInfo entityId = some (loaded, t)) :
    ∃ entity, s.entityInfos entityId = some entity ∧
      (loaded = false ∧ (∀ hand, t.site hand = s.site hand) ∨
        loaded = true ∧ ∀ hand, t.site hand =
          { (s.site hand).setEntity entityId (some { entity with loading := true }) with
            plogReqs := s.plogReqs ++ [loadReq entityId] }) := by
  obtain ⟨entity, known, rest⟩ := Option.bind_eq_some_iff.mp done
  refine ⟨entity, known, ?_⟩
  obtain ⟨refused, same⟩ | ⟨taken, pushed⟩ := go_to_plog_spec s (loadReq entityId)
  · rw [loadReq] at refused same
    simp only [refused, if_true, Option.some.injEq, Prod.mk.injEq] at rest
    obtain ⟨rfl, rfl⟩ := rest
    exact .inl ⟨rfl, same⟩
  · rw [loadReq] at taken pushed
    simp only [taken, Bool.false_eq_true, if_false] at rest
    split at rest
    · cases rest
    · simp only [Option.some.injEq, Prod.mk.injEq] at rest
      obtain ⟨rfl, rfl⟩ := rest
      refine .inr ⟨rfl, fun hand => ?_⟩
      have after := pushed hand
      simp only [site, Site.mk.injEq] at after
      simp only [site, setEntity, Site.setEntity, after, loadReq]

theorem update_catchup_spec (o : Options n) (s t : Node n) (p : EntryPtr) (done : s.updateCatchupTimestamp o p = some t) :
    ∃ info timestamp, s.deref p = some info ∧ t = s.setEntry p.key (some { info with catchupTimestampMsec := timestamp }) := by
  obtain ⟨info, found, rest⟩ := Option.bind_eq_some_iff.mp done
  cases rest
  exact ⟨info, _, found, rfl⟩

theorem store_entry_spec (o : Options n) (s t : Node n) (p : EntryPtr) (stored : Bool)
    (done : s.storeEntryInfo o p = some (stored, t)) :
    ∃ info entity, s.deref p = some info ∧ s.entityOf p.key info = some entity ∧
      (stored = false ∧ (∀ hand, t.site hand = s.site hand) ∨
        stored = true ∧ ∃ timestamp, ∀ hand, t.site hand =
          { (s.site hand).setEntry p.key (some { info with catchupTimestampMsec := timestamp, uncertain := true }) with
            plogReqs := s.plogReqs ++
              [setReq p.key entity.localAcceptorId (info.machine.entryRecords entity.localAcceptorId)] }) := by
  obtain ⟨info, found, rest⟩ := Option.bind_eq_some_iff.mp done
  obtain ⟨entity, owner, rest⟩ := Option.bind_eq_some_iff.mp rest
  refine ⟨info, entity, found, owner, ?_⟩
  obtain ⟨refused, same⟩ | ⟨taken, pushed⟩ :=
    go_to_plog_spec s (setReq p.key entity.localAcceptorId (info.machine.entryRecords entity.localAcceptorId))
  · rw [setReq] at refused same
    simp only [refused, if_true, Option.some.injEq, Prod.mk.injEq] at rest
    obtain ⟨rfl, rfl⟩ := rest
    exact .inl ⟨rfl, same⟩
  · rw [setReq] at taken pushed
    simp only [taken, Bool.false_eq_true, if_false] at rest
    obtain ⟨u, timed, rest⟩ := Option.bind_eq_some_iff.mp rest
    obtain ⟨before, timestamp, foundBefore, timed⟩ := update_catchup_spec o _ u p timed
    obtain ⟨after, foundAfter, rest⟩ := Option.bind_eq_some_iff.mp rest
    have queued := congrArg Site.entryInfos (pushed [])
    simp only [site] at queued
    obtain ⟨live, _⟩ := deref_some s p info found
    obtain ⟨liveBefore, _⟩ := deref_some _ p before foundBefore
    rw [queued, live] at liveBefore
    cases liveBefore
    subst timed
    obtain ⟨liveAfter, _⟩ := deref_some _ p after foundAfter
    simp only [setEntry, Function.update_self, Option.some.injEq] at liveAfter
    subst liveAfter
    split at rest
    · cases rest
    · simp only [Option.some.injEq, Prod.mk.injEq] at rest
      obtain ⟨rfl, rfl⟩ := rest
      refine .inr ⟨rfl, timestamp, fun hand => ?_⟩
      have stored := pushed hand
      simp only [site, Site.mk.injEq] at stored
      simp only [site, setEntry, Site.setEntry, stored, setReq, Function.update_idem]

def lostMark (s : Site n) (key : EntryKey) (record : EntryRecord) : Mark n := .lost key record ((s.plogRecord key).getD {})

-- ClearEntryInfo answers the client command of the entry, then destroys it.
theorem clear_entry_spec (s t : Node n) (p : EntryPtr) (done : s.clearEntryInfo p = some t) :
    ∃ info entity, s.deref p = some info ∧ s.entityOf p.key info = some entity ∧
      ((entity.clientCmd = none ∨ ∃ client, entity.clientCmd = some client ∧ client.entry ≠ p.key.entry) ∧
          (∀ hand, t.site hand = (((s.site hand).note (lostMark (s.site hand) p.key info.machine.localRecord)).setEntry p.key none).note
            (destroyedMark (s.site hand) entity p.key)) ∨
        ∃ client, entity.clientCmd = some client ∧ client.entry = p.key.entry ∧
          ∀ hand, t.site hand =
            ((finished ((s.site hand).note (lostMark (s.site hand) p.key info.machine.localRecord)) p.key.entityId entity client
              .entryCleanup).setEntry p.key none).note (destroyedMark (s.site hand) { entity with clientCmd := none } p.key)) := by
  obtain ⟨info, found, rest⟩ := Option.bind_eq_some_iff.mp done
  obtain ⟨entity, owner, rest⟩ := Option.bind_eq_some_iff.mp rest
  refine ⟨info, entity, found, owner, ?_⟩
  obtain ⟨known, number⟩ := entity_of_some s p.key info entity owner
  obtain ⟨live, _⟩ := deref_some s p info found
  obtain ⟨u, cleaned, rest⟩ := Option.bind_eq_some_iff.mp rest
  obtain ⟨last, owned, foundLast, ownerLast, effect⟩ := destroy_spec u t p rest
  obtain ⟨knownLast, _⟩ := entity_of_some u p.key last owned ownerLast
  obtain ⟨again, knownAgain, ⟨other, same⟩ | ⟨client, asking, about, answer⟩⟩ := finish_entry_spec _ u p.key _ cleaned
  · have equal : entity = again := Option.some.inj (known.symm.trans knownAgain)
    subst equal
    subst same
    have equal : entity = owned := Option.some.inj (known.symm.trans knownLast)
    subst equal
    exact .inl ⟨other, fun hand => effect hand⟩
  · have equal : entity = again := Option.some.inj (known.symm.trans knownAgain)
    subst equal
    have after : u.entityInfos p.key.entityId = some { entity with clientCmd := none } := by
      have entities : u.entityInfos = _ := congrArg Site.entityInfos (answer [])
      rw [entities]
      simp [finished, Site.setEntity]
    have sameOwned : { entity with clientCmd := none } = owned := Option.some.inj (after.symm.trans knownLast)
    subst sameOwned
    refine .inr ⟨client, asking, about, fun hand => ?_⟩
    rw [effect hand, answer hand]
    rfl

theorem sync_spec (s t : Node n) (p : EntryPtr) (peer : Fin n) (catchup : Bool)
    (done : s.syncToPeer p peer false catchup = some t) :
    ∃ info entity, s.deref p = some info ∧ s.entityOf p.key info = some entity ∧
      ∀ hand, t.site hand = { s.site hand with sent := syncCmd p.key info entity peer catchup :: s.sent } := by
  obtain ⟨info, found, rest⟩ := Option.bind_eq_some_iff.mp done
  obtain ⟨entity, owner, rest⟩ := Option.bind_eq_some_iff.mp rest
  simp only [Bool.false_eq_true, not_false_eq_true, if_true, Option.some.injEq] at rest
  subst rest
  exact ⟨info, entity, found, owner, fun _ => rfl⟩

theorem probe_spec (s t : Node n) (p : EntryPtr) (peer : Fin n) (done : s.syncToPeer p peer true false = some t) :
    ∃ info entity client, s.deref p = some info ∧ s.entityOf p.key info = some entity ∧ entity.clientCmd = some client ∧
      ∀ hand, t.site hand = { s.site hand with sent := probeCmd p.key entity client.uuid peer :: s.sent } := by
  obtain ⟨info, found, rest⟩ := Option.bind_eq_some_iff.mp done
  obtain ⟨entity, owner, rest⟩ := Option.bind_eq_some_iff.mp rest
  simp only [not_true, if_false] at rest
  obtain ⟨client, asking, rest⟩ := Option.bind_eq_some_iff.mp rest
  cases rest
  exact ⟨info, entity, client, found, owner, asking, fun _ => rfl⟩

-- Broadcasts only add to what was sent.
structure Sends (s t : Node n) : Prop where
  leads : Leads [] s t
  entities : t.entityInfos = s.entityInfos
  entries : t.entryInfos = s.entryInfos

theorem sends_refl (s : Node n) : Sends s s := ⟨leads_refl [] s, rfl, rfl⟩

theorem sends_trans (s t u : Node n) (first : Sends s t) (second : Sends t u) : Sends s u :=
  ⟨leads_trans [] s t u first.leads second.leads, second.entities.trans first.entities, second.entries.trans first.entries⟩

theorem sync_sends (s t : Node n) (p : EntryPtr) (peer : Fin n) (catchup : Bool)
    (certain : ∀ info, s.entryInfos p.key = some info → info.uncertain = false)
    (done : s.syncToPeer p peer false catchup = some t) : Sends s t := by
  obtain ⟨info, entity, found, owner, effect⟩ := sync_spec s t p peer catchup done
  obtain ⟨live, _⟩ := deref_some s p info found
  obtain ⟨known, _⟩ := entity_of_some s p.key info entity owner
  refine ⟨?_, congrArg Site.entityInfos (effect []), congrArg Site.entryInfos (effect [])⟩
  intro arrives hand _
  rw [effect hand]
  exact .single (.send _ (.sync p.key info entity peer catchup live (certain info live) known))

theorem probe_sends (s t : Node n) (p : EntryPtr) (peer : Fin n) (done : s.syncToPeer p peer true false = some t) : Sends s t := by
  obtain ⟨info, entity, client, found, owner, asking, effect⟩ := probe_spec s t p peer done
  obtain ⟨known, _⟩ := entity_of_some s p.key info entity owner
  refine ⟨?_, congrArg Site.entityInfos (effect []), congrArg Site.entryInfos (effect [])⟩
  intro arrives hand _
  rw [effect hand]
  exact .single (.send _ (.probe p.key entity client peer known asking))

theorem sync_to_peers_sends (s t : Node n) (p : EntryPtr) (checkEmpty : Bool) (peers : List (Fin n))
    (certain : checkEmpty = false → ∀ info, s.entryInfos p.key = some info → info.uncertain = false)
    (done : s.syncToPeers p checkEmpty peers = some t) : Sends s t := by
  induction peers generalizing s with
  | nil =>
      cases done
      exact sends_refl _
  | cons peer rest ih =>
      rw [syncToPeers, List.foldlM_cons] at done
      obtain ⟨u, first, later⟩ := Option.bind_eq_some_iff.mp done
      have one : Sends s u := by
        cases checkEmpty with
        | true => exact probe_sends s u p peer first
        | false => exact sync_sends s u p peer false (certain rfl) first
      refine sends_trans s u t one (ih u ?_ later)
      rw [one.entries]
      exact certain

theorem watermarks_cont (entity : EntityInfo n) (entry : Nat) (mine : Bool) :
    (chosenWatermarks entity entry mine).maxContChosenEntry = entity.maxContChosenEntry := by
  simp only [chosenWatermarks]
  split <;> split <;> rfl

theorem update_by_chosen_spec (o : Options n) (s t : Node n) (p : EntryPtr) (done : s.updateByChosenEntry o p = some t) :
    ∃ info entity, s.deref p = some info ∧ s.entityOf p.key info = some entity ∧
      (info.machine.entryState ≠ .chosen ∧ t = s ∨
        info.machine.entryState = .chosen ∧ info.machine.localRecord.chosen = true ∧
          ∃ expired pushed, ∀ hand, t.site hand =
            ((s.site hand).raise p.key entity info.machine pushed).setEntry p.key (some { info with expiredTimestampSec := expired })) := by
  obtain ⟨info, found, rest⟩ := Option.bind_eq_some_iff.mp done
  obtain ⟨entity, owner, rest⟩ := Option.bind_eq_some_iff.mp rest
  refine ⟨info, entity, found, owner, ?_⟩
  obtain ⟨live, number⟩ := deref_some s p info found
  by_cases closed : info.machine.entryState = .chosen
  · simp only [closed, ne_eq, not_true, if_false] at rest
    split at rest
    · cases rest
    · rename_i marked
      refine .inr ⟨closed, by simpa using marked, ?_⟩
      split at rest
      · rename_i next
        obtain ⟨u, moved, rest⟩ := Option.bind_eq_some_iff.mp rest
        obtain ⟨same, foundSame, moved⟩ := Option.bind_eq_some_iff.mp moved
        obtain ⟨liveSame, _⟩ := deref_some _ p same foundSame
        have equal : info = same := Option.some.inj (live.symm.trans liveSame)
        subst equal
        cases moved
        simp only [Option.some.injEq] at rest
        subst rest
        have next : entity.maxContChosenEntry + 1 = p.key.entry := by
          rw [watermarks_cont] at next
          exact next
        refine ⟨s.env.nowMsec / 1000 + o.entryTimeoutSec, !s.env.refusals.headD false, fun hand => ?_⟩
        rw [Site.raise, raisedBy, handOver, if_pos next]
        cases refused : s.env.refusals.head?.getD false <;>
          simp [site, ask, mark, setEntity, setEntry, Site.setEntity, Site.setEntry, dbReq, refused, Node.plogRecord, Site.plogRecord,
            watermarks_cont, next]
      · rename_i apart
        cases rest
        refine ⟨info.expiredTimestampSec, false, fun hand => ?_⟩
        have skipped : ¬ entity.maxContChosenEntry + 1 = p.key.entry := by
          rw [watermarks_cont] at apart
          exact apart
        rw [Site.raise, raisedBy, handOver, if_neg skipped]
        simp only [if_neg apart]
        rw [Site.set_entry_same _ _ _ live]
        rfl
  · simp only [ne_eq, closed, not_false_eq_true, if_true, Option.some.injEq] at rest
    exact .inl ⟨closed, rest.symm⟩

end Node

end PaxosStore.Certain
