import PaxosStore.Certain.HelperSpecs

set_option autoImplicit false

namespace PaxosStore.Certain

open Site

variable {n : Nat}

namespace Site

-- What a loaded entity keeps for good.
structure Settled (entity : EntityInfo n) : Prop where
  ready : entity.loading = false
  below : entity.maxContChosenEntry ≤ entity.maxChosenEntry

def Loaded (entityId : Nat) (s : Site n) : Prop := ∃ entity, s.entityInfos entityId = some entity ∧ Settled entity

theorem loaded_set (s : Site n) (entityId other : Nat) (entity new : EntityInfo n) (known : s.entityInfos other = some entity)
    (kept : Settled entity → Settled new) (loaded : Loaded entityId s) : Loaded entityId (s.setEntity other (some new)) := by
  obtain ⟨old, here, settled⟩ := loaded
  by_cases same : entityId = other
  · subst same
    rw [here] at known
    cases known
    exact ⟨new, by simp [setEntity], kept settled⟩
  · exact ⟨old, by simpa [setEntity, same] using here, settled⟩

theorem watermarks_loading (entity : EntityInfo n) (entry : Nat) (mine : Bool) :
    (Node.chosenWatermarks entity entry mine).loading = entity.loading := by
  simp only [Node.chosenWatermarks]
  split <;> split <;> rfl

theorem raised_loading (entity : EntityInfo n) (entry : Nat) (mine : Bool) :
    (raisedBy entity entry mine).loading = entity.loading := by
  simp only [raisedBy]
  split <;> exact watermarks_loading entity entry mine

theorem raised_settled (entity : EntityInfo n) (entry : Nat) (mine : Bool) (settled : Settled entity) :
    Settled (raisedBy entity entry mine) := by
  refine ⟨by rw [raised_loading]; exact settled.ready, ?_⟩
  have below := settled.below
  simp only [raisedBy, Node.chosenWatermarks]
  split <;> split <;> split <;> simp_all <;> omega

theorem loaded_same (entityId : Nat) (s t : Site n) (same : t.entityInfos = s.entityInfos) (loaded : Loaded entityId s) :
    Loaded entityId t := by
  rw [Loaded, same]
  exact loaded

theorem loaded_raise (s : Site n) (entityId : Nat) (key : EntryKey) (entity : EntityInfo n) (machine : EntryStateMachine n) (pushed : Bool)
    (known : s.entityInfos key.entityId = some entity) (loaded : Loaded entityId s) :
    Loaded entityId (s.raise key entity machine pushed) :=
  loaded_same entityId _ _ (raise_entities s key entity machine pushed)
    (loaded_set s entityId key.entityId entity _ known (raised_settled entity key.entry _) loaded)

theorem loaded_raise_if (s : Site n) (entityId : Nat) (key : EntryKey) (entity : EntityInfo n) (machine : EntryStateMachine n)
    (pushed : Bool) (known : s.entityInfos key.entityId = some entity) (loaded : Loaded entityId s) :
    Loaded entityId (s.raiseIfChosen key entity machine pushed) := by
  rw [raiseIfChosen]
  split
  · exact loaded_raise s entityId key entity machine pushed known loaded
  · exact loaded

theorem entity_move_settled (s : Site n) (entityId : Nat) (entity new : EntityInfo n) (move : EntityMove s entityId entity new)
    (settled : Settled entity) : Settled new := by
  cases move with
  | heard cmd peer held same ours ahead => exact ⟨settled.ready, Nat.le_trans settled.below (Nat.le_of_lt ahead)⟩
  | catchup | recover | park | ask | take | number => exact ⟨settled.ready, settled.below⟩

-- A loaded entity stays loaded: only a loading one is ever destroyed.
theorem loaded_move (arrives : PaxosCmd → Prop) (entityId : Nat) (s t : Site n) (move : Move arrives s t) (loaded : Loaded entityId s) :
    Loaded entityId t := by
  cases move with
  | entity other old new known allowed =>
      exact loaded_set s entityId other old new known (entity_move_settled s other old new allowed) loaded
  | recovered other entry timestamp old known =>
      refine loaded_set s entityId other old _ known (fun settled => ⟨settled.ready, ?_⟩) loaded
      have below := settled.below
      simp only [recoveredBy]
      omega
  | chosen key entity info pushed live certain known closed => exact loaded_raise s entityId key entity info.machine pushed known loaded
  | finish other valueId old client result known asking fair =>
      exact loaded_set s entityId other old _ known (fun settled => ⟨settled.ready, settled.below⟩) loaded
  | newEntity other new absent =>
      obtain ⟨old, here, settled⟩ := loaded
      have apart : entityId ≠ other := by
        rintro rfl
        rw [here] at absent
        cases absent
      exact ⟨old, by simpa [note, setEntity, apart] using here, settled⟩
  | write key entity info client started base reading next valueId marks known =>
      exact loaded_set s entityId key.entityId entity _ known (fun settled => ⟨settled.ready, settled.below⟩) loaded
  | openRead key entity info client next known =>
      exact loaded_set s entityId key.entityId entity _ known (fun settled => ⟨settled.ready, settled.below⟩) loaded
  | setDone index cmd entity info pushed next isSet entryOp done live uncertain known =>
      exact loaded_raise_if _ entityId cmd.key entity info.machine pushed known loaded
  | getDone index cmd entity info record code machine pushed free next isGet entryOp notSet found live uncertain known =>
      refine loaded_same entityId (if code = .ok then _ else _) _ rfl ?_
      split
      · exact loaded_raise_if _ entityId cmd.key entity machine pushed known loaded
      · exact loaded
  | loadDone index cmd entity next isLoad done known loading =>
      refine loaded_set s entityId cmd.entityId entity _ known (fun settled => ?_) loaded
      rw [settled.ready] at loading
      cases loading
  | loadFailed index cmd entity next isLoad failed known loading idle =>
      obtain ⟨old, here, settled⟩ := loaded
      have apart : entityId ≠ cmd.entityId := by
        rintro rfl
        rw [here] at known
        cases known
        rw [settled.ready] at loading
        cases loading
      exact ⟨old, by simpa [setEntity, apart] using here, settled⟩
  | _ => exact loaded

theorem loaded_moves (arrives : PaxosCmd → Prop) (entityId : Nat) (s t : Site n) (moves : Moves arrives s t)
    (loaded : Loaded entityId s) : Loaded entityId t := by
  induction moves with
  | refl => exact loaded
  | tail _ move ih => exact loaded_move arrives entityId _ _ move ih

end Site

namespace Node

theorem leads_loaded (held : List PaxosCmd) (entityId : Nat) (s t : Node n) (leads : Leads held s t)
    (loaded : Loaded entityId (s.site held)) : Loaded entityId (t.site held) :=
  loaded_moves (fun _ => False) entityId _ _ (leads _ held fun _ member => member) loaded

theorem leads_site (held : List PaxosCmd) (s t : Node n) (u : List PaxosCmd → Site n) (effect : ∀ hand, t.site hand = u hand)
    (move : ∀ arrives hand, (∀ cmd ∈ held, cmd ∈ hand) → Move arrives (s.site hand) (u hand)) : Leads held s t := by
  apply leads_move
  intro arrives hand inHand
  rw [effect hand]
  exact move arrives hand inHand

theorem finish_leads (s t : Node n) (entityId : Nat) (entity : EntityInfo n) (client : ClientCmd) (result : RetCode)
    (known : s.entityInfos entityId = some entity) (asking : entity.clientCmd = some client) (failed : result ≠ .ok)
    (effect : ∀ hand, t.site hand = finished (s.site hand) entityId entity client result) : Leads [] s t := by
  apply leads_site [] s t _ effect
  intro arrives hand _
  exact .finish entityId client.valueId entity client result known asking fun success => absurd success failed

-- A failed answer to the client touches nothing but the command itself.
structure Answers (s t : Node n) : Prop where
  leads : Leads [] s t
  entries : t.entryInfos = s.entryInfos

theorem answers_refl (s : Node n) : Answers s s := ⟨leads_refl [] s, rfl⟩

theorem finish_client_answers (s t : Node n) (entityId : Nat) (result : RetCode) (failed : result ≠ .ok)
    (done : s.finishClientCmd entityId result = some t) : Answers s t := by
  obtain ⟨entity, known, ⟨_, rfl⟩ | ⟨client, asking, effect⟩⟩ := finish_client_spec s t entityId result done
  · exact answers_refl t
  · exact ⟨finish_leads s t entityId entity client result known asking failed effect, congrArg Site.entryInfos (effect [])⟩

theorem finish_entry_answers (s t : Node n) (key : EntryKey) (result : RetCode) (failed : result ≠ .ok)
    (done : s.finishEntryCmd key result = some t) : Answers s t := by
  obtain ⟨entity, known, ⟨_, rfl⟩ | ⟨client, asking, _, effect⟩⟩ := finish_entry_spec s t key result done
  · exact answers_refl t
  · exact ⟨finish_leads s t key.entityId entity client result known asking failed effect, congrArg Site.entryInfos (effect [])⟩

theorem reject_leads (s : Node n) (cmd : ClientCmd) (result : RetCode) (failed : result ≠ .ok) :
    Leads [] s (s.finishCmd cmd result) := by
  apply leads_site [] s _ _ (finish_cmd_site s cmd result)
  intro arrives hand _
  exact .reject { cmd with result := result } fun success => absurd success failed

theorem fresh_shapes (u v : Node n) (key : EntryKey) (entity : EntityInfo n) (flags : Fin n → Bool) (info : EntryInfo n)
    (gone : u.entryInfos key = none) (known : u.entityInfos key.entityId = some entity) (opens : Openable (u.site []) entity key)
    (beyond : entity.maxPlogEntry < key.entry) (blank : Blank entity flags info) (certain : info.uncertain = false)
    (effect : ∀ hand, v.site hand = ((u.site hand).setEntry key (some info)).note (.created key flags entity.clientCmd)) :
    Shapes u v := by
  intro arrives hand entities alike
  obtain ⟨pending, here, seen⟩ := alike key.entityId entity known
  rw [effect hand]
  exact .single (.createFresh key { entity with clientCmd := pending } flags entity.clientCmd info gone here opens seen beyond
    ⟨blank.owner, blank.slots, blank.machine⟩ certain)

theorem loading_shapes (u w : Node n) (key : EntryKey) (entity : EntityInfo n) (flags : Fin n → Bool) (info : EntryInfo n)
    (gone : u.entryInfos key = none) (known : u.entityInfos key.entityId = some entity) (opens : Openable (u.site []) entity key)
    (blank : Blank entity flags info)
    (effect : ∀ hand, w.site hand =
      { ((u.site hand).setEntry key (some { info with uncertain := true })).note (.created key flags entity.clientCmd) with
        plogReqs := u.plogReqs ++ [getReq key] }) : Shapes u w := by
  intro arrives hand entities alike
  obtain ⟨pending, here, seen⟩ := alike key.entityId entity known
  rw [effect hand]
  exact .single (.createLoading key { entity with clientCmd := pending } flags entity.clientCmd { info with uncertain := true } gone here
    opens seen ⟨blank.owner, blank.slots, blank.machine⟩ rfl)

theorem gone_shapes (u t : Node n) (key : EntryKey) (entity : EntityInfo n) (flags : Fin n → Bool)
    (gone : u.entryInfos key = none) (known : u.entityInfos key.entityId = some entity)
    (effect : ∀ hand, t.site hand =
      ((u.site hand).note (.created key flags entity.clientCmd)).note (destroyedMark (u.site hand) entity key)) : Shapes u t := by
  intro arrives hand entities alike
  obtain ⟨pending, here, _⟩ := alike key.entityId entity known
  rw [effect hand]
  exact .single (.createGone key { entity with clientCmd := pending } flags entity.clientCmd gone here)

-- What CreateEntryInfoIfMiss does, whatever command waits in the entity.
structure Opens (s t : Node n) (key : EntryKey) (found : Option EntryPtr) : Prop where
  shapes : Shapes s t
  entities : t.entityInfos = s.entityInfos
  keyed : ∀ p, found = some p → p.key = key

theorem opens_after (s u t : Node n) (key : EntryKey) (found : Option EntryPtr) (shed : Sheds s u) (opens : Opens u t key found) :
    Opens s t key found where
  shapes := fun arrives hand entities alike =>
    (shed.shapes arrives hand entities alike).trans (opens.shapes arrives hand entities (by rw [shed.entities]; exact alike))
  entities := opens.entities.trans shed.entities
  keyed := opens.keyed

theorem opens_leads (s t : Node n) (key : EntryKey) (found : Option EntryPtr) (opens : Opens s t key found) : Leads [] s t :=
  shapes_leads s t opens.shapes opens.entities

-- The part of CreateEntryInfoIfMiss after MakeEnoughRoom.
theorem create_opens (o : Options n) (u t : Node n) (entityId entry : Nat) (ret : RetCode) (found : Option EntryPtr)
    (gone : u.entryInfos ⟨entityId, entry⟩ = none)
    (openable : ∀ entity, u.entityInfos entityId = some entity → Openable (u.site []) entity ⟨entityId, entry⟩)
    (done : (do
      let (p, s) ← u.createEntryInfo o entityId entry
      let entity ← s.entityInfos entityId
      if entity.maxPlogEntry < entry then some (.ok, some p, s)
      else
        let (loaded, s) ← s.loadEntryInfo p
        if loaded then some (.ok, some p, s)
        else
          let s ← s.destroyEntryInfo p
          some (.loadEntryFailed, none, s)) = some (ret, found, t)) : Opens u t ⟨entityId, entry⟩ found := by
  obtain ⟨⟨p, v⟩, created, rest⟩ := Option.bind_eq_some_iff.mp done
  obtain ⟨entity, flags, info, known, blank, certain, rfl, effect⟩ := create_entry_spec o u v entityId entry p created
  have entities : v.entityInfos = u.entityInfos := congrArg Site.entityInfos (effect [])
  have entries : v.entryInfos = _ := congrArg Site.entryInfos (effect [])
  obtain ⟨again, knownAgain, rest⟩ := Option.bind_eq_some_iff.mp rest
  rw [entities, known] at knownAgain
  cases knownAgain
  split at rest
  · rename_i beyond
    cases rest
    exact ⟨fresh_shapes u t ⟨entityId, entry⟩ entity flags info gone known (openable entity known) beyond blank certain effect, entities,
      fun _ same => by cases same; rfl⟩
  · obtain ⟨⟨loaded, w⟩, asked, rest⟩ := Option.bind_eq_some_iff.mp rest
    obtain ⟨same, foundSame, outcome⟩ := load_entry_spec v w _ loaded asked
    obtain ⟨live, _⟩ := deref_some v _ same foundSame
    rw [entries] at live
    simp only [Site.note, Site.setEntry, Function.update_self, Option.some.injEq] at live
    subst live
    rcases outcome with ⟨rfl, unchanged⟩ | ⟨rfl, queued⟩
    · simp only [Bool.false_eq_true, if_false] at rest
      obtain ⟨z, destroyed, rest⟩ := Option.bind_eq_some_iff.mp rest
      cases rest
      obtain ⟨last, owned, foundLast, ownerLast, final⟩ := destroy_spec w t _ destroyed
      obtain ⟨knownLast, _⟩ := entity_of_some w _ last owned ownerLast
      have sameEntities : w.entityInfos = v.entityInfos := congrArg Site.entityInfos (unchanged [])
      rw [sameEntities, entities, known] at knownLast
      cases knownLast
      have total : ∀ hand, t.site hand = ((u.site hand).note (.created ⟨entityId, entry⟩ flags entity.clientCmd)).note
          (destroyedMark (u.site hand) entity ⟨entityId, entry⟩) := by
        intro hand
        rw [final hand, unchanged hand, effect hand]
        have back : Function.update (Function.update u.entryInfos ⟨entityId, entry⟩ (some info)) ⟨entityId, entry⟩ none =
            u.entryInfos := by
          rw [Function.update_idem, ← gone, Function.update_eq_self]
        simp only [Site.note, Site.setEntry, site, back]
        rfl
      exact ⟨gone_shapes u t ⟨entityId, entry⟩ entity flags gone known total, congrArg Site.entityInfos (total []),
        fun _ same => by cases same⟩
    · simp only [if_true, Option.some.injEq, Prod.mk.injEq] at rest
      obtain ⟨_, rfl, rfl⟩ := rest
      have total : ∀ hand, w.site hand =
          { ((u.site hand).setEntry ⟨entityId, entry⟩ (some { info with uncertain := true })).note
              (.created ⟨entityId, entry⟩ flags entity.clientCmd) with
            plogReqs := u.plogReqs ++ [getReq ⟨entityId, entry⟩] } := by
        intro hand
        have queue : v.plogReqs = u.plogReqs := congrArg Site.plogReqs (effect [])
        rw [queued hand, effect hand, queue]
        simp [Site.note, Site.setEntry, site]
      exact ⟨loading_shapes u w ⟨entityId, entry⟩ entity flags info gone known (openable entity known) blank total,
        congrArg Site.entityInfos (total []), fun _ same => by cases same; rfl⟩

theorem create_if_miss_opens (o : Options n) (s t : Node n) (entityId entry : Nat) (ret : RetCode) (found : Option EntryPtr)
    (done : s.createEntryInfoIfMiss o entityId entry = some (ret, found, t))
    (openable : s.entryInfos ⟨entityId, entry⟩ = none → ∀ entity, s.entityInfos entityId = some entity →
      Openable (s.site []) entity ⟨entityId, entry⟩) : Opens s t ⟨entityId, entry⟩ found := by
  rw [createEntryInfoIfMiss] at done
  split at done
  · rename_i p there
    cases done
    obtain ⟨info, _, rfl⟩ := Option.map_eq_some_iff.mp there
    exact ⟨fun _ _ _ _ => .refl, rfl, fun _ same => by cases same; rfl⟩
  · rename_i missing
    have absent : s.entryInfos ⟨entityId, entry⟩ = none := Option.map_eq_none_iff.mp missing
    obtain ⟨⟨room, u⟩, made, rest⟩ := Option.bind_eq_some_iff.mp done
    have shed := make_enough_room_sheds o s u room made
    dsimp only at rest
    split at rest
    · cases rest
      exact ⟨shed.shapes, shed.entities, fun _ same => by cases same⟩
    · refine opens_after s u t _ found shed (create_opens o u t entityId entry ret found ?_ (fun entity known => ?_) rest)
      · cases still : u.entryInfos ⟨entityId, entry⟩ with
        | none => rfl
        | some info =>
            rw [shed.entries _ info still] at absent
            cases absent
      · rcases openable absent entity (by rw [← shed.entities]; exact known) with loaded | dumped
        · exact .inl loaded
        · exact .inr (shed.marks _ dumped)

theorem create_if_miss_leads (o : Options n) (s t : Node n) (entityId entry : Nat) (ret : RetCode) (found : Option EntryPtr)
    (done : s.createEntryInfoIfMiss o entityId entry = some (ret, found, t))
    (openable : s.entryInfos ⟨entityId, entry⟩ = none → ∀ entity, s.entityInfos entityId = some entity →
      Openable (s.site []) entity ⟨entityId, entry⟩) :
    Leads [] s t ∧ t.entityInfos = s.entityInfos ∧ ∀ p, found = some p → p.key = ⟨entityId, entry⟩ := by
  have opens := create_if_miss_opens o s t entityId entry ret found done openable
  exact ⟨opens_leads s t _ found opens, opens.entities, opens.keyed⟩

theorem entity_if_miss_leads (o : Options n) (s t : Node n) (entityId : Nat) (ret : RetCode)
    (done : s.createEntityInfoIfMiss o entityId = some (ret, t)) :
    Leads [] s t ∧ (∀ entity, s.entityInfos entityId = some entity → t = s) ∧
      ∀ entity, s.entityInfos entityId = none → t.entityInfos entityId = some entity →
        entity.loading = true ∧ entity.maxContChosenEntry = entity.maxChosenEntry := by
  rw [createEntityInfoIfMiss] at done
  split at done
  · rename_i there
    cases done
    exact ⟨leads_refl [] s, fun _ _ => rfl, fun entity absent => by rw [absent] at there; cases there⟩
  · rename_i absent
    dsimp only at done
    split at done
    · cases done
      exact ⟨leads_same [] s _ fun _ => rfl, fun entity known => absurd (absent.symm.trans known) (by simp),
        fun entity _ known => absurd (absent.symm.trans known) (by simp)⟩
    · obtain ⟨⟨loaded, u⟩, asked, rest⟩ := Option.bind_eq_some_iff.mp done
      obtain ⟨entity, known, outcome⟩ := load_entity_spec _ u entityId loaded asked
      have fresh : ∀ hand, (s.ask.2.createEntityInfo o entityId).site hand = (s.site hand).setEntity entityId (some entity) := by
        intro hand
        have here := known
        simp only [createEntityInfo, setEntity, Function.update_self, Option.some.injEq] at here
        simp only [createEntityInfo, setEntity, here, site, Site.setEntity]
        rfl
      have blank : entity.localAcceptorId = s.route entityId ∧
          (entity.maxContChosenEntry = 0 ∧ entity.maxChosenEntry = 0 ∧ entity.maxPlogEntry = 0) ∧
          entity.clientCmd = none ∧ entity.waitingMsg = none := by
        simp only [createEntityInfo, setEntity, Function.update_self, Option.some.injEq] at known
        subst known
        exact ⟨rfl, ⟨rfl, rfl, rfl⟩, rfl, rfl⟩
      rcases outcome with ⟨rfl, unchanged⟩ | ⟨rfl, queued⟩
      · simp only [Bool.false_eq_true, if_false, Option.some.injEq, Prod.mk.injEq] at rest
        obtain ⟨_, rfl⟩ := rest
        refine ⟨?_, fun entity known => absurd (absent.symm.trans known) (by simp), fun other _ known => by simp [setEntity] at known⟩
        apply leads_same
        intro hand
        have total : (u.setEntity entityId none).site hand = (u.site hand).setEntity entityId none := rfl
        rw [total, unchanged hand, fresh hand, Site.set_entity_twice]
        simp only [Site.setEntity]
        rw [← absent]
        simp [site]
      · simp only [if_true, Option.some.injEq, Prod.mk.injEq] at rest
        obtain ⟨_, rfl⟩ := rest
        have total : ∀ hand, (u.mark (.opened entityId)).site hand =
            { ((s.site hand).setEntity entityId (some { entity with loading := true })).note (.opened entityId) with
              plogReqs := s.plogReqs ++ [loadReq entityId] } := by
          intro hand
          have outer : (u.mark (.opened entityId)).site hand = (u.site hand).note (.opened entityId) := rfl
          rw [outer, queued hand, fresh hand, Site.set_entity_twice]
          rfl
        refine ⟨?_, fun entity known => absurd (absent.symm.trans known) (by simp), fun other _ known => ?_⟩
        · apply leads_site [] s _ _ total
          intro arrives hand _
          exact .newEntity entityId _ absent rfl blank.1 blank.2.1 blank.2.2.1 blank.2.2.2
        · have entities : (u.mark (.opened entityId)).entityInfos = _ := congrArg Site.entityInfos (total [])
          rw [entities] at known
          simp only [Site.note, Site.setEntity, Function.update_self, Option.some.injEq] at known
          subst known
          exact ⟨rfl, blank.2.1.1.trans blank.2.1.2.1.symm⟩

theorem update_by_chosen_leads (o : Options n) (s t : Node n) (p : EntryPtr)
    (certain : ∀ info, s.entryInfos p.key = some info → info.uncertain = false) (done : s.updateByChosenEntry o p = some t) :
    Leads [] s t := by
  obtain ⟨info, entity, found, owner, ⟨_, rfl⟩ | ⟨closed, _, expired, pushed, effect⟩⟩ := update_by_chosen_spec o s t p done
  · exact leads_refl [] t
  · obtain ⟨live, _⟩ := deref_some s p info found
    obtain ⟨known, _⟩ := entity_of_some s p.key info entity owner
    intro arrives hand _
    rw [effect hand]
    refine .head (.chosen p.key entity info pushed live (certain info live) known closed) ?_
    exact .single (.entry p.key info _ (by rw [raise_entries]; exact live)
      (.book info.broadcast info.compensateMsgs info.peerToSync info.totalSize expired info.catchupTimestampMsec info.catchupTimes))

theorem raised_cont (entity : EntityInfo n) (entry : Nat) (mine : Bool) :
    (raisedBy entity entry mine).maxContChosenEntry = entity.maxContChosenEntry ∨
      (raisedBy entity entry mine).maxContChosenEntry = entry ∧ entry = entity.maxContChosenEntry + 1 := by
  have same : (chosenWatermarks entity entry mine).maxContChosenEntry = entity.maxContChosenEntry := by
    simp only [chosenWatermarks]
    split <;> split <;> rfl
  simp only [raisedBy]
  split
  · rename_i next
    rw [same] at next
    exact .inr ⟨(congrArg Nat.succ same).trans next, next.symm⟩
  · exact .inl same

-- The entity is loaded and its chosen entries go no further than `bound`.
def UpTo (s : Node n) (entityId bound : Nat) : Prop :=
  ∃ entity, s.entityInfos entityId = some entity ∧ entity.loading = false ∧ entity.maxContChosenEntry ≤ bound

theorem up_to_entities (s t : Node n) (entityId bound : Nat) (same : t.entityInfos = s.entityInfos) (upTo : UpTo s entityId bound) :
    UpTo t entityId bound := by
  obtain ⟨entity, known, rest⟩ := upTo
  exact ⟨entity, by rw [same]; exact known, rest⟩

theorem entry_to_catchup_leads (o : Options n) (s t : Node n) (entityId curr : Nat) (found : Option EntryPtr)
    (done : s.entryToCatchup o entityId (curr + 1) = some (found, t)) (upTo : UpTo s entityId curr) :
    Leads [] s t ∧ t.entityInfos = s.entityInfos ∧ ∀ p, found = some p → p.key = ⟨entityId, curr + 1⟩ := by
  rw [entryToCatchup] at done
  split at done
  · rename_i p there
    cases done
    obtain ⟨info, _, rfl⟩ := Option.map_eq_some_iff.mp there
    exact ⟨leads_refl [] s, rfl, fun _ same => by cases same; rfl⟩
  · dsimp only at done
    split at done
    · cases done
      exact ⟨leads_same [] s _ fun _ => rfl, rfl, fun _ same => by cases same⟩
    · obtain ⟨⟨ret, p, u⟩, created, rest⟩ := Option.bind_eq_some_iff.mp done
      have result := create_if_miss_leads o s.ask.2 u entityId (curr + 1) ret p created (by
        intro _ entity known
        obtain ⟨same, knownSame, ready, below⟩ := upTo
        have equal : entity = same := Option.some.inj (known.symm.trans knownSame)
        subst equal
        exact .inl ⟨ready, Nat.lt_succ_of_le below⟩)
      have leads : Leads [] s u := leads_trans [] s s.ask.2 u (leads_same [] s _ fun _ => rfl) result.1
      dsimp only at rest
      split at rest
      · cases rest
        exact ⟨leads, result.2.1, fun _ same => by cases same⟩
      · cases rest
        exact ⟨leads, result.2.1, result.2.2⟩

theorem book_leads (s t : Node n) (key : EntryKey) (info : EntryInfo n) (timestamp times : Nat) (live : s.entryInfos key = some info)
    (same : t = s.setEntry key (some { info with catchupTimestampMsec := timestamp, catchupTimes := times })) : Leads [] s t := by
  subst same
  apply leads_move
  intro arrives hand _
  exact .entry key info _ live
    (.book info.broadcast info.compensateMsgs info.peerToSync info.totalSize info.expiredTimestampSec timestamp times)

theorem catchup_to_peer_sends (s t : Node n) (p : EntryPtr) (certain : ∀ info, s.entryInfos p.key = some info → info.uncertain = false)
    (done : s.catchupToPeer p = some t) : Sends s t := by
  obtain ⟨info, found, rest⟩ := Option.bind_eq_some_iff.mp done
  obtain ⟨entity, owner, rest⟩ := Option.bind_eq_some_iff.mp rest
  exact sync_sends s t p _ true certain rest

theorem catchup_entry_leads (o : Options n) (s t : Node n) (entityId curr : Nat) (go : Bool)
    (done : s.catchupEntry o entityId (curr + 1) = some (go, t)) (upTo : UpTo s entityId curr) :
    Leads [] s t ∧ UpTo t entityId (curr + 1) := by
  obtain ⟨⟨found, u⟩, first, rest⟩ := Option.bind_eq_some_iff.mp done
  obtain ⟨leads, entities, keyed⟩ := entry_to_catchup_leads o s u entityId curr found first upTo
  have upToFirst := up_to_entities s u entityId curr entities upTo
  have wider : UpTo u entityId (curr + 1) := by
    obtain ⟨entity, known, ready, below⟩ := upToFirst
    exact ⟨entity, known, ready, Nat.le_succ_of_le below⟩
  cases found with
  | none =>
      cases rest
      exact ⟨leads, wider⟩
  | some p =>
      have about := keyed p rfl
      obtain ⟨info, there, rest⟩ := Option.bind_eq_some_iff.mp rest
      obtain ⟨live, _⟩ := deref_some u p info there
      split at rest
      · cases rest
        exact ⟨leads, wider⟩
      · rename_i settled
        have certain : ∀ other, u.entryInfos p.key = some other → other.uncertain = false := by
          intro other same
          rw [live] at same
          cases same
          simpa using settled
        split at rest
        · obtain ⟨v, chosen, rest⟩ := Option.bind_eq_some_iff.mp rest
          cases rest
          refine ⟨leads_trans [] s u t leads (update_by_chosen_leads o u t p certain chosen), ?_⟩
          obtain ⟨same, entity, _, owner, ⟨_, rfl⟩ | ⟨_, _, expired, pushed, effect⟩⟩ := update_by_chosen_spec o u t p chosen
          · exact wider
          · obtain ⟨known, _⟩ := entity_of_some u p.key same entity owner
            rw [about] at known
            obtain ⟨old, knownOld, ready, below⟩ := upToFirst
            rw [known] at knownOld
            cases knownOld
            have after : t.entityInfos entityId = some
                (raisedBy entity p.key.entry (same.machine.hasAcceptedMyProposal entity.localAcceptorId)) := by
              have entities : t.entityInfos = _ := congrArg Site.entityInfos (effect [])
              rw [entities, about]
              simp [Site.setEntry]
            refine ⟨_, after, by rw [raised_loading]; exact ready, ?_⟩
            have here : p.key.entry = curr + 1 := by rw [about]
            rw [here]
            rcases raised_cont entity (curr + 1) (same.machine.hasAcceptedMyProposal entity.localAcceptorId) with kept | ⟨raised, _⟩
            · omega
            · omega
        · split at rest
          · cases rest
            exact ⟨leads, wider⟩
          · dsimp only at rest
            split at rest
            · cases rest
              exact ⟨leads, wider⟩
            · obtain ⟨v, sentOut, rest⟩ := Option.bind_eq_some_iff.mp rest
              obtain ⟨w, timed, rest⟩ := Option.bind_eq_some_iff.mp rest
              cases rest
              have counted : Leads [] u (u.ask.2.setEntry p.key (some { info with catchupTimes := info.catchupTimes + 1 })) :=
                book_leads u.ask.2 _ p.key info info.catchupTimestampMsec _ live rfl
              have sends := catchup_to_peer_sends _ v p (by
                intro other same
                simp only [setEntry, Function.update_self, Option.some.injEq] at same
                subst same
                simpa using settled) sentOut
              obtain ⟨last, timestamp, foundLast, rfl⟩ := update_catchup_spec o v t p timed
              obtain ⟨liveLast, _⟩ := deref_some v p last foundLast
              have stamped : Leads [] v (v.setEntry p.key (some { last with catchupTimestampMsec := timestamp })) :=
                book_leads v _ p.key last timestamp last.catchupTimes liveLast rfl
              refine ⟨leads_trans [] s u _ leads (leads_trans [] u _ _ counted (leads_trans [] _ v _ sends.leads stamped)), ?_⟩
              exact up_to_entities u _ entityId (curr + 1) sends.entities wider

theorem catchup_entries_leads (o : Options n) (entityId count : Nat) (s t : Node n) (curr : Nat)
    (done : catchupEntries o entityId (List.range' (curr + 1) count) s = some t) (upTo : UpTo s entityId curr) : Leads [] s t := by
  induction count generalizing s curr with
  | zero =>
      cases done
      exact leads_refl [] _
  | succ count ih =>
      rw [List.range'_succ, catchupEntries] at done
      obtain ⟨⟨go, u⟩, first, rest⟩ := Option.bind_eq_some_iff.mp done
      obtain ⟨leads, next⟩ := catchup_entry_leads o s u entityId curr go first upTo
      dsimp only at rest
      split at rest
      · exact leads_trans [] s u t leads (ih u (curr + 1) rest next)
      · cases rest
        exact leads

theorem try_catchup_leads (o : Options n) (s t : Node n) (entityId : Nat) (done : s.tryCatchup o entityId = some t)
    (ready : ∀ entity, s.entityInfos entityId = some entity →
      entity.loading = false ∨ entity.maxContChosenEntry = entity.maxChosenEntry) : Leads [] s t := by
  obtain ⟨entity, known, rest⟩ := Option.bind_eq_some_iff.mp done
  dsimp only at rest
  split at rest
  · cases rest
  · split at rest
    · cases rest
      exact leads_refl [] s
    · rename_i apart
      split at rest
      · cases rest
        exact leads_refl [] s
      · have loaded : entity.loading = false := (ready entity known).resolve_right apart
        refine leads_trans [] s _ t ?_ (catchup_entries_leads o entityId _ _ t entity.maxContChosenEntry rest ?_)
        · apply leads_move
          intro arrives hand _
          exact .entity entityId entity _ known (.catchup _)
        · exact ⟨{ entity with maxCatchupEntry := catchupDest o entity }, by simp [setEntity], loaded, Nat.le_refl _⟩

theorem try_catchup_loaded (o : Options n) (s t : Node n) (entityId : Nat) (done : s.tryCatchup o entityId = some t)
    (loaded : Loaded entityId (s.site [])) : Leads [] s t := by
  apply try_catchup_leads o s t entityId done
  intro entity known
  obtain ⟨same, knownSame, settled⟩ := loaded
  have equal : entity = same := Option.some.inj (known.symm.trans knownSame)
  exact .inl (equal ▸ settled.ready)

theorem trigger_recover_leads (s t : Node n) (entityId : Nat) (ret : RetCode) (done : s.triggerRecover entityId = some (ret, t)) :
    Leads [] s t := by
  obtain ⟨entity, known, rest⟩ := Option.bind_eq_some_iff.mp done
  dsimp only at rest
  split at rest
  · cases rest
    exact leads_refl [] s
  · split at rest
    · cases rest
      exact leads_refl [] s
    · split at rest
      · cases rest
        exact leads_same [] s _ fun _ => rfl
      · cases rest
        apply leads_move
        intro arrives hand _
        exact .entity entityId entity _ known (.recover true entity.recoverTimestampMsec)

end Node

end PaxosStore.Certain
