import PaxosStore.Certain.HelperMoves

set_option autoImplicit false

namespace PaxosStore.Certain.Node

open Site

variable {n : Nat}

-- The machine of an entry and the marks after a step on it.
def stepped (s : Site n) (key : EntryKey) (info : EntryInfo n) (marks : List (Mark n)) : Site n :=
  { s.setEntry key (some info) with marks := marks ++ s.marks }

theorem set_machine_spec (s t : Node n) (p : EntryPtr) (machine : EntryStateMachine n) (done : s.setMachine p machine = some t) :
    ∃ info, s.deref p = some info ∧ t = s.setEntry p.key (some { info with machine := machine }) := by
  obtain ⟨info, found, rest⟩ := Option.bind_eq_some_iff.mp done
  cases rest
  exact ⟨info, found, rfl⟩

theorem set_value_id_spec (s t : Node n) (entityId valueId : Nat) (done : s.setValueId entityId valueId = some t) :
    ∃ entity client, s.entityInfos entityId = some entity ∧ entity.clientCmd = some client ∧
      t = s.setEntity entityId (some { entity with clientCmd := some { client with valueId := valueId } }) := by
  obtain ⟨entity, known, rest⟩ := Option.bind_eq_some_iff.mp done
  obtain ⟨client, asking, rest⟩ := Option.bind_eq_some_iff.mp rest
  cases rest
  exact ⟨entity, client, known, asking, rfl⟩

-- An entity without a command, and the entry at which one may start.
structure Startable (s : Node n) (p : EntryPtr) (entity : EntityInfo n) (info : EntryInfo n) (client : ClientCmd) : Prop where
  known : s.entityInfos p.key.entityId = some entity
  ready : entity.loading = false
  idle : entity.clientCmd = none
  home : client.entityId = p.key.entityId
  about : client.entry = p.key.entry
  kind : client.cmdId = .write ∨ client.cmdId = .read
  matched : p.key.entry = entity.maxChosenEntry + 1
  live : s.entryInfos p.key = some info
  certain : info.uncertain = false

theorem moves_of_eq (arrives : PaxosCmd → Prop) (s t : Site n) (same : s = t) : Moves arrives s t := same ▸ .refl

-- ClearEntryInfo after a store that failed: the step shows in the marks only.
theorem cleared_leads (held : List PaxosCmd) (s v w : Node n) (p : EntryPtr) (entity : EntityInfo n) (info next : EntryInfo n)
    (marks : List (Mark n)) (known : s.entityInfos p.key.entityId = some entity) (live : s.entryInfos p.key = some info)
    (certain : info.uncertain = false)
    (notable : ∀ hand, (∀ cmd ∈ held, cmd ∈ hand) →
      Notable (s.site hand) (lostMark (s.site hand) p.key next.machine.localRecord :: marks))
    (before : ∀ hand, v.site hand = stepped (s.site hand) p.key next marks) (done : v.clearEntryInfo p = some w) :
    Leads held s w := by
  obtain ⟨info', entity', found, owner, outcome⟩ := clear_entry_spec v w p done
  have entries : v.entryInfos = _ := congrArg Site.entryInfos (before [])
  have entities : v.entityInfos = s.entityInfos := congrArg Site.entityInfos (before [])
  have sameInfo : info' = next := by
    obtain ⟨here, _⟩ := deref_some v p info' found
    rw [entries] at here
    simpa [stepped, Site.setEntry, eq_comm] using here
  have sameEntity : entity' = entity := by
    obtain ⟨here, _⟩ := entity_of_some v p.key info' entity' owner
    rw [entities] at here
    exact Option.some.inj (here.symm.trans known)
  subst sameInfo sameEntity
  intro arrives hand inHand
  rcases outcome with ⟨_, effect⟩ | ⟨asked, asking, _, effect⟩
  · rw [effect hand, before hand]
    refine .head (.note _ (notable hand inHand)) (.head (.destroy p.key entity' info live known certain) (moves_of_eq arrives _ _ ?_))
    simp [Site.setEntry, Site.note, stepped, lostMark, destroyedMark, Site.plogRecord]
  · rw [effect hand, before hand]
    refine .head (.note _ (notable hand inHand)) (.head (.finish p.key.entityId asked.valueId entity' asked .entryCleanup known asking
      (by intro wrong; cases wrong)) (.head (.destroy p.key { entity' with clientCmd := none } info live
        (by simp [Site.setEntity]) certain) (moves_of_eq arrives _ _ ?_)))
    simp [Site.setEntity, Site.setEntry, Site.note, stepped, finished, lostMark, destroyedMark, Site.plogRecord]

-- The same after a write: its command was never in the entity.
theorem cleared_write_leads (s v w : Node n) (p : EntryPtr) (entity : EntityInfo n) (info next : EntryInfo n) (asked : ClientCmd)
    (marks : List (Mark n)) (known : s.entityInfos p.key.entityId = some entity) (idle : entity.clientCmd = none)
    (live : s.entryInfos p.key = some info) (certain : info.uncertain = false) (about : asked.entry = p.key.entry)
    (notable : ∀ hand, Notable (s.site hand) (lostMark (s.site hand) p.key next.machine.localRecord :: marks))
    (before : ∀ hand, v.site hand =
      (stepped (s.site hand) p.key next marks).setEntity p.key.entityId (some { entity with clientCmd := some asked }))
    (done : v.clearEntryInfo p = some w) : Leads [] s w := by
  obtain ⟨info', entity', found, owner, outcome⟩ := clear_entry_spec v w p done
  have entries : v.entryInfos = _ := congrArg Site.entryInfos (before [])
  have entities : v.entityInfos = _ := congrArg Site.entityInfos (before [])
  have sameInfo : info' = next := by
    obtain ⟨here, _⟩ := deref_some v p info' found
    rw [entries] at here
    simpa [stepped, Site.setEntry, Site.setEntity, eq_comm] using here
  have sameEntity : entity' = { entity with clientCmd := some asked } := by
    obtain ⟨here, _⟩ := entity_of_some v p.key info' entity' owner
    rw [entities] at here
    simpa [stepped, Site.setEntry, Site.setEntity, eq_comm] using here
  subst sameInfo sameEntity
  intro arrives hand _
  rcases outcome with ⟨none | ⟨other, same, apart⟩, _⟩ | ⟨other, same, _, effect⟩
  · cases none
  · cases same
    exact absurd about apart
  · cases same
    rw [effect hand, before hand]
    refine .head (.note _ (notable hand)) (.head (.reject { asked with result := .entryCleanup } (by intro wrong; cases wrong))
      (.head (.destroy p.key entity info live known certain) (moves_of_eq arrives _ _ ?_)))
    have eta : { entity with clientCmd := none } = entity := by rw [← idle]
    have back : Function.update s.entityInfos p.key.entityId (some entity) = s.entityInfos := by rw [← known, Function.update_eq_self]
    simp [site, Site.setEntity, Site.setEntry, Site.note, stepped, finished, lostMark, destroyedMark, Site.plogRecord, eta, back]

-- A read takes its uuid even if it fails later.
theorem starts_leads (s : Node n) (key : EntryKey) (entity : EntityInfo n) (client started : ClientCmd) (base : Nat)
    (reading : List (Mark n)) (known : s.entityInfos key.entityId = some entity)
    (starts : Starts key entity client started base reading) :
    Leads [] s (s.setEntity key.entityId (some { entity with uuidBase := base })) ∧
      Numbered key { entity with uuidBase := base } reading ∧ started.entry = client.entry := by
  cases starts with
  | plain =>
      refine ⟨leads_same [] s _ fun hand => ?_, .inl rfl, rfl⟩
      exact set_entity_same (s.site hand) key.entityId entity known
  | read kind =>
      refine ⟨?_, .inr ⟨entity.uuidBase, Nat.lt_succ_self _, rfl⟩, rfl⟩
      apply leads_move
      intro arrives hand _
      exact .entity key.entityId entity _ known .number

-- The site of a command that has started: it is in the entity, with its marks.
def begun (s : Site n) (key : EntryKey) (entity : EntityInfo n) (started : ClientCmd) (base : Nat) (reading : List (Mark n)) : Site n :=
  { s.setEntity key.entityId (some { entity with clientCmd := some started, uuidBase := base }) with marks := reading ++ s.marks }

theorem store_for_write_leads (o : Options n) (s u t : Node n) (p : EntryPtr) (entity : EntityInfo n) (info : EntryInfo n)
    (client started : ClientCmd) (base : Nat) (reading : List (Mark n)) (next : EntryStateMachine n) (valueId : Nat)
    (marks : List (Mark n)) (ret : RetCode) (start : Startable s p entity info client)
    (starts : Starts p.key entity client started base reading) (writes : Writes p.key started info.machine next valueId marks)
    (before : ∀ hand, u.site hand = stepped
      (begun (s.site hand) p.key entity { started with valueId := valueId } base reading) p.key { info with machine := next } marks)
    (done : u.storeForWrite o p = some (ret, t)) : Leads [] s t := by
  obtain ⟨⟨stored, v⟩, first, rest⟩ := Option.bind_eq_some_iff.mp done
  obtain ⟨info', entity', found, owner, outcome⟩ := store_entry_spec o u v p stored first
  rcases outcome with ⟨rfl, unchanged⟩ | ⟨rfl, timestamp, effect⟩
  · simp only [Bool.false_eq_true, if_false] at rest
    obtain ⟨w, cleared, rest⟩ := Option.bind_eq_some_iff.mp rest
    obtain ⟨last, answered, rest⟩ := Option.bind_eq_some_iff.mp rest
    cases rest
    obtain ⟨numbered, fewer, sameEntry⟩ := starts_leads s p.key entity client started base reading start.known starts
    refine leads_trans [] s w t ?_ (finish_client_answers w t p.key.entityId .storeEntryFailed (by decide) answered).leads
    refine leads_trans [] s _ w numbered ?_
    refine cleared_write_leads _ v w p { entity with uuidBase := base } info { info with machine := next }
      { started with valueId := valueId } (marks ++ reading) (by simp [setEntity]) start.idle start.live start.certain
      (sameEntry.trans start.about) (fun hand => ?_) (fun hand => ?_) cleared
    · exact .wrote { entity with uuidBase := base } info started p.key next valueId marks reading (by simp [site, setEntity]) start.live
        start.certain writes fewer
    · rw [unchanged hand, before hand]
      simp [site, setEntity, stepped, begun, Site.setEntity, Site.setEntry]
  · simp only [if_true] at rest
    obtain ⟨stamped, there, rest⟩ := Option.bind_eq_some_iff.mp rest
    cases rest
    have entries : u.entryInfos = _ := congrArg Site.entryInfos (before [])
    have entities : u.entityInfos = _ := congrArg Site.entityInfos (before [])
    have queue : u.plogReqs = s.plogReqs := congrArg Site.plogReqs (before [])
    have sameInfo : info' = { info with machine := next } := by
      obtain ⟨live, _⟩ := deref_some u p info' found
      rw [entries] at live
      simpa [stepped, Site.setEntry, eq_comm] using live
    have sameId : entity'.localAcceptorId = entity.localAcceptorId := by
      obtain ⟨known, _⟩ := entity_of_some u p.key info' entity' owner
      rw [entities] at known
      simp only [stepped, begun, Site.setEntry, Site.setEntity, Function.update_self, Option.some.injEq] at known
      rw [← known]
    subst sameInfo
    have sameStamped : stamped = { info with machine := next, catchupTimestampMsec := timestamp, uncertain := true } := by
      have after : v.entryInfos = _ := congrArg Site.entryInfos (effect [])
      obtain ⟨live, _⟩ := deref_some v p stamped there
      rw [after] at live
      simpa [Site.setEntry, eq_comm] using live
    subst sameStamped
    intro arrives hand _
    have final : (v.setEntry p.key (some
        { info with machine := next, catchupTimestampMsec := timestamp, uncertain := true, broadcast := true })).site hand =
        (v.site hand).setEntry p.key (some
          { info with machine := next, catchupTimestampMsec := timestamp, uncertain := true, broadcast := true }) := rfl
    rw [final, effect hand, before hand, queue, sameId]
    refine .head (.write p.key entity info client started base reading next valueId marks start.known start.ready start.idle start.home
      start.about start.matched start.kind starts start.live start.certain writes) (.head (.entry p.key
        { info with machine := next, uncertain := true } _ (by simp [Site.setEntity, Site.setEntry]) (.book true info.compensateMsgs
          info.peerToSync info.totalSize info.expiredTimestampSec timestamp info.catchupTimes)) (moves_of_eq arrives _ _ ?_))
    simp [site, Site.setEntity, Site.setEntry, stepped, begun]

theorem accept_acceptable (m last : EntryStateMachine n) (value : Bytes) (valueId : Nat) (uuids : List Nat) (ret : RetCode)
    (prepared : Bool) (open_ : m.isLocalAcceptable = true) (done : m.accept value valueId uuids = some (ret, prepared, last)) :
    ret = .ok := by
  simp only [EntryStateMachine.accept, open_, not_true, if_false] at done
  split at done
  · cases done
  · split at done
    · cases done
    · split at done
      · cases done
        rfl
      · cases done

-- The answer to a command that is only in its way through the entity.
theorem unasked_leads (s u t : Node n) (entityId : Nat) (entity : EntityInfo n) (asked : ClientCmd) (result : RetCode)
    (known : s.entityInfos entityId = some entity) (idle : entity.clientCmd = none) (fair : result = .ok → asked.cmdId = .load)
    (before : ∀ hand, u.site hand = (s.site hand).setEntity entityId (some { entity with clientCmd := some asked }))
    (done : u.finishClientCmd entityId result = some t) : Leads [] s t ∧ t.entityInfos = s.entityInfos := by
  obtain ⟨other, here, outcome⟩ := finish_client_spec u t entityId result done
  have entities : u.entityInfos = _ := congrArg Site.entityInfos (before [])
  rw [entities] at here
  simp only [Site.setEntity, Function.update_self, Option.some.injEq] at here
  subst here
  have eta : { entity with clientCmd := none } = entity := by rw [← idle]
  have back : Function.update s.entityInfos entityId (some entity) = s.entityInfos := by rw [← known, Function.update_eq_self]
  rcases outcome with ⟨none, _⟩ | ⟨client, asking, effect⟩
  · cases none
  · cases asking
    have total : ∀ hand, t.site hand =
        { s.site hand with answered := fun cmd => cmd = { asked with result := result } ∨ (s.site hand).answered cmd } := by
      intro hand
      rw [effect hand, before hand]
      simp [site, finished, Site.setEntity, eta, back]
    exact ⟨leads_site [] s t _ total fun arrives hand _ => .reject { asked with result := result } fair,
      congrArg Site.entityInfos (total [])⟩

theorem handle_write_leads (o : Options n) (s u t : Node n) (p : EntryPtr) (entity : EntityInfo n) (info : EntryInfo n)
    (client started : ClientCmd) (base : Nat) (reading : List (Mark n)) (ret : RetCode) (start : Startable s p entity info client)
    (starts : Starts p.key entity client started base reading)
    (before : ∀ hand, u.site hand = begun (s.site hand) p.key entity started base reading)
    (done : u.handleWriteCmd o p = some (ret, t)) : Leads [] s t := by
  have entries : u.entryInfos = s.entryInfos := congrArg Site.entryInfos (before [])
  have entities : u.entityInfos = _ := congrArg Site.entityInfos (before [])
  have live : u.entryInfos p.key = some info := by
    rw [entries]
    exact start.live
  have known : u.entityInfos p.key.entityId = some { entity with clientCmd := some started, uuidBase := base } := by
    rw [entities]
    simp [begun, Site.setEntity]
  obtain ⟨info', found, rest⟩ := Option.bind_eq_some_iff.mp done
  obtain ⟨entity', owner, rest⟩ := Option.bind_eq_some_iff.mp rest
  obtain ⟨client', asked, rest⟩ := Option.bind_eq_some_iff.mp rest
  have sameInfo : info' = info := Option.some.inj ((deref_some u p info' found).1.symm.trans live)
  have sameEntity := Option.some.inj ((entity_of_some u p.key info' entity' owner).1.symm.trans known)
  subst sameInfo sameEntity
  have sameClient : client' = started := (Option.some.inj asked).symm
  subst sameClient
  obtain ⟨⟨code, machine⟩, promised, rest⟩ := Option.bind_eq_some_iff.mp rest
  obtain ⟨v, set, after⟩ := Option.bind_eq_some_iff.mp rest
  obtain ⟨here, thereHere, rfl⟩ := set_machine_spec _ v p machine set
  have sameHere : here = info' := Option.some.inj ((deref_some _ p here thereHere).1.symm.trans live)
  subst sameHere
  dsimp only at after
  generalize (o.enablePreAuth && decide (entity.preAuthEntry ≠ kInvalidEntry) && decide (entity.preAuthEntry + 1 = client'.entry)) =
    preAuth at promised after thereHere
  have marked : ∀ hand, ((u.mark (.promised p.key here.machine preAuth)).setEntry p.key (some { here with machine := machine })).site hand =
      stepped (begun (s.site hand) p.key entity client' base reading) p.key { here with machine := machine }
        [.promised p.key here.machine preAuth] := by
    intro hand
    rw [← before hand]
    rfl
  split at after
  · rename_i failed
    obtain ⟨w, answered, same⟩ := Option.bind_eq_some_iff.mp after
    cases same
    obtain ⟨numbered, fewer, _⟩ := starts_leads s p.key entity client client' base reading start.known starts
    refine leads_trans [] s _ t numbered ?_
    have strayed : Leads [] (s.setEntity p.key.entityId (some { entity with uuidBase := base }))
        { (s.setEntity p.key.entityId (some { entity with uuidBase := base })).setEntry p.key (some { here with machine := machine }) with
          marks := .promised p.key here.machine preAuth :: (reading ++ s.marks) } := by
      apply leads_move
      intro arrives hand _
      exact .stray p.key { entity with uuidBase := base } here preAuth code machine reading (by simp [site, setEntity]) start.ready
        start.matched start.live start.certain promised failed fewer
    refine leads_trans [] _ _ t strayed (unasked_leads _ _ t p.key.entityId { entity with uuidBase := base } client' .statePromiseErr
      (by simp [setEntry, setEntity]) start.idle (by intro wrong; cases wrong) (fun hand => ?_) answered).1
    rw [marked hand]
    simp [site, stepped, begun, setEntity, setEntry, Site.setEntity, Site.setEntry]
  · rename_i success
    have success : code = .ok := by simpa using success
    subst success
    obtain ⟨w, valued, written⟩ := Option.bind_eq_some_iff.mp after
    obtain ⟨entity'', client'', knownAgain, asking, rfl⟩ := set_value_id_spec _ w p.key.entityId _ valued
    have sameEntity := Option.some.inj (knownAgain.symm.trans known)
    subst sameEntity
    cases asking
    split at written
    · rename_i closed
      refine store_for_write_leads o s _ t p entity here client client' base reading machine _ _ ret start starts
        (.promise preAuth machine promised (by simpa using closed)) (fun hand => ?_) written
      have outer : ∀ (x : Node n) (info : Option (EntityInfo n)), (x.setEntity p.key.entityId info).site hand =
        (x.site hand).setEntity p.key.entityId info := fun _ _ => rfl
      rw [outer, marked hand]
      simp [stepped, begun, Site.setEntity, Site.setEntry]
    · rename_i acceptable
      obtain ⟨⟨code, prepared, last⟩, accepted, taken⟩ := Option.bind_eq_some_iff.mp written
      have success := accept_acceptable machine last _ _ _ code prepared (by simpa using acceptable) accepted
      subst success
      obtain ⟨x, setLast, stored⟩ := Option.bind_eq_some_iff.mp taken
      obtain ⟨again, thereAgain, rfl⟩ := set_machine_spec _ x p last setLast
      obtain ⟨liveAgain, _⟩ := deref_some _ p again thereAgain
      simp only [setEntity, setEntry, Function.update_self, Option.some.injEq] at liveAgain
      subst liveAgain
      dsimp only at stored
      rw [if_neg (by simp)] at stored
      split at stored
      · cases stored
      · rename_i fresh
        have fresh : prepared = true := by simpa using fresh
        subst fresh
        refine store_for_write_leads o s _ t p entity here client client' base reading last _ _ ret start starts
          (.propose preAuth machine last promised accepted) (fun hand => ?_) stored
        have outer : ∀ (x : Node n) (m : Mark n) (one : Option (EntityInfo n)) (two : Option (EntryInfo n)),
            (((x.setEntity p.key.entityId one).setEntry p.key two).mark m).site hand =
              (((x.site hand).setEntity p.key.entityId one).setEntry p.key two).note m := fun _ _ _ _ => rfl
        rw [outer, marked hand]
        simp [stepped, begun, Site.setEntity, Site.setEntry, Site.note]

theorem broadcast_sends (s t : Node n) (p : EntryPtr) (checkEmpty : Bool)
    (certain : checkEmpty = false → ∀ info, s.entryInfos p.key = some info → info.uncertain = false)
    (done : s.broadcast p checkEmpty = some t) : Sends s t := by
  obtain ⟨info, found, rest⟩ := Option.bind_eq_some_iff.mp done
  obtain ⟨entity, owner, rest⟩ := Option.bind_eq_some_iff.mp rest
  exact sync_to_peers_sends s t p checkEmpty _ certain rest

-- A read has its uuid; now it is a write or asks the peers.
theorem handle_read_leads (o : Options n) (s u t : Node n) (p : EntryPtr) (entity : EntityInfo n) (info : EntryInfo n)
    (client : ClientCmd) (ret : RetCode) (start : Startable s p entity info client) (kind : client.cmdId = .read)
    (before : ∀ hand, u.site hand = begun (s.site hand) p.key entity { client with uuid := entity.uuidBase } (entity.uuidBase + 1)
      [.reading p.key entity.uuidBase])
    (done : u.handleReadCmd o p = some (ret, t)) : Leads [] s t := by
  have entries : u.entryInfos = s.entryInfos := congrArg Site.entryInfos (before [])
  have live : u.entryInfos p.key = some info := by
    rw [entries]
    exact start.live
  obtain ⟨info', found, rest⟩ := Option.bind_eq_some_iff.mp done
  have sameInfo : info' = info := Option.some.inj ((deref_some _ p info' found).1.symm.trans live)
  subst sameInfo
  split at rest
  · exact handle_write_leads o s u t p entity info' client { client with uuid := entity.uuidBase } (entity.uuidBase + 1)
      [.reading p.key entity.uuidBase] ret start (.read kind) before rest
  · obtain ⟨machine, reset, rest⟩ := Option.bind_eq_some_iff.mp rest
    obtain ⟨v, set, rest⟩ := Option.bind_eq_some_iff.mp rest
    obtain ⟨w, asked, rest⟩ := Option.bind_eq_some_iff.mp rest
    cases rest
    obtain ⟨here, thereHere, rfl⟩ := set_machine_spec _ v p machine set
    have sameHere : here = info' := Option.some.inj ((deref_some _ p here thereHere).1.symm.trans live)
    subst sameHere
    refine leads_trans [] s _ t ?_ (broadcast_sends _ t p true (by intro wrong; cases wrong) asked).leads
    intro arrives hand _
    have outer : (u.setEntry p.key (some { here with machine := machine })).site hand =
      (u.site hand).setEntry p.key (some { here with machine := machine }) := rfl
    rw [outer, before hand]
    exact .single (.openRead p.key entity here client machine start.known start.ready start.idle start.home kind start.about start.matched
      start.live start.certain reset)

-- The node in which a command has passed CreateEntryInfoIfMiss, with and
-- without the command.
theorem opened_leads (s v u : Node n) (entityId : Nat) (key : EntryKey) (found : Option EntryPtr) (entity : EntityInfo n) (cmd : ClientCmd)
    (known : s.entityInfos entityId = some entity) (idle : entity.clientCmd = none)
    (before : ∀ hand, v.site hand = (s.site hand).setEntity entityId (some { entity with clientCmd := some cmd }))
    (opens : Opens v u key found) :
    Leads [] s { u with entityInfos := s.entityInfos } ∧ ∀ hand, u.site hand =
      (Node.site { u with entityInfos := s.entityInfos } hand).setEntity entityId (some { entity with clientCmd := some cmd }) := by
  have entities : v.entityInfos = Function.update s.entityInfos entityId (some { entity with clientCmd := some cmd }) :=
    congrArg Site.entityInfos (before [])
  constructor
  · intro arrives hand _
    have moves := opens.shapes arrives hand s.entityInfos (by
      intro other found here
      rw [entities] at here
      by_cases same : other = entityId
      · subst same
        simp only [Function.update_self, Option.some.injEq] at here
        subst here
        exact ⟨none, by rw [known, ← idle], .inl rfl⟩
      · exact ⟨found.clientCmd, by simpa [same] using here, .inr rfl⟩)
    rw [before hand] at moves
    exact moves
  · intro hand
    have same : u.entityInfos = _ := opens.entities.trans entities
    simp [site, Site.setEntity, same]

theorem start_client_leads (o : Options n) (s v t : Node n) (cmd : ClientCmd) (entity : EntityInfo n) (ret : RetCode)
    (known : s.entityInfos cmd.entityId = some entity) (settled : Settled entity) (idle : entity.clientCmd = none)
    (plain : cmd.cmdId = .load ∨ cmd.cmdId = .write ∨ cmd.cmdId = .read)
    (before : ∀ hand, v.site hand = (s.site hand).setEntity cmd.entityId (some { entity with clientCmd := some cmd }))
    (done : v.startClientCmd o cmd = some (ret, t)) : Leads [] s t := by
  have entities : v.entityInfos = _ := congrArg Site.entityInfos (before [])
  have asked : v.entityInfos cmd.entityId = some { entity with clientCmd := some cmd } := by
    rw [entities]
    simp [Site.setEntity]
  obtain ⟨entity', known', rest⟩ := Option.bind_eq_some_iff.mp done
  have same := Option.some.inj (known'.symm.trans asked)
  subst same
  dsimp only at rest
  split at rest
  · rename_i kind
    obtain ⟨u, answered, rest⟩ := Option.bind_eq_some_iff.mp rest
    cases rest
    exact (unasked_leads s v t cmd.entityId entity cmd .ok known idle (fun _ => kind) before answered).1
  · rename_i notLoad
    split at rest
    · obtain ⟨u, answered, rest⟩ := Option.bind_eq_some_iff.mp rest
      obtain ⟨w, caught, rest⟩ := Option.bind_eq_some_iff.mp rest
      cases rest
      have first := (unasked_leads s v u cmd.entityId entity cmd .entryNotMatch known idle (by intro wrong; cases wrong) before answered).1
      have loaded : Loaded cmd.entityId (u.site []) := leads_loaded [] cmd.entityId s u first ⟨entity, known, settled⟩
      exact leads_trans [] s u t first (try_catchup_loaded o u t cmd.entityId caught loaded)
    · rename_i matched
      have matched : cmd.entry = entity.maxChosenEntry + 1 := by simpa using matched
      obtain ⟨⟨code, found, u⟩, created, rest⟩ := Option.bind_eq_some_iff.mp rest
      have opens := create_if_miss_opens o v u cmd.entityId cmd.entry code found created (by
        intro _ other knownOther
        have same := Option.some.inj (knownOther.symm.trans asked)
        subst same
        have below := settled.below
        exact .inl ⟨settled.ready, by dsimp only; omega⟩)
      obtain ⟨first, after⟩ := opened_leads s v u cmd.entityId ⟨cmd.entityId, cmd.entry⟩ found entity cmd known idle before opens
      refine leads_trans [] s _ t first ?_
      dsimp only at rest
      split at rest
      · rename_i failed
        obtain ⟨w, answered, rest⟩ := Option.bind_eq_some_iff.mp rest
        cases rest
        exact (unasked_leads { u with entityInfos := s.entityInfos } u t cmd.entityId entity cmd ret known idle (fun success => absurd success failed) after answered).1
      · obtain ⟨p, isFound, rest⟩ := Option.bind_eq_some_iff.mp rest
        obtain ⟨info, there, rest⟩ := Option.bind_eq_some_iff.mp rest
        obtain ⟨live, _⟩ := deref_some u p info there
        have about := opens.keyed p isFound
        have sameId : p.key.entityId = cmd.entityId := by rw [about]
        split at rest
        · obtain ⟨w, answered, rest⟩ := Option.bind_eq_some_iff.mp rest
          cases rest
          exact (unasked_leads { u with entityInfos := s.entityInfos } u t cmd.entityId entity cmd .entryUncertain known idle
            (by intro wrong; cases wrong) after answered).1
        · rename_i clean
          have start : Startable { u with entityInfos := s.entityInfos } p entity info cmd :=
            ⟨by rw [about]; exact known, settled.ready, idle, by rw [about], by rw [about], plain.resolve_left notLoad,
              by rw [about]; exact matched, live, by simpa using clean⟩
          split at rest
          · refine handle_write_leads o _ u t p entity info cmd cmd entity.uuidBase [] ret start .plain (fun hand => ?_) rest
            rw [after hand, begun, sameId]
            rfl
          · rename_i notWrite
            split at rest
            · rename_i kind
              obtain ⟨again, knownAgain, rest⟩ := Option.bind_eq_some_iff.mp rest
              obtain ⟨client, asking, rest⟩ := Option.bind_eq_some_iff.mp rest
              have same := Option.some.inj (knownAgain.symm.trans (by rw [opens.entities]; exact asked))
              subst same
              cases asking
              refine handle_read_leads o _ _ t p entity info cmd ret start kind (fun hand => ?_) rest
              have outer : ∀ (x : Node n) (m : Mark n) (one : Option (EntityInfo n)), ((x.setEntity cmd.entityId one).mark m).site hand =
                ((x.site hand).setEntity cmd.entityId one).note m := fun _ _ _ => rfl
              rw [outer, after hand, begun, sameId]
              simp [Site.setEntity, Site.note]
            · rename_i notRead
              rcases plain with kind | kind | kind
              · exact absurd kind notLoad
              · exact absurd kind notWrite
              · exact absurd kind notRead

-- What the handlers rely on about an entity.
structure Fit (entity : EntityInfo n) : Prop where
  below : entity.maxContChosenEntry ≤ entity.maxChosenEntry
  level : entity.loading = true → entity.maxContChosenEntry = entity.maxChosenEntry

theorem fit_settled (entity : EntityInfo n) (fit : Fit entity) (ready : entity.loading = false) : Settled entity :=
  ⟨ready, fit.below⟩

theorem entity_if_miss_fit (o : Options n) (s t : Node n) (entityId : Nat) (ret : RetCode)
    (done : s.createEntityInfoIfMiss o entityId = some (ret, t))
    (fit : ∀ entity, s.entityInfos entityId = some entity → Fit entity) (entity : EntityInfo n)
    (known : t.entityInfos entityId = some entity) : Fit entity := by
  obtain ⟨_, same, fresh⟩ := entity_if_miss_leads o s t entityId ret done
  cases old : s.entityInfos entityId with
  | none =>
      obtain ⟨_, level⟩ := fresh entity old known
      exact ⟨Nat.le_of_eq level, fun _ => level⟩
  | some other =>
      rw [same other old] at known
      exact fit entity known

theorem dump_leads (o : Options n) (s t : Node n) (cmd : ClientCmd) (done : s.dumpEntry o cmd = some t) : Leads [] s t := by
  obtain ⟨⟨code, u⟩, made, rest⟩ := Option.bind_eq_some_iff.mp done
  have first := (entity_if_miss_leads o s u cmd.entityId code made).1
  dsimp only at rest
  split at rest
  · cases rest
    exact first
  · obtain ⟨entity, known, rest⟩ := Option.bind_eq_some_iff.mp rest
    obtain ⟨⟨result, found, v⟩, created, rest⟩ := Option.bind_eq_some_iff.mp rest
    have same : v = t := Option.some.inj rest
    subst same
    have marked : Leads [] u (u.mark (.dumped cmd.key entity.loading entity.maxPlogEntry entity.maxContChosenEntry
        (u.entryInfos cmd.key).isSome)) := by
      apply leads_move
      intro arrives hand _
      exact .note _ (.dumped cmd.key entity known)
    have opened := (create_if_miss_leads o _ v cmd.entityId cmd.entry result found created (by
      intro absent other knownOther
      have same : other = entity := Option.some.inj (knownOther.symm.trans known)
      subst same
      have missing : u.entryInfos cmd.key = none := absent
      refine .inr (List.mem_cons.mpr (.inl ?_))
      rw [missing]
      rfl)).1
    exact leads_trans [] s u v first (leads_trans [] u _ v marked opened)

theorem timer_add_site (s t : Node n) (entityId timeoutMsec : Nat) (done : s.timerAdd entityId timeoutMsec = some t)
    (hand : List PaxosCmd) : t.site hand = s.site hand := by
  simp only [timerAdd] at done
  split at done
  · cases done
  · split at done
    · cases done
      rfl
    · cases done
      rfl

-- What HandleClientCmd may do: things beside the command, its refusal, or its
-- start in an entity without one.
inductive ClientOutcome (s : Node n) (cmd : ClientCmd) (t : Node n) : Prop where
  | aside (leads : Leads [] s t)
  | refused (u : Node n) (code : RetCode) (leads : Leads [] s u) (failed : code ≠ .ok) (result : t = u.finishCmd cmd code)
  | parked (u : Node n) (entity : EntityInfo n) (leads : Leads [] s u) (known : u.entityInfos cmd.entityId = some entity)
      (idle : entity.clientCmd = none) (loading : entity.loading = true)
      (effect : ∀ hand, t.site hand = (u.site hand).setEntity cmd.entityId (some { entity with clientCmd := some cmd }))

theorem handle_client_outcome (o : Options n) (s t : Node n) (cmd : ClientCmd) (ret : RetCode) (notReplay : cmd.cmdId ≠ .replay)
    (fit : ∀ entity, s.entityInfos cmd.entityId = some entity → Fit entity) (done : s.handleClientCmd o cmd = some (ret, t)) :
    ClientOutcome s cmd t := by
  obtain ⟨⟨code, u⟩, made, rest⟩ := Option.bind_eq_some_iff.mp done
  have first := (entity_if_miss_leads o s u cmd.entityId code made).1
  dsimp only at rest
  split at rest
  · rename_i failed
    cases rest
    exact .refused u ret first failed rfl
  · obtain ⟨entity, known, rest⟩ := Option.bind_eq_some_iff.mp rest
    have sane := entity_if_miss_fit o s u cmd.entityId code made fit entity known
    split at rest
    · split at rest
      · cases rest
        exact .aside first
      · rename_i ready
        obtain ⟨v, caught, rest⟩ := Option.bind_eq_some_iff.mp rest
        cases rest
        refine .aside (leads_trans [] s u t first (try_catchup_loaded o u t cmd.entityId caught ⟨entity, known, ?_⟩))
        exact fit_settled entity sane (by simpa using ready)
    · rename_i notCatchup
      split at rest
      · exact .aside (leads_trans [] s u t first (trigger_recover_leads u t cmd.entityId ret rest))
      · rename_i notRecover
        split at rest
        · obtain ⟨v, dumped, rest⟩ := Option.bind_eq_some_iff.mp rest
          cases rest
          exact .aside (leads_trans [] s u t first (dump_leads o u t cmd dumped))
        · rename_i notDump
          split at rest
          · cases rest
            exact .refused u .clientCmdConflict first (by decide) rfl
          · rename_i free
            have idle : entity.clientCmd = none := by simpa using free
            generalize (if cmd.timeoutMsec = 0 then o.clientCmdTimeoutMsec else cmd.timeoutMsec) = timeout at rest
            split at rest
            · cases rest
              exact .refused u .timeout first (by decide) rfl
            · obtain ⟨v, timed, rest⟩ := Option.bind_eq_some_iff.mp rest
              have effect := timer_add_site _ v cmd.entityId _ timed
              split at rest
              · rename_i loading
                cases rest
                exact .parked u entity first known idle loading effect
              · rename_i ready
                have settled := fit_settled entity sane (by simpa using ready)
                refine .aside (leads_trans [] s u t first (start_client_leads o u v t cmd entity ret known settled idle ?_ effect rest))
                cases kind : cmd.cmdId with
                | replay => exact absurd kind notReplay
                | read => exact .inr (.inr rfl)
                | write => exact .inr (.inl rfl)
                | recover => exact absurd kind notRecover
                | catchup => exact absurd kind notCatchup
                | load => exact .inl rfl
                | dumpEntry => exact absurd kind notDump

theorem handle_client_leads (o : Options n) (s t : Node n) (cmd : ClientCmd) (ret : RetCode) (notReplay : cmd.cmdId ≠ .replay)
    (fit : ∀ entity, s.entityInfos cmd.entityId = some entity → Fit entity) (done : s.handleClientCmd o cmd = some (ret, t)) :
    Leads [] s t := by
  cases handle_client_outcome o s t cmd ret notReplay fit done with
  | aside leads => exact leads
  | refused u code leads failed result =>
      subst result
      exact leads_trans [] s u _ leads (reject_leads u cmd code failed)
  | parked u entity leads known idle loading effect =>
      refine leads_trans [] s u t leads (leads_site [] u t _ effect fun arrives hand _ => ?_)
      exact .entity cmd.entityId entity _ known (.ask cmd rfl notReplay idle loading)

end PaxosStore.Certain.Node
