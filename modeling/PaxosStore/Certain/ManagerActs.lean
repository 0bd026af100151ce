import PaxosStore.Certain.Desk

set_option autoImplicit false

namespace PaxosStore.Certain.Node

open Desk

variable {n : Nat}

theorem remove_old_chosen_works (o : Options n) (count left : Nat) (s t : Node n)
    (done : removeOldChosen o count s = some (left, t)) : Works s t := by
  induction count generalizing s with
  | zero =>
      cases done
      exact works_refl _
  | succ count ih =>
      rw [removeOldChosen] at done
      split at done
      · cases done
        exact works_refl _
      · rename_i key rest first
        split at done
        · split at done
          · rename_i absent
            exact works_trans s _ t (works_act s { s with oldChosenList := rest } (.pass key rest first absent)) (ih _ done)
          · rename_i info live
            split at done
            · cases done
            · rename_i certain
              obtain ⟨u, gone, later⟩ := Option.bind_eq_some_iff.mp done
              obtain ⟨same, found, effect⟩ := destroy_desk _ u _ gone
              obtain ⟨liveSame, -⟩ := deref_some _ _ same found
              have equal : info = same := Option.some.inj (live.symm.trans liveSame)
              subst equal
              refine works_trans s u t (works_act s u ?_) (ih u later)
              rw [effect]
              exact .evict key rest info first live (by simpa using certain)
        · cases done
          exact works_refl _

theorem remove_oldest_works (o : Options n) (count : Nat) (s t : Node n) (clear : s.oldChosenList = [])
    (done : removeOldest o count s = some t) : Works s t := by
  induction count generalizing s with
  | zero =>
      cases done
      exact works_refl _
  | succ count ih =>
      rw [removeOldest] at done
      split at done
      · split at done
        · cases done
        · rename_i key last
          split at done
          · cases done
          · rename_i info live
            split at done
            · refine works_trans s _ t (works_act s (s.refreshEntryInfo key) (.refresh key ?_)) (ih _ clear done)
              exact List.mem_of_getLast? last
            · rename_i certain
              obtain ⟨u, gone, later⟩ := Option.bind_eq_some_iff.mp done
              obtain ⟨same, found, effect⟩ := destroy_desk _ u _ gone
              obtain ⟨liveSame, -⟩ := deref_some _ _ same found
              have equal : info = same := Option.some.inj (live.symm.trans liveSame)
              subst equal
              have still : u.oldChosenList = [] := (congrArg Desk.oldChosenList effect).trans clear
              refine works_trans s u t (works_act s u ?_) (ih u still later)
              rw [effect]
              exact .oldest key info clear live (by simpa using certain)
      · cases done
        exact works_refl _

theorem make_enough_room_works (o : Options n) (s t : Node n) (room : Bool) (done : s.makeEnoughRoom o = some (room, t)) :
    Works s t := by
  rw [makeEnoughRoom] at done
  split at done
  · cases done
  · split at done
    · cases done
      exact works_refl _
    · obtain ⟨⟨left, u⟩, first, rest⟩ := Option.bind_eq_some_iff.mp done
      have old := remove_old_chosen_works o kMaxCleanupNum left s u first
      dsimp only at rest
      split at rest
      · cases rest
        exact old
      · rename_i clear
        obtain ⟨v, second, rest⟩ := Option.bind_eq_some_iff.mp rest
        cases rest
        exact works_trans s u _ old (remove_oldest_works o left u _ (by simpa using clear) second)

-- The source pops the list as it goes; the model writes it back at the end.
theorem cleanup_acts (nowSec : Nat) (keys : List EntryKey) (count : Nat) (s t : Node n)
    (done : cleanupExpired nowSec keys count s = some t) : Acts { s.desk with oldChosenList := keys } t.desk := by
  induction keys generalizing s count with
  | nil =>
      cases done
      exact .refl
  | cons key rest ih =>
      rw [cleanupExpired] at done
      split at done
      · cases done
        exact .refl
      · split at done
        · rename_i absent
          exact .head (.pass key rest rfl absent) (ih count s done)
        · rename_i info live
          split at done
          · cases done
          · rename_i certain
            split at done
            · cases done
              exact .refl
            · obtain ⟨u, gone, later⟩ := Option.bind_eq_some_iff.mp done
              obtain ⟨same, found, effect⟩ := destroy_desk _ u _ gone
              obtain ⟨liveSame, -⟩ := deref_some _ _ same found
              have equal : info = same := Option.some.inj (live.symm.trans liveSame)
              subst equal
              refine .head (.evict key rest info rfl live (by simpa using certain)) ?_
              have after := ih (count + 1) u later
              rw [effect] at after
              exact after

theorem create_entry_desk (o : Options n) (s t : Node n) (entityId entry : Nat) (p : EntryPtr)
    (done : s.createEntryInfo o entityId entry = some (p, t)) :
    ∃ entity info, s.entityInfos entityId = some entity ∧ p = ⟨⟨entityId, entry⟩, info.number⟩ ∧
      t.desk = s.desk.insert ⟨entityId, entry⟩ info ∧ info.number = s.createCnt ∧ info.entityNumber = entity.number ∧
      (info.waitingMsgs = fun _ => none) ∧ info.machine.entryState ≠ .chosen ∧ info.uncertain = false := by
  obtain ⟨entity, known, rest⟩ := Option.bind_eq_some_iff.mp done
  obtain ⟨u, sized, rest⟩ := Option.bind_eq_some_iff.mp rest
  cases rest
  obtain ⟨info, found, sized⟩ := Option.bind_eq_some_iff.mp sized
  obtain ⟨live, -⟩ := deref_some _ _ _ found
  have same : s.newEntryInfo entity = info := by
    simpa [takeRoom, mark, setEntry, newEntryInfo] using live
  subst same
  cases sized
  refine ⟨entity, { s.newEntryInfo entity with
    totalSize := u32 (o.machineSize (s.newEntryInfo entity).machine + waitingSize o (s.newEntryInfo entity)) }, known, rfl, ?_, rfl, rfl, rfl, ?_, rfl⟩
  · simp [desk, takeRoom, mark, setEntry, Desk.insert, Desk.setEntry, newEntryInfo]
  · simp [newEntryInfo, EntryStateMachine.create]

theorem load_entry_desk (s t : Node n) (p : EntryPtr) (loaded : Bool) (done : s.loadEntryInfo p = some (loaded, t)) :
    ∃ info, s.deref p = some info ∧
      (loaded = false ∧ t.desk = s.desk ∨ loaded = true ∧ t.desk = s.desk.setEntry p.key (some { info with uncertain := true })) := by
  obtain ⟨info, found, rest⟩ := Option.bind_eq_some_iff.mp done
  refine ⟨info, found, ?_⟩
  have same := go_to_plog_desk s { entityId := p.key.entityId, entry := p.key.entry, plogGetRecord := true }
  dsimp only at rest
  split at rest
  · cases rest
    exact .inl ⟨rfl, same⟩
  · split at rest
    · cases rest
    · cases rest
      refine .inr ⟨rfl, ?_⟩
      rw [← same]
      rfl

-- What CreateEntryInfoIfMiss leaves behind.
structure Found (s t : Node n) (key : EntryKey) (ret : RetCode) (found : Option EntryPtr) : Prop where
  works : Works s t
  entities : t.entityInfos = s.entityInfos
  inTime : ret ≠ .timeout
  live : ∀ p, found = some p → p.key = key ∧ (t.deref p).isSome

theorem create_desk_works (o : Options n) (s t : Node n) (entityId entry : Nat) (ret : RetCode) (found : Option EntryPtr)
    (absent : s.entryInfos ⟨entityId, entry⟩ = none)
    (done : (do
      let (p, s) ← s.createEntryInfo o entityId entry
      let entity ← s.entityInfos entityId
      if entity.maxPlogEntry < entry then some (.ok, some p, s)
      else
        let (loaded, s) ← s.loadEntryInfo p
        if loaded then some (.ok, some p, s)
        else
          let s ← s.destroyEntryInfo p
          some (.loadEntryFailed, none, s)) = some (ret, found, t)) : Found s t ⟨entityId, entry⟩ ret found := by
  obtain ⟨⟨p, u⟩, created, rest⟩ := Option.bind_eq_some_iff.mp done
  obtain ⟨entity, info, known, rfl, effect, number, owner, waiting, open_, certain⟩ := create_entry_desk o s u entityId entry p created
  have entities : u.entityInfos = s.entityInfos := congrArg Desk.entityInfos effect
  have entries : u.entryInfos = Function.update s.entryInfos ⟨entityId, entry⟩ (some info) := congrArg Desk.entryInfos effect
  obtain ⟨again, knownAgain, rest⟩ := Option.bind_eq_some_iff.mp rest
  rw [entities, known] at knownAgain
  cases knownAgain
  have blank : Blank s.desk entity ⟨entityId, entry⟩ info := ⟨absent, known, number, owner, waiting, open_, fun loading => by
    rw [certain] at loading
    cases loading⟩
  have inserted : Works s u := works_act s u (by rw [effect]; exact .insert _ entity info blank)
  have there : u.deref ⟨⟨entityId, entry⟩, info.number⟩ = some info := by
    rw [deref, entries, Function.update_self]
    simp
  split at rest
  · cases rest
    exact ⟨inserted, entities, by simp, fun _ same => by cases same; exact ⟨rfl, by rw [there]; rfl⟩⟩
  · rename_i stored
    obtain ⟨⟨loaded, v⟩, asked, rest⟩ := Option.bind_eq_some_iff.mp rest
    obtain ⟨same, foundSame, outcome⟩ := load_entry_desk u v _ loaded asked
    rw [there] at foundSame
    cases foundSame
    rcases outcome with ⟨rfl, unchanged⟩ | ⟨rfl, queued⟩
    · simp only [Bool.false_eq_true, if_false] at rest
      obtain ⟨w, destroyed, rest⟩ := Option.bind_eq_some_iff.mp rest
      cases rest
      obtain ⟨last, foundLast, gone⟩ := destroy_desk v t _ destroyed
      obtain ⟨liveLast, -⟩ := deref_some v _ last foundLast
      have entriesLast : v.entryInfos = u.entryInfos := congrArg Desk.entryInfos unchanged
      rw [entriesLast, entries, Function.update_self] at liveLast
      cases liveLast
      refine ⟨works_trans s u t inserted (works_trans u v t (works_same u v unchanged) (works_act v t ?_)), ?_, by simp, fun _ same => by cases same⟩
      · rw [gone]
        exact .drop _ info (by rw [desk, entriesLast, entries]; exact Function.update_self _ _ _) (.inr (.inl open_))
      · exact (congrArg Desk.entityInfos gone).trans ((congrArg Desk.entityInfos unchanged).trans entities)
    · simp only [if_true, Option.some.injEq, Prod.mk.injEq] at rest
      obtain ⟨rfl, rfl, rfl⟩ := rest
      have total : v.desk = s.desk.insert ⟨entityId, entry⟩ { info with uncertain := true } := by
        rw [queued, effect]
        simp [Desk.insert, Desk.setEntry]
      have entriesLast : v.entryInfos = Function.update s.entryInfos ⟨entityId, entry⟩ (some { info with uncertain := true }) :=
        congrArg Desk.entryInfos total
      refine ⟨works_act s v ?_, congrArg Desk.entityInfos total, by simp, fun _ same => by
        cases same
        refine ⟨rfl, ?_⟩
        rw [deref, entriesLast, Function.update_self]
        simp⟩
      rw [total]
      exact .insert _ entity _ ⟨absent, known, number, owner, waiting, open_, fun _ => Nat.le_of_not_lt stored⟩

theorem found_after (s u t : Node n) (key : EntryKey) (ret : RetCode) (found : Option EntryPtr) (works : Works s u)
    (entities : u.entityInfos = s.entityInfos) (later : Found u t key ret found) : Found s t key ret found :=
  ⟨works_trans s u t works later.works, later.entities.trans entities, later.inTime, later.live⟩

theorem create_if_miss_found (o : Options n) (s t : Node n) (entityId entry : Nat) (ret : RetCode) (found : Option EntryPtr)
    (done : s.createEntryInfoIfMiss o entityId entry = some (ret, found, t)) : Found s t ⟨entityId, entry⟩ ret found := by
  rw [createEntryInfoIfMiss] at done
  split at done
  · rename_i p there
    cases done
    obtain ⟨info, live, rfl⟩ := Option.map_eq_some_iff.mp there
    refine ⟨works_refl s, rfl, by simp, fun _ same => by
      cases same
      refine ⟨rfl, ?_⟩
      rw [deref, live]
      simp⟩
  · rename_i missing
    have absent : s.entryInfos ⟨entityId, entry⟩ = none := Option.map_eq_none_iff.mp missing
    obtain ⟨⟨room, u⟩, made, rest⟩ := Option.bind_eq_some_iff.mp done
    have shed := make_enough_room_sheds o s u room made
    have works := make_enough_room_works o s u room made
    dsimp only at rest
    split at rest
    · cases rest
      exact ⟨works, shed.entities, by simp, fun _ same => by cases same⟩
    · refine found_after s u t _ ret found works shed.entities (create_desk_works o u t entityId entry ret found ?_ rest)
      cases still : u.entryInfos ⟨entityId, entry⟩ with
      | none => rfl
      | some info =>
          rw [shed.entries _ info still] at absent
          cases absent

theorem load_entity_desk (s t : Node n) (entityId : Nat) (loaded : Bool) (done : s.loadEntityInfo entityId = some (loaded, t)) :
    ∃ entity, s.entityInfos entityId = some entity ∧
      (loaded = false ∧ t.desk = s.desk ∨ loaded = true ∧ t.desk = s.desk.setEntity entityId (some { entity with loading := true })) := by
  obtain ⟨entity, known, rest⟩ := Option.bind_eq_some_iff.mp done
  refine ⟨entity, known, ?_⟩
  have same := go_to_plog_desk s { entityId := entityId, plogLoad := true }
  dsimp only at rest
  split at rest
  · cases rest
    exact .inl ⟨rfl, same⟩
  · split at rest
    · cases rest
    · cases rest
      refine .inr ⟨rfl, ?_⟩
      rw [← same]
      rfl

theorem load_entity_allowed (s t : Node n) (entityId : Nat) (done : s.loadEntityInfo entityId = some (true, t)) : s.ask.1 = false := by
  obtain ⟨entity, known, rest⟩ := Option.bind_eq_some_iff.mp done
  by_contra refused
  have refused : s.ask.1 = true := by simpa using refused
  simp only [goToPlogReqQueue, refused, if_true, Option.some.injEq, Prod.mk.injEq, Bool.false_eq_true, false_and] at rest

-- The entity is the one that was there, a new one that is loading, or could not be made.
structure Entered (s t : Node n) (entityId : Nat) (ret : RetCode) : Prop where
  works : Works s t
  inTime : ret ≠ .timeout
  known : ∀ entity, s.entityInfos entityId = some entity → t = s ∧ ret = .ok
  allowed : s.entityInfos entityId = none → ret = .ok → s.ask.1 = false ∧ s.ask.2.ask.1 = false
  entries : t.entryInfos = s.entryInfos
  fresh : s.entityInfos entityId = none → ∀ entity, t.entityInfos entityId = some entity → entity.loading = true ∧ entity.clientCmd = none

theorem entity_if_miss_entered (o : Options n) (s t : Node n) (entityId : Nat) (ret : RetCode)
    (done : s.createEntityInfoIfMiss o entityId = some (ret, t)) : Entered s t entityId ret := by
  rw [createEntityInfoIfMiss] at done
  split at done
  · rename_i there
    cases done
    exact ⟨works_refl s, by simp, fun _ _ => ⟨rfl, rfl⟩, (fun absent => by rw [absent] at there; cases there), rfl,
      (fun absent => by rw [absent] at there; cases there)⟩
  · rename_i absent
    have never : ∀ entity, s.entityInfos entityId = some entity → t = s ∧ ret = .ok := fun entity known => by
      rw [absent] at known
      cases known
    dsimp only at done
    split at done
    · cases done
      exact ⟨works_same s _ rfl, by simp, never, (fun _ fine => by cases fine), rfl, fun _ entity known => by
        have here : s.entityInfos entityId = some entity := known
        rw [absent] at here
        cases here⟩
    · rename_i routed
      obtain ⟨⟨loaded, u⟩, asked, rest⟩ := Option.bind_eq_some_iff.mp done
      obtain ⟨entity, known, outcome⟩ := load_entity_desk _ u entityId loaded asked
      have made : (s.ask.2.createEntityInfo o entityId).desk =
          { s.desk.setEntity entityId (some entity) with entityCnt := s.entityCnt + 1 } := by
        have here := known
        simp only [createEntityInfo, setEntity, Function.update_self, Option.some.injEq] at here
        simp only [createEntityInfo, setEntity, here, desk, Desk.setEntity]
        rfl
      have blank : entity.clientCmd = none ∧
          (entity.maxContChosenEntry = 0 ∧ entity.maxChosenEntry = 0 ∧ entity.maxPlogEntry = 0) ∧ entity.number = s.entityCnt := by
        simp only [createEntityInfo, setEntity, Function.update_self, Option.some.injEq] at known
        subst known
        exact ⟨rfl, ⟨rfl, rfl, rfl⟩, rfl⟩
      rcases outcome with ⟨rfl, unchanged⟩ | ⟨rfl, queued⟩
      · simp only [Bool.false_eq_true, if_false, Option.some.injEq, Prod.mk.injEq] at rest
        obtain ⟨rfl, rfl⟩ := rest
        have total : (u.setEntity entityId none).desk = { s.desk with entityCnt := s.entityCnt + 1 } := by
          have outer : (u.setEntity entityId none).desk = u.desk.setEntity entityId none := rfl
          have back : Function.update s.entityInfos entityId none = s.entityInfos := by
            rw [← absent, Function.update_eq_self]
          rw [outer, unchanged, made]
          simp only [Desk.setEntity, Function.update_idem, desk, back]
        refine ⟨works_act s _ ?_, by simp, never, (fun _ fine => by cases fine), congrArg Desk.entryInfos total,
          fun _ other here => by simp [setEntity] at here⟩
        rw [total]
        exact .skipped
      · simp only [if_true, Option.some.injEq, Prod.mk.injEq] at rest
        obtain ⟨rfl, rfl⟩ := rest
        have total : (u.mark (.opened entityId)).desk =
            { s.desk.setEntity entityId (some { entity with loading := true }) with entityCnt := s.entityCnt + 1 } := by
          have outer : (u.mark (.opened entityId)).desk = u.desk := rfl
          rw [outer, queued, made]
          simp [Desk.setEntity]
        refine ⟨works_act s _ ?_, by simp, never, fun _ _ => ⟨by simpa using routed, ?_⟩, congrArg Desk.entryInfos total, fun _ other here => ?_⟩
        · rw [total]
          exact .opened entityId _ absent rfl blank.1 blank.2.1 blank.2.2
        · exact load_entity_allowed (s.ask.2.createEntityInfo o entityId) u entityId asked
        · have entities : (u.mark (.opened entityId)).entityInfos = _ := congrArg Desk.entityInfos total
          rw [entities] at here
          simp only [Desk.setEntity, Function.update_self, Option.some.injEq] at here
          subst here
          exact ⟨rfl, blank.1⟩

end PaxosStore.Certain.Node
