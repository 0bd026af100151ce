import PaxosStore.Certain.EventActs

set_option autoImplicit false

namespace PaxosStore.Certain

variable {n : Nat}

-- What the three watermarks of an entity keep to. The last bound is not in the
-- source: a window that TryCatchup has opened stays as near as it was.
structure EntityInfo.Ordered (num : Nat) (entity : EntityInfo n) : Prop where
  cont : entity.maxContChosenEntry ≤ entity.maxChosenEntry
  caught : entity.maxCatchupEntry ≤ entity.maxChosenEntry
  near : entity.maxCatchupEntry ≤ entity.maxContChosenEntry + num

theorem raised_ordered (num : Nat) (entity : EntityInfo n) (entry : Nat) (mine : Bool) (ordered : entity.Ordered num) :
    (Site.raisedBy entity entry mine).Ordered num := by
  obtain ⟨cont, caught, near⟩ := ordered
  simp only [Site.raisedBy, Node.chosenWatermarks]
  split <;> split <;> split <;> constructor <;> simp_all <;> omega

theorem recovered_ordered (num : Nat) (entity : EntityInfo n) (entry timestamp : Nat) (ordered : entity.Ordered num) :
    (Site.recoveredBy entity entry timestamp).Ordered num := by
  obtain ⟨cont, caught, near⟩ := ordered
  constructor <;> simp only [Site.recoveredBy] <;> omega

theorem loaded_ordered (num : Nat) (entity : EntityInfo n) (maxPlogEntry maxCommittedEntry : Nat) (ordered : entity.Ordered num) :
    (Node.updateByLoadFromPlog entity maxPlogEntry maxCommittedEntry).Ordered num := by
  obtain ⟨cont, caught, near⟩ := ordered
  constructor <;> simp only [Node.updateByLoadFromPlog] <;> (repeat' split) <;> omega

theorem heard_ordered (num : Nat) (entity : EntityInfo n) (peer : Fin n) (reported : Nat) (ordered : entity.Ordered num)
    (more : entity.maxChosenEntry < reported) :
    { entity with activePeerAcceptorId := peer, maxChosenEntry := reported }.Ordered num :=
  ⟨Nat.le_trans ordered.cont (Nat.le_of_lt more), Nat.le_trans ordered.caught (Nat.le_of_lt more), ordered.near⟩

-- The window never passes the chosen entries, also where the sum of uint64 wraps.
theorem dest_ordered (o : Options n) (entity : EntityInfo n) (ordered : entity.Ordered o.maxCatchupNum) :
    { entity with maxCatchupEntry := Node.catchupDest o entity }.Ordered o.maxCatchupNum := by
  have wrapped : u64 (entity.maxContChosenEntry + o.maxCatchupNum) ≤ entity.maxContChosenEntry + o.maxCatchupNum := Nat.mod_le _ _
  obtain ⟨cont, caught, near⟩ := ordered
  constructor <;> simp only [Node.catchupDest] <;> (repeat' split) <;> omega

namespace Node

open Desk

def Ordered (o : Options n) (s : Node n) : Prop :=
  ∀ entityId entity, s.entityInfos entityId = some entity → entity.Ordered o.maxCatchupNum

theorem ordered_same (o : Options n) (s t : Node n) (same : t.entityInfos = s.entityInfos) (ordered : Ordered o s) : Ordered o t := by
  intro entityId entity known
  rw [same] at known
  exact ordered entityId entity known

theorem ordered_set (o : Options n) (s t : Node n) (entityId : Nat) (new : Option (EntityInfo n))
    (effect : t.entityInfos = Function.update s.entityInfos entityId new)
    (fine : ∀ entity, new = some entity → entity.Ordered o.maxCatchupNum) (ordered : Ordered o s) : Ordered o t := by
  intro other entity known
  rw [effect] at known
  by_cases same : other = entityId
  · subst same
    rw [Function.update_self] at known
    exact fine entity known
  · rw [Function.update_of_ne same] at known
    exact ordered other entity known

-- An entity changes in what the watermarks do not depend on.
theorem ordered_kept (o : Options n) (s t : Node n) (entityId : Nat) (old new : EntityInfo n) (known : s.entityInfos entityId = some old)
    (effect : t.entityInfos = Function.update s.entityInfos entityId (some new)) (cont : new.maxContChosenEntry = old.maxContChosenEntry)
    (chosen : new.maxChosenEntry = old.maxChosenEntry) (caught : new.maxCatchupEntry = old.maxCatchupEntry) (ordered : Ordered o s) :
    Ordered o t := by
  refine ordered_set o s t entityId (some new) effect (fun entity same => ?_) ordered
  cases same
  have before := ordered entityId old known
  exact ⟨by rw [cont, chosen]; exact before.cont, by rw [caught, chosen]; exact before.caught, by rw [caught, cont]; exact before.near⟩

theorem finish_client_ordered (o : Options n) (s t : Node n) (entityId : Nat) (result : RetCode) (ordered : Ordered o s)
    (done : s.finishClientCmd entityId result = some t) : Ordered o t := by
  obtain ⟨entity, known, ⟨-, rfl⟩ | ⟨client, asking, effect⟩⟩ := finish_client_desk s t entityId result done
  · exact ordered
  · exact ordered_kept o s t entityId entity _ known (congrArg Desk.entityInfos effect) rfl rfl rfl ordered

theorem finish_entry_ordered (o : Options n) (s t : Node n) (key : EntryKey) (result : RetCode) (ordered : Ordered o s)
    (done : s.finishEntryCmd key result = some t) : Ordered o t := by
  obtain ⟨entity, known, rest⟩ := Option.bind_eq_some_iff.mp done
  cases asking : entity.clientCmd with
  | none =>
      simp only [asking, Option.some.injEq] at rest
      rw [← rest]
      exact ordered
  | some client =>
      simp only [asking] at rest
      split at rest
      · exact finish_client_ordered o s t key.entityId result ordered rest
      · cases rest
        exact ordered

theorem clear_entry_ordered (o : Options n) (s t : Node n) (p : EntryPtr) (ordered : Ordered o s) (done : s.clearEntryInfo p = some t) :
    Ordered o t := by
  obtain ⟨info, found, rest⟩ := Option.bind_eq_some_iff.mp done
  obtain ⟨entity, owner, rest⟩ := Option.bind_eq_some_iff.mp rest
  obtain ⟨u, cleaned, rest⟩ := Option.bind_eq_some_iff.mp rest
  obtain ⟨last, -, gone⟩ := destroy_desk u t p rest
  have answered : Ordered o u := finish_entry_ordered o (s.mark _) u p.key _ (ordered_same o s _ rfl ordered) cleaned
  exact ordered_same o u t (congrArg Desk.entityInfos gone) answered

theorem store_entry_entities (o : Options n) (s t : Node n) (p : EntryPtr) (stored : Bool)
    (done : s.storeEntryInfo o p = some (stored, t)) : t.entityInfos = s.entityInfos := by
  obtain ⟨info, -, found, -, ⟨-, same⟩ | ⟨-, certain, timestamp, effect⟩⟩ := store_entry_desk o s t p stored done
  · exact congrArg Desk.entityInfos same
  · exact congrArg Desk.entityInfos effect

theorem set_machine_entities (s t : Node n) (p : EntryPtr) (machine : EntryStateMachine n) (done : s.setMachine p machine = some t) :
    t.entityInfos = s.entityInfos := by
  obtain ⟨info, found, rest⟩ := Option.bind_eq_some_iff.mp done
  cases rest
  rfl

theorem store_for_write_ordered (o : Options n) (s t : Node n) (p : EntryPtr) (ret : RetCode) (ordered : Ordered o s)
    (done : s.storeForWrite o p = some (ret, t)) : Ordered o t := by
  obtain ⟨⟨stored, u⟩, asked, rest⟩ := Option.bind_eq_some_iff.mp done
  have toStore := ordered_same o s u (store_entry_entities o s u p stored asked) ordered
  dsimp only at rest
  split at rest
  · obtain ⟨info, found, rest⟩ := Option.bind_eq_some_iff.mp rest
    cases rest
    exact ordered_same o u _ rfl toStore
  · obtain ⟨v, cleared, rest⟩ := Option.bind_eq_some_iff.mp rest
    obtain ⟨w, finished, rest⟩ := Option.bind_eq_some_iff.mp rest
    cases rest
    exact finish_client_ordered o v t _ _ (clear_entry_ordered o u v p toStore cleared) finished

theorem handle_write_ordered (o : Options n) (s t : Node n) (p : EntryPtr) (ret : RetCode) (ordered : Ordered o s)
    (done : s.handleWriteCmd o p = some (ret, t)) : Ordered o t := by
  obtain ⟨info, found, rest⟩ := Option.bind_eq_some_iff.mp done
  obtain ⟨entity, owner, rest⟩ := Option.bind_eq_some_iff.mp rest
  obtain ⟨cmd, asking, rest⟩ := Option.bind_eq_some_iff.mp rest
  obtain ⟨⟨code, machine⟩, promised, rest⟩ := Option.bind_eq_some_iff.mp rest
  obtain ⟨u, replaced, rest⟩ := Option.bind_eq_some_iff.mp rest
  have toPromise : Ordered o u := ordered_same o s u (set_machine_entities (s.mark _) u p machine replaced) ordered
  dsimp only at rest
  split at rest
  · obtain ⟨v, finished, rest⟩ := Option.bind_eq_some_iff.mp rest
    cases rest
    exact finish_client_ordered o u t _ _ toPromise finished
  · obtain ⟨v, numbered, rest⟩ := Option.bind_eq_some_iff.mp rest
    have toValue : Ordered o v := by
      obtain ⟨entity, known, numbered⟩ := Option.bind_eq_some_iff.mp numbered
      obtain ⟨client, asking, numbered⟩ := Option.bind_eq_some_iff.mp numbered
      cases numbered
      exact ordered_kept o u _ _ entity _ known rfl rfl rfl rfl toPromise
    split at rest
    · exact store_for_write_ordered o v t p ret toValue rest
    · obtain ⟨⟨accepted, prepared, last⟩, _, rest⟩ := Option.bind_eq_some_iff.mp rest
      obtain ⟨w, again, rest⟩ := Option.bind_eq_some_iff.mp rest
      have toAccept := ordered_same o v w (set_machine_entities v w p last again) toValue
      dsimp only at rest
      split at rest
      · obtain ⟨x, finished, rest⟩ := Option.bind_eq_some_iff.mp rest
        cases rest
        exact finish_client_ordered o w t _ _ toAccept finished
      · split at rest
        · cases rest
        · exact store_for_write_ordered o (w.mark _) t p ret (ordered_same o w _ rfl toAccept) rest

theorem handle_read_ordered (o : Options n) (s t : Node n) (p : EntryPtr) (ret : RetCode) (ordered : Ordered o s)
    (done : s.handleReadCmd o p = some (ret, t)) : Ordered o t := by
  obtain ⟨info, found, rest⟩ := Option.bind_eq_some_iff.mp done
  split at rest
  · exact handle_write_ordered o s t p ret ordered rest
  · obtain ⟨machine, reset, rest⟩ := Option.bind_eq_some_iff.mp rest
    obtain ⟨u, replaced, rest⟩ := Option.bind_eq_some_iff.mp rest
    obtain ⟨v, asked, rest⟩ := Option.bind_eq_some_iff.mp rest
    cases rest
    have toReset := ordered_same o s u (set_machine_entities s u p machine replaced) ordered
    exact ordered_same o u t (congrArg Desk.entityInfos (broadcast_desk u t p true asked)) toReset

-- A new entity has no watermarks.
theorem entity_if_miss_ordered (o : Options n) (s t : Node n) (entityId : Nat) (ret : RetCode) (ordered : Ordered o s)
    (done : s.createEntityInfoIfMiss o entityId = some (ret, t)) : Ordered o t := by
  rw [createEntityInfoIfMiss] at done
  split at done
  · cases done
    exact ordered
  · dsimp only at done
    split at done
    · cases done
      exact ordered_same o s _ rfl ordered
    · obtain ⟨⟨loaded, u⟩, asked, rest⟩ := Option.bind_eq_some_iff.mp done
      obtain ⟨entity, known, outcome⟩ := load_entity_desk _ u entityId loaded asked
      have made : Ordered o (s.ask.2.createEntityInfo o entityId) := by
        refine ordered_set o s _ entityId _ rfl (fun entity same => ?_) ordered
        cases same
        exact ⟨Nat.le_refl 0, Nat.le_refl 0, Nat.zero_le _⟩
      rcases outcome with ⟨rfl, unchanged⟩ | ⟨rfl, queued⟩
      · simp only [Bool.false_eq_true, if_false, Option.some.injEq, Prod.mk.injEq] at rest
        obtain ⟨rfl, rfl⟩ := rest
        have stays := ordered_same o _ u (congrArg Desk.entityInfos unchanged) made
        exact ordered_set o u _ entityId none rfl (fun _ wrong => by cases wrong) stays
      · simp only [if_true, Option.some.injEq, Prod.mk.injEq] at rest
        obtain ⟨rfl, rfl⟩ := rest
        have opened : Ordered o u := ordered_kept o _ u entityId entity _ known (congrArg Desk.entityInfos queued) rfl rfl rfl made
        exact ordered_same o u _ rfl opened

theorem create_entry_ordered (o : Options n) (s t : Node n) (entityId entry : Nat) (ret : RetCode) (found : Option EntryPtr)
    (ordered : Ordered o s) (done : s.createEntryInfoIfMiss o entityId entry = some (ret, found, t)) : Ordered o t :=
  ordered_same o s t (create_if_miss_found o s t entityId entry ret found done).entities ordered

theorem dump_ordered (o : Options n) (s t : Node n) (cmd : ClientCmd) (ordered : Ordered o s) (done : s.dumpEntry o cmd = some t) :
    Ordered o t := by
  obtain ⟨⟨ret, u⟩, entered, rest⟩ := Option.bind_eq_some_iff.mp done
  have toEnter := entity_if_miss_ordered o s u cmd.entityId ret ordered entered
  dsimp only at rest
  split at rest
  · cases rest
    exact toEnter
  · obtain ⟨entity, known, rest⟩ := Option.bind_eq_some_iff.mp rest
    obtain ⟨⟨code, found, v⟩, opened, rest⟩ := Option.bind_eq_some_iff.mp rest
    cases rest
    exact create_entry_ordered o (u.mark _) v cmd.entityId cmd.entry code found (ordered_same o u _ rfl toEnter) opened

theorem update_by_chosen_ordered (o : Options n) (s t : Node n) (p : EntryPtr) (ordered : Ordered o s)
    (done : s.updateByChosenEntry o p = some t) : Ordered o t := by
  obtain ⟨info, entity, found, owner, ⟨-, rfl⟩ | ⟨closed, mine, outcome⟩⟩ := update_by_chosen_desk o s t p done
  · exact ordered
  · obtain ⟨known, -⟩ := entity_of_some s p.key info entity owner
    have effect : t.entityInfos = Function.update s.entityInfos p.key.entityId (some (Site.raisedBy entity p.key.entry mine)) := by
      rcases outcome with ⟨-, expired, effect⟩ | ⟨-, effect⟩
      · exact congrArg Desk.entityInfos effect
      · exact congrArg Desk.entityInfos effect
    refine ordered_set o s t _ _ effect (fun other same => ?_) ordered
    cases same
    exact raised_ordered _ entity _ mine (ordered _ entity known)

theorem entry_to_catchup_ordered (o : Options n) (s t : Node n) (entityId curr : Nat) (found : Option EntryPtr) (ordered : Ordered o s)
    (done : s.entryToCatchup o entityId curr = some (found, t)) : Ordered o t := by
  rw [entryToCatchup] at done
  split at done
  · cases done
    exact ordered
  · dsimp only at done
    split at done
    · cases done
      exact ordered_same o s _ rfl ordered
    · obtain ⟨⟨ret, p, u⟩, created, rest⟩ := Option.bind_eq_some_iff.mp done
      have opened : Ordered o u := create_entry_ordered o s.ask.2 u entityId curr ret p (ordered_same o s _ rfl ordered) created
      dsimp only at rest
      split at rest
      all_goals
        cases rest
        exact opened

theorem catchup_entry_ordered (o : Options n) (s t : Node n) (entityId curr : Nat) (go : Bool) (ordered : Ordered o s)
    (done : s.catchupEntry o entityId curr = some (go, t)) : Ordered o t := by
  obtain ⟨⟨found, u⟩, first, rest⟩ := Option.bind_eq_some_iff.mp done
  have toEntry := entry_to_catchup_ordered o s u entityId curr found ordered first
  cases found with
  | none =>
      cases rest
      exact toEntry
  | some p =>
      obtain ⟨info, there, rest⟩ := Option.bind_eq_some_iff.mp rest
      split at rest
      · cases rest
        exact toEntry
      · split at rest
        · obtain ⟨v, chosen, rest⟩ := Option.bind_eq_some_iff.mp rest
          cases rest
          exact update_by_chosen_ordered o u t p toEntry chosen
        · split at rest
          · cases rest
            exact toEntry
          · dsimp only at rest
            split at rest
            · cases rest
              exact ordered_same o u _ rfl toEntry
            · obtain ⟨v, sentOut, rest⟩ := Option.bind_eq_some_iff.mp rest
              obtain ⟨w, timed, rest⟩ := Option.bind_eq_some_iff.mp rest
              cases rest
              obtain ⟨other, foundOther, sentOut⟩ := Option.bind_eq_some_iff.mp sentOut
              obtain ⟨entity, owner, sentOut⟩ := Option.bind_eq_some_iff.mp sentOut
              obtain ⟨last, timestamp, foundLast, rfl⟩ := update_catchup_spec o v t p timed
              have asked : v.entityInfos = u.entityInfos := congrArg Desk.entityInfos (sync_desk _ v p _ false true sentOut)
              exact ordered_same o u _ asked toEntry

theorem catchup_entries_ordered (o : Options n) (entityId : Nat) (entries : List Nat) (s t : Node n) (ordered : Ordered o s)
    (done : catchupEntries o entityId entries s = some t) : Ordered o t := by
  induction entries generalizing s with
  | nil =>
      cases done
      exact ordered
  | cons curr rest ih =>
      obtain ⟨⟨go, u⟩, first, later⟩ := Option.bind_eq_some_iff.mp done
      have toEntry := catchup_entry_ordered o s u entityId curr go ordered first
      dsimp only at later
      split at later
      · exact ih u toEntry later
      · cases later
        exact toEntry

theorem try_catchup_ordered (o : Options n) (s t : Node n) (entityId : Nat) (ordered : Ordered o s)
    (done : s.tryCatchup o entityId = some t) : Ordered o t := by
  obtain ⟨entity, known, rest⟩ := Option.bind_eq_some_iff.mp done
  dsimp only at rest
  split at rest
  · cases rest
  · split at rest
    · cases rest
      exact ordered
    · split at rest
      · cases rest
        exact ordered
      · refine catchup_entries_ordered o entityId _ _ t ?_ rest
        refine ordered_set o s _ entityId _ rfl (fun other same => ?_) ordered
        cases same
        exact dest_ordered o entity (ordered entityId entity known)

end Node

end PaxosStore.Certain
