import PaxosStore.Certain.ManagerActs

set_option autoImplicit false

namespace PaxosStore.Certain.Node

open Desk

variable {n : Nat}

theorem update_catchup_works (o : Options n) (s t : Node n) (p : EntryPtr) (done : s.updateCatchupTimestamp o p = some t) : Works s t := by
  obtain ⟨info, timestamp, found, rfl⟩ := update_catchup_spec o s t p done
  obtain ⟨live, -⟩ := deref_some s p info found
  exact works_act s _ (.book p.key info _ live ⟨rfl, rfl, rfl, rfl, rfl, rfl⟩)

theorem store_entry_desk (o : Options n) (s t : Node n) (p : EntryPtr) (stored : Bool)
    (done : s.storeEntryInfo o p = some (stored, t)) :
    ∃ info entity, s.deref p = some info ∧ s.entityOf p.key info = some entity ∧
      (stored = false ∧ t.desk = s.desk ∨
        stored = true ∧ info.uncertain = false ∧ ∃ timestamp, t.desk =
          s.desk.setEntry p.key (some { info with catchupTimestampMsec := timestamp, uncertain := true })) := by
  obtain ⟨info, found, rest⟩ := Option.bind_eq_some_iff.mp done
  obtain ⟨entity, owner, rest⟩ := Option.bind_eq_some_iff.mp rest
  refine ⟨info, entity, found, owner, ?_⟩
  obtain ⟨live, -⟩ := deref_some s p info found
  have same := go_to_plog_desk s
    { entityId := p.key.entityId
      entry := p.key.entry
      plogSetRecord := true
      localAcceptorId := entity.localAcceptorId
      localEntryRecord := info.machine.entryRecords entity.localAcceptorId }
  dsimp only at rest
  split at rest
  · cases rest
    exact .inl ⟨rfl, same⟩
  · obtain ⟨u, timed, rest⟩ := Option.bind_eq_some_iff.mp rest
    obtain ⟨before, timestamp, foundBefore, timed⟩ := update_catchup_spec o _ u p timed
    obtain ⟨after, foundAfter, rest⟩ := Option.bind_eq_some_iff.mp rest
    obtain ⟨liveBefore, -⟩ := deref_some _ p before foundBefore
    have queued := congrArg Desk.entryInfos same
    simp only [desk] at queued
    rw [queued, live] at liveBefore
    cases liveBefore
    subst timed
    obtain ⟨liveAfter, -⟩ := deref_some _ p after foundAfter
    simp only [setEntry, Function.update_self, Option.some.injEq] at liveAfter
    subst liveAfter
    split at rest
    · cases rest
    · rename_i certain
      cases rest
      refine .inr ⟨rfl, by simpa using certain, timestamp, ?_⟩
      rw [← same]
      simp [desk, setEntry, Desk.setEntry]

-- The entity is loaded and no chosen prefix of it covers the entry.
def Ahead (s : Node n) (key : EntryKey) : Prop :=
  ∃ entity, s.entityInfos key.entityId = some entity ∧ entity.loading = false ∧ Beyond entity key

theorem ahead_same (s t : Node n) (key : EntryKey) (same : t.entityInfos = s.entityInfos) (ahead : Ahead s key) : Ahead t key := by
  obtain ⟨entity, known, rest⟩ := ahead
  exact ⟨entity, by rw [same]; exact known, rest⟩

theorem ahead_finished (s t : Node n) (key : EntryKey) (ahead : Ahead s key)
    (kept : ∀ other entity, s.entityInfos other = some entity → ∃ pending, t.entityInfos other = some { entity with clientCmd := pending }) :
    Ahead t key := by
  obtain ⟨entity, known, ready, beyond⟩ := ahead
  obtain ⟨pending, here⟩ := kept key.entityId entity known
  exact ⟨{ entity with clientCmd := pending }, here, ready, beyond⟩

-- The entry's machine is replaced while the entry is certain.
theorem work_works (s t : Node n) (key : EntryKey) (info : EntryInfo n) (machine : EntryStateMachine n) (uncertain : Bool)
    (live : s.entryInfos key = some info) (certain : info.uncertain = false) (ahead : Ahead s key)
    (effect : t.desk = s.desk.setEntry key (some { info with machine := machine, uncertain := uncertain })) : Works s t := by
  obtain ⟨entity, known, ready, beyond⟩ := ahead
  refine works_act s t ?_
  rw [effect]
  exact .work key entity info machine uncertain live certain known ready beyond

theorem store_entry_works (o : Options n) (s t : Node n) (p : EntryPtr) (stored : Bool) (ahead : Ahead s p.key)
    (done : s.storeEntryInfo o p = some (stored, t)) : Works s t ∧ t.entityInfos = s.entityInfos := by
  obtain ⟨info, -, found, -, ⟨rfl, same⟩ | ⟨rfl, certain, timestamp, effect⟩⟩ := store_entry_desk o s t p stored done
  · exact ⟨works_same s t same, congrArg Desk.entityInfos same⟩
  · obtain ⟨live, -⟩ := deref_some s p info found
    refine ⟨?_, congrArg Desk.entityInfos effect⟩
    have booked : Works s (s.setEntry p.key (some { info with catchupTimestampMsec := timestamp })) :=
      works_act s _ (.book p.key info _ live ⟨rfl, rfl, rfl, rfl, rfl, rfl⟩)
    refine works_trans s _ t booked (work_works _ t p.key { info with catchupTimestampMsec := timestamp } info.machine true
      (Function.update_self _ _ _) certain ahead ?_)
    rw [effect]
    simp [desk, setEntry, Desk.setEntry]

theorem clear_entry_works (s t : Node n) (p : EntryPtr) (ahead : Ahead s p.key) (done : s.clearEntryInfo p = some t) :
    Works s t ∧ ∀ other entity, s.entityInfos other = some entity → ∃ pending, t.entityInfos other = some { entity with clientCmd := pending } := by
  obtain ⟨info, found, rest⟩ := Option.bind_eq_some_iff.mp done
  obtain ⟨entity, owner, rest⟩ := Option.bind_eq_some_iff.mp rest
  obtain ⟨u, cleaned, rest⟩ := Option.bind_eq_some_iff.mp rest
  have answered := finish_entry_works _ u p.key _ (by simp) cleaned
  obtain ⟨entries, -, kept⟩ := finish_entry_keeps _ u p.key _ cleaned
  obtain ⟨last, foundLast, gone⟩ := destroy_desk u t p rest
  obtain ⟨liveLast, -⟩ := deref_some u p last foundLast
  constructor
  · refine works_trans s u t answered (works_act u t ?_)
    rw [gone]
    obtain ⟨entity, known, -, beyond⟩ := ahead_finished _ u p.key ahead kept
    exact .drop p.key last liveLast (.inr (.inr ⟨entity, known, beyond⟩))
  · intro other entity here
    have entities : t.entityInfos = u.entityInfos := congrArg Desk.entityInfos gone
    rw [entities]
    exact kept other entity here

theorem sync_desk (s t : Node n) (p : EntryPtr) (peer : Fin n) (checkEmpty catchup : Bool)
    (done : s.syncToPeer p peer checkEmpty catchup = some t) : t.desk = s.desk := by
  obtain ⟨info, found, rest⟩ := Option.bind_eq_some_iff.mp done
  obtain ⟨entity, owner, rest⟩ := Option.bind_eq_some_iff.mp rest
  dsimp only at rest
  split at rest
  · cases rest
    rfl
  · obtain ⟨client, asking, rest⟩ := Option.bind_eq_some_iff.mp rest
    cases rest
    rfl

theorem sync_to_peers_desk (s t : Node n) (p : EntryPtr) (checkEmpty : Bool) (peers : List (Fin n))
    (done : s.syncToPeers p checkEmpty peers = some t) : t.desk = s.desk := by
  induction peers generalizing s with
  | nil =>
      cases done
      rfl
  | cons peer rest ih =>
      rw [syncToPeers, List.foldlM_cons] at done
      obtain ⟨u, first, later⟩ := Option.bind_eq_some_iff.mp done
      exact (ih u later).trans (sync_desk s u p peer checkEmpty false first)

theorem broadcast_desk (s t : Node n) (p : EntryPtr) (checkEmpty : Bool) (done : s.broadcast p checkEmpty = some t) : t.desk = s.desk := by
  obtain ⟨info, found, rest⟩ := Option.bind_eq_some_iff.mp done
  obtain ⟨entity, owner, rest⟩ := Option.bind_eq_some_iff.mp rest
  exact sync_to_peers_desk s t p checkEmpty _ rest

theorem broadcast_on_accept_desk (s t : Node n) (p : EntryPtr) (done : s.broadcastOnAccept p = some t) : t.desk = s.desk := by
  obtain ⟨info, found, rest⟩ := Option.bind_eq_some_iff.mp done
  obtain ⟨entity, owner, rest⟩ := Option.bind_eq_some_iff.mp rest
  exact sync_to_peers_desk s t p false _ rest

theorem broadcast_on_chosen_desk (s t : Node n) (p : EntryPtr) (done : s.broadcastOnChosen p = some t) : t.desk = s.desk := by
  obtain ⟨info, found, rest⟩ := Option.bind_eq_some_iff.mp done
  obtain ⟨entity, owner, rest⟩ := Option.bind_eq_some_iff.mp rest
  exact sync_to_peers_desk s t p false _ rest

-- UpdateByChosenEntry on the desk.
theorem update_by_chosen_desk (o : Options n) (s t : Node n) (p : EntryPtr) (done : s.updateByChosenEntry o p = some t) :
    ∃ info entity, s.deref p = some info ∧ s.entityOf p.key info = some entity ∧
      (info.machine.entryState ≠ .chosen ∧ t = s ∨
        info.machine.entryState = .chosen ∧ ∃ mine,
          ((entity.maxContChosenEntry + 1 = p.key.entry ∧ ∃ expired, t.desk = s.desk.retire p.key entity info mine expired) ∨
            entity.maxContChosenEntry + 1 ≠ p.key.entry ∧
              t.desk = s.desk.setEntity p.key.entityId (some (Site.raisedBy entity p.key.entry mine)))) := by
  obtain ⟨info, found, rest⟩ := Option.bind_eq_some_iff.mp done
  obtain ⟨entity, owner, rest⟩ := Option.bind_eq_some_iff.mp rest
  refine ⟨info, entity, found, owner, ?_⟩
  obtain ⟨live, -⟩ := deref_some s p info found
  by_cases closed : info.machine.entryState = .chosen
  · simp only [closed, ne_eq, not_true, if_false] at rest
    split at rest
    · cases rest
    · refine .inr ⟨closed, info.machine.hasAcceptedMyProposal entity.localAcceptorId, ?_⟩
      split at rest
      · rename_i next
        obtain ⟨u, moved, rest⟩ := Option.bind_eq_some_iff.mp rest
        obtain ⟨same, foundSame, moved⟩ := Option.bind_eq_some_iff.mp moved
        obtain ⟨liveSame, -⟩ := deref_some _ p same foundSame
        have equal : info = same := Option.some.inj (live.symm.trans liveSame)
        subst equal
        cases moved
        simp only [Option.some.injEq] at rest
        subst rest
        have here : entity.maxContChosenEntry + 1 = p.key.entry := by
          rw [watermarks_cont] at next
          exact next
        refine .inl ⟨here, s.env.nowMsec / 1000 + o.entryTimeoutSec, ?_⟩
        rw [retire, Site.raisedBy, watermarks_cont, if_pos here]
        cases refused : s.env.refusals.head?.getD false <;>
          simp [desk, ask, mark, setEntity, setEntry, Desk.setEntity, Desk.setEntry, refused]
      · rename_i apart
        cases rest
        rw [watermarks_cont] at apart
        refine .inr ⟨apart, ?_⟩
        rw [Site.raisedBy, watermarks_cont, if_neg apart]
        rfl
  · simp only [ne_eq, closed, not_false_eq_true, if_true, Option.some.injEq] at rest
    exact .inl ⟨closed, rest.symm⟩

theorem update_by_chosen_works (o : Options n) (s t : Node n) (p : EntryPtr)
    (certain : ∀ info, s.entryInfos p.key = some info → info.uncertain = false) (done : s.updateByChosenEntry o p = some t) : Works s t := by
  obtain ⟨info, entity, found, owner, ⟨-, rfl⟩ | ⟨closed, mine, ⟨next, expired, effect⟩ | ⟨apart, effect⟩⟩⟩ :=
    update_by_chosen_desk o s t p done
  · exact works_refl t
  · obtain ⟨live, -⟩ := deref_some s p info found
    obtain ⟨known, number⟩ := entity_of_some s p.key info entity owner
    refine works_act s t ?_
    rw [effect]
    exact .retired p.key entity info mine expired live (certain info live) known number closed next
  · obtain ⟨live, -⟩ := deref_some s p info found
    obtain ⟨known, number⟩ := entity_of_some s p.key info entity owner
    refine works_act s t ?_
    rw [effect]
    exact .raised p.key entity info mine live (certain info live) known number closed apart

theorem entry_to_catchup_works (o : Options n) (s t : Node n) (entityId curr : Nat) (found : Option EntryPtr)
    (done : s.entryToCatchup o entityId curr = some (found, t)) : Works s t := by
  rw [entryToCatchup] at done
  split at done
  · cases done
    exact works_refl s
  · dsimp only at done
    split at done
    · cases done
      exact works_same s _ rfl
    · obtain ⟨⟨ret, p, u⟩, created, rest⟩ := Option.bind_eq_some_iff.mp done
      have opened := (create_if_miss_found o s.ask.2 u entityId curr ret p created).works
      dsimp only at rest
      split at rest
      all_goals
        cases rest
        exact opened

theorem catchup_entry_works (o : Options n) (s t : Node n) (entityId curr : Nat) (go : Bool)
    (done : s.catchupEntry o entityId curr = some (go, t)) : Works s t := by
  obtain ⟨⟨found, u⟩, first, rest⟩ := Option.bind_eq_some_iff.mp done
  have works := entry_to_catchup_works o s u entityId curr found first
  cases found with
  | none =>
      cases rest
      exact works
  | some p =>
      obtain ⟨info, there, rest⟩ := Option.bind_eq_some_iff.mp rest
      obtain ⟨live, -⟩ := deref_some u p info there
      split at rest
      · cases rest
        exact works
      · rename_i settled
        have certain : ∀ other, u.entryInfos p.key = some other → other.uncertain = false := by
          intro other same
          rw [live] at same
          cases same
          simpa using settled
        split at rest
        · obtain ⟨v, chosen, rest⟩ := Option.bind_eq_some_iff.mp rest
          cases rest
          exact works_trans s u t works (update_by_chosen_works o u t p certain chosen)
        · split at rest
          · cases rest
            exact works
          · dsimp only at rest
            split at rest
            · cases rest
              exact works
            · obtain ⟨v, sentOut, rest⟩ := Option.bind_eq_some_iff.mp rest
              obtain ⟨w, timed, rest⟩ := Option.bind_eq_some_iff.mp rest
              cases rest
              have counted : Works u (u.ask.2.setEntry p.key (some { info with catchupTimes := info.catchupTimes + 1 })) :=
                works_act u _ (.book p.key info _ live ⟨rfl, rfl, rfl, rfl, rfl, rfl⟩)
              obtain ⟨other, foundOther, sentOut⟩ := Option.bind_eq_some_iff.mp sentOut
              obtain ⟨entity, owner, sentOut⟩ := Option.bind_eq_some_iff.mp sentOut
              have asked := works_same _ v (sync_desk _ v p _ false true sentOut)
              exact works_trans s u t works (works_trans u _ t counted (works_trans _ v t asked (update_catchup_works o v t p timed)))

theorem catchup_entries_works (o : Options n) (entityId : Nat) (entries : List Nat) (s t : Node n)
    (done : catchupEntries o entityId entries s = some t) : Works s t := by
  induction entries generalizing s with
  | nil =>
      cases done
      exact works_refl _
  | cons curr rest ih =>
      obtain ⟨⟨go, u⟩, first, later⟩ := Option.bind_eq_some_iff.mp done
      have works := catchup_entry_works o s u entityId curr go first
      dsimp only at later
      split at later
      · exact works_trans s u t works (ih u later)
      · cases later
        exact works

theorem catchup_planned (s : Node n) (entityId dest : Nat) (entity : EntityInfo n) (known : s.entityInfos entityId = some entity) :
    Works s (s.setEntity entityId (some { entity with maxCatchupEntry := dest })) :=
  works_act s _ (.plan entityId entity _ known ⟨rfl, rfl, rfl, rfl, rfl, .inl rfl⟩)

theorem try_catchup_works (o : Options n) (s t : Node n) (entityId : Nat) (done : s.tryCatchup o entityId = some t) : Works s t := by
  obtain ⟨entity, known, rest⟩ := Option.bind_eq_some_iff.mp done
  dsimp only at rest
  split at rest
  · cases rest
  · split at rest
    · cases rest
      exact works_refl s
    · split at rest
      · cases rest
        exact works_refl s
      · exact works_trans s _ t (catchup_planned s entityId _ entity known) (catchup_entries_works o entityId _ _ t rest)

theorem trigger_recover_works (s t : Node n) (entityId : Nat) (ret : RetCode) (done : s.triggerRecover entityId = some (ret, t)) :
    Works s t := by
  obtain ⟨entity, known, rest⟩ := Option.bind_eq_some_iff.mp done
  dsimp only at rest
  split at rest
  · cases rest
    exact works_refl s
  · split at rest
    · cases rest
      exact works_refl s
    · split at rest
      · cases rest
        exact works_same s _ rfl
      · cases rest
        exact works_act s _ (.plan entityId entity _ known ⟨rfl, rfl, rfl, rfl, rfl, .inl rfl⟩)

end PaxosStore.Certain.Node
