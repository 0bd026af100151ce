import PaxosStore.Certain.HandlerActs

set_option autoImplicit false

namespace PaxosStore.Certain.Node

open Desk

variable {n : Nat}

theorem restore_record_desk (s : Node n) (machine : EntryStateMachine n) (key : EntryKey) (record : EntryRecord) :
    (s.restoreRecord machine key record).2.desk = s.desk := by
  rw [restoreRecord]
  split <;> rfl

theorem restore_value_desk (s t : Node n) (machine : EntryStateMachine n) (cmd out : PaxosCmd)
    (done : s.restoreValue machine cmd = (out, t)) : t.desk = s.desk := by
  simp only [restoreValue, Prod.mk.injEq] at done
  rw [← done.2, restore_record_desk, restore_record_desk]

-- An entry that HandleIfLocalChosen leaves to the caller is above the chosen prefix.
theorem handle_if_chosen_works (s t : Node n) (entityId : Nat) (cmd : PaxosCmd) (handled : Bool)
    (done : s.handleIfLocalChosen entityId cmd = some (handled, t)) :
    Works s t ∧ (handled = false → t = s ∧ ∃ entity, s.entityInfos entityId = some entity ∧ entity.maxContChosenEntry < cmd.entry ∧
      ∀ info, s.entryInfos cmd.key = some info → info.machine.entryState ≠ .chosen) := by
  obtain ⟨entity, known, rest⟩ := Option.bind_eq_some_iff.mp done
  dsimp only at rest
  split at rest
  · rename_i open_
    cases rest
    refine ⟨works_refl s, fun _ => ⟨rfl, entity, known, open_.2, fun info live closed => open_.1 ?_⟩⟩
    rw [live]
    simpa using closed
  · split at rest
    · cases rest
      exact ⟨works_refl s, by simp⟩
    · split at rest
      · cases rest
        exact ⟨works_same s _ rfl, by simp⟩
      · split at rest
        · cases rest
        · cases rest
          exact ⟨works_same s _ (go_to_plog_desk s _), by simp⟩

theorem accept_if_promised_works (s t : Node n) (key : EntryKey) (machine last : EntryStateMachine n) (ret : RetCode)
    (done : s.acceptIfPromised key machine = some (ret, last, t)) :
    Works s t ∧ t.entryInfos = s.entryInfos ∧ ret ≠ .storeEntryFailed ∧
      ∀ other entity, s.entityInfos other = some entity → ∃ pending, t.entityInfos other = some { entity with clientCmd := pending } := by
  have same : ∀ other entity, s.entityInfos other = some entity → ∃ pending, s.entityInfos other = some { entity with clientCmd := pending } :=
    fun _ entity here => ⟨entity.clientCmd, here⟩
  rw [acceptIfPromised] at done
  split at done
  · cases done
    exact ⟨works_refl s, rfl, by simp, same⟩
  · obtain ⟨entity, known, rest⟩ := Option.bind_eq_some_iff.mp done
    obtain ⟨⟨code, prepared, machine⟩, _, rest⟩ := Option.bind_eq_some_iff.mp rest
    dsimp only at rest
    split at rest
    · cases rest
      exact ⟨works_refl s, rfl, by simp, same⟩
    · split at rest
      · cases rest
        exact ⟨works_same s _ rfl, rfl, by simp, same⟩
      · obtain ⟨u, finished, rest⟩ := Option.bind_eq_some_iff.mp rest
        cases rest
        obtain ⟨entries, -, kept⟩ := finish_entry_keeps s t key _ finished
        exact ⟨finish_entry_works s t key _ (by simp) finished, entries, by simp, kept⟩

theorem set_flag_state (machine : EntryStateMachine n) (peer : Fin n) : (machine.setEmptyFlag peer).entryState = machine.entryState := rfl

theorem count_empty_works (s t : Node n) (p : EntryPtr) (peer : Fin n) (uuid : Nat) (ret : RetCode)
    (done : s.countEmptyAnswer p peer uuid = some (ret, t)) : Works s t ∧ ret ≠ .storeEntryFailed := by
  obtain ⟨info, found, rest⟩ := Option.bind_eq_some_iff.mp done
  obtain ⟨entity, owner, rest⟩ := Option.bind_eq_some_iff.mp rest
  obtain ⟨live, -⟩ := deref_some s p info found
  dsimp only at rest
  split at rest
  · cases rest
    exact ⟨works_refl s, by simp⟩
  · split at rest
    · split at rest
      · obtain ⟨u, replaced, rest⟩ := Option.bind_eq_some_iff.mp rest
        obtain ⟨same, foundSame, replaced⟩ := Option.bind_eq_some_iff.mp replaced
        rw [found] at foundSame
        cases foundSame
        cases replaced
        have flagged : Works s (s.setEntry p.key (some { info with machine := info.machine.setEmptyFlag peer })) :=
          works_act s _ (.book p.key info _ live ⟨rfl, rfl, rfl, rfl, rfl, rfl⟩)
        split at rest
        · obtain ⟨v, finished, rest⟩ := Option.bind_eq_some_iff.mp rest
          cases rest
          exact ⟨works_trans s _ t flagged (finish_client_works _ t _ _ (by simp) finished), by simp⟩
        · cases rest
          exact ⟨flagged, by simp⟩
      · obtain ⟨v, finished, rest⟩ := Option.bind_eq_some_iff.mp rest
        cases rest
        exact ⟨finish_client_works s t _ _ (by simp) finished, by simp⟩
    · cases rest
      exact ⟨works_refl s, by simp⟩

theorem update_size_keeps (o : Options n) (s t : Node n) (p : EntryPtr) (done : updateMemorySize o s p = some t) :
    t.entityInfos = s.entityInfos ∧ ∀ key, CertainAt s key → CertainAt t key := by
  obtain ⟨info, found, rest⟩ := Option.bind_eq_some_iff.mp done
  obtain ⟨live, -⟩ := deref_some s p info found
  cases rest
  refine ⟨rfl, fun key certain other here => ?_⟩
  by_cases same : key = p.key
  · subst same
    simp only [setEntry, Function.update_self, Option.some.injEq] at here
    subst here
    exact certain info live
  · exact certain other (by simpa [setEntry, same] using here)

theorem update_machine_works (o : Options n) (s t : Node n) (p : EntryPtr) (peer : Fin n) (cmd : PaxosCmd) (ret : RetCode)
    (ahead : Ahead s p.key) (certain : CertainAt s p.key) (done : s.updateMachineByPaxosCmd o p peer cmd = some (ret, t)) : Works s t := by
  obtain ⟨info, found, rest⟩ := Option.bind_eq_some_iff.mp done
  obtain ⟨entity, owner, rest⟩ := Option.bind_eq_some_iff.mp rest
  obtain ⟨⟨code, machine⟩, updated, rest⟩ := Option.bind_eq_some_iff.mp rest
  obtain ⟨u, replaced, rest⟩ := Option.bind_eq_some_iff.mp rest
  obtain ⟨v, sized, rest⟩ := Option.bind_eq_some_iff.mp rest
  obtain ⟨stepped, entitiesFirst, certainFirst⟩ :=
    set_machine_works (s.mark (.handed p.key peer cmd.peerEntryRecord)) u p machine ahead certain replaced
  obtain ⟨entitiesSized, keeps⟩ := update_size_keeps o u v p sized
  have toSized : Works s v := works_trans s u v stepped (update_size_works o u v p sized)
  have aheadSized : Ahead v p.key := ahead_same u v p.key entitiesSized (ahead_same _ u p.key entitiesFirst ahead)
  have certainSized : CertainAt v p.key := keeps p.key certainFirst
  dsimp only at rest
  split at rest
  · cases rest
    exact toSized
  · obtain ⟨⟨accepted, last, w⟩, voted, rest⟩ := Option.bind_eq_some_iff.mp rest
    obtain ⟨votes, entriesVoted, _, kept⟩ := accept_if_promised_works v w p.key machine last accepted voted
    obtain ⟨x, again, rest⟩ := Option.bind_eq_some_iff.mp rest
    obtain ⟨works, entities, certainLast⟩ :=
      set_machine_works w x p last (ahead_finished v w p.key aheadSized kept) (certain_same v w p.key entriesVoted certainSized) again
    have toLast := works_trans s v x toSized (works_trans v w x votes works)
    have aheadLast : Ahead x p.key := ahead_same w x p.key entities (ahead_finished v w p.key aheadSized kept)
    dsimp only at rest
    split at rest
    · cases rest
      exact toLast
    · split at rest
      · obtain ⟨⟨stored, y⟩, asked, rest⟩ := Option.bind_eq_some_iff.mp rest
        obtain ⟨storing, entitiesStored⟩ := store_entry_works o x y p stored aheadLast asked
        have toStore := works_trans s x y toLast storing
        dsimp only at rest
        split at rest
        · obtain ⟨after, foundAfter, rest⟩ := Option.bind_eq_some_iff.mp rest
          obtain ⟨liveAfter, -⟩ := deref_some y p after foundAfter
          split at rest
          · have marked : Works y (y.setEntry p.key (some { after with
                peerToSync := some peer
                compensateMsgs := decide (machine.entryState ≠ info.machine.entryState ∧
                  (machine.entryState = .majorityPromise ∨ machine.entryState = .chosen)) })) :=
              works_act y _ (.book p.key after _ liveAfter ⟨rfl, rfl, rfl, rfl, rfl, rfl⟩)
            exact works_trans s y t toStore (works_trans y _ t marked (count_empty_works _ t p peer cmd.uuid ret rest).1)
          · exact works_trans s y t toStore (count_empty_works y t p peer cmd.uuid ret rest).1
        · obtain ⟨z, cleared, rest⟩ := Option.bind_eq_some_iff.mp rest
          obtain ⟨last, finished, rest⟩ := Option.bind_eq_some_iff.mp rest
          cases rest
          obtain ⟨gone, -⟩ := clear_entry_works y z p (ahead_same x y p.key entitiesStored aheadLast) cleared
          exact works_trans s y t toStore (works_trans y z t gone (finish_client_works z t _ _ (by simp) finished))
      · split at rest
        · obtain ⟨y, synced, rest⟩ := Option.bind_eq_some_iff.mp rest
          exact works_trans s x t toLast
            (works_trans x y t (works_same x y (sync_desk x y p peer false false synced)) (count_empty_works y t p peer cmd.uuid ret rest).1)
        · split at rest
          · split at rest
            · cases rest
              exact works_trans s x _ toLast (works_same x _ rfl)
            · cases rest
          · exact works_trans s x t toLast (count_empty_works x t p peer cmd.uuid ret rest).1

theorem handle_open_works (o : Options n) (s t : Node n) (peer : Fin n) (cmd : PaxosCmd) (ret : RetCode) (ahead : Ahead s cmd.key)
    (done : s.handleOpenEntry o peer cmd = some (ret, t)) : Works s t := by
  obtain ⟨⟨code, found, u⟩, opened, rest⟩ := Option.bind_eq_some_iff.mp done
  have opening := create_if_miss_found o s u cmd.entityId cmd.entry code found opened
  dsimp only at rest
  split at rest
  · cases rest
    exact opening.works
  · obtain ⟨p, here, rest⟩ := Option.bind_eq_some_iff.mp rest
    obtain ⟨info, there, rest⟩ := Option.bind_eq_some_iff.mp rest
    obtain ⟨about, -⟩ := opening.live p here
    obtain ⟨live, -⟩ := deref_some u p info there
    cases restored : u.restoreValue info.machine cmd with
    | mk out v =>
        have desks := restore_value_desk u v info.machine cmd out restored
        have entities : v.entityInfos = u.entityInfos := congrArg Desk.entityInfos desks
        have entries : v.entryInfos = u.entryInfos := congrArg Desk.entryInfos desks
        have toRestore := works_trans s u v opening.works (works_same u v desks)
        rw [restored] at rest
        dsimp only at rest
        split at rest
        · rename_i uncertain
          obtain ⟨w, sized, rest⟩ := Option.bind_eq_some_iff.mp rest
          cases rest
          have slotted : Works v (v.setEntry p.key (some { info with waitingMsgs := Function.update info.waitingMsgs peer (some out) })) :=
            works_act v _ (.slot p.key info peer out (by rw [desk, entries]; exact live) uncertain)
          exact works_trans s v t toRestore (works_trans v _ t slotted (update_size_works o _ t p sized))
        · rename_i settled
          split at rest
          · cases rest
          · obtain ⟨⟨code, w⟩, updated, rest⟩ := Option.bind_eq_some_iff.mp rest
            obtain ⟨x, caught, rest⟩ := Option.bind_eq_some_iff.mp rest
            cases rest
            have aheadHere : Ahead v p.key := by
              rw [about]
              exact ahead_same u v _ entities (ahead_same s u _ opening.entities ahead)
            have certain : CertainAt v p.key := by
              intro other same
              rw [entries, live] at same
              cases same
              simpa using settled
            exact works_trans s v t toRestore
              (works_trans v w t (update_machine_works o v w p peer out code aheadHere certain updated) (try_catchup_works o w t _ caught))

theorem finish_fast_failed_works (s t : Node n) (cmd : PaxosCmd) (done : s.finishFastFailed cmd = some t) : Works s t := by
  obtain ⟨entity, known, rest⟩ := Option.bind_eq_some_iff.mp done
  split at rest
  · cases rest
    exact works_refl s
  · split at rest
    · exact finish_client_works s t _ _ (by simp) rest
    · cases rest
      exact works_refl s

theorem handle_checked_works (o : Options n) (s t : Node n) (peer : Fin n) (cmd : PaxosCmd) (ret : RetCode)
    (ready : ∀ entity, s.entityInfos cmd.entityId = some entity → entity.loading = false)
    (done : s.handleCheckedCmd o peer cmd = some (ret, t)) : Works s t := by
  obtain ⟨entity, known, rest⟩ := Option.bind_eq_some_iff.mp done
  have loaded := ready entity known
  dsimp only at rest
  have heard : Works s (if entity.maxChosenEntry < cmd.maxChosenEntry then
      s.setEntity cmd.entityId (some { entity with activePeerAcceptorId := peer, maxChosenEntry := cmd.maxChosenEntry })
    else s) := by
    split
    · rename_i below
      exact works_act s _ (.plan cmd.entityId entity _ known ⟨rfl, rfl, rfl, rfl, rfl, .inr ⟨loaded, Nat.le_of_lt below⟩⟩)
    · exact works_refl s
  have readyHeard : ∀ other, (if entity.maxChosenEntry < cmd.maxChosenEntry then
      s.setEntity cmd.entityId (some { entity with activePeerAcceptorId := peer, maxChosenEntry := cmd.maxChosenEntry })
    else s).entityInfos cmd.entityId = some other → other.loading = false := by
    intro other here
    split at here
    · simp only [setEntity, Function.update_self, Option.some.injEq] at here
      subst here
      exact loaded
    · exact ready other here
  generalize (if entity.maxChosenEntry < cmd.maxChosenEntry then
      s.setEntity cmd.entityId (some { entity with activePeerAcceptorId := peer, maxChosenEntry := cmd.maxChosenEntry })
    else s) = u at rest heard readyHeard
  obtain ⟨again, knownAgain, rest⟩ := Option.bind_eq_some_iff.mp rest
  split at rest
  · cases rest
    exact works_trans s u _ heard (works_same u _ rfl)
  · split at rest
    · obtain ⟨v, finished, rest⟩ := Option.bind_eq_some_iff.mp rest
      obtain ⟨w, caught, rest⟩ := Option.bind_eq_some_iff.mp rest
      cases rest
      exact works_trans s u t heard (works_trans u v t (finish_fast_failed_works u v cmd finished) (try_catchup_works o v t _ caught))
    · split at rest
      · exact works_trans s u t heard (trigger_recover_works u t _ ret rest)
      · obtain ⟨⟨handled, v⟩, local_, last⟩ := Option.bind_eq_some_iff.mp rest
        obtain ⟨works, left⟩ := handle_if_chosen_works u v cmd.entityId cmd handled local_
        cases handled with
        | true =>
            cases last
            exact works_trans s u _ heard works
        | false =>
            obtain ⟨same, other, knownOther, above, -⟩ := left rfl
            subst same
            exact works_trans s v t heard
              (handle_open_works o v t peer cmd ret ⟨other, knownOther, readyHeard other knownOther, .inl above⟩ last)

theorem switch_entity (cmd : PaxosCmd) (localAcceptorId : Nat) : (cmd.switchToLocalView localAcceptorId).entityId = cmd.entityId := by
  rw [PaxosCmd.switchToLocalView]
  split <;> rfl

theorem handle_paxos_works (o : Options n) (s t : Node n) (cmd : PaxosCmd) (ret : RetCode)
    (done : s.handlePaxosCmd o cmd = some (ret, t)) : Works s t := by
  obtain ⟨⟨code, u⟩, entered, rest⟩ := Option.bind_eq_some_iff.mp done
  have works := (entity_if_miss_entered o s u cmd.entityId code entered).works
  dsimp only at rest
  split at rest
  · cases rest
    exact works
  · obtain ⟨entity, known, rest⟩ := Option.bind_eq_some_iff.mp rest
    have same := switch_entity cmd entity.localAcceptorId
    split at rest
    · cases rest
      rw [same]
      exact works_trans s u _ works (works_act u _ (.plan cmd.entityId entity _ known ⟨rfl, rfl, rfl, rfl, rfl, .inl rfl⟩))
    · rename_i ready
      split at rest
      · cases rest
        exact works
      · split at rest
        · refine works_trans s u t works (handle_checked_works o u t _ _ ret (fun other here => ?_) rest)
          rw [same, known] at here
          cases here
          simpa using ready
        · cases rest
          exact works

end PaxosStore.Certain.Node
