import PaxosStore.Certain.DeskChanges
import PaxosStore.Certain.Watermarks

set_option autoImplicit false

namespace PaxosStore.Certain.Node

open Desk

variable {n : Nat}

theorem start_client_ordered (o : Options n) (s t : Node n) (cmd : ClientCmd) (ret : RetCode) (ordered : Ordered o s)
    (done : s.startClientCmd o cmd = some (ret, t)) : Ordered o t := by
  obtain ⟨entity, known, rest⟩ := Option.bind_eq_some_iff.mp done
  dsimp only at rest
  split at rest
  · obtain ⟨u, finished, rest⟩ := Option.bind_eq_some_iff.mp rest
    cases rest
    exact finish_client_ordered o s t _ _ ordered finished
  · split at rest
    · obtain ⟨u, finished, rest⟩ := Option.bind_eq_some_iff.mp rest
      obtain ⟨v, caught, rest⟩ := Option.bind_eq_some_iff.mp rest
      cases rest
      exact try_catchup_ordered o u t _ (finish_client_ordered o s u _ _ ordered finished) caught
    · obtain ⟨⟨code, found, u⟩, opened, rest⟩ := Option.bind_eq_some_iff.mp rest
      have toOpen := create_entry_ordered o s u cmd.entityId cmd.entry code found ordered opened
      dsimp only at rest
      split at rest
      · obtain ⟨v, finished, rest⟩ := Option.bind_eq_some_iff.mp rest
        cases rest
        exact finish_client_ordered o u t _ _ toOpen finished
      · obtain ⟨p, here, rest⟩ := Option.bind_eq_some_iff.mp rest
        obtain ⟨info, there, rest⟩ := Option.bind_eq_some_iff.mp rest
        split at rest
        · obtain ⟨v, finished, rest⟩ := Option.bind_eq_some_iff.mp rest
          cases rest
          exact finish_client_ordered o u t _ _ toOpen finished
        · split at rest
          · exact handle_write_ordered o u t p ret toOpen rest
          · split at rest
            · obtain ⟨owner, knownOwner, rest⟩ := Option.bind_eq_some_iff.mp rest
              obtain ⟨client, asking, rest⟩ := Option.bind_eq_some_iff.mp rest
              refine handle_read_ordered o _ t p ret ?_ rest
              exact ordered_kept o u _ cmd.entityId owner _ knownOwner rfl rfl rfl rfl toOpen
            · cases rest
              exact toOpen

theorem trigger_recover_ordered (o : Options n) (s t : Node n) (entityId : Nat) (ret : RetCode) (ordered : Ordered o s)
    (done : s.triggerRecover entityId = some (ret, t)) : Ordered o t := by
  obtain ⟨entity, known, rest⟩ := Option.bind_eq_some_iff.mp done
  dsimp only at rest
  split at rest
  · cases rest
    exact ordered
  · split at rest
    · cases rest
      exact ordered
    · split at rest
      · cases rest
        exact ordered_same o s _ rfl ordered
      · cases rest
        exact ordered_kept o s _ entityId entity _ known rfl rfl rfl rfl ordered

theorem armed_ordered (o : Options n) (s t : Node n) (entityId timeoutMsec : Nat) (entity : EntityInfo n) (cmd : ClientCmd)
    (known : s.entityInfos entityId = some entity) (ordered : Ordered o s)
    (added : (s.setEntity entityId (some { entity with clientCmd := some cmd })).timerAdd entityId timeoutMsec = some t) : Ordered o t := by
  have held : Ordered o (s.setEntity entityId (some { entity with clientCmd := some cmd })) :=
    ordered_kept o s _ entityId entity _ known rfl rfl rfl rfl ordered
  obtain ⟨-, ⟨-, rfl⟩ | ⟨-, effect⟩⟩ := timer_add_desk _ t _ _ added
  · exact held
  · exact ordered_same o _ t (congrArg Desk.entityInfos effect) held

theorem handle_client_ordered (o : Options n) (s t : Node n) (cmd : ClientCmd) (ret : RetCode) (ordered : Ordered o s)
    (done : s.handleClientCmd o cmd = some (ret, t)) : Ordered o t := by
  obtain ⟨⟨code, u⟩, made, rest⟩ := Option.bind_eq_some_iff.mp done
  have toEnter := entity_if_miss_ordered o s u cmd.entityId code ordered made
  have rejected : ∀ result, Ordered o (u.finishCmd cmd result) := fun result =>
    ordered_same o u _ (congrArg Desk.entityInfos (finish_cmd_desk u cmd result)) toEnter
  dsimp only at rest
  split at rest
  · cases rest
    exact rejected _
  · obtain ⟨entity, known, rest⟩ := Option.bind_eq_some_iff.mp rest
    rw [show (if cmd.timeoutMsec = 0 then o.clientCmdTimeoutMsec else cmd.timeoutMsec) = timeoutOf o cmd from rfl] at rest
    split at rest
    · split at rest
      · cases rest
        exact toEnter
      · obtain ⟨v, caught, rest⟩ := Option.bind_eq_some_iff.mp rest
        cases rest
        exact try_catchup_ordered o u t _ toEnter caught
    · split at rest
      · exact trigger_recover_ordered o u t _ ret toEnter rest
      · split at rest
        · obtain ⟨v, dumped, rest⟩ := Option.bind_eq_some_iff.mp rest
          cases rest
          exact dump_ordered o u t cmd toEnter dumped
        · split at rest
          · cases rest
            exact rejected _
          · split at rest
            · cases rest
              exact rejected _
            · obtain ⟨v, added, rest⟩ := Option.bind_eq_some_iff.mp rest
              have toHold := armed_ordered o u v cmd.entityId _ entity cmd known toEnter added
              split at rest
              · cases rest
                exact toHold
              · exact start_client_ordered o v t cmd ret toHold rest

theorem handle_if_chosen_entities (s t : Node n) (entityId : Nat) (cmd : PaxosCmd) (handled : Bool)
    (done : s.handleIfLocalChosen entityId cmd = some (handled, t)) : t.entityInfos = s.entityInfos := by
  obtain ⟨entity, known, rest⟩ := Option.bind_eq_some_iff.mp done
  dsimp only at rest
  split at rest
  · cases rest
    rfl
  · split at rest
    · cases rest
      rfl
    · split at rest
      · cases rest
        rfl
      · split at rest
        · cases rest
        · cases rest
          exact congrArg Desk.entityInfos (go_to_plog_desk s _)

theorem accept_if_promised_ordered (o : Options n) (s t : Node n) (key : EntryKey) (machine last : EntryStateMachine n) (ret : RetCode)
    (ordered : Ordered o s) (done : s.acceptIfPromised key machine = some (ret, last, t)) : Ordered o t := by
  rw [acceptIfPromised] at done
  split at done
  · cases done
    exact ordered
  · obtain ⟨entity, known, rest⟩ := Option.bind_eq_some_iff.mp done
    obtain ⟨⟨code, prepared, machine⟩, _, rest⟩ := Option.bind_eq_some_iff.mp rest
    dsimp only at rest
    split at rest
    · cases rest
      exact ordered
    · split at rest
      · cases rest
        exact ordered_same o s _ rfl ordered
      · obtain ⟨u, finished, rest⟩ := Option.bind_eq_some_iff.mp rest
        cases rest
        exact finish_entry_ordered o s t key _ ordered finished

theorem count_empty_ordered (o : Options n) (s t : Node n) (p : EntryPtr) (peer : Fin n) (uuid : Nat) (ret : RetCode) (ordered : Ordered o s)
    (done : s.countEmptyAnswer p peer uuid = some (ret, t)) : Ordered o t := by
  obtain ⟨info, found, rest⟩ := Option.bind_eq_some_iff.mp done
  obtain ⟨entity, owner, rest⟩ := Option.bind_eq_some_iff.mp rest
  dsimp only at rest
  split at rest
  · cases rest
    exact ordered
  · split at rest
    · split at rest
      · obtain ⟨u, replaced, rest⟩ := Option.bind_eq_some_iff.mp rest
        have flagged := ordered_same o s u (set_machine_entities s u p _ replaced) ordered
        split at rest
        · obtain ⟨v, finished, rest⟩ := Option.bind_eq_some_iff.mp rest
          cases rest
          exact finish_client_ordered o u t _ _ flagged finished
        · cases rest
          exact flagged
      · obtain ⟨v, finished, rest⟩ := Option.bind_eq_some_iff.mp rest
        cases rest
        exact finish_client_ordered o s t _ _ ordered finished
    · cases rest
      exact ordered

theorem update_machine_ordered (o : Options n) (s t : Node n) (p : EntryPtr) (peer : Fin n) (cmd : PaxosCmd) (ret : RetCode)
    (ordered : Ordered o s) (done : s.updateMachineByPaxosCmd o p peer cmd = some (ret, t)) : Ordered o t := by
  obtain ⟨info, found, rest⟩ := Option.bind_eq_some_iff.mp done
  obtain ⟨entity, owner, rest⟩ := Option.bind_eq_some_iff.mp rest
  obtain ⟨⟨code, machine⟩, updated, rest⟩ := Option.bind_eq_some_iff.mp rest
  obtain ⟨u, replaced, rest⟩ := Option.bind_eq_some_iff.mp rest
  obtain ⟨v, sized, rest⟩ := Option.bind_eq_some_iff.mp rest
  have toReplace : Ordered o u := ordered_same o s u (set_machine_entities (s.mark _) u p machine replaced) ordered
  have toSized := ordered_same o u v (update_size_keeps o u v p sized).1 toReplace
  dsimp only at rest
  split at rest
  · cases rest
    exact toSized
  · obtain ⟨⟨accepted, last, w⟩, voted, rest⟩ := Option.bind_eq_some_iff.mp rest
    obtain ⟨x, again, rest⟩ := Option.bind_eq_some_iff.mp rest
    have toVote := accept_if_promised_ordered o v w p.key machine last accepted toSized voted
    have toLast := ordered_same o w x (set_machine_entities w x p last again) toVote
    dsimp only at rest
    split at rest
    · cases rest
      exact toLast
    · split at rest
      · obtain ⟨⟨stored, y⟩, asked, rest⟩ := Option.bind_eq_some_iff.mp rest
        have toStore := ordered_same o x y (store_entry_entities o x y p stored asked) toLast
        dsimp only at rest
        split at rest
        · obtain ⟨after, foundAfter, rest⟩ := Option.bind_eq_some_iff.mp rest
          split at rest
          · exact count_empty_ordered o (y.setEntry _ _) t p peer cmd.uuid ret (ordered_same o y _ rfl toStore) rest
          · exact count_empty_ordered o y t p peer cmd.uuid ret toStore rest
        · obtain ⟨z, cleared, rest⟩ := Option.bind_eq_some_iff.mp rest
          obtain ⟨last, finished, rest⟩ := Option.bind_eq_some_iff.mp rest
          cases rest
          exact finish_client_ordered o z t _ _ (clear_entry_ordered o y z p toStore cleared) finished
      · split at rest
        · obtain ⟨y, synced, rest⟩ := Option.bind_eq_some_iff.mp rest
          have toSync := ordered_same o x y (congrArg Desk.entityInfos (sync_desk x y p peer false false synced)) toLast
          exact count_empty_ordered o y t p peer cmd.uuid ret toSync rest
        · split at rest
          · split at rest
            · cases rest
              exact ordered_same o x _ rfl toLast
            · cases rest
          · exact count_empty_ordered o x t p peer cmd.uuid ret toLast rest

theorem restored_ordered (o : Options n) (s t : Node n) (machine : EntryStateMachine n) (cmd out : PaxosCmd) (ordered : Ordered o s)
    (done : s.restoreValue machine cmd = (out, t)) : Ordered o t :=
  ordered_same o s t (congrArg Desk.entityInfos (restore_value_desk s t machine cmd out done)) ordered

theorem handle_open_ordered (o : Options n) (s t : Node n) (peer : Fin n) (cmd : PaxosCmd) (ret : RetCode) (ordered : Ordered o s)
    (done : s.handleOpenEntry o peer cmd = some (ret, t)) : Ordered o t := by
  obtain ⟨⟨code, found, u⟩, opened, rest⟩ := Option.bind_eq_some_iff.mp done
  have toOpen := create_entry_ordered o s u cmd.entityId cmd.entry code found ordered opened
  dsimp only at rest
  split at rest
  · cases rest
    exact toOpen
  · obtain ⟨p, here, rest⟩ := Option.bind_eq_some_iff.mp rest
    obtain ⟨info, there, rest⟩ := Option.bind_eq_some_iff.mp rest
    cases restored : u.restoreValue info.machine cmd with
    | mk out v =>
        have toRestore := restored_ordered o u v info.machine cmd out toOpen restored
        rw [restored] at rest
        dsimp only at rest
        split at rest
        · obtain ⟨w, sized, rest⟩ := Option.bind_eq_some_iff.mp rest
          cases rest
          have slotted : Ordered o (v.setEntry p.key (some { info with waitingMsgs := Function.update info.waitingMsgs peer (some out) })) :=
            ordered_same o v _ rfl toRestore
          exact ordered_same o _ t (update_size_keeps o _ t p sized).1 slotted
        · split at rest
          · cases rest
          · obtain ⟨⟨code, w⟩, updated, rest⟩ := Option.bind_eq_some_iff.mp rest
            obtain ⟨x, caught, rest⟩ := Option.bind_eq_some_iff.mp rest
            cases rest
            exact try_catchup_ordered o w t _ (update_machine_ordered o v w p peer out code toRestore updated) caught

theorem finish_fast_failed_ordered (o : Options n) (s t : Node n) (cmd : PaxosCmd) (ordered : Ordered o s)
    (done : s.finishFastFailed cmd = some t) : Ordered o t := by
  obtain ⟨entity, known, rest⟩ := Option.bind_eq_some_iff.mp done
  split at rest
  · cases rest
    exact ordered
  · split at rest
    · exact finish_client_ordered o s t _ _ ordered rest
    · cases rest
      exact ordered

theorem report_ordered (o : Options n) (s : Node n) (entity : EntityInfo n) (peer : Fin n) (cmd : PaxosCmd)
    (known : s.entityInfos cmd.entityId = some entity) (ordered : Ordered o s) : Ordered o (s.heard entity peer cmd) := by
  rw [heard]
  split
  · rename_i more
    refine ordered_set o s _ cmd.entityId _ rfl (fun other same => ?_) ordered
    cases same
    exact heard_ordered _ entity peer _ (ordered _ entity known) more
  · exact ordered

theorem handle_checked_ordered (o : Options n) (s t : Node n) (peer : Fin n) (cmd : PaxosCmd) (ret : RetCode) (ordered : Ordered o s)
    (done : s.handleCheckedCmd o peer cmd = some (ret, t)) : Ordered o t := by
  obtain ⟨entity, known, rest⟩ := Option.bind_eq_some_iff.mp done
  have toHear := report_ordered o s entity peer cmd known ordered
  rw [show (if entity.maxChosenEntry < cmd.maxChosenEntry then
      s.setEntity cmd.entityId (some { entity with activePeerAcceptorId := peer, maxChosenEntry := cmd.maxChosenEntry })
    else s) = s.heard entity peer cmd from rfl] at rest
  obtain ⟨again, knownAgain, rest⟩ := Option.bind_eq_some_iff.mp rest
  split at rest
  · cases rest
    exact ordered_same o _ _ rfl toHear
  · split at rest
    · obtain ⟨v, finished, rest⟩ := Option.bind_eq_some_iff.mp rest
      obtain ⟨w, caught, rest⟩ := Option.bind_eq_some_iff.mp rest
      cases rest
      exact try_catchup_ordered o v t _ (finish_fast_failed_ordered o _ v cmd toHear finished) caught
    · split at rest
      · exact trigger_recover_ordered o _ t _ ret toHear rest
      · obtain ⟨⟨handled, v⟩, local_, last⟩ := Option.bind_eq_some_iff.mp rest
        have toLocal := ordered_same o _ v (handle_if_chosen_entities _ v cmd.entityId cmd handled local_) toHear
        cases handled with
        | true =>
            cases last
            exact toLocal
        | false => exact handle_open_ordered o v t peer cmd ret toLocal last

theorem handle_paxos_ordered (o : Options n) (s t : Node n) (cmd : PaxosCmd) (ret : RetCode) (ordered : Ordered o s)
    (done : s.handlePaxosCmd o cmd = some (ret, t)) : Ordered o t := by
  obtain ⟨⟨code, u⟩, entered, rest⟩ := Option.bind_eq_some_iff.mp done
  have toEnter := entity_if_miss_ordered o s u cmd.entityId code ordered entered
  dsimp only at rest
  split at rest
  · cases rest
    exact toEnter
  · obtain ⟨entity, known, rest⟩ := Option.bind_eq_some_iff.mp rest
    split at rest
    · cases rest
      rw [switch_entity]
      exact ordered_kept o u _ cmd.entityId entity _ known rfl rfl rfl rfl toEnter
    · split at rest
      · cases rest
        exact toEnter
      · split at rest
        · exact handle_checked_ordered o u t _ _ ret toEnter rest
        · cases rest
          exact toEnter

theorem waiting_msgs_ordered (o : Options n) (p : EntryPtr) (peers : List (Fin n)) (s t : Node n) (ordered : Ordered o s)
    (done : handleWaitingMsgs o p peers s = some t) : Ordered o t := by
  induction peers generalizing s with
  | nil =>
      cases done
      exact ordered
  | cons peer rest ih =>
      obtain ⟨info, found, next⟩ := Option.bind_eq_some_iff.mp done
      cases slot : info.waitingMsgs peer with
      | none =>
          rw [slot] at next
          exact ih s ordered next
      | some cmd =>
          rw [slot] at next
          obtain ⟨⟨ret, u⟩, handled, next⟩ := Option.bind_eq_some_iff.mp next
          obtain ⟨after, foundAfter, next⟩ := Option.bind_eq_some_iff.mp next
          have toMsg := handle_paxos_ordered o (s.setEntry _ _) u cmd ret (ordered_same o s _ rfl ordered) handled
          split at next
          · cases next
            exact toMsg
          · exact ih u toMsg next

theorem handle_waiting_ordered (o : Options n) (s t : Node n) (p : EntryPtr) (ordered : Ordered o s)
    (done : s.handleWaitingMsg o p = some t) : Ordered o t := by
  obtain ⟨u, drained, sized⟩ := Option.bind_eq_some_iff.mp done
  exact ordered_same o u t (update_size_keeps o u t p sized).1 (waiting_msgs_ordered o p _ s u ordered drained)

theorem complete_ordered (o : Options n) (s t : Node n) (key : EntryKey) (p : EntryPtr) (ordered : Ordered o s)
    (done : s.completeEntry key = some (p, t)) : Ordered o t := by
  obtain ⟨info, live, uncertain, -, rfl⟩ := complete_entry_spec s t key p done
  exact ordered_same o s _ rfl ordered

theorem finish_if_chosen_ordered (o : Options n) (s t : Node n) (p : EntryPtr) (ordered : Ordered o s)
    (done : s.finishIfChosen p = some t) : Ordered o t := by
  obtain ⟨info, found, rest⟩ := Option.bind_eq_some_iff.mp done
  split at rest
  · cases rest
    exact ordered
  · split at rest
    · cases rest
    · obtain ⟨entity, owner, rest⟩ := Option.bind_eq_some_iff.mp rest
      split at rest
      · cases rest
        exact ordered
      · split at rest
        · exact finish_client_ordered o s t _ _ ordered rest
        · cases rest
          exact ordered

theorem resumes_ordered (o : Options n) (s t : Node n) (cmd : PaxosCmd) (p : EntryPtr) (ordered : Ordered o s)
    (resumes : Resumes o s cmd p t) : Ordered o t := by
  cases resumes with
  | get u v w t info entity record machine notSet completed read found owner loaded replaced sized chosen =>
      have toComplete := complete_ordered o s u cmd.key p ordered completed
      have toReplace := ordered_same o u v (set_machine_entities u v p machine replaced) toComplete
      exact update_by_chosen_ordered o w t p (ordered_same o v w (update_size_keeps o v w p sized).1 toReplace) chosen
  | set u v w x info after isSet stored completed chosen answered found busy synced foundAfter =>
      have toComplete := complete_ordered o s u cmd.key p ordered completed
      have toChosen := update_by_chosen_ordered o u v p toComplete chosen
      have toAnswer := finish_if_chosen_ordered o v w p toChosen answered
      have toSync := ordered_same o w x (congrArg Desk.entityInfos (sync_after_set_desk w x p synced)) toAnswer
      exact ordered_same o x _ rfl toSync

theorem handle_get_ordered (o : Options n) (s t : Node n) (cmd : PaxosCmd) (ret : RetCode) (ordered : Ordered o s)
    (done : s.handleGetFromPlog o cmd = some (ret, t)) : Ordered o t := by
  obtain ⟨⟨p, u⟩, completed, rest⟩ := Option.bind_eq_some_iff.mp done
  have toComplete := complete_ordered o s u cmd.key p ordered completed
  dsimp only at rest
  generalize (if cmd.result = .implPlogNotFound then { cmd with localEntryRecord := {}, result := .ok } else cmd) = out at rest
  split at rest
  · obtain ⟨v, cleared, rest⟩ := Option.bind_eq_some_iff.mp rest
    cases rest
    exact clear_entry_ordered o u t p toComplete cleared
  · obtain ⟨info, found, rest⟩ := Option.bind_eq_some_iff.mp rest
    obtain ⟨entity, owner, rest⟩ := Option.bind_eq_some_iff.mp rest
    obtain ⟨⟨code, machine⟩, updated, rest⟩ := Option.bind_eq_some_iff.mp rest
    obtain ⟨v, replaced, rest⟩ := Option.bind_eq_some_iff.mp rest
    obtain ⟨w, sized, rest⟩ := Option.bind_eq_some_iff.mp rest
    have toReplace := ordered_same o u v (set_machine_entities u v p machine replaced) toComplete
    have toSized := ordered_same o v w (update_size_keeps o v w p sized).1 toReplace
    dsimp only at rest
    split at rest
    · cases rest
      exact toSized
    · obtain ⟨x, chosen, rest⟩ := Option.bind_eq_some_iff.mp rest
      obtain ⟨y, drained, rest⟩ := Option.bind_eq_some_iff.mp rest
      obtain ⟨last, foundLast, rest⟩ := Option.bind_eq_some_iff.mp rest
      obtain ⟨home, ownerLast, rest⟩ := Option.bind_eq_some_iff.mp rest
      obtain ⟨z, caught, rest⟩ := Option.bind_eq_some_iff.mp rest
      cases rest
      have toChosen := update_by_chosen_ordered o w x p toSized chosen
      exact try_catchup_ordered o y t _ (handle_waiting_ordered o x y p toChosen drained) caught

theorem handle_set_ordered (o : Options n) (s t : Node n) (cmd : PaxosCmd) (ret : RetCode) (ordered : Ordered o s)
    (done : s.handleSetFromPlog o cmd = some (ret, t)) : Ordered o t := by
  obtain ⟨⟨p, u⟩, completed, rest⟩ := Option.bind_eq_some_iff.mp done
  have toComplete := complete_ordered o s u cmd.key p ordered completed
  dsimp only at rest
  split at rest
  · obtain ⟨v, cleared, rest⟩ := Option.bind_eq_some_iff.mp rest
    cases rest
    exact clear_entry_ordered o u t p toComplete cleared
  · obtain ⟨v, chosen, rest⟩ := Option.bind_eq_some_iff.mp rest
    obtain ⟨w, finished, rest⟩ := Option.bind_eq_some_iff.mp rest
    obtain ⟨after, foundAfter, rest⟩ := Option.bind_eq_some_iff.mp rest
    have toChosen := update_by_chosen_ordered o u v p toComplete chosen
    have toFinish := finish_if_chosen_ordered o v w p toChosen finished
    split at rest
    · cases rest
      exact toFinish
    · obtain ⟨x, synced, rest⟩ := Option.bind_eq_some_iff.mp rest
      obtain ⟨last, foundLast, rest⟩ := Option.bind_eq_some_iff.mp rest
      obtain ⟨y, drained, rest⟩ := Option.bind_eq_some_iff.mp rest
      cases rest
      have toSync := ordered_same o w x (congrArg Desk.entityInfos (sync_after_set_desk w x p synced)) toFinish
      exact handle_waiting_ordered o (x.setEntry _ _) t p (ordered_same o x _ rfl toSync) drained

theorem parked_msg_ordered (o : Options n) (s t : Node n) (entityId : Nat) (ordered : Ordered o s)
    (served : s.handleParkedMsg o entityId = some t) : Ordered o t := by
  obtain ⟨entity, known, rest⟩ := Option.bind_eq_some_iff.mp served
  split at rest
  · cases rest
    exact ordered
  · rename_i msg waiting
    obtain ⟨⟨code, u⟩, handled, rest⟩ := Option.bind_eq_some_iff.mp rest
    cases rest
    refine handle_paxos_ordered o _ t msg code ?_ handled
    exact ordered_kept o s _ entityId entity _ known rfl rfl rfl rfl ordered

theorem parked_cmd_ordered (o : Options n) (s t : Node n) (entityId : Nat) (ordered : Ordered o s)
    (done : s.handleParkedCmd o entityId = some t) : Ordered o t := by
  obtain ⟨entity, known, rest⟩ := Option.bind_eq_some_iff.mp done
  split at rest
  · cases rest
    exact ordered
  · rename_i client asking
    obtain ⟨⟨ret, u⟩, handled, rest⟩ := Option.bind_eq_some_iff.mp rest
    cases rest
    refine handle_client_ordered o _ t client ret ?_ handled
    exact ordered_kept o s _ entityId entity _ known rfl rfl rfl rfl ordered

theorem loaded_state_ordered (o : Options n) (s : Node n) (entity : EntityInfo n) (cmd : PaxosCmd)
    (known : s.entityInfos cmd.entityId = some entity) (ordered : Ordered o s) : Ordered o (s.loadedState entity cmd) := by
  refine ordered_set o s _ cmd.entityId _ rfl (fun other same => ?_) ordered
  cases same
  have before := ordered cmd.entityId entity known
  exact loaded_ordered _ { entity with loading := false } _ _ ⟨before.cont, before.caught, before.near⟩

theorem handle_load_ordered (o : Options n) (s t : Node n) (cmd : PaxosCmd) (ret : RetCode) (ordered : Ordered o s)
    (done : s.handleLoadFromPlog o cmd = some (ret, t)) : Ordered o t := by
  obtain ⟨entity, known, rest⟩ := Option.bind_eq_some_iff.mp done
  split at rest
  · cases rest
  · dsimp only at rest
    split at rest
    · obtain ⟨u, finished, rest⟩ := Option.bind_eq_some_iff.mp rest
      cases rest
      have toFinish : Ordered o u := by
        refine finish_client_ordered o _ u cmd.entityId _ ?_ finished
        exact ordered_kept o s _ cmd.entityId entity _ known rfl rfl rfl rfl ordered
      exact ordered_set o u _ cmd.entityId none rfl (fun _ wrong => by cases wrong) toFinish
    · obtain ⟨v, parked, rest⟩ := Option.bind_eq_some_iff.mp rest
      obtain ⟨w, served, rest⟩ := Option.bind_eq_some_iff.mp rest
      cases rest
      have toMsg := parked_msg_ordered o _ v cmd.entityId (loaded_state_ordered o s entity cmd known ordered) parked
      exact parked_cmd_ordered o v t cmd.entityId toMsg served

theorem handle_recover_ordered (o : Options n) (s t : Node n) (cmd : PaxosCmd) (ret : RetCode) (ordered : Ordered o s)
    (done : s.handleRecoverRspCmd o cmd = some (ret, t)) : Ordered o t := by
  obtain ⟨⟨code, u⟩, made, rest⟩ := Option.bind_eq_some_iff.mp done
  have toEnter := entity_if_miss_ordered o s u cmd.entityId code ordered made
  dsimp only at rest
  split at rest
  · cases rest
    exact toEnter
  · obtain ⟨entity, known, rest⟩ := Option.bind_eq_some_iff.mp rest
    split at rest
    · cases rest
      exact ordered_kept o u _ cmd.entityId entity _ known rfl rfl rfl rfl toEnter
    · obtain ⟨v, caught, rest⟩ := Option.bind_eq_some_iff.mp rest
      cases rest
      refine try_catchup_ordered o _ t _ ?_ caught
      refine ordered_set o u _ cmd.entityId (some (Site.recoveredBy entity cmd.entry u.env.nowMsec)) rfl (fun other same => ?_) toEnter
      cases same
      exact recovered_ordered _ entity _ _ (toEnter _ entity known)

theorem take_timeouts_ordered (o : Options n) (elements : List (Nat × Nat)) (s t : Node n) (ordered : Ordered o s)
    (done : takeTimeouts elements s = some t) : Ordered o t := by
  induction elements generalizing s with
  | nil =>
      cases done
      exact ordered
  | cons element rest ih =>
      obtain ⟨entityId, deadline⟩ := element
      rw [takeTimeouts] at done
      split at done
      · exact ih s ordered done
      · obtain ⟨entity, known, after⟩ := Option.bind_eq_some_iff.mp done
        split at after
        · refine ih _ ?_ after
          exact ordered_same o s _ rfl ordered
        · rename_i client asking
          refine ih _ ?_ after
          refine ordered_same o _ _ (congrArg Desk.entityInfos (finish_cmd_desk _ client .timeout)) ?_
          exact ordered_kept o s _ entityId entity { entity with clientCmd := none } known rfl rfl rfl rfl ordered

theorem tick_cleans_ordered (o : Options n) (s t : Node n) (ordered : Ordered o s) (cleans : TickCleans s t) : Ordered o t := by
  cases cleans with
  | cleanup timed =>
      have moved : (moveFinished s.finishedList s).entityInfos = s.entityInfos :=
        congrArg Desk.entityInfos (move_finished_desk s.finishedList s)
      exact take_timeouts_ordered o _ _ t (ordered_same o s _ moved ordered) timed

theorem cleanup_ordered (o : Options n) (s t : Node n) (ordered : Ordered o s) (done : s.cleanupExpiredChosenEntry = some t) : Ordered o t :=
  ordered_same o s t (cleanup_sheds _ _ 0 s t done).entities ordered

theorem check_work_ordered (o : Options n) (s t : Node n) (next : Option Nat) (ordered : Ordered o s)
    (done : s.checkIfHasWork o next = some t) : Ordered o t := by
  obtain ⟨u, timed, rest⟩ := Option.bind_eq_some_iff.mp done
  obtain ⟨v, cleaned, rest⟩ := Option.bind_eq_some_iff.mp rest
  have toClean := cleanup_ordered o u v (tick_cleans_ordered o s u ordered (.cleanup u timed)) cleaned
  cases next with
  | none =>
      cases rest
      exact toClean
  | some entityId => exact try_catchup_ordered o v t entityId toClean rest

theorem handle_ordered (o : Options n) (s t : Node n) (env : Env n) (event : Event) (ordered : Ordered o s)
    (done : s.handle o env event = some t) : Ordered o t := by
  cases event with
  | clientCmd cmdId entityId entry timestampUsec timeoutMsec value uuids =>
      rw [handle] at done
      split at done
      · cases done
      · obtain ⟨⟨ret, u⟩, handled, same⟩ := Option.map_eq_some_iff.mp done
        cases same
        exact handle_client_ordered o { s with env := env } u _ ret ordered handled
  | paxosCmd cmd =>
      obtain ⟨⟨ret, u⟩, handled, same⟩ := Option.map_eq_some_iff.mp done
      cases same
      exact handle_paxos_ordered o { s with env := env } u cmd.parsed ret ordered handled
  | plogReq index maxCommittedEntry outcome =>
      exact ordered_same o s t (congrArg Desk.entityInfos (do_plog_req_desk s t _ _ _ done)) ordered
  | plogRsp index =>
      obtain ⟨cmd, next, rest⟩ := Option.bind_eq_some_iff.mp done
      obtain ⟨⟨ret, u⟩, handled, same⟩ := Option.bind_eq_some_iff.mp rest
      cases same
      have taken : Ordered o { s with env := env, plogRsps := s.plogRsps.eraseIdx index } := ordered
      rw [handlePlogRspCmd] at handled
      split at handled
      · exact handle_load_ordered o _ t cmd ret taken handled
      · split at handled
        · exact handle_set_ordered o _ t cmd ret taken handled
        · split at handled
          · exact handle_get_ordered o _ t cmd ret taken handled
          · cases handled
            exact taken
  | recoverReq index maxCommittedEntry result =>
      obtain ⟨cmd, next, same⟩ := Option.bind_eq_some_iff.mp done
      cases same
      exact ordered_same o s _ rfl ordered
  | recoverRsp index =>
      obtain ⟨cmd, next, rest⟩ := Option.bind_eq_some_iff.mp done
      obtain ⟨⟨ret, u⟩, handled, same⟩ := Option.bind_eq_some_iff.mp rest
      cases same
      exact handle_recover_ordered o { s with env := env, recoverRsps := s.recoverRsps.eraseIdx index } t cmd ret ordered handled
  | tick next => exact check_work_ordered o { s with env := env } t next ordered done

theorem reached_ordered (o : Options n) (meets : Node n → Env n → Event → Prop) (s : Node n) (reached : Reached o meets s) : Ordered o s :=
  reached_invariant o meets (Ordered o) (fun _ _ _ known => by cases known)
    (fun s t env event _ ordered _ done => handle_ordered o s t env event ordered done) s reached

end PaxosStore.Certain.Node
