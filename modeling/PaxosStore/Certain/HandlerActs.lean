import PaxosStore.Certain.CatchupActs

set_option autoImplicit false

namespace PaxosStore.Certain.Node

open Desk

variable {n : Nat}

def CertainAt (s : Node n) (key : EntryKey) : Prop := ∀ info, s.entryInfos key = some info → info.uncertain = false

theorem certain_same (s t : Node n) (key : EntryKey) (same : t.entryInfos = s.entryInfos) (certain : CertainAt s key) : CertainAt t key := by
  intro info live
  rw [same] at live
  exact certain info live

theorem set_machine_works (s t : Node n) (p : EntryPtr) (machine : EntryStateMachine n) (ahead : Ahead s p.key)
    (certain : CertainAt s p.key) (done : s.setMachine p machine = some t) :
    Works s t ∧ t.entityInfos = s.entityInfos ∧ CertainAt t p.key := by
  obtain ⟨info, found, rest⟩ := Option.bind_eq_some_iff.mp done
  obtain ⟨live, -⟩ := deref_some s p info found
  cases rest
  refine ⟨work_works s _ p.key info machine info.uncertain live (certain info live) ahead rfl, rfl, fun other here => ?_⟩
  simp only [setEntry, Function.update_self, Option.some.injEq] at here
  subst here
  exact certain info live

theorem set_value_id_works (s t : Node n) (entityId valueId : Nat) (done : s.setValueId entityId valueId = some t) :
    Works s t ∧ t.entryInfos = s.entryInfos ∧
      ∀ other entity, s.entityInfos other = some entity → ∃ pending, t.entityInfos other = some { entity with clientCmd := pending } := by
  obtain ⟨entity, known, rest⟩ := Option.bind_eq_some_iff.mp done
  obtain ⟨client, asking, rest⟩ := Option.bind_eq_some_iff.mp rest
  cases rest
  refine ⟨works_act s _ (.label entityId entity client client.uuid valueId entity.uuidBase known asking), rfl, fun other info here => ?_⟩
  by_cases same : other = entityId
  · subst same
    rw [known] at here
    cases here
    exact ⟨some { client with valueId := valueId }, by simp [setEntity]⟩
  · exact ⟨info.clientCmd, by simpa [setEntity, same] using here⟩

theorem store_for_write_works (o : Options n) (s t : Node n) (p : EntryPtr) (ret : RetCode) (ahead : Ahead s p.key)
    (done : s.storeForWrite o p = some (ret, t)) : Works s t := by
  obtain ⟨⟨stored, u⟩, asked, rest⟩ := Option.bind_eq_some_iff.mp done
  obtain ⟨works, entities⟩ := store_entry_works o s u p stored ahead asked
  dsimp only at rest
  split at rest
  · obtain ⟨info, found, rest⟩ := Option.bind_eq_some_iff.mp rest
    obtain ⟨live, -⟩ := deref_some u p info found
    cases rest
    exact works_trans s u _ works (works_act u _ (.book p.key info _ live ⟨rfl, rfl, rfl, rfl, rfl, rfl⟩))
  · obtain ⟨v, cleared, rest⟩ := Option.bind_eq_some_iff.mp rest
    obtain ⟨w, finished, rest⟩ := Option.bind_eq_some_iff.mp rest
    cases rest
    obtain ⟨gone, -⟩ := clear_entry_works u v p (ahead_same s u p.key entities ahead) cleared
    exact works_trans s u t works (works_trans u v t gone (finish_client_works v t _ _ (by simp) finished))

theorem handle_write_works (o : Options n) (s t : Node n) (p : EntryPtr) (ret : RetCode) (ahead : Ahead s p.key)
    (certain : CertainAt s p.key) (done : s.handleWriteCmd o p = some (ret, t)) : Works s t := by
  obtain ⟨info, found, rest⟩ := Option.bind_eq_some_iff.mp done
  obtain ⟨entity, owner, rest⟩ := Option.bind_eq_some_iff.mp rest
  obtain ⟨cmd, asking, rest⟩ := Option.bind_eq_some_iff.mp rest
  obtain ⟨⟨code, machine⟩, promised, rest⟩ := Option.bind_eq_some_iff.mp rest
  obtain ⟨u, replaced, rest⟩ := Option.bind_eq_some_iff.mp rest
  have stepped := set_machine_works (s.mark _) u p machine ahead certain replaced
  have toPromise : Works s u := stepped.1
  have aheadPromise := ahead_same s u p.key stepped.2.1 ahead
  dsimp only at rest
  split at rest
  · obtain ⟨v, finished, rest⟩ := Option.bind_eq_some_iff.mp rest
    cases rest
    exact works_trans s u t toPromise (finish_client_works u t _ _ (by simp) finished)
  · obtain ⟨v, numbered, rest⟩ := Option.bind_eq_some_iff.mp rest
    obtain ⟨labelled, entries, kept⟩ := set_value_id_works u v _ _ numbered
    have toValue := works_trans s u v toPromise labelled
    have aheadValue := ahead_finished u v p.key aheadPromise kept
    split at rest
    · exact works_trans s v t toValue (store_for_write_works o v t p ret aheadValue rest)
    · obtain ⟨⟨accepted, prepared, last⟩, _, rest⟩ := Option.bind_eq_some_iff.mp rest
      obtain ⟨w, again, rest⟩ := Option.bind_eq_some_iff.mp rest
      obtain ⟨works, entities, _⟩ := set_machine_works v w p last aheadValue (certain_same u v p.key entries stepped.2.2) again
      have toAccept := works_trans s v w toValue works
      dsimp only at rest
      split at rest
      · obtain ⟨x, finished, rest⟩ := Option.bind_eq_some_iff.mp rest
        cases rest
        exact works_trans s w t toAccept (finish_client_works w t _ _ (by simp) finished)
      · split at rest
        · cases rest
        · have stored : Works w t := store_for_write_works o (w.mark (.proposed p.key last.localRecord.proposal)) t p ret
            (ahead_same v w p.key entities aheadValue) rest
          exact works_trans s w t toAccept stored

theorem handle_read_works (o : Options n) (s t : Node n) (p : EntryPtr) (ret : RetCode) (ahead : Ahead s p.key)
    (certain : CertainAt s p.key) (done : s.handleReadCmd o p = some (ret, t)) : Works s t := by
  obtain ⟨info, found, rest⟩ := Option.bind_eq_some_iff.mp done
  split at rest
  · exact handle_write_works o s t p ret ahead certain rest
  · obtain ⟨machine, reset, rest⟩ := Option.bind_eq_some_iff.mp rest
    obtain ⟨u, replaced, rest⟩ := Option.bind_eq_some_iff.mp rest
    obtain ⟨v, asked, rest⟩ := Option.bind_eq_some_iff.mp rest
    cases rest
    have works := (set_machine_works s u p machine ahead certain replaced).1
    exact works_trans s u t works (works_same u t (broadcast_desk u t p true asked))

theorem dump_works (o : Options n) (s t : Node n) (cmd : ClientCmd) (done : s.dumpEntry o cmd = some t) : Works s t := by
  obtain ⟨⟨ret, u⟩, entered, rest⟩ := Option.bind_eq_some_iff.mp done
  have works := (entity_if_miss_entered o s u cmd.entityId ret entered).works
  dsimp only at rest
  split at rest
  · cases rest
    exact works
  · obtain ⟨entity, known, rest⟩ := Option.bind_eq_some_iff.mp rest
    obtain ⟨⟨code, found, v⟩, opened, rest⟩ := Option.bind_eq_some_iff.mp rest
    cases rest
    exact works_trans s u v works (create_if_miss_found o _ v cmd.entityId cmd.entry code found opened).works

theorem start_client_works (o : Options n) (s t : Node n) (cmd : ClientCmd) (ret : RetCode)
    (ready : ∀ entity, s.entityInfos cmd.entityId = some entity → entity.loading = false)
    (done : s.startClientCmd o cmd = some (ret, t)) : Works s t := by
  obtain ⟨entity, known, rest⟩ := Option.bind_eq_some_iff.mp done
  dsimp only at rest
  split at rest
  · obtain ⟨u, finished, rest⟩ := Option.bind_eq_some_iff.mp rest
    cases rest
    exact finish_client_works s t _ _ (by simp) finished
  · split at rest
    · obtain ⟨u, finished, rest⟩ := Option.bind_eq_some_iff.mp rest
      obtain ⟨v, caught, rest⟩ := Option.bind_eq_some_iff.mp rest
      cases rest
      exact works_trans s u t (finish_client_works s u _ _ (by simp) finished) (try_catchup_works o u t _ caught)
    · rename_i matched
      have matched : cmd.entry = entity.maxChosenEntry + 1 := by simpa using matched
      obtain ⟨⟨code, found, u⟩, opened, rest⟩ := Option.bind_eq_some_iff.mp rest
      have opening := create_if_miss_found o s u cmd.entityId cmd.entry code found opened
      dsimp only at rest
      split at rest
      · obtain ⟨v, finished, rest⟩ := Option.bind_eq_some_iff.mp rest
        cases rest
        exact works_trans s u t opening.works (finish_client_works u t _ _ opening.inTime finished)
      · obtain ⟨p, here, rest⟩ := Option.bind_eq_some_iff.mp rest
        obtain ⟨info, there, rest⟩ := Option.bind_eq_some_iff.mp rest
        obtain ⟨about, -⟩ := opening.live p here
        obtain ⟨live, -⟩ := deref_some u p info there
        have ahead : Ahead u p.key := by
          rw [about]
          refine ⟨entity, by rw [opening.entities]; exact known, ready entity known, .inr ?_⟩
          dsimp only
          omega
        split at rest
        · obtain ⟨v, finished, rest⟩ := Option.bind_eq_some_iff.mp rest
          cases rest
          exact works_trans s u t opening.works (finish_client_works u t _ _ (by simp) finished)
        · rename_i settled
          have certain : CertainAt u p.key := by
            intro other same
            rw [live] at same
            cases same
            simpa using settled
          split at rest
          · exact works_trans s u t opening.works (handle_write_works o u t p ret ahead certain rest)
          · split at rest
            · obtain ⟨owner, knownOwner, rest⟩ := Option.bind_eq_some_iff.mp rest
              obtain ⟨client, asking, rest⟩ := Option.bind_eq_some_iff.mp rest
              have labelled : Works u ((u.setEntity cmd.entityId (some
                  { owner with clientCmd := some { client with uuid := owner.uuidBase }, uuidBase := owner.uuidBase + 1 })).mark
                    (.reading p.key owner.uuidBase)) :=
                works_act u _ (.label cmd.entityId owner client owner.uuidBase client.valueId _ knownOwner asking)
              refine works_trans s u t opening.works (works_trans u _ t labelled (handle_read_works o _ t p ret ?_ certain rest))
              obtain ⟨same, knownSame, readySame, beyond⟩ := ahead
              rw [about] at knownSame
              rw [knownOwner] at knownSame
              cases knownSame
              refine ⟨{ owner with clientCmd := some { client with uuid := owner.uuidBase }, uuidBase := owner.uuidBase + 1 }, ?_,
                readySame, beyond⟩
              rw [about]
              simp [mark, setEntity]
            · cases rest
              exact opening.works

end PaxosStore.Certain.Node
