import PaxosStore.Certain.HandlerMoves

set_option autoImplicit false

namespace PaxosStore.Certain.Node

open Site

variable {n : Nat}

-- Where a peer's value is proposed again, the prepared one does not matter.
theorem accept_again (m last : EntryStateMachine n) (value other : Bytes) (valueId otherId : Nat) (uuids others : List Nat)
    (ret : RetCode) (done : m.accept value valueId uuids = some (ret, false, last)) :
    m.accept other otherId others = some (ret, false, last) := by
  simp only [EntryStateMachine.accept] at done ⊢
  split at done
  · cases done
    simp_all
  · rename_i acceptable
    rw [if_neg acceptable]
    split at done
    · cases done
    · rename_i promised
      rw [if_neg promised]
      by_cases none : (m.entryRecords m.selected).acceptedNum = 0
      · split at done
        · cases done
        · split at done
          · simp [none] at done
          · cases done
      · have same : m.acceptedRecord other otherId others = m.acceptedRecord value valueId uuids := by
          simp only [EntryStateMachine.acceptedRecord]
          rw [if_pos (Nat.pos_of_ne_zero none), if_pos (Nat.pos_of_ne_zero none)]
        rw [same]
        exact done

-- What AcceptIfPromised leaves: nothing, a new proposal, or a peer's proposal
-- and the answer to the client.
theorem accept_if_promised_spec (s t : Node n) (key : EntryKey) (machine last : EntryStateMachine n) (entity : EntityInfo n)
    (ret : RetCode) (known : s.entityInfos key.entityId = some entity)
    (done : s.acceptIfPromised key machine = some (ret, last, t)) :
    ret = .ok ∧ (last = machine ∧ t = s ∨ machine.entryState = .majorityPromise ∧ ∃ prepared,
      machine.accept (valueToPropose entity key.entry machine.getLocalPromisedNum).1
        (valueToPropose entity key.entry machine.getLocalPromisedNum).2.1
        (valueToPropose entity key.entry machine.getLocalPromisedNum).2.2 = some (.ok, prepared, last) ∧
      (prepared = true ∧ t = s.mark (.proposed key last.localRecord.proposal) ∨
        prepared = false ∧ s.finishEntryCmd key .stateAcceptFailed = some t)) := by
  rw [acceptIfPromised] at done
  split at done
  · cases done
    exact ⟨rfl, .inl ⟨rfl, rfl⟩⟩
  · rename_i major
    have major : machine.entryState = .majorityPromise := by simpa using major
    obtain ⟨entity', known', rest⟩ := Option.bind_eq_some_iff.mp done
    have same : entity' = entity := Option.some.inj (known'.symm.trans known)
    subst same
    dsimp only at rest
    obtain ⟨⟨code, prepared, next⟩, accepted, tail⟩ := Option.bind_eq_some_iff.mp rest
    have success := accept_acceptable machine next _ _ _ code prepared (by simp [EntryStateMachine.isLocalAcceptable, major]) accepted
    subst success
    dsimp only at tail
    rw [if_neg (by simp)] at tail
    split at tail
    · rename_i fresh
      cases tail
      exact ⟨rfl, .inr ⟨major, true, by rw [accepted, fresh], .inl ⟨rfl, rfl⟩⟩⟩
    · rename_i old
      obtain ⟨u, answered, tail⟩ := Option.bind_eq_some_iff.mp tail
      cases tail
      have old : prepared = false := by simpa using old
      exact ⟨rfl, .inr ⟨major, false, by rw [accepted, old], .inr ⟨rfl, answered⟩⟩⟩

-- The entity as a handled command leaves it at most: without its client command.
def Quieter (old new : EntityInfo n) : Prop := new = old ∨ new = { old with clientCmd := none }

theorem quieter_ours (old new : EntityInfo n) (cmd : PaxosCmd) (quieter : Quieter old new) (ours : Ours old cmd) : Ours new cmd := by
  rcases quieter with rfl | rfl
  · exact ours
  · exact ours

-- An Update and what AcceptIfPromised does after it, seen from a node `b` that
-- has answered the client already if the prepared value lost.
theorem learn_spec (s u v w : Node n) (p : EntryPtr) (peer : Fin n) (record : EntryRecord) (entity : EntityInfo n) (info : EntryInfo n)
    (next last : EntryStateMachine n) (size : Nat) (ret : RetCode) (known : s.entityInfos p.key.entityId = some entity)
    (updated : info.machine.update peer record = some (.ok, next))
    (learnt : ∀ hand, u.site hand = stepped (s.site hand) p.key { info with machine := next, totalSize := size }
      [.handed p.key peer record])
    (accepted : u.acceptIfPromised p.key next = some (ret, last, v)) (set : v.setMachine p last = some w) :
    ret = .ok ∧ ∃ b entity' marks, Answers s b ∧ b.entityInfos p.key.entityId = some entity' ∧ Quieter entity entity' ∧
      Learns entity' p.key peer record info.machine last marks ∧
      ∀ hand, w.site hand = stepped (b.site hand) p.key { info with machine := last, totalSize := size } marks := by
  have entities : u.entityInfos = s.entityInfos := congrArg Site.entityInfos (learnt [])
  have entries : u.entryInfos = _ := congrArg Site.entryInfos (learnt [])
  obtain ⟨success, outcome⟩ := accept_if_promised_spec u v p.key next last entity ret (by rw [entities]; exact known) accepted
  obtain ⟨here, there, rfl⟩ := set_machine_spec v w p last set
  have same (kept : v.entryInfos = u.entryInfos) : here = { info with machine := next, totalSize := size } := by
    obtain ⟨live, _⟩ := deref_some v p here there
    rw [kept, entries] at live
    simpa [stepped, Site.setEntry, eq_comm] using live
  have final : ∀ hand, (v.setEntry p.key (some { here with machine := last })).site hand =
    (v.site hand).setEntry p.key (some { here with machine := last }) := fun _ => rfl
  refine ⟨success, ?_⟩
  rcases outcome with ⟨rfl, rfl⟩ | ⟨major, prepared, done, ⟨rfl, rfl⟩ | ⟨rfl, answered⟩⟩
  · refine ⟨s, entity, _, answers_refl s, known, .inl rfl, .update last .ok updated, fun hand => ?_⟩
    rw [final hand, learnt hand, same rfl]
    simp [stepped, Site.setEntry]
  · refine ⟨s, entity, _, answers_refl s, known, .inl rfl, .propose next last updated major done, fun hand => ?_⟩
    have marked : (u.mark (.proposed p.key last.localRecord.proposal)).site hand =
      (u.site hand).note (.proposed p.key last.localRecord.proposal) := rfl
    rw [final hand, marked, learnt hand, same rfl]
    simp [stepped, Site.setEntry, Site.note]
  · obtain ⟨entity', known', outcome⟩ := finish_entry_spec u v p.key .stateAcceptFailed answered
    have equal : entity' = entity := by
      rw [entities] at known'
      exact Option.some.inj (known'.symm.trans known)
    subst equal
    rcases outcome with ⟨_, rfl⟩ | ⟨client, asking, about, effect⟩
    · refine ⟨s, entity', _, answers_refl s, known, .inl rfl, .repropose next last updated major done, fun hand => ?_⟩
      rw [final hand, learnt hand, same rfl]
      simp [stepped, Site.setEntry]
    · have kept : v.entryInfos = u.entryInfos := congrArg Site.entryInfos (effect [])
      have before : ∀ hand, ({ s with
          entityInfos := v.entityInfos, userRspQueue := v.userRspQueue, finishedList := v.finishedList } : Node n).site hand =
          finished (s.site hand) p.key.entityId entity' client .stateAcceptFailed := by
        intro hand
        have others : v.entityInfos = _ := congrArg Site.entityInfos (effect hand)
        have answers : (v.site hand).answered = _ := congrArg Site.answered (effect hand)
        rw [learnt hand] at answers
        simp only [site, finished, stepped, Site.setEntity, Site.setEntry] at answers
        simp only [site, finished, Site.setEntity, others, answers, entities]
      refine ⟨{ s with entityInfos := v.entityInfos, userRspQueue := v.userRspQueue, finishedList := v.finishedList },
        { entity' with clientCmd := none }, _, ⟨?_, rfl⟩, ?_, .inr rfl,
        .repropose next last updated major (accept_again next last _ _ _ _ _ _ _ done), fun hand => ?_⟩
      · exact finish_leads s _ p.key.entityId entity' client .stateAcceptFailed known asking (by decide) before
      · have others : v.entityInfos = _ := congrArg Site.entityInfos (effect [])
        simp [others, finished, Site.setEntity]
      · rw [final hand, effect hand, learnt hand, before hand, same kept]
        simp [stepped, Site.setEntry, finished, Site.setEntity]

theorem count_empty_leads (s t : Node n) (p : EntryPtr) (peer : Fin n) (cmd : PaxosCmd) (ret : RetCode) (about : cmd.key = p.key)
    (sender : cmd.peerAcceptorId = peer) (ours : ∀ entity, s.entityInfos p.key.entityId = some entity → Ours entity cmd)
    (done : s.countEmptyAnswer p peer cmd.uuid = some (ret, t)) : Leads [cmd] s t := by
  obtain ⟨info, found, rest⟩ := Option.bind_eq_some_iff.mp done
  obtain ⟨entity, owner, rest⟩ := Option.bind_eq_some_iff.mp rest
  obtain ⟨live, _⟩ := deref_some s p info found
  obtain ⟨known, _⟩ := entity_of_some s p.key info entity owner
  split at rest
  · cases rest
    exact leads_refl [cmd] _
  · rename_i client asking
    split at rest
    · rename_i isRead
      split at rest
      · rename_i empty
        obtain ⟨u, set, rest⟩ := Option.bind_eq_some_iff.mp rest
        obtain ⟨here, there, rfl⟩ := set_machine_spec s u p _ set
        have same : here = info := Option.some.inj ((deref_some s p here there).1.symm.trans live)
        subst same
        have counted : Leads [cmd] s (s.setEntry p.key (some { here with machine := here.machine.setEmptyFlag peer })) := by
          apply leads_move
          intro arrives hand inHand
          exact .entry p.key here _ live (.count cmd peer entity client (inHand cmd (List.mem_singleton_self cmd)) about known
            (ours entity known) sender asking isRead.1 isRead.2 empty)
        split at rest
        · rename_i major
          obtain ⟨v, answered, rest⟩ := Option.bind_eq_some_iff.mp rest
          cases rest
          refine leads_trans [cmd] s _ t counted ?_
          obtain ⟨again, knownAgain, ⟨_, rfl⟩ | ⟨other, asked, effect⟩⟩ := finish_client_spec _ t p.key.entityId .ok answered
          · exact leads_refl [cmd] _
          · have same : again = entity := Option.some.inj (knownAgain.symm.trans known)
            subst same
            have same : other = client := Option.some.inj (asked.symm.trans asking)
            subst same
            apply leads_site [cmd] _ t _ effect
            intro arrives hand inHand
            exact .finish p.key.entityId other.valueId again other .ok known asking fun _ =>
              ⟨rfl, .empty p.key { here with machine := here.machine.setEmptyFlag peer } cmd rfl
                (inHand cmd (List.mem_singleton_self cmd)) about (by simp [site, setEntry]) isRead.1 isRead.2 empty major⟩
        · cases rest
          exact counted
      · obtain ⟨u, answered, rest⟩ := Option.bind_eq_some_iff.mp rest
        cases rest
        exact leads_any [cmd] s t (finish_client_answers s t p.key.entityId .readFailed (by decide) answered).leads
    · cases rest
      exact leads_refl [cmd] _

-- A record that was not applied leaves the machine as it is.
theorem update_failed (m next : EntryStateMachine n) (peer : Nat) (record : EntryRecord) (ret : RetCode) (failed : ret ≠ .ok)
    (done : m.update peer record = some (ret, next)) : next = m := by
  simp only [EntryStateMachine.update] at done
  split at done
  · split at done
    · cases done
      rfl
    · split at done
      · cases done
        rfl
      · split at done
        · obtain ⟨_, _, same⟩ := Option.map_eq_some_iff.mp done
          cases same
          exact absurd rfl failed
        · split at done
          · cases done
            exact absurd rfl failed
          · obtain ⟨_, _, same⟩ := Option.map_eq_some_iff.mp done
            cases same
            exact absurd rfl failed
  · cases done
    rfl

theorem newer_self (record : EntryRecord) : isRecordNewer record record = false := by
  simp only [isRecordNewer]
  split
  · rfl
  · split
    · simp_all
    · simp

theorem absorb_leads (b w : Node n) (cmd : PaxosCmd) (peer : Fin n) (entity : EntityInfo n) (info : EntryInfo n)
    (last : EntryStateMachine n) (size : Nat) (marks : List (Mark n)) (known : b.entityInfos cmd.entityId = some entity)
    (ours : Ours entity cmd) (sender : cmd.peerAcceptorId = peer) (live : b.entryInfos cmd.key = some info)
    (certain : info.uncertain = false) (learns : Learns entity cmd.key peer cmd.peerEntryRecord info.machine last marks)
    (same : isRecordNewer (info.machine.entryRecords entity.localAcceptorId) (last.entryRecords entity.localAcceptorId) = false)
    (effect : ∀ hand, w.site hand = stepped (b.site hand) cmd.key { info with machine := last, totalSize := size } marks) :
    Leads [cmd] b w := by
  intro arrives hand inHand
  rw [effect hand]
  refine .head (.absorb cmd entity info peer last marks (inHand cmd (List.mem_singleton_self cmd)) known ours sender live certain
    learns same) (.head (.entry cmd.key { info with machine := last } _ (by simp [Site.setEntry])
      (.book info.broadcast info.compensateMsgs info.peerToSync size info.expiredTimestampSec info.catchupTimestampMsec
        info.catchupTimes)) (moves_of_eq arrives _ _ ?_))
  simp [stepped, Site.setEntry]

theorem store_leads (o : Options n) (b w v : Node n) (p : EntryPtr) (cmd : PaxosCmd) (peer : Fin n) (entity : EntityInfo n)
    (info : EntryInfo n) (last : EntryStateMachine n) (size : Nat) (marks : List (Mark n)) (stored : Bool) (about : cmd.key = p.key)
    (known : b.entityInfos p.key.entityId = some entity) (ours : Ours entity cmd) (sender : cmd.peerAcceptorId = peer)
    (live : b.entryInfos p.key = some info) (certain : info.uncertain = false)
    (learns : Learns entity p.key peer cmd.peerEntryRecord info.machine last marks)
    (newer : isRecordNewer (info.machine.entryRecords entity.localAcceptorId) (last.entryRecords entity.localAcceptorId) = true)
    (effect : ∀ hand, w.site hand = stepped (b.site hand) p.key { info with machine := last, totalSize := size } marks)
    (done : w.storeEntryInfo o p = some (stored, v)) :
    stored = false ∧ (∀ hand, v.site hand = w.site hand) ∨
      stored = true ∧ Leads [cmd] b v ∧ v.entityInfos = b.entityInfos := by
  have sameId : cmd.entityId = p.key.entityId := by rw [← about]; rfl
  obtain ⟨info', entity', found, owner, outcome⟩ := store_entry_spec o w v p stored done
  rcases outcome with ⟨rfl, unchanged⟩ | ⟨rfl, timestamp, queued⟩
  · exact .inl ⟨rfl, unchanged⟩
  · have entries : w.entryInfos = _ := congrArg Site.entryInfos (effect [])
    have entities : w.entityInfos = b.entityInfos := congrArg Site.entityInfos (effect [])
    have queue : w.plogReqs = b.plogReqs := congrArg Site.plogReqs (effect [])
    have sameInfo : info' = { info with machine := last, totalSize := size } := by
      obtain ⟨here, _⟩ := deref_some w p info' found
      rw [entries] at here
      simpa [stepped, Site.setEntry, eq_comm] using here
    have sameEntity : entity' = entity := by
      obtain ⟨here, _⟩ := entity_of_some w p.key info' entity' owner
      rw [entities] at here
      exact Option.some.inj (here.symm.trans known)
    subst sameInfo sameEntity
    refine .inr ⟨rfl, ?_, ?_⟩
    · intro arrives hand inHand
      rw [queued hand, effect hand, queue, ← about]
      rw [← about] at learns live
      rw [← sameId] at known
      refine .head (.store cmd entity' info peer last marks (inHand cmd (List.mem_singleton_self cmd)) known ours sender live certain
        learns newer) (.head (.entry cmd.key { info with machine := last, uncertain := true } _ (by simp [Site.setEntry])
          (.book info.broadcast info.compensateMsgs info.peerToSync size info.expiredTimestampSec timestamp info.catchupTimes))
          (moves_of_eq arrives _ _ ?_))
      simp [site, stepped, Site.setEntry]
    · have after : v.entityInfos = w.entityInfos := congrArg Site.entityInfos (queued [])
      rw [after, entities]

-- UpdateMachineByPaxosCmd from where the machine has learnt the record.
theorem learnt_leads (o : Options n) (b w t : Node n) (p : EntryPtr) (cmd : PaxosCmd) (peer : Fin n) (entity : EntityInfo n)
    (info : EntryInfo n) (last : EntryStateMachine n) (size : Nat) (marks : List (Mark n)) (compensate : Bool) (ret : RetCode)
    (about : cmd.key = p.key) (known : b.entityInfos p.key.entityId = some entity) (ours : Ours entity cmd)
    (sender : cmd.peerAcceptorId = peer) (live : b.entryInfos p.key = some info) (certain : info.uncertain = false)
    (new : cmd.checkEmpty = true → entity.maxChosenEntry < cmd.entry)
    (learns : Learns entity p.key peer cmd.peerEntryRecord info.machine last marks)
    (effect : ∀ hand, w.site hand = stepped (b.site hand) p.key { info with machine := last, totalSize := size } marks)
    (done : (if isRecordNewer (info.machine.entryRecords entity.localAcceptorId) (last.entryRecords entity.localAcceptorId) then do
        let (stored, s) ← w.storeEntryInfo o p
        if stored then
          let info ← s.deref p
          let s := if isRecordNewer cmd.localEntryRecord (last.entryRecords entity.localAcceptorId) then
              s.setEntry p.key (some { info with peerToSync := some peer, compensateMsgs := compensate })
            else s
          s.countEmptyAnswer p peer cmd.uuid
        else
          let s ← s.clearEntryInfo p
          let s ← s.finishClientCmd p.key.entityId .storeEntryFailed
          some (.storeEntryFailed, s)
      else if isRecordNewer cmd.localEntryRecord (last.entryRecords entity.localAcceptorId) then do
        let s ← w.syncToPeer p peer false false
        s.countEmptyAnswer p peer cmd.uuid
      else if cmd.checkEmpty then
        if last.isLocalEmpty then some (.ok, w.goAndDeleteIfFailed { cmd with checkEmpty := false })
        else none
      else w.countEmptyAnswer p peer cmd.uuid) = some (ret, t)) : Leads [cmd] b t := by
  have sameId : cmd.entityId = p.key.entityId := by rw [← about]; rfl
  have entities : w.entityInfos = b.entityInfos := congrArg Site.entityInfos (effect [])
  have entries : w.entryInfos = _ := congrArg Site.entryInfos (effect [])
  have ourEntity : ∀ other, b.entityInfos p.key.entityId = some other → Ours other cmd := by
    intro other here
    have same : other = entity := Option.some.inj (here.symm.trans known)
    exact same ▸ ours
  split at done
  · rename_i newer
    obtain ⟨⟨stored, v⟩, kept, rest⟩ := Option.bind_eq_some_iff.mp done
    dsimp only at rest
    rcases store_leads o b w v p cmd peer entity info last size marks stored about known ours sender live certain learns newer effect
      kept with ⟨rfl, unchanged⟩ | ⟨rfl, leads, others⟩
    · rw [if_neg (by simp)] at rest
      obtain ⟨x, cleared, rest⟩ := Option.bind_eq_some_iff.mp rest
      obtain ⟨y, answered, rest⟩ := Option.bind_eq_some_iff.mp rest
      cases rest
      refine leads_trans [cmd] b x t ?_ (leads_any [cmd] x t (finish_client_answers x t p.key.entityId .storeEntryFailed (by decide)
        answered).leads)
      refine cleared_leads [cmd] b v x p entity info { info with machine := last, totalSize := size } marks known live certain
        (fun hand inHand => ?_) (fun hand => (unchanged hand).trans (effect hand)) cleared
      rw [← about] at learns live ⊢
      rw [← sameId] at known
      exact .learnt entity info peer cmd last marks (inHand cmd (List.mem_singleton_self cmd)) known ours sender live certain learns
    · rw [if_pos rfl] at rest
      obtain ⟨stamped, there, rest⟩ := Option.bind_eq_some_iff.mp rest
      obtain ⟨liveStamped, _⟩ := deref_some v p stamped there
      refine leads_trans [cmd] b v t leads ?_
      split at rest
      · refine leads_trans [cmd] v _ t ?_ (count_empty_leads _ t p peer cmd ret about sender
          (fun other here => ourEntity other (by rw [← others]; exact here)) rest)
        apply leads_move
        intro arrives hand _
        exact .entry p.key stamped _ liveStamped (.book stamped.broadcast compensate (some peer) stamped.totalSize
          stamped.expiredTimestampSec stamped.catchupTimestampMsec stamped.catchupTimes)
      · exact count_empty_leads v t p peer cmd ret about sender (fun other here => ourEntity other (by rw [← others]; exact here)) rest
  · rename_i same
    have same : isRecordNewer (info.machine.entryRecords entity.localAcceptorId)
        (last.entryRecords entity.localAcceptorId) = false := by simpa using same
    have absorbed : Leads [cmd] b w := by
      rw [← about] at learns live
      rw [← sameId] at known
      exact absorb_leads b w cmd peer entity info last size marks known ours sender live certain learns same
        (fun hand => by rw [effect hand, about])
    have liveLast : w.entryInfos p.key = some { info with machine := last, totalSize := size } := by
      rw [entries]
      simp [stepped, Site.setEntry]
    refine leads_trans [cmd] b w t absorbed ?_
    split at done
    · obtain ⟨v, synced, rest⟩ := Option.bind_eq_some_iff.mp done
      have sends := sync_sends w v p peer false (by
        intro other here
        rw [liveLast] at here
        cases here
        exact certain) synced
      exact leads_trans [cmd] w v t (leads_any [cmd] w v sends.leads) (count_empty_leads v t p peer cmd ret about sender
        (fun other here => ourEntity other (by rw [← entities, ← sends.entities]; exact here)) rest)
    · split at done
      · rename_i asks
        split at done
        · rename_i empty
          cases done
          apply leads_move
          intro arrives hand inHand
          refine .send _ (.emptyAnswer cmd entity { info with machine := last, totalSize := size }
            (inHand cmd (List.mem_singleton_self cmd)) ?_ ours asks (new asks) ?_ certain empty)
          · rw [← sameId, ← entities] at known
            exact known
          · rw [← about] at liveLast
            exact liveLast
        · cases done
      · exact count_empty_leads w t p peer cmd ret about sender
          (fun other here => ourEntity other (by rw [← entities]; exact here)) done

theorem update_machine_leads (o : Options n) (s t : Node n) (p : EntryPtr) (cmd : PaxosCmd) (peer : Fin n) (entity : EntityInfo n)
    (info : EntryInfo n) (ret : RetCode) (about : cmd.key = p.key) (known : s.entityInfos p.key.entityId = some entity)
    (ours : Ours entity cmd) (sender : cmd.peerAcceptorId = peer) (live : s.entryInfos p.key = some info)
    (certain : info.uncertain = false) (new : cmd.checkEmpty = true → entity.maxChosenEntry < cmd.entry)
    (done : s.updateMachineByPaxosCmd o p peer cmd = some (ret, t)) : Leads [cmd] s t := by
  have sameId : cmd.entityId = p.key.entityId := by rw [← about]; rfl
  obtain ⟨info', found, rest⟩ := Option.bind_eq_some_iff.mp done
  obtain ⟨entity', owner, rest⟩ := Option.bind_eq_some_iff.mp rest
  have sameInfo : info' = info := Option.some.inj ((deref_some s p info' found).1.symm.trans live)
  have sameEntity : entity' = entity := Option.some.inj ((entity_of_some s p.key info' entity' owner).1.symm.trans known)
  subst sameInfo sameEntity
  obtain ⟨⟨code, next⟩, updated, rest⟩ := Option.bind_eq_some_iff.mp rest
  obtain ⟨u, set, rest⟩ := Option.bind_eq_some_iff.mp rest
  obtain ⟨v, sized, after⟩ := Option.bind_eq_some_iff.mp rest
  obtain ⟨here, there, rfl⟩ := set_machine_spec _ u p next set
  have sameHere : here = info' := Option.some.inj ((deref_some _ p here there).1.symm.trans live)
  subst sameHere
  obtain ⟨again, size, foundAgain, effect⟩ := update_memory_size_spec o _ v p sized
  obtain ⟨liveAgain, _⟩ := deref_some _ p again foundAgain
  simp only [setEntry, Function.update_self, Option.some.injEq] at liveAgain
  subst liveAgain
  have learnt : ∀ hand, v.site hand = stepped (s.site hand) p.key { here with machine := next, totalSize := size }
      [.handed p.key peer cmd.peerEntryRecord] := by
    intro hand
    rw [effect hand]
    simp [site, stepped, mark, setEntry, Site.setEntry]
  dsimp only at after
  split at after
  · rename_i failed
    have same := update_failed here.machine next peer cmd.peerEntryRecord code failed updated
    cases after
    rw [← sameId] at known
    rw [← about] at live
    refine absorb_leads s t cmd peer entity' here next size _ known ours sender live certain (.update next ret updated) ?_
      (fun hand => by rw [learnt hand, about])
    rw [same]
    exact newer_self _
  · rename_i success
    have success : code = .ok := by simpa using success
    subst success
    obtain ⟨⟨result, last, w⟩, accepted, tail⟩ := Option.bind_eq_some_iff.mp after
    obtain ⟨x, setLast, final⟩ := Option.bind_eq_some_iff.mp tail
    obtain ⟨fine, b, entity'', marks, answers, knownB, quieter, learns, effectLast⟩ := learn_spec s v w x p peer cmd.peerEntryRecord
      entity' here next last size result known updated learnt accepted setLast
    subst fine
    dsimp only at final
    rw [if_neg (by simp)] at final
    have sameId' : entity''.localAcceptorId = entity'.localAcceptorId := by
      rcases quieter with rfl | rfl
      · rfl
      · rfl
    have sameChosen : entity''.maxChosenEntry = entity'.maxChosenEntry := by
      rcases quieter with rfl | rfl
      · rfl
      · rfl
    refine leads_trans [cmd] s b t (leads_any [cmd] s b answers.leads) (learnt_leads o b x t p cmd peer entity'' here last size marks
      (next.entryState ≠ here.machine.entryState ∧ (next.entryState = .majorityPromise ∨ next.entryState = .chosen)) ret about knownB (quieter_ours entity' entity'' cmd quieter ours) sender (by rw [answers.entries]; exact live) certain
      (by rw [sameChosen]; exact new) learns effectLast ?_)
    rw [sameId']
    exact final

theorem restore_record_spec (s : Node n) (info : EntryInfo n) (key : EntryKey) (record : EntryRecord)
    (live : s.entryInfos key = some info) :
    (s.restoreRecord info.machine key record).1 = restoredRecord info.machine record ∧
      Leads [] s (s.restoreRecord info.machine key record).2 ∧
      (s.restoreRecord info.machine key record).2.entityInfos = s.entityInfos ∧
      (s.restoreRecord info.machine key record).2.entryInfos = s.entryInfos ∧
      (∀ m ∈ s.marks, m ∈ (s.restoreRecord info.machine key record).2.marks) ∧
      (record.hasValueIdOnly = true →
        restoreMark info.machine key record ∈ (s.restoreRecord info.machine key record).2.marks) := by
  by_cases elided : record.hasValueIdOnly = true
  · simp only [restoreRecord, restoredRecord, elided, if_true]
    refine ⟨trivial, ?_, rfl, rfl, fun m member => List.mem_cons_of_mem _ member, fun _ => List.mem_cons_self⟩
    apply leads_move
    intro arrives hand _
    exact .note _ (.restored key info record live)
  · simp only [restoreRecord, restoredRecord, elided]
    exact ⟨rfl, leads_refl [] s, rfl, rfl, fun m member => member, fun wrong => by cases wrong⟩

-- The command after RestoreValue.
def restoredCmd (machine : EntryStateMachine n) (cmd : PaxosCmd) : PaxosCmd :=
  { cmd with
    localEntryRecord := restoredRecord machine cmd.localEntryRecord
    peerEntryRecord := restoredRecord machine cmd.peerEntryRecord }

theorem restore_value_spec (s t : Node n) (info : EntryInfo n) (cmd out : PaxosCmd) (live : s.entryInfos cmd.key = some info)
    (done : s.restoreValue info.machine cmd = (out, t)) :
    out = restoredCmd info.machine cmd ∧ Leads [] s t ∧ t.entityInfos = s.entityInfos ∧ t.entryInfos = s.entryInfos ∧
      ∀ arrives hand, cmd ∈ hand → Holdable arrives (t.site hand) out := by
  obtain ⟨one, leads, entities, entries, _, marked⟩ := restore_record_spec s info cmd.key cmd.localEntryRecord live
  obtain ⟨two, leads', entities', entries', more, marked'⟩ := restore_record_spec
    (s.restoreRecord info.machine cmd.key cmd.localEntryRecord).2 info cmd.key cmd.peerEntryRecord (by rw [entries]; exact live)
  simp only [restoreValue, Prod.mk.injEq] at done
  obtain ⟨rfl, rfl⟩ := done
  rw [one, two]
  refine ⟨rfl, leads_trans [] s _ _ leads leads', entities'.trans entities, entries'.trans entries, fun arrives hand held => ?_⟩
  exact .restored cmd info held (by
    have same := entries'.trans entries
    simp only [site, same]
    exact live) (fun elided => more _ (marked elided)) marked'

theorem handle_if_chosen_leads (s t : Node n) (cmd : PaxosCmd) (entity : EntityInfo n) (handled : Bool)
    (known : s.entityInfos cmd.entityId = some entity) (ours : Ours entity cmd)
    (done : s.handleIfLocalChosen cmd.entityId cmd = some (handled, t)) :
    handled = true ∧ Leads [cmd] s t ∨ handled = false ∧ t = s ∧ entity.maxContChosenEntry < cmd.entry := by
  obtain ⟨entity', known', rest⟩ := Option.bind_eq_some_iff.mp done
  have same : entity' = entity := Option.some.inj (known'.symm.trans known)
  subst same
  dsimp only at rest
  split at rest
  · rename_i new
    cases rest
    exact .inr ⟨rfl, rfl, new.2⟩
  · split at rest
    · cases rest
      exact .inl ⟨rfl, leads_refl [cmd] _⟩
    · split at rest
      · rename_i info live
        cases rest
        refine .inl ⟨rfl, ?_⟩
        intro arrives hand inHand
        refine .head (.note _ (.answered cmd.key entity' info known live)) (.head (.send _ (.chosen cmd entity' info
          (inHand cmd (List.mem_singleton_self cmd)) known ours live (by simp))) (moves_of_eq arrives _ _ rfl))
      · split at rest
        · cases rest
        · cases rest
          refine .inl ⟨rfl, ?_⟩
          rcases go_to_plog_spec s { cmd with plogReturnMsg := true } with ⟨_, unchanged⟩ | ⟨_, queued⟩
          · exact leads_same [cmd] s _ unchanged
          · apply leads_site [cmd] s _ _ queued
            intro arrives hand inHand
            exact .askPlog cmd entity' (inHand cmd (List.mem_singleton_self cmd)) known ours

theorem handle_open_leads (o : Options n) (s t : Node n) (cmd : PaxosCmd) (peer : Fin n) (entity : EntityInfo n) (ret : RetCode)
    (known : s.entityInfos cmd.entityId = some entity) (settled : Settled entity) (ours : Ours entity cmd)
    (sender : cmd.peerAcceptorId = peer) (plain : cmd.plogLoad = false) (next : entity.maxContChosenEntry < cmd.entry)
    (new : cmd.checkEmpty = true → entity.maxChosenEntry < cmd.entry)
    (done : s.handleOpenEntry o peer cmd = some (ret, t)) : Leads [cmd] s t := by
  obtain ⟨⟨code, found, u⟩, created, rest⟩ := Option.bind_eq_some_iff.mp done
  obtain ⟨first, entities, keyed⟩ := create_if_miss_leads o s u cmd.entityId cmd.entry code found created (by
    intro _ other here
    have same : other = entity := Option.some.inj (here.symm.trans known)
    subst same
    exact .inl ⟨settled.ready, next⟩)
  dsimp only at rest
  split at rest
  · cases rest
    exact leads_any [cmd] s t first
  · obtain ⟨p, isFound, rest⟩ := Option.bind_eq_some_iff.mp rest
    obtain ⟨info, there, rest⟩ := Option.bind_eq_some_iff.mp rest
    obtain ⟨live, _⟩ := deref_some u p info there
    have about : p.key = cmd.key := keyed p isFound
    have sameId : p.key.entityId = cmd.entityId := by rw [about]; rfl
    cases restored : u.restoreValue info.machine cmd with
    | mk out v =>
        rw [restored] at rest
        obtain ⟨rfl, second, entities', entries', holdable⟩ := restore_value_spec u v info cmd out (by rw [← about]; exact live) restored
        have aboutOut : (restoredCmd info.machine cmd).key = p.key := about.symm
        have knownOut : v.entityInfos p.key.entityId = some entity := by
          rw [entities', entities, sameId]
          exact known
        have liveOut : v.entryInfos p.key = some info := by
          rw [entries']
          exact live
        refine leads_trans [cmd] s v t (leads_any [cmd] s v (leads_trans [] s u v first second)) ?_
        refine leads_hold [cmd] (restoredCmd info.machine cmd) v t plain
          (fun arrives hand inHand => holdable arrives hand (inHand cmd (List.mem_singleton_self cmd))) ?_
        dsimp only at rest
        split at rest
        · rename_i uncertain
          obtain ⟨w, sized, rest⟩ := Option.bind_eq_some_iff.mp rest
          cases rest
          obtain ⟨again, size, foundAgain, effect⟩ := update_memory_size_spec o _ t p sized
          obtain ⟨liveAgain, _⟩ := deref_some _ p again foundAgain
          simp only [setEntry, Function.update_self, Option.some.injEq] at liveAgain
          subst liveAgain
          intro arrives hand inHand
          rw [effect hand]
          refine .head (.entry p.key info _ liveOut (.slot (restoredCmd info.machine cmd) peer entity
            (inHand _ (List.mem_singleton_self _)) aboutOut knownOut ours sender uncertain)) (.head (.entry p.key
              { info with waitingMsgs := Function.update info.waitingMsgs peer (some (restoredCmd info.machine cmd)) } _
              (by simp [Site.setEntry]) (.book info.broadcast info.compensateMsgs info.peerToSync size info.expiredTimestampSec
                info.catchupTimestampMsec info.catchupTimes)) (moves_of_eq arrives _ _ ?_))
          simp [site, setEntry, Site.setEntry]
        · rename_i settledInfo
          split at rest
          · cases rest
          · obtain ⟨⟨result, w⟩, updated, rest⟩ := Option.bind_eq_some_iff.mp rest
            obtain ⟨x, caught, rest⟩ := Option.bind_eq_some_iff.mp rest
            cases rest
            have third := update_machine_leads o v w p (restoredCmd info.machine cmd) peer entity info _ aboutOut knownOut ours sender
              liveOut (by simpa using settledInfo) new updated
            have loaded : Loaded p.key.entityId (w.site [restoredCmd info.machine cmd]) :=
              leads_loaded [_] p.key.entityId v w third ⟨entity, knownOut, settled⟩
            rw [sameId] at loaded
            exact leads_trans [_] v w t third (leads_any [_] w t (try_catchup_loaded o w t cmd.entityId caught loaded))

theorem finish_fast_failed_leads (s t : Node n) (cmd : PaxosCmd) (done : s.finishFastFailed cmd = some t) : Leads [] s t := by
  obtain ⟨entity, known, rest⟩ := Option.bind_eq_some_iff.mp done
  split at rest
  · cases rest
    exact leads_refl [] _
  · split at rest
    · exact (finish_client_answers s t cmd.entityId .fastFailed (by decide) rest).leads
    · cases rest
      exact leads_refl [] _

theorem handle_checked_leads (o : Options n) (s t : Node n) (cmd : PaxosCmd) (peer : Fin n) (entity : EntityInfo n) (ret : RetCode)
    (known : s.entityInfos cmd.entityId = some entity) (settled : Settled entity) (ours : Ours entity cmd)
    (sender : cmd.peerAcceptorId = peer) (plain : cmd.plogLoad = false) (done : s.handleCheckedCmd o peer cmd = some (ret, t)) :
    Leads [cmd] s t := by
  obtain ⟨entity', known', rest⟩ := Option.bind_eq_some_iff.mp done
  have same : entity' = entity := Option.some.inj (known'.symm.trans known)
  subst same
  -- The rest of the function runs from a node that has heard of the peer's entries.
  have heard : ∃ u new, Leads [cmd] s u ∧ u.entityInfos cmd.entityId = some new ∧ Settled new ∧ Ours new cmd ∧
      u = (if entity'.maxChosenEntry < cmd.maxChosenEntry then
        s.setEntity cmd.entityId (some { entity' with activePeerAcceptorId := peer, maxChosenEntry := cmd.maxChosenEntry })
        else s) := by
    by_cases ahead : entity'.maxChosenEntry < cmd.maxChosenEntry
    · refine ⟨_, { entity' with activePeerAcceptorId := peer, maxChosenEntry := cmd.maxChosenEntry }, ?_, ?_,
        ⟨settled.ready, Nat.le_trans settled.below (Nat.le_of_lt ahead)⟩, ours, (if_pos ahead).symm⟩
      · apply leads_move
        intro arrives hand inHand
        exact .entity cmd.entityId entity' _ known (.heard cmd peer (inHand cmd (List.mem_singleton_self cmd)) rfl ours ahead)
      · simp [setEntity]
    · exact ⟨s, entity', leads_refl [cmd] s, known, settled, ours, (if_neg ahead).symm⟩
  obtain ⟨u, new, first, knownNew, settledNew, oursNew, same⟩ := heard
  rw [← same] at rest
  obtain ⟨new', knownNew', rest⟩ := Option.bind_eq_some_iff.mp rest
  have same : new' = new := Option.some.inj (knownNew'.symm.trans knownNew)
  subst same
  refine leads_trans [cmd] s u t first ?_
  split at rest
  · rename_i old
    cases rest
    apply leads_move
    intro arrives hand inHand
    exact .send _ (.fastFail cmd new' (inHand cmd (List.mem_singleton_self cmd)) knownNew oursNew old.1 old.2)
  · rename_i open_
    split at rest
    · obtain ⟨v, answered, rest⟩ := Option.bind_eq_some_iff.mp rest
      obtain ⟨w, caught, rest⟩ := Option.bind_eq_some_iff.mp rest
      cases rest
      have second := finish_fast_failed_leads u v cmd answered
      have loaded := leads_loaded [] cmd.entityId u v second ⟨new', knownNew, settledNew⟩
      exact leads_any [cmd] u t (leads_trans [] u v t second (try_catchup_loaded o v t cmd.entityId caught loaded))
    · split at rest
      · exact leads_any [cmd] u t (trigger_recover_leads u t cmd.entityId ret rest)
      · obtain ⟨⟨handled, v⟩, shortcut, after⟩ := Option.bind_eq_some_iff.mp rest
        rcases handle_if_chosen_leads u v cmd new' handled knownNew oursNew shortcut with ⟨rfl, leads⟩ | ⟨rfl, rfl, next⟩
        · cases after
          exact leads
        · exact handle_open_leads o v t cmd peer new' ret knownNew settledNew oursNew sender plain next
            (fun asks => by
              have apart : ¬ cmd.entry ≤ new'.maxChosenEntry := fun old => open_ ⟨asks, old⟩
              omega) after

theorem handle_paxos_leads (o : Options n) (s t : Node n) (cmd : PaxosCmd) (ret : RetCode) (plain : cmd.plogLoad = false)
    (fit : ∀ entity, s.entityInfos cmd.entityId = some entity → Fit entity)
    (done : s.handlePaxosCmd o cmd = some (ret, t)) : Leads [cmd] s t := by
  obtain ⟨⟨code, u⟩, made, rest⟩ := Option.bind_eq_some_iff.mp done
  have first := leads_any [cmd] s u (entity_if_miss_leads o s u cmd.entityId code made).1
  dsimp only at rest
  split at rest
  · cases rest
    exact first
  · obtain ⟨entity, known, rest⟩ := Option.bind_eq_some_iff.mp rest
    have sane := entity_if_miss_fit o s u cmd.entityId code made fit entity known
    have plainView : (cmd.switchToLocalView entity.localAcceptorId).plogLoad = false := by
      simp only [PaxosCmd.switchToLocalView]
      split
      · exact plain
      · exact plain
    refine leads_trans [cmd] s u t first (leads_hold [cmd] (cmd.switchToLocalView entity.localAcceptorId) u t plainView
      (fun arrives hand inHand => .switch cmd entity (inHand cmd (List.mem_singleton_self cmd)) known) ?_)
    have sameId : (cmd.switchToLocalView entity.localAcceptorId).entityId = cmd.entityId := by
      simp only [PaxosCmd.switchToLocalView]
      split
      · rfl
      · rfl
    rw [← sameId] at known
    split at rest
    · rename_i loading
      cases rest
      apply leads_move
      intro arrives hand inHand
      exact .entity _ entity _ known (.park _ (inHand _ (List.mem_singleton_self _)) rfl loading plainView)
    · rename_i ready
      split at rest
      · cases rest
        exact leads_refl [_] _
      · rename_i ids
        split at rest
        · rename_i bound
          have ready : entity.loading = false := by simpa using ready
          have ids := not_or.mp ids
          refine handle_checked_leads o u t _ ⟨_, bound⟩ entity ret known (fit_settled entity sane ready) ⟨?_, ?_, ready⟩ rfl plainView rest
          · simpa using ids.1
          · exact fun equal => ids.2 equal.symm
        · cases rest
          exact leads_refl [_] _

end PaxosStore.Certain.Node
