import PaxosStore.Certain.DeskRuns

set_option autoImplicit false

namespace PaxosStore.Certain

variable {n : Nat}

namespace Desk

-- A certain entry holds no message in the slots that `slots` is about.
def Free (slots : EntryKey → Fin n → Prop) (d : Desk n) : Prop :=
  ∀ key info, d.entryInfos key = some info → info.uncertain = false → ∀ peer, slots key peer → info.waitingMsgs peer = none

theorem free_same (slots : EntryKey → Fin n → Prop) (d e : Desk n) (same : e.entryInfos = d.entryInfos) (free : Free slots d) :
    Free slots e := by
  intro key info live
  rw [same] at live
  exact free key info live

-- One entry changes, and it is free if it is certain.
theorem free_set (slots : EntryKey → Fin n → Prop) (d e : Desk n) (key : EntryKey) (new : Option (EntryInfo n))
    (effect : e.entryInfos = Function.update d.entryInfos key new)
    (fine : ∀ info, new = some info → info.uncertain = false → ∀ peer, slots key peer → info.waitingMsgs peer = none)
    (free : Free slots d) : Free slots e := by
  intro other info live certain peer slot
  rw [effect] at live
  by_cases same : other = key
  · subst same
    rw [Function.update_self] at live
    exact fine info live certain peer slot
  · rw [Function.update_of_ne same] at live
    exact free other info live certain peer slot

theorem free_act (slots : EntryKey → Fin n → Prop) (d e : Desk n) (act : Act d e) (free : Free slots d) : Free slots e := by
  cases act with
  | plan entityId old new known planned => exact free_same slots d _ rfl free
  | label entityId old client uuid valueId base known asking => exact free_same slots d _ rfl free
  | finish entityId old client result known asking inTime => exact free_same slots d _ rfl free
  | opened entityId new absent loading idle fresh number => exact free_same slots d _ rfl free
  | skipped => exact free_same slots d _ rfl free
  | retired key entity info mine expired live certain known owner closed next =>
      refine free_set slots d _ key (some { info with expiredTimestampSec := expired }) rfl ?_ free
      rintro _ ⟨rfl⟩ certain
      exact free key info live certain
  | raised key entity info mine live certain known owner closed apart => exact free_same slots d _ rfl free
  | book key old new live booked =>
      refine free_set slots d _ key (some new) rfl ?_ free
      rintro _ ⟨rfl⟩ certain
      rw [booked.waiting]
      exact free key old live (booked.uncertain ▸ certain)
  | resize key info size live =>
      refine free_set slots d _ key (some { info with totalSize := size }) rfl ?_ free
      rintro _ ⟨rfl⟩ certain
      exact free key info live certain
  | slot key info peer cmd live uncertain =>
      refine free_set slots d _ key (some { info with waitingMsgs := Function.update info.waitingMsgs peer (some cmd) }) rfl ?_ free
      rintro _ ⟨rfl⟩ certain
      exact absurd (uncertain.symm.trans certain) (by simp)
  | work key entity info machine uncertain live certain known ready beyond =>
      refine free_set slots d _ key (some { info with machine := machine, uncertain := uncertain }) rfl ?_ free
      rintro _ ⟨rfl⟩ _
      exact free key info live certain
  | insert key entity info blank =>
      refine free_set slots d _ key (some info) rfl ?_ free
      rintro _ ⟨rfl⟩ _ peer _
      rw [blank.waiting]
  | drop key info live outside => exact free_set slots d _ key none rfl (fun _ impossible => by cases impossible) free
  | evict key rest info first live certain => exact free_set slots d _ key none rfl (fun _ impossible => by cases impossible) free
  | pass key rest first absent => exact free_same slots d _ rfl free
  | oldest key info clear live certain => exact free_set slots d _ key none rfl (fun _ impossible => by cases impossible) free
  | refresh key listed => exact free_same slots d _ rfl free

theorem free_acts (slots : EntryKey → Fin n → Prop) (d e : Desk n) (acts : Acts d e) (free : Free slots d) : Free slots e := by
  induction acts with
  | refl => exact free
  | tail _ last ih => exact free_act slots _ _ last ih

end Desk

namespace Node

open Desk

-- No message waits at a certain entry.
def NoneStranded (s : Node n) : Prop := Free (fun _ _ => True) s.desk

theorem works_free (slots : EntryKey → Fin n → Prop) (s t : Node n) (works : Works s t) (free : Free slots s.desk) :
    Free slots t.desk := free_acts slots _ _ works free

-- While the slots of `peers` are still to be looked at, the other ones are free.
def Draining (key : EntryKey) (peers : List (Fin n)) : EntryKey → Fin n → Prop := fun other peer => other = key → peer ∉ peers

theorem drained_free (s : Node n) (key : EntryKey) (peers : List (Fin n)) (free : Free (Draining key peers) s.desk)
    (fine : ∀ info, s.entryInfos key = some info → info.uncertain = false → info.waitingMsgs = fun _ => none) : NoneStranded s := by
  intro other info live certain peer _
  by_cases same : other = key
  · subst same
    rw [fine info live certain]
  · exact free other info live certain peer fun equal => absurd equal same

theorem waiting_msgs_free (o : Options n) (p : EntryPtr) (peers : List (Fin n)) (s t : Node n)
    (free : Free (Draining p.key peers) s.desk) (done : handleWaitingMsgs o p peers s = some t) : NoneStranded t := by
  induction peers generalizing s with
  | nil =>
      cases done
      intro key info live certain peer _
      exact free key info live certain peer fun _ => List.not_mem_nil
  | cons peer rest ih =>
      obtain ⟨info, found, next⟩ := Option.bind_eq_some_iff.mp done
      obtain ⟨live, -⟩ := deref_some s p info found
      cases slot : info.waitingMsgs peer with
      | none =>
          rw [slot] at next
          refine ih s (fun key other here certain i allowed => ?_) next
          by_cases same : key = p.key ∧ i = peer
          · obtain ⟨rfl, rfl⟩ := same
            have equal : info = other := Option.some.inj (live.symm.trans here)
            rw [← equal]
            exact slot
          · refine free key other here certain i fun equal => ?_
            rw [List.mem_cons, not_or]
            exact ⟨fun isPeer => same ⟨equal, isPeer⟩, allowed equal⟩
      | some cmd =>
          rw [slot] at next
          obtain ⟨⟨ret, u⟩, handled, next⟩ := Option.bind_eq_some_iff.mp next
          obtain ⟨after, foundAfter, next⟩ := Option.bind_eq_some_iff.mp next
          obtain ⟨liveAfter, -⟩ := deref_some u p after foundAfter
          have taken : Free (Draining p.key rest)
              (s.setEntry p.key (some { info with waitingMsgs := Function.update info.waitingMsgs peer none })).desk := by
            intro key other here certain i allowed
            by_cases same : key = p.key
            · subst same
              have equal : { info with waitingMsgs := Function.update info.waitingMsgs peer none } = other :=
                Option.some.inj ((Function.update_self (β := fun _ => Option (EntryInfo n)) _ _ _).symm.trans here)
              subst equal
              by_cases first : i = peer
              · subst first
                exact Function.update_self _ _ _
              · simp only [Function.update_of_ne first]
                exact free p.key info live certain i fun _ => by
                  rw [List.mem_cons, not_or]
                  exact ⟨first, allowed rfl⟩
            · exact free key other ((Function.update_of_ne same _ _).symm.trans here) certain i fun equal => absurd equal same
          have handledFree := works_free _ _ u (handle_paxos_works o _ u cmd ret handled) taken
          split at next
          · rename_i uncertain
            cases next
            refine drained_free t p.key rest handledFree fun other here certain => ?_
            have equal : after = other := Option.some.inj (liveAfter.symm.trans here)
            subst equal
            rw [uncertain] at certain
            cases certain
          · exact ih u handledFree next

theorem handle_waiting_free (o : Options n) (s t : Node n) (p : EntryPtr) (free : Free (fun key _ => key ≠ p.key) s.desk)
    (done : s.handleWaitingMsg o p = some t) : NoneStranded t := by
  obtain ⟨u, drained, sized⟩ := Option.bind_eq_some_iff.mp done
  have before : Free (Draining p.key (List.finRange n)) s.desk := fun key info live certain peer allowed =>
    free key info live certain peer fun same => allowed same (List.mem_finRange peer)
  exact works_free _ u t (update_size_works o u t p sized) (waiting_msgs_free o p _ s u before drained)

theorem turns_free (codes : RetCode → Prop) (slots : EntryKey → Fin n → Prop) (d e : Desk n) (turns : Turns codes d e)
    (free : Free slots d) : Free slots e := by
  induction turns with
  | refl => exact free
  | tail _ last ih =>
      cases last with
      | act _ act => exact free_act slots _ _ act ih
      | _ => exact free_same slots _ _ rfl ih

theorem served_free (o : Options n) (slots : EntryKey → Fin n → Prop) (s t : Node n) (cmd : ClientCmd) (served : Served o s cmd t)
    (free : Free slots s.desk) : Free slots t.desk := by
  cases served with
  | aside works kind => exact works_free slots s t works free
  | rejected u code works kept effect open_ late =>
      rw [effect]
      exact free_same slots u.desk _ rfl (works_free slots s u works free)
  | armed u v entity works kept admits known kind idle early added later =>
      refine works_free slots v t later ?_
      have same : v.entryInfos = u.entryInfos := by
        obtain ⟨-, ⟨-, rfl⟩ | ⟨-, effect⟩⟩ := timer_add_desk _ v _ _ added
        · rfl
        · exact congrArg Desk.entryInfos effect
      exact free_same slots u.desk v.desk same (works_free slots s u works free)

-- After a completion every other entry is as free as before.
theorem completed_free (s u : Node n) (key : EntryKey) (p : EntryPtr) (free : NoneStranded s)
    (completed : s.completeEntry key = some (p, u)) : p.key = key ∧ Free (fun other _ => other ≠ key) u.desk := by
  obtain ⟨info, live, uncertain, about, rfl⟩ := complete_entry_spec s u key p completed
  refine ⟨about, fun other here liveHere certain peer apart => ?_⟩
  exact free other here ((Function.update_of_ne apart _ _).symm.trans liveHere) certain peer trivial

theorem cleared_free (s t : Node n) (p : EntryPtr) (free : Free (fun other _ => other ≠ p.key) s.desk)
    (cleared : s.clearEntryInfo p = some t) : NoneStranded t := by
  have entries := clear_entry_entries s t p cleared
  intro other info live certain peer _
  change t.entryInfos other = some info at live
  rw [entries] at live
  by_cases same : other = p.key
  · subst same
    rw [Function.update_self] at live
    cases live
  · rw [Function.update_of_ne same] at live
    exact free other info live certain peer same

theorem update_by_chosen_entry (o : Options n) (s t : Node n) (p : EntryPtr) (info : EntryInfo n) (live : s.entryInfos p.key = some info)
    (done : s.updateByChosenEntry o p = some t) : ∃ expired, t.entryInfos p.key = some { info with expiredTimestampSec := expired } := by
  obtain ⟨same, entity, found, owner, ⟨-, rfl⟩ | ⟨closed, mine, ⟨next, expired, effect⟩ | ⟨apart, effect⟩⟩⟩ :=
    update_by_chosen_desk o s t p done
  · exact ⟨info.expiredTimestampSec, live⟩
  · obtain ⟨liveSame, -⟩ := deref_some s p same found
    rw [live] at liveSame
    cases liveSame
    exact ⟨expired, (congrArg (fun d => Desk.entryInfos d p.key) effect).trans (Function.update_self _ _ _)⟩
  · exact ⟨info.expiredTimestampSec, (congrArg (fun d => Desk.entryInfos d p.key) effect).trans live⟩

def Waits (info : EntryInfo n) : Prop := ∃ peer cmd, info.waitingMsgs peer = some cmd

theorem not_waits (info : EntryInfo n) (idle : ¬ Waits info) : info.waitingMsgs = fun _ => none := by
  funext peer
  cases slot : info.waitingMsgs peer with
  | none => rfl
  | some cmd => exact absurd ⟨peer, cmd, slot⟩ idle

-- The completions that return before HandleWaitingMsg: a Set with nothing to send,
-- and a Get whose record the machine refuses.
def Skips (s : Node n) (cmd : PaxosCmd) (info : EntryInfo n) : Prop :=
  cmd.plogSetRecord = true ∧ cmd.result = .ok ∧ info.broadcast = false ∧ info.peerToSync = none ∨
    cmd.plogSetRecord = false ∧ ∃ entity record code machine, s.entityInfos cmd.entityId = some entity ∧
      (cmd.result = .ok ∧ record = cmd.localEntryRecord ∨ cmd.result = .implPlogNotFound ∧ record = {}) ∧
      info.machine.update entity.localAcceptorId record = some (code, machine) ∧ code ≠ .ok

-- No message waits at the entry of such a completion.
def NoneSkipped (s : Node n) (_ : Env n) : Event → Prop
  | .plogRsp index => ∀ cmd info, s.plogRsps[index]? = some cmd → cmd.plogLoad = false → s.entryInfos cmd.key = some info →
      Waits info → ¬ Skips s cmd info
  | _ => True

theorem handle_set_free (o : Options n) (s t : Node n) (cmd : PaxosCmd) (ret : RetCode) (free : NoneStranded s) (isSet : cmd.plogSetRecord = true)
    (fair : ∀ info, s.entryInfos cmd.key = some info → Waits info → ¬ Skips s cmd info)
    (done : s.handleSetFromPlog o cmd = some (ret, t)) : NoneStranded t := by
  obtain ⟨⟨p, u⟩, completed, rest⟩ := Option.bind_eq_some_iff.mp done
  obtain ⟨about, others⟩ := completed_free s u cmd.key p free completed
  rw [← about] at others
  dsimp only at rest
  split at rest
  · obtain ⟨v, cleared, rest⟩ := Option.bind_eq_some_iff.mp rest
    cases rest
    exact cleared_free u t p others cleared
  · rename_i fine
    obtain ⟨info, live, uncertain, -, effect⟩ := complete_entry_spec s u cmd.key p completed
    rw [← about] at effect
    have liveNow : u.entryInfos p.key = some { info with uncertain := false } := by
      rw [effect]
      exact Function.update_self _ _ _
    obtain ⟨v, chosen, rest⟩ := Option.bind_eq_some_iff.mp rest
    obtain ⟨w, finished, rest⟩ := Option.bind_eq_some_iff.mp rest
    obtain ⟨after, foundAfter, rest⟩ := Option.bind_eq_some_iff.mp rest
    have certain : CertainAt u p.key := fun other here => by
      rw [liveNow] at here
      cases here
      rfl
    have toChosen := works_free _ u v (update_by_chosen_works o u v p certain chosen) others
    obtain ⟨expired, liveChosen⟩ := update_by_chosen_entry o u v p _ liveNow chosen
    obtain ⟨works, entries⟩ := finish_if_chosen_works v w p finished
    have toFinished := works_free _ v w works toChosen
    obtain ⟨liveAfter, -⟩ := deref_some w p after foundAfter
    rw [entries, liveChosen] at liveAfter
    cases liveAfter
    split at rest
    · rename_i nothing
      cases rest
      -- The early return: by assumption nobody waits here.
      have idle : ¬ Waits info := fun waits => fair info live waits
        (.inl ⟨isSet, by simpa using fine, by simpa using nothing.1, nothing.2⟩)
      intro other here liveHere certainHere peer _
      by_cases same : other = p.key
      · subst same
        have equal := Option.some.inj ((entries ▸ liveChosen).symm.trans liveHere)
        rw [← equal]
        exact congrFun (not_waits info idle) peer
      · exact toFinished other here liveHere certainHere peer same
    · obtain ⟨x, synced, rest⟩ := Option.bind_eq_some_iff.mp rest
      obtain ⟨last, foundLast, rest⟩ := Option.bind_eq_some_iff.mp rest
      obtain ⟨y, drained, rest⟩ := Option.bind_eq_some_iff.mp rest
      cases rest
      refine handle_waiting_free o _ t p (free_set _ x.desk _ p.key _ rfl (fun _ _ _ _ apart => absurd rfl apart) ?_) drained
      rw [sync_after_set_desk w x p synced]
      exact toFinished

theorem handle_get_free (o : Options n) (s t : Node n) (cmd : PaxosCmd) (ret : RetCode) (free : NoneStranded s) (notSet : cmd.plogSetRecord = false)
    (fair : ∀ info, s.entryInfos cmd.key = some info → Waits info → ¬ Skips s cmd info)
    (done : s.handleGetFromPlog o cmd = some (ret, t)) : NoneStranded t := by
  obtain ⟨⟨p, u⟩, completed, rest⟩ := Option.bind_eq_some_iff.mp done
  obtain ⟨about, others⟩ := completed_free s u cmd.key p free completed
  rw [← about] at others
  dsimp only at rest
  generalize shape : (if cmd.result = .implPlogNotFound then { cmd with localEntryRecord := {}, result := .ok } else cmd) = out at rest
  obtain ⟨-, -, success⟩ := get_result cmd out shape.symm
  split at rest
  · obtain ⟨v, cleared, rest⟩ := Option.bind_eq_some_iff.mp rest
    cases rest
    exact cleared_free u t p others cleared
  · rename_i fine
    have read := success (by simpa using fine)
    obtain ⟨info, live, uncertain, -, effect⟩ := complete_entry_spec s u cmd.key p completed
    rw [← about] at effect
    have liveNow : u.entryInfos p.key = some { info with uncertain := false } := by
      rw [effect]
      exact Function.update_self _ _ _
    obtain ⟨same, found, rest⟩ := Option.bind_eq_some_iff.mp rest
    obtain ⟨liveSame, -⟩ := deref_some u p same found
    rw [liveNow] at liveSame
    cases liveSame
    obtain ⟨entity, owner, rest⟩ := Option.bind_eq_some_iff.mp rest
    obtain ⟨known, -⟩ := entity_of_some u p.key _ entity owner
    have knownBefore : s.entityInfos cmd.entityId = some entity := by
      rw [effect, about] at known
      exact known
    obtain ⟨⟨code, machine⟩, updated, rest⟩ := Option.bind_eq_some_iff.mp rest
    obtain ⟨v, replaced, rest⟩ := Option.bind_eq_some_iff.mp rest
    obtain ⟨w, sized, rest⟩ := Option.bind_eq_some_iff.mp rest
    obtain ⟨again, foundAgain, shapeV⟩ := set_machine_spec u v p machine replaced
    obtain ⟨liveAgain, -⟩ := deref_some u p again foundAgain
    rw [liveNow] at liveAgain
    cases liveAgain
    have toMachine : Free (fun other _ => other ≠ p.key) v.desk := by
      rw [shapeV]
      exact free_set _ u.desk _ p.key _ rfl (fun _ _ _ _ apart => absurd rfl apart) others
    have toSized := works_free _ v w (update_size_works o v w p sized) toMachine
    obtain ⟨last, size, foundLast, sizes⟩ := update_memory_size_spec o v w p sized
    obtain ⟨liveLast, -⟩ := deref_some v p last foundLast
    have liveMachine : v.entryInfos p.key = some { info with uncertain := false, machine := machine } := by
      rw [shapeV]
      exact Function.update_self _ _ _
    rw [liveMachine] at liveLast
    cases liveLast
    have liveSized : w.entryInfos p.key = some { info with uncertain := false, machine := machine, totalSize := size } :=
      (congrArg (fun d => Site.entryInfos d p.key) (sizes [])).trans (Function.update_self _ _ _)
    dsimp only at rest
    split at rest
    · rename_i refused
      cases rest
      have idle : ¬ Waits info := fun waits => fair info live waits
        (.inr ⟨notSet, entity, out.localEntryRecord, ret, machine, knownBefore, read, updated, refused⟩)
      intro other here liveHere certainHere peer _
      by_cases same : other = p.key
      · subst same
        have equal := Option.some.inj (liveSized.symm.trans liveHere)
        rw [← equal]
        exact congrFun (not_waits info idle) peer
      · exact toSized other here liveHere certainHere peer same
    · obtain ⟨x, chosen, rest⟩ := Option.bind_eq_some_iff.mp rest
      obtain ⟨y, drained, rest⟩ := Option.bind_eq_some_iff.mp rest
      obtain ⟨final, foundFinal, rest⟩ := Option.bind_eq_some_iff.mp rest
      obtain ⟨home, ownerFinal, rest⟩ := Option.bind_eq_some_iff.mp rest
      obtain ⟨z, caught, rest⟩ := Option.bind_eq_some_iff.mp rest
      cases rest
      have certain : CertainAt w p.key := fun other here => by
        rw [liveSized] at here
        cases here
        rfl
      have toChosen := works_free _ w x (update_by_chosen_works o w x p certain chosen) toSized
      exact works_free _ y t (try_catchup_works o y t _ caught) (handle_waiting_free o x y p toChosen drained)

theorem handle_free (o : Options n) (s t : Node n) (env : Env n) (event : Event) (once : Once s.desk) (free : NoneStranded s)
    (fair : NoneSkipped s env event) (done : s.handle o env event = some t) : NoneStranded t := by
  have at_clock : Free (fun _ _ => True) { s.desk with now := env.nowMsec } := free
  cases handle_desk o (fun _ => True) s t env event (once_nodup _ once) (fun _ _ _ _ _ _ => trivial) done with
  | client cmdId entityId entry timestampUsec timeoutMsec value uuids kind served => exact served_free o _ _ t _ served at_clock
  | message cmd works => exact works_free _ _ t works at_clock
  | plog index maxCommittedEntry outcome same => rw [NoneStranded, same]; exact free
  | completion index cmd next notLoad drains =>
      obtain ⟨same, nextSame, rest⟩ := Option.bind_eq_some_iff.mp done
      rw [next] at nextSame
      cases nextSame
      obtain ⟨⟨ret, u⟩, handled, same⟩ := Option.bind_eq_some_iff.mp rest
      cases same
      rw [handlePlogRspCmd, notLoad] at handled
      simp only [Bool.false_eq_true, if_false] at handled
      have fairHere : ∀ info, s.entryInfos cmd.key = some info → Waits info → ¬ Skips s cmd info :=
        fun info live => fair cmd info next notLoad live
      split at handled
      · rename_i isSet
        exact handle_set_free o { s with env := env, plogRsps := s.plogRsps.eraseIdx index } t cmd ret free isSet fairHere handled
      · rename_i notSet
        split at handled
        · exact handle_get_free o { s with env := env, plogRsps := s.plogRsps.eraseIdx index } t cmd ret free (by simpa using notSet)
            fairHere handled
        · cases handled
          exact free
  | load index turns => exact turns_free _ _ _ _ turns at_clock
  | parked index cmd u entity client next isLoad parkedAt known asking served =>
      have turns := parked_at_turns (fun _ => True) o _ u cmd parkedAt
      exact served_free o _ _ t _ served (free_same _ u.desk _ rfl (turns_free _ _ _ _ turns at_clock))
  | recover index maxCommittedEntry result same => rw [NoneStranded, same]; exact free
  | recovered index turns => exact turns_free _ _ _ _ turns at_clock
  | tick next turns => exact turns_free _ _ _ _ turns at_clock

-- In every run in which no completion with messages waiting at its entry returns
-- early, a certain entry has no message waiting.
theorem waiting_msgs_served (o : Options n) (s : Node n) (reached : Reached o NoneSkipped s) :
    ∀ key info, s.entryInfos key = some info → info.uncertain = false → ∀ peer, info.waitingMsgs peer = none := by
  have free : NoneStranded s :=
    reached_invariant o NoneSkipped NoneStranded (fun _ _ _ live => by cases live)
      (fun s t env event before free fair done => handle_free o s t env event (reached_once o _ s before) free fair done) s reached
  exact fun key info live certain peer => free key info live certain peer trivial

-- A peer that knows the record this server makes of its message asks, and another
-- peer's message comes while the Set is in flight.
def agreedMsg : PaxosCmd :=
  { entityId := 0, entry := 1, localAcceptorId := 1, peerAcceptorId := 0
    localEntryRecord := { preparedNum := 2, promisedNum := 2 }, peerEntryRecord := { promisedNum := 2 } }

def laterMsg : PaxosCmd :=
  { entityId := 0, entry := 1, localAcceptorId := 2, peerAcceptorId := 0
    localEntryRecord := { preparedNum := 3, promisedNum := 3 } }

def strandingRun : List (Env 3 × Event) :=
  [({}, .paxosCmd agreedMsg), ({}, .plogReq 0 0 .ok), ({}, .plogRsp 0), ({}, .paxosCmd laterMsg), ({}, .plogReq 0 0 .ok), ({}, .plogRsp 0)]

def waitingAt (key : EntryKey) (peer : Fin n) (s : Node n) : Option (Bool × Option PaxosCmd) :=
  (s.entryInfos key).map fun info => (info.uncertain, info.waitingMsgs peer)

theorem waiting_msg_stranded :
    ¬ ∀ s : Node 3, Reached {} Any s → ∀ key info, s.entryInfos key = some info → info.uncertain = false →
      ∀ peer, info.waitingMsgs peer = none := by
  intro claim
  have ends : (runEvents {} unchecked strandingRun (start fun _ => 0)).bind (waitingAt ⟨0, 1⟩ 2) =
      some (false, some (laterMsg.switchToLocalView 0)) := by decide +kernel
  obtain ⟨s, run, seen⟩ := Option.bind_eq_some_iff.mp ends
  obtain ⟨info, live, shape⟩ := Option.map_eq_some_iff.mp seen
  have free := claim s (unchecked_reached {} strandingRun _ s (.start _) run) ⟨0, 1⟩ info live (congrArg Prod.fst shape) 2
  rw [show info.waitingMsgs 2 = _ from congrArg Prod.snd shape] at free
  cases free

-- A completion that answers a peer, or at whose entry no message waits.
def serving (s : Node n) : Event → Bool
  | .plogRsp index =>
      (s.plogRsps[index]?).all fun cmd => cmd.plogLoad || (s.entryInfos cmd.key).all fun info =>
        cmd.plogSetRecord && (info.broadcast || info.peerToSync.isSome) ||
          (List.finRange n).all fun peer => (info.waitingMsgs peer).isNone
  | _ => true

theorem serving_sound (s : Node n) (env : Env n) (event : Event) (serves : serving s event = true) : NoneSkipped s env event := by
  cases event with
  | plogRsp index =>
      rintro cmd info next notLoad live ⟨peer, msg, slot⟩ skips
      simp only [serving, next, live, Option.all_some, notLoad, Bool.false_or, Bool.or_eq_true, Bool.and_eq_true, List.all_eq_true] at serves
      rcases serves with ⟨isSet, answers⟩ | idle
      · rcases skips with ⟨-, -, quiet, nobody⟩ | ⟨notSet, -⟩
        · rw [quiet, nobody] at answers
          simp at answers
        · rw [isSet] at notSet
          cases notSet
      · have none_ := idle peer (List.mem_finRange peer)
        rw [slot] at none_
        cases none_
  | _ => trivial

-- The same with a peer that does not know the record yet: it is answered, and then the other one.
def servingRun : List (Env 3 × Event) :=
  [({}, .paxosCmd { agreedMsg with peerEntryRecord := {} }), ({}, .plogReq 0 0 .ok), ({}, .plogRsp 0), ({}, .paxosCmd laterMsg),
    ({}, .plogReq 0 0 .ok), ({}, .plogRsp 0), ({}, .plogReq 0 0 .ok), ({}, .plogRsp 0)]

theorem later_msg_served :
    ∃ s : Node 3, runEvents {} serving servingRun (start fun _ => 0) = some s ∧
      (∀ key info, s.entryInfos key = some info → info.uncertain = false → ∀ peer, info.waitingMsgs peer = none) ∧
      waitingAt ⟨0, 1⟩ 2 s = some (false, none) := by
  have ends : (runEvents {} serving servingRun (start fun _ => 0)).bind (waitingAt ⟨0, 1⟩ 2) = some (false, none) := by decide +kernel
  obtain ⟨s, run, seen⟩ := Option.bind_eq_some_iff.mp ends
  exact ⟨s, run, waiting_msgs_served {} s (run_reached {} serving NoneSkipped serving_sound servingRun _ s (.start _) run), seen⟩

end Node

end PaxosStore.Certain
