import PaxosStore.Certain.MessageActs
import PaxosStore.Certain.EventMoves

set_option autoImplicit false

namespace PaxosStore.Certain

variable {n : Nat}

namespace Desk

-- The changes that the timer and the loads make. `codes` are the failures a load
-- may end with.
inductive Turn (codes : RetCode → Prop) (d : Desk n) : Desk n → Prop where
  | act (e : Desk n) (act : Act d e) : Turn codes d e
  | expire (entityId deadline : Nat) (entity : EntityInfo n) (client : ClientCmd) (listed : (entityId, deadline) ∈ d.timer)
      (due : deadline ≤ d.now) (known : d.entityInfos entityId = some entity) (asking : entity.clientCmd = some client) :
      Turn codes d (({ d with timer := d.timer.filter fun elt => elt ≠ (entityId, deadline) }.setEntity entityId
        (some { entity with clientCmd := none })).answer { client with result := .timeout })
  | stale (entityId deadline : Nat) (entity : EntityInfo n) (listed : (entityId, deadline) ∈ d.timer)
      (known : d.entityInfos entityId = some entity) (idle : entity.clientCmd = none) :
      Turn codes d { d with timer := d.timer.filter fun elt => elt ≠ (entityId, deadline) }
  | recovered (entityId entry timestamp : Nat) (old : EntityInfo n) (known : d.entityInfos entityId = some old) :
      Turn codes d (d.setEntity entityId (some (Site.recoveredBy old entry timestamp)))
  | loaded (entityId maxPlogEntry maxCommittedEntry : Nat) (old : EntityInfo n) (known : d.entityInfos entityId = some old)
      (loading : old.loading = true) :
      Turn codes d (d.setEntity entityId (some (Node.updateByLoadFromPlog { old with loading := false } maxPlogEntry maxCommittedEntry)))
  | lost (entityId : Nat) (old : EntityInfo n) (client : ClientCmd) (result : RetCode) (known : d.entityInfos entityId = some old)
      (loading : old.loading = true) (asking : old.clientCmd = some client) (code : codes result) :
      Turn codes d ((d.finish entityId old client result).setEntity entityId none)
  | closed (entityId : Nat) (old : EntityInfo n) (known : d.entityInfos entityId = some old)
      (loading : old.loading = true) (idle : old.clientCmd = none) : Turn codes d (d.setEntity entityId none)

def Turns (codes : RetCode → Prop) : Desk n → Desk n → Prop := Relation.ReflTransGen (Turn codes)

theorem acts_turns (codes : RetCode → Prop) (d e : Desk n) (acts : Acts d e) : Turns codes d e := by
  induction acts with
  | refl => exact .refl
  | tail _ last ih => exact .tail ih (.act _ last)

theorem turns_trans (codes : RetCode → Prop) (d e f : Desk n) (first : Turns codes d e) (second : Turns codes e f) : Turns codes d f :=
  Relation.ReflTransGen.trans first second

-- The changes that the plog completions make.
inductive Drain (d : Desk n) : Desk n → Prop where
  | act (e : Desk n) (act : Act d e) : Drain d e
  | unslot (key : EntryKey) (info : EntryInfo n) (peer : Fin n) (live : d.entryInfos key = some info) :
      Drain d (d.setEntry key (some { info with waitingMsgs := Function.update info.waitingMsgs peer none }))
  | complete (key : EntryKey) (info : EntryInfo n) (machine : EntryStateMachine n) (live : d.entryInfos key = some info)
      (uncertain : info.uncertain = true) :
      Drain d (d.setEntry key (some { info with uncertain := false, machine := machine }))

def Drains : Desk n → Desk n → Prop := Relation.ReflTransGen Drain

theorem acts_drains (d e : Desk n) (acts : Acts d e) : Drains d e := by
  induction acts with
  | refl => exact .refl
  | tail _ last ih => exact .tail ih (.act _ last)

theorem drains_trans (d e f : Desk n) (first : Drains d e) (second : Drains e f) : Drains d f :=
  Relation.ReflTransGen.trans first second

end Desk

namespace Node

open Desk

theorem timer_add_desk (s t : Node n) (entityId timeoutMsec : Nat) (done : s.timerAdd entityId timeoutMsec = some t) :
    timeoutMsec ≤ kMaxTimeoutMsec ∧
      ((∃ deadline, (entityId, deadline) ∈ s.timer) ∧ t = s ∨
        (∀ deadline, (entityId, deadline) ∉ s.timer) ∧
          t.desk = { s.desk with timer := s.timer ++ [(entityId, s.env.nowMsec + timeoutMsec)] }) := by
  rw [timerAdd] at done
  split at done
  · cases done
  · rename_i short
    refine ⟨Nat.le_of_not_lt short, ?_⟩
    split at done
    · rename_i there
      cases done
      obtain ⟨elt, listed, same⟩ := List.any_eq_true.mp there
      refine .inl ⟨⟨elt.2, ?_⟩, rfl⟩
      rw [← of_decide_eq_true same]
      exact listed
    · rename_i missing
      cases done
      refine .inr ⟨fun deadline listed => missing ?_, rfl⟩
      exact List.any_eq_true.mpr ⟨(entityId, deadline), listed, decide_eq_true rfl⟩

-- The commands that are answered through the response queue in any case.
def Awaited (cmd : ClientCmd) : Prop := cmd.cmdId ≠ .catchup ∧ cmd.cmdId ≠ .recover ∧ cmd.cmdId ≠ .dumpEntry

instance (cmd : ClientCmd) : Decidable (Awaited cmd) := by
  unfold Awaited
  infer_instance

def timeoutOf (o : Options n) (cmd : ClientCmd) : Nat := if cmd.timeoutMsec = 0 then o.clientCmdTimeoutMsec else cmd.timeoutMsec

-- The entity can take a command: it holds none, or it can be made.
def Admits (s : Node n) (entityId : Nat) : Prop :=
  match s.entityInfos entityId with
  | some entity => entity.clientCmd = none
  | none => s.ask.1 = false ∧ s.ask.2.ask.1 = false

-- What HandleClientCmd does with a command. The entity is there before or made first.
inductive Served (o : Options n) (s : Node n) (cmd : ClientCmd) (t : Node n) : Prop where
  | aside (works : Works s t) (kind : ¬ Awaited cmd)
  | rejected (u : Node n) (code : RetCode) (works : Works s u)
      (kept : ∀ entity, s.entityInfos cmd.entityId = some entity → u = s)
      (effect : t.desk = u.desk.answer { cmd with result := code })
      (free : ∀ entity, s.entityInfos cmd.entityId = some entity → entity.clientCmd = none → code = .timeout)
      (late : code = .timeout → timeoutOf o cmd < elapsedMsec u.env.nowMsec cmd.timestampUsec)
  | armed (u v : Node n) (entity : EntityInfo n) (works : Works s u)
      (kept : ∀ entity, s.entityInfos cmd.entityId = some entity → u = s) (admits : Admits s cmd.entityId)
      (known : u.entityInfos cmd.entityId = some entity) (kind : Awaited cmd) (idle : entity.clientCmd = none)
      (early : elapsedMsec u.env.nowMsec cmd.timestampUsec ≤ timeoutOf o cmd)
      (added : (u.setEntity cmd.entityId (some { entity with clientCmd := some cmd })).timerAdd cmd.entityId
        (u32 (timeoutOf o cmd - elapsedMsec u.env.nowMsec cmd.timestampUsec)) = some v) (later : Works v t)

theorem handle_client_served (o : Options n) (s t : Node n) (cmd : ClientCmd) (ret : RetCode)
    (done : s.handleClientCmd o cmd = some (ret, t)) : Served o s cmd t := by
  obtain ⟨⟨code, u⟩, made, rest⟩ := Option.bind_eq_some_iff.mp done
  have entered := entity_if_miss_entered o s u cmd.entityId code made
  have kept : ∀ entity, s.entityInfos cmd.entityId = some entity → u = s := fun entity known => (entered.known entity known).1
  dsimp only at rest
  split at rest
  · rename_i failed
    cases rest
    exact .rejected u ret entered.works kept (finish_cmd_desk u cmd ret) (fun entity known => absurd (entered.known entity known).2 failed)
      fun late => absurd late entered.inTime
  · rename_i made
    have made : code = .ok := by simpa using made
    obtain ⟨entity, known, rest⟩ := Option.bind_eq_some_iff.mp rest
    split at rest
    · rename_i kind
      refine .aside ?_ fun awaited => awaited.1 kind
      split at rest
      · cases rest
        exact entered.works
      · obtain ⟨v, caught, rest⟩ := Option.bind_eq_some_iff.mp rest
        cases rest
        exact works_trans s u t entered.works (try_catchup_works o u t _ caught)
    · rename_i notCatchup
      split at rest
      · rename_i kind
        exact .aside (works_trans s u t entered.works (trigger_recover_works u t _ ret rest)) fun awaited => awaited.2.1 kind
      · rename_i notRecover
        split at rest
        · rename_i kind
          obtain ⟨v, dumped, rest⟩ := Option.bind_eq_some_iff.mp rest
          cases rest
          exact .aside (works_trans s u t entered.works (dump_works o u t cmd dumped)) fun awaited => awaited.2.2 kind
        · rename_i notDump
          split at rest
          · rename_i busy
            cases rest
            refine .rejected u .clientCmdConflict entered.works kept (finish_cmd_desk u cmd _) (fun other here free => ?_) (by simp)
            rw [kept other here, here] at known
            cases known
            rw [free] at busy
            cases busy
          · rename_i idle
            have idle : entity.clientCmd = none := by simpa using idle
            rw [show (if cmd.timeoutMsec = 0 then o.clientCmdTimeoutMsec else cmd.timeoutMsec) = timeoutOf o cmd from rfl] at rest
            split at rest
            · rename_i late
              cases rest
              exact .rejected u .timeout entered.works kept (finish_cmd_desk u cmd _) (fun _ _ _ => rfl) fun _ => late
            · rename_i early
              obtain ⟨v, added, rest⟩ := Option.bind_eq_some_iff.mp rest
              have admits : Admits s cmd.entityId := by
                rw [Admits]
                split
                · rename_i other here
                  rw [kept other here, here] at known
                  cases known
                  exact idle
                · rename_i absent
                  exact entered.allowed absent made
              refine .armed u v entity entered.works kept admits known ⟨notCatchup, notRecover, notDump⟩ idle (Nat.le_of_not_lt early) added ?_
              split at rest
              · cases rest
                exact works_refl _
              · rename_i ready
                refine start_client_works o v t cmd ret (fun other here => ?_) rest
                have entities : v.entityInfos = Function.update u.entityInfos cmd.entityId (some { entity with clientCmd := some cmd }) := by
                  obtain ⟨-, ⟨-, rfl⟩ | ⟨-, effect⟩⟩ := timer_add_desk _ v _ _ added
                  · rfl
                  · exact congrArg Desk.entityInfos effect
                rw [entities, Function.update_self, Option.some.injEq] at here
                subst here
                simpa using ready

theorem clear_entry_entries (s t : Node n) (p : EntryPtr) (done : s.clearEntryInfo p = some t) :
    t.entryInfos = Function.update s.entryInfos p.key none := by
  obtain ⟨info, found, rest⟩ := Option.bind_eq_some_iff.mp done
  obtain ⟨entity, owner, rest⟩ := Option.bind_eq_some_iff.mp rest
  obtain ⟨u, cleaned, rest⟩ := Option.bind_eq_some_iff.mp rest
  obtain ⟨entries, -, -⟩ := finish_entry_keeps _ u p.key _ cleaned
  obtain ⟨last, foundLast, gone⟩ := destroy_desk u t p rest
  have after : t.entryInfos = Function.update u.entryInfos p.key none := congrArg Desk.entryInfos gone
  rw [after, entries]
  rfl

-- A plog operation failed: the entry that waited for it goes.
theorem failed_drains (s u t : Node n) (key : EntryKey) (p : EntryPtr)
    (completed : s.completeEntry key = some (p, u)) (cleared : u.clearEntryInfo p = some t) : Drains s.desk t.desk := by
  obtain ⟨info, live, uncertain, rfl, rfl⟩ := complete_entry_spec s u key p completed
  obtain ⟨same, found, rest⟩ := Option.bind_eq_some_iff.mp cleared
  obtain ⟨entity, owner, rest⟩ := Option.bind_eq_some_iff.mp rest
  obtain ⟨v, cleaned, rest⟩ := Option.bind_eq_some_iff.mp rest
  obtain ⟨last, foundLast, gone⟩ := destroy_desk v t p rest
  obtain ⟨liveLast, -⟩ := deref_some v p last foundLast
  -- The answer to the client does not look at the entry, so it may come first.
  have answered : ∃ d : Desk n, Acts s.desk d ∧ v.desk = d.setEntry p.key (some { info with uncertain := false }) ∧ d.entryInfos = s.entryInfos := by
    obtain ⟨owner, knownOwner, finished⟩ := Option.bind_eq_some_iff.mp cleaned
    have nothing : v.desk = (s.setEntry p.key (some { info with uncertain := false })).desk →
        ∃ d : Desk n, Acts s.desk d ∧ v.desk = d.setEntry p.key (some { info with uncertain := false }) ∧ d.entryInfos = s.entryInfos :=
      fun same => ⟨s.desk, .refl, same, rfl⟩
    cases asking : owner.clientCmd with
    | none =>
        simp only [asking, Option.some.injEq] at finished
        exact nothing (by rw [← finished]; rfl)
    | some client =>
        simp only [asking] at finished
        split at finished
        · obtain ⟨again, knownAgain, ⟨idle, -⟩ | ⟨cmd, askingAgain, effect⟩⟩ := finish_client_desk _ v _ _ finished
          · rw [knownOwner] at knownAgain
            cases knownAgain
            rw [asking] at idle
            cases idle
          · refine ⟨s.desk.finish p.key.entityId again cmd .entryCleanup, .single (.finish _ again cmd _ knownAgain askingAgain (by simp)), ?_, rfl⟩
            rw [effect]
            rfl
        · cases finished
          exact nothing rfl
  obtain ⟨d, acts, effect, entries⟩ := answered
  have entriesLast : v.entryInfos = Function.update d.entryInfos p.key (some { info with uncertain := false }) := congrArg Desk.entryInfos effect
  rw [entriesLast, Function.update_self] at liveLast
  cases liveLast
  refine drains_trans _ d _ (acts_drains _ d acts) (.single (.act _ ?_))
  have final : t.desk = d.erase p.key info := by
    rw [gone, effect]
    simp [erase, Desk.setEntry]
  rw [final]
  exact .drop p.key info (by rw [entries]; exact live) (.inl uncertain)

theorem waiting_msgs_drains (o : Options n) (p : EntryPtr) (peers : List (Fin n)) (s t : Node n)
    (done : handleWaitingMsgs o p peers s = some t) : Drains s.desk t.desk := by
  induction peers generalizing s with
  | nil =>
      cases done
      exact .refl
  | cons peer rest ih =>
      obtain ⟨info, found, next⟩ := Option.bind_eq_some_iff.mp done
      obtain ⟨live, -⟩ := deref_some s p info found
      cases slot : info.waitingMsgs peer with
      | none =>
          rw [slot] at next
          exact ih s next
      | some cmd =>
          rw [slot] at next
          obtain ⟨⟨ret, u⟩, handled, next⟩ := Option.bind_eq_some_iff.mp next
          obtain ⟨after, foundAfter, next⟩ := Option.bind_eq_some_iff.mp next
          have taken : Drains s.desk u.desk :=
            .head (.unslot p.key info peer live) (acts_drains _ _ (handle_paxos_works o _ u cmd ret handled))
          split at next
          · cases next
            exact taken
          · exact drains_trans _ u.desk _ taken (ih u next)

theorem handle_waiting_drains (o : Options n) (s t : Node n) (p : EntryPtr) (done : s.handleWaitingMsg o p = some t) :
    Drains s.desk t.desk := by
  obtain ⟨u, drained, sized⟩ := Option.bind_eq_some_iff.mp done
  exact drains_trans _ u.desk _ (waiting_msgs_drains o p _ s u drained) (acts_drains _ _ (update_size_works o u t p sized))

-- A plog completion calls HandleWaitingMsg for the entry `p` in the state `t`.
inductive Resumes (o : Options n) (s : Node n) (cmd : PaxosCmd) (p : EntryPtr) : Node n → Prop where
  | get (u v w t : Node n) (info : EntryInfo n) (entity : EntityInfo n) (record : EntryRecord) (machine : EntryStateMachine n)
      (notSet : cmd.plogSetRecord = false) (completed : s.completeEntry cmd.key = some (p, u))
      (read : cmd.result = .ok ∧ record = cmd.localEntryRecord ∨ cmd.result = .implPlogNotFound ∧ record = {})
      (found : u.deref p = some info) (owner : u.entityOf p.key info = some entity)
      (loaded : info.machine.update entity.localAcceptorId record = some (.ok, machine)) (replaced : u.setMachine p machine = some v)
      (sized : v.updateMemorySize o p = some w) (chosen : w.updateByChosenEntry o p = some t) : Resumes o s cmd p t
  | set (u v w x : Node n) (info after : EntryInfo n) (isSet : cmd.plogSetRecord = true) (stored : cmd.result = .ok)
      (completed : s.completeEntry cmd.key = some (p, u)) (chosen : u.updateByChosenEntry o p = some v) (answered : v.finishIfChosen p = some w)
      (found : w.deref p = some info) (busy : ¬ (info.broadcast = false ∧ info.peerToSync = none)) (synced : w.syncAfterSet p = some x)
      (foundAfter : x.deref p = some after) :
      Resumes o s cmd p (x.setEntry p.key (some { after with broadcast := false, compensateMsgs := false, peerToSync := none }))

-- The Get's record is in the machine.
theorem loaded_drains (o : Options n) (s u v w : Node n) (key : EntryKey) (p : EntryPtr) (machine : EntryStateMachine n)
    (completed : s.completeEntry key = some (p, u)) (replaced : u.setMachine p machine = some v)
    (sized : v.updateMemorySize o p = some w) : Drains s.desk w.desk ∧ CertainAt w p.key := by
  obtain ⟨info, live, uncertain, about, effect⟩ := complete_entry_spec s u key p completed
  rw [← about] at live effect
  subst effect
  obtain ⟨same, found, replaced⟩ := Option.bind_eq_some_iff.mp replaced
  obtain ⟨liveSame, -⟩ := deref_some _ p same found
  simp only [setEntry, Function.update_self, Option.some.injEq] at liveSame
  subst liveSame
  cases replaced
  constructor
  · refine .head (.complete p.key info machine live uncertain) ?_
    have acts := update_size_works o _ w p sized
    have same : (((s.setEntry p.key (some { info with uncertain := false })).setEntry p.key
        (some { info with uncertain := false, machine := machine })).desk) =
        s.desk.setEntry p.key (some { info with uncertain := false, machine := machine }) := by
      simp [desk, setEntry, Desk.setEntry]
    rw [Works, same] at acts
    exact acts_drains _ _ acts
  · refine (update_size_keeps o _ w p sized).2 p.key fun other here => ?_
    simp only [setEntry, Function.update_self, Option.some.injEq] at here
    rw [← here]

-- A Set's entry is certain again and its chosen record known to the entity.
theorem stored_drains (o : Options n) (s u v : Node n) (key : EntryKey) (p : EntryPtr)
    (completed : s.completeEntry key = some (p, u)) (chosen : u.updateByChosenEntry o p = some v) : Drains s.desk v.desk := by
  obtain ⟨info, live, uncertain, about, effect⟩ := complete_entry_spec s u key p completed
  rw [← about] at live effect
  subst effect
  have certain : CertainAt (s.setEntry p.key (some { info with uncertain := false })) p.key := fun other here => by
    simp only [setEntry, Function.update_self, Option.some.injEq] at here
    rw [← here]
  exact .head (.complete p.key info info.machine live uncertain) (acts_drains _ _ (update_by_chosen_works o _ v p certain chosen))

theorem finish_if_chosen_works (s t : Node n) (p : EntryPtr) (done : s.finishIfChosen p = some t) :
    Works s t ∧ t.entryInfos = s.entryInfos := by
  obtain ⟨info, found, rest⟩ := Option.bind_eq_some_iff.mp done
  split at rest
  · cases rest
    exact ⟨works_refl s, rfl⟩
  · split at rest
    · cases rest
    · obtain ⟨entity, owner, rest⟩ := Option.bind_eq_some_iff.mp rest
      split at rest
      · cases rest
        exact ⟨works_refl s, rfl⟩
      · split at rest
        · exact ⟨finish_client_works s t _ _ (by simp) rest, (finish_client_keeps s t _ _ rest).1⟩
        · cases rest
          exact ⟨works_refl s, rfl⟩

theorem sync_after_set_desk (s t : Node n) (p : EntryPtr) (done : s.syncAfterSet p = some t) : t.desk = s.desk := by
  obtain ⟨info, found, rest⟩ := Option.bind_eq_some_iff.mp done
  split at rest
  · exact broadcast_desk s t p false rest
  · split at rest
    · split at rest
      · exact broadcast_on_accept_desk s t p rest
      · split at rest
        · exact broadcast_on_chosen_desk s t p rest
        · cases rest
          rfl
    · obtain ⟨peer, _, rest⟩ := Option.bind_eq_some_iff.mp rest
      exact sync_desk s t p peer false false rest

theorem resumes_drains (o : Options n) (s t : Node n) (cmd : PaxosCmd) (p : EntryPtr) (resumes : Resumes o s cmd p t) :
    Drains s.desk t.desk := by
  cases resumes with
  | get u v w t info entity record machine notSet completed read found owner loaded replaced sized chosen =>
      obtain ⟨toSized, certain⟩ := loaded_drains o s u v w cmd.key p machine completed replaced sized
      exact drains_trans _ w.desk _ toSized (acts_drains _ _ (update_by_chosen_works o w t p certain chosen))
  | set u v w x info after isSet stored completed chosen answered found busy synced foundAfter =>
      obtain ⟨liveAfter, -⟩ := deref_some x p after foundAfter
      have toFinished := drains_trans _ v.desk _ (stored_drains o s u v cmd.key p completed chosen)
        (acts_drains _ _ (finish_if_chosen_works v w p answered).1)
      have toSynced : Drains s.desk x.desk := by
        rw [sync_after_set_desk w x p synced]
        exact toFinished
      exact .tail toSynced (.act _ (.book p.key after _ liveAfter ⟨rfl, rfl, rfl, rfl, rfl, rfl⟩))

theorem handle_get_drains (o : Options n) (s t : Node n) (cmd : PaxosCmd) (ret : RetCode) (notSet : cmd.plogSetRecord = false)
    (done : s.handleGetFromPlog o cmd = some (ret, t)) : Drains s.desk t.desk := by
  obtain ⟨⟨p, u⟩, completed, rest⟩ := Option.bind_eq_some_iff.mp done
  dsimp only at rest
  have read : ∀ out : PaxosCmd, (if cmd.result = .implPlogNotFound then { cmd with localEntryRecord := {}, result := .ok } else cmd) = out →
      out.result = .ok → cmd.result = .ok ∧ out.localEntryRecord = cmd.localEntryRecord ∨
        cmd.result = .implPlogNotFound ∧ out.localEntryRecord = {} := by
    rintro out rfl fine
    split at fine
    · rename_i missing
      exact .inr ⟨missing, by rw [if_pos missing]⟩
    · rename_i there
      exact .inl ⟨fine, by rw [if_neg there]⟩
  generalize (if cmd.result = .implPlogNotFound then { cmd with localEntryRecord := {}, result := .ok } else cmd) = out at rest read
  split at rest
  · obtain ⟨v, cleared, rest⟩ := Option.bind_eq_some_iff.mp rest
    cases rest
    exact failed_drains s u t cmd.key p completed cleared
  · rename_i fine
    have fine : out.result = .ok := by simpa using fine
    obtain ⟨info, found, rest⟩ := Option.bind_eq_some_iff.mp rest
    obtain ⟨entity, owner, rest⟩ := Option.bind_eq_some_iff.mp rest
    obtain ⟨⟨code, machine⟩, updated, rest⟩ := Option.bind_eq_some_iff.mp rest
    obtain ⟨v, replaced, rest⟩ := Option.bind_eq_some_iff.mp rest
    obtain ⟨w, sized, rest⟩ := Option.bind_eq_some_iff.mp rest
    dsimp only at rest
    split at rest
    · cases rest
      exact (loaded_drains o s u v t cmd.key p machine completed replaced sized).1
    · rename_i accepted
      have accepted : code = .ok := by simpa using accepted
      rw [accepted] at updated
      obtain ⟨x, chosen, rest⟩ := Option.bind_eq_some_iff.mp rest
      obtain ⟨y, drained, rest⟩ := Option.bind_eq_some_iff.mp rest
      obtain ⟨last, foundLast, rest⟩ := Option.bind_eq_some_iff.mp rest
      obtain ⟨home, ownerLast, rest⟩ := Option.bind_eq_some_iff.mp rest
      obtain ⟨z, caught, rest⟩ := Option.bind_eq_some_iff.mp rest
      cases rest
      have toChosen := resumes_drains o s x cmd p
        (.get u v w x info entity out.localEntryRecord machine notSet completed (read out rfl fine) found owner updated replaced sized chosen)
      have toDrained := drains_trans _ x.desk _ toChosen (handle_waiting_drains o x y p drained)
      exact drains_trans _ y.desk _ toDrained (acts_drains _ _ (try_catchup_works o y t _ caught))

theorem handle_set_drains (o : Options n) (s t : Node n) (cmd : PaxosCmd) (ret : RetCode) (isSet : cmd.plogSetRecord = true)
    (done : s.handleSetFromPlog o cmd = some (ret, t)) : Drains s.desk t.desk := by
  obtain ⟨⟨p, u⟩, completed, rest⟩ := Option.bind_eq_some_iff.mp done
  dsimp only at rest
  split at rest
  · obtain ⟨v, cleared, rest⟩ := Option.bind_eq_some_iff.mp rest
    cases rest
    exact failed_drains s u t cmd.key p completed cleared
  · rename_i stored
    obtain ⟨v, chosen, rest⟩ := Option.bind_eq_some_iff.mp rest
    obtain ⟨w, finished, rest⟩ := Option.bind_eq_some_iff.mp rest
    obtain ⟨after, foundAfter, rest⟩ := Option.bind_eq_some_iff.mp rest
    split at rest
    · cases rest
      exact drains_trans _ v.desk _ (stored_drains o s u v cmd.key p completed chosen)
        (acts_drains _ _ (finish_if_chosen_works v t p finished).1)
    · rename_i busy
      obtain ⟨x, synced, rest⟩ := Option.bind_eq_some_iff.mp rest
      obtain ⟨last, foundLast, rest⟩ := Option.bind_eq_some_iff.mp rest
      obtain ⟨y, drained, rest⟩ := Option.bind_eq_some_iff.mp rest
      cases rest
      have resumes : Resumes o s cmd p (x.setEntry p.key (some { last with broadcast := false, compensateMsgs := false, peerToSync := none })) :=
        .set u v w x after last isSet (by simpa using stored) completed chosen finished foundAfter (by simpa using busy) synced foundLast
      exact drains_trans _ _ _ (resumes_drains o s _ cmd p resumes) (handle_waiting_drains o _ t p drained)

theorem handle_recover_turns (codes : RetCode → Prop) (o : Options n) (s t : Node n) (cmd : PaxosCmd) (ret : RetCode)
    (done : s.handleRecoverRspCmd o cmd = some (ret, t)) : Turns codes s.desk t.desk := by
  obtain ⟨⟨code, u⟩, made, rest⟩ := Option.bind_eq_some_iff.mp done
  have entered := acts_turns codes _ _ (entity_if_miss_entered o s u cmd.entityId code made).works
  dsimp only at rest
  split at rest
  · cases rest
    exact entered
  · obtain ⟨entity, known, rest⟩ := Option.bind_eq_some_iff.mp rest
    split at rest
    · cases rest
      refine .tail entered (.act _ (.plan cmd.entityId entity _ known ⟨rfl, rfl, rfl, rfl, rfl, .inl rfl⟩))
    · obtain ⟨v, caught, rest⟩ := Option.bind_eq_some_iff.mp rest
      cases rest
      refine turns_trans codes _ _ _ (.tail entered (.recovered cmd.entityId cmd.entry u.env.nowMsec entity known)) ?_
      exact acts_turns codes _ _ (try_catchup_works o _ t _ caught)

theorem move_finished_desk (cmds : List ClientCmd) (s : Node n) :
    (moveFinished cmds s).desk = { s.desk with answered := ↑(s.userRspQueue ++ cmds) } := by
  induction cmds generalizing s with
  | nil => rfl
  | cons cmd rest ih =>
      simp only [moveFinished]
      split
      · rfl
      · rw [ih]
        simp [desk, ask]

theorem take_timeouts_turns (codes : RetCode → Prop) (elements : List (Nat × Nat)) (s t : Node n) (once : elements.Nodup)
    (listed : ∀ elt ∈ elements, elt ∈ s.timer) (done : takeTimeouts elements s = some t) : Turns codes s.desk t.desk := by
  induction elements generalizing s with
  | nil =>
      cases done
      exact .refl
  | cons element rest ih =>
      obtain ⟨entityId, deadline⟩ := element
      obtain ⟨new, onceRest⟩ := List.nodup_cons.mp once
      have here := listed _ List.mem_cons_self
      have kept : ∀ elt ∈ rest, elt ∈ s.timer.filter fun elt => elt ≠ (entityId, deadline) := by
        intro elt member
        refine List.mem_filter.mpr ⟨listed elt (List.mem_cons_of_mem _ member), ?_⟩
        exact decide_eq_true fun same => new (same ▸ member)
      rw [takeTimeouts] at done
      split at done
      · exact ih s onceRest (fun elt member => listed elt (List.mem_cons_of_mem _ member)) done
      · rename_i due
        obtain ⟨entity, known, after⟩ := Option.bind_eq_some_iff.mp done
        split at after
        · rename_i idle
          exact .head (.stale entityId deadline entity here known idle) (ih _ onceRest kept after)
        · rename_i client asking
          refine .head (.expire entityId deadline entity client here (Nat.le_of_not_lt due) known asking) ?_
          have later := ih _ onceRest (by
            intro elt member
            have timers := congrArg Desk.timer (finish_cmd_desk
              (({ s with timer := s.timer.filter fun elt => elt ≠ (entityId, deadline) } : Node n).setEntity entityId
                (some { entity with clientCmd := none })) client .timeout)
            simp only [desk, answer] at timers
            rw [timers]
            exact kept elt member) after
          rw [finish_cmd_desk] at later
          exact later

theorem check_work_turns (codes : RetCode → Prop) (o : Options n) (s t : Node n) (next : Option Nat) (once : s.timer.Nodup)
    (done : s.checkIfHasWork o next = some t) : Turns codes s.desk t.desk := by
  obtain ⟨u, timed, rest⟩ := Option.bind_eq_some_iff.mp done
  obtain ⟨v, cleaned, rest⟩ := Option.bind_eq_some_iff.mp rest
  have moved : (moveFinished s.finishedList s).desk = s.desk := move_finished_desk s.finishedList s
  have timers : (moveFinished s.finishedList s).timer = s.timer := congrArg Desk.timer moved
  have toTimed : Turns codes s.desk u.desk := by
    have turns := take_timeouts_turns codes _ _ u (by rw [timers]; exact once) (fun _ member => member) timed
    rw [moved] at turns
    exact turns
  have toCleaned : Turns codes s.desk v.desk := turns_trans codes _ u.desk _ toTimed (acts_turns codes _ _ (cleanup_acts _ _ 0 u v cleaned))
  cases next with
  | none =>
      cases rest
      exact toCleaned
  | some entityId => exact turns_trans codes _ v.desk _ toCleaned (acts_turns codes _ _ (try_catchup_works o v t entityId rest))

-- The state in which a load has ended well and the parked message is next.
def loadedState (s : Node n) (entity : EntityInfo n) (cmd : PaxosCmd) : Node n :=
  (s.setEntity cmd.entityId (some (updateByLoadFromPlog { entity with loading := false } cmd.entry cmd.maxCommittedEntry))).mark
    (.loaded cmd.entityId cmd.maxCommittedEntry)

-- The load has ended well and the parked message is handled: the command is next.
inductive ParkedAt (o : Options n) (s : Node n) (cmd : PaxosCmd) : Node n → Prop where
  | loaded (entity : EntityInfo n) (u : Node n) (done : cmd.result = .ok) (known : s.entityInfos cmd.entityId = some entity)
      (loading : entity.loading = true) (served : (s.loadedState entity cmd).handleParkedMsg o cmd.entityId = some u) : ParkedAt o s cmd u

theorem parked_msg_works (o : Options n) (s t : Node n) (entityId : Nat) (served : s.handleParkedMsg o entityId = some t) : Works s t := by
  obtain ⟨entity, known, rest⟩ := Option.bind_eq_some_iff.mp served
  split at rest
  · cases rest
    exact works_refl s
  · rename_i msg waiting
    obtain ⟨⟨code, u⟩, handled, rest⟩ := Option.bind_eq_some_iff.mp rest
    cases rest
    refine works_trans s _ t (works_act s _ ?_) (handle_paxos_works o _ t msg code handled)
    exact .plan entityId entity { entity with waitingMsg := none } known ⟨rfl, rfl, rfl, rfl, rfl, .inl rfl⟩

theorem parked_at_turns (codes : RetCode → Prop) (o : Options n) (s u : Node n) (cmd : PaxosCmd) (parkedAt : ParkedAt o s cmd u) :
    Turns codes s.desk u.desk := by
  cases parkedAt with
  | loaded entity u done known loading served =>
      refine .head (.loaded cmd.entityId cmd.entry cmd.maxCommittedEntry entity known loading) ?_
      exact acts_turns codes _ _ (parked_msg_works o _ u _ served)

theorem handle_load_turns (codes : RetCode → Prop) (o : Options n) (s t : Node n) (cmd : PaxosCmd) (ret : RetCode)
    (code : cmd.result ≠ .ok → codes cmd.result) (done : s.handleLoadFromPlog o cmd = some (ret, t)) :
    Turns codes s.desk t.desk ∨ ∃ u : Node n, ParkedAt o s cmd u ∧ u.handleParkedCmd o cmd.entityId = some t := by
  obtain ⟨entity, known, rest⟩ := Option.bind_eq_some_iff.mp done
  split at rest
  · cases rest
  · rename_i loading
    have loading : entity.loading = true := by simpa using loading
    dsimp only at rest
    split at rest
    · rename_i failed
      obtain ⟨u, finished, rest⟩ := Option.bind_eq_some_iff.mp rest
      cases rest
      refine .inl (.single ?_)
      obtain ⟨same, knownSame, ⟨idle, rfl⟩ | ⟨client, asking, effect⟩⟩ := finish_client_desk _ u _ _ finished
      · simp only [setEntity, Function.update_self, Option.some.injEq] at knownSame
        subst knownSame
        have final : ((s.setEntity cmd.entityId (some { entity with loading := false })).setEntity cmd.entityId none).desk =
            s.desk.setEntity cmd.entityId none := by
          simp [desk, setEntity, Desk.setEntity]
        rw [final]
        exact .closed cmd.entityId entity known loading idle
      · simp only [setEntity, Function.update_self, Option.some.injEq] at knownSame
        subst knownSame
        have final : (u.setEntity cmd.entityId none).desk =
            (s.desk.finish cmd.entityId entity client cmd.result).setEntity cmd.entityId none := by
          have outer : (u.setEntity cmd.entityId none).desk = u.desk.setEntity cmd.entityId none := rfl
          rw [outer, effect]
          simp [desk, setEntity, Desk.setEntity, Desk.finish, answer, disarm]
        rw [final]
        exact .lost cmd.entityId entity client cmd.result known loading asking (code failed)
    · rename_i fine
      obtain ⟨v, parked, rest⟩ := Option.bind_eq_some_iff.mp rest
      obtain ⟨w, served, rest⟩ := Option.bind_eq_some_iff.mp rest
      cases rest
      exact .inr ⟨v, .loaded entity v (by simpa using fine) known loading parked, served⟩

-- The parked command, if there is one, is handed in again without its entity's record of it.
theorem parked_cmd_served (o : Options n) (s t : Node n) (entityId : Nat) (done : s.handleParkedCmd o entityId = some t) :
    t = s ∨ ∃ entity client, s.entityInfos entityId = some entity ∧ entity.clientCmd = some client ∧
      Served o (s.setEntity entityId (some { entity with clientCmd := none })) client t := by
  obtain ⟨entity, known, rest⟩ := Option.bind_eq_some_iff.mp done
  split at rest
  · cases rest
    exact .inl rfl
  · rename_i client asking
    obtain ⟨⟨ret, u⟩, handled, rest⟩ := Option.bind_eq_some_iff.mp rest
    cases rest
    exact .inr ⟨entity, client, known, asking, handle_client_served o _ t client ret handled⟩

end Node

end PaxosStore.Certain
