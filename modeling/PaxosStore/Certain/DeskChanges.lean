import PaxosStore.Certain.DeskRuns
import PaxosStore.Certain.RoomAsks

set_option autoImplicit false

namespace PaxosStore.Certain

variable {n : Nat}

namespace Desk

-- Everything an event does to the desk, for the invariants that look at the managers.
inductive Change (d : Desk n) : Desk n → Prop where
  | turn (e : Desk n) (turn : Turn (fun _ => True) d e) : Change d e
  | drain (e : Desk n) (drain : Drain d e) : Change d e
  | hold (entityId : Nat) (old : EntityInfo n) (pending : Option ClientCmd) (known : d.entityInfos entityId = some old) :
      Change d (d.setEntity entityId (some { old with clientCmd := pending }))
  | reply (cmd : ClientCmd) : Change d (d.answer cmd)
  | arm (timer : List (Nat × Nat)) : Change d { d with timer := timer }
  | clock (now : Nat) : Change d { d with now := now }

def Changes : Desk n → Desk n → Prop := Relation.ReflTransGen Change

theorem changes_trans (d e f : Desk n) (first : Changes d e) (second : Changes e f) : Changes d f :=
  Relation.ReflTransGen.trans first second

theorem turns_changes (d e : Desk n) (turns : Turns (fun _ => True) d e) : Changes d e := by
  induction turns with
  | refl => exact .refl
  | tail _ last ih => exact .tail ih (.turn _ last)

theorem drains_changes (d e : Desk n) (drains : Drains d e) : Changes d e := by
  induction drains with
  | refl => exact .refl
  | tail _ last ih => exact .tail ih (.drain _ last)

theorem acts_changes (d e : Desk n) (acts : Acts d e) : Changes d e := turns_changes d e (acts_turns _ d e acts)

theorem changes_keep (Inv : Desk n → Prop) (step : ∀ d e, Change d e → Inv d → Inv e) (d e : Desk n) (changes : Changes d e)
    (before : Inv d) : Inv e := by
  induction changes with
  | refl => exact before
  | tail _ last ih => exact step _ _ last ih

end Desk

namespace Node

open Desk

theorem works_changes (s t : Node n) (works : Works s t) : Changes s.desk t.desk := acts_changes _ _ works

theorem armed_changes (u v : Node n) (entityId timeoutMsec : Nat) (entity : EntityInfo n) (cmd : ClientCmd)
    (known : u.entityInfos entityId = some entity)
    (added : (u.setEntity entityId (some { entity with clientCmd := some cmd })).timerAdd entityId timeoutMsec = some v) :
    Changes u.desk v.desk := by
  refine .head (.hold entityId entity (some cmd) known) ?_
  obtain ⟨-, ⟨-, rfl⟩ | ⟨-, effect⟩⟩ := timer_add_desk _ v _ _ added
  · exact .refl
  · rw [effect]
    exact .single (.arm _)

theorem served_changes (o : Options n) (s t : Node n) (cmd : ClientCmd) (served : Served o s cmd t) : Changes s.desk t.desk := by
  cases served with
  | aside works kind => exact works_changes s t works
  | rejected u code works kept effect free late =>
      rw [effect]
      exact .tail (works_changes s u works) (.reply _)
  | armed u v entity works kept admits known kind idle early added later =>
      exact changes_trans _ u.desk _ (works_changes s u works)
        (changes_trans _ v.desk _ (armed_changes u v _ _ entity cmd known added) (works_changes v t later))

theorem handle_changes (o : Options n) (s t : Node n) (env : Env n) (event : Event) (once : Once s.desk)
    (done : s.handle o env event = some t) : Changes s.desk t.desk := by
  have clock : Changes s.desk { s.desk with now := env.nowMsec } := .single (.clock env.nowMsec)
  cases handle_desk o (fun _ => True) s t env event (once_nodup _ once) (fun _ _ _ _ _ _ => trivial) done with
  | client cmdId entityId entry timestampUsec timeoutMsec value uuids kind served =>
      exact changes_trans _ _ _ clock (served_changes o _ t _ served)
  | message cmd works => exact changes_trans _ _ _ clock (acts_changes _ _ works)
  | plog index maxCommittedEntry outcome same => rw [same]; exact .refl
  | completion index cmd next notLoad drains => exact changes_trans _ _ _ clock (drains_changes _ _ drains)
  | load index turns => exact changes_trans _ _ _ clock (turns_changes _ _ turns)
  | parked index cmd u entity client next isLoad parkedAt known asking served =>
      have turns := parked_at_turns (fun _ => True) o _ u cmd parkedAt
      refine changes_trans _ u.desk _ (changes_trans _ _ _ clock (turns_changes _ _ turns)) ?_
      exact .head (.hold cmd.entityId entity none known) (served_changes o _ t _ served)
  | recover index maxCommittedEntry result same => rw [same]; exact .refl
  | recovered index turns => exact changes_trans _ _ _ clock (turns_changes _ _ turns)
  | tick next turns => exact changes_trans _ _ _ clock (turns_changes _ _ turns)

-- What holds of the desk at the start and survives every change holds in every state reached.
theorem reached_desk (o : Options n) (meets : Node n → Env n → Event → Prop) (Inv : Desk n → Prop)
    (first : ∀ route, Inv (start route).desk) (step : ∀ d e : Desk n, Change d e → Inv d → Inv e) (s : Node n)
    (reached : Reached o meets s) : Inv s.desk :=
  reached_invariant o meets (fun s => Inv s.desk) first
    (fun s t env event before kept _ done =>
      changes_keep Inv step _ _ (handle_changes o s t env event (reached_once o meets s before) done) kept) s reached

theorem create_asks_works (s u : Node n) (entityId entry : Nat) (asks : CreateAsks s entityId entry u) : Works s u := by
  cases asks
  exact works_refl s

theorem loop_asks_works (o : Options n) (entityId : Nat) (entries : List Nat) (s u : Node n) (asks : LoopAsks o entityId entries s u) :
    Works s u := by
  induction asks with
  | here curr rest s absent allowed => exact works_same s _ rfl
  | later curr rest s t u went asks ih => exact works_trans s t u (catchup_entry_works o s t entityId curr true went) ih

theorem catchup_asks_works (o : Options n) (s u : Node n) (entityId : Nat) (asks : CatchupAsks o s entityId u) : Works s u := by
  cases asks with
  | loop entity u known gap free asks =>
      exact works_trans s _ u (catchup_planned s entityId _ entity known) (loop_asks_works o entityId _ _ u asks)

theorem start_asks_works (o : Options n) (s u : Node n) (cmd : ClientCmd) (asks : StartAsks o s cmd u) : Works s u := by
  cases asks with
  | create entity u known kind matched asks => exact create_asks_works s u _ _ asks
  | catchup entity t u known kind other finished asks =>
      exact works_trans s t u (finish_client_works s t _ _ (by simp) finished) (catchup_asks_works o t u _ asks)

theorem client_asks_changes (o : Options n) (s u : Node n) (cmd : ClientCmd) (asks : ClientAsks o s cmd u) : Changes s.desk u.desk := by
  cases asks with
  | catchup t u entity entered known kind ready asks =>
      exact works_changes s u (works_trans s t u (entity_if_miss_entered o s t _ _ entered).works (catchup_asks_works o t u _ asks))
  | dump t v u m entered kind again asks =>
      exact works_changes s u (works_trans s t u (entity_if_miss_entered o s t _ _ entered).works
        (works_trans t v u (entity_if_miss_entered o t v _ _ again).works
          (works_trans v _ u (works_same v (v.mark m) rfl) (create_asks_works _ u _ _ asks))))
  | start t v u entity entered known kind idle added ready asks =>
      refine changes_trans _ t.desk _ (works_changes s t (entity_if_miss_entered o s t _ _ entered).works) ?_
      exact changes_trans _ v.desk _ (armed_changes t v _ _ entity cmd known added) (works_changes v u (start_asks_works o v u cmd asks))

theorem open_asks_works (o : Options n) (s u : Node n) (peer : Fin n) (cmd : PaxosCmd) (ahead : Ahead s cmd.key)
    (asks : OpenAsks o s peer cmd u) : Works s u := by
  cases asks with
  | create u asks => exact create_asks_works s u _ _ asks
  | catchup p info out ret t v w u opened found restored certain updated asks =>
      have opening := create_if_miss_found o s t cmd.entityId cmd.entry .ok (some p) opened
      obtain ⟨about, -⟩ := opening.live p rfl
      obtain ⟨live, -⟩ := deref_some t p info found
      have desks := restore_value_desk t v info.machine cmd out restored
      have aheadHere : Ahead v p.key := by
        rw [about]
        exact ahead_same t v _ (congrArg Desk.entityInfos desks) (ahead_same s t _ opening.entities ahead)
      have settled : CertainAt v p.key := by
        intro other same
        rw [show v.entryInfos = t.entryInfos from congrArg Desk.entryInfos desks, live] at same
        cases same
        exact certain
      refine works_trans s v u (works_trans s t v opening.works (works_same t v desks)) ?_
      exact works_trans v w u (update_machine_works o v w p peer out ret aheadHere settled updated) (catchup_asks_works o w u _ asks)

theorem heard_works (s : Node n) (entity : EntityInfo n) (peer : Fin n) (cmd : PaxosCmd) (known : s.entityInfos cmd.entityId = some entity)
    (ready : entity.loading = false) : Works s (s.heard entity peer cmd) ∧
      ∀ other, (s.heard entity peer cmd).entityInfos cmd.entityId = some other → other.loading = false := by
  rw [heard]
  split
  · rename_i below
    refine ⟨works_act s _ (.plan cmd.entityId entity _ known ⟨rfl, rfl, rfl, rfl, rfl, .inr ⟨ready, Nat.le_of_lt below⟩⟩), fun other here => ?_⟩
    simp only [setEntity, Function.update_self, Option.some.injEq] at here
    subst here
    exact ready
  · refine ⟨works_refl s, fun other here => ?_⟩
    rw [known] at here
    cases here
    exact ready

theorem paxos_asks_works (o : Options n) (s u : Node n) (cmd : PaxosCmd) (asks : PaxosAsks o s cmd u) : Works s u := by
  cases asks with
  | checked t u entity peer entered known ready asks =>
      refine works_trans s t u (entity_if_miss_entered o s t _ _ entered).works ?_
      have same := switch_entity cmd entity.localAcceptorId
      cases asks with
      | failed again v u knownAgain finished asks =>
          rw [same, known] at knownAgain
          cases knownAgain
          obtain ⟨works, -⟩ := heard_works t entity peer _ (by rw [same]; exact known) ready
          exact works_trans t _ u works
            (works_trans _ v u (finish_fast_failed_works _ v _ finished) (catchup_asks_works o v u _ asks))
      | open_ again v u knownAgain left asks =>
          rw [same, known] at knownAgain
          cases knownAgain
          obtain ⟨works, readyHeard⟩ := heard_works t entity peer _ (by rw [same]; exact known) ready
          obtain ⟨-, left⟩ := handle_if_chosen_works _ v _ _ false left
          obtain ⟨rfl, other, knownOther, above, -⟩ := left rfl
          exact works_trans t _ u works
            (open_asks_works o _ u peer _ ⟨other, knownOther, readyHeard other knownOther, .inl above⟩ asks)

theorem hands_msg_drains (o : Options n) (p : EntryPtr) (peers : List (Fin n)) (s u : Node n) (cmd : PaxosCmd)
    (hands : HandsMsg o p peers s u cmd) : Drains s.desk u.desk := by
  induction hands with
  | here peer rest s info cmd found slot => exact .single (.unslot p.key info peer (deref_some s p info found).1)
  | skip peer rest s u info cmd found slot later ih => exact ih
  | next peer rest s t u info after first cmd ret found slot handled foundAfter certain later ih =>
      refine .head (.unslot p.key info peer (deref_some s p info found).1) ?_
      exact drains_trans _ t.desk _ (acts_drains _ _ (handle_paxos_works o _ t first ret handled)) ih

theorem completion_asks_drains (o : Options n) (s u : Node n) (cmd : PaxosCmd) (asks : CompletionAsks o s cmd u) : Drains s.desk u.desk := by
  cases asks with
  | msg p t v u msg resumes hands asks =>
      exact drains_trans _ v.desk _ (drains_trans _ t.desk _ (resumes_drains o s t cmd p resumes) (hands_msg_drains o p _ t v msg hands))
        (acts_drains _ _ (paxos_asks_works o v u msg asks))
  | catchup p t v u notSet resumes drained asks =>
      exact drains_trans _ v.desk _ (drains_trans _ t.desk _ (resumes_drains o s t cmd p resumes) (handle_waiting_drains o t v p drained))
        (acts_drains _ _ (catchup_asks_works o v u _ asks))

theorem loaded_state_turns (s : Node n) (entity : EntityInfo n) (cmd : PaxosCmd) (known : s.entityInfos cmd.entityId = some entity)
    (loading : entity.loading = true) : Changes s.desk (s.loadedState entity cmd).desk :=
  .single (.turn _ (.loaded cmd.entityId cmd.entry cmd.maxCommittedEntry entity known loading))

theorem load_asks_changes (o : Options n) (s u : Node n) (cmd : PaxosCmd) (asks : LoadAsks o s cmd u) : Changes s.desk u.desk := by
  cases asks with
  | msg entity again msg m u known loading done knownAgain parked asks =>
      refine changes_trans _ _ _ (loaded_state_turns s entity cmd known loading) (works_changes (s.loadedState entity cmd) u ?_)
      refine works_trans _ _ u (works_act _ _ ?_) (paxos_asks_works o _ u msg asks)
      exact .plan cmd.entityId again { again with waitingMsg := none } knownAgain ⟨rfl, rfl, rfl, rfl, rfl, .inl rfl⟩
  | client entity again client t u known loading done served knownAgain parked asks =>
      refine changes_trans _ _ _ (loaded_state_turns s entity cmd known loading) ?_
      refine changes_trans _ t.desk _ (works_changes _ t (parked_msg_works o _ t _ served)) ?_
      exact .head (.hold cmd.entityId again none knownAgain) (client_asks_changes o _ u client asks)

theorem recover_asks_changes (o : Options n) (s u : Node n) (cmd : PaxosCmd) (asks : RecoverAsks o s cmd u) : Changes s.desk u.desk := by
  cases asks with
  | catchup t u entity m entered known done asks =>
      refine changes_trans _ t.desk _ (works_changes s t (entity_if_miss_entered o s t _ _ entered).works) ?_
      exact .head (.turn _ (.recovered cmd.entityId cmd.entry t.env.nowMsec entity known)) (works_changes _ u (catchup_asks_works o _ u _ asks))

theorem tick_cleans_changes (s u : Node n) (once : Once s.desk) (cleans : TickCleans s u) : Changes s.desk u.desk := by
  cases cleans with
  | cleanup timed =>
      have moved := move_finished_desk s.finishedList s
      have timers : (moveFinished s.finishedList s).timer = s.timer := congrArg Desk.timer moved
      have turns := take_timeouts_turns (fun _ => True) _ _ u (by rw [timers]; exact once_nodup _ once) (fun _ member => member) timed
      rw [moved] at turns
      exact turns_changes _ _ turns

theorem cleanup_works (s t : Node n) (done : s.cleanupExpiredChosenEntry = some t) : Works s t := cleanup_acts _ _ 0 s t done

theorem asks_room_changes (o : Options n) (s u : Node n) (env : Env n) (event : Event) (once : Once s.desk)
    (asks : AsksRoom o s env event u) : Changes s.desk u.desk := by
  have clock : Changes s.desk { s.desk with now := env.nowMsec } := .single (.clock env.nowMsec)
  refine changes_trans _ _ _ clock ?_
  cases asks with
  | client cmdId entityId entry timestampUsec timeoutMsec value uuids u asks => exact client_asks_changes o _ u _ asks
  | message cmd u asks => exact works_changes _ u (paxos_asks_works o _ u _ asks)
  | completion index cmd u next notLoad asks => exact drains_changes _ _ (completion_asks_drains o _ u cmd asks)
  | load index cmd u next isLoad asks => exact load_asks_changes o _ u cmd asks
  | recovered index cmd u next asks => exact recover_asks_changes o _ u cmd asks
  | tick entityId u asks =>
      cases asks with
      | catchup t v u cleans cleaned asks =>
          refine changes_trans _ t.desk _ (tick_cleans_changes { s with env := env } t once cleans) ?_
          exact works_changes t u (works_trans t v u (cleanup_works t v cleaned) (catchup_asks_works o v u entityId asks))

end Node

end PaxosStore.Certain
