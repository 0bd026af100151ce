import PaxosStore.Certain.EventActs
import PaxosStore.Certain.NodeRuns

set_option autoImplicit false

namespace PaxosStore.Certain

variable {n : Nat}

namespace Node

open Desk

theorem return_msg_desk (s t : Node n) (cmd : PaxosCmd) (outcome : PlogOutcome) (done : s.returnMsg cmd outcome = some t) :
    t.desk = s.desk := by
  rw [returnMsg] at done
  split at done
  · split at done
    · cases done
    · cases done
      rfl
  · split at done
    all_goals
      cases done
      rfl

theorem set_record_desk (s : Node n) (cmd : PaxosCmd) (outcome : PlogOutcome) : (s.setRecord cmd outcome).2.desk = s.desk := by
  cases outcome with
  | ok => rfl
  | failed code applied => cases applied <;> rfl

-- The plog worker does not touch the desk.
theorem do_plog_req_desk (s t : Node n) (index maxCommittedEntry : Nat) (outcome : PlogOutcome)
    (done : s.doPlogReq index maxCommittedEntry outcome = some t) : t.desk = s.desk := by
  obtain ⟨cmd, next, rest⟩ := Option.bind_eq_some_iff.mp done
  dsimp only at rest
  split at rest
  · cases rest
  · split at rest
    · exact return_msg_desk { s with plogReqs := s.plogReqs.eraseIdx index } t cmd outcome rest
    · split at rest
      · cases rest
        rfl
      · split at rest
        · cases rest
          exact set_record_desk { s with plogReqs := s.plogReqs.eraseIdx index } cmd outcome
        · split at rest
          · cases rest
            rfl
          · cases rest

-- What one event does to the desk.
inductive Handled (o : Options n) (codes : RetCode → Prop) (s : Node n) (env : Env n) (t : Node n) : Event → Prop where
  | client (cmdId : CmdId) (entityId entry timestampUsec timeoutMsec : Nat) (value : Bytes) (uuids : List Nat) (kind : cmdId ≠ .replay)
      (served : Served o { s with env := env }
        { cmdId := cmdId, entityId := entityId, entry := entry, timestampUsec := timestampUsec, timeoutMsec := timeoutMsec,
          value := value, uuids := uuids } t) :
      Handled o codes s env t (.clientCmd cmdId entityId entry timestampUsec timeoutMsec value uuids)
  | message (cmd : PaxosCmd) (works : Works { s with env := env } t) : Handled o codes s env t (.paxosCmd cmd)
  | plog (index maxCommittedEntry : Nat) (outcome : PlogOutcome) (same : t.desk = s.desk) :
      Handled o codes s env t (.plogReq index maxCommittedEntry outcome)
  | completion (index : Nat) (cmd : PaxosCmd) (next : s.plogRsps[index]? = some cmd) (notLoad : cmd.plogLoad = false)
      (drains : Drains { s.desk with now := env.nowMsec } t.desk) : Handled o codes s env t (.plogRsp index)
  | load (index : Nat) (turns : Turns codes { s.desk with now := env.nowMsec } t.desk) : Handled o codes s env t (.plogRsp index)
  | parked (index : Nat) (cmd : PaxosCmd) (u : Node n) (entity : EntityInfo n) (client : ClientCmd)
      (next : s.plogRsps[index]? = some cmd) (isLoad : cmd.plogLoad = true)
      (parkedAt : ParkedAt o { s with env := env, plogRsps := s.plogRsps.eraseIdx index } cmd u)
      (known : u.entityInfos cmd.entityId = some entity) (asking : entity.clientCmd = some client)
      (served : Served o (u.setEntity cmd.entityId (some { entity with clientCmd := none })) client t) :
      Handled o codes s env t (.plogRsp index)
  | recover (index maxCommittedEntry : Nat) (result : RetCode) (same : t.desk = s.desk) :
      Handled o codes s env t (.recoverReq index maxCommittedEntry result)
  | recovered (index : Nat) (turns : Turns codes { s.desk with now := env.nowMsec } t.desk) : Handled o codes s env t (.recoverRsp index)
  | tick (next : Option Nat) (turns : Turns codes { s.desk with now := env.nowMsec } t.desk) : Handled o codes s env t (.tick next)

theorem plog_rsp_handled (o : Options n) (codes : RetCode → Prop) (s t : Node n) (env : Env n) (index : Nat) (cmd : PaxosCmd) (ret : RetCode)
    (next : s.plogRsps[index]? = some cmd) (code : cmd.plogLoad = true → cmd.result ≠ .ok → codes cmd.result)
    (done : handlePlogRspCmd o { s with env := env, plogRsps := s.plogRsps.eraseIdx index } cmd = some (ret, t)) :
    Handled o codes s env t (.plogRsp index) := by
  rw [handlePlogRspCmd] at done
  split at done
  · rename_i isLoad
    rcases handle_load_turns codes o _ t cmd ret (code isLoad) done with turns | ⟨u, parkedAt, served⟩
    · exact .load index turns
    · rcases parked_cmd_served o u t cmd.entityId served with rfl | ⟨entity, client, known, asking, served⟩
      · exact .load index (parked_at_turns codes o _ t cmd parkedAt)
      · exact .parked index cmd u entity client next isLoad parkedAt known asking served
  · rename_i notLoad
    have notLoad : cmd.plogLoad = false := by simpa using notLoad
    split at done
    · rename_i isSet
      exact .completion index cmd next notLoad (handle_set_drains o _ t cmd ret isSet done)
    · rename_i notSet
      split at done
      · exact .completion index cmd next notLoad (handle_get_drains o _ t cmd ret (by simpa using notSet) done)
      · cases done
        exact .completion index cmd next notLoad .refl

theorem handle_desk (o : Options n) (codes : RetCode → Prop) (s t : Node n) (env : Env n) (event : Event) (once : s.timer.Nodup)
    (code : ∀ index cmd, event = .plogRsp index → s.plogRsps[index]? = some cmd → cmd.plogLoad = true → cmd.result ≠ .ok →
      codes cmd.result)
    (done : s.handle o env event = some t) : Handled o codes s env t event := by
  cases event with
  | clientCmd cmdId entityId entry timestampUsec timeoutMsec value uuids =>
      rw [handle] at done
      split at done
      · cases done
      · rename_i kind
        obtain ⟨⟨ret, u⟩, handled, same⟩ := Option.map_eq_some_iff.mp done
        cases same
        exact .client cmdId entityId entry timestampUsec timeoutMsec value uuids kind (handle_client_served o _ u _ ret handled)
  | paxosCmd cmd =>
      obtain ⟨⟨ret, u⟩, handled, same⟩ := Option.map_eq_some_iff.mp done
      cases same
      exact .message cmd (handle_paxos_works o _ u cmd.parsed ret handled)
  | plogReq index maxCommittedEntry outcome => exact .plog index maxCommittedEntry outcome (do_plog_req_desk s t _ _ _ done)
  | plogRsp index =>
      obtain ⟨cmd, next, rest⟩ := Option.bind_eq_some_iff.mp done
      obtain ⟨⟨ret, u⟩, handled, same⟩ := Option.bind_eq_some_iff.mp rest
      cases same
      exact plog_rsp_handled o codes s t env index cmd ret next (code index cmd rfl next) handled
  | recoverReq index maxCommittedEntry result =>
      obtain ⟨cmd, next, same⟩ := Option.bind_eq_some_iff.mp done
      cases same
      exact .recover index maxCommittedEntry result rfl
  | recoverRsp index =>
      obtain ⟨cmd, next, rest⟩ := Option.bind_eq_some_iff.mp done
      obtain ⟨⟨ret, u⟩, handled, same⟩ := Option.bind_eq_some_iff.mp rest
      cases same
      exact .recovered index (handle_recover_turns codes o _ t cmd ret handled)
  | tick next => exact .tick next (check_work_turns codes o { s with env := env } t next once done)

end Node

namespace Desk

-- The timer holds each entity once.
def Once (d : Desk n) : Prop := (d.timer.map Prod.fst).Nodup

theorem once_nodup (d : Desk n) (once : Once d) : d.timer.Nodup := List.Nodup.of_map _ once

theorem once_filter (d e : Desk n) (keep : Nat × Nat → Bool) (effect : e.timer = d.timer.filter keep) (once : Once d) : Once e := by
  rw [Once, effect]
  exact once.sublist (List.filter_sublist.map Prod.fst)

theorem once_same (d e : Desk n) (effect : e.timer = d.timer) (once : Once d) : Once e := by
  rw [Once, effect]
  exact once

theorem once_act (d e : Desk n) (act : Act d e) (once : Once d) : Once e := by
  cases act with
  | finish entityId old client result known asking inTime => exact once_filter d _ _ rfl once
  | _ => exact once_same d _ rfl once

theorem once_acts (d e : Desk n) (acts : Acts d e) (once : Once d) : Once e := by
  induction acts with
  | refl => exact once
  | tail _ last ih => exact once_act _ _ last ih

theorem once_turns (codes : RetCode → Prop) (d e : Desk n) (turns : Turns codes d e) (once : Once d) : Once e := by
  induction turns with
  | refl => exact once
  | tail _ last ih =>
      cases last with
      | act _ act => exact once_act _ _ act ih
      | expire entityId deadline entity client listed due known asking => exact once_filter _ _ _ rfl ih
      | stale entityId deadline entity listed known idle => exact once_filter _ _ _ rfl ih
      | lost entityId old client result known loading asking code => exact once_filter _ _ _ rfl ih
      | _ => exact once_same _ _ rfl ih

theorem once_drains (d e : Desk n) (drains : Drains d e) (once : Once d) : Once e := by
  induction drains with
  | refl => exact once
  | tail _ last ih =>
      cases last with
      | act _ act => exact once_act _ _ act ih
      | _ => exact once_same _ _ rfl ih

end Desk

namespace Node

open Desk

theorem timer_add_once (s t : Node n) (entityId timeoutMsec : Nat) (done : s.timerAdd entityId timeoutMsec = some t)
    (once : Once s.desk) : Once t.desk := by
  obtain ⟨-, ⟨-, rfl⟩ | ⟨new, effect⟩⟩ := timer_add_desk s t entityId timeoutMsec done
  · exact once
  · rw [Once, effect]
    rw [List.map_append, List.nodup_append]
    refine ⟨once, by simp, ?_⟩
    intro a member b last same
    obtain ⟨⟨id, deadline⟩, listed, rfl⟩ := List.mem_map.mp member
    simp only [List.map_cons, List.map_nil, List.mem_singleton] at last
    subst last
    dsimp only at same
    subst same
    exact new deadline listed

theorem served_once (o : Options n) (s t : Node n) (cmd : ClientCmd) (served : Served o s cmd t) (once : Once s.desk) : Once t.desk := by
  cases served with
  | aside works kind => exact once_acts _ _ works once
  | rejected u code works kept effect free late =>
      rw [effect]
      exact once_same u.desk _ rfl (once_acts _ _ works once)
  | armed u v entity works kept admits known kind idle early added later =>
      exact once_acts _ _ later (timer_add_once _ v _ _ added (once_same u.desk _ rfl (once_acts _ _ works once)))

theorem handle_once (o : Options n) (s t : Node n) (env : Env n) (event : Event) (once : Once s.desk)
    (done : s.handle o env event = some t) : Once t.desk := by
  have at_clock : Once { s.desk with now := env.nowMsec } := once
  cases handle_desk o (fun _ => True) s t env event (once_nodup _ once) (fun _ _ _ _ _ _ => trivial) done with
  | client cmdId entityId entry timestampUsec timeoutMsec value uuids kind served => exact served_once o _ t _ served at_clock
  | message cmd works => exact once_acts _ _ works at_clock
  | plog index maxCommittedEntry outcome same => rw [same]; exact once
  | completion index cmd next notLoad drains => exact once_drains _ _ drains at_clock
  | load index turns => exact once_turns _ _ _ turns at_clock
  | parked index cmd u entity client next isLoad parkedAt known asking served =>
      have turns := parked_at_turns (fun _ => True) o _ u cmd parkedAt
      exact served_once o _ t _ served (once_same u.desk _ rfl (once_turns _ _ _ turns at_clock))
  | recover index maxCommittedEntry result same => rw [same]; exact once
  | recovered index turns => exact once_turns _ _ _ turns at_clock
  | tick next turns => exact once_turns _ _ _ turns at_clock

theorem reached_once (o : Options n) (meets : Node n → Env n → Event → Prop) (s : Node n) (reached : Reached o meets s) : Once s.desk :=
  reached_invariant o meets (fun s => Once s.desk) (fun _ => List.nodup_nil)
    (fun s t env event _ once _ done => handle_once o s t env event once done) s reached

end Node

end PaxosStore.Certain
