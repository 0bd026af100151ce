import PaxosStore.Certain.HelperMoves
import Mathlib.Data.Multiset.Count

set_option autoImplicit false

namespace PaxosStore.Certain

variable {n : Nat}

-- What of a node the managers, the timer and the answers to clients are about.
structure Desk (n : Nat) where
  entityInfos : Nat → Option (EntityInfo n)
  entryInfos : EntryKey → Option (EntryInfo n)
  oldChosenList : List EntryKey
  lruTable : List EntryKey
  totalSize : Nat
  createCnt : Nat
  entityCnt : Nat
  timer : List (Nat × Nat)
  answered : Multiset ClientCmd
  now : Nat

def Node.desk (s : Node n) : Desk n where
  entityInfos := s.entityInfos
  entryInfos := s.entryInfos
  oldChosenList := s.oldChosenList
  lruTable := s.lruTable
  totalSize := s.totalSize
  createCnt := s.createCnt
  entityCnt := s.entityCnt
  timer := s.timer
  answered := ↑(s.userRspQueue ++ s.finishedList)
  now := s.env.nowMsec

namespace Desk

def setEntity (d : Desk n) (entityId : Nat) (info : Option (EntityInfo n)) : Desk n :=
  { d with entityInfos := Function.update d.entityInfos entityId info }

def setEntry (d : Desk n) (key : EntryKey) (info : Option (EntryInfo n)) : Desk n :=
  { d with entryInfos := Function.update d.entryInfos key info }

def answer (d : Desk n) (cmd : ClientCmd) : Desk n := { d with answered := cmd ::ₘ d.answered }

def disarm (d : Desk n) (entityId : Nat) : Desk n := { d with timer := d.timer.filter fun elt => elt.1 ≠ entityId }

-- FinishClientCmd of the command an entity holds.
def finish (d : Desk n) (entityId : Nat) (entity : EntityInfo n) (client : ClientCmd) (result : RetCode) : Desk n :=
  ((d.disarm entityId).setEntity entityId (some { entity with clientCmd := none })).answer { client with result := result }

def insert (d : Desk n) (key : EntryKey) (info : EntryInfo n) : Desk n :=
  { d.setEntry key (some info) with
    lruTable := key :: d.lruTable.filter (· ≠ key)
    totalSize := d.totalSize + info.totalSize
    createCnt := d.createCnt + 1 }

def erase (d : Desk n) (key : EntryKey) (info : EntryInfo n) : Desk n :=
  { d.setEntry key none with
    lruTable := d.lruTable.filter (· ≠ key)
    totalSize := d.totalSize - info.totalSize }

def resize (d : Desk n) (key : EntryKey) (info : EntryInfo n) (size : Nat) : Desk n :=
  { d.setEntry key (some { info with totalSize := size }) with totalSize := d.totalSize - info.totalSize + size }

-- The entry is the next one in order and goes to the old chosen list.
def retire (d : Desk n) (key : EntryKey) (entity : EntityInfo n) (info : EntryInfo n) (mine : Bool) (expired : Nat) : Desk n :=
  { (d.setEntity key.entityId (some (Site.raisedBy entity key.entry mine))).setEntry key
      (some { info with expiredTimestampSec := expired }) with
    oldChosenList := d.oldChosenList ++ [key] }

-- An entry that no chosen prefix covers.
def Beyond (entity : EntityInfo n) (key : EntryKey) : Prop :=
  entity.maxContChosenEntry < key.entry ∨ entity.maxChosenEntry < key.entry

-- The entity is another one in what only the catch-up, the recovery and the reads look at.
structure Planned (old new : EntityInfo n) : Prop where
  number : new.number = old.number
  loading : new.loading = old.loading
  asked : new.clientCmd = old.clientCmd
  cont : new.maxContChosenEntry = old.maxContChosenEntry
  plog : new.maxPlogEntry = old.maxPlogEntry
  chosen : new.maxChosenEntry = old.maxChosenEntry ∨ old.loading = false ∧ old.maxChosenEntry ≤ new.maxChosenEntry

-- Nothing of what the managers assert about an entry changes.
structure Booked (old new : EntryInfo n) : Prop where
  number : new.number = old.number
  owner : new.entityNumber = old.entityNumber
  uncertain : new.uncertain = old.uncertain
  waiting : new.waitingMsgs = old.waitingMsgs
  size : new.totalSize = old.totalSize
  state : new.machine.entryState = old.machine.entryState

structure Blank (d : Desk n) (entity : EntityInfo n) (key : EntryKey) (info : EntryInfo n) : Prop where
  absent : d.entryInfos key = none
  known : d.entityInfos key.entityId = some entity
  number : info.number = d.createCnt
  owner : info.entityNumber = entity.number
  waiting : info.waitingMsgs = fun _ => none
  open_ : info.machine.entryState ≠ .chosen
  loading : info.uncertain = true → key.entry ≤ entity.maxPlogEntry

-- One change of the desk inside a handler.
inductive Act (d : Desk n) : Desk n → Prop where
  | plan (entityId : Nat) (old new : EntityInfo n) (known : d.entityInfos entityId = some old) (planned : Planned old new) :
      Act d (d.setEntity entityId (some new))
  | label (entityId : Nat) (old : EntityInfo n) (client : ClientCmd) (uuid valueId base : Nat)
      (known : d.entityInfos entityId = some old) (asking : old.clientCmd = some client) :
      Act d (d.setEntity entityId (some
        { old with clientCmd := some { client with uuid := uuid, valueId := valueId }, uuidBase := base }))
  | finish (entityId : Nat) (old : EntityInfo n) (client : ClientCmd) (result : RetCode)
      (known : d.entityInfos entityId = some old) (asking : old.clientCmd = some client) (inTime : result ≠ .timeout) :
      Act d (d.finish entityId old client result)
  | opened (entityId : Nat) (new : EntityInfo n) (absent : d.entityInfos entityId = none) (loading : new.loading = true)
      (idle : new.clientCmd = none)
      (fresh : new.maxContChosenEntry = 0 ∧ new.maxChosenEntry = 0 ∧ new.maxPlogEntry = 0) (number : new.number = d.entityCnt) :
      Act d { d.setEntity entityId (some new) with entityCnt := d.entityCnt + 1 }
  | skipped : Act d { d with entityCnt := d.entityCnt + 1 }
  | retired (key : EntryKey) (entity : EntityInfo n) (info : EntryInfo n) (mine : Bool) (expired : Nat)
      (live : d.entryInfos key = some info) (certain : info.uncertain = false) (known : d.entityInfos key.entityId = some entity)
      (owner : entity.number = info.entityNumber) (closed : info.machine.entryState = .chosen)
      (next : entity.maxContChosenEntry + 1 = key.entry) : Act d (d.retire key entity info mine expired)
  | raised (key : EntryKey) (entity : EntityInfo n) (info : EntryInfo n) (mine : Bool)
      (live : d.entryInfos key = some info) (certain : info.uncertain = false) (known : d.entityInfos key.entityId = some entity)
      (owner : entity.number = info.entityNumber) (closed : info.machine.entryState = .chosen)
      (apart : entity.maxContChosenEntry + 1 ≠ key.entry) :
      Act d (d.setEntity key.entityId (some (Site.raisedBy entity key.entry mine)))
  | book (key : EntryKey) (old new : EntryInfo n) (live : d.entryInfos key = some old) (booked : Booked old new) :
      Act d (d.setEntry key (some new))
  | resize (key : EntryKey) (info : EntryInfo n) (size : Nat) (live : d.entryInfos key = some info) : Act d (d.resize key info size)
  | slot (key : EntryKey) (info : EntryInfo n) (peer : Fin n) (cmd : PaxosCmd) (live : d.entryInfos key = some info)
      (uncertain : info.uncertain = true) :
      Act d (d.setEntry key (some { info with waitingMsgs := Function.update info.waitingMsgs peer (some cmd) }))
  | work (key : EntryKey) (entity : EntityInfo n) (info : EntryInfo n) (machine : EntryStateMachine n) (uncertain : Bool)
      (live : d.entryInfos key = some info) (certain : info.uncertain = false) (known : d.entityInfos key.entityId = some entity)
      (ready : entity.loading = false) (beyond : Beyond entity key) :
      Act d (d.setEntry key (some { info with machine := machine, uncertain := uncertain }))
  | insert (key : EntryKey) (entity : EntityInfo n) (info : EntryInfo n) (blank : Blank d entity key info) : Act d (d.insert key info)
  | drop (key : EntryKey) (info : EntryInfo n) (live : d.entryInfos key = some info)
      (outside : info.uncertain = true ∨ info.machine.entryState ≠ .chosen ∨
        ∃ entity, d.entityInfos key.entityId = some entity ∧ Beyond entity key) : Act d (d.erase key info)
  | evict (key : EntryKey) (rest : List EntryKey) (info : EntryInfo n) (first : d.oldChosenList = key :: rest)
      (live : d.entryInfos key = some info) (certain : info.uncertain = false) :
      Act d { d.erase key info with oldChosenList := rest }
  | pass (key : EntryKey) (rest : List EntryKey) (first : d.oldChosenList = key :: rest) (absent : d.entryInfos key = none) :
      Act d { d with oldChosenList := rest }
  | oldest (key : EntryKey) (info : EntryInfo n) (clear : d.oldChosenList = []) (live : d.entryInfos key = some info)
      (certain : info.uncertain = false) : Act d (d.erase key info)
  | refresh (key : EntryKey) (listed : key ∈ d.lruTable) : Act d { d with lruTable := key :: d.lruTable.filter (· ≠ key) }

def Acts : Desk n → Desk n → Prop := Relation.ReflTransGen Act

end Desk

namespace Node

open Desk

-- The function changes the desk by a sequence of acts.
def Works (s t : Node n) : Prop := Acts s.desk t.desk

theorem works_refl (s : Node n) : Works s s := .refl

theorem works_trans (s t u : Node n) (first : Works s t) (second : Works t u) : Works s u := Relation.ReflTransGen.trans first second

theorem works_same (s t : Node n) (same : t.desk = s.desk) : Works s t := by
  rw [Works, same]
  exact .refl

theorem works_act (s t : Node n) (act : Act s.desk t.desk) : Works s t := .single act

theorem push_user_desk (s : Node n) (cmd : ClientCmd) : (s.pushUserRsp cmd).desk = s.desk.answer cmd := by
  cases refused : s.env.refusals.headD false with
  | true =>
      simp only [pushUserRsp, ask, refused, if_true, desk, answer, Desk.mk.injEq, true_and, and_true]
      rw [Multiset.cons_coe, Multiset.coe_eq_coe, ← List.append_assoc]
      exact List.perm_append_singleton cmd _
  | false =>
      simp only [pushUserRsp, ask, refused, Bool.false_eq_true, if_false, desk, answer, Desk.mk.injEq, true_and, and_true]
      rw [Multiset.cons_coe, Multiset.coe_eq_coe, List.append_assoc]
      exact List.perm_middle

theorem go_to_plog_desk (s : Node n) (cmd : PaxosCmd) : (s.goToPlogReqQueue cmd).2.desk = s.desk := by
  cases refused : s.env.refusals.headD false with
  | true =>
      simp only [goToPlogReqQueue, ask, refused]
      rfl
  | false =>
      simp only [goToPlogReqQueue, ask, refused]
      rfl

theorem finish_cmd_desk (s : Node n) (cmd : ClientCmd) (result : RetCode) :
    (s.finishCmd cmd result).desk = s.desk.answer { cmd with result := result } := push_user_desk s _

theorem finish_client_desk (s t : Node n) (entityId : Nat) (result : RetCode) (done : s.finishClientCmd entityId result = some t) :
    ∃ entity, s.entityInfos entityId = some entity ∧
      (entity.clientCmd = none ∧ t = s ∨
        ∃ client, entity.clientCmd = some client ∧ t.desk = s.desk.finish entityId entity client result) := by
  obtain ⟨entity, known, rest⟩ := Option.bind_eq_some_iff.mp done
  refine ⟨entity, known, ?_⟩
  cases asking : entity.clientCmd with
  | none =>
      simp only [asking, Option.some.injEq] at rest
      exact .inl ⟨rfl, rest.symm⟩
  | some client =>
      simp only [asking, Option.some.injEq] at rest
      refine .inr ⟨client, rfl, ?_⟩
      rw [← rest, finish_cmd_desk]
      rfl

theorem finish_client_works (s t : Node n) (entityId : Nat) (result : RetCode) (inTime : result ≠ .timeout)
    (done : s.finishClientCmd entityId result = some t) : Works s t := by
  obtain ⟨entity, known, ⟨-, rfl⟩ | ⟨client, asking, effect⟩⟩ := finish_client_desk s t entityId result done
  · exact works_refl _
  · refine works_act s t ?_
    rw [effect]
    exact .finish entityId entity client result known asking inTime

theorem finish_entry_works (s t : Node n) (key : EntryKey) (result : RetCode) (inTime : result ≠ .timeout)
    (done : s.finishEntryCmd key result = some t) : Works s t := by
  obtain ⟨entity, known, rest⟩ := Option.bind_eq_some_iff.mp done
  cases asking : entity.clientCmd with
  | none =>
      simp only [asking, Option.some.injEq] at rest
      exact works_same s t (by rw [rest])
  | some client =>
      simp only [asking] at rest
      split at rest
      · exact finish_client_works s t key.entityId result inTime rest
      · cases rest
        exact works_refl s

-- A finished command leaves the entries alone, and the entity but for its command.
theorem finish_client_keeps (s t : Node n) (entityId : Nat) (result : RetCode) (done : s.finishClientCmd entityId result = some t) :
    t.entryInfos = s.entryInfos ∧ t.oldChosenList = s.oldChosenList ∧ ∀ other entity, s.entityInfos other = some entity →
      ∃ pending, t.entityInfos other = some { entity with clientCmd := pending } := by
  obtain ⟨entity, known, ⟨-, rfl⟩ | ⟨client, asking, effect⟩⟩ := finish_client_desk s t entityId result done
  · exact ⟨rfl, rfl, fun other entity here => ⟨entity.clientCmd, here⟩⟩
  · refine ⟨congrArg Desk.entryInfos effect, congrArg Desk.oldChosenList effect, fun other info here => ?_⟩
    have entities : t.entityInfos = Function.update s.entityInfos entityId (some { entity with clientCmd := none }) :=
      congrArg Desk.entityInfos effect
    rw [entities]
    by_cases same : other = entityId
    · subst same
      rw [known] at here
      cases here
      exact ⟨none, Function.update_self _ _ _⟩
    · exact ⟨info.clientCmd, by rw [Function.update_of_ne same]; exact here⟩

theorem finish_entry_keeps (s t : Node n) (key : EntryKey) (result : RetCode) (done : s.finishEntryCmd key result = some t) :
    t.entryInfos = s.entryInfos ∧ t.oldChosenList = s.oldChosenList ∧ ∀ other entity, s.entityInfos other = some entity →
      ∃ pending, t.entityInfos other = some { entity with clientCmd := pending } := by
  obtain ⟨entity, known, rest⟩ := Option.bind_eq_some_iff.mp done
  have same : s.entryInfos = s.entryInfos ∧ s.oldChosenList = s.oldChosenList ∧ ∀ other entity, s.entityInfos other = some entity →
      ∃ pending, s.entityInfos other = some { entity with clientCmd := pending } :=
    ⟨rfl, rfl, fun _ entity here => ⟨entity.clientCmd, here⟩⟩
  cases asking : entity.clientCmd with
  | none =>
      simp only [asking, Option.some.injEq] at rest
      subst rest
      exact same
  | some client =>
      simp only [asking] at rest
      split at rest
      · exact finish_client_keeps s t key.entityId result rest
      · cases rest
        exact same

theorem update_size_works (o : Options n) (s t : Node n) (p : EntryPtr) (done : updateMemorySize o s p = some t) : Works s t := by
  obtain ⟨info, found, rest⟩ := Option.bind_eq_some_iff.mp done
  cases rest
  obtain ⟨live, -⟩ := deref_some s p info found
  exact works_act s _ (.resize p.key info _ live)

theorem destroy_desk (s t : Node n) (p : EntryPtr) (done : s.destroyEntryInfo p = some t) :
    ∃ info, s.deref p = some info ∧ t.desk = s.desk.erase p.key info := by
  obtain ⟨info, found, rest⟩ := Option.bind_eq_some_iff.mp done
  obtain ⟨entity, owner, rest⟩ := Option.bind_eq_some_iff.mp rest
  cases rest
  exact ⟨info, found, rfl⟩

end Node

end PaxosStore.Certain
