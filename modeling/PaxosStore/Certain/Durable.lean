import PaxosStore.Certain.PlogOps
import PaxosStore.Certain.Records

set_option autoImplicit false

namespace PaxosStore.Certain

open PaxosStore.Consensus

variable {n : Nat}

-- The steps after which memory and plog stay together: no entry is destroyed
-- that the plog has and that would be created again without asking it, no dump
-- creates one so, and Promise gets a fresh number that fits into uint32.
def Mark.careful : Mark n → Bool
  | .destroyed key maxPlogEntry maxContChosenEntry held => !held || key.entry ≤ maxPlogEntry || key.entry ≤ maxContChosenEntry
  | .dumped key loading maxPlogEntry maxContChosenEntry present =>
      !loading && (present || key.entry ≤ maxPlogEntry || maxContChosenEntry < key.entry)
  | .promised _ machine preAuth => 2 ≤ n && machine.exactNum preAuth < 2 ^ 32
  | _ => true

theorem careful_settled (m : Mark n) (careful : m.careful = true) : m.settled = true := by
  cases m with
  | dumped key loading maxPlogEntry maxContChosenEntry present =>
      simp only [Mark.careful, Bool.and_eq_true] at careful
      exact careful.1
  | _ => rfl

namespace Site

-- The number this acceptor has prepared at the entry, wherever its record is.
def ballot (s : Site n) (key : EntryKey) : Nat :=
  match s.entryInfos key with
  | some info =>
      if 0 < info.machine.localRecord.promisedNum then info.machine.localRecord.preparedNum
      else ((s.plogRecord key).getD {}).preparedNum
  | none => ((s.plogRecord key).getD {}).preparedNum

-- A command under way has taken the prepared number as its value id. One that
-- waited for the load has none yet, but then nothing is prepared in memory.
structure Suits (s : Site n) (entityId : Nat) (client : ClientCmd) : Prop where
  suits : (s.ballot ⟨entityId, client.entry⟩ = 0 ∨ client.valueId = s.ballot ⟨entityId, client.entry⟩) ∨
    (∃ cmd ∈ s.hand, cmd.plogLoad = true ∧ cmd.entityId = entityId) ∧
      ∀ key info, s.entryInfos key = some info → key.entityId = entityId → info.machine.localRecord.preparedNum = 0

def Clients (s : Site n) : Prop := ∀ entityId entity client, s.entityInfos entityId = some entity → entity.loading = false →
  entity.clientCmd = some client → Suits s entityId client

-- What the plog has beyond the watermarks of a loaded entity is in memory too.
def Beyond (s : Site n) : Prop := ∀ key entity record, s.entityInfos key.entityId = some entity → entity.loading = false →
  s.plogRecord key = some record → entity.maxPlogEntry < key.entry → entity.maxContChosenEntry < key.entry → s.entryInfos key ≠ none

structure Clean (s : Site n) : Prop where
  neat : ∀ key info, s.entryInfos key = some info → info.machine.Neat
  same : ∀ key info, s.entryInfos key = some info → info.uncertain = false → info.machine.localRecord = (s.plogRecord key).getD {}
  stored : ∀ key record, s.plogRecord key = some record → Whole record ∧ 0 < record.promisedNum
  sets : ∀ cmd ∈ s.plogReqs, isOp cmd = true → cmd.plogSetRecord = true → 0 < cmd.localEntryRecord.promisedNum

theorem clean_same (s t : Site n) (clean : Clean s) (entries : t.entryInfos = s.entryInfos) (plog : t.plog = s.plog)
    (reqs : ∀ cmd ∈ t.plogReqs, cmd ∈ s.plogReqs ∨ (isOp cmd = true → cmd.plogSetRecord = true → 0 < cmd.localEntryRecord.promisedNum)) :
    Clean t where
  neat := by
    rw [entries]
    exact clean.neat
  same := by
    intro key
    rw [entries, plogRecord, plog]
    exact clean.same key
  stored := by
    intro key
    rw [plogRecord, plog]
    exact clean.stored key
  sets := by
    intro cmd member
    rcases reqs cmd member with old | fine
    · exact clean.sets cmd old
    · exact fine

theorem clean_entry (s : Site n) (key : EntryKey) (new : Option (EntryInfo n)) (clean : Clean s)
    (neat : ∀ info, new = some info → info.machine.Neat)
    (same : ∀ info, new = some info → info.uncertain = false → info.machine.localRecord = (s.plogRecord key).getD {}) :
    Clean (s.setEntry key new) where
  neat := by
    intro other info live
    by_cases here : other = key
    · subst here
      exact neat info (by simpa [setEntry] using live)
    · exact clean.neat other info (by simpa [setEntry, here] using live)
  same := by
    intro other info live certain
    by_cases here : other = key
    · subst here
      exact same info (by simpa [setEntry] using live) certain
    · exact clean.same other info (by simpa [setEntry, here] using live) certain
  stored := clean.stored
  sets := clean.sets

theorem accept_done (m next : EntryStateMachine n) (value : Bytes) (valueId : Nat) (uuids : List Nat) (fresh : Bool)
    (done : m.accept value valueId uuids = some (.ok, fresh, next)) : m.isLocalAcceptable = true ∧ 0 < m.localRecord.promisedNum ∧
      (m.setLocal (m.acceptedRecord value valueId uuids)).calcEntryState = some next := by
  rw [EntryStateMachine.accept] at done
  split at done
  · cases done
  · rename_i acceptable
    split at done
    · cases done
    · rename_i positive
      split at done
      · cases done
      · rename_i result computed
        split at done
        · cases done
          exact ⟨by simpa using acceptable, by omega, computed⟩
        · cases done

theorem update_grows (m next : EntryStateMachine n) (peer : Fin n) (record : EntryRecord) (code : RetCode) (tidy : m.Tidy)
    (other : peer ≠ m.localAcceptorId) (done : m.update peer record = some (code, next)) (open_ : next.localRecord.chosen = false) :
    m.localRecord.chosen = false ∧ m.localRecord.acceptedNum ≤ next.localRecord.acceptedNum := by
  have before : m.localRecord.chosen = false := by
    by_contra marked
    have kept := (EntryStateMachine.update_closed m next peer record code tidy other (by simpa using marked) done).1
    rw [kept] at open_
    exact marked open_
  refine ⟨before, ?_⟩
  rcases EntryStateMachine.update_cases m next peer record code done with
    rfl | ⟨_, _, _, _, ⟨self, _⟩ | ⟨_, _, rfl⟩ | ⟨_, pending, computed⟩⟩
  · exact Nat.le_refl _
  · exact absurd self other
  · rw [EntryStateMachine.local_set_other m peer record other]
  · have result := EntryStateMachine.calc_local _ next computed
    rw [EntryStateMachine.local_set_local] at result
    obtain ⟨_, _, outcome⟩ := EntryStateMachine.adopt_cases m.localRecord record
    have larger : m.localRecord.acceptedNum ≤ (EntryStateMachine.adopt m.localRecord record).acceptedNum := by
      rcases outcome with ⟨taken, accepted, chosen, _⟩ | ⟨_, accepted, _, _⟩
      · rcases taken with marked | larger
        · rw [result] at open_
          have decides : ((m.setRecord peer record).setLocal (EntryStateMachine.adopt m.localRecord record)).decided = true := by
            rw [EntryStateMachine.decided, EntryStateMachine.local_set_local, chosen, marked]
            simp
          rw [decides] at open_
          cases open_
        · omega
      · omega
    rw [result]
    exact larger

-- The value id of a proposal is the command's, or the promised number.
theorem propose_positive (entity : EntityInfo n) (key : EntryKey) (machine middle : EntryStateMachine n) (peer : Fin n)
    (record : EntryRecord) (tidy : machine.Tidy) (other : peer ≠ machine.localAcceptorId)
    (fits : ∀ client, entity.clientCmd = some client → client.entry = key.entry → 0 < machine.localRecord.preparedNum → 0 < client.valueId)
    (done : machine.update peer record = some (.ok, middle)) (major : middle.entryState = .majorityPromise)
    (promised : 0 < middle.localRecord.promisedNum) :
    0 < (Node.valueToPropose entity key.entry middle.getLocalPromisedNum).2.1 := by
  have samePrepared := (EntryStateMachine.update_keeps machine middle peer record .ok tidy other done).2
  have prepared := ((EntryStateMachine.update_tidy machine middle peer record .ok tidy done).1.proposing (.inr major)).1
  rw [Node.valueToPropose]
  split
  · rename_i client asking
    split
    · rename_i about
      exact fits client asking about (by omega)
    · exact promised
  · exact promised

theorem learns_neat (entity : EntityInfo n) (key : EntryKey) (peer : Fin n) (record : EntryRecord) (machine next : EntryStateMachine n)
    (marks : List (Mark n)) (tidy : machine.Tidy) (neat : machine.Neat) (other : peer ≠ machine.localAcceptorId)
    (fits : ∀ client, entity.clientCmd = some client → client.entry = key.entry → 0 < machine.localRecord.preparedNum → 0 < client.valueId)
    (learns : Learns entity key peer record machine next marks) :
    next.Neat ∧ next.localRecord.preparedNum = machine.localRecord.preparedNum := by
  cases learns with
  | update _ code done =>
      exact ⟨EntryStateMachine.neat_update machine next peer record code tidy neat other done,
        (EntryStateMachine.update_keeps machine next peer record code tidy other done).2⟩
  | propose middle _ done major accepted =>
      have tidyMiddle := (EntryStateMachine.update_tidy machine middle peer record .ok tidy done).1
      have positive := propose_positive entity key machine middle peer record tidy other fits done major
        (accept_done middle next _ _ _ true accepted).2.1
      refine ⟨EntryStateMachine.neat_accept middle next _ _ _ .ok true tidyMiddle
        (EntryStateMachine.neat_update machine middle peer record .ok tidy neat other done) positive accepted, ?_⟩
      exact (EntryStateMachine.accept_keeps middle next _ _ _ .ok true tidyMiddle accepted).2.trans
        (EntryStateMachine.update_keeps machine middle peer record .ok tidy other done).2
  | repropose middle _ done major accepted =>
      have tidyMiddle := (EntryStateMachine.update_tidy machine middle peer record .ok tidy done).1
      have positive := propose_positive entity key machine middle peer record tidy other fits done major
        (accept_done middle next _ _ _ false accepted).2.1
      refine ⟨EntryStateMachine.neat_accept middle next _ _ _ .ok false tidyMiddle
        (EntryStateMachine.neat_update machine middle peer record .ok tidy neat other done) positive accepted, ?_⟩
      exact (EntryStateMachine.accept_keeps middle next _ _ _ .ok false tidyMiddle accepted).2.trans
        (EntryStateMachine.update_keeps machine middle peer record .ok tidy other done).2

-- Accepting raises the accepted number above what the machine had before.
theorem accept_newer (machine middle next : EntryStateMachine n) (peer : Fin n) (record : EntryRecord) (value : Bytes) (valueId : Nat)
    (uuids : List Nat) (fresh : Bool) (tidy : machine.Tidy) (other : peer ≠ machine.localAcceptorId)
    (done : machine.update peer record = some (.ok, middle)) (accepted : middle.accept value valueId uuids = some (.ok, fresh, next)) :
    isRecordNewer machine.localRecord next.localRecord = true := by
  obtain ⟨acceptable, _, computed⟩ := accept_done middle next value valueId uuids fresh accepted
  have tidyMiddle := (EntryStateMachine.update_tidy machine middle peer record .ok tidy done).1
  obtain ⟨open_, _, behind, _⟩ := EntryStateMachine.acceptable_cases middle tidyMiddle acceptable
  obtain ⟨before, grown⟩ := update_grows machine middle peer record .ok tidy other done open_
  have result := EntryStateMachine.calc_local _ next computed
  rw [EntryStateMachine.local_set_local] at result
  have raised : next.localRecord.acceptedNum = middle.localRecord.promisedNum := by
    rw [result]
    exact (EntryStateMachine.accepted_shape middle value valueId uuids).2.2.1
  simp only [isRecordNewer, before, Bool.false_eq_true, if_false]
  split
  · rfl
  · rw [if_pos (.inr (.inr (by omega)))]

theorem learns_same (entity : EntityInfo n) (key : EntryKey) (peer : Fin n) (record : EntryRecord) (machine next : EntryStateMachine n)
    (marks : List (Mark n)) (tidy : machine.Tidy) (other : peer ≠ machine.localAcceptorId)
    (learns : Learns entity key peer record machine next marks)
    (same : isRecordNewer machine.localRecord next.localRecord = false) : next.localRecord = machine.localRecord := by
  cases learns with
  | update _ code done => exact EntryStateMachine.update_same machine next peer record code tidy other done same
  | propose middle _ done major accepted =>
      rw [accept_newer machine middle next peer record _ _ _ true tidy other done accepted] at same
      cases same
  | repropose middle _ done major accepted =>
      rw [accept_newer machine middle next peer record _ _ _ false tidy other done accepted] at same
      cases same

theorem reset_shape (m next : EntryStateMachine n) (reset : m.resetEmptyFlags = some next) :
    next.entryRecords = m.entryRecords ∧ next.localAcceptorId = m.localAcceptorId ∧ next.entryState = m.entryState ∧
      m.entryState = .normal := by
  rw [EntryStateMachine.resetEmptyFlags] at reset
  split at reset
  · rename_i empty
    cases reset
    exact ⟨rfl, rfl, rfl, empty⟩
  · cases reset

theorem loaded_whole (m next : EntryStateMachine n) (record : EntryRecord) (code : RetCode) (wide : 2 ≤ n)
    (empty : ∀ i, m.entryRecords i = {}) (whole : Whole record) (positive : 0 < record.promisedNum)
    (done : m.update m.localAcceptorId record = some (code, next)) : next.localRecord = record := by
  obtain ⟨valid, full⟩ := (whole_iff record).mp whole
  rw [EntryStateMachine.update, dif_pos m.localAcceptorId.isLt, if_neg (by simp [valid, full])] at done
  rw [if_neg (by rw [empty, newer_than_empty record positive]; simp)] at done
  dsimp only at done
  rw [if_pos (show (m.localAcceptorId : Nat) = (m.setRecord _ record).localAcceptorId from rfl)] at done
  obtain ⟨result, computed, pair⟩ := Option.map_eq_some_iff.mp done
  cases pair
  exact calc_loaded m next record wide empty computed

theorem promise_above (key : EntryKey) (m : EntryStateMachine n) (preAuth : Bool) (small : n ≤ kMaxAcceptorNum)
    (careful : (Mark.promised key m preAuth).careful = true) : 2 ≤ n ∧ m.localRecord.promisedNum < m.nextNum preAuth := by
  simp only [Mark.careful, Bool.and_eq_true, decide_eq_true_eq] at careful
  refine ⟨careful.1, ?_⟩
  rw [EntryStateMachine.next_num_exact m preAuth small careful.2]
  exact EntryStateMachine.exact_num_above m preAuth

theorem writes_neat (key : EntryKey) (client : ClientCmd) (machine next : EntryStateMachine n) (valueId : Nat) (marks : List (Mark n))
    (small : n ≤ kMaxAcceptorNum) (neat : machine.Neat) (writes : Writes key client machine next valueId marks)
    (marked : ∀ m ∈ marks, m.careful = true) :
    next.Neat ∧ next.localRecord.preparedNum = valueId ∧ 0 < next.localRecord.promisedNum := by
  cases writes with
  | promise preAuth _ done closed =>
      obtain ⟨_, above⟩ := promise_above key machine preAuth small (marked _ List.mem_cons_self)
      have result := EntryStateMachine.calc_local _ next (EntryStateMachine.promise_cases machine next preAuth .ok done)
      rw [EntryStateMachine.local_set_local] at result
      refine ⟨EntryStateMachine.neat_promise machine next preAuth .ok neat above done, ?_, ?_⟩
      · rw [EntryStateMachine.getLocalPromisedNum, result]
      · rw [result]
        dsimp only
        omega
  | propose preAuth middle _ done accepted =>
      obtain ⟨_, above⟩ := promise_above key machine preAuth small (marked _ (List.mem_cons_of_mem _ List.mem_cons_self))
      have result := EntryStateMachine.calc_local _ middle (EntryStateMachine.promise_cases machine middle preAuth .ok done)
      rw [EntryStateMachine.local_set_local] at result
      have tidyMiddle := (EntryStateMachine.promise_tidy machine middle preAuth .ok done).1
      obtain ⟨_, positive, computed⟩ := accept_done middle next _ _ _ true accepted
      have samePrepared := (EntryStateMachine.accept_keeps middle next _ _ _ .ok true tidyMiddle accepted).2
      have final := EntryStateMachine.calc_local _ next computed
      rw [EntryStateMachine.local_set_local] at final
      refine ⟨EntryStateMachine.neat_accept middle next _ _ _ .ok true tidyMiddle
        (EntryStateMachine.neat_promise machine middle preAuth .ok neat above done) positive accepted, ?_, ?_⟩
      · rw [samePrepared, EntryStateMachine.getLocalPromisedNum, result]
      · rw [final]
        exact Nat.lt_of_lt_of_eq positive (EntryStateMachine.accepted_shape middle _ _ _).2.1.symm

theorem suits_positive (s : Site n) (key : EntryKey) (info : EntryInfo n) (client : ClientCmd) (live : s.entryInfos key = some info)
    (whole : Whole info.machine.localRecord) (suits : Suits s key.entityId client) (about : client.entry = key.entry)
    (prepared : 0 < info.machine.localRecord.preparedNum) : 0 < client.valueId := by
  have below := whole.prepared
  rcases suits.suits with fits | ⟨_, nothing⟩
  · have here : s.ballot ⟨key.entityId, client.entry⟩ = info.machine.localRecord.preparedNum := by
      rw [about, ballot, live]
      dsimp only
      rw [if_pos (by omega)]
    omega
  · have none := nothing key info live rfl
    omega

-- An entry is created without a look at the plog only if the plog has none.
theorem fresh_missing (s : Site n) (key : EntryKey) (entity : EntityInfo n) (marked : ∀ m ∈ s.marks, m.careful = true) (beyond : Beyond s)
    (absent : s.entryInfos key = none) (known : s.entityInfos key.entityId = some entity) (openable : Openable s entity key)
    (above : entity.maxPlogEntry < key.entry) : s.plogRecord key = none := by
  by_contra some
  obtain ⟨record, held⟩ := Option.ne_none_iff_exists'.mp some
  rcases openable with ⟨ready, opens⟩ | dumped
  · exact beyond key entity record known ready held above opens absent
  · have fine := marked _ dumped
    simp only [Mark.careful, Bool.and_eq_true, Bool.or_eq_true, Bool.not_eq_true', Bool.false_eq_true, decide_eq_true_eq, false_or] at fine
    obtain ⟨ready, low | opens⟩ := fine
    · omega
    · exact beyond key entity record known ready held above opens absent

theorem peer_apart (s : Site n) (cmd : PaxosCmd) (entity : EntityInfo n) (info : EntryInfo n) (peer : Fin n) (steady : Steady s)
    (known : s.entityInfos cmd.entityId = some entity) (ours : Ours entity cmd) (sender : cmd.peerAcceptorId = peer)
    (live : s.entryInfos cmd.key = some info) : peer ≠ info.machine.localAcceptorId := by
  rw [steady.machines.ids cmd.key info entity live known]
  exact sender_apart entity cmd peer ours sender

theorem learnt_neat (s : Site n) (cmd : PaxosCmd) (entity : EntityInfo n) (info : EntryInfo n) (peer : Fin n) (next : EntryStateMachine n)
    (marks : List (Mark n)) (steady : Steady s) (clients : Clients s) (clean : Clean s) (known : s.entityInfos cmd.entityId = some entity)
    (ours : Ours entity cmd) (sender : cmd.peerAcceptorId = peer) (live : s.entryInfos cmd.key = some info)
    (learns : Learns entity cmd.key peer cmd.peerEntryRecord info.machine next marks) :
    next.Neat ∧ next.localRecord.preparedNum = info.machine.localRecord.preparedNum := by
  refine learns_neat entity cmd.key peer _ info.machine next marks (steady.machines.tidy cmd.key info live) (clean.neat cmd.key info live)
    (peer_apart s cmd entity info peer steady known ours sender live) (fun client asking about prepared => ?_) learns
  exact suits_positive s cmd.key info client live ((clean.neat cmd.key info live).whole _)
    (clients cmd.entityId entity client known ours.2.2 asking) about prepared

-- A promise above all that the machine knows of does not fail.
theorem no_stray (s : Site n) (key : EntryKey) (entity : EntityInfo n) (info : EntryInfo n) (preAuth : Bool) (code : RetCode)
    (next : EntryStateMachine n) (small : n ≤ kMaxAcceptorNum) (careful : (Mark.promised key info.machine preAuth).careful = true)
    (steady : Steady s) (clean : Clean s) (known : s.entityInfos key.entityId = some entity) (matched : key.entry = entity.maxChosenEntry + 1)
    (live : s.entryInfos key = some info) (certain : info.uncertain = false) (done : info.machine.promise preAuth = some (code, next)) :
    code = .ok := by
  obtain ⟨wide, above⟩ := promise_above key info.machine preAuth small careful
  have open_ : info.machine.localRecord.chosen = false := by
    by_contra chosen
    have reached := (steady.machines.closed key info entity live known certain (by simpa using chosen)).1
    omega
  exact EntryStateMachine.promise_granted info.machine next preAuth code (steady.machines.tidy key info live)
    (clean.neat key info live) wide open_ above done

theorem raise_if_clean (s : Site n) (key : EntryKey) (entity : EntityInfo n) (machine : EntryStateMachine n) (pushed : Bool)
    (clean : Clean s) : Clean (s.raiseIfChosen key entity machine pushed) :=
  clean_same s _ clean (by simp) (by simp) fun cmd member => .inl (by simpa using member)

-- What a Get brings is what the plog has.
theorem got_same (s : Site n) (index : Nat) (cmd : PaxosCmd) (entity : EntityInfo n) (info : EntryInfo n) (record : EntryRecord)
    (code : RetCode) (machine : EntryStateMachine n) (steady : Steady s) (clean : Clean s) (next : s.plogRsps[index]? = some cmd)
    (isGet : cmd.plogGetRecord = true) (entryOp : cmd.plogLoad = false) (notSet : cmd.plogSetRecord = false)
    (found : cmd.result = .ok ∧ record = cmd.localEntryRecord ∨ cmd.result = .implPlogNotFound ∧ record = {})
    (live : s.entryInfos cmd.key = some info) (known : s.entityInfos cmd.entityId = some entity)
    (loaded : info.machine.update entity.localAcceptorId record = some (code, machine)) :
    machine.localRecord = (s.plogRecord cmd.key).getD {} := by
  obtain ⟨answered, other, here, asked⟩ := (steady.ops.rsps cmd (List.mem_of_getElem? next)).2
    (rsp_op s index cmd steady.ops next ⟨entryOp, .inr isGet⟩)
  rw [show other = info from Option.some.inj (here.symm.trans live)] at asked
  rw [← steady.machines.ids cmd.key info entity live known] at loaded
  have empty := asked.get notSet
  rcases found with ⟨success, rfl⟩ | ⟨missing, rfl⟩
  · have held := answered.done success
    have wide : 2 ≤ n := steady.ops.wide (by intro none; simp [plogRecord, none] at held)
    obtain ⟨whole, positive⟩ := clean.stored cmd.key _ held
    rw [loaded_whole info.machine machine cmd.localEntryRecord code wide empty whole positive loaded, held]
    rfl
  · rw [answered.missing notSet missing]
    rcases EntryStateMachine.update_cases info.machine machine _ {} code loaded with same | ⟨bound, _, _, newer, _⟩
    · rw [same, EntryStateMachine.localRecord, empty]
      rfl
    · rw [empty] at newer
      cases newer

theorem clean_move (arrives : PaxosCmd → Prop) (s t : Site n) (small : n ≤ kMaxAcceptorNum) (marked : ∀ m ∈ t.marks, m.careful = true)
    (move : Move arrives s t) (steady : Steady s) (beyond : Beyond s) (clients : Clients s) (clean : Clean s) : Clean t := by
  have before : ∀ m ∈ s.marks, m.careful = true := fun m member => marked m ((move_marks arrives s t move).subset member)
  cases move with
  | chosen key entity info pushed => exact clean_same s _ clean (by simp) (by simp) fun cmd member => .inl (by simpa using member)
  | newEntity entityId new =>
      refine clean_same s _ clean rfl rfl fun cmd member => ?_
      rcases List.mem_append.mp member with old | new
      · exact .inl old
      · rw [List.mem_singleton.mp new]
        exact .inr fun operation => by cases operation
  | askPlog cmd entity held known ours =>
      refine clean_same s _ clean rfl rfl fun other member => ?_
      rcases List.mem_append.mp member with old | new
      · exact .inl old
      · rw [List.mem_singleton.mp new]
        exact .inr fun operation => by simp [isOp] at operation
  | entry key old new live allowed =>
      obtain ⟨uncertain, records, sameId, state⟩ := entry_move_machine s key old new allowed
      refine clean_entry s key (some new) clean (fun info here => ?_) fun info here certain => ?_
      · cases here
        exact EntryStateMachine.neat_records old.machine new.machine records sameId state (clean.neat key old live)
      · cases here
        rw [local_records old.machine new.machine records sameId]
        exact clean.same key old live (uncertain.symm.trans certain)
  | createFresh key entity flags pending info absent known openable seen above blank certain =>
      have missing := fresh_missing s key entity before beyond absent known openable above
      refine clean_same (s.setEntry key (some info)) _ (clean_entry s key (some info) clean (fun new here => ?_) fun new here _ => ?_) rfl rfl
        fun _ member => .inl member
      · cases here
        rw [blank.machine]
        exact EntryStateMachine.neat_create _ _
      · cases here
        rw [blank.machine, missing]
        rfl
  | createLoading key entity flags pending info absent known openable seen blank uncertain =>
      refine clean_same (s.setEntry key (some info)) _ (clean_entry s key (some info) clean (fun new here => ?_) fun new here certain => ?_)
        rfl rfl fun cmd member => ?_
      · cases here
        rw [blank.machine]
        exact EntryStateMachine.neat_create _ _
      · cases here
        rw [uncertain] at certain
        cases certain
      · rcases List.mem_append.mp member with old | new
        · exact .inl old
        · rw [List.mem_singleton.mp new]
          exact .inr fun _ isSet => by cases isSet
  | destroy key entity info live known certain =>
      exact clean_same (s.setEntry key none) _ (clean_entry s key none clean (fun _ here => by cases here) fun _ here => by cases here)
        rfl rfl fun _ member => .inl member
  | absorb cmd entity info peer next marks held known ours sender live certain learns same =>
      have tidy := steady.machines.tidy cmd.key info live
      have sameId := steady.machines.ids cmd.key info entity live known
      have other := peer_apart s cmd entity info peer steady known ours sender live
      obtain ⟨neat, _⟩ := learnt_neat s cmd entity info peer next marks steady clients clean known ours sender live learns
      have sameNext := (learns_tidy entity cmd.key peer _ info.machine next marks tidy learns).2
      refine clean_same (s.setEntry cmd.key (some { info with machine := next })) _ (clean_entry s cmd.key _ clean (fun new here => ?_)
        fun new here _ => ?_) rfl rfl fun _ member => .inl member
      · cases here
        exact neat
      · cases here
        have localNext : next.entryRecords entity.localAcceptorId = next.localRecord := by
          rw [EntryStateMachine.localRecord, sameNext, sameId]
        have localOld : info.machine.entryRecords entity.localAcceptorId = info.machine.localRecord := by
          rw [EntryStateMachine.localRecord, sameId]
        rw [localNext, localOld] at same
        dsimp only
        rw [learns_same entity cmd.key peer _ info.machine next marks tidy other learns same]
        exact clean.same cmd.key info live certain
  | store cmd entity info peer next marks held known ours sender live certain learns newer =>
      obtain ⟨neat, _⟩ := learnt_neat s cmd entity info peer next marks steady clients clean known ours sender live learns
      refine clean_same (s.setEntry cmd.key (some { info with machine := next, uncertain := true })) _ (clean_entry s cmd.key _ clean
        (fun new here => ?_) fun new here wrong => ?_) rfl rfl fun other member => ?_
      · cases here
        exact neat
      · cases here
        cases wrong
      · rcases List.mem_append.mp member with old | new
        · exact .inl old
        · rw [List.mem_singleton.mp new]
          exact .inr fun _ _ => newer_positive _ _ (neat.whole _) newer
  | write key entity info client started base reading next valueId marks known ready idle home about matched kind starts live certain writes =>
      obtain ⟨_, sameNext, _⟩ := writes_tidy key started info.machine next valueId marks writes
      obtain ⟨neat, _, positive⟩ := writes_neat key started info.machine next valueId marks small (clean.neat key info live) writes
        fun m member => marked m (List.mem_append_left _ member)
      refine clean_same (s.setEntry key (some { info with machine := next, uncertain := true })) _ (clean_entry s key _ clean
        (fun new here => ?_) fun new here wrong => ?_) rfl rfl fun other member => ?_
      · cases here
        exact neat
      · cases here
        cases wrong
      · rcases List.mem_append.mp member with old | new
        · exact .inl old
        · rw [List.mem_singleton.mp new]
          refine .inr fun _ _ => ?_
          rw [EntryStateMachine.localRecord, sameNext, steady.machines.ids key info entity live known] at positive
          exact positive
  | stray key entity info preAuth code next reading known ready matched live certain done failed numbered =>
      exact absurd (no_stray s key entity info preAuth code next small (marked _ List.mem_cons_self) steady clean known matched live certain
        done) failed
  | openRead key entity info client next known ready idle home kind about matched live certain reset =>
      obtain ⟨records, sameId, state, _⟩ := reset_shape info.machine next reset
      refine clean_same (s.setEntry key (some { info with machine := next })) _ (clean_entry s key _ clean (fun new here => ?_)
        fun new here _ => ?_) rfl rfl fun _ member => .inl member
      · cases here
        exact EntryStateMachine.neat_records info.machine next records sameId state (clean.neat key info live)
      · cases here
        dsimp only
        rw [local_records info.machine next records sameId]
        exact clean.same key info live certain
  | setWritten index cmd result next operation isSet outcome =>
      have member := List.mem_of_getElem? next
      obtain ⟨_, info, live, asked⟩ := steady.ops.reqs cmd member operation
      have written (t : Site n) (plog : t.plog = (cmd.key, cmd.localEntryRecord) :: s.plog) :=
        plog_record_cons s t cmd.key cmd.localEntryRecord plog
      refine ⟨clean.neat, fun key found liveKey certain => ?_, fun key record held => ?_,
        fun other old => clean.sets other (List.mem_of_mem_eraseIdx old)⟩
      · have elsewhere : key ≠ cmd.key := by
          rintro rfl
          rw [show found = info from Option.some.inj (liveKey.symm.trans live), asked.uncertain] at certain
          cases certain
        rw [(written _ rfl).2 key elsewhere]
        exact clean.same key found liveKey certain
      · by_cases same : key = cmd.key
        · subst same
          have record_eq := Option.some.inj (held.symm.trans (written _ rfl).1)
          subst record_eq
          refine ⟨?_, clean.sets cmd member operation isSet⟩
          rw [(asked.set isSet).1]
          exact (clean.neat cmd.key info live).whole _
        · exact clean.stored key record (((written _ rfl).2 key same).symm.trans held)
  | setLost index cmd => exact clean_same s _ clean rfl rfl fun _ member => .inl (List.mem_of_mem_eraseIdx member)
  | getRead index cmd => exact clean_same s _ clean rfl rfl fun _ member => .inl (List.mem_of_mem_eraseIdx member)
  | getLost index cmd => exact clean_same s _ clean rfl rfl fun _ member => .inl (List.mem_of_mem_eraseIdx member)
  | maxRead index maxCommittedEntry cmd => exact clean_same s _ clean rfl rfl fun _ member => .inl (List.mem_of_mem_eraseIdx member)
  | maxLost index cmd => exact clean_same s _ clean rfl rfl fun _ member => .inl (List.mem_of_mem_eraseIdx member)
  | returnChosen index cmd => exact clean_same s _ clean rfl rfl fun _ member => .inl (List.mem_of_mem_eraseIdx member)
  | returnBare index cmd => exact clean_same s _ clean rfl rfl fun _ member => .inl (List.mem_of_mem_eraseIdx member)
  | returnEcho index cmd => exact clean_same s _ clean rfl rfl fun _ member => .inl (List.mem_of_mem_eraseIdx member)
  | setDone index cmd entity info pushed next isSet entryOp done live uncertain known =>
      obtain ⟨answered, other, here, asked⟩ := (steady.ops.rsps cmd (List.mem_of_getElem? next)).2
        (rsp_op s index cmd steady.ops next ⟨entryOp, .inl isSet⟩)
      rw [show other = info from Option.some.inj (here.symm.trans live)] at asked
      refine clean_same _ _ (raise_if_clean (s.setEntry cmd.key (some { info with uncertain := false })) cmd.key entity info.machine pushed
        (clean_entry s cmd.key _ clean (fun new here => ?_) fun new here _ => ?_)) rfl rfl fun _ member => .inl member
      · cases here
        exact clean.neat cmd.key info live
      · cases here
        rw [answered.done done, (asked.set isSet).1]
        rfl
  | getDone index cmd entity info record code machine pushed free next isGet entryOp notSet found live uncertain known loaded =>
      obtain ⟨answered, other, here, asked⟩ := (steady.ops.rsps cmd (List.mem_of_getElem? next)).2
        (rsp_op s index cmd steady.ops next ⟨entryOp, .inr isGet⟩)
      rw [show other = info from Option.some.inj (here.symm.trans live)] at asked
      have neat := EntryStateMachine.neat_load info.machine machine record code (asked.get notSet)
        (by rw [steady.machines.ids cmd.key info entity live known]; exact loaded)
      have same := got_same s index cmd entity info record code machine steady clean next isGet entryOp notSet found live known loaded
      have settled : Clean (s.setEntry cmd.key (some { info with uncertain := false, machine := machine })) :=
        clean_entry s cmd.key _ clean (fun new here => by cases here; exact neat) fun new here _ => by cases here; exact same
      refine clean_same (if code = .ok then _ else _) _ ?_ rfl rfl fun _ member => .inl member
      split
      · exact raise_if_clean _ cmd.key entity machine pushed settled
      · exact settled
  | opFailed index cmd entity info next entryOp failed live uncertain known answered =>
      exact clean_same (s.setEntry cmd.key none) _ (clean_entry s cmd.key none clean (fun _ here => by cases here) fun _ here => by cases here)
        rfl rfl fun _ member => .inl member
  | _ => exact clean_same s _ clean rfl rfl fun _ member => .inl member

end Site

end PaxosStore.Certain
