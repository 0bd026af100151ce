import PaxosStore.Certain.PlogOps

set_option autoImplicit false

namespace PaxosStore.Certain

open PaxosStore.Consensus

variable {n : Nat}

namespace Site

-- The last entry handed over in the life of the EntityInfo, or where it began:
-- the marks are read newest first, up to the one that opened the entity.
def level (entityId : Nat) : List (Mark n) → Nat
  | [] => 0
  | .opened id :: rest => if id = entityId then 0 else level entityId rest
  | .loaded id entry :: rest => if id = entityId then max (level entityId rest) entry else level entityId rest
  | .recovered id entry :: rest => if id = entityId then max (level entityId rest) entry else level entityId rest
  | .delivered key _ _ _ :: rest => if key.entityId = entityId then key.entry else level entityId rest
  | _ :: rest => level entityId rest

def ready (entityId : Nat) : List (Mark n) → Bool
  | [] => false
  | .opened id :: rest => if id = entityId then false else ready entityId rest
  | .loaded id _ :: rest => if id = entityId then true else ready entityId rest
  | _ :: rest => ready entityId rest

-- Each hand-over is the next one after the level, of a loaded entity, with a
-- chosen record that the plog holds.
def InOrder : List (Mark n) → Prop
  | [] => True
  | .delivered key record durable _ :: rest =>
      (key.entry = level key.entityId rest + 1 ∧ ready key.entityId rest = true ∧ record.chosen = true ∧ durable = some record) ∧
        InOrder rest
  | _ :: rest => InOrder rest

-- What the db queue has taken.
def handed : List (Mark n) → List ClientCmd
  | [] => []
  | .delivered key record _ true :: rest => handed rest ++ [dbReq key record.value]
  | _ :: rest => handed rest

-- Marks that say nothing about the hand-over.
def neutral : Mark n → Bool
  | .opened _ | .loaded _ _ | .recovered _ _ | .delivered _ _ _ _ => false
  | _ => true

theorem neutral_cons (m : Mark n) (rest : List (Mark n)) (plain : neutral m = true) :
    (∀ entityId, level entityId (m :: rest) = level entityId rest ∧ ready entityId (m :: rest) = ready entityId rest) ∧
      (InOrder (m :: rest) ↔ InOrder rest) ∧ handed (m :: rest) = handed rest := by
  cases m with
  | opened | loaded | recovered | delivered => cases plain
  | _ => exact ⟨fun _ => ⟨rfl, rfl⟩, Iff.rfl, rfl⟩

theorem neutral_append (new rest : List (Mark n)) (plain : ∀ m ∈ new, neutral m = true) :
    (∀ entityId, level entityId (new ++ rest) = level entityId rest ∧ ready entityId (new ++ rest) = ready entityId rest) ∧
      (InOrder (new ++ rest) ↔ InOrder rest) ∧ handed (new ++ rest) = handed rest := by
  induction new with
  | nil => exact ⟨fun _ => ⟨rfl, rfl⟩, Iff.rfl, rfl⟩
  | cons m more ih =>
      obtain ⟨sameLevel, sameOrder, sameHanded⟩ := ih fun other member => plain other (List.mem_cons_of_mem _ member)
      obtain ⟨first, order, queue⟩ := neutral_cons m (more ++ rest) (plain m List.mem_cons_self)
      refine ⟨fun entityId => ⟨?_, ?_⟩, order.trans sameOrder, queue.trans sameHanded⟩
      · exact (first entityId).1.trans (sameLevel entityId).1
      · exact (first entityId).2.trans (sameLevel entityId).2

structure Ladder (s : Site n) : Prop where
  rungs : ∀ entityId entity, s.entityInfos entityId = some entity →
    entity.maxContChosenEntry = level entityId s.marks ∧ entity.loading = !ready entityId s.marks
  order : InOrder s.marks
  queue : s.dbReqs = handed s.marks

theorem ladder_plain (s t : Site n) (new : List (Mark n)) (ladder : Ladder s) (marks : t.marks = new ++ s.marks)
    (plain : ∀ m ∈ new, neutral m = true) (queue : t.dbReqs = s.dbReqs)
    (entities : ∀ entityId entity, t.entityInfos entityId = some entity → ∃ old, s.entityInfos entityId = some old ∧
      entity.maxContChosenEntry = old.maxContChosenEntry ∧ entity.loading = old.loading) : Ladder t := by
  obtain ⟨same, order, handedSame⟩ := neutral_append new s.marks plain
  rw [← marks] at same order handedSame
  refine ⟨fun entityId entity known => ?_, order.mpr ladder.order, by rw [queue, handedSame]; exact ladder.queue⟩
  obtain ⟨old, knownOld, cont, loading⟩ := entities entityId entity known
  rw [(same entityId).1, (same entityId).2, cont, loading]
  exact ladder.rungs entityId old knownOld

theorem ladder_same (s t : Site n) (new : List (Mark n)) (ladder : Ladder s) (marks : t.marks = new ++ s.marks)
    (plain : ∀ m ∈ new, neutral m = true) (queue : t.dbReqs = s.dbReqs) (entities : t.entityInfos = s.entityInfos) : Ladder t :=
  ladder_plain s t new ladder marks plain queue fun entityId entity known => ⟨entity, by rw [← entities]; exact known, rfl, rfl⟩

theorem ladder_entity (s t : Site n) (new : List (Mark n)) (entityId : Nat) (old entity : EntityInfo n) (ladder : Ladder s)
    (marks : t.marks = new ++ s.marks) (plain : ∀ m ∈ new, neutral m = true) (queue : t.dbReqs = s.dbReqs)
    (known : s.entityInfos entityId = some old) (entities : t.entityInfos = Function.update s.entityInfos entityId (some entity))
    (cont : entity.maxContChosenEntry = old.maxContChosenEntry) (loading : entity.loading = old.loading) : Ladder t := by
  refine ladder_plain s t new ladder marks plain queue fun other found here => ?_
  rw [entities] at here
  by_cases same : other = entityId
  · subst same
    simp only [Function.update_self, Option.some.injEq] at here
    subst here
    exact ⟨old, known, cont, loading⟩
  · exact ⟨found, by simpa [same] using here, rfl, rfl⟩

-- A mark that moves the level of one entity.
theorem ladder_step (s t : Site n) (m : Mark n) (entityId : Nat) (entity : EntityInfo n) (ladder : Ladder s)
    (marks : t.marks = m :: s.marks) (entities : t.entityInfos = Function.update s.entityInfos entityId (some entity))
    (apart : ∀ other, other ≠ entityId → level other (m :: s.marks) = level other s.marks ∧ ready other (m :: s.marks) = ready other s.marks)
    (here : entity.maxContChosenEntry = level entityId (m :: s.marks) ∧ entity.loading = !ready entityId (m :: s.marks))
    (order : InOrder (m :: s.marks)) (queue : t.dbReqs = handed (m :: s.marks)) : Ladder t := by
  refine ⟨fun other found known => ?_, by rw [marks]; exact order, by rw [marks]; exact queue⟩
  rw [entities] at known
  rw [marks]
  by_cases same : other = entityId
  · subst same
    simp only [Function.update_self, Option.some.injEq] at known
    subst known
    exact here
  · rw [(apart other same).1, (apart other same).2]
    exact ladder.rungs other found (by simpa [same] using known)

theorem learns_neutral (entity : EntityInfo n) (key : EntryKey) (peer : Fin n) (record : EntryRecord) (machine next : EntryStateMachine n)
    (marks : List (Mark n)) (learns : Learns entity key peer record machine next marks) (m : Mark n) (member : m ∈ marks) :
    neutral m = true := by
  cases learns with
  | update | repropose =>
      rw [List.mem_singleton.mp member]
      rfl
  | propose =>
      rcases List.mem_cons.mp member with rfl | member
      · rfl
      · rw [List.mem_singleton.mp member]
        rfl

theorem writes_neutral (key : EntryKey) (client : ClientCmd) (machine next : EntryStateMachine n) (valueId : Nat) (marks : List (Mark n))
    (writes : Writes key client machine next valueId marks) (m : Mark n) (member : m ∈ marks) : neutral m = true := by
  cases writes with
  | promise =>
      rw [List.mem_singleton.mp member]
      rfl
  | propose =>
      rcases List.mem_cons.mp member with rfl | member
      · rfl
      · rw [List.mem_singleton.mp member]
        rfl

theorem numbered_neutral (key : EntryKey) (entity : EntityInfo n) (reading : List (Mark n)) (numbered : Numbered key entity reading)
    (m : Mark n) (member : m ∈ reading) : neutral m = true := by
  rcases numbered with rfl | ⟨uuid, _, rfl⟩
  · cases member
  · rw [List.mem_singleton.mp member]
    rfl

theorem starts_neutral (key : EntryKey) (entity : EntityInfo n) (client started : ClientCmd) (base : Nat) (reading : List (Mark n))
    (starts : Starts key entity client started base reading) (m : Mark n) (member : m ∈ reading) : neutral m = true := by
  cases starts with
  | plain => cases member
  | read =>
      rw [List.mem_singleton.mp member]
      rfl

theorem notable_neutral (s : Site n) (marks : List (Mark n)) (allowed : Notable s marks) (m : Mark n) (member : m ∈ marks) :
    neutral m = true := by
  cases allowed with
  | dumped | restored | answered =>
      rw [List.mem_singleton.mp member]
      rfl
  | learnt entity info peer cmd next more held known ours sender live certain learns =>
      rcases List.mem_cons.mp member with rfl | member
      · rfl
      · exact learns_neutral entity cmd.key peer _ info.machine next more learns m member
  | wrote entity info client key next valueId more reading known live certain writes numbered =>
      rcases List.mem_cons.mp member with rfl | member
      · rfl
      · rcases List.mem_append.mp member with member | member
        · exact writes_neutral key client info.machine next valueId more writes m member
        · exact numbered_neutral key entity reading numbered m member

theorem raised_next (entity : EntityInfo n) (entry : Nat) (mine : Bool) : (raisedBy entity entry mine).maxContChosenEntry =
    if entity.maxContChosenEntry + 1 = entry then entity.maxContChosenEntry + 1 else entity.maxContChosenEntry := by
  simp only [raisedBy, Node.watermarks_cont]
  split
  · rfl
  · exact Node.watermarks_cont entity entry mine

theorem ladder_raise (s : Site n) (key : EntryKey) (entity : EntityInfo n) (machine : EntryStateMachine n) (pushed : Bool) (ladder : Ladder s)
    (known : s.entityInfos key.entityId = some entity) (loaded : entity.loading = false) (marked : machine.localRecord.chosen = true)
    (durable : s.plogRecord key = some machine.localRecord) : Ladder (s.raise key entity machine pushed) := by
  obtain ⟨cont, loading⟩ := ladder.rungs key.entityId entity known
  have open_ : ready key.entityId s.marks = true := by
    rw [loaded] at loading
    simpa using loading.symm
  by_cases next : entity.maxContChosenEntry + 1 = key.entry
  · refine ladder_step s _ (.delivered key machine.localRecord (s.plogRecord key) pushed) key.entityId
      (raisedBy entity key.entry (machine.hasAcceptedMyProposal entity.localAcceptorId)) ladder ?_ (by simp) ?_ ?_ ?_ ?_
    · rw [raise, handOver, if_pos next]
      rfl
    · intro other apart
      simp [level, ready, Ne.symm apart]
    · rw [raised_next, if_pos next, raised_loading, loaded]
      simp [level, ready, open_, next]
    · exact ⟨⟨by rw [← cont, next], open_, marked, durable⟩, ladder.order⟩
    · rw [raise, handOver, if_pos next]
      cases pushed with
      | false => exact ladder.queue
      | true =>
          simp only [setEntity, if_true, handed]
          rw [ladder.queue]
  · refine ladder_entity s _ [] key.entityId entity _ ladder ?_ (by simp) ?_ known (raise_entities s key entity machine pushed) ?_
      (raised_loading entity key.entry _)
    · rw [raise, handOver, if_neg next]
      rfl
    · rw [raise, handOver, if_neg next]
      rfl
    · rw [raised_next, if_neg next]

theorem ladder_raise_if (s : Site n) (key : EntryKey) (entity : EntityInfo n) (machine : EntryStateMachine n) (pushed : Bool)
    (ladder : Ladder s) (known : s.entityInfos key.entityId = some entity) (loaded : entity.loading = false) (tidy : machine.Tidy)
    (durable : machine.localRecord.chosen = true → s.plogRecord key = some machine.localRecord) :
    Ladder (s.raiseIfChosen key entity machine pushed) := by
  rw [raiseIfChosen]
  split
  · rename_i closed
    have marked := tidy.chosen.mp closed
    exact ladder_raise s key entity machine pushed ladder known loaded marked (durable marked)
  · exact ladder

theorem entity_move_rungs (s : Site n) (entityId : Nat) (old new : EntityInfo n) (move : EntityMove s entityId old new) :
    new.maxContChosenEntry = old.maxContChosenEntry ∧ new.loading = old.loading := by
  cases move with
  | catchup | recover | heard | park | ask | take | number => exact ⟨rfl, rfl⟩

theorem ladder_move (arrives : PaxosCmd → Prop) (s t : Site n) (move : Move arrives s t) (steady : Steady s) (ladder : Ladder s) :
    Ladder t := by
  have loaded (key : EntryKey) (info : EntryInfo n) (entity : EntityInfo n) (live : s.entryInfos key = some info)
      (known : s.entityInfos key.entityId = some entity) : entity.loading = false := by
    obtain ⟨other, here, fine⟩ := steady.calm.homes key info live
    rw [known] at here
    cases here
    exact fine
  cases move with
  | note marks allowed => exact ladder_same s _ marks ladder rfl (notable_neutral s marks allowed) rfl rfl
  | entity entityId old new known allowed =>
      obtain ⟨cont, loading⟩ := entity_move_rungs s entityId old new allowed
      exact ladder_entity s _ [] entityId old new ladder rfl (by simp) rfl known rfl cont loading
  | recovered entityId entry timestamp old known =>
      obtain ⟨cont, loading⟩ := ladder.rungs entityId old known
      refine ladder_step s _ (.recovered entityId entry) entityId (recoveredBy old entry timestamp) ladder rfl rfl ?_ ?_ ladder.order
        ladder.queue
      · intro other apart
        simp [level, ready, Ne.symm apart]
      · simp [level, ready, recoveredBy, cont, loading]
  | chosen key entity info pushed live certain known closed =>
      have marked := (steady.machines.tidy key info live).chosen.mp closed
      exact ladder_raise s key entity info.machine pushed ladder known (loaded key info entity live known) marked
        (steady.machines.closed key info entity live known certain marked).2
  | finish entityId valueId old client result known asking fair =>
      exact ladder_entity s _ [] entityId old _ ladder rfl (by simp) rfl known rfl rfl rfl
  | newEntity entityId new absent loading home fresh idle quiet =>
      refine ladder_step s _ (.opened entityId) entityId new ladder rfl rfl ?_ ?_ ladder.order ladder.queue
      · intro other apart
        simp [level, ready, Ne.symm apart]
      · simp [level, ready, loading, fresh.1]
  | createFresh key entity flags pending info absent known openable seen beyond blank certain =>
      exact ladder_same s _ [.created key flags pending] ladder rfl (by simp [neutral]) rfl rfl
  | createLoading key entity flags pending info absent known openable seen blank uncertain =>
      exact ladder_same s _ [.created key flags pending] ladder rfl (by simp [neutral]) rfl rfl
  | createGone key entity flags pending absent known =>
      exact ladder_same s _ [destroyedMark s entity key, .created key flags pending] ladder rfl (by simp [neutral, destroyedMark]) rfl rfl
  | destroy key entity info live known certain =>
      exact ladder_same s _ [destroyedMark s entity key] ladder rfl (by simp [neutral, destroyedMark]) rfl rfl
  | absorb cmd entity info peer next marks held known ours sender live certain learns same =>
      exact ladder_same s _ marks ladder rfl (learns_neutral entity cmd.key peer _ info.machine next marks learns) rfl rfl
  | store cmd entity info peer next marks held known ours sender live certain learns newer =>
      exact ladder_same s _ marks ladder rfl (learns_neutral entity cmd.key peer _ info.machine next marks learns) rfl rfl
  | write key entity info client started base reading next valueId marks known ready idle home about matched kind starts live certain writes =>
      refine ladder_entity s _ (marks ++ reading) key.entityId entity _ ladder (List.append_assoc _ _ _).symm ?_ rfl known rfl rfl rfl
      intro m member
      rcases List.mem_append.mp member with member | member
      · exact writes_neutral key started info.machine next valueId marks writes m member
      · exact starts_neutral key entity client started base reading starts m member
  | stray key entity info preAuth code next reading known ready matched live certain done failed numbered =>
      refine ladder_same s _ (.promised key info.machine preAuth :: reading) ladder rfl ?_ rfl rfl
      intro m member
      rcases List.mem_cons.mp member with rfl | member
      · rfl
      · exact numbered_neutral key entity reading numbered m member
  | openRead key entity info client next known ready idle home kind about matched live certain reset =>
      exact ladder_entity s _ [.reading key entity.uuidBase] key.entityId entity _ ladder rfl (by simp [neutral]) rfl known rfl rfl rfl
  | returnChosen index cmd record next isReturn durable accepted =>
      exact ladder_same s _ [.returned cmd.key record] ladder rfl (by simp [neutral]) rfl rfl
  | setDone index cmd entity info pushed next isSet entryOp done live uncertain known =>
      have operation := rsp_op s index cmd steady.ops next ⟨entryOp, .inl isSet⟩
      obtain ⟨answered, other, here, asked⟩ := (steady.ops.rsps cmd (List.mem_of_getElem? next)).2 operation
      rw [show other = info from Option.some.inj (here.symm.trans live)] at asked
      have settled : Ladder (s.setEntry cmd.key (some { info with uncertain := false })) :=
        ladder_same s _ [] ladder rfl (by simp) rfl rfl
      have raised := ladder_raise_if _ cmd.key entity info.machine pushed settled known (loaded cmd.key info entity live known)
        (steady.machines.tidy cmd.key info live) fun _ => by
          have held := answered.done done
          rw [(asked.set isSet).1] at held
          exact held
      exact ladder_same _ _ [] raised rfl (by simp) rfl rfl
  | getDone index cmd entity info record code machine pushed free next isGet entryOp notSet found live uncertain known changed =>
      obtain ⟨_, tidy, durable, _⟩ := got_durable s index cmd entity info record code machine steady.ops steady.machines next isGet entryOp
        notSet found live known changed
      have settled : Ladder (s.setEntry cmd.key (some { info with uncertain := false, machine := machine })) :=
        ladder_same s _ [] ladder rfl (by simp) rfl rfl
      refine ladder_same (if code = .ok then _ else _) _ [] ?_ rfl (by simp) rfl rfl
      split
      · exact ladder_raise_if _ cmd.key entity machine pushed settled known (loaded cmd.key info entity live known) tidy durable
      · exact settled
  | opFailed index cmd entity info next entryOp failed live uncertain known answered =>
      exact ladder_same s _ [destroyedMark s entity cmd.key, .lost cmd.key info.machine.localRecord ((s.plogRecord cmd.key).getD {})] ladder
        rfl (by simp [neutral, destroyedMark]) rfl rfl
  | loadDone index cmd entity next isLoad done known loading =>
      obtain ⟨cont, _⟩ := ladder.rungs cmd.entityId entity known
      have opened : Ladder ((s.setEntity cmd.entityId (some
          { Node.updateByLoadFromPlog { entity with loading := false } cmd.entry cmd.maxCommittedEntry with waitingMsg := none })).note
            (.loaded cmd.entityId cmd.maxCommittedEntry)) := by
        refine ladder_step s _ (.loaded cmd.entityId cmd.maxCommittedEntry) cmd.entityId _ ladder rfl rfl ?_ ?_ ladder.order ladder.queue
        · intro other apart
          simp [level, ready, Ne.symm apart]
        · simp [level, ready, Node.updateByLoadFromPlog, cont]
      refine ladder_same _ _ (entity.waitingMsg.map fun msg => Mark.parked msg.key msg.uuid entity.clientCmd).toList opened rfl ?_ rfl rfl
      intro m member
      obtain ⟨msg, _, rfl⟩ := Option.map_eq_some_iff.mp (Option.mem_toList.mp member)
      rfl
  | loadFailed index cmd entity next isLoad failed known loading idle =>
      refine ladder_plain s _ [] ladder rfl (by simp) rfl fun entityId found here => ?_
      by_cases same : entityId = cmd.entityId
      · simp [setEntity, same] at here
      · exact ⟨found, by simpa [setEntity, same] using here, rfl, rfl⟩
  | _ => exact ladder_same s _ [] ladder rfl (by simp) rfl rfl

theorem in_order_at (newer older : List (Mark n)) (key : EntryKey) (record : EntryRecord) (durable : Option EntryRecord) (pushed : Bool)
    (order : InOrder (newer ++ .delivered key record durable pushed :: older)) :
    (key.entry = level key.entityId older + 1 ∧ ready key.entityId older = true ∧ record.chosen = true ∧ durable = some record) ∧
      InOrder older := by
  induction newer with
  | nil => exact order
  | cons m rest ih =>
      apply ih
      cases m with
      | delivered => exact order.2
      | _ => exact order

-- The level never falls while the EntityInfo lives.
theorem level_grows (entityId : Nat) (newer older : List (Mark n)) (order : InOrder (newer ++ older))
    (alive : .opened entityId ∉ newer) : level entityId older ≤ level entityId (newer ++ older) := by
  induction newer with
  | nil => exact Nat.le_refl _
  | cons m rest ih =>
      have before : InOrder (rest ++ older) := by
        cases m with
        | delivered => exact order.2
        | _ => exact order
      have grown := ih before fun member => alive (List.mem_cons_of_mem _ member)
      refine Nat.le_trans grown ?_
      cases m with
      | opened id =>
          have apart : id ≠ entityId := fun same => alive (by rw [same]; exact List.mem_cons_self)
          simp [level, apart]
      | loaded id entry =>
          simp only [List.cons_append, level]
          split <;> omega
      | recovered id entry =>
          simp only [List.cons_append, level]
          split <;> omega
      | delivered key record durable pushed =>
          have next : key.entry = level key.entityId (rest ++ older) + 1 := order.1.1
          simp only [List.cons_append, level]
          split
          · rename_i same
            rw [same] at next
            omega
          · exact Nat.le_refl _
      | _ => exact Nat.le_refl _

theorem ladder_start (route : Nat → Fin n) : Ladder ((Node.start route).site []) where
  rungs := fun _ _ known => by cases known
  order := trivial
  queue := rfl

end Site

open Site

-- Two entries that a peer has chosen; the db queue is full when the first one
-- is stored.
def refusedPush : List (Env 3 × Event) :=
  let record : EntryRecord := { promisedNum := 4, acceptedNum := 4, valueId := 4, value := [7], chosen := true }
  let learn (entry : Nat) : PaxosCmd := { entityId := 1, entry := entry, localAcceptorId := 1, localEntryRecord := record }
  [({}, .paxosCmd (learn 1)), ({}, .plogReq 0 0 .ok), ({}, .plogRsp 0), ({}, .plogReq 0 0 .ok), ({ refusals := [true] }, .plogRsp 0),
    ({}, .paxosCmd (learn 2)), ({}, .plogReq 0 0 .ok), ({}, .plogRsp 0)]

-- The level of every entity begins at 0.
def fromZero : Mark n → Bool
  | .recovered _ _ => false
  | .loaded _ entry => entry = 0
  | _ => true

end PaxosStore.Certain
