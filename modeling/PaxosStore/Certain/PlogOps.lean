import PaxosStore.Certain.EventMoves

set_option autoImplicit false

namespace PaxosStore.Certain

open PaxosStore.Consensus

variable {n : Nat}

namespace Site

theorem move_marks (arrives : PaxosCmd → Prop) (s t : Site n) (move : Move arrives s t) : s.marks <:+ t.marks := by
  cases move with
  | note marks allowed => exact List.suffix_append marks s.marks
  | chosen key entity info pushed live certain known closed =>
      rw [raise, handOver]
      split
      · exact List.suffix_cons _ _
      · exact List.suffix_refl _
  | recovered | newEntity | createFresh | createLoading | destroy | openRead | returnChosen => exact List.suffix_cons _ _
  | createGone | opFailed => exact (List.suffix_cons _ _).trans (List.suffix_cons _ _)
  | absorb cmd entity info peer next marks => exact List.suffix_append marks s.marks
  | store cmd entity info peer next marks => exact List.suffix_append marks s.marks
  | write key entity info client started base reading next valueId marks =>
      exact (List.suffix_append reading s.marks).trans (List.suffix_append marks _)
  | stray key entity info preAuth code next reading => exact (List.suffix_append reading s.marks).trans (List.suffix_cons _ _)
  | setDone index cmd entity info pushed =>
      rw [raiseIfChosen, raise, handOver]
      split
      · split
        · exact List.suffix_cons _ _
        · exact List.suffix_refl _
      · exact List.suffix_refl _
  | getDone index cmd entity info record code machine pushed =>
      rw [raiseIfChosen, raise, handOver]
      dsimp only
      split
      · split
        · split
          · exact List.suffix_cons _ _
          · exact List.suffix_refl _
        · exact List.suffix_refl _
      · exact List.suffix_refl _
  | loadDone index cmd entity => exact (List.suffix_cons _ _).trans (List.suffix_append _ _)
  | _ => exact List.suffix_refl _

-- What every move keeps as long as the marks are fine holds after the moves.
theorem moves_keep (arrives : PaxosCmd → Prop) (fine : Mark n → Prop) (Inv : Site n → Prop)
    (step : ∀ s t, (∀ m ∈ t.marks, fine m) → Move arrives s t → Inv s → Inv t) (s t : Site n) (moves : Moves arrives s t)
    (marked : ∀ m ∈ t.marks, fine m) (start : Inv s) : Inv t := by
  induction moves with
  | refl => exact start
  | tail _ move ih =>
      refine step _ _ marked move (ih fun m member => marked m ?_)
      exact (move_marks arrives _ _ move).subset member

end Site

-- No dump asked for an entry of an entity that was loading.
def Mark.settled : Mark n → Bool
  | .dumped _ loading _ _ _ => !loading
  | _ => true

namespace Site

theorem openable_ready (s : Site n) (entity : EntityInfo n) (key : EntryKey) (marked : ∀ m ∈ s.marks, m.settled)
    (openable : Openable s entity key) : entity.loading = false := by
  rcases openable with ⟨ready, _⟩ | dumped
  · exact ready
  · simpa [Mark.settled] using marked _ dumped

-- The part of calmness that the entities decide.
structure Housed (s : Site n) : Prop where
  level : ∀ entityId entity, s.entityInfos entityId = some entity → entity.loading = true →
    entity.maxContChosenEntry = entity.maxChosenEntry
  homes : ∀ key info, s.entryInfos key = some info → ∃ entity, s.entityInfos key.entityId = some entity ∧ entity.loading = false

theorem housed_same (s t : Site n) (housed : Housed s) (entities : t.entityInfos = s.entityInfos) (entries : t.entryInfos = s.entryInfos) :
    Housed t :=
  ⟨by rw [entities]; exact housed.level, by rw [entities, entries]; exact housed.homes⟩

theorem housed_entity (s : Site n) (entityId : Nat) (old new : EntityInfo n) (housed : Housed s)
    (known : s.entityInfos entityId = some old) (ready : old.loading = false → new.loading = false)
    (level : old.loading = true → old.maxContChosenEntry = old.maxChosenEntry → new.loading = true →
      new.maxContChosenEntry = new.maxChosenEntry) : Housed (s.setEntity entityId (some new)) where
  level := by
    intro other entity here loading
    by_cases same : other = entityId
    · subst same
      simp only [setEntity, Function.update_self, Option.some.injEq] at here
      subst here
      cases before : old.loading with
      | false =>
          rw [ready before] at loading
          cases loading
      | true => exact level before (housed.level other old known before) loading
    · exact housed.level other entity (by simpa [setEntity, same] using here) loading
  homes := by
    intro key info live
    obtain ⟨entity, here, open_⟩ := housed.homes key info live
    by_cases same : key.entityId = entityId
    · rw [same, known] at here
      cases here
      exact ⟨new, by simp [setEntity, same], ready open_⟩
    · exact ⟨entity, by simpa [setEntity, same] using here, open_⟩

theorem housed_entry (s : Site n) (key : EntryKey) (info : Option (EntryInfo n)) (housed : Housed s)
    (home : info ≠ none → ∃ entity, s.entityInfos key.entityId = some entity ∧ entity.loading = false) :
    Housed (s.setEntry key info) where
  level := housed.level
  homes := by
    intro other found live
    by_cases same : other = key
    · subst same
      refine home fun none => ?_
      simp [setEntry, none] at live
    · exact housed.homes other found (by simpa [setEntry, same] using live)

-- A live entry is replaced.
theorem housed_live (s : Site n) (key : EntryKey) (old : EntryInfo n) (new : Option (EntryInfo n)) (housed : Housed s)
    (live : s.entryInfos key = some old) : Housed (s.setEntry key new) :=
  housed_entry s key new housed fun _ => housed.homes key old live

theorem housed_raise (s : Site n) (key : EntryKey) (entity : EntityInfo n) (info : EntryInfo n) (machine : EntryStateMachine n)
    (pushed : Bool) (housed : Housed s) (live : s.entryInfos key = some info) (known : s.entityInfos key.entityId = some entity) :
    Housed (s.raise key entity machine pushed) := by
  obtain ⟨other, here, ready⟩ := housed.homes key info live
  rw [known] at here
  cases here
  refine housed_same (s.setEntity key.entityId (some
    (raisedBy entity key.entry (machine.hasAcceptedMyProposal entity.localAcceptorId)))) _ ?_ (by simp [setEntity]) (by simp [setEntity])
  refine housed_entity s key.entityId entity _ housed known (fun _ => by rw [raised_loading]; exact ready) fun loading => ?_
  rw [ready] at loading
  cases loading

theorem housed_raise_if (s : Site n) (key : EntryKey) (entity : EntityInfo n) (info : EntryInfo n) (machine : EntryStateMachine n)
    (pushed : Bool) (housed : Housed s) (live : s.entryInfos key = some info) (known : s.entityInfos key.entityId = some entity) :
    Housed (s.raiseIfChosen key entity machine pushed) := by
  rw [raiseIfChosen]
  split
  · exact housed_raise s key entity info machine pushed housed live known
  · exact housed

theorem entity_move_housed (s : Site n) (entityId : Nat) (old new : EntityInfo n) (housed : Housed s)
    (known : s.entityInfos entityId = some old) (move : EntityMove s entityId old new) : Housed (s.setEntity entityId (some new)) := by
  cases move with
  | heard cmd peer held same ours ahead =>
      refine housed_entity s entityId old _ housed known (fun ready => ready) fun loading => ?_
      rw [ours.2.2] at loading
      cases loading
  | catchup | recover | park | ask | take | number =>
      exact housed_entity s entityId old _ housed known (fun ready => ready) fun _ level _ => level

theorem housed_move (arrives : PaxosCmd → Prop) (s t : Site n) (marked : ∀ m ∈ t.marks, m.settled) (move : Move arrives s t)
    (housed : Housed s) : Housed t := by
  have before : ∀ m ∈ s.marks, m.settled := fun m member => marked m ((move_marks arrives s t move).subset member)
  cases move with
  | entity entityId old new known allowed => exact entity_move_housed s entityId old new housed known allowed
  | recovered entityId entry timestamp old known =>
      refine housed_same (s.setEntity entityId (some (recoveredBy old entry timestamp))) _ ?_ rfl rfl
      refine housed_entity s entityId old _ housed known (fun ready => ready) fun _ level _ => ?_
      simp only [recoveredBy, level]
  | chosen key entity info pushed live certain known closed => exact housed_raise s key entity info info.machine pushed housed live known
  | finish entityId valueId old client result known asking fair =>
      refine housed_same (s.setEntity entityId (some { old with clientCmd := none })) _ ?_ rfl rfl
      exact housed_entity s entityId old _ housed known (fun ready => ready) fun _ level _ => level
  | newEntity entityId new absent loading home fresh idle quiet =>
      refine ⟨fun other entity here load => ?_, fun key info live => ?_⟩
      · by_cases same : other = entityId
        · subst same
          simp only [note, setEntity, Function.update_self, Option.some.injEq] at here
          subst here
          exact fresh.1.trans fresh.2.1.symm
        · exact housed.level other entity (by simpa [note, setEntity, same] using here) load
      · obtain ⟨entity, here, ready⟩ := housed.homes key info live
        have apart : key.entityId ≠ entityId := fun same => absurd (here.symm.trans (same ▸ absent)) (by simp)
        exact ⟨entity, by simpa [note, setEntity, apart] using here, ready⟩
  | entry key old new live allowed => exact housed_live s key old _ housed live
  | createFresh key entity flags pending info absent known openable seen beyond blank certain =>
      refine housed_same (s.setEntry key (some info)) _ (housed_entry s key _ housed fun _ => ?_) rfl rfl
      exact ⟨entity, known, openable_ready s entity key before openable⟩
  | createLoading key entity flags pending info absent known openable seen blank uncertain =>
      refine housed_same (s.setEntry key (some info)) _ (housed_entry s key _ housed fun _ => ?_) rfl rfl
      exact ⟨entity, known, openable_ready s entity key before openable⟩
  | destroy key entity info live known certain =>
      exact housed_same (s.setEntry key none) _ (housed_live s key info none housed live) rfl rfl
  | absorb cmd entity info peer next marks held known ours sender live certain learns same =>
      exact housed_same (s.setEntry cmd.key (some { info with machine := next })) _ (housed_live s cmd.key info _ housed live) rfl rfl
  | store cmd entity info peer next marks held known ours sender live certain learns newer =>
      exact housed_same (s.setEntry cmd.key (some { info with machine := next, uncertain := true })) _
        (housed_live s cmd.key info _ housed live) rfl rfl
  | write key entity info client started base reading next valueId marks known ready idle home about matched kind starts live =>
      refine housed_same ((s.setEntry key (some { info with machine := next, uncertain := true })).setEntity key.entityId
        (some { entity with clientCmd := some { started with valueId := valueId }, uuidBase := base })) _ ?_ rfl rfl
      exact housed_entity _ key.entityId entity _ (housed_live s key info _ housed live) known (fun open_ => open_) fun _ level _ => level
  | stray key entity info preAuth code next reading known ready matched live certain done failed =>
      exact housed_same (s.setEntry key (some { info with machine := next })) _ (housed_live s key info _ housed live) rfl rfl
  | openRead key entity info client next known ready idle home kind about matched live certain reset =>
      refine housed_same ((s.setEntity key.entityId (some
        { entity with clientCmd := some { client with uuid := entity.uuidBase }, uuidBase := entity.uuidBase + 1 })).setEntry key
          (some { info with machine := next })) _ ?_ rfl rfl
      exact housed_live _ key info _ (housed_entity s key.entityId entity _ housed known (fun open_ => open_) fun _ level _ => level) live
  | setDone index cmd entity info pushed next isSet entryOp done live uncertain known =>
      refine housed_same _ _ (housed_raise_if (s.setEntry cmd.key (some { info with uncertain := false })) cmd.key entity
        { info with uncertain := false } info.machine pushed (housed_live s cmd.key info _ housed live) ?_ known) rfl rfl
      simp [setEntry]
  | getDone index cmd entity info record code machine pushed free next isGet entryOp notSet found live uncertain known loaded =>
      have settled := housed_live s cmd.key info (some { info with uncertain := false, machine := machine }) housed live
      refine housed_same (if code = .ok then _ else _) _ ?_ rfl rfl
      split
      · exact housed_raise_if _ cmd.key entity { info with uncertain := false, machine := machine } machine pushed settled
          (by simp [setEntry]) known
      · exact settled
  | opFailed index cmd entity info next entryOp failed live uncertain known answered =>
      exact housed_same (s.setEntry cmd.key none) _ (housed_live s cmd.key info none housed live) rfl rfl
  | loadDone index cmd entity next isLoad done known loading =>
      refine housed_same (s.setEntity cmd.entityId (some
        { Node.updateByLoadFromPlog { entity with loading := false } cmd.entry cmd.maxCommittedEntry with waitingMsg := none })) _ ?_ rfl rfl
      exact housed_entity s cmd.entityId entity _ housed known (fun _ => rfl) fun _ _ wrong => by cases wrong
  | loadFailed index cmd entity next isLoad failed known loading idle =>
      refine ⟨fun other found here load => ?_, fun key info live => ?_⟩
      · by_cases same : other = cmd.entityId
        · subst same
          simp [setEntity] at here
        · exact housed.level other found (by simpa [setEntity, same] using here) load
      · obtain ⟨found, here, ready⟩ := housed.homes key info live
        have apart : key.entityId ≠ cmd.entityId := by
          intro same
          rw [same, known] at here
          cases here
          rw [ready] at loading
          cases loading
        exact ⟨found, by simpa [setEntity, apart] using here, ready⟩
  | _ => exact housed_same s _ housed rfl rfl

theorem calm_move (arrives : PaxosCmd → Prop) (s t : Site n) (marked : ∀ m ∈ t.marks, m.settled) (move : Move arrives s t)
    (calm : Calm s) : Calm t := by
  obtain ⟨level, homes⟩ := housed_move arrives s t marked move ⟨calm.level, calm.homes⟩
  exact ⟨orderly_moves arrives s t (.single move) calm.orderly, level, homes⟩

-- A plog operation on the record of the entry.
def about (key : EntryKey) (cmd : PaxosCmd) : Bool := isOp cmd && decide (cmd.key = key)

def pending (s : Site n) (key : EntryKey) : Nat := s.plogReqs.countP (about key) + s.plogRsps.countP (about key)

-- What an operation and its entry have in common while it is under way.
structure Asked (info : EntryInfo n) (cmd : PaxosCmd) : Prop where
  uncertain : info.uncertain = true
  set : cmd.plogSetRecord = true → cmd.localEntryRecord = info.machine.localRecord ∧ 2 ≤ n
  get : cmd.plogSetRecord = false → ∀ i, info.machine.entryRecords i = {}

structure Answered (durable : Option EntryRecord) (cmd : PaxosCmd) : Prop where
  done : cmd.result = .ok → durable = some cmd.localEntryRecord
  missing : cmd.plogSetRecord = false → cmd.result = .implPlogNotFound → durable = none

-- At most one operation is under way for an entry, and only for one in memory
-- that waits for it.
structure Ops (s : Site n) : Prop where
  solo : ∀ key, s.pending key ≤ 1
  reqs : ∀ cmd ∈ s.plogReqs, isOp cmd = true → cmd.result = .ok ∧ ∃ info, s.entryInfos cmd.key = some info ∧ Asked info cmd
  rsps : ∀ cmd ∈ s.plogRsps, cmd.plogReturnMsg = false ∧
    (isOp cmd = true → Answered (s.plogRecord cmd.key) cmd ∧ ∃ info, s.entryInfos cmd.key = some info ∧ Asked info cmd)
  wide : s.plog ≠ [] → 2 ≤ n

theorem count_erase (counted : PaxosCmd → Bool) (cmds : List PaxosCmd) (index : Nat) (cmd : PaxosCmd) (next : cmds[index]? = some cmd) :
    cmds.countP counted = (cmds.eraseIdx index).countP counted + if counted cmd then 1 else 0 := by
  obtain ⟨bound, here⟩ := List.getElem?_eq_some_iff.mp next
  have split := (List.getElem_cons_eraseIdx_perm bound).countP_eq counted
  rw [← split, List.countP_cons, here]

theorem about_pos (s : Site n) (cmd : PaxosCmd) (operation : isOp cmd = true) (member : cmd ∈ s.plogReqs ∨ cmd ∈ s.plogRsps) :
    0 < s.pending cmd.key := by
  have here : about cmd.key cmd = true := by simp [about, operation]
  rcases member with member | member
  · have := List.countP_pos_iff.mpr ⟨cmd, member, here⟩
    rw [pending]
    omega
  · have := List.countP_pos_iff.mpr ⟨cmd, member, here⟩
    rw [pending]
    omega

theorem ops_same (s t : Site n) (ops : Ops s) (entries : t.entryInfos = s.entryInfos) (reqs : t.plogReqs = s.plogReqs)
    (rsps : t.plogRsps = s.plogRsps) (plog : t.plog = s.plog) : Ops t where
  solo := by
    intro key
    rw [pending, reqs, rsps]
    exact ops.solo key
  reqs := by
    rw [reqs, entries]
    exact ops.reqs
  rsps := by
    intro cmd member
    rw [rsps] at member
    rw [entries, plogRecord, plog]
    exact ops.rsps cmd member
  wide := by
    rw [plog]
    exact ops.wide

theorem quiet_pending (s : Site n) (key : EntryKey) (ops : Ops s) (quiet : ∀ info, s.entryInfos key = some info → info.uncertain = false) :
    s.pending key = 0 := by
  have none (cmds : List PaxosCmd)
      (owned : ∀ cmd ∈ cmds, isOp cmd = true → ∃ info, s.entryInfos cmd.key = some info ∧ Asked info cmd) :
      cmds.countP (about key) = 0 := by
    refine List.countP_eq_zero.mpr fun cmd member here => ?_
    simp only [about, Bool.and_eq_true, decide_eq_true_eq] at here
    obtain ⟨info, live, asked⟩ := owned cmd member here.1
    rw [here.2] at live
    have certain := quiet info live
    rw [asked.uncertain] at certain
    cases certain
  rw [pending, none s.plogReqs fun cmd member operation => (ops.reqs cmd member operation).2,
    none s.plogRsps fun cmd member operation => ((ops.rsps cmd member).2 operation).2]

-- An entry without an operation may be changed at will.
theorem ops_free (s : Site n) (key : EntryKey) (new : Option (EntryInfo n)) (ops : Ops s) (free : s.pending key = 0) :
    Ops (s.setEntry key new) where
  solo := ops.solo
  reqs := by
    intro cmd member operation
    obtain ⟨fine, info, live, asked⟩ := ops.reqs cmd member operation
    have apart : cmd.key ≠ key := fun same => absurd (about_pos s cmd operation (.inl member)) (by rw [same, free]; simp)
    exact ⟨fine, info, by simpa [setEntry, apart] using live, asked⟩
  rsps := by
    intro cmd member
    refine ⟨(ops.rsps cmd member).1, fun operation => ?_⟩
    obtain ⟨answered, info, live, asked⟩ := (ops.rsps cmd member).2 operation
    have apart : cmd.key ≠ key := fun same => absurd (about_pos s cmd operation (.inr member)) (by rw [same, free]; simp)
    exact ⟨answered, info, by simpa [setEntry, apart] using live, asked⟩
  wide := ops.wide

-- An entry that waits keeps what the operation is about.
theorem ops_kept (s : Site n) (key : EntryKey) (old new : EntryInfo n) (ops : Ops s) (live : s.entryInfos key = some old)
    (kept : ∀ cmd, Asked old cmd → Asked new cmd) : Ops (s.setEntry key (some new)) where
  solo := ops.solo
  reqs := by
    intro cmd member operation
    obtain ⟨fine, info, here, asked⟩ := ops.reqs cmd member operation
    by_cases same : cmd.key = key
    · rw [same, live] at here
      cases here
      exact ⟨fine, new, by simp [setEntry, same], kept cmd asked⟩
    · exact ⟨fine, info, by simpa [setEntry, same] using here, asked⟩
  rsps := by
    intro cmd member
    refine ⟨(ops.rsps cmd member).1, fun operation => ?_⟩
    obtain ⟨answered, info, here, asked⟩ := (ops.rsps cmd member).2 operation
    by_cases same : cmd.key = key
    · rw [same, live] at here
      cases here
      exact ⟨answered, new, by simp [setEntry, same], kept cmd asked⟩
    · exact ⟨answered, info, by simpa [setEntry, same] using here, asked⟩
  wide := ops.wide

theorem ops_ask (s t : Site n) (req : PaxosCmd) (info : EntryInfo n) (ops : Ops s) (free : s.pending req.key = 0)
    (live : s.entryInfos req.key = some info) (asked : Asked info req) (fine : req.result = .ok) (entries : t.entryInfos = s.entryInfos)
    (reqs : t.plogReqs = s.plogReqs ++ [req]) (rsps : t.plogRsps = s.plogRsps) (plog : t.plog = s.plog) : Ops t where
  solo := by
    intro key
    have before := ops.solo key
    rw [pending] at before free
    rw [pending, reqs, rsps, List.countP_append, List.countP_singleton]
    split
    · rename_i here
      simp only [about, Bool.and_eq_true, decide_eq_true_eq] at here
      rw [here.2] at free
      omega
    · omega
  reqs := by
    intro cmd member operation
    rw [entries]
    rw [reqs, List.mem_append, List.mem_singleton] at member
    rcases member with member | rfl
    · exact ops.reqs cmd member operation
    · exact ⟨fine, info, live, asked⟩
  rsps := by
    intro cmd member
    rw [rsps] at member
    rw [entries, plogRecord, plog]
    exact ops.rsps cmd member
  wide := by
    rw [plog]
    exact ops.wide

-- Requests that are no operations: a load, or the answer to a peer.
theorem ops_other (s t : Site n) (req : PaxosCmd) (ops : Ops s) (other : isOp req = false) (entries : t.entryInfos = s.entryInfos)
    (reqs : t.plogReqs = s.plogReqs ++ [req]) (rsps : t.plogRsps = s.plogRsps) (plog : t.plog = s.plog) : Ops t where
  solo := by
    intro key
    rw [pending, reqs, rsps, List.countP_append, List.countP_singleton]
    simp only [about, other, Bool.false_and, Bool.false_eq_true, if_false]
    exact ops.solo key
  reqs := by
    intro cmd member operation
    rw [entries]
    rw [reqs, List.mem_append, List.mem_singleton] at member
    rcases member with member | rfl
    · exact ops.reqs cmd member operation
    · rw [other] at operation
      cases operation
  rsps := by
    intro cmd member
    rw [rsps] at member
    rw [entries, plogRecord, plog]
    exact ops.rsps cmd member
  wide := by
    rw [plog]
    exact ops.wide

theorem ops_fewer (s t : Site n) (ops : Ops s) (entries : t.entryInfos = s.entryInfos) (reqs : t.plogReqs.Sublist s.plogReqs)
    (rsps : t.plogRsps.Sublist s.plogRsps) (plog : t.plog = s.plog) : Ops t where
  solo := by
    intro key
    have before := ops.solo key
    have first := reqs.countP_le (p := about key)
    have second := rsps.countP_le (p := about key)
    rw [pending] at before ⊢
    omega
  reqs := by
    intro cmd member operation
    rw [entries]
    exact ops.reqs cmd (reqs.subset member) operation
  rsps := by
    intro cmd member
    rw [entries, plogRecord, plog]
    exact ops.rsps cmd (rsps.subset member)
  wide := by
    rw [plog]
    exact ops.wide

-- A request is executed. The plog may have changed at its key only.
theorem ops_answer (s t : Site n) (index : Nat) (cmd rsp : PaxosCmd) (ops : Ops s) (next : s.plogReqs[index]? = some cmd)
    (operation : isOp cmd = true) (entries : t.entryInfos = s.entryInfos) (reqs : t.plogReqs = s.plogReqs.eraseIdx index)
    (rsps : t.plogRsps = s.plogRsps ++ [rsp]) (sameOp : isOp rsp = true) (sameKey : rsp.key = cmd.key)
    (own : rsp.plogReturnMsg = false) (carried : ∀ info, Asked info cmd → Asked (n := n) info rsp)
    (others : ∀ key, key ≠ cmd.key → t.plogRecord key = s.plogRecord key) (answered : Answered (t.plogRecord cmd.key) rsp)
    (wide : t.plog ≠ [] → 2 ≤ n) : Ops t := by
  have member := List.mem_of_getElem? next
  obtain ⟨_, info, live, asked⟩ := ops.reqs cmd member operation
  have alone : ∀ other, isOp other = true → other.key = cmd.key → other ∉ s.plogRsps := by
    intro other isOther same there
    have before := ops.solo cmd.key
    have first := List.countP_pos_iff.mpr ⟨cmd, member, show about cmd.key cmd = true by simp [about, operation]⟩
    have second := List.countP_pos_iff.mpr ⟨other, there, show about cmd.key other = true by simp [about, isOther, same]⟩
    rw [pending] at before
    omega
  constructor
  · intro key
    have before := ops.solo key
    rw [pending, count_erase (about key) s.plogReqs index cmd next] at before
    rw [pending, reqs, rsps, List.countP_append, List.countP_singleton]
    have same : about key rsp = about key cmd := by simp [about, sameOp, operation, sameKey]
    rw [same]
    omega
  · intro other there isOther
    rw [reqs] at there
    rw [entries]
    exact ops.reqs other (List.mem_of_mem_eraseIdx there) isOther
  · intro other there
    rw [rsps, List.mem_append, List.mem_singleton] at there
    rcases there with there | rfl
    · refine ⟨(ops.rsps other there).1, fun isOther => ?_⟩
      rw [entries, others other.key fun same => alone other isOther same there]
      exact (ops.rsps other there).2 isOther
    · refine ⟨own, fun _ => ?_⟩
      rw [sameKey, entries]
      exact ⟨answered, info, live, carried info asked⟩
  · exact wide

theorem ops_loaded (s t : Site n) (index : Nat) (rsp : PaxosCmd) (ops : Ops s) (load : rsp.plogLoad = true)
    (own : rsp.plogReturnMsg = false) (entries : t.entryInfos = s.entryInfos) (reqs : t.plogReqs = s.plogReqs.eraseIdx index)
    (rsps : t.plogRsps = s.plogRsps ++ [rsp]) (plog : t.plog = s.plog) : Ops t where
  solo := by
    intro key
    have before := ops.solo key
    have fewer := (List.eraseIdx_sublist s.plogReqs index).countP_le (p := about key)
    rw [pending] at before
    rw [pending, reqs, rsps, List.countP_append, List.countP_singleton]
    simp only [about, isOp, load, Bool.not_true, Bool.and_false, Bool.false_and, Bool.false_eq_true, if_false]
    omega
  reqs := by
    intro cmd member operation
    rw [reqs] at member
    rw [entries]
    exact ops.reqs cmd (List.mem_of_mem_eraseIdx member) operation
  rsps := by
    intro cmd member
    rw [rsps, List.mem_append, List.mem_singleton] at member
    rw [entries, plogRecord, plog]
    rcases member with member | rfl
    · exact ops.rsps cmd member
    · exact ⟨own, fun operation => by simp [isOp, load] at operation⟩
  wide := by
    rw [plog]
    exact ops.wide

-- An operation completes: its entry is free again.
theorem ops_complete (s t : Site n) (index : Nat) (cmd : PaxosCmd) (new : Option (EntryInfo n)) (ops : Ops s)
    (next : s.plogRsps[index]? = some cmd) (operation : isOp cmd = true)
    (entries : t.entryInfos = Function.update s.entryInfos cmd.key new) (reqs : t.plogReqs = s.plogReqs)
    (rsps : t.plogRsps = s.plogRsps.eraseIdx index) (plog : t.plog = s.plog) : Ops t := by
  have fewer : Ops { s with plogRsps := s.plogRsps.eraseIdx index } :=
    ops_fewer s _ ops rfl (List.Sublist.refl _) (List.eraseIdx_sublist _ _) rfl
  have free : pending { s with plogRsps := s.plogRsps.eraseIdx index } cmd.key = 0 := by
    have before := ops.solo cmd.key
    have here : about cmd.key cmd = true := by simp [about, operation]
    rw [pending, count_erase (about cmd.key) s.plogRsps index cmd next, here] at before
    rw [pending]
    simp only [if_true] at before ⊢
    omega
  exact ops_same _ t (ops_free _ cmd.key new fewer free) entries reqs rsps plog

theorem rsp_op (s : Site n) (index : Nat) (cmd : PaxosCmd) (ops : Ops s) (next : s.plogRsps[index]? = some cmd)
    (entryOp : cmd.plogLoad = false ∧ (cmd.plogSetRecord = true ∨ cmd.plogGetRecord = true)) : isOp cmd = true := by
  have own := (ops.rsps cmd (List.mem_of_getElem? next)).1
  rcases entryOp with ⟨notLoad, isSet | isGet⟩
  · simp [isOp, own, notLoad, isSet]
  · simp [isOp, own, notLoad, isGet]

-- The machines of the entries in memory: a chosen record is durable once the
-- entry is certain, and the watermark of the entity has reached it.
structure Machines (s : Site n) : Prop where
  ids : ∀ key info entity, s.entryInfos key = some info → s.entityInfos key.entityId = some entity →
    info.machine.localAcceptorId = entity.localAcceptorId
  tidy : ∀ key info, s.entryInfos key = some info → info.machine.Tidy
  closed : ∀ key info entity, s.entryInfos key = some info → s.entityInfos key.entityId = some entity → info.uncertain = false →
    info.machine.localRecord.chosen = true →
      key.entry ≤ entity.maxChosenEntry ∧ s.plogRecord key = some info.machine.localRecord

theorem machines_same (s t : Site n) (machines : Machines s) (entities : t.entityInfos = s.entityInfos)
    (entries : t.entryInfos = s.entryInfos) (plog : t.plog = s.plog) : Machines t := by
  constructor
  · rw [entities, entries]
    exact machines.ids
  · rw [entries]
    exact machines.tidy
  · intro key
    rw [entities, entries, plogRecord, plog]
    exact machines.closed key

theorem machines_entity (s : Site n) (entityId : Nat) (old new : EntityInfo n) (machines : Machines s)
    (known : s.entityInfos entityId = some old) (sameId : new.localAcceptorId = old.localAcceptorId)
    (later : old.maxChosenEntry ≤ new.maxChosenEntry) : Machines (s.setEntity entityId (some new)) where
  ids := by
    intro key info entity live here
    by_cases same : key.entityId = entityId
    · simp only [setEntity, same, Function.update_self, Option.some.injEq] at here
      subst here
      rw [sameId]
      exact machines.ids key info old live (same ▸ known)
    · exact machines.ids key info entity live (by simpa [setEntity, same] using here)
  tidy := machines.tidy
  closed := by
    intro key info entity live here certain marked
    by_cases same : key.entityId = entityId
    · simp only [setEntity, same, Function.update_self, Option.some.injEq] at here
      subst here
      obtain ⟨reached, durable⟩ := machines.closed key info old live (same ▸ known) certain marked
      exact ⟨Nat.le_trans reached later, durable⟩
    · exact machines.closed key info entity live (by simpa [setEntity, same] using here) certain marked

-- An entity without entries comes or goes.
theorem machines_vacant (s : Site n) (entityId : Nat) (new : Option (EntityInfo n)) (machines : Machines s)
    (vacant : ∀ key info, s.entryInfos key = some info → key.entityId ≠ entityId) : Machines (s.setEntity entityId new) where
  ids := by
    intro key info entity live here
    exact machines.ids key info entity live (by simpa [setEntity, vacant key info live] using here)
  tidy := machines.tidy
  closed := by
    intro key info entity live here
    exact machines.closed key info entity live (by simpa [setEntity, vacant key info live] using here)

theorem machines_entry (s : Site n) (key : EntryKey) (entity : EntityInfo n) (new : EntryInfo n) (machines : Machines s)
    (known : s.entityInfos key.entityId = some entity) (sameId : new.machine.localAcceptorId = entity.localAcceptorId)
    (tidy : new.machine.Tidy) (closed : new.uncertain = false → new.machine.localRecord.chosen = true →
      key.entry ≤ entity.maxChosenEntry ∧ s.plogRecord key = some new.machine.localRecord) : Machines (s.setEntry key (some new)) where
  ids := by
    intro other info owner live here
    by_cases same : other = key
    · subst same
      simp only [setEntry, Function.update_self, Option.some.injEq] at live
      subst live
      have equal : owner = entity := Option.some.inj (here.symm.trans known)
      rw [equal]
      exact sameId
    · exact machines.ids other info owner (by simpa [setEntry, same] using live) here
  tidy := by
    intro other info live
    by_cases same : other = key
    · subst same
      simp only [setEntry, Function.update_self, Option.some.injEq] at live
      subst live
      exact tidy
    · exact machines.tidy other info (by simpa [setEntry, same] using live)
  closed := by
    intro other info owner live here
    by_cases same : other = key
    · subst same
      simp only [setEntry, Function.update_self, Option.some.injEq] at live
      subst live
      have equal : owner = entity := Option.some.inj (here.symm.trans known)
      rw [equal]
      exact closed
    · exact machines.closed other info owner (by simpa [setEntry, same] using live) here

theorem machines_gone (s : Site n) (key : EntryKey) (machines : Machines s) : Machines (s.setEntry key none) := by
  have elsewhere : ∀ other info, (s.setEntry key none).entryInfos other = some info → s.entryInfos other = some info := by
    intro other info live
    by_cases same : other = key
    · simp [setEntry, same] at live
    · simpa [setEntry, same] using live
  exact ⟨fun other info entity live => machines.ids other info entity (elsewhere other info live),
    fun other info live => machines.tidy other info (elsewhere other info live),
    fun other info entity live => machines.closed other info entity (elsewhere other info live)⟩

theorem raised_id (entity : EntityInfo n) (entry : Nat) (mine : Bool) :
    (raisedBy entity entry mine).localAcceptorId = entity.localAcceptorId := by
  simp only [raisedBy, Node.chosenWatermarks]
  split <;> split <;> split <;> rfl

theorem raised_chosen (entity : EntityInfo n) (entry : Nat) (mine : Bool) :
    (raisedBy entity entry mine).maxChosenEntry = max entity.maxChosenEntry entry := by
  simp only [raisedBy, Node.chosenWatermarks]
  split <;> split <;> split <;> simp_all <;> omega

theorem sender_apart (entity : EntityInfo n) (cmd : PaxosCmd) (peer : Fin n) (ours : Ours entity cmd) (sender : cmd.peerAcceptorId = peer) :
    peer ≠ entity.localAcceptorId := by
  intro same
  exact ours.2.1 (by rw [sender, ours.1, same])

theorem peers_wide (i j : Fin n) (apart : i ≠ j) : 2 ≤ n := by
  by_contra small
  have left := i.isLt
  have right := j.isLt
  exact apart (Fin.ext (by omega))

-- What a message makes of a machine.
theorem learns_tidy (entity : EntityInfo n) (key : EntryKey) (peer : Fin n) (record : EntryRecord) (machine next : EntryStateMachine n)
    (marks : List (Mark n)) (tidy : machine.Tidy) (learns : Learns entity key peer record machine next marks) :
    next.Tidy ∧ next.localAcceptorId = machine.localAcceptorId := by
  cases learns with
  | update _ code done => exact EntryStateMachine.update_tidy machine next peer record code tidy done
  | propose middle _ done major accepted =>
      obtain ⟨first, sameFirst⟩ := EntryStateMachine.update_tidy machine middle peer record .ok tidy done
      obtain ⟨second, sameSecond⟩ := EntryStateMachine.accept_tidy middle next _ _ _ .ok true first accepted
      exact ⟨second, sameSecond.trans sameFirst⟩
  | repropose middle _ done major accepted =>
      obtain ⟨first, sameFirst⟩ := EntryStateMachine.update_tidy machine middle peer record .ok tidy done
      obtain ⟨second, sameSecond⟩ := EntryStateMachine.accept_tidy middle next _ _ _ .ok false first accepted
      exact ⟨second, sameSecond.trans sameFirst⟩

theorem learns_closed (entity : EntityInfo n) (key : EntryKey) (peer : Fin n) (record : EntryRecord) (machine next : EntryStateMachine n)
    (marks : List (Mark n)) (tidy : machine.Tidy) (other : peer ≠ machine.localAcceptorId) (chosen : machine.localRecord.chosen = true)
    (learns : Learns entity key peer record machine next marks) : next.localRecord = machine.localRecord := by
  cases learns with
  | update _ code done => exact (EntryStateMachine.update_closed machine next peer record code tidy other chosen done).1
  | propose middle _ done major accepted =>
      have closed := (EntryStateMachine.update_closed machine middle peer record .ok tidy other chosen done).2
      rw [closed] at major
      cases major
  | repropose middle _ done major accepted =>
      have closed := (EntryStateMachine.update_closed machine middle peer record .ok tidy other chosen done).2
      rw [closed] at major
      cases major

theorem writes_tidy (key : EntryKey) (client : ClientCmd) (machine next : EntryStateMachine n) (valueId : Nat) (marks : List (Mark n))
    (writes : Writes key client machine next valueId marks) :
    next.Tidy ∧ next.localAcceptorId = machine.localAcceptorId ∧ 2 ≤ n := by
  cases writes with
  | promise preAuth _ done closed =>
      obtain ⟨tidy, same⟩ := EntryStateMachine.promise_tidy machine next preAuth .ok done
      exact ⟨tidy, same, EntryStateMachine.promise_wide machine next preAuth done⟩
  | propose preAuth middle _ done accepted =>
      obtain ⟨first, sameFirst⟩ := EntryStateMachine.promise_tidy machine middle preAuth .ok done
      obtain ⟨second, sameSecond⟩ := EntryStateMachine.accept_tidy middle next _ _ _ .ok true first accepted
      exact ⟨second, sameSecond.trans sameFirst, EntryStateMachine.promise_wide machine middle preAuth done⟩

theorem entry_move_machine (s : Site n) (key : EntryKey) (old new : EntryInfo n) (move : EntryMove s key old new) :
    new.uncertain = old.uncertain ∧ new.machine.entryRecords = old.machine.entryRecords ∧
      new.machine.localAcceptorId = old.machine.localAcceptorId ∧ new.machine.entryState = old.machine.entryState := by
  cases move with
  | book | slot | unslot | count => exact ⟨rfl, rfl, rfl, rfl⟩

theorem tidy_records (m next : EntryStateMachine n) (records : next.entryRecords = m.entryRecords)
    (sameId : next.localAcceptorId = m.localAcceptorId) (state : next.entryState = m.entryState) (tidy : m.Tidy) : next.Tidy := by
  obtain ⟨id, records', flags, state'⟩ := next
  dsimp only at records sameId state
  subst records sameId state
  exact ⟨tidy.chosen, tidy.proposing, tidy.major, tidy.counted⟩

theorem local_records (m next : EntryStateMachine n) (records : next.entryRecords = m.entryRecords)
    (sameId : next.localAcceptorId = m.localAcceptorId) : next.localRecord = m.localRecord := by
  rw [EntryStateMachine.localRecord, records, sameId]
  rfl

theorem asked_kept (old new : EntryInfo n) (uncertain : new.uncertain = old.uncertain)
    (records : new.machine.entryRecords = old.machine.entryRecords) (sameId : new.machine.localAcceptorId = old.machine.localAcceptorId)
    (cmd : PaxosCmd) (asked : Asked old cmd) : Asked new cmd where
  uncertain := uncertain.trans asked.uncertain
  set := by
    rw [local_records old.machine new.machine records sameId]
    exact asked.set
  get := by
    rw [records]
    exact asked.get

theorem plog_record_cons (s t : Site n) (key : EntryKey) (record : EntryRecord) (plog : t.plog = (key, record) :: s.plog) :
    t.plogRecord key = some record ∧ ∀ other, other ≠ key → t.plogRecord other = s.plogRecord other := by
  refine ⟨by simp [plogRecord, plog], fun other apart => ?_⟩
  simp [plogRecord, plog, Ne.symm apart]

theorem ops_move (arrives : PaxosCmd → Prop) (s t : Site n) (move : Move arrives s t) (ops : Ops s) (machines : Machines s) : Ops t := by
  have quiet (key : EntryKey) (info : EntryInfo n) (live : s.entryInfos key = some info) (certain : info.uncertain = false) :
      s.pending key = 0 := by
    refine quiet_pending s key ops fun other here => ?_
    rw [live] at here
    cases here
    exact certain
  have vacant (key : EntryKey) (absent : s.entryInfos key = none) : s.pending key = 0 :=
    quiet_pending s key ops fun other here => absurd (absent.symm.trans here) (by simp)
  cases move with
  | chosen key entity info pushed => exact ops_same s _ ops (by simp) (by simp) (by simp) (by simp)
  | newEntity entityId new => exact ops_other s _ (loadReq entityId) ops rfl rfl rfl rfl rfl
  | askPlog cmd entity held known ours => exact ops_other s _ _ ops (by simp [isOp]) rfl rfl rfl rfl
  | entry key old new live allowed =>
      obtain ⟨uncertain, records, sameId, _⟩ := entry_move_machine s key old new allowed
      exact ops_kept s key old new ops live (asked_kept old new uncertain records sameId)
  | createFresh key entity flags pending info absent known openable seen beyond blank certain =>
      exact ops_same (s.setEntry key (some info)) _ (ops_free s key _ ops (vacant key absent)) rfl rfl rfl rfl
  | createLoading key entity flags pending info absent known openable seen blank uncertain =>
      refine ops_ask (s.setEntry key (some info)) _ (getReq key) info (ops_free s key _ ops (vacant key absent)) (vacant key absent)
        (by simp [setEntry, getReq, PaxosCmd.key]) ⟨uncertain, fun wrong => (by cases wrong), fun _ i => ?_⟩ rfl rfl rfl rfl rfl
      rw [blank.machine]
      rfl
  | destroy key entity info live known certain =>
      exact ops_same (s.setEntry key none) _ (ops_free s key _ ops (quiet key info live certain)) rfl rfl rfl rfl
  | absorb cmd entity info peer next marks held known ours sender live certain learns same =>
      exact ops_same (s.setEntry cmd.key (some { info with machine := next })) _
        (ops_free s cmd.key _ ops (quiet cmd.key info live certain)) rfl rfl rfl rfl
  | store cmd entity info peer next marks held known ours sender live certain learns newer =>
      have free := quiet cmd.key info live certain
      have sameId := (learns_tidy entity cmd.key peer _ info.machine next marks (machines.tidy cmd.key info live) learns).2
      refine ops_ask (s.setEntry cmd.key (some { info with machine := next, uncertain := true })) _
        (setReq cmd.key entity.localAcceptorId (next.entryRecords entity.localAcceptorId)) { info with machine := next, uncertain := true }
        (ops_free s cmd.key _ ops free) free (by simp [setEntry, setReq, PaxosCmd.key])
        ⟨rfl, fun _ => ⟨?_, peers_wide peer entity.localAcceptorId (sender_apart entity cmd peer ours sender)⟩, fun wrong => by cases wrong⟩
        rfl rfl rfl rfl rfl
      rw [EntryStateMachine.localRecord, sameId, machines.ids cmd.key info entity live known]
      rfl
  | write key entity info client started base reading next valueId marks known ready idle home about matched kind starts live certain writes =>
      have free := quiet key info live certain
      obtain ⟨_, sameId, wide⟩ := writes_tidy key started info.machine next valueId marks writes
      refine ops_ask (s.setEntry key (some { info with machine := next, uncertain := true })) _
        (setReq key entity.localAcceptorId (next.entryRecords entity.localAcceptorId)) { info with machine := next, uncertain := true }
        (ops_free s key _ ops free) free (by simp [setEntry, setReq, PaxosCmd.key]) ⟨rfl, fun _ => ⟨?_, wide⟩, fun wrong => by cases wrong⟩
        rfl rfl rfl rfl rfl
      rw [EntryStateMachine.localRecord, sameId, machines.ids key info entity live known]
      rfl
  | stray key entity info preAuth code next reading known ready matched live certain done failed =>
      exact ops_same (s.setEntry key (some { info with machine := next })) _ (ops_free s key _ ops (quiet key info live certain)) rfl rfl
        rfl rfl
  | openRead key entity info client next known ready idle home kind about matched live certain reset =>
      exact ops_same (s.setEntry key (some { info with machine := next })) _ (ops_free s key _ ops (quiet key info live certain)) rfl rfl
        rfl rfl
  | setWritten index cmd result next operation isSet outcome =>
      have written (t : Site n) (plog : t.plog = (cmd.key, cmd.localEntryRecord) :: s.plog) :=
        plog_record_cons s t cmd.key cmd.localEntryRecord plog
      obtain ⟨_, info, _, asked⟩ := ops.reqs cmd (List.mem_of_getElem? next) operation
      refine ops_answer s _ index cmd { cmd with result := result } ops next operation rfl rfl rfl operation rfl ?_
        (fun info asked => ⟨asked.uncertain, asked.set, asked.get⟩) (written _ rfl).2 ⟨fun _ => (written _ rfl).1, fun wrong => ?_⟩
        fun _ => (asked.set isSet).2
      · simp only [isOp, Bool.and_eq_true, Bool.not_eq_true'] at operation
        exact operation.1.1
      · rw [isSet] at wrong
        cases wrong
  | setLost index cmd result next operation isSet failed =>
      refine ops_answer s _ index cmd { cmd with result := result } ops next operation rfl rfl rfl operation rfl ?_
        (fun info asked => ⟨asked.uncertain, asked.set, asked.get⟩) (fun _ _ => rfl)
        ⟨fun success => absurd success failed, fun wrong => ?_⟩ ops.wide
      · simp only [isOp, Bool.and_eq_true, Bool.not_eq_true'] at operation
        exact operation.1.1
      · rw [isSet] at wrong
        cases wrong
  | getRead index cmd next operation isGet =>
      have own : cmd.plogReturnMsg = false := by
        simp only [isOp, Bool.and_eq_true, Bool.not_eq_true'] at operation
        exact operation.1.1
      have fine := (ops.reqs cmd (List.mem_of_getElem? next) operation).1
      cases durable : s.plogRecord cmd.key with
      | none =>
          refine ops_answer s _ index cmd { cmd with result := .implPlogNotFound } ops next operation rfl rfl rfl operation rfl own
            (fun info asked => ⟨asked.uncertain, asked.set, asked.get⟩) (fun _ _ => rfl) ⟨fun wrong => (by cases wrong), fun _ _ => durable⟩
            ops.wide
      | some record =>
          refine ops_answer s _ index cmd { cmd with localEntryRecord := record } ops next operation rfl rfl rfl operation rfl own
            (fun info asked => ⟨asked.uncertain, fun wrong => ?_, asked.get⟩) (fun _ _ => rfl) ⟨fun _ => durable, fun _ missing => ?_⟩ ops.wide
          · rw [isGet] at wrong
            cases wrong
          · rw [fine] at missing
            cases missing
  | getLost index cmd result next operation isGet failed =>
      refine ops_answer s _ index cmd { cmd with result := result } ops next operation rfl rfl rfl operation rfl ?_
        (fun info asked => ⟨asked.uncertain, asked.set, asked.get⟩) (fun _ _ => rfl)
        ⟨fun success => absurd success failed.1, fun _ missing => absurd missing failed.2⟩ ops.wide
      simp only [isOp, Bool.and_eq_true, Bool.not_eq_true'] at operation
      exact operation.1.1
  | maxRead index maxCommittedEntry cmd next isLoad own => exact ops_loaded s _ index _ ops (by exact isLoad) (by exact own) rfl rfl rfl rfl
  | maxLost index cmd result next isLoad own failed => exact ops_loaded s _ index _ ops (by exact isLoad) (by exact own) rfl rfl rfl rfl
  | returnChosen index cmd record next isReturn durable accepted =>
      exact ops_fewer s _ ops rfl (List.eraseIdx_sublist _ _) (List.Sublist.refl _) rfl
  | returnBare index cmd record next isReturn durable result =>
      exact ops_fewer s _ ops rfl (List.eraseIdx_sublist _ _) (List.Sublist.refl _) rfl
  | returnEcho index cmd next isReturn result => exact ops_fewer s _ ops rfl (List.eraseIdx_sublist _ _) (List.Sublist.refl _) rfl
  | setDone index cmd entity info pushed next isSet entryOp done live uncertain known =>
      exact ops_complete s _ index cmd _ ops next (rsp_op s index cmd ops next ⟨entryOp, .inl isSet⟩) (by simp; rfl) (by simp [setEntry]) rfl
        (by simp [setEntry])
  | getDone index cmd entity info record code machine pushed free next isGet entryOp notSet found live uncertain known loaded =>
      have operation := rsp_op s index cmd ops next ⟨entryOp, .inr isGet⟩
      by_cases fine : code = .ok
      · exact ops_complete s _ index cmd _ ops next operation (by simp [fine]; rfl) (by simp [fine, setEntry]) rfl (by simp [fine, setEntry])
      · exact ops_complete s _ index cmd _ ops next operation (by simp [fine]; rfl) (by simp [fine, setEntry]) rfl (by simp [fine, setEntry])
  | opFailed index cmd entity info next entryOp failed live uncertain known answered =>
      exact ops_complete s _ index cmd none ops next (rsp_op s index cmd ops next entryOp) rfl rfl rfl rfl
  | loadDone index cmd entity next isLoad done known loading =>
      exact ops_fewer s _ ops rfl (List.Sublist.refl _) (List.eraseIdx_sublist _ _) rfl
  | loadFailed index cmd entity next isLoad failed known loading idle =>
      exact ops_fewer s _ ops rfl (List.Sublist.refl _) (List.eraseIdx_sublist _ _) rfl
  | ignored index cmd next operation notLoad => exact ops_fewer s _ ops rfl (List.Sublist.refl _) (List.eraseIdx_sublist _ _) rfl
  | _ => exact ops_same s _ ops rfl rfl rfl rfl

theorem newer_chosen (old new : EntryRecord) (same : isRecordNewer old new = false) (marked : new.chosen = true) : old.chosen = true := by
  by_contra open_
  simp [isRecordNewer, open_, marked] at same

-- The record that a Get brings is taken over as it is.
theorem calc_loaded (m next : EntryStateMachine n) (record : EntryRecord) (wide : 2 ≤ n) (empty : ∀ i, m.entryRecords i = {})
    (computed : (m.setLocal record).calcEntryState = some next) : next.localRecord = record := by
  have result := EntryStateMachine.calc_local _ next computed
  rw [EntryStateMachine.local_set_local] at result
  refine result.trans (EntryStateMachine.chosen_eta record _ ?_)
  rw [EntryStateMachine.decided, EntryStateMachine.local_set_local]
  cases marked : record.chosen with
  | true => simp
  | false =>
      have alone : (m.setLocal record).acceptedBy record.acceptedNum ⊆ {m.localAcceptorId} ∨ record.acceptedNum = 0 := by
        by_cases zero : record.acceptedNum = 0
        · exact .inr zero
        · refine .inl fun i member => ?_
          rw [EntryStateMachine.acceptedBy, Finset.mem_filter] at member
          rw [Finset.mem_singleton]
          by_contra other
          have here := member.2
          simp only [EntryStateMachine.setLocal, EntryStateMachine.setRecord, Function.update_of_ne other, empty i] at here
          exact zero here.symm
      simp only [Bool.false_eq_true, false_or]
      refine (decide_eq_false fun accepted => ?_).symm
      rcases alone with few | zero
      · have size := Finset.card_le_card few
        rw [Finset.card_singleton] at size
        omega
      · omega

theorem loaded_record (m next : EntryStateMachine n) (record : EntryRecord) (code : RetCode) (wide : 2 ≤ n)
    (empty : ∀ i, m.entryRecords i = {}) (done : m.update m.localAcceptorId record = some (code, next)) :
    next.localRecord = {} ∨ next.localRecord = record := by
  rcases EntryStateMachine.update_cases m next m.localAcceptorId record code done with
    rfl | ⟨bound, _, _, _, ⟨_, computed⟩ | ⟨other, _⟩ | ⟨other, _⟩⟩
  · exact .inl (empty _)
  · exact .inr (calc_loaded m next record wide empty computed)
  · exact absurd (Fin.ext rfl) other
  · exact absurd (Fin.ext rfl) other

theorem machines_raise (s : Site n) (key : EntryKey) (entity : EntityInfo n) (machine : EntryStateMachine n) (pushed : Bool)
    (machines : Machines s) (known : s.entityInfos key.entityId = some entity) : Machines (s.raise key entity machine pushed) := by
  refine machines_same (s.setEntity key.entityId (some
    (raisedBy entity key.entry (machine.hasAcceptedMyProposal entity.localAcceptorId)))) _ ?_ (by simp [setEntity]) (by simp [setEntity])
    (by simp [setEntity])
  refine machines_entity s key.entityId entity _ machines known (raised_id entity key.entry _) ?_
  rw [raised_chosen]
  exact Nat.le_max_left _ _

-- A completed operation and the UpdateByChosenEntry after it.
theorem machines_settle (s : Site n) (key : EntryKey) (entity : EntityInfo n) (new : EntryInfo n) (pushed : Bool) (machines : Machines s)
    (known : s.entityInfos key.entityId = some entity) (sameId : new.machine.localAcceptorId = entity.localAcceptorId)
    (tidy : new.machine.Tidy) (durable : new.machine.localRecord.chosen = true → s.plogRecord key = some new.machine.localRecord) :
    Machines ((s.setEntry key (some new)).raiseIfChosen key entity new.machine pushed) := by
  rw [raiseIfChosen]
  by_cases closed : new.machine.entryState = .chosen
  · rw [if_pos closed]
    have entities : ((s.setEntry key (some new)).raise key entity new.machine pushed).entityInfos =
        Function.update s.entityInfos key.entityId
          (some (raisedBy entity key.entry (new.machine.hasAcceptedMyProposal entity.localAcceptorId))) := by simp [setEntry]
    refine machines_same ((s.setEntity key.entityId (some
      (raisedBy entity key.entry (new.machine.hasAcceptedMyProposal entity.localAcceptorId)))).setEntry key (some new)) _ ?_
      (entities.trans rfl) (by simp [setEntry, setEntity]) (by simp [setEntry, setEntity])
    refine machines_entry _ key (raisedBy entity key.entry (new.machine.hasAcceptedMyProposal entity.localAcceptorId)) new
      (machines_entity s key.entityId entity _ machines known (raised_id entity key.entry _) ?_) (by simp [setEntity]) ?_ tidy fun _ marked => ⟨?_, durable marked⟩
    · rw [raised_chosen]
      exact Nat.le_max_left _ _
    · rw [raised_id]
      exact sameId
    · rw [raised_chosen]
      exact Nat.le_max_right _ _
  · rw [if_neg closed]
    exact machines_entry s key entity new machines known sameId tidy fun _ marked => absurd (tidy.chosen.mpr marked) closed

-- What a Get brings into the empty machine that waited for it.
theorem got_durable (s : Site n) (index : Nat) (cmd : PaxosCmd) (entity : EntityInfo n) (info : EntryInfo n) (record : EntryRecord)
    (code : RetCode) (machine : EntryStateMachine n) (ops : Ops s) (machines : Machines s) (next : s.plogRsps[index]? = some cmd)
    (isGet : cmd.plogGetRecord = true) (entryOp : cmd.plogLoad = false) (notSet : cmd.plogSetRecord = false)
    (found : cmd.result = .ok ∧ record = cmd.localEntryRecord ∨ cmd.result = .implPlogNotFound ∧ record = {})
    (live : s.entryInfos cmd.key = some info) (known : s.entityInfos cmd.entityId = some entity)
    (loaded : info.machine.update entity.localAcceptorId record = some (code, machine)) :
    machine.localAcceptorId = entity.localAcceptorId ∧ machine.Tidy ∧
      (machine.localRecord.chosen = true → s.plogRecord cmd.key = some machine.localRecord) ∧
        (code ≠ .ok → machine.localRecord = {}) := by
  have operation := rsp_op s index cmd ops next ⟨entryOp, .inr isGet⟩
  obtain ⟨answered, other, here, asked⟩ := (ops.rsps cmd (List.mem_of_getElem? next)).2 operation
  rw [show other = info from Option.some.inj (here.symm.trans live)] at asked
  have sameId := machines.ids cmd.key info entity live known
  obtain ⟨tidy, sameNext⟩ := EntryStateMachine.update_tidy info.machine machine _ record code (machines.tidy cmd.key info live) loaded
  refine ⟨sameNext.trans sameId, tidy, fun marked => ?_, fun failed => ?_⟩
  · rcases found with ⟨success, rfl⟩ | ⟨missing, rfl⟩
    · have held := answered.done success
      have wide : 2 ≤ n := ops.wide (by intro empty; simp [plogRecord, empty] at held)
      rw [← sameId] at loaded
      rcases loaded_record info.machine machine cmd.localEntryRecord code wide (asked.get notSet) loaded with empty | same
      · rw [empty] at marked
        cases marked
      · rw [same]
        exact held
    · have same : machine = info.machine := by
        rcases EntryStateMachine.update_cases info.machine machine _ {} code loaded with same | ⟨bound, _, _, newer, _⟩
        · exact same
        · rw [asked.get notSet] at newer
          cases newer
      rw [same, EntryStateMachine.localRecord, asked.get notSet] at marked
      cases marked
  · rw [Node.update_failed info.machine machine _ record code failed loaded, EntryStateMachine.localRecord, asked.get notSet]

theorem machines_move (arrives : PaxosCmd → Prop) (s t : Site n) (move : Move arrives s t) (housed : Housed s) (ops : Ops s)
    (machines : Machines s) : Machines t := by
  cases move with
  | entity entityId old new known allowed =>
      refine machines_entity s entityId old new machines known ?_ ?_
      · cases allowed <;> rfl
      · cases allowed with
        | heard cmd peer held same ours ahead => exact Nat.le_of_lt ahead
        | catchup | recover | park | ask | take | number => exact Nat.le_refl _
  | recovered entityId entry timestamp old known =>
      refine machines_same (s.setEntity entityId (some (recoveredBy old entry timestamp))) _ ?_ rfl rfl rfl
      exact machines_entity s entityId old _ machines known rfl (Nat.le_max_left _ _)
  | chosen key entity info pushed live certain known closed => exact machines_raise s key entity info.machine pushed machines known
  | finish entityId valueId old client result known asking fair =>
      refine machines_same (s.setEntity entityId (some { old with clientCmd := none })) _ ?_ rfl rfl rfl
      exact machines_entity s entityId old _ machines known rfl (Nat.le_refl _)
  | newEntity entityId new absent loading home fresh idle quiet =>
      refine machines_same (s.setEntity entityId (some new)) _ ?_ rfl rfl rfl
      refine machines_vacant s entityId _ machines fun key info live same => ?_
      obtain ⟨entity, here, _⟩ := housed.homes key info live
      rw [same, absent] at here
      cases here
  | entry key old new live allowed =>
      obtain ⟨entity, known, _⟩ := housed.homes key old live
      obtain ⟨uncertain, records, sameId, state⟩ := entry_move_machine s key old new allowed
      have sameLocal := local_records old.machine new.machine records sameId
      refine machines_entry s key entity new machines known (sameId.trans (machines.ids key old entity live known))
        (tidy_records old.machine new.machine records sameId state (machines.tidy key old live)) ?_
      rw [sameLocal, uncertain]
      exact machines.closed key old entity live known
  | createFresh key entity flags pending info absent known openable seen beyond blank certain =>
      refine machines_same (s.setEntry key (some info)) _ ?_ rfl rfl rfl
      refine machines_entry s key entity info machines known ?_ ?_ fun _ marked => ?_
      · rw [blank.machine]
        rfl
      · rw [blank.machine]
        exact EntryStateMachine.tidy_create _ _
      · rw [blank.machine] at marked
        cases marked
  | createLoading key entity flags pending info absent known openable seen blank uncertain =>
      refine machines_same (s.setEntry key (some info)) _ ?_ rfl rfl rfl
      refine machines_entry s key entity info machines known ?_ ?_ fun _ marked => ?_
      · rw [blank.machine]
        rfl
      · rw [blank.machine]
        exact EntryStateMachine.tidy_create _ _
      · rw [blank.machine] at marked
        cases marked
  | destroy key entity info live known certain => exact machines_same (s.setEntry key none) _ (machines_gone s key machines) rfl rfl rfl
  | absorb cmd entity info peer next marks held known ours sender live certain learns same =>
      have tidy := machines.tidy cmd.key info live
      have sameId := machines.ids cmd.key info entity live known
      obtain ⟨tidyNext, sameNext⟩ := learns_tidy entity cmd.key peer _ info.machine next marks tidy learns
      refine machines_same (s.setEntry cmd.key (some { info with machine := next })) _ ?_ rfl rfl rfl
      refine machines_entry s cmd.key entity _ machines known (sameNext.trans sameId) tidyNext fun _ marked => ?_
      have localNext : next.entryRecords entity.localAcceptorId = next.localRecord := by
        rw [EntryStateMachine.localRecord, sameNext, sameId]
      have localOld : info.machine.entryRecords entity.localAcceptorId = info.machine.localRecord := by
        rw [EntryStateMachine.localRecord, sameId]
      rw [localNext, localOld] at same
      have before := newer_chosen _ _ same marked
      have apart : peer ≠ info.machine.localAcceptorId := by
        rw [sameId]
        exact sender_apart entity cmd peer ours sender
      dsimp only
      rw [learns_closed entity cmd.key peer _ info.machine next marks tidy apart before learns]
      exact machines.closed cmd.key info entity live known certain before
  | store cmd entity info peer next marks held known ours sender live certain learns newer =>
      obtain ⟨tidyNext, sameNext⟩ := learns_tidy entity cmd.key peer _ info.machine next marks (machines.tidy cmd.key info live) learns
      refine machines_same (s.setEntry cmd.key (some { info with machine := next, uncertain := true })) _ ?_ rfl rfl rfl
      exact machines_entry s cmd.key entity _ machines known (sameNext.trans (machines.ids cmd.key info entity live known)) tidyNext
        fun wrong => by cases wrong
  | write key entity info client started base reading next valueId marks known ready idle home about matched kind starts live certain writes =>
      obtain ⟨tidyNext, sameNext, _⟩ := writes_tidy key started info.machine next valueId marks writes
      refine machines_same ((s.setEntry key (some { info with machine := next, uncertain := true })).setEntity key.entityId
        (some { entity with clientCmd := some { started with valueId := valueId }, uuidBase := base })) _ ?_ rfl rfl rfl
      refine machines_entity _ key.entityId entity _ ?_ known rfl (Nat.le_refl _)
      exact machines_entry s key entity _ machines known (sameNext.trans (machines.ids key info entity live known)) tidyNext
        fun wrong => by cases wrong
  | stray key entity info preAuth code next reading known ready matched live certain done failed =>
      have tidy := machines.tidy key info live
      obtain ⟨tidyNext, sameNext⟩ := EntryStateMachine.promise_tidy info.machine next preAuth code done
      refine machines_same (s.setEntry key (some { info with machine := next })) _ ?_ rfl rfl rfl
      refine machines_entry s key entity _ machines known (sameNext.trans (machines.ids key info entity live known)) tidyNext fun _ marked => ?_
      have open_ : info.machine.localRecord.chosen = false := by
        by_contra chosen
        have reached := (machines.closed key info entity live known certain (by simpa using chosen)).1
        omega
      have still := EntryStateMachine.promise_open info.machine next preAuth code tidy open_ done
      rw [still] at marked
      cases marked
  | openRead key entity info client next known ready idle home kind about matched live certain reset =>
      have shape : next.entryRecords = info.machine.entryRecords ∧ next.localAcceptorId = info.machine.localAcceptorId ∧
          next.entryState = info.machine.entryState := by
        rw [EntryStateMachine.resetEmptyFlags] at reset
        split at reset
        · cases reset
          exact ⟨rfl, rfl, rfl⟩
        · cases reset
      obtain ⟨records, sameId, state⟩ := shape
      refine machines_same ((s.setEntry key (some { info with machine := next })).setEntity key.entityId (some
        { entity with clientCmd := some { client with uuid := entity.uuidBase }, uuidBase := entity.uuidBase + 1 })) _ ?_ rfl rfl rfl
      refine machines_entity _ key.entityId entity _ ?_ known rfl (Nat.le_refl _)
      refine machines_entry s key entity _ machines known (sameId.trans (machines.ids key info entity live known))
        (tidy_records info.machine next records sameId state (machines.tidy key info live)) ?_
      dsimp only
      rw [local_records info.machine next records sameId]
      exact machines.closed key info entity live known
  | setWritten index cmd result next operation isSet outcome =>
      obtain ⟨_, info, live, asked⟩ := ops.reqs cmd (List.mem_of_getElem? next) operation
      refine ⟨machines.ids, machines.tidy, fun key found entity here known certain marked => ?_⟩
      have apart : key ≠ cmd.key := by
        rintro rfl
        rw [show found = info from Option.some.inj (here.symm.trans live), asked.uncertain] at certain
        cases certain
      rw [(plog_record_cons s _ cmd.key cmd.localEntryRecord rfl).2 key apart]
      exact machines.closed key found entity here known certain marked
  | setDone index cmd entity info pushed next isSet entryOp done live uncertain known =>
      have operation := rsp_op s index cmd ops next ⟨entryOp, .inl isSet⟩
      obtain ⟨answered, other, here, asked⟩ := (ops.rsps cmd (List.mem_of_getElem? next)).2 operation
      rw [show other = info from Option.some.inj (here.symm.trans live)] at asked
      refine machines_same _ _ (machines_settle s cmd.key entity { info with uncertain := false } pushed machines known
        (machines.ids cmd.key info entity live known) (machines.tidy cmd.key info live) fun _ => ?_) rfl rfl rfl
      rw [answered.done done, (asked.set isSet).1]
  | getDone index cmd entity info record code machine pushed free next isGet entryOp notSet found live uncertain known loaded =>
      obtain ⟨sameId, tidy, durable, unchanged⟩ := got_durable s index cmd entity info record code machine ops machines next isGet entryOp
        notSet found live known loaded
      refine machines_same (if code = .ok then _ else _) _ ?_ rfl rfl rfl
      split
      · exact machines_settle s cmd.key entity { info with uncertain := false, machine := machine } pushed machines known sameId tidy durable
      · rename_i failed
        refine machines_entry s cmd.key entity _ machines known sameId tidy fun _ marked => ?_
        rw [unchanged failed] at marked
        cases marked
  | opFailed index cmd entity info next entryOp failed live uncertain known answered =>
      exact machines_same (s.setEntry cmd.key none) _ (machines_gone s cmd.key machines) rfl rfl rfl
  | loadDone index cmd entity next isLoad done known loading =>
      refine machines_same (s.setEntity cmd.entityId (some
        { Node.updateByLoadFromPlog { entity with loading := false } cmd.entry cmd.maxCommittedEntry with waitingMsg := none })) _ ?_ rfl rfl
        rfl
      refine machines_vacant s cmd.entityId _ machines fun key info live same => ?_
      obtain ⟨owner, here, ready⟩ := housed.homes key info live
      rw [same, known] at here
      cases here
      rw [ready] at loading
      cases loading
  | loadFailed index cmd entity next isLoad failed known loading idle =>
      refine machines_same (s.setEntity cmd.entityId none) _ ?_ rfl rfl rfl
      refine machines_vacant s cmd.entityId _ machines fun key info live same => ?_
      obtain ⟨owner, here, ready⟩ := housed.homes key info live
      rw [same, known] at here
      cases here
      rw [ready] at loading
      cases loading
  | _ => exact machines_same s _ machines rfl rfl rfl

-- What holds of a node at any time.
structure Steady (s : Site n) : Prop where
  calm : Calm s
  ops : Ops s
  machines : Machines s

theorem steady_move (arrives : PaxosCmd → Prop) (s t : Site n) (marked : ∀ m ∈ t.marks, m.settled) (move : Move arrives s t)
    (steady : Steady s) : Steady t where
  calm := calm_move arrives s t marked move steady.calm
  ops := ops_move arrives s t move steady.ops steady.machines
  machines := machines_move arrives s t move ⟨steady.calm.level, steady.calm.homes⟩ steady.ops steady.machines

end Site

namespace Node

theorem steady_start (route : Nat → Fin n) : Site.Steady ((start route).site []) where
  calm :=
    { orderly := ⟨⟨fun _ _ known => (by cases known), fun _ _ live => (by cases live)⟩, fun cmd there => by
        rcases there with held | asked | answered
        · cases held
        · cases asked
        · cases answered⟩
      level := fun _ _ known => by cases known
      homes := fun _ _ live => by cases live }
  ops :=
    { solo := fun _ => Nat.zero_le 1
      reqs := fun _ member => by cases member
      rsps := fun _ member => by cases member
      wide := fun wrong => absurd rfl wrong }
  machines :=
    { ids := fun _ _ _ live => by cases live
      tidy := fun _ _ live => by cases live
      closed := fun _ _ _ live => by cases live }

-- Runs in which no dump asks for an entry of an entity that is still loading.
def settledHandle (o : Options n) (s : Node n) (step : Env n × Event) : Option (Node n) :=
  (s.handle o step.1 step.2).filter fun t => t.marks.all Mark.settled

theorem settled_step (o : Options n) (s t : Node n) (step : Env n × Event) (done : s.settledHandle o step = some t) :
    s.handle o step.1 step.2 = some t ∧ ∀ m ∈ t.marks, m.settled := by
  obtain ⟨handled, marked⟩ := Option.filter_eq_some_iff.mp done
  exact ⟨handled, List.all_eq_true.mp marked⟩

-- What the moves keep holds in every state of such a run.
theorem settled_run (o : Options n) (Inv : Site n → Prop)
    (keeps : ∀ s t, (∀ m ∈ t.marks, m.settled) → Site.Move (fun _ => True) s t → Site.Steady s → Inv s → Inv t)
    (s t : Node n) (steady : Site.Steady (s.site [])) (start : Inv (s.site [])) (run : Reaches (settledHandle o) s t) :
    Site.Steady (t.site []) ∧ Inv (t.site []) := by
  refine run_invariant (settledHandle o) (fun u => Site.Steady (u.site []) ∧ Inv (u.site [])) ?_ s t ⟨steady, start⟩ run
  intro u step v known done
  obtain ⟨handled, marked⟩ := settled_step o u v step done
  have moves := handle_moves (fun _ => True) o u v step.1 step.2 known.1.calm (fun _ _ => trivial) handled
  refine Site.moves_keep (fun _ => True) (fun m => m.settled) (fun x => Site.Steady x ∧ Inv x) ?_ _ _ moves marked known
  intro x y fine move before
  exact ⟨Site.steady_move _ x y fine move before.1, keeps x y fine move before.1 before.2⟩

end Node

end PaxosStore.Certain
