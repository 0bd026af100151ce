import PaxosStore.Certain.Durable

set_option autoImplicit false

namespace PaxosStore.Certain

open PaxosStore.Consensus

variable {n : Nat}

namespace Site

-- The entities are the same ones, and their watermarks have not gone down.
structure Grown (s t : Site n) : Prop where
  back : ∀ id new, t.entityInfos id = some new → ∃ old, s.entityInfos id = some old ∧ new.loading = old.loading ∧
    old.maxPlogEntry ≤ new.maxPlogEntry ∧ old.maxContChosenEntry ≤ new.maxContChosenEntry
  on : ∀ id old, s.entityInfos id = some old → ∃ new, t.entityInfos id = some new ∧ new.loading = old.loading

theorem grown_same (s t : Site n) (same : t.entityInfos = s.entityInfos) : Grown s t where
  back := fun id new known => ⟨new, by rw [← same]; exact known, rfl, Nat.le_refl _, Nat.le_refl _⟩
  on := fun id old known => ⟨old, by rw [same]; exact known, rfl⟩

theorem grown_set (s t : Site n) (id : Nat) (old new : EntityInfo n) (known : s.entityInfos id = some old)
    (set : t.entityInfos = Function.update s.entityInfos id (some new)) (loading : new.loading = old.loading)
    (plog : old.maxPlogEntry ≤ new.maxPlogEntry) (cont : old.maxContChosenEntry ≤ new.maxContChosenEntry) : Grown s t where
  back := by
    intro other found here
    rw [set] at here
    by_cases same : other = id
    · subst same
      rw [Function.update_self] at here
      cases here
      exact ⟨old, known, loading, plog, cont⟩
    · rw [Function.update_of_ne same] at here
      exact ⟨found, here, rfl, Nat.le_refl _, Nat.le_refl _⟩
  on := by
    intro other found here
    rw [set]
    by_cases same : other = id
    · subst same
      rw [known] at here
      cases here
      exact ⟨new, Function.update_self .., loading⟩
    · exact ⟨found, by rw [Function.update_of_ne same]; exact here, rfl⟩

theorem watermarks_plog (entity : EntityInfo n) (entry : Nat) (mine : Bool) :
    entity.maxPlogEntry ≤ (Node.chosenWatermarks entity entry mine).maxPlogEntry := by
  unfold Node.chosenWatermarks
  dsimp only
  repeat' split
  all_goals simp

theorem raised_plog (entity : EntityInfo n) (entry : Nat) (mine : Bool) :
    entity.maxPlogEntry ≤ (raisedBy entity entry mine).maxPlogEntry := by
  rw [raisedBy]
  split
  · exact watermarks_plog entity entry mine
  · exact watermarks_plog entity entry mine

theorem raised_grows (entity : EntityInfo n) (entry : Nat) (mine : Bool) :
    entity.maxContChosenEntry ≤ (raisedBy entity entry mine).maxContChosenEntry := by
  rw [raisedBy]
  have same := Node.watermarks_cont entity entry mine
  split
  · dsimp only
    omega
  · exact Nat.le_of_eq same.symm

theorem grown_raise (s : Site n) (key : EntryKey) (entity : EntityInfo n) (machine : EntryStateMachine n) (pushed : Bool)
    (known : s.entityInfos key.entityId = some entity) : Grown s (s.raise key entity machine pushed) :=
  grown_set s _ key.entityId entity _ known (raise_entities s key entity machine pushed) (raised_loading entity key.entry _)
    (raised_plog entity key.entry _) (raised_grows entity key.entry _)

theorem grown_raise_if (s : Site n) (key : EntryKey) (entity : EntityInfo n) (machine : EntryStateMachine n) (pushed : Bool)
    (known : s.entityInfos key.entityId = some entity) : Grown s (s.raiseIfChosen key entity machine pushed) := by
  rw [raiseIfChosen]
  split
  · exact grown_raise s key entity machine pushed known
  · exact grown_same s s rfl

theorem entity_move_grown (s : Site n) (entityId : Nat) (old new : EntityInfo n) (move : EntityMove s entityId old new) :
    new.loading = old.loading ∧ new.maxPlogEntry = old.maxPlogEntry ∧ new.maxContChosenEntry = old.maxContChosenEntry := by
  cases move with
  | catchup | recover | heard | park | ask | take | number => exact ⟨rfl, rfl, rfl⟩

-- Only the first command for an entity and the answer to its load do more.
inductive Shift (s : Site n) : Site n → Prop where
  | grown (t : Site n) (grown : Grown s t) : Shift s t
  | opened (entityId : Nat) (new : EntityInfo n) (absent : s.entityInfos entityId = none) (loading : new.loading = true) :
      Shift s { (s.setEntity entityId (some new)).note (.opened entityId) with plogReqs := s.plogReqs ++ [loadReq entityId] }
  | loaded (index : Nat) (cmd : PaxosCmd) (entity : EntityInfo n) (marks : List (Mark n)) (hand : List PaxosCmd)
      (next : s.plogRsps[index]? = some cmd) (isLoad : cmd.plogLoad = true) (done : cmd.result = .ok)
      (known : s.entityInfos cmd.entityId = some entity) (loading : entity.loading = true) :
      Shift s
        { s.setEntity cmd.entityId (some
            { Node.updateByLoadFromPlog { entity with loading := false } cmd.entry cmd.maxCommittedEntry with
              waitingMsg := none }) with
          plogRsps := s.plogRsps.eraseIdx index
          marks := marks
          hand := hand }
  | dropped (index : Nat) (cmd : PaxosCmd) (entity : EntityInfo n) (next : s.plogRsps[index]? = some cmd) (isLoad : cmd.plogLoad = true)
      (known : s.entityInfos cmd.entityId = some entity) (loading : entity.loading = true) :
      Shift s { s.setEntity cmd.entityId none with plogRsps := s.plogRsps.eraseIdx index }

theorem move_shift (arrives : PaxosCmd → Prop) (s t : Site n) (move : Move arrives s t) : Shift s t := by
  cases move with
  | entity entityId old new known allowed =>
      obtain ⟨loading, plog, cont⟩ := entity_move_grown s entityId old new allowed
      exact .grown _ (grown_set s _ entityId old new known rfl loading plog.ge cont.ge)
  | recovered entityId entry timestamp old known =>
      exact .grown _ (grown_set s _ entityId old _ known rfl rfl (Nat.le_max_left _ _) (Nat.le_max_left _ _))
  | chosen key entity info pushed live certain known closed => exact .grown _ (grown_raise s key entity info.machine pushed known)
  | finish entityId valueId old client result known asking fair =>
      exact .grown _ (grown_set s _ entityId old _ known rfl rfl (Nat.le_refl _) (Nat.le_refl _))
  | newEntity entityId new absent loading => exact .opened entityId new absent loading
  | write key entity info client started base reading next valueId marks known =>
      exact .grown _ (grown_set s _ key.entityId entity _ known rfl rfl (Nat.le_refl _) (Nat.le_refl _))
  | openRead key entity info client next known =>
      exact .grown _ (grown_set s _ key.entityId entity _ known rfl rfl (Nat.le_refl _) (Nat.le_refl _))
  | setDone index cmd entity info pushed next isSet entryOp done live uncertain known =>
      obtain ⟨back, on⟩ := grown_raise_if (s.setEntry cmd.key (some { info with uncertain := false })) cmd.key entity info.machine pushed known
      exact .grown _ ⟨back, on⟩
  | getDone index cmd entity info record code machine pushed free next isGet entryOp notSet found live uncertain known loaded =>
      refine .grown _ ?_
      by_cases fine : code = .ok
      · obtain ⟨back, on⟩ := grown_raise_if (s.setEntry cmd.key (some { info with uncertain := false, machine := machine })) cmd.key entity
          machine pushed known
        rw [if_pos fine]
        exact ⟨back, on⟩
      · rw [if_neg fine]
        exact grown_same s _ rfl
  | loadDone index cmd entity next isLoad done known loading => exact .loaded index cmd entity _ _ next isLoad done known loading
  | loadFailed index cmd entity next isLoad failed known loading idle => exact .dropped index cmd entity next isLoad known loading
  | _ => exact .grown _ (grown_same s _ rfl)

def loads (entityId : Nat) (cmd : PaxosCmd) : Bool := cmd.plogLoad && !cmd.plogReturnMsg && decide (cmd.entityId = entityId)

def loadCount (s : Site n) (entityId : Nat) : Nat := s.plogReqs.countP (loads entityId) + s.plogRsps.countP (loads entityId)

-- At most one load is under way for an entity, it waits for it, and an answer
-- is not below anything the plog has.
structure Loads (s : Site n) : Prop where
  solo : ∀ id, s.loadCount id ≤ 1
  owned : ∀ id, 0 < s.loadCount id → ∃ entity, s.entityInfos id = some entity ∧ entity.loading = true
  top : ∀ cmd ∈ s.plogRsps, cmd.plogLoad = true → cmd.result = .ok →
    ∀ write ∈ s.plog, write.1.entityId = cmd.entityId → write.1.entry ≤ cmd.entry

theorem loads_fewer (s t : Site n) (loads : Loads s) (grown : Grown s t) (fewer : ∀ id, t.loadCount id ≤ s.loadCount id)
    (top : ∀ cmd ∈ t.plogRsps, cmd.plogLoad = true → cmd.result = .ok →
      ∀ write ∈ t.plog, write.1.entityId = cmd.entityId → write.1.entry ≤ cmd.entry) : Loads t where
  solo := fun id => Nat.le_trans (fewer id) (loads.solo id)
  owned := by
    intro id some
    obtain ⟨old, known, loading⟩ := loads.owned id (Nat.lt_of_lt_of_le some (fewer id))
    obtain ⟨new, after, same⟩ := grown.on id old known
    exact ⟨new, after, same.trans loading⟩
  top := top

theorem loads_same (s t : Site n) (loads : Loads s) (grown : Grown s t) (reqs : t.plogReqs = s.plogReqs) (rsps : t.plogRsps = s.plogRsps)
    (plog : t.plog = s.plog) : Loads t :=
  loads_fewer s t loads grown (fun id => by rw [loadCount, loadCount, reqs, rsps]) (by rw [rsps, plog]; exact loads.top)

-- A request that is no load is added.
theorem loads_ask (s t : Site n) (req : PaxosCmd) (known : Loads s) (grown : Grown s t) (other : ∀ id, loads id req = false)
    (reqs : t.plogReqs = s.plogReqs ++ [req]) (rsps : t.plogRsps = s.plogRsps) (plog : t.plog = s.plog) : Loads t := by
  refine loads_fewer s t known grown (fun id => ?_) (by rw [rsps, plog]; exact known.top)
  rw [loadCount, loadCount, reqs, rsps, List.countP_append, List.countP_singleton, other]
  exact Nat.le_refl _

-- A request that is no load is answered.
theorem loads_answer (s t : Site n) (index : Nat) (rsp : PaxosCmd) (known : Loads s) (grown : Grown s t) (other : rsp.plogLoad = false)
    (reqs : t.plogReqs = s.plogReqs.eraseIdx index) (rsps : t.plogRsps = s.plogRsps ++ [rsp])
    (plog : ∀ cmd ∈ s.plogRsps, cmd.plogLoad = true → cmd.result = .ok →
      ∀ write ∈ t.plog, write.1.entityId = cmd.entityId → write.1.entry ≤ cmd.entry) : Loads t := by
  refine loads_fewer s t known grown (fun id => ?_) fun cmd member load => ?_
  · rw [loadCount, loadCount, reqs, rsps, List.countP_append, List.countP_singleton]
    have fewer := (List.eraseIdx_sublist s.plogReqs index).countP_le (p := loads id)
    simp only [loads, other, Bool.false_and, Bool.false_eq_true, if_false] at fewer ⊢
    omega
  · rw [rsps, List.mem_append, List.mem_singleton] at member
    rcases member with member | rfl
    · exact plog cmd member load
    · rw [other] at load
      cases load

theorem loads_shorter (s t : Site n) (known : Loads s) (grown : Grown s t) (reqs : t.plogReqs.Sublist s.plogReqs)
    (rsps : t.plogRsps.Sublist s.plogRsps) (plog : t.plog = s.plog) : Loads t := by
  refine loads_fewer s t known grown (fun id => ?_) fun cmd member => ?_
  · have first := reqs.countP_le (p := loads id)
    have second := rsps.countP_le (p := loads id)
    rw [loadCount, loadCount]
    omega
  · rw [plog]
    exact known.top cmd (rsps.subset member)

-- A load that is answered stays the one load of its entity.
theorem loads_turned (s t : Site n) (index : Nat) (cmd rsp : PaxosCmd) (known : Loads s) (grown : Grown s t)
    (next : s.plogReqs[index]? = some cmd) (turned : ∀ id, loads id rsp = loads id cmd) (reqs : t.plogReqs = s.plogReqs.eraseIdx index)
    (rsps : t.plogRsps = s.plogRsps ++ [rsp]) (plog : t.plog = s.plog)
    (top : rsp.result = .ok → ∀ write ∈ s.plog, write.1.entityId = rsp.entityId → write.1.entry ≤ rsp.entry) : Loads t := by
  refine loads_fewer s t known grown (fun id => ?_) fun other member load done => ?_
  · rw [loadCount, loadCount, reqs, rsps, List.countP_append, List.countP_singleton, turned, count_erase (loads id) s.plogReqs index cmd next]
    omega
  · rw [plog]
    rw [rsps, List.mem_append, List.mem_singleton] at member
    rcases member with member | rfl
    · exact known.top other member load done
    · exact top done

theorem max_entry_bound (entityId : Nat) (plog : List (EntryKey × EntryRecord)) (write : EntryKey × EntryRecord) (member : write ∈ plog)
    (same : write.1.entityId = entityId) : write.1.entry ≤ maxEntryOf plog entityId := by
  have grows (rest : List (EntryKey × EntryRecord)) (start : Nat) : start ≤ rest.foldl
      (fun largest write => if write.1.entityId = entityId then max largest write.1.entry else largest) start := by
    induction rest generalizing start with
    | nil => exact Nat.le_refl _
    | cons first rest ih =>
        refine Nat.le_trans ?_ (ih _)
        dsimp only
        split
        · exact Nat.le_max_left _ _
        · exact Nat.le_refl _
  rw [maxEntryOf]
  generalize 0 = start
  induction plog generalizing start with
  | nil => cases member
  | cons first rest ih =>
      rcases List.mem_cons.mp member with rfl | later
      · rw [List.foldl_cons, if_pos same]
        exact Nat.le_trans (Nat.le_max_right _ _) (grows rest _)
      · exact ih later _

theorem grown_open (s t : Site n) (id : Nat) (grown : Grown s t) (absent : s.entityInfos id = none) : t.entityInfos id = none := by
  by_contra some
  obtain ⟨new, known⟩ := Option.ne_none_iff_exists'.mp some
  obtain ⟨old, before, _⟩ := grown.back id new known
  rw [absent] at before
  cases before

theorem load_count_rsp (s : Site n) (index : Nat) (cmd : PaxosCmd) (next : s.plogRsps[index]? = some cmd) (isLoad : cmd.plogLoad = true)
    (own : cmd.plogReturnMsg = false) (id : Nat) :
    s.loadCount id = loadCount { s with plogRsps := s.plogRsps.eraseIdx index } id + if cmd.entityId = id then 1 else 0 := by
  rw [loadCount, loadCount, count_erase (loads id) s.plogRsps index cmd next]
  simp only [loads, isLoad, own, Bool.not_false, Bool.and_self, Bool.true_and, decide_eq_true_eq]
  omega

theorem loads_grown (arrives : PaxosCmd → Prop) (s t : Site n) (move : Move arrives s t) (steady : Steady s) (grown : Grown s t)
    (known : Loads s) : Loads t := by
  cases move with
  | newEntity entityId new absent loading =>
      have none := grown_open s _ entityId grown absent
      simp [note, setEntity] at none
  | askPlog cmd => exact loads_ask s _ _ known grown (fun id => by simp [loads]) rfl rfl rfl
  | createLoading key entity flags pending info => exact loads_ask s _ (getReq key) known grown (fun id => rfl) rfl rfl rfl
  | store cmd entity info peer next marks => exact loads_ask s _ _ known grown (fun id => rfl) rfl rfl rfl
  | write key entity info client started base reading next valueId marks => exact loads_ask s _ _ known grown (fun id => rfl) rfl rfl rfl
  | setWritten index cmd result next operation isSet outcome =>
      have notLoad : cmd.plogLoad = false := by
        simp only [isOp, Bool.and_eq_true, Bool.not_eq_true'] at operation
        exact operation.1.2
      obtain ⟨_, info, live, _⟩ := steady.ops.reqs cmd (List.mem_of_getElem? next) operation
      obtain ⟨entity, here, ready⟩ := steady.calm.homes cmd.key info live
      refine loads_answer s _ index { cmd with result := result } known grown notLoad rfl rfl fun other member load done write there same => ?_
      rcases List.mem_cons.mp there with rfl | old
      · have counted : 0 < s.loadCount other.entityId := by
          have own := (steady.ops.rsps other member).1
          have := List.countP_pos_iff.mpr ⟨other, member, show loads other.entityId other = true by simp [loads, load, own]⟩
          rw [loadCount]
          omega
        obtain ⟨waiting, found, loading⟩ := known.owned other.entityId counted
        have same : cmd.key.entityId = other.entityId := same
        rw [same, found] at here
        cases here
        rw [loading] at ready
        cases ready
      · exact known.top other member load done write old same
  | setLost index cmd result next operation isSet failed =>
      simp only [isOp, Bool.and_eq_true, Bool.not_eq_true'] at operation
      exact loads_answer s _ index { cmd with result := result } known grown operation.1.2 rfl rfl known.top
  | getRead index cmd next operation isGet =>
      simp only [isOp, Bool.and_eq_true, Bool.not_eq_true'] at operation
      refine loads_answer s _ index _ known grown ?_ rfl rfl known.top
      split
      · exact operation.1.2
      · exact operation.1.2
  | getLost index cmd result next operation isGet failed =>
      simp only [isOp, Bool.and_eq_true, Bool.not_eq_true'] at operation
      exact loads_answer s _ index { cmd with result := result } known grown operation.1.2 rfl rfl known.top
  | maxRead index maxCommittedEntry cmd next isLoad own =>
      exact loads_turned s _ index cmd { cmd with entry := maxEntryOf s.plog cmd.entityId, maxCommittedEntry := maxCommittedEntry } known grown
        next (fun id => rfl) rfl rfl rfl fun _ write there same => max_entry_bound cmd.entityId s.plog write there same
  | maxLost index cmd result next isLoad own failed =>
      exact loads_turned s _ index cmd { cmd with result := result } known grown next (fun id => rfl) rfl rfl rfl
        fun done => absurd done failed
  | returnChosen index cmd record next isReturn durable accepted =>
      exact loads_shorter s _ known grown (List.eraseIdx_sublist _ _) (List.Sublist.refl _) rfl
  | returnBare index cmd record next isReturn durable result =>
      exact loads_shorter s _ known grown (List.eraseIdx_sublist _ _) (List.Sublist.refl _) rfl
  | returnEcho index cmd next isReturn result =>
      exact loads_shorter s _ known grown (List.eraseIdx_sublist _ _) (List.Sublist.refl _) rfl
  | setDone index cmd entity info pushed next isSet entryOp done live uncertain home =>
      exact loads_shorter s _ known grown (by simp [setEntry]) (List.eraseIdx_sublist _ _) (by simp [setEntry])
  | getDone index cmd entity info record code machine pushed free next isGet entryOp notSet found live uncertain home loaded =>
      refine loads_shorter s _ known grown ?_ (List.eraseIdx_sublist _ _) ?_
      · dsimp only
        split <;> simp [setEntry]
      · dsimp only
        split <;> simp [setEntry]
  | opFailed index cmd entity info next => exact loads_shorter s _ known grown (List.Sublist.refl _) (List.eraseIdx_sublist _ _) rfl
  | loadDone index cmd entity next isLoad done home loading =>
      obtain ⟨new, after, same⟩ := grown.on cmd.entityId entity home
      simp only [setEntity, Function.update_self, Option.some.injEq] at after
      rw [← after, loading] at same
      cases same
  | loadFailed index cmd entity next isLoad failed home loading idle =>
      obtain ⟨new, after, _⟩ := grown.on cmd.entityId entity home
      simp [setEntity] at after
  | ignored index cmd next => exact loads_shorter s _ known grown (List.Sublist.refl _) (List.eraseIdx_sublist _ _) rfl
  | chosen key entity info pushed => exact loads_same s _ known grown (by simp) (by simp) (by simp)
  | _ => exact loads_same s _ known grown rfl rfl rfl

-- The answer to the one load is taken.
theorem loads_taken (s t : Site n) (index : Nat) (cmd : PaxosCmd) (known : Loads s) (next : s.plogRsps[index]? = some cmd)
    (isLoad : cmd.plogLoad = true) (own : cmd.plogReturnMsg = false) (reqs : t.plogReqs = s.plogReqs)
    (rsps : t.plogRsps = s.plogRsps.eraseIdx index) (plog : t.plog = s.plog)
    (others : ∀ id, id ≠ cmd.entityId → t.entityInfos id = s.entityInfos id) : Loads t := by
  have counts (id : Nat) : s.loadCount id = t.loadCount id + if cmd.entityId = id then 1 else 0 := by
    rw [load_count_rsp s index cmd next isLoad own id]
    rw [loadCount, loadCount, reqs, rsps]
  refine ⟨fun id => ?_, fun id some => ?_, fun other member => ?_⟩
  · have before := known.solo id
    rw [counts] at before
    omega
  · have before := known.solo id
    rw [counts] at before
    have apart : id ≠ cmd.entityId := by
      rintro rfl
      rw [if_pos rfl] at before
      omega
    rw [others id apart]
    refine known.owned id ?_
    rw [counts]
    omega
  · rw [rsps] at member
    rw [plog]
    exact known.top other (List.mem_of_mem_eraseIdx member)

theorem loads_move (arrives : PaxosCmd → Prop) (s t : Site n) (move : Move arrives s t) (steady : Steady s) (known : Loads s) :
    Loads t := by
  cases move_shift arrives s t move with
  | grown _ grown => exact loads_grown arrives s t move steady grown known
  | opened entityId new absent loading =>
      have fresh : s.loadCount entityId = 0 := by
        by_contra some
        obtain ⟨entity, here, _⟩ := known.owned entityId (Nat.pos_of_ne_zero some)
        rw [absent] at here
        cases here
      have counts (id : Nat) : loadCount { (s.setEntity entityId (some new)).note (.opened entityId) with
          plogReqs := s.plogReqs ++ [loadReq entityId] } id = s.loadCount id + if entityId = id then 1 else 0 := by
        have here : loads id (loadReq entityId) = decide (entityId = id) := rfl
        rw [loadCount, loadCount, List.countP_append, List.countP_singleton, here]
        by_cases same : entityId = id
        · rw [if_pos (by simpa using same), if_pos same]
          exact Nat.add_right_comm _ _ _
        · rw [if_neg (by simpa using same), if_neg same]
          rfl
      refine ⟨fun id => ?_, fun id some => ?_, known.top⟩
      · rw [counts]
        have before := known.solo id
        split
        · rename_i same
          rw [← same, fresh]
        · exact before
      · rw [counts] at some
        by_cases same : id = entityId
        · subst same
          exact ⟨new, by simp [note, setEntity], loading⟩
        · rw [if_neg (Ne.symm same)] at some
          obtain ⟨entity, here, waits⟩ := known.owned id some
          exact ⟨entity, by simpa [note, setEntity, same] using here, waits⟩
  | loaded index cmd entity marks hand next isLoad done home loading =>
      refine loads_taken s _ index cmd known next isLoad (steady.ops.rsps cmd (List.mem_of_getElem? next)).1 rfl rfl rfl fun id apart => ?_
      simp [setEntity, apart]
  | dropped index cmd entity next isLoad home loading =>
      refine loads_taken s _ index cmd known next isLoad (steady.ops.rsps cmd (List.mem_of_getElem? next)).1 rfl rfl rfl fun id apart => ?_
      simp [setEntity, apart]

theorem beyond_more (s t : Site n) (beyond : Beyond s) (grown : Grown s t) (plog : t.plog = s.plog)
    (entries : ∀ key, s.entryInfos key ≠ none → t.entryInfos key ≠ none) : Beyond t := by
  intro key new record known ready held plogBelow contBelow
  obtain ⟨old, before, loading, grownPlog, grownCont⟩ := grown.back key.entityId new known
  rw [plogRecord, plog] at held
  exact entries key (beyond key old record before (loading.symm.trans ready) held (Nat.lt_of_le_of_lt grownPlog plogBelow)
    (Nat.lt_of_le_of_lt grownCont contBelow))

theorem entry_set_some (s t : Site n) (key : EntryKey) (info : EntryInfo n)
    (set : t.entryInfos = Function.update s.entryInfos key (some info)) (other : EntryKey) (live : s.entryInfos other ≠ none) :
    t.entryInfos other ≠ none := by
  rw [set]
  by_cases same : other = key
  · subst same
    simp
  · rw [Function.update_of_ne same]
    exact live

-- What is destroyed is either not in the plog or below a watermark.
theorem beyond_destroyed (s t : Site n) (key : EntryKey) (entity : EntityInfo n) (beyond : Beyond s)
    (known : s.entityInfos key.entityId = some entity) (careful : (destroyedMark s entity key).careful = true)
    (entities : t.entityInfos = s.entityInfos) (plog : t.plog = s.plog) (entries : t.entryInfos = Function.update s.entryInfos key none) :
    Beyond t := by
  intro other found record here ready held plogBelow contBelow
  rw [entities] at here
  rw [plogRecord, plog] at held
  by_cases same : other = key
  · subst same
    rw [known] at here
    cases here
    have present : s.plogRecord other = some record := held
    simp only [destroyedMark, Mark.careful, present, Option.isSome_some, Bool.not_true, Bool.false_or, Bool.or_eq_true,
      decide_eq_true_eq] at careful
    omega
  · rw [entries, Function.update_of_ne same]
    exact beyond other found record here ready held plogBelow contBelow

theorem beyond_grown (arrives : PaxosCmd → Prop) (s t : Site n) (marked : ∀ m ∈ t.marks, m.careful = true) (move : Move arrives s t)
    (steady : Steady s) (grown : Grown s t) (beyond : Beyond s) : Beyond t := by
  cases move with
  | chosen key entity info pushed => exact beyond_more s _ beyond grown (by simp) (by simp)
  | entry key old new => exact beyond_more s _ beyond grown rfl (entry_set_some s _ key new rfl)
  | createFresh key entity flags pending info => exact beyond_more s _ beyond grown rfl (entry_set_some s _ key info rfl)
  | createLoading key entity flags pending info => exact beyond_more s _ beyond grown rfl (entry_set_some s _ key info rfl)
  | destroy key entity info live known certain =>
      exact beyond_destroyed s _ key entity beyond known (marked _ List.mem_cons_self) rfl rfl rfl
  | absorb cmd entity info peer next => exact beyond_more s _ beyond grown rfl (entry_set_some s _ cmd.key _ rfl)
  | store cmd entity info peer next => exact beyond_more s _ beyond grown rfl (entry_set_some s _ cmd.key _ rfl)
  | write key => exact beyond_more s _ beyond grown rfl (entry_set_some s _ key _ rfl)
  | stray key => exact beyond_more s _ beyond grown rfl (entry_set_some s _ key _ rfl)
  | openRead key => exact beyond_more s _ beyond grown rfl (entry_set_some s _ key _ rfl)
  | setWritten index cmd result next operation isSet outcome =>
      obtain ⟨_, info, live, _⟩ := steady.ops.reqs cmd (List.mem_of_getElem? next) operation
      have written (t : Site n) (plog : t.plog = (cmd.key, cmd.localEntryRecord) :: s.plog) :=
        plog_record_cons s t cmd.key cmd.localEntryRecord plog
      intro key found record here ready held plogBelow contBelow
      by_cases same : key = cmd.key
      · rw [same, live]
        simp
      · exact beyond key found record here ready (((written _ rfl).2 key same).symm.trans held) plogBelow contBelow
  | setDone index cmd entity info pushed =>
      refine beyond_more s _ beyond grown (by simp [setEntry]) (entry_set_some s _ cmd.key { info with uncertain := false } ?_)
      simp [setEntry]
  | getDone index cmd entity info record code machine pushed =>
      refine beyond_more s _ beyond grown ?_
        (entry_set_some s _ cmd.key { info with uncertain := false, machine := machine } ?_)
      · dsimp only
        split <;> simp [setEntry]
      · dsimp only
        split <;> simp [setEntry]
  | opFailed index cmd entity info next entryOp failed live uncertain known answered =>
      exact beyond_destroyed s _ cmd.key entity beyond known (marked _ List.mem_cons_self) rfl rfl rfl
  | _ => exact beyond_more s _ beyond grown rfl fun _ live => live

theorem plog_record_mem (s : Site n) (key : EntryKey) (record : EntryRecord) (held : s.plogRecord key = some record) :
    (key, record) ∈ s.plog := by
  obtain ⟨write, found, same⟩ := Option.map_eq_some_iff.mp held
  have here : write.1 = key := by simpa using List.find?_some found
  rw [← here, ← same]
  exact List.mem_of_find?_eq_some found

theorem beyond_move (arrives : PaxosCmd → Prop) (s t : Site n) (marked : ∀ m ∈ t.marks, m.careful = true) (move : Move arrives s t)
    (steady : Steady s) (known : Loads s) (beyond : Beyond s) : Beyond t := by
  cases move_shift arrives s t move with
  | grown _ grown => exact beyond_grown arrives s t marked move steady grown beyond
  | opened entityId new absent loading =>
      intro key found record here ready held plogBelow contBelow
      by_cases same : key.entityId = entityId
      · simp only [note, setEntity, same, Function.update_self, Option.some.injEq] at here
        rw [← here, loading] at ready
        cases ready
      · exact beyond key found record (by simpa [note, setEntity, same] using here) ready held plogBelow contBelow
  | loaded index cmd entity marks hand next isLoad done home loading =>
      intro key found record here ready held plogBelow contBelow
      by_cases same : key.entityId = cmd.entityId
      · simp only [setEntity, same, Function.update_self, Option.some.injEq] at here
        have below : key.entry ≤ cmd.entry := known.top cmd (List.mem_of_getElem? next) isLoad done (key, record)
          (plog_record_mem s key record held) same
        rw [← here] at plogBelow
        simp only [Node.updateByLoadFromPlog] at plogBelow
        omega
      · exact beyond key found record (by simpa [setEntity, same] using here) ready held plogBelow contBelow
  | dropped index cmd entity next isLoad home loading =>
      intro key found record here ready held plogBelow contBelow
      by_cases same : key.entityId = cmd.entityId
      · simp [setEntity, same] at here
      · exact beyond key found record (by simpa [setEntity, same] using here) ready held plogBelow contBelow

theorem ballot_same (s t : Site n) (key : EntryKey) (entries : t.entryInfos key = s.entryInfos key)
    (plog : t.plogRecord key = s.plogRecord key) : t.ballot key = s.ballot key := by
  rw [ballot, ballot, entries, plog]

theorem ballot_certain (s : Site n) (key : EntryKey) (info : EntryInfo n) (clean : Clean s) (live : s.entryInfos key = some info)
    (certain : info.uncertain = false) : s.ballot key = info.machine.localRecord.preparedNum := by
  rw [ballot, live]
  dsimp only
  split
  · rfl
  · rw [clean.same key info live certain]

theorem ballot_stored (s : Site n) (key : EntryKey)
    (empty : ∀ info, s.entryInfos key = some info → info.machine.localRecord.promisedNum = 0) :
    s.ballot key = ((s.plogRecord key).getD {}).preparedNum := by
  rw [ballot]
  split
  · rename_i info live
    rw [if_neg (by rw [empty info live]; omega)]
  · rfl

theorem suits_kept (s t : Site n) (entityId : Nat) (client : ClientCmd) (suits : Suits s entityId client)
    (same : t.ballot ⟨entityId, client.entry⟩ = s.ballot ⟨entityId, client.entry⟩)
    (tokens : ∀ cmd ∈ s.hand, cmd.plogLoad = true → cmd.entityId = entityId → cmd ∈ t.hand)
    (idle : s.hand ≠ [] → ∀ key info, t.entryInfos key = some info → key.entityId = entityId →
      info.machine.localRecord.preparedNum = 0 ∨
        ∃ old, s.entryInfos key = some old ∧ old.machine.localRecord.preparedNum = info.machine.localRecord.preparedNum) :
    Suits t entityId client := by
  refine ⟨?_⟩
  rcases suits.suits with fits | ⟨⟨cmd, held, load, about⟩, nothing⟩
  · rw [same]
    exact .inl fits
  · refine .inr ⟨⟨cmd, tokens cmd held load about, load, about⟩, fun key info live here => ?_⟩
    rcases idle (List.ne_nil_of_mem held) key info live here with zero | ⟨old, before, kept⟩
    · exact zero
    · rw [← kept]
      exact nothing key old before here

-- No loaded entity has a client command that it did not have.
def Asks (s t : Site n) : Prop := ∀ id entity client, t.entityInfos id = some entity → entity.loading = false →
  entity.clientCmd = some client → ∃ old, s.entityInfos id = some old ∧ old.loading = false ∧ old.clientCmd = some client

theorem asks_same (s t : Site n) (same : t.entityInfos = s.entityInfos) : Asks s t := by
  intro id entity client known ready asking
  rw [same] at known
  exact ⟨entity, known, ready, asking⟩

theorem asks_set (s t : Site n) (id : Nat) (old new : EntityInfo n) (known : s.entityInfos id = some old)
    (set : t.entityInfos = Function.update s.entityInfos id (some new)) (loading : new.loading = old.loading)
    (asks : ∀ client, new.loading = false → new.clientCmd = some client → old.clientCmd = some client) : Asks s t := by
  intro other entity client here ready asking
  rw [set] at here
  by_cases same : other = id
  · subst same
    rw [Function.update_self] at here
    cases here
    exact ⟨old, known, loading.symm.trans ready, asks client ready asking⟩
  · rw [Function.update_of_ne same] at here
    exact ⟨entity, here, ready, asking⟩

theorem watermarks_client (entity : EntityInfo n) (entry : Nat) (mine : Bool) :
    (Node.chosenWatermarks entity entry mine).clientCmd = entity.clientCmd := by
  unfold Node.chosenWatermarks
  dsimp only
  repeat' split
  all_goals rfl

theorem raised_client (entity : EntityInfo n) (entry : Nat) (mine : Bool) : (raisedBy entity entry mine).clientCmd = entity.clientCmd := by
  rw [raisedBy]
  split
  · exact watermarks_client entity entry mine
  · exact watermarks_client entity entry mine

theorem asks_raise (s : Site n) (key : EntryKey) (entity : EntityInfo n) (machine : EntryStateMachine n) (pushed : Bool)
    (known : s.entityInfos key.entityId = some entity) : Asks s (s.raise key entity machine pushed) :=
  asks_set s _ key.entityId entity _ known (raise_entities s key entity machine pushed) (raised_loading entity key.entry _)
    fun client _ asking => by rw [raised_client] at asking; exact asking

theorem asks_raise_if (s : Site n) (key : EntryKey) (entity : EntityInfo n) (machine : EntryStateMachine n) (pushed : Bool)
    (known : s.entityInfos key.entityId = some entity) : Asks s (s.raiseIfChosen key entity machine pushed) := by
  rw [raiseIfChosen]
  split
  · exact asks_raise s key entity machine pushed known
  · exact asks_same s s rfl

theorem clients_kept (s t : Site n) (clients : Clients s) (asks : Asks s t)
    (ballots : ∀ key, t.ballot key = s.ballot key) (tokens : ∀ cmd ∈ s.hand, cmd.plogLoad = true → cmd ∈ t.hand)
    (idle : s.hand ≠ [] → ∀ key info, t.entryInfos key = some info → info.machine.localRecord.preparedNum = 0 ∨
      ∃ old, s.entryInfos key = some old ∧ old.machine.localRecord.preparedNum = info.machine.localRecord.preparedNum) : Clients t := by
  intro id entity client known ready asking
  obtain ⟨old, before, wasReady, wasAsking⟩ := asks id entity client known ready asking
  exact suits_kept s t id client (clients id old client before wasReady wasAsking) (ballots _)
    (fun cmd held load _ => tokens cmd held load) fun held key info live _ => idle held key info live

theorem clients_same (s t : Site n) (clients : Clients s) (asks : Asks s t) (entries : t.entryInfos = s.entryInfos)
    (plog : t.plog = s.plog) (tokens : ∀ cmd ∈ s.hand, cmd.plogLoad = true → cmd ∈ t.hand) : Clients t := by
  refine clients_kept s t clients asks (fun key => ballot_same s t key (by rw [entries]) (by rw [plogRecord, plog]; rfl)) tokens ?_
  intro _ key info live
  rw [entries] at live
  exact .inr ⟨info, live, rfl⟩

-- One entry changes and keeps the number it has prepared.
theorem clients_entry (s t : Site n) (key : EntryKey) (new : Option (EntryInfo n)) (clients : Clients s) (asks : Asks s t)
    (entries : t.entryInfos = Function.update s.entryInfos key new) (plog : t.plog = s.plog) (hand : t.hand = s.hand)
    (same : t.ballot key = s.ballot key)
    (idle : s.hand ≠ [] → ∀ info, new = some info → info.machine.localRecord.preparedNum = 0 ∨
      ∃ old, s.entryInfos key = some old ∧ old.machine.localRecord.preparedNum = info.machine.localRecord.preparedNum) : Clients t := by
  refine clients_kept s t clients asks (fun other => ?_) (fun cmd held _ => by rw [hand]; exact held) fun held other info live => ?_
  · by_cases here : other = key
    · rw [here]
      exact same
    · refine ballot_same s t other ?_ (by rw [plogRecord, plog]; rfl)
      rw [entries, Function.update_of_ne here]
  · rw [entries] at live
    by_cases here : other = key
    · subst here
      rw [Function.update_self] at live
      exact idle held info live
    · rw [Function.update_of_ne here] at live
      exact .inr ⟨info, live, rfl⟩

theorem entity_move_asks (s : Site n) (entityId : Nat) (old new : EntityInfo n) (known : s.entityInfos entityId = some old)
    (move : EntityMove s entityId old new) : Asks s (s.setEntity entityId (some new)) := by
  refine asks_set s _ entityId old new known rfl (entity_move_grown s entityId old new move).1 fun client ready asking => ?_
  cases move with
  | ask other same kind idle loading =>
      have waits : old.loading = false := ready
      rw [loading] at waits
      cases waits
  | take => cases asking
  | catchup | recover | heard | park | number => exact asking

theorem blank_ballot (s t : Site n) (key : EntryKey) (info : EntryInfo n) (absent : s.entryInfos key = none)
    (entries : t.entryInfos = Function.update s.entryInfos key (some info)) (plog : t.plog = s.plog)
    (empty : info.machine.localRecord = {}) : t.ballot key = s.ballot key := by
  have after : t.ballot key = ((t.plogRecord key).getD {}).preparedNum := ballot_stored t key fun found live => by
    rw [entries, Function.update_self, Option.some.injEq] at live
    rw [← live, empty]
  have before : s.ballot key = ((s.plogRecord key).getD {}).preparedNum := ballot_stored s key fun found live => by
    rw [absent] at live
    cases live
  rw [after, before, plogRecord, plogRecord, plog]

-- The machine of a certain entry changes and keeps what it has prepared.
theorem certain_ballot (s t : Site n) (key : EntryKey) (info new : EntryInfo n) (clean : Clean s) (live : s.entryInfos key = some info)
    (certain : info.uncertain = false) (entries : t.entryInfos = Function.update s.entryInfos key (some new)) (plog : t.plog = s.plog)
    (kept : new.machine.localRecord.preparedNum = info.machine.localRecord.preparedNum) : t.ballot key = s.ballot key := by
  rw [ballot_certain s key info clean live certain, ballot, entries, Function.update_self]
  dsimp only
  split
  · exact kept
  · rw [clean.same key info live certain, plogRecord, plogRecord, plog]

theorem write_suits (t : Site n) (key : EntryKey) (info : EntryInfo n) (client : ClientCmd)
    (live : t.entryInfos key = some info) (positive : 0 < info.machine.localRecord.promisedNum) (about : client.entry = key.entry)
    (same : client.valueId = info.machine.localRecord.preparedNum) : Suits t key.entityId client := by
  refine ⟨.inl (.inr ?_)⟩
  rw [about, ballot, live, same]
  dsimp only
  rw [if_pos positive]

-- The entry that changes is not one of the entity.
theorem suits_elsewhere (s t : Site n) (key : EntryKey) (new : Option (EntryInfo n)) (id : Nat) (client : ClientCmd)
    (suits : Suits s id client) (apart : id ≠ key.entityId) (entries : t.entryInfos = Function.update s.entryInfos key new)
    (plog : t.plog = s.plog) (hand : t.hand = s.hand) : Suits t id client := by
  have other (at_ : EntryKey) (here : at_.entityId = id) : t.entryInfos at_ = s.entryInfos at_ := by
    rw [entries, Function.update_of_ne]
    rintro rfl
    exact apart here.symm
  refine suits_kept s t id client suits ?_ (fun _ held _ _ => by rw [hand]; exact held) fun _ at_ info live here => ?_
  · exact ballot_same s t _ (other _ rfl) (by rw [plogRecord, plogRecord, plog])
  · exact .inr ⟨info, by rw [← other at_ here]; exact live, rfl⟩

theorem clients_move (arrives : PaxosCmd → Prop) (s t : Site n) (small : n ≤ kMaxAcceptorNum) (marked : ∀ m ∈ t.marks, m.careful = true)
    (move : Move arrives s t) (steady : Steady s) (clean : Clean s) (clients : Clients s) : Clients t := by
  cases move with
  | hold cmd allowed => exact clients_same s _ clients (asks_same s _ rfl) rfl rfl fun _ held _ => List.mem_cons_of_mem _ held
  | release rest fewer tokens => exact clients_same s _ clients (asks_same s _ rfl) rfl rfl fun cmd held load => tokens cmd held load
  | unload cmd rest held idle =>
      intro id entity client known ready asking
      refine suits_kept s _ id client (clients id entity client known ready asking) rfl (fun other there load about => ?_)
        fun _ key info live _ => .inr ⟨info, live, rfl⟩
      rw [held] at there
      rcases List.mem_cons.mp there with rfl | later
      · have none := idle entity (by rw [about]; exact known)
        rw [none] at asking
        cases asking
      · exact later
  | entity entityId old new known allowed =>
      exact clients_same s _ clients (entity_move_asks s entityId old new known allowed) rfl rfl fun _ held _ => held
  | recovered entityId entry timestamp old known =>
      exact clients_same s _ clients (asks_set s _ entityId old _ known rfl rfl fun _ _ asking => asking) rfl rfl fun _ held _ => held
  | chosen key entity info pushed live certain known closed =>
      exact clients_same s _ clients (asks_raise s key entity info.machine pushed known) (by simp) (by simp) fun _ held _ => by simpa using held
  | finish entityId valueId old client result known asking fair =>
      exact clients_same s _ clients (asks_set s _ entityId old _ known rfl rfl fun _ _ wrong => by cases wrong) rfl rfl fun _ held _ => held
  | newEntity entityId new absent loading home fresh idle quiet =>
      refine clients_same s _ clients (fun id entity client known ready asking => ?_) rfl rfl fun _ held _ => held
      by_cases same : id = entityId
      · subst same
        simp only [note, setEntity, Function.update_self, Option.some.injEq] at known
        rw [← known, loading] at ready
        cases ready
      · exact ⟨entity, by simpa [note, setEntity, same] using known, ready, asking⟩
  | entry key old new live allowed =>
      obtain ⟨_, records, sameId, _⟩ := entry_move_machine s key old new allowed
      have same := local_records old.machine new.machine records sameId
      refine clients_entry s _ key (some new) clients (asks_same s _ rfl) rfl rfl rfl ?_ fun _ info here => ?_
      · rw [ballot, ballot, live]
        simp only [setEntry, Function.update_self, same]
        rfl
      · cases here
        exact .inr ⟨old, live, by rw [same]⟩
  | createFresh key entity flags pending info absent known openable seen beyond blank certain =>
      have empty : info.machine.localRecord = {} := by
        rw [blank.machine]
        rfl
      refine clients_entry s _ key (some info) clients (asks_same s _ rfl) rfl rfl rfl (blank_ballot s _ key info absent rfl rfl empty)
        fun _ new here => ?_
      cases here
      rw [empty]
      exact .inl rfl
  | createLoading key entity flags pending info absent known openable seen blank uncertain =>
      have empty : info.machine.localRecord = {} := by
        rw [blank.machine]
        rfl
      refine clients_entry s _ key (some info) clients (asks_same s _ rfl) rfl rfl rfl (blank_ballot s _ key info absent rfl rfl empty)
        fun _ new here => ?_
      cases here
      rw [empty]
      exact .inl rfl
  | destroy key entity info live known certain =>
      refine clients_entry s _ key none clients (asks_same s _ rfl) rfl rfl rfl ?_ fun _ _ here => by cases here
      rw [ballot_certain s key info clean live certain, ballot_stored _ key fun found here => ?_]
      · rw [clean.same key info live certain]
        rfl
      · simp [note, setEntry] at here
  | absorb cmd entity info peer next marks held known ours sender live certain learns same =>
      obtain ⟨_, kept⟩ := learnt_neat s cmd entity info peer next marks steady clients clean known ours sender live learns
      refine clients_entry s _ cmd.key (some { info with machine := next }) clients (asks_same s _ rfl) rfl rfl rfl
        (certain_ballot s _ cmd.key info _ clean live certain rfl rfl kept) fun _ new here => ?_
      cases here
      exact .inr ⟨info, live, kept.symm⟩
  | store cmd entity info peer next marks held known ours sender live certain learns newer =>
      obtain ⟨_, kept⟩ := learnt_neat s cmd entity info peer next marks steady clients clean known ours sender live learns
      refine clients_entry s _ cmd.key (some { info with machine := next, uncertain := true }) clients (asks_same s _ rfl) rfl rfl rfl
        (certain_ballot s _ cmd.key info _ clean live certain rfl rfl kept) fun _ new here => ?_
      cases here
      exact .inr ⟨info, live, kept.symm⟩
  | write key entity info client started base reading next valueId marks known ready idle home about matched kind starts live certain writes =>
      obtain ⟨_, prepared, positive⟩ := writes_neat key started info.machine next valueId marks small (clean.neat key info live) writes
        fun m member => marked m (List.mem_append_left _ member)
      have startedAbout : started.entry = key.entry := by
        cases starts with
        | plain => exact about
        | read kind => exact about
      intro id found asked here loaded asking
      by_cases same : id = key.entityId
      · subst same
        simp only [setEntity, Function.update_self, Option.some.injEq] at here
        rw [← here] at asking
        cases asking
        exact write_suits _ key { info with machine := next, uncertain := true } _ (by simp [setEntry, setEntity]) positive startedAbout
          prepared.symm
      · have before : s.entityInfos id = some found := by simpa [setEntry, setEntity, same] using here
        exact suits_elsewhere s _ key _ id asked (clients id found asked before loaded asking) same rfl rfl rfl
  | stray key entity info preAuth code next reading known ready matched live certain done failed numbered =>
      exact absurd (no_stray s key entity info preAuth code next small (marked _ List.mem_cons_self) steady clean known matched live certain
        done) failed
  | openRead key entity info client next known ready idle home kind about matched live certain reset =>
      obtain ⟨records, sameId, _, empty⟩ := reset_shape info.machine next reset
      have same := local_records info.machine next records sameId
      have none := (clean.neat key info live).idle empty
      have below := ((clean.neat key info live).whole info.machine.localAcceptorId).prepared
      have zero : info.machine.localRecord.preparedNum = 0 := by
        have small : info.machine.localRecord.preparedNum ≤ info.machine.localRecord.promisedNum := below
        omega
      have unprepared (t : Site n) (entries : t.entryInfos = Function.update s.entryInfos key (some { info with machine := next }))
          (plog : t.plog = s.plog) : t.ballot key = 0 := by
        rw [certain_ballot s t key info _ clean live certain entries plog (by rw [same]), ballot_certain s key info clean live certain]
        exact zero
      intro id found asked here loaded asking
      by_cases here' : id = key.entityId
      · subst here'
        simp only [note, setEntry, setEntity, Function.update_self, Option.some.injEq] at here
        rw [← here] at asking
        cases asking
        refine ⟨.inl (.inl ?_)⟩
        have atKey : (⟨key.entityId, client.entry⟩ : EntryKey) = key := by rw [about]
        dsimp only
        rw [atKey]
        exact unprepared _ rfl rfl
      · have before : s.entityInfos id = some found := by simpa [note, setEntry, setEntity, here'] using here
        exact suits_elsewhere s _ key _ id asked (clients id found asked before loaded asking) here' rfl rfl rfl
  | setWritten index cmd result next operation isSet outcome =>
      have member := List.mem_of_getElem? next
      obtain ⟨_, info, live, asked⟩ := steady.ops.reqs cmd member operation
      have written (t : Site n) (plog : t.plog = (cmd.key, cmd.localEntryRecord) :: s.plog) :=
        plog_record_cons s t cmd.key cmd.localEntryRecord plog
      refine clients_kept s _ clients (asks_same s _ rfl) (fun key => ?_) (fun _ held _ => held) fun _ key found here => .inr ⟨found, here, rfl⟩
      by_cases same : key = cmd.key
      · subst same
        have positive := clean.sets cmd member operation isSet
        rw [(asked.set isSet).1] at positive
        rw [ballot, ballot, live]
        dsimp only
        rw [if_pos positive, if_pos positive]
      · exact ballot_same s _ key rfl ((written _ rfl).2 key same)
  | setDone index cmd entity info pushed next isSet entryOp done live uncertain known =>
      refine clients_entry s _ cmd.key (some { info with uncertain := false }) clients ?_ (by simp [setEntry]) (by simp [setEntry])
        (by simp [setEntry]) ?_ fun _ new here => ?_
      · exact asks_raise_if (s.setEntry cmd.key (some { info with uncertain := false })) cmd.key entity info.machine pushed known
      · rw [ballot, ballot, live]
        simp only [raise_if_entries, plogRecord, raise_if_plog, setEntry, Function.update_self]
      · cases here
        exact .inr ⟨info, live, rfl⟩
  | getDone index cmd entity info record code machine pushed free next isGet entryOp notSet found live uncertain known loaded =>
      obtain ⟨_, other, here, asked⟩ := (steady.ops.rsps cmd (List.mem_of_getElem? next)).2
        (rsp_op s index cmd steady.ops next ⟨entryOp, .inr isGet⟩)
      rw [show other = info from Option.some.inj (here.symm.trans live)] at asked
      have same := got_same s index cmd entity info record code machine steady clean next isGet entryOp notSet found live known loaded
      have before : s.ballot cmd.key = ((s.plogRecord cmd.key).getD {}).preparedNum := ballot_stored s cmd.key fun found live' => by
        rw [← Option.some.inj (live.symm.trans live'), EntryStateMachine.localRecord, asked.get notSet]
      have kept (t : Site n) (entries : t.entryInfos = Function.update s.entryInfos cmd.key
          (some { info with uncertain := false, machine := machine })) (plog : t.plog = s.plog) (hand : t.hand = s.hand) (asks : Asks s t) :
          Clients t := by
        refine clients_entry s t cmd.key _ clients asks entries plog hand ?_ fun some => absurd free some
        rw [before, ballot, entries, Function.update_self]
        dsimp only
        split
        · rw [same]
        · rw [plogRecord, plogRecord, plog]
      by_cases fine : code = .ok
      · rw [if_pos fine]
        refine kept _ (by simp [setEntry]) (by simp [setEntry]) (by simp [setEntry]) ?_
        exact asks_raise_if (s.setEntry cmd.key (some { info with uncertain := false, machine := machine })) cmd.key entity machine pushed known
      · rw [if_neg fine]
        exact kept _ rfl rfl rfl (asks_same s _ rfl)
  | opFailed index cmd entity info next entryOp failed live uncertain known answered =>
      intro id found client here ready asking
      by_cases same : id = cmd.key.entityId
      · subst same
        have atEntity := Option.some.inj (known.symm.trans here)
        subst atEntity
        have elsewhere := answered client asking
        refine suits_kept s _ _ client (clients _ entity client known ready asking) ?_ (fun _ held _ _ => held) fun _ key info' live' _ => ?_
        · refine ballot_same s _ _ ?_ rfl
          have apart : (⟨cmd.key.entityId, client.entry⟩ : EntryKey) ≠ cmd.key := fun same => elsewhere (congrArg EntryKey.entry same)
          simp [note, setEntry, apart]
        · by_cases gone : key = cmd.key
          · simp [note, setEntry, gone] at live'
          · exact .inr ⟨info', by simpa [note, setEntry, gone] using live', rfl⟩
      · exact suits_elsewhere s _ cmd.key none id client (clients id found client here ready asking) same rfl rfl rfl
  | loadDone index cmd entity next isLoad done known loading =>
      intro id found client here ready asking
      by_cases same : id = cmd.entityId
      · subst same
        refine ⟨.inr ⟨⟨cmd, List.mem_append_right _ List.mem_cons_self, isLoad, rfl⟩, fun key info live at_ => ?_⟩⟩
        obtain ⟨owner, home, open_⟩ := steady.calm.homes key info live
        rw [at_, known] at home
        cases home
        rw [open_] at loading
        cases loading
      · have before : s.entityInfos id = some found := by simpa [setEntity, same] using here
        refine suits_kept s _ id client (clients id found client before ready asking) rfl (fun _ held _ _ => ?_) fun _ key info live _ =>
          .inr ⟨info, live, rfl⟩
        exact List.mem_append_right _ (List.mem_cons_of_mem _ held)
  | loadFailed index cmd entity next isLoad failed known loading idle =>
      refine clients_same s _ clients (fun id found client here ready asking => ?_) rfl rfl fun _ held _ => held
      by_cases same : id = cmd.entityId
      · simp [setEntity, same] at here
      · exact ⟨found, by simpa [setEntity, same] using here, ready, asking⟩
  | _ => exact clients_same s _ clients (asks_same s _ rfl) rfl rfl fun _ held _ => held

-- All that keeps memory and plog together.
structure Durable (s : Site n) : Prop where
  steady : Steady s
  known : Loads s
  beyond : Beyond s
  clients : Clients s
  clean : Clean s

theorem durable_move (arrives : PaxosCmd → Prop) (s t : Site n) (small : n ≤ kMaxAcceptorNum) (marked : ∀ m ∈ t.marks, m.careful = true)
    (move : Move arrives s t) (durable : Durable s) : Durable t where
  steady := steady_move arrives s t (fun m member => careful_settled m (marked m member)) move durable.steady
  known := loads_move arrives s t move durable.steady durable.known
  beyond := beyond_move arrives s t marked move durable.steady durable.known durable.beyond
  clients := clients_move arrives s t small marked move durable.steady durable.clean durable.clients
  clean := clean_move arrives s t small marked move durable.steady durable.beyond durable.clients durable.clean

theorem durable_start (route : Nat → Fin n) : Durable ((Node.start route).site []) where
  steady := Node.steady_start route
  known := ⟨fun _ => Nat.zero_le 1, fun _ some => absurd some (Nat.lt_irrefl 0), fun _ member => by cases member⟩
  beyond := fun _ _ _ known => by cases known
  clients := fun _ _ _ known => by cases known
  clean := ⟨fun _ _ live => (by cases live), fun _ _ live => (by cases live), fun _ _ held => (by cases held), fun _ member => by cases member⟩

end Site

namespace Node

def step (o : Options n) (s : Node n) (step : Env n × Event) : Option (Node n) := s.handle o step.1 step.2

-- Runs whose steps all keep memory and plog together.
def carefulHandle (o : Options n) (s : Node n) (step : Env n × Event) : Option (Node n) :=
  (s.handle o step.1 step.2).filter fun t => t.marks.all Mark.careful

theorem careful_run (o : Options n) (small : n ≤ kMaxAcceptorNum) (s t : Node n) (start : Site.Durable (s.site []))
    (run : Reaches (carefulHandle o) s t) : Site.Durable (t.site []) := by
  refine run_invariant (carefulHandle o) (fun u => Site.Durable (u.site [])) ?_ s t start run
  intro u step v durable done
  obtain ⟨handled, marked⟩ := Option.filter_eq_some_iff.mp done
  have moves := handle_moves (fun _ => True) o u v step.1 step.2 durable.steady.calm (fun _ _ => trivial) handled
  exact Site.moves_keep (fun _ => True) (fun m => m.careful = true) Site.Durable
    (fun x y fine move before => Site.durable_move _ x y small fine move before) _ _ moves (List.all_eq_true.mp marked) durable

end Node

-- A certain entry in memory is what the plog has for it.
def remembers (t : Node n) : Prop := ∀ key info, t.entryInfos key = some info → info.uncertain = false →
  info.machine.localRecord = (t.plogRecord key).getD {} ∧ (info.machine.localRecord = {} ↔ t.plogRecord key = none)

theorem careful_runs_remember (o : Options n) (route : Nat → Fin n) (small : n ≤ kMaxAcceptorNum) (t : Node n)
    (run : Reaches (Node.carefulHandle o) (Node.start route) t) : remembers t := by
  have clean := (Node.careful_run o small (Node.start route) t (Site.durable_start route) run).clean
  intro key info live certain
  have same : info.machine.localRecord = (t.plogRecord key).getD {} := clean.same key info live certain
  refine ⟨same, fun empty => ?_, fun none => by rw [same, none]; rfl⟩
  by_contra held
  obtain ⟨record, here⟩ := Option.ne_none_iff_exists'.mp held
  have positive := (clean.stored key record here).2
  rw [here] at same
  have blank : record = {} := same.symm.trans empty
  rw [blank] at positive
  cases positive

-- The first write of an entity is stored, its entry is destroyed to make room
-- for those of two other entities, and a peer's message creates it again.
def evictedWrite : List (Env 3 × Event) :=
  let hello (entityId : Nat) : Event := .paxosCmd { entityId := entityId, entry := 1, localAcceptorId := 1 }
  let settle : List Event := [.plogReq 0 0 .ok, .plogRsp 0]
  let write : Event := .clientCmd .write 1 1 0 1000 [7] [1]
  (write :: settle ++ settle ++ hello 2 :: settle ++ hello 3 :: settle ++ [hello 1]).map fun event => ({}, event)

def smallMemory : Options 3 := { maxMemEntryNum := 1, entityWorkerNum := 1 }

theorem evicted_write_forgotten : ∃ t, Reaches (Node.step smallMemory) (Node.start fun _ => 0) t ∧ ¬ remembers t := by
  have run := reaches_end (Node.step smallMemory) (Node.start fun _ => 0) evictedWrite (by decide +kernel)
  refine ⟨_, run, fun same => ?_⟩
  have empty : ((endOf (Node.step smallMemory) (Node.start fun _ => 0) evictedWrite).entryInfos ⟨1, 1⟩).map
      (fun info => (info.uncertain, info.machine.localRecord)) = some (false, {}) := by decide +kernel
  have held : (endOf (Node.step smallMemory) (Node.start fun _ => 0) evictedWrite).plogRecord ⟨1, 1⟩ ≠ none := by decide +kernel
  obtain ⟨info, live, pair⟩ := Option.map_eq_some_iff.mp empty
  simp only [Prod.mk.injEq] at pair
  exact held ((same ⟨1, 1⟩ info live pair.1).2.mp pair.2)

-- Without the eviction the entry stays what it was.
theorem kept_write_remembered : ∃ t : Node 3, Reaches (Node.carefulHandle {}) (Node.start fun _ => 0) t ∧
    t.plogRecord ⟨1, 1⟩ ≠ none ∧ remembers t := by
  have run := reaches_end (Node.carefulHandle {}) (Node.start fun _ => 0) evictedWrite (by decide +kernel)
  exact ⟨_, run, by decide +kernel, careful_runs_remember {} _ (by decide) _ run⟩

end PaxosStore.Certain
