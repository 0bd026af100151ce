import PaxosStore.Certain.EntryTable

set_option autoImplicit false

namespace PaxosStore.Certain

variable {n : Nat}

namespace Desk

-- A chosen entry that an entity has passed: nothing is left to do for it.
structure Evictable (d : Desk n) (key : EntryKey) (info : EntryInfo n) (entity : EntityInfo n) : Prop where
  live : d.entryInfos key = some info
  certain : info.uncertain = false
  closed : info.machine.entryState = .chosen
  known : d.entityInfos key.entityId = some entity
  owner : entity.number = info.entityNumber
  ready : entity.loading = false
  covered : key.entry ≤ entity.maxContChosenEntry

-- The old chosen list holds such entries only, each once. A key never outlives its
-- entry there: what else destroys an entry, opens it anew or works on it does so
-- with an entry that is uncertain, open or not covered.
structure Clean (d : Desk n) : Prop where
  listed : ∀ key ∈ d.oldChosenList, ∃ info entity, Evictable d key info entity
  once : d.oldChosenList.Nodup
  below : ∀ entityId entity, d.entityInfos entityId = some entity → entity.maxContChosenEntry ≤ entity.maxChosenEntry
  level : ∀ entityId entity, d.entityInfos entityId = some entity → entity.loading = true →
    entity.maxContChosenEntry = entity.maxChosenEntry ∧ entity.maxPlogEntry ≤ entity.maxContChosenEntry
  early : ∀ key info entity, d.entryInfos key = some info → d.entityInfos key.entityId = some entity →
    entity.number = info.entityNumber → entity.loading = true →
    key.entry ≤ entity.maxContChosenEntry ∨ info.uncertain = false ∧ info.machine.entryState ≠ .chosen
  numbers : ∀ entityId entity, d.entityInfos entityId = some entity → entity.number < d.entityCnt
  owners : ∀ key info, d.entryInfos key = some info → info.entityNumber < d.entityCnt

-- The same managers with another list to look at.
theorem clean_list (d e : Desk n) (clean : Clean d) (entries : e.entryInfos = d.entryInfos) (entities : e.entityInfos = d.entityInfos)
    (cnt : e.entityCnt = d.entityCnt) (list : e.oldChosenList.Sublist d.oldChosenList) : Clean e where
  listed := by
    intro key member
    obtain ⟨info, entity, evictable⟩ := clean.listed key (list.subset member)
    exact ⟨info, entity, by rw [entries]; exact evictable.live, evictable.certain, evictable.closed,
      by rw [entities]; exact evictable.known, evictable.owner, evictable.ready, evictable.covered⟩
  once := clean.once.sublist list
  below := by rw [entities]; exact clean.below
  level := by rw [entities]; exact clean.level
  early := by rw [entries, entities]; exact clean.early
  numbers := by rw [entities, cnt]; exact clean.numbers
  owners := by rw [entries, cnt]; exact clean.owners

-- What an entity may become while its entries stay.
structure Grown (old new : EntityInfo n) : Prop where
  number : new.number = old.number
  ready : old.loading = false → new.loading = false
  cont : old.maxContChosenEntry ≤ new.maxContChosenEntry
  below : old.maxContChosenEntry ≤ old.maxChosenEntry → new.maxContChosenEntry ≤ new.maxChosenEntry
  level : new.loading = true → old.maxContChosenEntry = old.maxChosenEntry → old.maxPlogEntry ≤ old.maxContChosenEntry →
    new.maxContChosenEntry = new.maxChosenEntry ∧ new.maxPlogEntry ≤ new.maxContChosenEntry

theorem clean_entity (d : Desk n) (entityId : Nat) (old new : EntityInfo n) (known : d.entityInfos entityId = some old)
    (grown : Grown old new) (clean : Clean d) : Clean (d.setEntity entityId (some new)) := by
  have wasLoading : new.loading = true → old.loading = true := fun loading => by
    by_contra ready
    rw [grown.ready (by simpa using ready)] at loading
    cases loading
  have split_ : ∀ other entity, Function.update d.entityInfos entityId (some new) other = some entity →
      other = entityId ∧ entity = new ∨ d.entityInfos other = some entity := fun other entity here => by
    by_cases same : other = entityId
    · subst same
      rw [Function.update_self, Option.some.injEq] at here
      exact .inl ⟨rfl, here.symm⟩
    · rw [Function.update_of_ne same] at here
      exact .inr here
  constructor
  · intro key member
    obtain ⟨info, entity, evictable⟩ := clean.listed key member
    by_cases same : key.entityId = entityId
    · subst same
      have equal : entity = old := Option.some.inj (evictable.known.symm.trans known)
      subst equal
      exact ⟨info, new, evictable.live, evictable.certain, evictable.closed, Function.update_self _ _ _,
        grown.number.trans evictable.owner, grown.ready evictable.ready, Nat.le_trans evictable.covered grown.cont⟩
    · exact ⟨info, entity, evictable.live, evictable.certain, evictable.closed,
        (Function.update_of_ne same _ _).trans evictable.known, evictable.owner, evictable.ready, evictable.covered⟩
  · exact clean.once
  · intro other entity here
    rcases split_ other entity here with ⟨rfl, rfl⟩ | before
    · exact grown.below (clean.below _ old known)
    · exact clean.below other entity before
  · intro other entity here loading
    rcases split_ other entity here with ⟨rfl, rfl⟩ | before
    · obtain ⟨equal, stored⟩ := clean.level _ old known (wasLoading loading)
      exact grown.level loading equal stored
    · exact clean.level other entity before loading
  · intro key info entity live here owner loading
    rcases split_ key.entityId entity here with ⟨same, rfl⟩ | before
    · rw [← same] at known
      rcases clean.early key info old live known (grown.number.symm.trans owner) (wasLoading loading) with covered | open_
      · exact .inl (Nat.le_trans covered grown.cont)
      · exact .inr open_
    · exact clean.early key info entity live before owner loading
  · intro other entity here
    rcases split_ other entity here with ⟨rfl, rfl⟩ | before
    · rw [grown.number]
      exact clean.numbers _ old known
    · exact clean.numbers other entity before
  · exact clean.owners

-- One entry changes, or goes, and the list loses keys at most.
theorem clean_entry (d e : Desk n) (key : EntryKey) (new : Option (EntryInfo n))
    (entries : e.entryInfos = Function.update d.entryInfos key new) (entities : e.entityInfos = d.entityInfos)
    (cnt : e.entityCnt = d.entityCnt) (list : e.oldChosenList.Sublist d.oldChosenList)
    (kept : key ∈ e.oldChosenList → ∃ info, new = some info ∧ info.uncertain = false ∧ info.machine.entryState = .chosen ∧
      ∀ old, d.entryInfos key = some old → info.entityNumber = old.entityNumber)
    (owner : ∀ info, new = some info → info.entityNumber < d.entityCnt)
    (early : ∀ info, new = some info → ∀ entity, d.entityInfos key.entityId = some entity → entity.number = info.entityNumber →
      entity.loading = true → key.entry ≤ entity.maxContChosenEntry ∨ info.uncertain = false ∧ info.machine.entryState ≠ .chosen)
    (clean : Clean d) : Clean e where
  listed := by
    intro other member
    obtain ⟨info, entity, evictable⟩ := clean.listed other (list.subset member)
    by_cases same : other = key
    · subst same
      obtain ⟨after, rfl, certain, closed, number⟩ := kept member
      exact ⟨after, entity, by rw [entries]; exact Function.update_self _ _ _, certain, closed, by rw [entities]; exact evictable.known,
        by rw [number info evictable.live]; exact evictable.owner, evictable.ready, evictable.covered⟩
    · exact ⟨info, entity, by rw [entries, Function.update_of_ne same]; exact evictable.live, evictable.certain, evictable.closed,
        by rw [entities]; exact evictable.known, evictable.owner, evictable.ready, evictable.covered⟩
  once := clean.once.sublist list
  below := by rw [entities]; exact clean.below
  level := by rw [entities]; exact clean.level
  early := by
    intro other info entity live here mine loading
    rw [entries] at live
    rw [entities] at here
    by_cases same : other = key
    · subst same
      rw [Function.update_self] at live
      exact early info live entity here mine loading
    · rw [Function.update_of_ne same] at live
      exact clean.early other info entity live here mine loading
  numbers := by rw [entities, cnt]; exact clean.numbers
  owners := by
    intro other info live
    rw [entries] at live
    rw [cnt]
    by_cases same : other = key
    · subst same
      rw [Function.update_self] at live
      exact owner info live
    · rw [Function.update_of_ne same] at live
      exact clean.owners other info live

-- The entry changes in what the list is not about.
theorem clean_entry_same (d e : Desk n) (key : EntryKey) (old new : EntryInfo n) (live : d.entryInfos key = some old)
    (entries : e.entryInfos = Function.update d.entryInfos key (some new)) (entities : e.entityInfos = d.entityInfos)
    (cnt : e.entityCnt = d.entityCnt) (list : e.oldChosenList = d.oldChosenList) (owner : new.entityNumber = old.entityNumber)
    (uncertain : new.uncertain = old.uncertain) (state : new.machine.entryState = old.machine.entryState) (clean : Clean d) : Clean e := by
  refine clean_entry d e key (some new) entries entities cnt (by rw [list]) ?_ ?_ ?_ clean
  · intro member
    rw [list] at member
    obtain ⟨info, entity, evictable⟩ := clean.listed key member
    have equal : info = old := Option.some.inj (evictable.live.symm.trans live)
    subst equal
    refine ⟨new, rfl, uncertain.trans evictable.certain, state.trans evictable.closed, fun other here => ?_⟩
    rw [live] at here
    cases here
    exact owner
  · rintro _ ⟨rfl⟩
    rw [owner]
    exact clean.owners key old live
  · rintro _ ⟨rfl⟩ entity known mine loading
    rw [owner] at mine
    rw [uncertain, state]
    exact clean.early key old entity live known mine loading

-- The entry is not on the list and goes.
theorem clean_gone (d e : Desk n) (key : EntryKey) (entries : e.entryInfos = Function.update d.entryInfos key none)
    (entities : e.entityInfos = d.entityInfos) (cnt : e.entityCnt = d.entityCnt) (list : e.oldChosenList.Sublist d.oldChosenList)
    (apart : key ∉ e.oldChosenList) (clean : Clean d) : Clean e :=
  clean_entry d e key none entries entities cnt list (fun member => absurd member apart) (fun _ impossible => by cases impossible)
    (fun _ impossible => by cases impossible) clean

theorem uncertain_not_listed (d : Desk n) (key : EntryKey) (info : EntryInfo n) (clean : Clean d) (live : d.entryInfos key = some info)
    (uncertain : info.uncertain = true) : key ∉ d.oldChosenList := by
  intro member
  obtain ⟨same, entity, evictable⟩ := clean.listed key member
  have equal : same = info := Option.some.inj (evictable.live.symm.trans live)
  subst equal
  rw [evictable.certain] at uncertain
  cases uncertain

theorem beyond_not_listed (d : Desk n) (key : EntryKey) (entity : EntityInfo n) (clean : Clean d)
    (known : d.entityInfos key.entityId = some entity) (beyond : Beyond entity key) : key ∉ d.oldChosenList := by
  intro member
  obtain ⟨info, same, evictable⟩ := clean.listed key member
  have equal : same = entity := Option.some.inj (evictable.known.symm.trans known)
  subst equal
  have below := clean.below key.entityId same known
  have covered := evictable.covered
  rcases beyond with cont | chosen
  · omega
  · omega

theorem raised_grown (entity : EntityInfo n) (entry : Nat) (mine : Bool) (settled : entity.loading = true → entry ≤ entity.maxContChosenEntry) :
    Grown entity (Site.raisedBy entity entry mine) := by
  have number : (Site.raisedBy entity entry mine).number = entity.number := by
    simp only [Site.raisedBy, Node.chosenWatermarks]
    split <;> split <;> split <;> rfl
  have loading := Site.raised_loading entity entry mine
  refine ⟨number, fun ready => loading.trans ready, ?_, ?_, ?_⟩
  · rcases Node.raised_cont entity entry mine with same | ⟨equal, next⟩
    · rw [same]
    · rw [equal, next]
      exact Nat.le_succ _
  · intro below
    simp only [Site.raisedBy, Node.chosenWatermarks]
    split <;> split <;> split <;> simp_all <;> omega
  · intro stays equal stored
    rw [loading] at stays
    have covered := settled stays
    simp only [Site.raisedBy, Node.chosenWatermarks]
    split <;> split <;> split <;> simp_all <;> omega

theorem planned_grown (old new : EntityInfo n) (planned : Planned old new) : Grown old new where
  number := planned.number
  ready := fun ready => planned.loading.trans ready
  cont := by rw [planned.cont]
  below := by
    intro below
    rw [planned.cont]
    rcases planned.chosen with same | ⟨-, more⟩
    · rw [same]
      exact below
    · exact Nat.le_trans below more
  level := by
    intro loading equal stored
    rw [planned.loading] at loading
    rw [planned.cont, planned.plog]
    rcases planned.chosen with same | ⟨ready, -⟩
    · rw [same]
      exact ⟨equal, stored⟩
    · rw [ready] at loading
      cases loading

-- A change of the command an entity holds, and of its uuids.
theorem asked_grown (old : EntityInfo n) (pending : Option ClientCmd) (base : Nat) :
    Grown old { old with clientCmd := pending, uuidBase := base } :=
  ⟨rfl, id, Nat.le_refl _, id, fun _ equal stored => ⟨equal, stored⟩⟩

-- A new entity has no entries, and its id has no key on the list.
theorem clean_opened (d : Desk n) (entityId : Nat) (new : EntityInfo n) (absent : d.entityInfos entityId = none)
    (fresh : new.maxContChosenEntry = 0 ∧ new.maxChosenEntry = 0 ∧ new.maxPlogEntry = 0) (number : new.number = d.entityCnt)
    (clean : Clean d) : Clean { d.setEntity entityId (some new) with entityCnt := d.entityCnt + 1 } := by
  have split_ : ∀ other entity, Function.update d.entityInfos entityId (some new) other = some entity →
      other = entityId ∧ entity = new ∨ d.entityInfos other = some entity := fun other entity here => by
    by_cases same : other = entityId
    · subst same
      rw [Function.update_self, Option.some.injEq] at here
      exact .inl ⟨rfl, here.symm⟩
    · rw [Function.update_of_ne same] at here
      exact .inr here
  constructor
  · intro key member
    obtain ⟨info, entity, evictable⟩ := clean.listed key member
    have apart : key.entityId ≠ entityId := by
      rintro rfl
      have known := evictable.known
      rw [absent] at known
      cases known
    exact ⟨info, entity, evictable.live, evictable.certain, evictable.closed, (Function.update_of_ne apart _ _).trans evictable.known,
      evictable.owner, evictable.ready, evictable.covered⟩
  · exact clean.once
  · intro other entity here
    rcases split_ other entity here with ⟨-, rfl⟩ | before
    · rw [fresh.1, fresh.2.1]
    · exact clean.below other entity before
  · intro other entity here loading
    rcases split_ other entity here with ⟨-, rfl⟩ | before
    · rw [fresh.1, fresh.2.1, fresh.2.2]
      exact ⟨rfl, Nat.le_refl _⟩
    · exact clean.level other entity before loading
  · intro key info entity live here owner loading
    rcases split_ key.entityId entity here with ⟨-, rfl⟩ | before
    · have older := clean.owners key info live
      omega
    · exact clean.early key info entity live before owner loading
  · intro other entity here
    rcases split_ other entity here with ⟨-, rfl⟩ | before
    · rw [number]
      exact Nat.lt_succ_self _
    · exact Nat.lt_succ_of_lt (clean.numbers other entity before)
  · exact fun key info live => Nat.lt_succ_of_lt (clean.owners key info live)

theorem clean_retired (d : Desk n) (key : EntryKey) (entity : EntityInfo n) (info : EntryInfo n) (mine : Bool) (expired : Nat)
    (live : d.entryInfos key = some info) (certain : info.uncertain = false) (known : d.entityInfos key.entityId = some entity)
    (owner : entity.number = info.entityNumber) (closed : info.machine.entryState = .chosen)
    (next : entity.maxContChosenEntry + 1 = key.entry) (clean : Clean d) : Clean (d.retire key entity info mine expired) := by
  have beyond : Beyond entity key := .inl (by omega)
  have new : key ∉ d.oldChosenList := beyond_not_listed d key entity clean known beyond
  have ready : entity.loading = false := by
    by_contra loading
    rcases clean.early key info entity live known owner (by simpa using loading) with covered | ⟨-, open_⟩
    · omega
    · exact open_ closed
  have grown := raised_grown entity key.entry mine fun loading => by
    rw [ready] at loading
    cases loading
  have raised := clean_entity d key.entityId entity _ known grown clean
  have stamped : Clean ((d.setEntity key.entityId (some (Site.raisedBy entity key.entry mine))).setEntry key
      (some { info with expiredTimestampSec := expired })) :=
    clean_entry_same (d.setEntity key.entityId (some (Site.raisedBy entity key.entry mine))) _ key info _ live rfl rfl rfl rfl rfl rfl rfl raised
  have reached : (Site.raisedBy entity key.entry mine).maxContChosenEntry = key.entry := by
    simp only [Site.raisedBy, Node.watermarks_cont]
    simp [next]
  refine ⟨fun other member => ?_, ?_, stamped.below, stamped.level, stamped.early, stamped.numbers, stamped.owners⟩
  · rcases List.mem_append.mp member with before | last
    · obtain ⟨after, home, evictable⟩ := stamped.listed other before
      exact ⟨after, home, evictable.live, evictable.certain, evictable.closed, evictable.known, evictable.owner, evictable.ready,
        evictable.covered⟩
    · rw [List.mem_singleton.mp last]
      exact ⟨{ info with expiredTimestampSec := expired }, Site.raisedBy entity key.entry mine, Function.update_self _ _ _, certain, closed,
        Function.update_self _ _ _, grown.number.trans owner, grown.ready ready, by rw [reached]⟩
  · exact List.nodup_append.mpr ⟨clean.once, List.nodup_singleton key, fun a member b last same => by
      rw [List.mem_singleton.mp last] at same
      exact new (same ▸ member)⟩

theorem clean_act (d e : Desk n) (act : Act d e) (clean : Clean d) : Clean e := by
  cases act with
  | plan entityId old new known planned => exact clean_entity d entityId old new known (planned_grown old new planned) clean
  | label entityId old client uuid valueId base known asking =>
      exact clean_entity d entityId old _ known (asked_grown old _ base) clean
  | finish entityId old client result known asking inTime =>
      have emptied := clean_entity d entityId old _ known (asked_grown old none old.uuidBase) clean
      exact clean_list _ _ emptied rfl rfl rfl (.refl _)
  | opened entityId new absent loading idle fresh number => exact clean_opened d entityId new absent fresh number clean
  | skipped =>
      exact ⟨fun key member => by
          obtain ⟨info, entity, evictable⟩ := clean.listed key member
          exact ⟨info, entity, ⟨evictable.live, evictable.certain, evictable.closed, evictable.known, evictable.owner,
            evictable.ready, evictable.covered⟩⟩,
        clean.once, clean.below, clean.level, clean.early, fun entityId entity known => Nat.lt_succ_of_lt (clean.numbers entityId entity known),
        fun key info live => Nat.lt_succ_of_lt (clean.owners key info live)⟩
  | retired key entity info mine expired live certain known owner closed next =>
      exact clean_retired d key entity info mine expired live certain known owner closed next clean
  | raised key entity info mine live certain known owner closed apart =>
      refine clean_entity d key.entityId entity _ known (raised_grown entity key.entry mine fun loading => ?_) clean
      rcases clean.early key info entity live known owner loading with covered | ⟨-, open_⟩
      · exact covered
      · exact absurd closed open_
  | book key old new live booked =>
      exact clean_entry_same d _ key old new live rfl rfl rfl rfl booked.owner booked.uncertain booked.state clean
  | resize key info size live => exact clean_entry_same d _ key info _ live rfl rfl rfl rfl rfl rfl rfl clean
  | slot key info peer cmd live uncertain => exact clean_entry_same d _ key info _ live rfl rfl rfl rfl rfl rfl rfl clean
  | work key entity info machine uncertain live certain known ready beyond =>
      refine clean_entry d _ key _ rfl rfl rfl (.refl _)
        (fun member => absurd member (beyond_not_listed d key entity clean known beyond)) ?_ ?_ clean
      · rintro _ ⟨rfl⟩
        exact clean.owners key info live
      · rintro _ ⟨rfl⟩ other here mine loading
        rw [known] at here
        cases here
        rw [ready] at loading
        cases loading
  | insert key entity info blank =>
      refine clean_entry d _ key _ rfl rfl rfl (.refl _) (fun member => ?_) ?_ ?_ clean
      · obtain ⟨other, owner, evictable⟩ := clean.listed key member
        have live := evictable.live
        rw [blank.absent] at live
        cases live
      · rintro _ ⟨rfl⟩
        rw [blank.owner]
        exact clean.numbers key.entityId entity blank.known
      · rintro _ ⟨rfl⟩ other here mine loading
        have equal : entity = other := Option.some.inj (blank.known.symm.trans here)
        subst equal
        cases uncertain : info.uncertain with
        | false => exact .inr ⟨rfl, blank.open_⟩
        | true => exact .inl (Nat.le_trans (blank.loading uncertain) (clean.level key.entityId entity here loading).2)
  | drop key info live outside =>
      refine clean_gone d _ key rfl rfl rfl (.refl _) ?_ clean
      rcases outside with uncertain | open_ | ⟨entity, known, beyond⟩
      · exact uncertain_not_listed d key info clean live uncertain
      · intro member
        obtain ⟨same, entity, evictable⟩ := clean.listed key member
        have equal : same = info := Option.some.inj (evictable.live.symm.trans live)
        subst equal
        exact open_ evictable.closed
      · exact beyond_not_listed d key entity clean known beyond
  | evict key rest info first live certain =>
      have once := clean.once
      rw [first] at once
      refine clean_gone d _ key rfl rfl rfl ?_ (List.nodup_cons.mp once).1 clean
      rw [first]
      exact List.sublist_cons_self key rest
  | pass key rest first absent =>
      refine clean_list d _ clean rfl rfl rfl ?_
      rw [first]
      exact List.sublist_cons_self key rest
  | oldest key info clear live certain =>
      refine clean_gone d _ key rfl rfl rfl (.refl _) ?_ clean
      intro member
      have nothing : key ∈ d.oldChosenList := member
      rw [clear] at nothing
      cases nothing
  | refresh key listed => exact clean_list d _ clean rfl rfl rfl (.refl _)

theorem clean_acts (d e : Desk n) (acts : Acts d e) (clean : Clean d) : Clean e := by
  induction acts with
  | refl => exact clean
  | tail _ last ih => exact clean_act _ _ last ih

theorem clean_unknown (d e : Desk n) (entityId : Nat) (old : EntityInfo n) (known : d.entityInfos entityId = some old)
    (loading : old.loading = true) (entities : e.entityInfos = Function.update d.entityInfos entityId none)
    (entries : e.entryInfos = d.entryInfos) (cnt : e.entityCnt = d.entityCnt) (list : e.oldChosenList = d.oldChosenList)
    (clean : Clean d) : Clean e := by
  have before : ∀ other entity, e.entityInfos other = some entity → d.entityInfos other = some entity := fun other entity here => by
    rw [entities] at here
    by_cases same : other = entityId
    · subst same
      rw [Function.update_self] at here
      cases here
    · rw [Function.update_of_ne same] at here
      exact here
  constructor
  · intro key member
    rw [list] at member
    obtain ⟨info, entity, evictable⟩ := clean.listed key member
    have apart : key.entityId ≠ entityId := by
      rintro rfl
      have equal : entity = old := Option.some.inj (evictable.known.symm.trans known)
      subst equal
      rw [evictable.ready] at loading
      cases loading
    exact ⟨info, entity, by rw [entries]; exact evictable.live, evictable.certain, evictable.closed,
      by rw [entities, Function.update_of_ne apart]; exact evictable.known, evictable.owner, evictable.ready, evictable.covered⟩
  · rw [list]
    exact clean.once
  · exact fun other entity here => clean.below other entity (before other entity here)
  · exact fun other entity here => clean.level other entity (before other entity here)
  · intro key info entity live here
    rw [entries] at live
    exact clean.early key info entity live (before key.entityId entity here)
  · intro other entity here
    rw [cnt]
    exact clean.numbers other entity (before other entity here)
  · intro key info live
    rw [entries] at live
    rw [cnt]
    exact clean.owners key info live

theorem clean_turn (codes : RetCode → Prop) (d e : Desk n) (turn : Turn codes d e) (clean : Clean d) : Clean e := by
  cases turn with
  | act _ act => exact clean_act d e act clean
  | expire entityId deadline entity client listed due known asking =>
      have emptied := clean_entity d entityId entity _ known (asked_grown entity none entity.uuidBase) clean
      exact clean_list _ _ emptied rfl rfl rfl (.refl _)
  | stale entityId deadline entity listed known idle => exact clean_list d _ clean rfl rfl rfl (.refl _)
  | recovered entityId entry timestamp old known =>
      refine clean_entity d entityId old _ known ⟨rfl, id, Nat.le_max_left _ _, fun below => ?_, fun _ equal stored => ?_⟩ clean
      · simp only [Site.recoveredBy]
        omega
      · simp only [Site.recoveredBy]
        omega
  | loaded entityId maxPlogEntry maxCommittedEntry old known loading =>
      refine clean_entity d entityId old _ known ⟨rfl, fun _ => rfl, Nat.le_max_left _ _, fun below => ?_, fun stays => by cases stays⟩ clean
      simp only [Node.updateByLoadFromPlog]
      split <;> omega
  | lost entityId old client result known loading asking code =>
      refine clean_unknown d _ entityId old known loading ?_ rfl rfl rfl clean
      simp [finish, answer, disarm, Desk.setEntity]
  | closed entityId old known loading idle => exact clean_unknown d _ entityId old known loading rfl rfl rfl rfl clean

theorem clean_drain (d e : Desk n) (drain : Drain d e) (clean : Clean d) : Clean e := by
  cases drain with
  | act _ act => exact clean_act d e act clean
  | unslot key info peer live => exact clean_entry_same d _ key info _ live rfl rfl rfl rfl rfl rfl rfl clean
  | complete key info machine live uncertain =>
      refine clean_entry d _ key _ rfl rfl rfl (.refl _)
        (fun member => absurd member (uncertain_not_listed d key info clean live uncertain)) ?_ ?_ clean
      · rintro _ ⟨rfl⟩
        exact clean.owners key info live
      · rintro _ ⟨rfl⟩ entity known mine loading
        rcases clean.early key info entity live known mine loading with covered | ⟨certain, -⟩
        · exact .inl covered
        · rw [uncertain] at certain
          cases certain

theorem clean_change (d e : Desk n) (change : Change d e) (clean : Clean d) : Clean e := by
  cases change with
  | turn _ turn => exact clean_turn _ d e turn clean
  | drain _ drain => exact clean_drain d e drain clean
  | hold entityId old pending known => exact clean_entity d entityId old _ known (asked_grown old pending old.uuidBase) clean
  | reply cmd => exact clean_list d _ clean rfl rfl rfl (.refl _)
  | arm timer => exact clean_list d _ clean rfl rfl rfl (.refl _)
  | clock now => exact clean_list d _ clean rfl rfl rfl (.refl _)

end Desk

namespace Node

open Desk

theorem clean_start (route : Nat → Fin n) : Clean (start route).desk where
  listed := fun _ impossible => by cases impossible
  once := List.nodup_nil
  below := fun _ _ known => by cases known
  level := fun _ _ known => by cases known
  early := fun _ _ _ live => by cases live
  numbers := fun _ _ known => by cases known
  owners := fun _ _ live => by cases live

theorem reached_clean (o : Options n) (meets : Node n → Env n → Event → Prop) (s : Node n) (reached : Reached o meets s) : Clean s.desk :=
  reached_desk o meets Clean clean_start clean_change s reached

theorem destroy_listed (s : Node n) (key : EntryKey) (info : EntryInfo n) (entity : EntityInfo n)
    (evictable : Evictable s.desk key info entity) : (s.destroyEntryInfo ⟨key, info.number⟩).isSome := by
  have live : s.entryInfos key = some info := evictable.live
  have known : s.entityInfos key.entityId = some entity := evictable.known
  have found : s.deref ⟨key, info.number⟩ = some info := by simp [deref, live]
  have owner : s.entityOf key info = some entity := by simp [entityOf, known, evictable.owner]
  simp [destroyEntryInfo, found, owner]

-- The first loop of MakeEnoughRoomInner runs to its end.
theorem remove_old_chosen_total (o : Options n) (count : Nat) (s : Node n) (clean : Clean s.desk) : (removeOldChosen o count s).isSome := by
  induction count generalizing s with
  | zero => rfl
  | succ count ih =>
      rw [removeOldChosen]
      split
      · rfl
      · rename_i key rest first
        split
        · obtain ⟨info, entity, evictable⟩ := clean.listed key (by rw [show s.desk.oldChosenList = key :: rest from first]; exact List.mem_cons_self)
          have live : s.entryInfos key = some info := evictable.live
          rw [live]
          dsimp only
          rw [if_neg (by rw [evictable.certain]; simp)]
          have shorter : Evictable ({ s with oldChosenList := rest } : Node n).desk key info entity :=
            ⟨evictable.live, evictable.certain, evictable.closed, evictable.known, evictable.owner, evictable.ready, evictable.covered⟩
          obtain ⟨t, gone⟩ := Option.isSome_iff_exists.mp (destroy_listed _ key info entity shorter)
          rw [gone, Option.bind_some]
          obtain ⟨same, found, effect⟩ := destroy_desk _ t _ gone
          obtain ⟨liveSame, -⟩ := deref_some _ _ same found
          have equal : info = same := Option.some.inj (live.symm.trans liveSame)
          subst equal
          refine ih t ?_
          rw [effect]
          exact clean_act s.desk _ (.evict key rest info first live evictable.certain) clean
        · rfl

-- The loop of CleanupExpiredChosenEntry runs to its end.
theorem cleanup_total (nowSec : Nat) (keys : List EntryKey) (count : Nat) (s : Node n)
    (clean : Clean { s.desk with oldChosenList := keys }) : (cleanupExpired nowSec keys count s).isSome := by
  induction keys generalizing s count with
  | nil => rfl
  | cons key rest ih =>
      rw [cleanupExpired]
      split
      · rfl
      · obtain ⟨info, entity, evictable⟩ := clean.listed key List.mem_cons_self
        have live : s.entryInfos key = some info := evictable.live
        rw [live]
        dsimp only
        rw [if_neg (by rw [evictable.certain]; simp)]
        split
        · rfl
        · have here : Evictable s.desk key info entity :=
            ⟨evictable.live, evictable.certain, evictable.closed, evictable.known, evictable.owner, evictable.ready, evictable.covered⟩
          obtain ⟨t, gone⟩ := Option.isSome_iff_exists.mp (destroy_listed s key info entity here)
          rw [gone, Option.bind_some]
          obtain ⟨same, found, effect⟩ := destroy_desk s t _ gone
          obtain ⟨liveSame, -⟩ := deref_some _ _ same found
          have equal : info = same := Option.some.inj (live.symm.trans liveSame)
          subst equal
          refine ih (count + 1) t ?_
          rw [effect]
          exact clean_act { s.desk with oldChosenList := key :: rest } _ (.evict key rest info rfl live evictable.certain) clean

end Node

namespace Desk

-- What every change does to the objects behind the keys: one keeps its number, and
-- a new one has a number no object had. A key leaves the list with its object.
structure Steady (d e : Desk n) : Prop where
  cnt : d.createCnt ≤ e.createCnt
  objects : ∀ key info, e.entryInfos key = some info →
    (∃ old, d.entryInfos key = some old ∧ old.number = info.number) ∨ info.number = d.createCnt ∧ d.createCnt < e.createCnt
  list : ∀ key ∈ d.oldChosenList, key ∈ e.oldChosenList ∨ e.entryInfos key = none

theorem steady_same (d e : Desk n) (cnt : e.createCnt = d.createCnt) (entries : e.entryInfos = d.entryInfos)
    (list : e.oldChosenList = d.oldChosenList) : Steady d e := by
  refine ⟨by rw [cnt], fun key info live => ?_, fun key member => .inl (by rw [list]; exact member)⟩
  rw [entries] at live
  exact .inl ⟨info, live, rfl⟩

theorem steady_set (d e : Desk n) (key : EntryKey) (old new : EntryInfo n) (live : d.entryInfos key = some old)
    (number : new.number = old.number) (cnt : e.createCnt = d.createCnt)
    (entries : e.entryInfos = Function.update d.entryInfos key (some new)) (list : ∀ key ∈ d.oldChosenList, key ∈ e.oldChosenList) :
    Steady d e := by
  refine ⟨by rw [cnt], fun other info here => ?_, fun other member => .inl (list other member)⟩
  rw [entries] at here
  by_cases same : other = key
  · subst same
    rw [Function.update_self, Option.some.injEq] at here
    subst here
    exact .inl ⟨old, live, number.symm⟩
  · rw [Function.update_of_ne same] at here
    exact .inl ⟨info, here, rfl⟩

theorem steady_gone (d e : Desk n) (key : EntryKey) (cnt : e.createCnt = d.createCnt)
    (entries : e.entryInfos = Function.update d.entryInfos key none)
    (list : ∀ other ∈ d.oldChosenList, other ≠ key → other ∈ e.oldChosenList) : Steady d e := by
  refine ⟨by rw [cnt], fun other info here => ?_, fun other member => ?_⟩
  · rw [entries] at here
    by_cases same : other = key
    · subst same
      rw [Function.update_self] at here
      cases here
    · rw [Function.update_of_ne same] at here
      exact .inl ⟨info, here, rfl⟩
  · by_cases same : other = key
    · subst same
      exact .inr (by rw [entries]; exact Function.update_self _ _ _)
    · exact .inl (list other member same)

theorem steady_insert (d : Desk n) (key : EntryKey) (info : EntryInfo n) (number : info.number = d.createCnt) :
    Steady d (d.insert key info) := by
  refine ⟨Nat.le_succ _, fun other here live => ?_, fun _ member => .inl member⟩
  by_cases same : other = key
  · subst same
    have equal : info = here := Option.some.inj ((Function.update_self (β := fun _ => Option (EntryInfo n)) _ _ _).symm.trans live)
    subst equal
    exact .inr ⟨number, Nat.lt_succ_self _⟩
  · exact .inl ⟨here, (Function.update_of_ne same _ _).symm.trans live, rfl⟩

theorem act_steady (d e : Desk n) (act : Act d e) : Steady d e := by
  cases act with
  | retired key entity info mine expired live certain known owner closed next =>
      exact steady_set d _ key info { info with expiredTimestampSec := expired } live rfl rfl rfl fun _ member => List.mem_append_left _ member
  | book key old new live booked => exact steady_set d _ key old new live booked.number rfl rfl fun _ member => member
  | resize key info size live => exact steady_set d _ key info { info with totalSize := size } live rfl rfl rfl fun _ member => member
  | slot key info peer cmd live uncertain =>
      exact steady_set d _ key info { info with waitingMsgs := Function.update info.waitingMsgs peer (some cmd) } live rfl rfl rfl
        fun _ member => member
  | work key entity info machine uncertain live certain known ready beyond =>
      exact steady_set d _ key info { info with machine := machine, uncertain := uncertain } live rfl rfl rfl fun _ member => member
  | insert key entity info blank => exact steady_insert d key info blank.number
  | drop key info live outside => exact steady_gone d _ key rfl rfl fun _ member _ => member
  | evict key rest info first live certain =>
      refine steady_gone d _ key rfl rfl fun other member apart => ?_
      rw [first] at member
      exact (List.mem_cons.mp member).resolve_left apart
  | pass key rest first absent =>
      refine ⟨Nat.le_refl _, fun other info live => .inl ⟨info, live, rfl⟩, fun other member => ?_⟩
      rw [first] at member
      rcases List.mem_cons.mp member with rfl | later
      · exact .inr absent
      · exact .inl later
  | oldest key info clear live certain => exact steady_gone d _ key rfl rfl fun _ member _ => member
  | _ => exact steady_same d _ rfl rfl rfl

theorem change_steady (d e : Desk n) (change : Change d e) : Steady d e := by
  cases change with
  | turn _ turn =>
      cases turn with
      | act _ act => exact act_steady d e act
      | _ => exact steady_same d _ rfl rfl rfl
  | drain _ drain =>
      cases drain with
      | act _ act => exact act_steady d e act
      | unslot key info peer live =>
          exact steady_set d _ key info { info with waitingMsgs := Function.update info.waitingMsgs peer none } live rfl rfl rfl
            fun _ member => member
      | complete key info machine live uncertain =>
          exact steady_set d _ key info { info with uncertain := false, machine := machine } live rfl rfl rfl fun _ member => member
  | _ => exact steady_same d _ rfl rfl rfl

def Numbered (d : Desk n) : Prop := ∀ key info, d.entryInfos key = some info → info.number < d.createCnt

theorem numbered_change (d e : Desk n) (change : Change d e) (numbered : Numbered d) : Numbered e := by
  intro key info live
  have steady := change_steady d e change
  rcases steady.objects key info live with ⟨old, before, same⟩ | ⟨number, more⟩
  · rw [← same]
    exact Nat.lt_of_lt_of_le (numbered key old before) steady.cnt
  · omega

-- As long as the object is at the key, the key is on the list.
structure Follows (key : EntryKey) (number : Nat) (d : Desk n) : Prop where
  used : number < d.createCnt
  listed : ∀ info, d.entryInfos key = some info → info.number = number → key ∈ d.oldChosenList

theorem follows_change (key : EntryKey) (number : Nat) (d e : Desk n) (change : Change d e) (follows : Follows key number d) :
    Follows key number e := by
  have steady := change_steady d e change
  refine ⟨Nat.lt_of_lt_of_le follows.used steady.cnt, fun info live mine => ?_⟩
  rcases steady.objects key info live with ⟨old, before, same⟩ | ⟨fresh, -⟩
  · rcases steady.list key (follows.listed old before (same.trans mine)) with kept | gone
    · exact kept
    · rw [gone] at live
      cases live
  · have used := follows.used
    omega

end Desk

end PaxosStore.Certain
