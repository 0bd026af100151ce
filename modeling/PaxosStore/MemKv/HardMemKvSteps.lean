import PaxosStore.MemKv.Rebuild

set_option autoImplicit false

namespace PaxosStore.MemKv

open PaxosStore.PaxosKv
open PaxosStore.Consensus

section Keys

variable (packing : LogPacking)

-- The only record of a key that is in use.
structure Sole (store : MemStore) (key : UInt64) (slot : Slot) : Prop where
  member : slot ∈ store.slots
  own : slot.key = key
  live : slot.deleted = false
  at_ : store.index key = some slot.place
  only : ∀ other ∈ store.slots, other.key = key → other.deleted = false → other = slot

-- Memory has what the files have of a key, apart from Writes in flight.
inductive Current (store : MemStore) (files : List Item) (writing : List FileWrite) (key : UInt64) : Prop where
  | absent (free : store.index key = none) (dead : ∀ slot ∈ store.slots, slot.key = key → slot.deleted = true)
      (nothing : ∀ item ∈ files, item.record.key = key → ¬ Settled writing item)
  | held (slot : Slot) (log : PaxosLog) (sole : Sole store key slot) (packed : Packed packing slot.record log)
      (latest : ∃ item, Above packing files (Settled writing) key log item)

-- The new record of a key, and the one it takes the place of.
structure Doubled (store : MemStore) (write : FileWrite) (new : Slot) (old : Option (Nat × Nat)) : Prop where
  member : new ∈ store.slots
  own : new.key = write.key
  live : new.deleted = false
  record : new.record = plogToNewHead packing write.fileNo write.raw
  apart : old ≠ some new.place
  known : ∀ place, old = some place → ∃ slot ∈ store.slots, slot.place = place ∧ slot.key = write.key

def OnlyThese (store : MemStore) (key : UInt64) (new : Slot) (old : Option (Nat × Nat)) : Prop :=
  ∀ other ∈ store.slots, other.key = key → other.deleted = false → other = new ∨ old = some other.place

-- The key of a Write in flight. `clean` says that no Set of the key has failed.
def Phased (store : MemStore) (files : List Item) (writing : List FileWrite) (clean : Prop) (write : FileWrite) : SetPhase → Prop
  | .ready => clean → Current packing store files writing write.key
  | .torn => clean → ∃ slot, Sole store write.key slot
  | .appended place => ∃ new, new.place = place ∧ Doubled packing store write new (store.index write.key) ∧
      (clean → OnlyThese store write.key new (store.index write.key))
  | .indexed old => ∃ new, store.index write.key = some new.place ∧ Doubled packing store write new old ∧ (clean → OnlyThese store write.key new old)

-- No Set of the key has failed.
def HardMemKv.Clean (s : HardMemKv) (key : UInt64) : Prop := ∀ item ∈ s.failed, item.record.key ≠ key

structure Restartable (codec : DataCodec) (s : HardMemKv) : Prop where
  positive : 0 < s.current
  ranged : ∀ item ∈ s.files, 0 < item.fileNo ∧ item.fileNo ≤ s.current ∨ item.fileNo < 0
  allowed : ∀ item ∈ s.files, recordAllowed codec packing.toLogCodec item = true
  writable : ∀ item ∈ s.files, ∃ log raw, decodeLog packing.toLogCodec item.record = some log ∧ packing.serializeToString log = some raw ∧ raw ≠ []
  placed : Placed s.store
  flying : ∀ write ∈ s.writing, Flying packing s.files write
  single : ∀ one ∈ s.writing, ∀ two ∈ s.writing, one.key = two.key → one = two
  lost : ∀ item ∈ s.failed, item ∈ s.files ∧ 0 < item.fileNo
  kept : ∀ key, s.Clean key → (∀ write ∈ s.writing, write.key ≠ key) →
    Current packing s.store s.files s.writing key
  going : ∀ write ∈ s.writing, Phased packing s.store s.files s.writing (s.Clean write.key) write (s.phase write.key)

theorem sole_frame (store next : MemStore) (key : UInt64) (slot : Slot) (sole : Sole store key slot) (same : MemStore.Untouched store next key) :
    Sole next key slot :=
  ⟨(same.slots slot sole.own).mpr sole.member, sole.own, sole.live, same.index.trans sole.at_,
    fun other here own => sole.only other ((same.slots other own).mp here) own⟩

theorem doubled_frame (store next : MemStore) (write : FileWrite) (new : Slot) (old : Option (Nat × Nat)) (doubled : Doubled packing store write new old)
    (same : MemStore.Untouched store next write.key) : Doubled packing next write new old := by
  refine ⟨(same.slots new doubled.own).mpr doubled.member, doubled.own, doubled.live, doubled.record, doubled.apart, fun place at_ => ?_⟩
  obtain ⟨slot, member, where_, own⟩ := doubled.known place at_
  exact ⟨slot, (same.slots slot own).mpr member, where_, own⟩

theorem current_frame (store next : MemStore) (files newer : List Item) (writing after : List FileWrite) (key : UInt64)
    (current : Current packing store files writing key) (same : MemStore.Untouched store next key)
    (stays : ∀ item ∈ files, item.record.key = key → item ∈ newer)
    (known : ∀ item ∈ newer, item.record.key = key → Settled after item → item ∈ files ∧ Settled writing item) :
    Current packing next newer after key := by
  cases current with
  | absent free dead nothing =>
      refine .absent (same.index.trans free) (fun slot here own => dead slot ((same.slots slot own).mp here) own) fun item here own settled => ?_
      obtain ⟨old, still⟩ := known item here own settled
      exact nothing item old own still
  | held slot log sole packed latest =>
      obtain ⟨item, above⟩ := latest
      refine .held slot log (sole_frame store next key slot sole same) packed ⟨item, ?_⟩
      exact above_frame packing _ _ _ _ key log item above (stays item above.1 above.2.1) fun other here own settled => .inl (known other here own settled)

theorem only_frame (store next : MemStore) (key : UInt64) (new : Slot) (old : Option (Nat × Nat)) (only : OnlyThese store key new old)
    (same : MemStore.Untouched store next key) : OnlyThese next key new old :=
  fun other here own => only other ((same.slots other own).mp here) own

theorem phased_frame (store next : MemStore) (files newer : List Item) (writing after : List FileWrite) (clean still : Prop) (write : FileWrite)
    (phase : SetPhase) (phased : Phased packing store files writing clean write phase) (same : MemStore.Untouched store next write.key)
    (stays : ∀ item ∈ files, item.record.key = write.key → item ∈ newer)
    (known : ∀ item ∈ newer, item.record.key = write.key → Settled after item → item ∈ files ∧ Settled writing item) (cleans : still → clean) :
    Phased packing next newer after still write phase := by
  cases phase with
  | ready => exact fun clear => current_frame packing store next files newer writing after write.key (phased (cleans clear)) same stays known
  | torn =>
      intro clear
      obtain ⟨slot, sole⟩ := phased (cleans clear)
      exact ⟨slot, sole_frame store next write.key slot sole same⟩
  | appended place =>
      obtain ⟨new, where_, doubled, only⟩ := phased
      refine ⟨new, where_, ?_, fun clear => ?_⟩
      · rw [same.index]
        exact doubled_frame packing store next write new _ doubled same
      · rw [same.index]
        exact only_frame store next write.key new _ (only (cleans clear)) same
  | indexed old =>
      obtain ⟨new, at_, doubled, only⟩ := phased
      exact ⟨new, same.index.trans at_, doubled_frame packing store next write new old doubled same,
        fun clear => only_frame store next write.key new old (only (cleans clear)) same⟩

theorem sole_overwrite (store : MemStore) (placed : Placed store) (key : UInt64) (slot : Slot) (record : MemRecord) (sole : Sole store key slot) :
    Sole (store.overwrite slot.place record) key { slot with record := record } := by
  refine ⟨(store.overwrite_member _ _ _).mpr (.inr ⟨slot, sole.member, rfl, rfl⟩), sole.own, sole.live, sole.at_, fun other here own live => ?_⟩
  rcases (store.overwrite_member _ _ _).mp here with ⟨inside, elsewhere⟩ | ⟨old, inside, at_, rfl⟩
  · rw [sole.only other inside own live] at elsewhere
    exact absurd rfl elsewhere
  · rw [store.same_place placed old slot inside sole.member at_]

-- The record that is found is the only one.
theorem current_sole (store : MemStore) (files : List Item) (writing : List FileWrite) (key : UInt64) (slot : Slot)
    (current : Current packing store files writing key) (found : store.find key = some slot) : Sole store key slot := by
  obtain ⟨member, at_, own, live⟩ := store.find_known key slot found
  cases current with
  | absent free _ _ =>
      rw [free] at at_
      cases at_
  | held other log sole _ _ =>
      rw [sole.only slot member own live]
      exact sole

-- The Set is over: memory has the log of the Write.
theorem write_current (store : MemStore) (files : List Item) (write : FileWrite) (slot : Slot) (log : PaxosLog) (writing : List FileWrite)
    (flying : Flying packing files write) (written : packing.serializeToString log = some write.raw) (sole : Sole store write.key slot)
    (packed : Packed packing slot.record log) : Current packing store files writing write.key :=
  .held slot log sole packed ⟨write.item, flying_above packing files _ write log flying written⟩

end Keys

namespace HardMemKv

theorem busy_known (s : HardMemKv) (key : UInt64) (phases : SetPhase → Bool) (write : FileWrite) (found : s.busy key phases = some write) :
    write ∈ s.writing ∧ write.key = key ∧ phases (s.phase key) = true := by
  obtain ⟨other, known, same⟩ := Option.bind_eq_some_iff.mp found
  split at same
  · rename_i fits
    cases same
    exact ⟨List.mem_of_find?_eq_some known, by simpa using List.find?_some known, fits⟩
  · cases same

theorem same_length_known (s : HardMemKv) (write : FileWrite) (slot : Slot) (found : s.sameLength write = some slot) :
    s.store.find write.key = some slot ∧ write.raw.length = slot.record.data.length := by
  obtain ⟨other, known, same⟩ := Option.bind_eq_some_iff.mp found
  split at same
  · rename_i fits
    cases same
    exact ⟨known, fits⟩
  · cases same

section Steps

variable (codec : DataCodec) (packing : LogPacking) (s : HardMemKv) (inv : Restartable packing codec s)

include inv

-- One key goes from one phase to the next.
theorem phase_restartable (write : FileWrite) (member : write ∈ s.writing) (store : MemStore) (phase : SetPhase) (placed : Placed store)
    (same : ∀ key, key ≠ write.key → MemStore.Untouched s.store store key)
    (goes : Phased packing store s.files s.writing (s.Clean write.key) write phase) :
    Restartable packing codec { s with store := store, phase := Function.update s.phase write.key phase } := by
  refine ⟨inv.positive, inv.ranged, inv.allowed, inv.writable, placed, inv.flying, inv.single, inv.lost, fun key clean idle => ?_,
    fun other here => ?_⟩
  · exact current_frame packing _ _ _ _ _ _ key (inv.kept key clean idle) (same key fun equal => idle write member equal.symm) (fun _ here _ => here)
      (fun _ here _ settled => ⟨here, settled⟩)
  · dsimp only
    by_cases equal : other.key = write.key
    · cases inv.single other here write member equal
      rw [Function.update_self]
      exact goes
    · rw [Function.update_of_ne equal]
      exact phased_frame packing _ _ _ _ _ _ _ _ other _ (inv.going other here) (same other.key equal) (fun _ here _ => here)
        (fun _ here _ settled => ⟨here, settled⟩) id

-- The Set of a key comes to its end.
theorem end_restartable (write : FileWrite) (store : MemStore) (failed : List Item) (placed : Placed store)
    (same : ∀ key, key ≠ write.key → MemStore.Untouched s.store store key) (more : ∀ item ∈ s.failed, item ∈ failed)
    (lost : ∀ item ∈ failed, item ∈ s.files ∧ 0 < item.fileNo)
    (ends : (∀ item ∈ failed, item.record.key ≠ write.key) → Current packing store s.files (s.writing.filter (·.key ≠ write.key)) write.key) :
    Restartable packing codec { s with store := store, writing := s.writing.filter (·.key ≠ write.key), failed := failed } := by
  have fewer : ∀ other, other ∈ s.writing.filter (·.key ≠ write.key) → other ∈ s.writing ∧ other.key ≠ write.key := by
    intro other here
    simpa using List.mem_filter.mp here
  -- For the other keys the Writes in flight are the same.
  have settles : ∀ item : Item, item.record.key ≠ write.key → Settled (s.writing.filter (·.key ≠ write.key)) item → Settled s.writing item := by
    intro item different settled other here equal
    refine settled other (List.mem_filter.mpr ⟨here, ?_⟩) equal
    have own : item.record.key = other.key := by rw [equal]; rfl
    simpa [← own] using different
  refine ⟨inv.positive, inv.ranged, inv.allowed, inv.writable, placed, fun other here => inv.flying other (fewer other here).1,
    fun one first two second => inv.single one (fewer one first).1 two (fewer two second).1, lost, fun key clean idle => ?_, fun other here => ?_⟩
  · by_cases equal : key = write.key
    · subst equal
      exact ends clean
    · refine current_frame packing _ _ _ _ _ _ key (inv.kept key (fun item here => clean item (more item here)) fun other here name => ?_)
        (same key equal) (fun _ here _ => here) (fun item here own settled => ⟨here, settles item (by rw [own]; exact equal) settled⟩)
      refine idle other (List.mem_filter.mpr ⟨here, ?_⟩) name
      rw [name]
      simpa using equal
  · obtain ⟨known, different⟩ := fewer other here
    exact phased_frame packing _ _ _ _ _ _ _ _ other _ (inv.going other known) (same other.key different) (fun _ here _ => here)
      (fun item here own settled => ⟨here, settles item (by rw [own]; exact different) settled⟩) (fun clean item there => clean item (more item there))

theorem add_restartable (key : UInt64) (log : PaxosLog) (version offset : Nat) (next : HardMemKv)
    (done : s.add codec packing key log version offset = some next) : Restartable packing codec next := by
  unfold add at done
  split at done
  · cases done
  · rename_i guard
    rw [not_or] at guard
    obtain ⟨idle, above⟩ := guard
    obtain ⟨raw, written, done⟩ := Option.bind_eq_some_iff.mp done
    obtain ⟨filled, done⟩ := (asserting_some _ _ _).mp done
    dsimp only at done
    obtain ⟨write, shape⟩ : ∃ write : FileWrite, write = ⟨key, s.current, offset, version % 2 ^ 32, raw⟩ := ⟨_, rfl⟩
    rw [← shape] at done
    split at done
    · rename_i valid
      cases done
      have file : write.item.fileNo = s.current := by rw [shape]; rfl
      have named : write.key = key := by rw [shape]
      have bytes : write.raw = raw := by rw [shape]
      have less : ∀ item ∈ s.files, item.fileNo = s.current → item.offset < offset := by simpa using above
      have others : ∀ other ∈ s.writing, other.key ≠ key := by simpa using idle
      have current := inv.positive
      have new : ∀ item, item ∈ s.files ++ [write.item] → item ∈ s.files ∨ item = write.item := by
        intro item here
        simpa using here
      have flies : ¬ Settled (write :: s.writing) write.item := fun settled => settled write List.mem_cons_self rfl
      have known : ∀ item ∈ s.files ++ [write.item], Settled (write :: s.writing) item → item ∈ s.files ∧ Settled s.writing item := by
        intro item here settled
        rcases new item here with old | rfl
        · exact ⟨old, fun other there => settled other (List.mem_cons_of_mem _ there)⟩
        · exact absurd settled flies
      have still : ∀ other, MemStore.Untouched s.store s.store other := fun _ => ⟨rfl, fun _ _ => Iff.rfl⟩
      have grows : ∀ other, Current packing s.store s.files s.writing other → Current packing s.store (s.files ++ [write.item]) (write :: s.writing) other :=
        fun other before => current_frame packing _ _ _ _ _ _ other before (still other) (fun item here _ => List.mem_append_left _ here)
          (fun item here _ settled => known item here settled)
      refine ⟨current, fun item here => ?_, fun item here => ?_, fun item here => ?_, inv.placed, fun other here => ?_, fun one first two second => ?_,
        fun item here => ⟨List.mem_append_left _ (inv.lost item here).1, (inv.lost item here).2⟩, fun other clean free => ?_, fun other here => ?_⟩
      · rcases new item here with old | rfl
        · exact inv.ranged item old
        · rw [file]
          exact .inl ⟨current, le_refl _⟩
      · rcases new item here with old | rfl
        · exact inv.allowed item old
        · exact valid
      · rcases new item here with old | rfl
        · exact inv.writable item old
        · exact ⟨log, raw, write_decodes packing write log (by rw [bytes]; exact written), written, filled⟩
      · rcases List.mem_cons.mp here with rfl | before
        · refine ⟨List.mem_append_right _ List.mem_cons_self, fun item there _ => ?_, ⟨log, by rw [bytes]; exact written⟩, by rw [bytes]; exact filled,
            by rw [shape]; exact current⟩
          rcases new item there with old | rfl
          · right
            rcases inv.ranged item old with ⟨positive, most⟩ | below
            · rcases Int.lt_or_eq_of_le most with smaller | same
              · exact .inr (.inr (.inl ⟨positive, by rw [file]; exact smaller⟩))
              · exact .inr (.inr (.inr ⟨by rw [file]; exact same, by rw [shape]; exact less item old same⟩))
            · exact .inl ⟨below, by rw [file]; exact current⟩
          · exact .inl rfl
        · have flying := inv.flying other before
          refine ⟨List.mem_append_left _ flying.here, fun item there equal => ?_, flying.packs, flying.filled, flying.positive⟩
          rcases new item there with old | rfl
          · exact flying.fresh item old equal
          · exact absurd (equal.symm.trans named) (others other before)
      · rcases List.mem_cons.mp first with rfl | before
        · rcases List.mem_cons.mp second with rfl | later
          · exact fun _ => rfl
          · exact fun equal => absurd (equal.symm.trans named) (others two later)
        · rcases List.mem_cons.mp second with rfl | later
          · exact fun equal => absurd (equal.trans named) (others one before)
          · exact inv.single one before two later
      · exact grows other (inv.kept other clean fun old there => free old (List.mem_cons_of_mem _ there))
      · rcases List.mem_cons.mp here with rfl | before
        · dsimp only
          rw [← named, Function.update_self]
          refine fun clean => grows other.key (inv.kept other.key clean ?_)
          rw [named]
          exact others
        · dsimp only
          rw [Function.update_of_ne (others other before)]
          exact phased_frame packing _ _ _ _ _ _ _ _ other _ (inv.going other before) (still other.key)
            (fun item here _ => List.mem_append_left _ here) (fun item here _ settled => known item here settled) id
    · cases done

-- A record that is being written over is the only one of its key.
theorem torn_sole (write : FileWrite) (member : write ∈ s.writing) (clean : s.Clean write.key)
    (phase : s.phase write.key = .ready ∨ s.phase write.key = .torn) (slot : Slot) (found : s.store.find write.key = some slot) :
    Sole s.store write.key slot := by
  have going := inv.going write member
  rcases phase with ready | torn
  · rw [ready] at going
    exact current_sole packing s.store s.files s.writing write.key slot (going clean) found
  · rw [torn] at going
    obtain ⟨other, sole⟩ := going clean
    obtain ⟨inside, _, own, live⟩ := s.store.find_known write.key slot found
    rw [sole.only slot inside own live]
    exact sole

theorem tear_restartable (key : UInt64) (junk : MemRecord) (next : HardMemKv) (done : s.tear key junk = some next) :
    Restartable packing codec next := by
  obtain ⟨write, busy, done⟩ := Option.bind_eq_some_iff.mp done
  obtain ⟨member, rfl, phase⟩ := s.busy_known key _ write busy
  obtain ⟨slot, same, done⟩ := Option.bind_eq_some_iff.mp done
  obtain ⟨found, _⟩ := s.same_length_known write slot same
  obtain ⟨inside, _, own, _⟩ := s.store.find_known write.key slot found
  split at done
  · cases done
    refine phase_restartable codec packing s inv write member _ .torn (s.store.overwrite_placed inv.placed slot.place junk)
      (fun other different => s.store.overwrite_untouched inv.placed slot inside junk other (by rw [own]; exact different)) fun clean => ?_
    exact ⟨_, sole_overwrite s.store inv.placed write.key slot junk
      (torn_sole codec packing s inv write member clean (by simpa using phase) slot found)⟩
  · cases done

theorem overwrite_restartable (key : UInt64) (next : HardMemKv) (done : s.overwrite key = some next) : Restartable packing codec next := by
  obtain ⟨write, busy, done⟩ := Option.bind_eq_some_iff.mp done
  obtain ⟨member, rfl, phase⟩ := s.busy_known key _ write busy
  obtain ⟨slot, same, done⟩ := Option.map_eq_some_iff.mp done
  subst done
  obtain ⟨found, _⟩ := s.same_length_known write slot same
  obtain ⟨inside, _, own, _⟩ := s.store.find_known write.key slot found
  have flying := inv.flying write member
  obtain ⟨log, written⟩ := flying.packs
  refine end_restartable codec packing s inv write _ s.failed (s.store.overwrite_placed inv.placed slot.place _)
    (fun other different => s.store.overwrite_untouched inv.placed slot inside _ other (by rw [own]; exact different)) (fun _ => id) inv.lost fun clean => ?_
  refine write_current packing _ s.files write _ log _ flying written
    (sole_overwrite s.store inv.placed write.key slot ⟨write.fileNo, false, write.raw⟩
      (torn_sole codec packing s inv write member clean (by simpa using phase) slot found)) ?_
  exact ⟨write.raw, written, flying.filled, .inl ⟨rfl, rfl⟩⟩

theorem append_restartable (key : UInt64) (place : Nat × Nat) (next : HardMemKv) (done : s.append packing key place = some next) :
    Restartable packing codec next := by
  obtain ⟨write, busy, done⟩ := Option.bind_eq_some_iff.mp done
  obtain ⟨member, rfl, phase⟩ := s.busy_known key _ write busy
  split at done
  · cases done
  · rename_i unused
    have free : ∀ slot ∈ s.store.slots, slot.place ≠ place := by simpa using unused
    split at done
    · cases done
    · cases done
      refine phase_restartable codec packing s inv write member _ (.appended place) (s.store.append_placed inv.placed place write.key _ free)
        (fun other different => s.store.append_untouched place write.key other _ different) ?_
      have going := inv.going write member
      rw [of_decide_eq_true phase] at going
      have new : ∀ other, other ∈ (s.store.append place write.key (plogToNewHead packing write.fileNo write.raw)).slots →
          other ∈ s.store.slots ∨ other = ⟨place, write.key, false, plogToNewHead packing write.fileNo write.raw⟩ := by
        intro other here
        simpa [MemStore.append] using here
      refine ⟨⟨place, write.key, false, plogToNewHead packing write.fileNo write.raw⟩, rfl,
        ⟨List.mem_append_right _ List.mem_cons_self, rfl, rfl, rfl, fun same => ?_, fun target at_ => ?_⟩, fun clean other here own live => ?_⟩
      · obtain ⟨slot, inside, at_, _⟩ := inv.placed.indexed write.key place same
        exact free slot inside at_
      · obtain ⟨slot, inside, where_, own, _⟩ := inv.placed.indexed write.key target at_
        exact ⟨slot, List.mem_append_left _ inside, where_, own⟩
      · rcases new other here with old | fresh
        · right
          cases going clean with
          | absent _ dead _ =>
              rw [dead other old own] at live
              cases live
          | held slot log sole _ _ =>
              rw [sole.only other old own live]
              exact sole.at_
        · exact .inl fresh

theorem set_index_restartable (key : UInt64) (next : HardMemKv) (done : s.setIndex key = some next) : Restartable packing codec next := by
  obtain ⟨write, busy, done⟩ := Option.bind_eq_some_iff.mp done
  obtain ⟨member, rfl, _⟩ := s.busy_known key _ write busy
  split at done
  · rename_i place phase
    cases done
    have going := inv.going write member
    rw [phase] at going
    obtain ⟨new, rfl, doubled, only⟩ := going
    have own := doubled.own
    refine phase_restartable codec packing s inv write member _ (.indexed (s.store.index write.key)) ?_
      (fun other different => MemStore.set_index_untouched s.store write.key other new.place different) ?_
    · rw [← own]
      exact MemStore.set_index_placed s.store inv.placed new doubled.member doubled.live
    · exact ⟨new, Function.update_self .., ⟨doubled.member, own, doubled.live, doubled.record, doubled.apart, doubled.known⟩, only⟩
  · cases done

theorem finish_restartable (key : UInt64) (next : HardMemKv) (done : s.finish key = some next) : Restartable packing codec next := by
  obtain ⟨write, busy, done⟩ := Option.bind_eq_some_iff.mp done
  obtain ⟨member, rfl, _⟩ := s.busy_known key _ write busy
  split at done
  · rename_i old phase
    cases done
    have going := inv.going write member
    rw [phase] at going
    obtain ⟨new, at_, doubled, only⟩ := going
    have flying := inv.flying write member
    obtain ⟨log, written⟩ := flying.packs
    have packed : Packed packing new.record log := by
      rw [doubled.record]
      exact (set_packed packing write.fileNo write.raw none log written flying.filled).1
    cases old with
    | none =>
        refine end_restartable codec packing s inv write s.store s.failed inv.placed (fun _ _ => ⟨rfl, fun _ _ => Iff.rfl⟩) (fun _ => id) inv.lost
          fun clean => write_current packing s.store s.files write new log _ flying written ?_ packed
        refine ⟨doubled.member, doubled.own, doubled.live, at_, fun other here own live => ?_⟩
        rcases only clean other here own live with same | wrong
        · exact same
        · cases wrong
    | some place =>
        obtain ⟨slot, inside, rfl, own⟩ := doubled.known place rfl
        have apart : new.place ≠ slot.place := fun same => doubled.apart (by rw [same])
        have unused : ∀ key, s.store.index key ≠ some slot.place := by
          intro key wrong
          obtain ⟨found, there, same, name, _⟩ := inv.placed.indexed key slot.place wrong
          rw [s.store.same_place inv.placed found slot there inside same, own] at name
          rw [← name, at_, Option.some.injEq] at wrong
          exact apart wrong
        refine end_restartable codec packing s inv write (s.store.delete slot.place) s.failed (s.store.delete_placed inv.placed slot.place unused)
          (fun other different => s.store.delete_untouched inv.placed slot inside other (by rw [own]; exact different)) (fun _ => id) inv.lost
          fun clean => write_current packing _ s.files write new log _ flying written ?_ packed
        refine ⟨(s.store.delete_member _ _).mpr (.inl ⟨doubled.member, apart⟩), doubled.own, doubled.live, at_, fun other here name live => ?_⟩
        rcases (s.store.delete_member _ _).mp here with ⟨there, elsewhere⟩ | ⟨_, _, _, rfl⟩
        · rcases only clean other there name live with same | wrong
          · exact same
          · rw [Option.some.injEq] at wrong
            exact absurd wrong.symm elsewhere
        · cases live
  · cases done

theorem fail_restartable (key : UInt64) (next : HardMemKv) (done : s.fail key = some next) : Restartable packing codec next := by
  obtain ⟨write, busy, done⟩ := Option.map_eq_some_iff.mp done
  obtain ⟨member, rfl, _⟩ := s.busy_known key _ write busy
  subst done
  have flying := inv.flying write member
  refine end_restartable codec packing s inv write s.store (write.item :: s.failed) inv.placed (fun _ _ => ⟨rfl, fun _ _ => Iff.rfl⟩)
    (fun _ here => List.mem_cons_of_mem _ here) (fun item here => ?_) (fun clean => absurd rfl (clean write.item List.mem_cons_self))
  rcases List.mem_cons.mp here with rfl | before
  · exact ⟨flying.here, flying.positive⟩
  · exact inv.lost item before

theorem act_restartable (step : WriteStep) (next : HardMemKv) (done : s.act codec packing step = some next) : Restartable packing codec next := by
  cases step with
  | add key log version offset => exact add_restartable codec packing s inv key log version offset next done
  | tear key junk => exact tear_restartable codec packing s inv key junk next done
  | overwrite key => exact overwrite_restartable codec packing s inv key next done
  | append key place => exact append_restartable codec packing s inv key place next done
  | setIndex key => exact set_index_restartable codec packing s inv key next done
  | finish key => exact finish_restartable codec packing s inv key next done
  | fail key => exact fail_restartable codec packing s inv key next done
  | rotate =>
      cases done
      refine ⟨?_, fun item here => ?_, inv.allowed, inv.writable, inv.placed, inv.flying, inv.single, inv.lost, inv.kept, inv.going⟩
      · have more := inv.positive
        dsimp only
        omega
      · have place := inv.ranged item here
        dsimp only
        omega

end Steps

end HardMemKv

end PaxosStore.MemKv
