import PaxosStore.MemKv.HardMemKv
import PaxosStore.MemKv.MergeKept

set_option autoImplicit false

namespace PaxosStore.MemKv

open PaxosStore.PaxosKv

-- No two records share a place, and the index leads to records that are in use.
structure Placed (s : MemStore) : Prop where
  unique : (s.slots.map (·.place)).Nodup
  indexed : ∀ key place, s.index key = some place → ∃ slot ∈ s.slots, slot.place = place ∧ slot.key = key ∧ slot.deleted = false

namespace MemStore

theorem same_place (s : MemStore) (placed : Placed s) (one two : Slot) (first : one ∈ s.slots) (second : two ∈ s.slots)
    (same : one.place = two.place) : one = two := List.inj_on_of_nodup_map placed.unique first second same

theorem slot_found (s : MemStore) (placed : Placed s) (slot : Slot) (member : slot ∈ s.slots) : s.slotAt slot.place = some slot := by
  rw [slotAt]
  cases found : s.slots.find? (·.place = slot.place) with
  | none => simpa using List.find?_eq_none.mp found slot member
  | some other =>
      have here := List.mem_of_find?_eq_some found
      have equal : other.place = slot.place := by simpa using List.find?_some found
      rw [s.same_place placed other slot here member equal]

theorem slot_known (s : MemStore) (place : Nat × Nat) (slot : Slot) (found : s.slotAt place = some slot) : slot ∈ s.slots ∧ slot.place = place :=
  ⟨List.mem_of_find?_eq_some found, by simpa using List.find?_some found⟩

theorem head_found (s : MemStore) (placed : Placed s) (slot : Slot) (member : slot ∈ s.slots) (live : slot.deleted = false) :
    s.getHead slot.place slot.key = some slot := by
  rw [getHead, s.slot_found placed slot member, Option.bind_some, if_pos ⟨rfl, live⟩]

theorem head_known (s : MemStore) (place : Nat × Nat) (key : UInt64) (slot : Slot) (found : s.getHead place key = some slot) :
    slot ∈ s.slots ∧ slot.place = place ∧ slot.key = key ∧ slot.deleted = false := by
  obtain ⟨other, at_, same⟩ := Option.bind_eq_some_iff.mp found
  split at same
  · rename_i fits
    cases same
    obtain ⟨member, place_⟩ := s.slot_known place slot at_
    exact ⟨member, place_, fits.1, fits.2⟩
  · cases same

theorem find_known (s : MemStore) (key : UInt64) (slot : Slot) (found : s.find key = some slot) :
    slot ∈ s.slots ∧ s.index key = some slot.place ∧ slot.key = key ∧ slot.deleted = false := by
  obtain ⟨place, at_, head⟩ := Option.bind_eq_some_iff.mp found
  obtain ⟨member, same, own, live⟩ := s.head_known place key slot head
  exact ⟨member, by rw [at_, same], own, live⟩

theorem find_of (s : MemStore) (placed : Placed s) (slot : Slot) (member : slot ∈ s.slots) (live : slot.deleted = false)
    (at_ : s.index slot.key = some slot.place) : s.find slot.key = some slot := by
  rw [find, at_, Option.bind_some]
  exact s.head_found placed slot member live

theorem find_indexed (s : MemStore) (placed : Placed s) (key : UInt64) (place : Nat × Nat) (at_ : s.index key = some place) :
    ∃ slot, s.find key = some slot ∧ slot.place = place := by
  obtain ⟨slot, member, same, rfl, live⟩ := placed.indexed key place at_
  exact ⟨slot, s.find_of placed slot member live (by rw [at_, same]), same⟩

-- The records of a key and its entry in the index are the same in both.
structure Untouched (s next : MemStore) (key : UInt64) : Prop where
  index : next.index key = s.index key
  slots : ∀ slot : Slot, slot.key = key → (slot ∈ next.slots ↔ slot ∈ s.slots)

theorem untouched_find (s next : MemStore) (key : UInt64) (placed : Placed s) (after : Placed next) (same : Untouched s next key) :
    next.find key = s.find key := by
  cases at_ : s.index key with
  | none => rw [find, find, same.index, at_]; rfl
  | some place =>
      obtain ⟨slot, found, _⟩ := s.find_indexed placed key place at_
      obtain ⟨member, index, own, live⟩ := s.find_known key slot found
      rw [found]
      subst own
      exact next.find_of after slot ((same.slots slot rfl).mpr member) live (same.index.trans index)

theorem append_placed (s : MemStore) (placed : Placed s) (place : Nat × Nat) (key : UInt64) (record : MemRecord)
    (free : ∀ slot ∈ s.slots, slot.place ≠ place) : Placed (s.append place key record) := by
  refine ⟨?_, fun other target at_ => ?_⟩
  · rw [append, List.map_append, List.map_singleton]
    refine List.nodup_append.mpr ⟨placed.unique, List.nodup_singleton _, fun taken here fresh there => ?_⟩
    obtain ⟨slot, member, rfl⟩ := List.mem_map.mp here
    cases List.mem_singleton.mp there
    exact free slot member
  · obtain ⟨slot, member, rest⟩ := placed.indexed other target at_
    exact ⟨slot, List.mem_append_left _ member, rest⟩

theorem set_index_placed (s : MemStore) (placed : Placed s) (slot : Slot) (member : slot ∈ s.slots) (live : slot.deleted = false) :
    Placed (s.setIndex slot.key slot.place) := by
  refine ⟨placed.unique, fun key place at_ => ?_⟩
  dsimp only [setIndex] at at_
  by_cases same : key = slot.key
  · subst same
    rw [Function.update_self] at at_
    cases at_
    exact ⟨slot, member, rfl, rfl, live⟩
  · rw [Function.update_of_ne same] at at_
    exact placed.indexed key place at_

theorem delete_places (s : MemStore) (place : Nat × Nat) : (s.delete place).slots.map (·.place) = s.slots.map (·.place) := by
  rw [delete, List.map_map]
  refine List.map_congr_left fun slot _ => ?_
  dsimp only [Function.comp]
  split <;> rfl

theorem overwrite_places (s : MemStore) (place : Nat × Nat) (record : MemRecord) :
    (s.overwrite place record).slots.map (·.place) = s.slots.map (·.place) := by
  rw [overwrite, List.map_map]
  refine List.map_congr_left fun slot _ => ?_
  dsimp only [Function.comp]
  split <;> rfl

theorem delete_member (s : MemStore) (place : Nat × Nat) (slot : Slot) :
    slot ∈ (s.delete place).slots ↔ (slot ∈ s.slots ∧ slot.place ≠ place) ∨
      ∃ old ∈ s.slots, old.place = place ∧ slot = { old with deleted := true } := by
  rw [delete, List.mem_map]
  constructor
  · rintro ⟨old, here, same⟩
    split at same
    · rename_i at_
      exact .inr ⟨old, here, at_, same.symm⟩
    · rename_i other
      cases same
      exact .inl ⟨here, other⟩
  · rintro (⟨here, other⟩ | ⟨old, here, at_, rfl⟩)
    · exact ⟨slot, here, if_neg other⟩
    · exact ⟨old, here, if_pos at_⟩

theorem overwrite_member (s : MemStore) (place : Nat × Nat) (record : MemRecord) (slot : Slot) :
    slot ∈ (s.overwrite place record).slots ↔ (slot ∈ s.slots ∧ slot.place ≠ place) ∨
      ∃ old ∈ s.slots, old.place = place ∧ slot = { old with record := record } := by
  rw [overwrite, List.mem_map]
  constructor
  · rintro ⟨old, here, same⟩
    split at same
    · rename_i at_
      exact .inr ⟨old, here, at_, same.symm⟩
    · rename_i other
      cases same
      exact .inl ⟨here, other⟩
  · rintro (⟨here, other⟩ | ⟨old, here, at_, rfl⟩)
    · exact ⟨slot, here, if_neg other⟩
    · exact ⟨old, here, if_pos at_⟩

-- The record that goes is not the one in the index.
theorem delete_placed (s : MemStore) (placed : Placed s) (place : Nat × Nat) (free : ∀ key, s.index key ≠ some place) :
    Placed (s.delete place) := by
  refine ⟨by rw [delete_places]; exact placed.unique, fun key target at_ => ?_⟩
  obtain ⟨slot, member, same, own, live⟩ := placed.indexed key target at_
  refine ⟨slot, (s.delete_member place slot).mpr (.inl ⟨member, ?_⟩), same, own, live⟩
  rw [same]
  rintro rfl
  exact free key at_

theorem overwrite_placed (s : MemStore) (placed : Placed s) (place : Nat × Nat) (record : MemRecord) : Placed (s.overwrite place record) := by
  refine ⟨by rw [overwrite_places]; exact placed.unique, fun key target at_ => ?_⟩
  obtain ⟨slot, member, same, own, live⟩ := placed.indexed key target at_
  by_cases hit : slot.place = place
  · exact ⟨{ slot with record := record }, (s.overwrite_member place record _).mpr (.inr ⟨slot, member, hit, rfl⟩), same, own, live⟩
  · exact ⟨slot, (s.overwrite_member place record _).mpr (.inl ⟨member, hit⟩), same, own, live⟩

theorem append_untouched (s : MemStore) (place : Nat × Nat) (key other : UInt64) (record : MemRecord) (different : other ≠ key) :
    Untouched s (s.append place key record) other := by
  refine ⟨rfl, fun slot own => ?_⟩
  rw [append, List.mem_append, List.mem_singleton]
  constructor
  · rintro (here | rfl)
    · exact here
    · exact absurd own.symm different
  · exact .inl

theorem set_index_untouched (s : MemStore) (key other : UInt64) (place : Nat × Nat) (different : other ≠ key) :
    Untouched s (s.setIndex key place) other := ⟨Function.update_of_ne different _ _, fun _ _ => Iff.rfl⟩

theorem delete_untouched (s : MemStore) (placed : Placed s) (old : Slot) (member : old ∈ s.slots) (other : UInt64) (different : other ≠ old.key) :
    Untouched s (s.delete old.place) other := by
  refine ⟨rfl, fun slot own => ?_⟩
  rw [delete_member]
  constructor
  · rintro (⟨here, _⟩ | ⟨found, here, at_, rfl⟩)
    · exact here
    · rw [s.same_place placed found old here member at_] at own
      exact absurd own.symm different
  · refine fun here => .inl ⟨here, fun at_ => ?_⟩
    rw [s.same_place placed slot old here member at_] at own
    exact different own.symm

theorem overwrite_untouched (s : MemStore) (placed : Placed s) (old : Slot) (member : old ∈ s.slots) (record : MemRecord) (other : UInt64)
    (different : other ≠ old.key) : Untouched s (s.overwrite old.place record) other := by
  refine ⟨rfl, fun slot own => ?_⟩
  rw [overwrite_member]
  constructor
  · rintro (⟨here, _⟩ | ⟨found, here, at_, rfl⟩)
    · exact here
    · rw [s.same_place placed found old here member at_] at own
      exact absurd own.symm different
  · refine fun here => .inl ⟨here, fun at_ => ?_⟩
    rw [s.same_place placed slot old here member at_] at own
    exact different own.symm

theorem untouched_trans (s next last : MemStore) (key : UInt64) (first : Untouched s next key) (second : Untouched next last key) :
    Untouched s last key := ⟨second.index.trans first.index, fun slot own => (second.slots slot own).trans (first.slots slot own)⟩

-- Set puts the log in memory and leaves the other keys alone.
theorem set_spec (packing : LogPacking) (s : MemStore) (placed : Placed s) (place : Nat × Nat) (free : ∀ slot ∈ s.slots, slot.place ≠ place)
    (key : UInt64) (fileNo : Int) (log : PaxosLog) (raw : List UInt8) (written : packing.serializeToString log = some raw) (filled : raw ≠ []) :
    ∃ next, s.set packing place key fileNo raw = some next ∧ Placed next ∧
      (∃ slot, next.find key = some slot ∧ Packed packing slot.record log) ∧ ∀ other, other ≠ key → next.find other = s.find other := by
  have packed := (set_packed packing fileNo raw none log written filled).1
  have appended := s.append_placed placed place key (plogToNewHead packing fileNo raw) free
  have member : (⟨place, key, false, plogToNewHead packing fileNo raw⟩ : Slot) ∈ (s.append place key (plogToNewHead packing fileNo raw)).slots :=
    List.mem_append_right _ List.mem_cons_self
  have indexed := set_index_placed _ appended _ member rfl
  have elsewhere : ∀ other, other ≠ key → Untouched s ((s.append place key (plogToNewHead packing fileNo raw)).setIndex key place) other :=
    fun other different => untouched_trans _ _ _ other (s.append_untouched place key other _ different) (set_index_untouched _ key other place different)
  cases at_ : s.index key with
  | none =>
      refine ⟨_, by rw [set, at_], indexed, ⟨⟨place, key, false, plogToNewHead packing fileNo raw⟩, ?_, packed⟩,
        fun other different => untouched_find _ _ other placed indexed (elsewhere other different)⟩
      exact find_of _ indexed _ member rfl (Function.update_self ..)
  | some old =>
      obtain ⟨slot, found, same⟩ := s.find_indexed placed key old at_
      obtain ⟨here, _, own, live⟩ := s.find_known key slot found
      subst same own
      have head : s.getHead slot.place slot.key = some slot := s.head_found placed slot here live
      by_cases equal : raw.length = slot.record.data.length
      · have next := s.overwrite_placed placed slot.place ⟨fileNo, false, raw⟩
        refine ⟨_, by rw [set, at_]; dsimp only; rw [head, Option.map_some, if_pos equal], next, ?_, fun other different =>
          untouched_find _ _ other placed next (s.overwrite_untouched placed slot here _ other different)⟩
        refine ⟨{ slot with record := ⟨fileNo, false, raw⟩ }, ?_, raw, written, filled, .inl ⟨rfl, rfl⟩⟩
        exact find_of _ next { slot with record := ⟨fileNo, false, raw⟩ }
          ((s.overwrite_member slot.place _ _).mpr (.inr ⟨slot, here, rfl, rfl⟩)) live at_
      · have still : slot ∈ ((s.append place slot.key (plogToNewHead packing fileNo raw)).setIndex slot.key place).slots := List.mem_append_left _ here
        have next := delete_placed _ indexed slot.place fun key wrong => by
          dsimp only [setIndex] at wrong
          by_cases same : key = slot.key
          · rw [same, Function.update_self] at wrong
            cases wrong
            exact free slot here rfl
          · rw [Function.update_of_ne same] at wrong
            obtain ⟨found, member, place_, own, _⟩ := placed.indexed key slot.place wrong
            rw [s.same_place placed found slot member here place_] at own
            exact same own.symm
        refine ⟨_, by rw [set, at_]; dsimp only; rw [head, Option.map_some, if_neg equal], next,
          ⟨⟨place, slot.key, false, plogToNewHead packing fileNo raw⟩, ?_, packed⟩, fun other different => untouched_find _ _ other placed next
            (untouched_trans _ _ _ other (elsewhere other different) (delete_untouched _ indexed slot still other different))⟩
        refine find_of _ next ⟨place, slot.key, false, plogToNewHead packing fileNo raw⟩ ?_ rfl (Function.update_self ..)
        exact (delete_member _ _ _).mpr (.inl ⟨member, Ne.symm (free slot here)⟩)

end MemStore

end PaxosStore.MemKv
