import PaxosStore.Certain.DeskChanges
import Mathlib.Algebra.BigOperators.Group.List.Basic

set_option autoImplicit false

namespace PaxosStore.Certain

variable {n : Nat}

namespace Desk

def sizeAt (entries : EntryKey → Option (EntryInfo n)) (key : EntryKey) : Nat := (entries key).elim 0 EntryInfo.totalSize

-- The table has the live entries, each once, and the limiter the sum of their sizes.
structure Tabled (d : Desk n) : Prop where
  once : d.lruTable.Nodup
  live : ∀ key, key ∈ d.lruTable ↔ (d.entryInfos key).isSome
  total : d.totalSize = (d.lruTable.map (sizeAt d.entryInfos)).sum

theorem tabled_same (d e : Desk n) (tabled : Tabled d) (entries : e.entryInfos = d.entryInfos) (table : e.lruTable = d.lruTable)
    (total : e.totalSize = d.totalSize) : Tabled e := by
  refine ⟨?_, ?_, ?_⟩
  · rw [table]
    exact tabled.once
  · rw [table, entries]
    exact tabled.live
  · rw [table, entries, total]
    exact tabled.total

-- The table is the key and the rest.
theorem table_split (keys : List EntryKey) (key : EntryKey) (once : keys.Nodup) (member : key ∈ keys) :
    keys.Perm (key :: keys.filter (· ≠ key)) := by
  have rest : keys.erase key = keys.filter (· ≠ key) := by
    rw [once.erase_eq_filter]
    exact List.filter_congr fun other _ => by
      by_cases same : other = key <;> simp [same]
  rw [← rest]
  exact List.perm_cons_erase member

theorem sizes_off (entries : EntryKey → Option (EntryInfo n)) (keys : List EntryKey) (key : EntryKey) (new : Option (EntryInfo n))
    (apart : key ∉ keys) : keys.map (sizeAt (Function.update entries key new)) = keys.map (sizeAt entries) := by
  refine List.map_congr_left fun other member => ?_
  have different : other ≠ key := fun same => apart (same ▸ member)
  rw [sizeAt, sizeAt, Function.update_of_ne different]

theorem not_in_rest (keys : List EntryKey) (key : EntryKey) : key ∉ keys.filter (· ≠ key) := fun member => by
  have off := (List.mem_filter.mp member).2
  simp at off

-- The entry changes, and the limiter knows its new size.
theorem tabled_set (d e : Desk n) (tabled : Tabled d) (key : EntryKey) (old new : EntryInfo n) (live : d.entryInfos key = some old)
    (entries : e.entryInfos = Function.update d.entryInfos key (some new)) (table : e.lruTable = d.lruTable)
    (total : e.totalSize = d.totalSize - old.totalSize + new.totalSize) : Tabled e := by
  have member : key ∈ d.lruTable := (tabled.live key).mpr (by rw [live]; rfl)
  have parts := table_split d.lruTable key tabled.once member
  have before : d.totalSize = old.totalSize + ((d.lruTable.filter (· ≠ key)).map (sizeAt d.entryInfos)).sum := by
    rw [tabled.total, (parts.map _).sum_eq, List.map_cons, List.sum_cons, sizeAt, live]
    rfl
  refine ⟨by rw [table]; exact tabled.once, fun other => ?_, ?_⟩
  · rw [table, entries]
    by_cases same : other = key
    · subst same
      simp [member]
    · rw [Function.update_of_ne same]
      exact tabled.live other
  · rw [table, entries, (parts.map _).sum_eq, List.map_cons, List.sum_cons, sizes_off d.entryInfos _ key _ (not_in_rest _ key), sizeAt,
      Function.update_self, total, before]
    simp only [Option.elim_some]
    omega

theorem tabled_entry (d e : Desk n) (tabled : Tabled d) (key : EntryKey) (old new : EntryInfo n) (live : d.entryInfos key = some old)
    (size : new.totalSize = old.totalSize) (entries : e.entryInfos = Function.update d.entryInfos key (some new))
    (table : e.lruTable = d.lruTable) (total : e.totalSize = d.totalSize) : Tabled e := by
  refine tabled_set d e tabled key old new live entries table ?_
  have member : key ∈ d.lruTable := (tabled.live key).mpr (by rw [live]; rfl)
  have parts := table_split d.lruTable key tabled.once member
  have before : d.totalSize = old.totalSize + ((d.lruTable.filter (· ≠ key)).map (sizeAt d.entryInfos)).sum := by
    rw [tabled.total, (parts.map _).sum_eq, List.map_cons, List.sum_cons, sizeAt, live]
    rfl
  omega

theorem tabled_insert (d : Desk n) (tabled : Tabled d) (key : EntryKey) (info : EntryInfo n) (absent : d.entryInfos key = none) :
    Tabled (d.insert key info) := by
  have apart : key ∉ d.lruTable := fun member => by
    have live := (tabled.live key).mp member
    rw [absent] at live
    cases live
  refine ⟨List.nodup_cons.mpr ⟨not_in_rest _ key, tabled.once.filter _⟩, fun other => ?_, ?_⟩
  · by_cases same : other = key
    · subst same
      simp [insert, Desk.setEntry]
    · simp [insert, Desk.setEntry, same, tabled.live other]
  · have rest : d.lruTable.filter (· ≠ key) = d.lruTable :=
      List.filter_eq_self.mpr fun other member => decide_eq_true fun same => apart (same ▸ member)
    simp only [insert, Desk.setEntry, rest, List.map_cons, List.sum_cons]
    rw [sizes_off d.entryInfos _ key _ apart, ← tabled.total, sizeAt, Function.update_self]
    exact Nat.add_comm _ _

theorem tabled_erase (d e : Desk n) (tabled : Tabled d) (key : EntryKey) (info : EntryInfo n) (live : d.entryInfos key = some info)
    (entries : e.entryInfos = Function.update d.entryInfos key none) (table : e.lruTable = d.lruTable.filter (· ≠ key))
    (total : e.totalSize = d.totalSize - info.totalSize) : Tabled e := by
  have member : key ∈ d.lruTable := (tabled.live key).mpr (by rw [live]; rfl)
  have parts := table_split d.lruTable key tabled.once member
  refine ⟨by rw [table]; exact tabled.once.filter _, fun other => ?_, ?_⟩
  · rw [table, entries]
    by_cases same : other = key
    · subst same
      simp
    · simp [same, tabled.live other]
  · have before : d.totalSize = info.totalSize + ((d.lruTable.filter (· ≠ key)).map (sizeAt d.entryInfos)).sum := by
      rw [tabled.total, (parts.map _).sum_eq, List.map_cons, List.sum_cons, sizeAt, live]
      rfl
    rw [table, entries, sizes_off d.entryInfos _ key _ (not_in_rest _ key), total, before]
    omega

theorem tabled_act (d e : Desk n) (act : Act d e) (tabled : Tabled d) : Tabled e := by
  cases act with
  | retired key entity info mine expired live certain known owner closed next =>
      exact tabled_entry d _ tabled key info { info with expiredTimestampSec := expired } live rfl rfl rfl rfl
  | book key old new live booked => exact tabled_entry d _ tabled key old new live booked.size rfl rfl rfl
  | resize key info size live => exact tabled_set d _ tabled key info { info with totalSize := size } live rfl rfl rfl
  | slot key info peer cmd live uncertain =>
      exact tabled_entry d _ tabled key info { info with waitingMsgs := Function.update info.waitingMsgs peer (some cmd) } live rfl rfl rfl rfl
  | work key entity info machine uncertain live certain known ready beyond =>
      exact tabled_entry d _ tabled key info { info with machine := machine, uncertain := uncertain } live rfl rfl rfl rfl
  | insert key entity info blank => exact tabled_insert d tabled key info blank.absent
  | drop key info live outside => exact tabled_erase d _ tabled key info live rfl rfl rfl
  | evict key rest info first live certain => exact tabled_erase d _ tabled key info live rfl rfl rfl
  | oldest key info clear live certain => exact tabled_erase d _ tabled key info live rfl rfl rfl
  | refresh key listed =>
      have parts := table_split d.lruTable key tabled.once listed
      refine ⟨List.nodup_cons.mpr ⟨not_in_rest _ key, tabled.once.filter _⟩, fun other => ?_, ?_⟩
      · exact parts.mem_iff.symm.trans (tabled.live other)
      · exact tabled.total.trans (parts.map _).sum_eq
  | _ => exact tabled_same d _ tabled rfl rfl rfl

theorem tabled_change (d e : Desk n) (change : Change d e) (tabled : Tabled d) : Tabled e := by
  cases change with
  | turn _ turn =>
      cases turn with
      | act _ act => exact tabled_act d e act tabled
      | _ => exact tabled_same d _ tabled rfl rfl rfl
  | drain _ drain =>
      cases drain with
      | act _ act => exact tabled_act d e act tabled
      | unslot key info peer live =>
          exact tabled_entry d _ tabled key info { info with waitingMsgs := Function.update info.waitingMsgs peer none } live rfl rfl rfl rfl
      | complete key info machine live uncertain =>
          exact tabled_entry d _ tabled key info { info with uncertain := false, machine := machine } live rfl rfl rfl rfl
  | _ => exact tabled_same d _ tabled rfl rfl rfl

end Desk

namespace Node

open Desk

theorem tabled_start (route : Nat → Fin n) : Tabled (start route).desk where
  once := List.nodup_nil
  live := fun key => by simp [desk, start]
  total := rfl

-- A table that has to shrink has an oldest entry.
theorem oldest_there (o : Options n) (s : Node n) (tabled : Tabled s.desk) (past : needRemove o s = true) :
    ∃ key info, s.lruTable.getLast? = some key ∧ s.entryInfos key = some info := by
  have full : s.lruTable ≠ [] := by
    intro empty
    have total : s.totalSize = (s.lruTable.map (sizeAt s.entryInfos)).sum := tabled.total
    rw [empty] at total
    simp [needRemove, empty, total] at past
  have last := List.getLast?_eq_some_getLast full
  obtain ⟨info, live⟩ := Option.isSome_iff_exists.mp ((tabled.live _).mp (List.getLast_mem full))
  exact ⟨_, info, last, live⟩

end Node

end PaxosStore.Certain
