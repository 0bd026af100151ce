import Mathlib.Data.List.Nodup
import PaxosStore.PaxosKv.PropNum

set_option autoImplicit false

namespace PaxosStore.Certain

open PaxosStore.PaxosKv

-- The elements of lru_list_, newest first; hash_table_ has one of each key.
structure LruTable (K V : Type) where
  elts : List (K × V)
  once : (elts.map Prod.fst).Nodup
  maxSize : Nat
  autoEliminate : Bool

namespace LruTable

variable {K V : Type}

def create (maxSize : Nat) (autoEliminate : Bool) : LruTable K V := ⟨[], List.nodup_nil, maxSize, autoEliminate⟩

def size (t : LruTable K V) : Nat := t.elts.length

def overLoad (t : LruTable K V) : Bool := t.size > t.maxSize

def peekOldest (t : LruTable K V) : Option (K × V) := t.elts.getLast?

variable [DecidableEq K]

def others (elts : List (K × V)) (key : K) : List (K × V) := elts.filter fun elt => elt.1 ≠ key

theorem others_sublist (elts : List (K × V)) (key : K) : ((others elts key).map Prod.fst).Sublist (elts.map Prod.fst) :=
  List.filter_sublist.map _

theorem key_not_in_others (elts : List (K × V)) (key : K) : key ∉ (others elts key).map Prod.fst := by
  intro member
  obtain ⟨elt, kept, same⟩ := List.mem_map.mp member
  have off := (List.mem_filter.mp kept).2
  simp [same] at off

theorem others_absent (elts : List (K × V)) (key : K) (absent : key ∉ elts.map Prod.fst) : others elts key = elts :=
  List.filter_eq_self.mpr fun _ member => decide_eq_true fun same => absent (List.mem_map.mpr ⟨_, member, same⟩)

-- At most one element has the key.
theorem others_length (elts : List (K × V)) (key : K) (once : (elts.map Prod.fst).Nodup) : elts.length ≤ (others elts key).length + 1 := by
  induction elts with
  | nil => exact Nat.zero_le _
  | cons elt rest ih =>
    obtain ⟨apart, later⟩ := List.nodup_cons.mp once
    by_cases same : elt.1 = key
    · have kept := others_absent rest key (same ▸ apart)
      rw [others, List.filter_cons_of_neg (by simp [same]), ← others, kept]
      exact Nat.le_refl _
    · rw [others, List.filter_cons_of_pos (by simp [same]), ← others, List.length_cons, List.length_cons]
      exact Nat.succ_le_succ (ih later)

def find (t : LruTable K V) (key : K) : Option V := (t.elts.find? fun elt => elt.1 = key).map Prod.snd

-- The element goes to the head, in the place of one of its key.
def put (t : LruTable K V) (key : K) (value : V) : LruTable K V :=
  { t with
    elts := (key, value) :: others t.elts key
    once := List.nodup_cons.mpr ⟨key_not_in_others t.elts key, t.once.sublist (others_sublist t.elts key)⟩ }

def drop (t : LruTable K V) (key : K) : LruTable K V :=
  { t with
    elts := others t.elts key
    once := t.once.sublist (others_sublist t.elts key) }

def putLast (t : LruTable K V) (key : K) (value : V) : LruTable K V :=
  { t with
    elts := others t.elts key ++ [(key, value)]
    once := by
      rw [List.map_append]
      exact List.nodup_append.mpr ⟨t.once.sublist (others_sublist t.elts key), List.nodup_singleton _, fun a member b last same =>
        key_not_in_others t.elts key (by rwa [same, List.mem_singleton.mp last] at member)⟩ }

def remove (t : LruTable K V) (key : K) : Bool × LruTable K V := ((t.find key).isSome, t.drop key)

def removeOldest (t : LruTable K V) : Option (Bool × LruTable K V) :=
  match t.peekOldest with
  | none => some (false, t)
  | some (key, _) => asserting ((t.remove key).1 = true) (some (true, (t.remove key).2))

def add (t : LruTable K V) (key : K) (value : V) : Option (Bool × LruTable K V) :=
  let ok := (t.find key).isNone
  let t := t.put key value
  if t.autoEliminate && t.overLoad then t.removeOldest.bind fun (removed, t) => asserting (removed = true) (some (ok, t))
  else some (ok, t)

def refresh (t : LruTable K V) (key : K) (newest : Bool) : Bool × LruTable K V :=
  match t.find key with
  | none => (false, t)
  | some value => (true, if newest then t.put key value else t.putLast key value)

theorem find_some (t : LruTable K V) (key : K) (value : V) : t.find key = some value ↔ (key, value) ∈ t.elts := by
  rw [find]
  constructor
  · intro found
    obtain ⟨elt, first, rfl⟩ := Option.map_eq_some_iff.mp found
    have same : elt.1 = key := by simpa using List.find?_some first
    have member := List.mem_of_find?_eq_some first
    rwa [← same]
  · intro member
    cases first : t.elts.find? fun elt => elt.1 = key with
    | none =>
      have missing := List.find?_eq_none.mp first _ member
      simp at missing
    | some elt =>
      have same : elt.1 = key := by simpa using List.find?_some first
      have one := List.inj_on_of_nodup_map t.once (List.mem_of_find?_eq_some first) member same
      rw [one]
      rfl

theorem find_is_some (t : LruTable K V) (key : K) : (t.find key).isSome = true ↔ key ∈ t.elts.map Prod.fst := by
  rw [Option.isSome_iff_exists, List.mem_map]
  constructor
  · intro ⟨value, found⟩
    exact ⟨(key, value), (t.find_some key value).mp found, rfl⟩
  · intro ⟨elt, member, same⟩
    exact ⟨elt.2, (t.find_some key elt.2).mpr (by rw [← same]; exact member)⟩

-- What is left without the oldest element.
theorem others_last (front : List (K × V)) (key : K) (value : V) (once : ((front ++ [(key, value)]).map Prod.fst).Nodup) :
    others (front ++ [(key, value)]) key = front := by
  have absent : key ∉ front.map Prod.fst := by
    intro member
    rw [List.map_append] at once
    exact (List.nodup_append.mp once).2.2 key member key (List.mem_singleton.mpr rfl) rfl
  rw [others, List.filter_append, ← others, others_absent front key absent]
  simp

-- A removal of the oldest element does not fail.
theorem oldest_removed (t : LruTable K V) (front : List (K × V)) (key : K) (value : V) (split : t.elts = front ++ [(key, value)]) :
    t.peekOldest = some (key, value) ∧ (t.remove key).1 = true ∧ (t.remove key).2.elts = front := by
  refine ⟨?_, ?_, ?_⟩
  · rw [peekOldest, split, List.getLast?_append, List.getLast?_singleton]
    rfl
  · rw [remove, find_is_some, split, List.map_append]
    exact List.mem_append_right _ (List.mem_singleton.mpr rfl)
  · have once := t.once
    rw [split] at once
    show others t.elts key = front
    rw [split, others_last front key value once]

theorem add_plain (t : LruTable K V) (key : K) (value : V) (plain : t.autoEliminate = false) :
    t.add key value = some ((t.find key).isNone, t.put key value) := by
  have same : (t.put key value).autoEliminate = false := plain
  rw [add]
  dsimp only
  rw [same, Bool.false_and, if_neg Bool.false_ne_true]

end LruTable

end PaxosStore.Certain
