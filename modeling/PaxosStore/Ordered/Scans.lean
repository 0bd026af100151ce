import Mathlib.Data.List.Basic

set_option autoImplicit false

namespace PaxosStore.Ordered

-- An iterator over a sequence: what it has passed, the nearest first, and what is ahead of it.
structure Iterator (E : Type) where
  passed : List E
  ahead : List E

namespace Iterator

variable {E : Type}

def current (iter : Iterator E) : Option E := iter.ahead.head?

def valid (iter : Iterator E) : Bool := iter.current.isSome

-- The first entry that is not below the target.
def seek (below : E → Bool) (entries : List E) : Iterator E := ⟨(entries.takeWhile below).reverse, entries.dropWhile below⟩

def seekToLast (entries : List E) : Iterator E :=
  match entries.reverse with
  | [] => ⟨[], []⟩
  | last :: rest => ⟨rest, [last]⟩

-- In front of the first entry there is none.
def prev (iter : Iterator E) : Iterator E :=
  match iter.passed with
  | [] => ⟨[], []⟩
  | entry :: rest => ⟨rest, entry :: iter.ahead⟩

-- One entry back from where a target is, or would be.
theorem before_target (below : E → Bool) (entries : List E) :
    (if (seek below entries).valid then (seek below entries).prev else seekToLast entries).current = (entries.takeWhile below).getLast? := by
  have parts := List.takeWhile_append_dropWhile (p := below) (l := entries)
  rw [List.getLast?_eq_head?_reverse]
  cases rest : entries.dropWhile below with
  | nil =>
      have valid : ¬ (seek below entries).valid = true := by
        rw [valid, current, seek, rest]
        exact Bool.false_ne_true
      rw [rest, List.append_nil] at parts
      rw [if_neg valid, parts, seekToLast]
      cases entries.reverse with
      | nil => rfl
      | cons last others => rfl
  | cons entry others =>
      have valid : (seek below entries).valid = true := by
        rw [valid, current, seek, rest]
        rfl
      rw [if_pos valid, prev, seek]
      dsimp only
      cases (entries.takeWhile below).reverse with
      | nil => rfl
      | cons last others => rfl

end Iterator

theorem take_congr {E : Type} {p q : E → Bool} {entries : List E} (same : ∀ entry ∈ entries, p entry = q entry) :
    entries.takeWhile p = entries.takeWhile q := by
  induction entries with
  | nil => rfl
  | cons entry rest ih =>
      rw [List.takeWhile_cons, List.takeWhile_cons, same entry List.mem_cons_self,
        ih fun other member => same other (List.mem_cons_of_mem _ member)]

theorem drop_congr {E : Type} {p q : E → Bool} {entries : List E} (same : ∀ entry ∈ entries, p entry = q entry) :
    entries.dropWhile p = entries.dropWhile q := by
  induction entries with
  | nil => rfl
  | cons entry rest ih =>
      rw [List.dropWhile_cons, List.dropWhile_cons, same entry List.mem_cons_self,
        ih fun other member => same other (List.mem_cons_of_mem _ member)]

section Prefixes

variable {E : Type} (p : E → Bool) (entries : List E) (falls : entries.Pairwise fun a b => p b = true → p a = true)
include falls

-- What holds of an entry holds of those in front of it.
theorem take_filter : entries.takeWhile p = entries.filter p := by
  induction entries with
  | nil => rfl
  | cons entry rest ih =>
      obtain ⟨first, falls⟩ := List.pairwise_cons.mp falls
      rw [List.takeWhile_cons, List.filter_cons]
      cases holds : p entry with
      | true =>
          rw [if_pos rfl, if_pos rfl, ih falls]
      | false =>
          rw [if_neg Bool.false_ne_true, if_neg Bool.false_ne_true]
          refine (List.filter_eq_nil_iff.mpr fun other member taken => ?_).symm
          rw [first other member taken] at holds
          cases holds

theorem drop_filter : entries.dropWhile p = entries.filter fun entry => !p entry := by
  induction entries with
  | nil => rfl
  | cons entry rest ih =>
      obtain ⟨first, falls⟩ := List.pairwise_cons.mp falls
      rw [List.dropWhile_cons, List.filter_cons]
      cases holds : p entry with
      | true =>
          rw [if_pos rfl, if_neg (by simp), ih falls]
      | false =>
          rw [if_neg Bool.false_ne_true, if_pos (by simp)]
          refine congrArg (entry :: ·) (List.filter_eq_self.mpr fun other member => ?_).symm
          cases taken : p other with
          | true =>
              rw [first other member taken] at holds
              cases holds
          | false => rfl

end Prefixes

section Writes

variable {K V : Type} [DecidableEq K]

-- What the last of some writes to a key has left there.
def latest (writes : List (K × V)) (key : K) : Option V := (writes.reverse.find? fun write => write.1 = key).map (·.2)

theorem latest_append (first second : List (K × V)) (key : K) : latest (first ++ second) key = (latest second key).or (latest first key) := by
  rw [latest, List.reverse_append, List.find?_append, latest, latest]
  cases second.reverse.find? fun write => write.1 = key with
  | none => rfl
  | some write => rfl

theorem latest_cons (write : K × V) (rest : List (K × V)) (key : K) :
    latest (write :: rest) key = (latest rest key).or (if write.1 = key then some write.2 else none) := by
  rw [show write :: rest = [write] ++ rest from rfl, latest_append]
  congr 1
  rw [latest, List.reverse_singleton, List.find?_cons]
  by_cases same : write.1 = key
  · simp [same]
  · simp [same]

theorem latest_mem (writes : List (K × V)) (key : K) (value : V) (last : latest writes key = some value) : (key, value) ∈ writes := by
  obtain ⟨write, found, rfl⟩ := Option.map_eq_some_iff.mp last
  have same : write.1 = key := by simpa using List.find?_some found
  rw [← same]
  exact List.mem_reverse.mp (List.mem_of_find?_eq_some found)

theorem latest_isSome (writes : List (K × V)) (key : K) : (latest writes key).isSome = true ↔ ∃ value, (key, value) ∈ writes := by
  constructor
  · intro held
    obtain ⟨value, last⟩ := Option.isSome_iff_exists.mp held
    exact ⟨value, latest_mem writes key value last⟩
  · rintro ⟨value, member⟩
    rw [latest, Option.isSome_map, List.find?_isSome]
    exact ⟨(key, value), List.mem_reverse.mpr member, by simp⟩

theorem latest_filter (p : K × V → Bool) (writes : List (K × V)) (key : K) (kept : ∀ value, p (key, value) = true) :
    latest (writes.filter p) key = latest writes key := by
  induction writes with
  | nil => rfl
  | cons write rest ih =>
      rw [List.filter_cons, latest_cons write rest, ← ih]
      by_cases taken : p write = true
      · rw [if_pos taken, latest_cons]
      · rw [if_neg taken, if_neg, Option.or_none]
        rintro rfl
        exact taken (kept write.2)

-- The keys may be written in another form that tells them apart.
theorem latest_map {L : Type} [DecidableEq L] (form : K → L) (writes : List (K × V)) (key : K)
    (apart : ∀ write ∈ writes, form write.1 = form key → write.1 = key) :
    latest (writes.map fun write => (form write.1, write.2)) (form key) = latest writes key := by
  induction writes with
  | nil => rfl
  | cons write rest ih =>
      rw [List.map_cons, latest_cons, latest_cons, ih fun other member => apart other (List.mem_cons_of_mem _ member)]
      by_cases same : write.1 = key
      · rw [if_pos (by rw [same]), if_pos same]
      · rw [if_neg (fun wrong => same (apart write List.mem_cons_self wrong)), if_neg same]

theorem latest_values {W : Type} (f : V → W) (writes : List (K × V)) (key : K) :
    latest (writes.map fun write => (write.1, f write.2)) key = (latest writes key).map f := by
  induction writes with
  | nil => rfl
  | cons write rest ih =>
      rw [List.map_cons, latest_cons, latest_cons, ih, Option.map_or]
      congr 1
      by_cases same : write.1 = key
      · rw [if_pos same, if_pos same, Option.map_some]
      · rw [if_neg same, if_neg same, Option.map_none]

-- Writes in groups, one of which has all writes to the key.
theorem latest_groups {H : Type} [DecidableEq H] (groups : H → List (K × V)) (order : List H) (key : K) (mine : H)
    (only : ∀ group, group ≠ mine → latest (groups group) key = none) :
    latest (order.flatMap groups) key = if mine ∈ order then latest (groups mine) key else none := by
  induction order with
  | nil => rfl
  | cons group rest ih =>
      rw [List.flatMap_cons, latest_append, ih]
      by_cases here : group = mine
      · subst here
        rw [if_pos List.mem_cons_self]
        split
        · exact Option.or_self
        · exact Option.none_or
      · rw [only group here, Option.or_none]
        by_cases later : mine ∈ rest
        · rw [if_pos later, if_pos (List.mem_cons_of_mem _ later)]
        · rw [if_neg later, if_neg]
          intro wrong
          rcases List.mem_cons.mp wrong with same | there
          · exact here same.symm
          · exact later there

end Writes

end PaxosStore.Ordered
