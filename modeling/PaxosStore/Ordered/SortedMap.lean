import PaxosStore.Ordered.Scans

set_option autoImplicit false

namespace PaxosStore.Ordered

-- A finite map as the list of its entries in ascending order.
structure SortedMap (K V : Type) [LT K] where
  entries : List (K × V)
  ascends : entries.Pairwise fun a b => a.1 < b.1

namespace SortedMap

variable {K V : Type} [LT K] [DecidableLT K] [DecidableEq K]

def empty : SortedMap K V := ⟨[], .nil⟩

def get (map : SortedMap K V) (key : K) : Option V := (map.entries.find? fun entry => entry.1 = key).map (·.2)

def insertPut (put : K × V) : List (K × V) → List (K × V)
  | [] => [put]
  | entry :: rest =>
      if put.1 < entry.1 then put :: entry :: rest
      else if put.1 = entry.1 then put :: rest
      else entry :: insertPut put rest

theorem insert_member (put entry : K × V) (entries : List (K × V)) (member : entry ∈ insertPut put entries) : entry = put ∨ entry ∈ entries := by
  induction entries with
  | nil => exact .inl (List.mem_singleton.mp member)
  | cons first rest ih =>
      rw [insertPut] at member
      split at member
      · rcases List.mem_cons.mp member with rfl | old
        · exact .inl rfl
        · exact .inr old
      · split at member
        · rcases List.mem_cons.mp member with rfl | old
          · exact .inl rfl
          · exact .inr (List.mem_cons_of_mem _ old)
        · rcases List.mem_cons.mp member with rfl | later
          · exact .inr List.mem_cons_self
          · exact (ih later).imp_right (List.mem_cons_of_mem _)

theorem insert_find (put : K × V) (entries : List (K × V)) (key : K) :
    ((insertPut put entries).find? fun entry => entry.1 = key).map (·.2) =
      if put.1 = key then some put.2 else (entries.find? fun entry => entry.1 = key).map (·.2) := by
  induction entries with
  | nil =>
      rw [insertPut, List.find?_cons]
      by_cases same : put.1 = key
      · simp [same]
      · simp [same]
  | cons first rest ih =>
      rw [insertPut]
      split
      · rw [List.find?_cons]
        by_cases same : put.1 = key
        · simp [same]
        · simp [same]
      · split
        · rename_i equal
          rw [List.find?_cons, List.find?_cons, ← equal]
          by_cases same : put.1 = key
          · simp [same]
          · simp [same]
        · rename_i apart
          rw [List.find?_cons, List.find?_cons]
          by_cases here : first.1 = key
          · rw [if_neg (fun wrong => apart (wrong.trans here.symm))]
            simp [here]
          · simp only [here, decide_false]
            exact ih

section Order

variable [Trans (α := K) (· < ·) (· < ·) (· < ·)] [Std.Trichotomous (α := K) (· < ·)]

theorem insert_ascends (put : K × V) (entries : List (K × V)) (ascends : entries.Pairwise fun a b => a.1 < b.1) :
    (insertPut put entries).Pairwise fun a b => a.1 < b.1 := by
  induction entries with
  | nil => exact List.pairwise_singleton _ _
  | cons first rest ih =>
      obtain ⟨low, later⟩ := List.pairwise_cons.mp ascends
      rw [insertPut]
      split
      · rename_i below
        refine List.pairwise_cons.mpr ⟨fun entry member => ?_, ascends⟩
        rcases List.mem_cons.mp member with rfl | there
        · exact below
        · exact Trans.trans below (low entry there)
      · split
        · rename_i same
          refine List.pairwise_cons.mpr ⟨fun entry member => ?_, later⟩
          rw [same]
          exact low entry member
        · rename_i high apart
          refine List.pairwise_cons.mpr ⟨fun entry member => ?_, ih later⟩
          rcases insert_member put entry rest member with rfl | there
          · by_contra wrong
            exact apart (Std.Trichotomous.trichotomous _ _ high wrong)
          · exact low entry there

def put (map : SortedMap K V) (key : K) (value : V) : SortedMap K V := ⟨insertPut (key, value) map.entries, insert_ascends _ _ map.ascends⟩

def write (map : SortedMap K V) (puts : List (K × V)) : SortedMap K V := puts.foldl (fun map entry => map.put entry.1 entry.2) map

theorem get_put (map : SortedMap K V) (key other : K) (value : V) :
    (map.put key value).get other = if key = other then some value else map.get other := insert_find (key, value) map.entries other

-- The last of the puts of a key is what is there.
theorem get_write (map : SortedMap K V) (puts : List (K × V)) (key : K) : (map.write puts).get key = (latest puts key).or (map.get key) := by
  induction puts generalizing map with
  | nil => rfl
  | cons first rest ih =>
      rw [write, List.foldl_cons, ← write, ih, get_put, latest_cons, Option.or_assoc]
      congr 1
      by_cases same : first.1 = key
      · rw [if_pos same, if_pos same, Option.some_or]
      · rw [if_neg same, if_neg same, Option.none_or]

end Order

omit [DecidableLT K] in
theorem get_iff [Std.Irrefl (α := K) (· < ·)] (map : SortedMap K V) (key : K) (value : V) : (key, value) ∈ map.entries ↔ map.get key = some value := by
  obtain ⟨entries, ascends⟩ := map
  rw [get]
  dsimp only
  induction entries with
  | nil => simp
  | cons first rest ih =>
      obtain ⟨low, later⟩ := List.pairwise_cons.mp ascends
      rw [List.mem_cons, List.find?_cons]
      by_cases here : first.1 = key
      · have gone (other : V) : (key, other) ∉ rest := by
          intro member
          have wrong := low (key, other) member
          rw [here] at wrong
          exact Std.Irrefl.irrefl _ wrong
        simp only [here, decide_true, Option.map_some, Option.some.injEq]
        constructor
        · rintro (rfl | member)
          · rfl
          · exact absurd member (gone value)
        · rintro rfl
          exact .inl (Prod.ext here.symm rfl)
      · simp only [here, decide_false]
        rw [← ih later]
        constructor
        · rintro (rfl | member)
          · exact absurd rfl here
          · exact member
        · exact .inr

end SortedMap

end PaxosStore.Ordered
