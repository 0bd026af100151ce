import PaxosStore.Certain.LockFreeQueue

set_option autoImplicit false

namespace PaxosStore.Certain.LockFreeQueue

variable {T : Type}

-- Numbers with one remainder that are less than the modulus apart are one.
theorem mod_inj (modulus a b : Nat) (le : a ≤ b) (near : b - a < modulus) (same : a % modulus = b % modulus) : a = b := by
  have zero := Nat.sub_mod_eq_zero_of_mod_eq same.symm
  rw [Nat.mod_eq_of_lt near] at zero
  omega

-- How many items PopByOneThread has returned.
def released (q : LockFreeQueue T) : Nat :=
  match q.pop with
  | .addTail _ => q.popped.length - 1
  | _ => q.popped.length

-- The index of head_ or tail_ that a slot belongs to.
def Popper (q : LockFreeQueue T) : PopPoint T → Prop
  | .loadHead t => t = u64 q.popped.length
  | .look t => t = u64 q.popped.length ∧ q.popped.length < q.reserved.length
  | .take t => t = u64 q.popped.length ∧ q.popped.length < q.reserved.length ∧ ∃ item, q.items (t % q.capacity) = some item
  | .addTail item => ∃ taken, item = some taken ∧ q.popped.getLast? = some taken
  | .returned item code => if code = .ok then ∃ taken, item = some taken ∧ q.popped.getLast? = some taken else item = none
  | _ => True

-- What a call knows that has not exchanged yet.
def Reading (q : LockFreeQueue T) : PushPoint T → Prop
  | .loadHead _ _ _ t seen => ∃ low, low ≤ q.released ∧ t = u64 low ∧ seen ≤ low + q.capacity ∧ seen ≤ q.reserved.length
  | .exchange _ _ _ t h seen => ∃ low high, low ≤ q.released ∧ t = u64 low ∧ seen ≤ low + q.capacity ∧ seen ≤ high ∧
      high ≤ q.reserved.length ∧ h = u64 high ∧ sub64 h t < q.capacity
  | _ => True

structure Inv (q : LockFreeQueue T) : Prop where
  bound : q.capacity < 2 ^ 64
  ordered : q.popped <+: q.reserved
  head : q.head = u64 q.reserved.length
  tail : q.tail = u64 q.released
  room : q.reserved.length ≤ q.released + q.capacity
  plain : q.reserved.length ≤ 2 ^ 64 ∨ q.capacity ∣ 2 ^ 64
  popper : Popper q q.pop
  reading : ∀ k, Reading q (q.pushes k)
  filled : ∀ j item, q.items j = some item → ∃ i, q.popped.length ≤ i ∧ q.reserved[i]? = some item ∧ i % q.capacity = j
  placed : ∀ i item, q.popped.length ≤ i → q.reserved[i]? = some item →
    q.items (i % q.capacity) = some item ∨ ∃ k, q.pushes k = .swap item (u64 i)
  pending : ∀ k item h, q.pushes k = .swap item h →
    ∃ i, q.popped.length ≤ i ∧ h = u64 i ∧ q.reserved[i]? = some item ∧ q.items (i % q.capacity) = none
  apart : ∀ k other item another h, q.pushes k = .swap item h → q.pushes other = .swap another h → k = other
  left : ∀ k given left code, q.pushes k = .returned given left code → left = if code = .ok then none else given
  pushed : ∀ k given left, q.pushes k = .returned given left .ok → ∃ item, given = some item ∧ item ∈ q.reserved

theorem released_le (q : LockFreeQueue T) : q.released ≤ q.popped.length := by
  rw [released]
  split
  · exact Nat.sub_le _ _
  · exact Nat.le_refl _

-- The slot of an index that has been handed out.
theorem slot_plain (q : LockFreeQueue T) (inv : Inv q) (i : Nat) (below : i < q.reserved.length) : u64 i % q.capacity = i % q.capacity := by
  rcases inv.plain with short | divides
  · rw [u64_small i (by omega)]
  · exact Nat.mod_mod_of_dvd i divides

theorem index_below (l : List T) (i : Nat) (item : T) (there : l[i]? = some item) : i < l.length :=
  (List.getElem?_eq_some_iff.mp there).1

-- Two indices in use have different slots and different numbers.
theorem window_slot (q : LockFreeQueue T) (inv : Inv q) (i j : Nat) (low : q.popped.length ≤ i) (le : i ≤ j)
    (high : j < q.reserved.length) (same : i % q.capacity = j % q.capacity) : i = j := by
  have room := inv.room
  have least := released_le q
  exact mod_inj q.capacity i j le (by omega) same

theorem window_number (q : LockFreeQueue T) (inv : Inv q) (i j : Nat) (low : q.popped.length ≤ i) (le : i ≤ j)
    (high : j ≤ q.reserved.length) (same : u64 i = u64 j) : i = j := by
  have room := inv.room
  have least := released_le q
  have bound := inv.bound
  exact u64_inj i j le (by omega) same

theorem inv_start (capacity : Nat) (bound : capacity < 2 ^ 64) : Inv (create capacity : LockFreeQueue T) where
  bound := bound
  ordered := List.prefix_rfl
  head := rfl
  tail := rfl
  room := Nat.zero_le _
  plain := .inl (Nat.zero_le _)
  popper := trivial
  reading := fun _ => trivial
  filled := nofun
  placed := nofun
  pending := nofun
  apart := nofun
  left := nofun
  pushed := nofun

end PaxosStore.Certain.LockFreeQueue
