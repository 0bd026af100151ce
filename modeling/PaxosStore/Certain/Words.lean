import Mathlib.Algebra.Group.Int.Defs
import Mathlib.Algebra.Ring.Nat
import Mathlib.Data.Nat.Notation
import Mathlib.Order.Basic

set_option autoImplicit false

namespace PaxosStore.Certain

def u64 (x : Nat) : Nat := x % 2 ^ 64

-- uint64_t subtraction.
def sub64 (a b : Nat) : Nat := if a < b then a + 2 ^ 64 - b else a - b

theorem u64_small (n : Nat) (small : n < 2 ^ 64) : u64 n = n := Nat.mod_eq_of_lt small

theorem u64_succ (n : Nat) : u64 (u64 n + 1) = u64 (n + 1) := Nat.mod_add_mod n (2 ^ 64) 1

theorem u64_add (a b : Nat) : u64 (u64 a + b) = u64 (a + b) := Nat.mod_add_mod a (2 ^ 64) b

-- Counts that are less than a round apart are told apart by their 64 bits.
theorem u64_inj (a b : Nat) (le : a ≤ b) (near : b - a < 2 ^ 64) (same : u64 a = u64 b) : a = b := by
  rw [u64, u64] at same
  omega

theorem sub64_counts (a b : Nat) (le : a ≤ b) (near : b - a < 2 ^ 64) : sub64 (u64 b) (u64 a) = b - a := by
  rw [sub64, u64, u64]
  split <;> omega

theorem sub64_sum (part rest : Nat) (small : part < 2 ^ 64) : sub64 (u64 (part + rest)) part = u64 rest := by
  rw [sub64, u64, u64]
  split <;> omega

end PaxosStore.Certain
