import PaxosStore.Consensus.Servers
import Mathlib.Algebra.Group.Int.Defs
import Mathlib.Algebra.Ring.Nat
import Mathlib.Data.Nat.Notation
import Mathlib.Order.Basic

set_option autoImplicit false

namespace PaxosStore.PaxosKv

-- A failed assertion stops the process: the computation has no result.
def asserting {R : Type} (condition : Prop) [Decidable condition] (rest : Option R) : Option R :=
  if condition then rest else none

theorem asserting_pos {R : Type} (condition : Prop) [Decidable condition] (rest : Option R) (holds : condition) :
    asserting condition rest = rest := if_pos holds

theorem asserting_some {R : Type} (condition : Prop) [Decidable condition] (rest : Option R) (result : R) :
    asserting condition rest = some result ↔ condition ∧ rest = some result := by
  by_cases holds : condition
  · simp [asserting, holds]
  · simp [asserting, holds]

def u64 (x : Nat) : Nat := x % 2 ^ 64

-- A proposal number has the proposer in its low 16 bits and a count above them.
def propNumCompose (id propCnt : Nat) : Nat := u64 (u64 (propCnt * 2 ^ 16) + id)

def propNumDecompose (propNum : Nat) : Nat × Nat := (propNum % 2 ^ 16, propNum / 2 ^ 16)

def getPropCnt (propNum : Nat) : Nat := (propNumDecompose propNum).2

structure PropNumGen where
  selfid : Nat
  propCnt : Nat
deriving DecidableEq, Repr

namespace PropNumGen

def get (gen : PropNumGen) : Nat := propNumCompose gen.selfid gen.propCnt

def update (gen : PropNumGen) (propNum : Nat) : Option PropNumGen :=
  if gen.get ≥ propNum then some gen
  else
    let next : PropNumGen :=
      if (propNumDecompose propNum).1 > gen.selfid then
        { gen with propCnt := u64 ((propNumDecompose propNum).2 + 1) }
      else { gen with propCnt := (propNumDecompose propNum).2 }
    asserting (next.get ≥ propNum) (some next)

def next (gen : PropNumGen) (hintNum : Nat) : Option PropNumGen :=
  (gen.update hintNum).bind fun gen =>
    asserting (gen.get ≥ hintNum) <|
      let gen := if gen.get = hintNum then { gen with propCnt := u64 (gen.propCnt + 1) } else gen
      asserting (gen.get > hintNum) (some gen)

theorem update_spec (gen result : PropNumGen) (propNum : Nat) (done : gen.update propNum = some result) :
    result.selfid = gen.selfid ∧ propNum ≤ result.get ∧ gen.get ≤ result.get := by
  unfold update at done
  by_cases reached : gen.get ≥ propNum
  · rw [if_pos reached] at done
    cases done
    exact ⟨rfl, reached, Nat.le_refl _⟩
  · rw [if_neg reached] at done
    obtain ⟨above, kept⟩ := (asserting_some _ _ _).mp done
    cases kept
    refine ⟨?_, above, by omega⟩
    split <;> rfl

theorem next_spec (gen result : PropNumGen) (hintNum : Nat) (done : gen.next hintNum = some result) :
    result.selfid = gen.selfid ∧ hintNum < result.get := by
  obtain ⟨raised, updated, rest⟩ := Option.bind_eq_some_iff.mp done
  have spec := update_spec gen raised hintNum updated
  obtain ⟨_, rest⟩ := (asserting_some _ _ _).mp rest
  obtain ⟨above, kept⟩ := (asserting_some _ _ _).mp rest
  cases kept
  refine ⟨?_, above⟩
  split
  · exact spec.1
  · exact spec.1

end PropNumGen

-- Whose number it is. Wrapping the count around does not touch the low bits.
theorem compose_owner (id propCnt : Nat) (small : id < 2 ^ 16) : propNumCompose id propCnt % 2 ^ 16 = id := by
  unfold propNumCompose u64
  omega

end PaxosStore.PaxosKv
