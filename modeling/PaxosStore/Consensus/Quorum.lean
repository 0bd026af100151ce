import Mathlib.Data.Fintype.Card
import Mathlib.Data.Finset.Card

set_option autoImplicit false

namespace PaxosStore.Consensus

-- Strictly more than half of the members.
def Majority {A : Type} [Fintype A] (quorum : Finset A) : Prop :=
  Fintype.card A / 2 + 1 ≤ quorum.card

theorem majority_meets {A : Type} [Fintype A] [DecidableEq A] (left right : Finset A)
    (majorLeft : Majority left) (majorRight : Majority right) : ∃ a, a ∈ left ∧ a ∈ right := by
  have total := Finset.card_union_add_card_inter left right
  have within : (left ∪ right).card ≤ Fintype.card A := Finset.card_le_univ _
  have shared : 0 < (left ∩ right).card := by
    unfold Majority at majorLeft majorRight
    omega
  obtain ⟨a, member⟩ := Finset.card_pos.mp shared
  exact ⟨a, Finset.mem_inter.mp member⟩

theorem majority_mono {A : Type} [Fintype A] (small large : Finset A) (included : small ⊆ large)
    (major : Majority small) : Majority large :=
  Nat.le_trans major (Finset.card_le_card included)

theorem majority_member {A : Type} [Fintype A] (quorum : Finset A) (major : Majority quorum) :
    ∃ a, a ∈ quorum := by
  have positive : 0 < quorum.card := by
    unfold Majority at major
    omega
  exact Finset.card_pos.mp positive

end PaxosStore.Consensus
