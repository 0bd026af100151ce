import Mathlib.Algebra.Ring.Nat

namespace PaxosStore.Consensus

-- Where the size of a group is fixed, it has three servers.
instance three_servers : NeZero 3 := ⟨by decide⟩

end PaxosStore.Consensus
