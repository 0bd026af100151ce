import PaxosStore.MemKv.MemIdx

set_option autoImplicit false

namespace PaxosStore.MemKv

open PaxosStore.Heap

namespace MemIdx

-- Slot 0 of a block is never handed out: in block 0 it is the null reference.
def IsSlot (idx : MemIdx) (ptr : KeyNodePtr) : Prop :=
  ptr.blockId < idx.blocks.length ∧ 0 < ptr.offset ∧ ptr.offset < idx.maxKeyCnt

instance (idx : MemIdx) (ptr : KeyNodePtr) : Decidable (idx.IsSlot ptr) := inferInstanceAs (Decidable (_ ∧ _))

def nextOf (idx : MemIdx) (ptr : KeyNodePtr) : KeyNodePtr := (idx.nodes ptr).next

def inBlock (blockId : Nat) (list : List KeyNodePtr) : Nat := list.countP (·.blockId = blockId)

-- The sizes the source allows.
structure Sized (idx : MemIdx) : Prop where
  bucket : 0 < idx.headSize
  slots : 2 ≤ idx.maxKeyCnt
  offsets : idx.maxKeyCnt ≤ 2 ^ 22
  ids : idx.maxBlock ≤ 2 ^ 10
  blocks : idx.blocks.length ≤ idx.maxBlock

-- Every slot is in one hash chain or in the free list of its block.
structure Placed (idx : MemIdx) (chains frees : Nat → List KeyNodePtr) : Prop where
  sized : Sized idx
  chained : ∀ i, i < idx.headSize → Linked idx.nextOf .null (idx.heads i) (chains i)
  freed : ∀ i block, idx.blocks[i]? = some block → Linked idx.nextOf .null block.free (frees i) ∧ ∀ p ∈ frees i, p.blockId = i
  once : ∀ p, occurs idx.headSize chains p + occurs idx.blocks.length frees p = if idx.IsSlot p then 1 else 0
  bucketed : ∀ i, i < idx.headSize → ∀ p ∈ chains i, ∃ key, (idx.nodes p).key = some key ∧ idx.hashFunc key = i
  keyed : ∀ i, i < idx.headSize → ((chains i).map fun p => (idx.nodes p).key).Nodup
  counted : ∀ i block, idx.blocks[i]? = some block → block.useCnt = ∑ j ∈ Finset.range idx.headSize, inBlock i (chains j)

theorem hash_bucket (idx : MemIdx) (sized : Sized idx) (key : UInt64) : idx.hashFunc key < idx.headSize :=
  Nat.mod_lt _ sized.bucket

section Facts

variable (idx : MemIdx) (chains frees : Nat → List KeyNodePtr) (placed : Placed idx chains frees)
include placed

theorem chain_slot (i : Nat) (inside : i < idx.headSize) (p : KeyNodePtr) (member : p ∈ chains i) : idx.IsSlot p := by
  have known := placed.once p
  have here := occurs_pos idx.headSize i inside chains p member
  by_contra outside
  rw [if_neg outside] at known
  omega

theorem free_slot (i : Nat) (inside : i < idx.blocks.length) (p : KeyNodePtr) (member : p ∈ frees i) : idx.IsSlot p := by
  have known := placed.once p
  have here := occurs_pos idx.blocks.length i inside frees p member
  by_contra outside
  rw [if_neg outside] at known
  omega

theorem chain_not_free (i j : Nat) (insideI : i < idx.headSize) (insideJ : j < idx.blocks.length) (p : KeyNodePtr)
    (chain : p ∈ chains i) : p ∉ frees j := by
  intro member
  have known := placed.once p
  have here := occurs_pos idx.headSize i insideI chains p chain
  have there := occurs_pos idx.blocks.length j insideJ frees p member
  split at known <;> omega

theorem chain_alone (i j : Nat) (insideI : i < idx.headSize) (insideJ : j < idx.headSize) (different : i ≠ j) (p : KeyNodePtr)
    (chain : p ∈ chains i) : p ∉ chains j := by
  intro member
  have known := placed.once p
  have twice := occurs_twice idx.headSize i j insideI insideJ different chains p chain member
  split at known <;> omega

theorem free_alone (i j : Nat) (insideI : i < idx.blocks.length) (insideJ : j < idx.blocks.length) (different : i ≠ j) (p : KeyNodePtr)
    (free : p ∈ frees i) : p ∉ frees j := by
  intro member
  have known := placed.once p
  have twice := occurs_twice idx.blocks.length i j insideI insideJ different frees p free member
  split at known <;> omega

theorem chain_nodup (i : Nat) (inside : i < idx.headSize) : (chains i).Nodup := by
  apply nodup_of_occurs idx.headSize i inside chains
  intro p
  have known := placed.once p
  split at known <;> omega

theorem free_nodup (i : Nat) (inside : i < idx.blocks.length) : (frees i).Nodup := by
  apply nodup_of_occurs idx.blocks.length i inside frees
  intro p
  have known := placed.once p
  split at known <;> omega

-- No chain is longer than there are nodes.
theorem chain_length (i : Nat) (inside : i < idx.headSize) : (chains i).length < idx.steps := by
  have nodup := chain_nodup idx chains frees placed i inside
  have number : ∀ p ∈ chains i, (p.blockId, p.offset) ∈ Finset.range idx.blocks.length ×ˢ Finset.range idx.maxKeyCnt := by
    intro p member
    have slot := chain_slot idx chains frees placed i inside p member
    simp only [Finset.mem_product, Finset.mem_range]
    exact ⟨slot.1, slot.2.2⟩
  have images : ((chains i).map fun p => (p.blockId, p.offset)).Nodup := by
    apply List.Nodup.map _ nodup
    intro p q same
    cases p
    cases q
    simpa using same
  have bound := Finset.card_le_card (s := ((chains i).map fun p => (p.blockId, p.offset)).toFinset)
    (t := Finset.range idx.blocks.length ×ˢ Finset.range idx.maxKeyCnt) (by
      intro pair member
      obtain ⟨p, chain, rfl⟩ := List.mem_map.mp (List.mem_toFinset.mp member)
      exact number p chain)
  rw [List.toFinset_card_of_nodup images, List.length_map, Finset.card_product, Finset.card_range, Finset.card_range] at bound
  exact Nat.lt_succ_of_le bound

end Facts

theorem read_slot (idx : MemIdx) (ptr : KeyNodePtr) (slot : idx.IsSlot ptr) : idx.readNode ptr = some (idx.nodes ptr) :=
  if_pos ⟨slot.1, slot.2.2⟩

theorem write_slot (idx : MemIdx) (ptr : KeyNodePtr) (node : KeyNode) (slot : idx.IsSlot ptr) :
    idx.writeNode ptr node = some { idx with nodes := Function.update idx.nodes ptr node } :=
  if_pos ⟨slot.1, slot.2.2⟩

theorem slot_not_null (idx : MemIdx) (ptr : KeyNodePtr) (slot : idx.IsSlot ptr) : ptr ≠ .null := by
  intro same
  have positive := slot.2.1
  rw [same] at positive
  simp [KeyNodePtr.null] at positive

-- What a lookup along a chain finds.
theorem list_find_loop (idx : MemIdx) (key : UInt64) (left : Nat) (start : KeyNodePtr) (list : List KeyNodePtr)
    (slots : ∀ p ∈ list, idx.IsSlot p) (linked : Linked idx.nextOf .null start list) (enough : list.length < left) :
    idx.listFindLoop key left start = some ((list.find? fun p => (idx.nodes p).key = some key).getD .null) := by
  induction left generalizing start list with
  | zero => exact absurd enough (Nat.not_lt_zero _)
  | succ left ih =>
      cases list with
      | nil =>
          have first : start = .null := linked
          simp [listFindLoop, first]
      | cons p rest =>
          obtain ⟨first, present, later⟩ := linked
          subst first
          rw [listFindLoop, if_neg present, read_slot idx start (slots start (by simp)), Option.bind_some, List.find?_cons]
          by_cases hit : (idx.nodes start).key = some key
          · simp [hit]
          · rw [if_neg hit, ih (idx.nodes start).next rest (fun p member => slots p (by simp [member])) later (by simpa using enough)]
            simp [hit]

theorem list_find_chain (idx : MemIdx) (chains frees : Nat → List KeyNodePtr) (placed : Placed idx chains frees) (key : UInt64) :
    idx.listFind key (idx.heads (idx.hashFunc key)) =
      some (((chains (idx.hashFunc key)).find? fun p => (idx.nodes p).key = some key).getD .null) := by
  have inside := hash_bucket idx placed.sized key
  exact list_find_loop idx key idx.steps _ _ (chain_slot idx chains frees placed _ inside) (placed.chained _ inside)
    (chain_length idx chains frees placed _ inside)

-- Where the index says that a key lies.
def lookup (idx : MemIdx) (chains : Nat → List KeyNodePtr) (key : UInt64) : Option Position :=
  ((chains (idx.hashFunc key)).find? fun p => (idx.nodes p).key = some key).map fun p => (idx.nodes p).position

theorem get_lookup (idx : MemIdx) (chains frees : Nat → List KeyNodePtr) (placed : Placed idx chains frees) (key : UInt64) :
    idx.get key = some (idx.lookup chains key) := by
  have inside := hash_bucket idx placed.sized key
  have linked := placed.chained _ inside
  unfold get lookup
  by_cases empty : idx.heads (idx.hashFunc key) = .null
  · rw [if_pos empty]
    have none_left : chains (idx.hashFunc key) = [] := by
      cases list : chains (idx.hashFunc key) with
      | nil => rfl
      | cons p rest =>
          rw [list] at linked
          exact absurd (linked.1.symm.trans empty) linked.2.1
    rw [none_left]
    rfl
  · rw [if_neg empty, list_find_chain idx chains frees placed key, Option.bind_some]
    cases hit : (chains (idx.hashFunc key)).find? fun p => (idx.nodes p).key = some key with
    | none => simp
    | some p =>
        have slot := chain_slot idx chains frees placed _ inside p (List.mem_of_find?_eq_some hit)
        simp [slot_not_null idx p slot, read_slot idx p slot]

-- One chain and one free list change, and the node that goes from the one to
-- the other; all else is as it was.
theorem placed_swap (idx fin : MemIdx) (chains frees : Nat → List KeyNodePtr) (placed : Placed idx chains frees) (bucket i : Nat)
    (inside : bucket < idx.headSize) (old block : KeyBlock) (there : idx.blocks[i]? = some old) (list flist : List KeyNodePtr) (p : KeyNodePtr)
    (sizes : fin.headSize = idx.headSize ∧ fin.maxBlock = idx.maxBlock ∧ fin.maxKeyCnt = idx.maxKeyCnt)
    (blocks : fin.blocks = idx.blocks.set i block) (heads : ∀ j, j ≠ bucket → fin.heads j = idx.heads j)
    (mover : p ∈ chains bucket ∨ p ∈ frees i) (agree : ∀ q, q ≠ p → q ∉ chains bucket → fin.nodes q = idx.nodes q)
    (linked : Linked fin.nextOf .null (fin.heads bucket) list)
    (bucketed : ∀ q ∈ list, ∃ key, (fin.nodes q).key = some key ∧ idx.hashFunc key = bucket)
    (keyed : (list.map fun q => (fin.nodes q).key).Nodup)
    (flinked : Linked fin.nextOf .null block.free flist) (fblock : ∀ q ∈ flist, q.blockId = i)
    (balance : ∀ q, list.count q + flist.count q = (chains bucket).count q + (frees i).count q)
    (counted : block.useCnt + inBlock i (chains bucket) = old.useCnt + inBlock i list)
    (others : ∀ j, j ≠ i → inBlock j list = inBlock j (chains bucket)) :
    Placed fin (Function.update chains bucket list) (Function.update frees i flist) := by
  obtain ⟨sizeHead, sizeBlock, sizeKey⟩ := sizes
  have bound : i < idx.blocks.length := (List.getElem?_eq_some_iff.mp there).1
  have lengths : fin.blocks.length = idx.blocks.length := by rw [blocks, List.length_set]
  have slots : ∀ q, fin.IsSlot q ↔ idx.IsSlot q := by
    intro q
    simp only [IsSlot, lengths, sizeKey]
  have hashes : ∀ key, fin.hashFunc key = idx.hashFunc key := by
    intro key
    simp only [hashFunc, sizeHead]
  -- A chain or free list that is not touched keeps its nodes.
  have chainKept : ∀ j, j < idx.headSize → j ≠ bucket → ∀ q ∈ chains j, fin.nodes q = idx.nodes q := by
    intro j insideJ different q member
    apply agree q
    · intro same
      subst same
      rcases mover with chain | free
      · exact chain_alone idx chains frees placed j bucket insideJ inside different q member chain
      · exact chain_not_free idx chains frees placed j i insideJ bound q member free
    · exact chain_alone idx chains frees placed j bucket insideJ inside different q member
  have freeKept : ∀ j, j < idx.blocks.length → j ≠ i → ∀ q ∈ frees j, fin.nodes q = idx.nodes q := by
    intro j insideJ different q member
    apply agree q
    · intro same
      subst same
      rcases mover with chain | free
      · exact chain_not_free idx chains frees placed bucket j inside insideJ q chain member
      · exact free_alone idx chains frees placed j i insideJ bound different q member free
    · intro chain
      exact chain_not_free idx chains frees placed bucket j inside insideJ q chain member
  constructor
  · exact ⟨by rw [sizeHead]; exact placed.sized.bucket, by rw [sizeKey]; exact placed.sized.slots,
      by rw [sizeKey]; exact placed.sized.offsets, by rw [sizeBlock]; exact placed.sized.ids,
      by rw [lengths, sizeBlock]; exact placed.sized.blocks⟩
  · intro j insideJ
    rw [sizeHead] at insideJ
    by_cases same : j = bucket
    · subst same
      rw [Function.update_self]
      exact linked
    · rw [Function.update_of_ne same, heads j same]
      apply linked_congr idx.nextOf fin.nextOf _ _ _ _ (placed.chained j insideJ)
      intro q member
      simp only [nextOf, chainKept j insideJ same q member]
  · intro j found lookedUp
    rw [blocks] at lookedUp
    by_cases same : j = i
    · subst same
      rw [List.getElem?_set_self bound, Option.some.injEq] at lookedUp
      subst lookedUp
      rw [Function.update_self]
      exact ⟨flinked, fblock⟩
    · rw [List.getElem?_set_ne (Ne.symm same)] at lookedUp
      have insideJ : j < idx.blocks.length := (List.getElem?_eq_some_iff.mp lookedUp).1
      rw [Function.update_of_ne same]
      obtain ⟨free, own⟩ := placed.freed j found lookedUp
      refine ⟨?_, own⟩
      apply linked_congr idx.nextOf fin.nextOf _ _ _ _ free
      intro q member
      simp only [nextOf, freeKept j insideJ same q member]
  · intro q
    have known := placed.once q
    have chainSum := occurs_update idx.headSize bucket inside chains list q
    have freeSum := occurs_update idx.blocks.length i bound frees flist q
    have even := balance q
    simp only [sizeHead, lengths, slots q]
    omega
  · intro j insideJ q member
    rw [sizeHead] at insideJ
    simp only [hashes]
    by_cases same : j = bucket
    · subst same
      rw [Function.update_self] at member
      exact bucketed q member
    · rw [Function.update_of_ne same] at member
      rw [chainKept j insideJ same q member]
      exact placed.bucketed j insideJ q member
  · intro j insideJ
    rw [sizeHead] at insideJ
    by_cases same : j = bucket
    · subst same
      rw [Function.update_self]
      exact keyed
    · rw [Function.update_of_ne same]
      have agreeKeys : ((chains j).map fun q => (fin.nodes q).key) = (chains j).map fun q => (idx.nodes q).key := by
        apply List.map_congr_left
        intro q member
        rw [chainKept j insideJ same q member]
      rw [agreeKeys]
      exact placed.keyed j insideJ
  · intro j found lookedUp
    have sum := sum_replace idx.headSize bucket inside chains list (inBlock j)
    rw [blocks] at lookedUp
    rw [sizeHead]
    by_cases same : j = i
    · subst same
      rw [List.getElem?_set_self bound, Option.some.injEq] at lookedUp
      subst lookedUp
      have before := placed.counted j old there
      omega
    · rw [List.getElem?_set_ne (Ne.symm same)] at lookedUp
      have before := placed.counted j found lookedUp
      have even := others j same
      omega

end MemIdx

end PaxosStore.MemKv
