import PaxosStore.MemKv.MemIdxLayout
import Mathlib.Data.List.Find

set_option autoImplicit false

namespace PaxosStore.MemKv

open PaxosStore.Heap

namespace MemIdx

-- The free list of a block that was just initialised, from slot `offset` on.
def slotsFrom (blockId offset : Nat) : Nat → List KeyNodePtr
  | 0 => []
  | count + 1 => ⟨blockId, offset⟩ :: slotsFrom blockId (offset + 1) count

theorem mem_slots_from (blockId offset count : Nat) (p : KeyNodePtr) :
    p ∈ slotsFrom blockId offset count ↔ p.blockId = blockId ∧ offset ≤ p.offset ∧ p.offset < offset + count := by
  induction count generalizing offset with
  | zero =>
      simp only [slotsFrom, List.not_mem_nil, false_iff]
      omega
  | succ count ih =>
      cases p with
      | mk b o =>
          simp only [slotsFrom, List.mem_cons, ih (offset + 1), KeyNodePtr.mk.injEq]
          omega

theorem count_slots_from (blockId offset count : Nat) (p : KeyNodePtr) :
    (slotsFrom blockId offset count).count p = if p ∈ slotsFrom blockId offset count then 1 else 0 := by
  induction count generalizing offset with
  | zero => simp [slotsFrom]
  | succ count ih =>
      have apart : (⟨blockId, offset⟩ : KeyNodePtr) ∉ slotsFrom blockId (offset + 1) count := by
        rw [mem_slots_from]
        simp only
        omega
      simp only [slotsFrom, List.count_cons, List.mem_cons, ih (offset + 1)]
      by_cases same : p = ⟨blockId, offset⟩
      · subst same
        simp [apart]
      · simp [same, Ne.symm same]

theorem slots_from_linked (idx : MemIdx) (sized : Sized idx) (room : idx.blocks.length + 1 ≤ idx.maxBlock) (offset count : Nat)
    (start : 0 < offset) (whole : offset + count = idx.maxKeyCnt) (positive : 0 < count) :
    Linked idx.initBlock.nextOf .null ⟨idx.blocks.length, offset⟩ (slotsFrom idx.blocks.length offset count) := by
  induction count generalizing offset with
  | zero => exact absurd positive (Nat.lt_irrefl 0)
  | succ count ih =>
      refine ⟨rfl, ?_, ?_⟩
      · simp only [KeyNodePtr.null, ne_eq, KeyNodePtr.mk.injEq]
        omega
      · have offsets := sized.offsets
        have ids := sized.ids
        cases count with
        | zero =>
            simp only [nextOf, initBlock, freshNode, slotsFrom, Linked]
            rw [if_neg (by omega), if_pos (by omega)]
        | succ rest =>
            have follow : idx.initBlock.nextOf ⟨idx.blocks.length, offset⟩ = ⟨idx.blocks.length, offset + 1⟩ := by
              simp only [nextOf, initBlock, freshNode]
              rw [if_neg (by omega), if_neg (by omega), if_neg (by omega)]
              simp only [KeyNodePtr.pack, KeyNodePtr.mk.injEq]
              exact ⟨Nat.mod_eq_of_lt (by omega), Nat.mod_eq_of_lt (by omega)⟩
            rw [follow]
            exact ih (offset + 1) (by omega) (by omega) (by omega)

theorem fresh_node_old (idx : MemIdx) (p : KeyNodePtr) (inside : p.blockId < idx.blocks.length) :
    idx.freshNode idx.blocks.length p = idx.nodes p := if_pos (.inl (by omega))

theorem lookup_congr (idx fin : MemIdx) (chains others : Nat → List KeyNodePtr) (key : UInt64) (sizes : fin.headSize = idx.headSize)
    (list : others (idx.hashFunc key) = chains (idx.hashFunc key))
    (agree : ∀ p ∈ chains (idx.hashFunc key), (fin.nodes p).key = (idx.nodes p).key ∧ (fin.nodes p).position = (idx.nodes p).position) :
    fin.lookup others key = idx.lookup chains key := by
  have hash : fin.hashFunc key = idx.hashFunc key := by simp only [hashFunc, sizes]
  unfold lookup
  rw [hash, list]
  have keys : ((chains (idx.hashFunc key)).find? fun p => decide ((fin.nodes p).key = some key)) =
      (chains (idx.hashFunc key)).find? fun p => decide ((idx.nodes p).key = some key) := by
    apply List.find?_congr
    intro p member
    rw [(agree p member).1]
  rw [keys]
  cases hit : (chains (idx.hashFunc key)).find? fun p => decide ((idx.nodes p).key = some key) with
  | none => rfl
  | some p => simp [(agree p (List.mem_of_find?_eq_some hit)).2]

theorem init_block_placed (idx : MemIdx) (chains frees : Nat → List KeyNodePtr) (placed : Placed idx chains frees)
    (room : idx.blocks.length + 1 ≤ idx.maxBlock) :
    Placed idx.initBlock chains (Function.update frees idx.blocks.length (slotsFrom idx.blocks.length 1 (idx.maxKeyCnt - 1))) := by
  have sized := placed.sized
  have two := sized.slots
  have chainKept : ∀ j, j < idx.headSize → ∀ q ∈ chains j, idx.initBlock.nodes q = idx.nodes q := by
    intro j insideJ q member
    exact fresh_node_old idx q (chain_slot idx chains frees placed j insideJ q member).1
  have lengths : idx.initBlock.blocks.length = idx.blocks.length + 1 := by simp [initBlock]
  constructor
  · exact ⟨sized.bucket, two, sized.offsets, sized.ids, by rw [lengths]; exact room⟩
  · intro j insideJ
    apply linked_congr idx.nextOf idx.initBlock.nextOf _ _ _ _ (placed.chained j insideJ)
    intro q member
    simp only [nextOf, chainKept j insideJ q member]
  · intro j found lookedUp
    by_cases same : j = idx.blocks.length
    · subst same
      have last : found = ⟨0, .pack idx.blocks.length 1⟩ := by
        simp only [initBlock, List.getElem?_concat_length, Option.some.injEq] at lookedUp
        exact lookedUp.symm
      subst last
      rw [Function.update_self]
      constructor
      · have ids := sized.ids
        have start : KeyNodePtr.pack idx.blocks.length 1 = ⟨idx.blocks.length, 1⟩ := by
          simp only [KeyNodePtr.pack, KeyNodePtr.mk.injEq]
          exact ⟨Nat.mod_eq_of_lt (by omega), Nat.mod_eq_of_lt (by omega)⟩
        rw [start]
        exact slots_from_linked idx sized room 1 (idx.maxKeyCnt - 1) (by omega) (by omega) (by omega)
      · intro p member
        exact ((mem_slots_from _ _ _ p).mp member).1
    · have bound : j < idx.initBlock.blocks.length := (List.getElem?_eq_some_iff.mp lookedUp).1
      have insideJ : j < idx.blocks.length := by omega
      have before : idx.blocks[j]? = some found := by
        simp only [initBlock, List.getElem?_append_left insideJ] at lookedUp
        exact lookedUp
      rw [Function.update_of_ne same]
      obtain ⟨free, own⟩ := placed.freed j found before
      refine ⟨?_, own⟩
      apply linked_congr idx.nextOf idx.initBlock.nextOf _ _ _ _ free
      intro q member
      have kept : idx.initBlock.nodes q = idx.nodes q := fresh_node_old idx q (by rw [own q member]; exact insideJ)
      simp only [nextOf, kept]
  · intro q
    have known := placed.once q
    have others : occurs idx.blocks.length (Function.update frees idx.blocks.length (slotsFrom idx.blocks.length 1 (idx.maxKeyCnt - 1))) q =
        occurs idx.blocks.length frees q := by
      apply Finset.sum_congr rfl
      intro j member
      rw [Function.update_of_ne (Nat.ne_of_lt (Finset.mem_range.mp member))]
    have grown : occurs idx.initBlock.blocks.length
        (Function.update frees idx.blocks.length (slotsFrom idx.blocks.length 1 (idx.maxKeyCnt - 1))) q =
        occurs idx.blocks.length frees q + (slotsFrom idx.blocks.length 1 (idx.maxKeyCnt - 1)).count q := by
      rw [lengths, occurs, Finset.sum_range_succ, Function.update_self, ← others]
      rfl
    have counted := count_slots_from idx.blocks.length 1 (idx.maxKeyCnt - 1) q
    have members := mem_slots_from idx.blocks.length 1 (idx.maxKeyCnt - 1) q
    rw [grown]
    have head : idx.initBlock.headSize = idx.headSize := rfl
    have slot : idx.initBlock.IsSlot q ↔ idx.IsSlot q ∨ q ∈ slotsFrom idx.blocks.length 1 (idx.maxKeyCnt - 1) := by
      rw [members]
      simp only [IsSlot, lengths]
      have size : idx.initBlock.maxKeyCnt = idx.maxKeyCnt := rfl
      rw [size]
      omega
    have apart : ¬(idx.IsSlot q ∧ q ∈ slotsFrom idx.blocks.length 1 (idx.maxKeyCnt - 1)) := by
      rintro ⟨old, fresh⟩
      have here := old.1
      have there := (members.mp fresh).1
      omega
    rw [head]
    simp only [slot]
    split at counted <;> split at known <;> split <;> first | omega | tauto
  · intro j insideJ q member
    rw [chainKept j insideJ q member]
    exact placed.bucketed j insideJ q member
  · intro j insideJ
    have agreeKeys : ((chains j).map fun q => (idx.initBlock.nodes q).key) = (chains j).map fun q => (idx.nodes q).key := by
      apply List.map_congr_left
      intro q member
      rw [chainKept j insideJ q member]
    rw [agreeKeys]
    exact placed.keyed j insideJ
  · intro j found lookedUp
    by_cases same : j = idx.blocks.length
    · subst same
      have last : found = ⟨0, .pack idx.blocks.length 1⟩ := by
        simp only [initBlock, List.getElem?_concat_length, Option.some.injEq] at lookedUp
        exact lookedUp.symm
      subst last
      symm
      apply Finset.sum_eq_zero
      intro i member
      apply List.countP_eq_zero.mpr
      intro q chain
      have slot := (chain_slot idx chains frees placed i (Finset.mem_range.mp member) q chain).1
      simp only [decide_eq_true_eq]
      omega
    · have bound : j < idx.initBlock.blocks.length := (List.getElem?_eq_some_iff.mp lookedUp).1
      have insideJ : j < idx.blocks.length := by omega
      have before : idx.blocks[j]? = some found := by
        simp only [initBlock, List.getElem?_append_left insideJ] at lookedUp
        exact lookedUp
      exact placed.counted j found before

theorem init_block_lookup (idx : MemIdx) (chains frees : Nat → List KeyNodePtr) (placed : Placed idx chains frees) (key : UInt64) :
    idx.initBlock.lookup chains key = idx.lookup chains key := by
  apply lookup_congr idx idx.initBlock chains chains key rfl rfl
  intro p member
  have kept : idx.initBlock.nodes p = idx.nodes p :=
    fresh_node_old idx p (chain_slot idx chains frees placed _ (hash_bucket idx placed.sized key) p member).1
  rw [kept]
  exact ⟨rfl, rfl⟩

theorem placed_cur (idx : MemIdx) (chains frees : Nat → List KeyNodePtr) (placed : Placed idx chains frees) (cur : Nat) :
    Placed { idx with curBlock := cur } chains frees :=
  ⟨⟨placed.sized.bucket, placed.sized.slots, placed.sized.offsets, placed.sized.ids, placed.sized.blocks⟩,
    placed.chained, placed.freed, placed.once, placed.bucketed, placed.keyed, placed.counted⟩

-- The first free node of a block taken out.
def popped (idx : MemIdx) (blockId : Nat) (block : KeyBlock) (ptr : KeyNodePtr) : MemIdx :=
  { idx with blocks := idx.blocks.set blockId { useCnt := block.useCnt + 1, free := idx.nextOf ptr } }

theorem block_alloc_empty (idx : MemIdx) (chains frees : Nat → List KeyNodePtr) (placed : Placed idx chains frees) (blockId : Nat)
    (inside : blockId < idx.blocks.length) (empty : frees blockId = []) : idx.blockAlloc blockId = some (.null, idx) := by
  have there : idx.blocks[blockId]? = some idx.blocks[blockId] := List.getElem?_eq_getElem inside
  have linked := (placed.freed blockId _ there).1
  rw [empty] at linked
  have free : idx.blocks[blockId].free = .null := linked
  rw [blockAlloc, there, Option.bind_some, if_pos free]

theorem block_alloc_takes (idx : MemIdx) (chains frees : Nat → List KeyNodePtr) (placed : Placed idx chains frees) (blockId : Nat)
    (block : KeyBlock) (there : idx.blocks[blockId]? = some block) (p : KeyNodePtr) (rest : List KeyNodePtr)
    (list : frees blockId = p :: rest) : idx.blockAlloc blockId = some (p, idx.popped blockId block p) := by
  have inside : blockId < idx.blocks.length := (List.getElem?_eq_some_iff.mp there).1
  have linked := (placed.freed blockId block there).1
  rw [list] at linked
  obtain ⟨first, present, _⟩ := linked
  have slot := free_slot idx chains frees placed blockId inside p (by rw [list]; simp)
  rw [blockAlloc, there, Option.bind_some, first, if_neg present, read_slot idx p slot]
  rfl

-- A node that was handed out, and the index it was taken from.
structure Taken (idx : MemIdx) (chains : Nat → List KeyNodePtr) (ptr : KeyNodePtr) (after : MemIdx) where
  mid : MemIdx
  frees : Nat → List KeyNodePtr
  blockId : Nat
  block : KeyBlock
  rest : List KeyNodePtr
  placed : Placed mid chains frees
  there : mid.blocks[blockId]? = some block
  list : frees blockId = ptr :: rest
  result : after = mid.popped blockId block ptr
  size : mid.headSize = idx.headSize ∧ mid.maxBlock = idx.maxBlock ∧ mid.maxKeyCnt = idx.maxKeyCnt
  heads : mid.heads = idx.heads
  kept : ∀ q, idx.IsSlot q → mid.nodes q = idx.nodes q

-- A turn over the blocks gives a node, or leaves all as it was.
theorem search_blocks_cases (idx : MemIdx) (chains frees : Nat → List KeyNodePtr) (placed : Placed idx chains frees) (turns blockId : Nat)
    (few : turns ≤ idx.blocks.length) :
    idx.searchBlocks turns blockId = some (.null, idx) ∨
      ∃ ptr after, idx.searchBlocks turns blockId = some (ptr, after) ∧ Nonempty (Taken idx chains ptr after) := by
  induction turns generalizing blockId with
  | zero => exact .inl rfl
  | succ turns ih =>
      have inside : (if blockId ≥ idx.blocks.length then 0 else blockId) < idx.blocks.length := by split <;> omega
      rw [searchBlocks]
      generalize (if blockId ≥ idx.blocks.length then 0 else blockId) = found at inside
      cases list : frees found with
      | nil =>
          simp only [block_alloc_empty idx chains frees placed found inside list, Option.bind_some, if_true]
          exact ih (found + 1) (by omega)
      | cons p rest =>
          have there : idx.blocks[found]? = some idx.blocks[found] := List.getElem?_eq_getElem inside
          have slot := free_slot idx chains frees placed found inside p (by rw [list]; simp)
          simp only [block_alloc_takes idx chains frees placed found _ there p rest list, Option.bind_some,
            if_neg (slot_not_null idx p slot)]
          refine .inr ⟨p, _, rfl, ⟨{
            mid := { idx with curBlock := found }
            frees := frees
            blockId := found
            block := idx.blocks[found]
            rest := rest
            placed := placed_cur idx chains frees placed found
            there := there
            list := list
            result := rfl
            size := ⟨rfl, rfl, rfl⟩
            heads := rfl
            kept := fun _ _ => rfl }⟩⟩

theorem alloc_cases (idx : MemIdx) (chains frees : Nat → List KeyNodePtr) (placed : Placed idx chains frees) (shm : Bool) :
    idx.alloc shm = some (.null, idx) ∨ ∃ ptr after, idx.alloc shm = some (ptr, after) ∧ ptr ≠ .null ∧ Nonempty (Taken idx chains ptr after) := by
  have notNull : ∀ ptr after, Taken idx chains ptr after → ptr ≠ .null := by
    intro ptr after taken
    have inside : taken.blockId < taken.mid.blocks.length := (List.getElem?_eq_some_iff.mp taken.there).1
    exact slot_not_null taken.mid ptr
      (free_slot taken.mid chains taken.frees taken.placed taken.blockId inside ptr (by rw [taken.list]; simp))
  unfold alloc
  rw [allocLoop]
  rcases search_blocks_cases idx chains frees placed idx.blocks.length idx.curBlock (Nat.le_refl _) with nothing | ⟨ptr, after, found, ⟨taken⟩⟩
  · simp only [nothing, Option.bind_some, ne_eq, not_true_eq_false, if_false]
    by_cases full : idx.blocks.length + 1 > idx.maxBlock
    · rw [if_pos full]
      exact .inl rfl
    · rw [if_neg full]
      by_cases refused : shm = false
      · rw [if_pos refused]
        exact .inl rfl
      · rw [if_neg refused, allocLoop]
        -- The second round starts at the new block, which has a free node.
        have two := placed.sized.slots
        have grown := placed_cur _ _ _ (init_block_placed idx chains frees placed (by omega)) idx.blocks.length
        have lengths : ({ idx.initBlock with curBlock := idx.blocks.length } : MemIdx).blocks.length = idx.blocks.length + 1 := by simp [initBlock]
        have there : ({ idx.initBlock with curBlock := idx.blocks.length } : MemIdx).blocks[idx.blocks.length]? =
            some ⟨0, .pack idx.blocks.length 1⟩ := by simp [initBlock]
        obtain ⟨count, size⟩ : ∃ count, idx.maxKeyCnt - 1 = count + 1 := ⟨idx.maxKeyCnt - 2, by omega⟩
        have list : Function.update frees idx.blocks.length (slotsFrom idx.blocks.length 1 (idx.maxKeyCnt - 1)) idx.blocks.length =
            ⟨idx.blocks.length, 1⟩ :: slotsFrom idx.blocks.length 2 count := by
          rw [Function.update_self, size]
          rfl
        have taken := block_alloc_takes _ _ _ grown idx.blocks.length _ there _ _ list
        have start : ¬ idx.blocks.length ≥ idx.blocks.length + 1 := by omega
        have present : (⟨idx.blocks.length, 1⟩ : KeyNodePtr) ≠ .null := by simp [KeyNodePtr.null]
        rw [lengths, searchBlocks]
        simp only [lengths, if_neg start, taken, Option.bind_some, if_neg present, if_pos present]
        refine .inr ⟨_, _, rfl, present, ⟨{
          mid := { idx.initBlock with curBlock := idx.blocks.length }
          frees := _
          blockId := idx.blocks.length
          block := _
          rest := _
          placed := grown
          there := there
          list := list
          result := rfl
          size := ⟨rfl, rfl, rfl⟩
          heads := rfl
          kept := fun q slot => fresh_node_old idx q slot.1 }⟩⟩
  · simp only [found, Option.bind_some, if_pos (notNull ptr after taken)]
    exact .inr ⟨ptr, after, rfl, notNull ptr after taken, ⟨taken⟩⟩

end MemIdx

end PaxosStore.MemKv
