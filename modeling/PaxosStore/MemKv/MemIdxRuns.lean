import PaxosStore.MemKv.MemIdxSteps
import PaxosStore.Consensus.Run

set_option autoImplicit false

namespace PaxosStore.MemKv

open PaxosStore.Heap
open PaxosStore.Consensus

namespace MemIdx

-- A free node made the first of a chain.
def pushed (idx : MemIdx) (blockId : Nat) (block : KeyBlock) (ptr : KeyNodePtr) (key : UInt64) (position : Position) : MemIdx :=
  { idx.popped blockId block ptr with
    nodes := Function.update idx.nodes ptr ⟨some key, position, idx.heads (idx.hashFunc key)⟩
    heads := Function.update idx.heads (idx.hashFunc key) ptr }

section Push

variable (idx : MemIdx) (chains frees : Nat → List KeyNodePtr) (placed : Placed idx chains frees) (blockId : Nat) (block : KeyBlock)
  (there : idx.blocks[blockId]? = some block) (ptr : KeyNodePtr) (rest : List KeyNodePtr) (list : frees blockId = ptr :: rest)
  (key : UInt64) (position : Position) (absent : ∀ q ∈ chains (idx.hashFunc key), (idx.nodes q).key ≠ some key)
include placed there list

theorem pushed_other (bucket : Nat) (inside : bucket < idx.headSize) (q : KeyNodePtr) (member : q ∈ chains bucket) :
    (idx.pushed blockId block ptr key position).nodes q = idx.nodes q := by
  have bound : blockId < idx.blocks.length := (List.getElem?_eq_some_iff.mp there).1
  have different : q ≠ ptr := by
    intro same
    exact chain_not_free idx chains frees placed bucket blockId inside bound q member (by rw [list, same]; simp)
  exact Function.update_of_ne different _ _

theorem pushed_free (q : KeyNodePtr) (member : q ∈ rest) : (idx.pushed blockId block ptr key position).nodes q = idx.nodes q := by
  have bound : blockId < idx.blocks.length := (List.getElem?_eq_some_iff.mp there).1
  have nodup := free_nodup idx chains frees placed blockId bound
  rw [list, List.nodup_cons] at nodup
  have different : q ≠ ptr := by
    intro same
    exact nodup.1 (same ▸ member)
  exact Function.update_of_ne different _ _

include absent

theorem pushed_placed :
    Placed (idx.pushed blockId block ptr key position)
      (Function.update chains (idx.hashFunc key) (ptr :: chains (idx.hashFunc key))) (Function.update frees blockId rest) := by
  have bound : blockId < idx.blocks.length := (List.getElem?_eq_some_iff.mp there).1
  have inside := hash_bucket idx placed.sized key
  have slot := free_slot idx chains frees placed blockId bound ptr (by rw [list]; simp)
  have own := (placed.freed blockId block there).2
  have same : (idx.pushed blockId block ptr key position).nodes ptr = ⟨some key, position, idx.heads (idx.hashFunc key)⟩ := Function.update_self ..
  have chainKept := pushed_other idx chains frees placed blockId block there ptr rest list key position _ inside
  apply placed_swap idx (idx.pushed blockId block ptr key position) chains frees placed (idx.hashFunc key) blockId inside block
    { useCnt := block.useCnt + 1, free := idx.nextOf ptr } there (ptr :: chains (idx.hashFunc key)) rest ptr
  · exact ⟨rfl, rfl, rfl⟩
  · rfl
  · intro j different
    exact Function.update_of_ne different _ _
  · right
    rw [list]
    simp
  · intro q different _
    exact Function.update_of_ne different _ _
  · have head : (idx.pushed blockId block ptr key position).heads (idx.hashFunc key) = ptr := Function.update_self ..
    rw [head]
    apply linked_cons idx.nextOf _ _ (idx.heads (idx.hashFunc key)) _ _ (slot_not_null idx ptr slot) _ _ (placed.chained _ inside)
    · intro q member
      simp only [nextOf, chainKept q member]
    · simp only [nextOf, same]
  · intro q member
    rcases List.mem_cons.mp member with first | later
    · rw [first, same]
      exact ⟨key, rfl, rfl⟩
    · rw [chainKept q later]
      exact placed.bucketed _ inside q later
  · have agreeKeys : ((chains (idx.hashFunc key)).map fun q => ((idx.pushed blockId block ptr key position).nodes q).key) =
        (chains (idx.hashFunc key)).map fun q => (idx.nodes q).key := by
      apply List.map_congr_left
      intro q member
      rw [chainKept q member]
    rw [List.map_cons, agreeKeys, same, List.nodup_cons]
    refine ⟨?_, placed.keyed _ inside⟩
    intro member
    obtain ⟨q, chain, equal⟩ := List.mem_map.mp member
    exact absent q chain equal
  · have linked := (placed.freed blockId block there).1
    rw [list] at linked
    apply linked_congr idx.nextOf _ _ _ _ _ linked.2.2
    intro q member
    simp only [nextOf, pushed_free idx chains frees placed blockId block there ptr rest list key position q member]
  · intro q member
    exact own q (by rw [list]; simp [member])
  · intro q
    rw [list, List.count_cons, List.count_cons]
    omega
  · have here : ptr.blockId = blockId := own ptr (by rw [list]; simp)
    simp only [inBlock, List.countP_cons, here, decide_true, if_true]
    omega
  · intro j different
    have here : ptr.blockId = blockId := own ptr (by rw [list]; simp)
    simp [inBlock, here, Ne.symm different]

theorem pushed_lookup (other : UInt64) :
    (idx.pushed blockId block ptr key position).lookup (Function.update chains (idx.hashFunc key) (ptr :: chains (idx.hashFunc key))) other =
      if other = key then some position else idx.lookup chains other := by
  have inside := hash_bucket idx placed.sized key
  have same : (idx.pushed blockId block ptr key position).nodes ptr = ⟨some key, position, idx.heads (idx.hashFunc key)⟩ := Function.update_self ..
  have hash : (idx.pushed blockId block ptr key position).hashFunc other = idx.hashFunc other := rfl
  by_cases bucket : idx.hashFunc other = idx.hashFunc key
  · by_cases equal : other = key
    · subst equal
      simp [lookup, hash, same]
    · rw [if_neg equal]
      have skip : ¬ (some key = some other) := fun wrong => equal (Option.some.inj wrong).symm
      have rests : (idx.pushed blockId block ptr key position).lookup chains other = idx.lookup chains other := by
        apply lookup_congr idx (idx.pushed blockId block ptr key position) chains chains other rfl rfl
        intro q member
        rw [pushed_other idx chains frees placed blockId block there ptr rest list key position _ (hash_bucket idx placed.sized other) q member]
        exact ⟨rfl, rfl⟩
      rw [← rests]
      simp only [lookup, hash, bucket, Function.update_self, List.find?_cons, same, skip, decide_false]
  · have equal : other ≠ key := fun wrong => bucket (by rw [wrong])
    rw [if_neg equal]
    apply lookup_congr idx (idx.pushed blockId block ptr key position) chains _ other rfl (Function.update_of_ne bucket _ _)
    intro q member
    rw [pushed_other idx chains frees placed blockId block there ptr rest list key position _ (hash_bucket idx placed.sized other) q member]
    exact ⟨rfl, rfl⟩

end Push

-- A write that keeps every key and every reference.
theorem placed_rewrite (idx : MemIdx) (nodes : KeyNodePtr → KeyNode) (chains frees : Nat → List KeyNodePtr) (placed : Placed idx chains frees)
    (keys : ∀ q, (nodes q).key = (idx.nodes q).key) (nexts : ∀ q, (nodes q).next = (idx.nodes q).next) :
    Placed { idx with nodes := nodes } chains frees := by
  have follow : ({ idx with nodes := nodes } : MemIdx).nextOf = idx.nextOf := funext nexts
  refine ⟨⟨placed.sized.bucket, placed.sized.slots, placed.sized.offsets, placed.sized.ids, placed.sized.blocks⟩, ?_, ?_, placed.once, ?_, ?_,
    placed.counted⟩
  · rw [follow]
    exact placed.chained
  · rw [follow]
    exact placed.freed
  · intro j inside q member
    simp only [keys]
    exact placed.bucketed j inside q member
  · intro j inside
    simp only [keys]
    exact placed.keyed j inside

-- An operation has run: the index is still well linked and has the sizes it had.
structure Done (idx fin : MemIdx) (chains : Nat → List KeyNodePtr) (update : UInt64 → Option (Option Position)) where
  lists : Nat → List KeyNodePtr
  frees : Nat → List KeyNodePtr
  placed : Placed fin lists frees
  size : fin.headSize = idx.headSize ∧ fin.maxBlock = idx.maxBlock ∧ fin.maxKeyCnt = idx.maxKeyCnt
  looked : ∀ key, fin.lookup lists key = (update key).getD (idx.lookup chains key)

def deletedAt (key other : UInt64) : Option (Option Position) := if other = key then some none else none

section Remove

variable (idx fin : MemIdx) (chains frees : Nat → List KeyNodePtr) (placed : Placed idx chains frees) (key : UInt64) (ptr : KeyNodePtr)
  (before after : List KeyNodePtr) (block : KeyBlock)
  (chain : chains (idx.hashFunc key) = before ++ ptr :: after) (keyed : (idx.nodes ptr).key = some key)
  (there : idx.blocks[ptr.blockId]? = some block)
  (sizes : fin.headSize = idx.headSize ∧ fin.maxBlock = idx.maxBlock ∧ fin.maxKeyCnt = idx.maxKeyCnt)
  (blocks : fin.blocks = idx.blocks.set ptr.blockId ⟨block.useCnt - 1, ptr⟩)
  (heads : ∀ j, j ≠ idx.hashFunc key → fin.heads j = idx.heads j)
  (freed : fin.nextOf ptr = block.free)
  (kept : ∀ q, q ≠ ptr → (fin.nodes q).key = (idx.nodes q).key ∧ (fin.nodes q).position = (idx.nodes q).position)
  (agree : ∀ q, q ≠ ptr → q ∉ chains (idx.hashFunc key) → fin.nodes q = idx.nodes q)
  (linked : Linked fin.nextOf .null (fin.heads (idx.hashFunc key)) (before ++ after))
include placed chain keyed

theorem removed_apart (q : KeyNodePtr) (member : q ∈ before ++ after) : q ≠ ptr ∧ (idx.nodes q).key ≠ some key := by
  have inside := hash_bucket idx placed.sized key
  have keys := placed.keyed _ inside
  rw [chain, List.map_append, List.map_cons] at keys
  have shuffled : ((idx.nodes ptr).key :: (before ++ after).map fun q => (idx.nodes q).key).Nodup := by
    rw [List.map_append]
    exact (List.nodup_middle).mp keys
  rw [List.nodup_cons] at shuffled
  have different : (idx.nodes q).key ≠ (idx.nodes ptr).key := by
    intro same
    exact shuffled.1 (List.mem_map.mpr ⟨q, member, same⟩)
  refine ⟨?_, by rw [← keyed]; exact different⟩
  intro same
  exact different (by rw [same])

include sizes kept

theorem removed_lookup (other : UInt64) :
    fin.lookup (Function.update chains (idx.hashFunc key) (before ++ after)) other = if other = key then none else idx.lookup chains other := by
  have inside := hash_bucket idx placed.sized key
  have hash : ∀ k, fin.hashFunc k = idx.hashFunc k := by
    intro k
    simp only [hashFunc, sizes.1]
  by_cases bucket : idx.hashFunc other = idx.hashFunc key
  · have agreeFind : ((before ++ after).find? fun q => decide ((fin.nodes q).key = some other)) =
        (before ++ after).find? fun q => decide ((idx.nodes q).key = some other) := by
      apply List.find?_congr
      intro q stays
      rw [(kept q (removed_apart idx chains frees placed key ptr before after chain keyed q stays).1).1]
    by_cases equal : other = key
    · subst equal
      have nothing : ((before ++ after).find? fun q => decide ((idx.nodes q).key = some other)) = none := by
        rw [List.find?_eq_none]
        intro q stays
        simpa using (removed_apart idx chains frees placed other ptr before after chain keyed q stays).2
      simp [lookup, hash, agreeFind, nothing]
    · rw [if_neg equal]
      have skip : ¬ (some key = some other) := fun wrong => equal (Option.some.inj wrong).symm
      have same : ((before ++ after).find? fun q => decide ((idx.nodes q).key = some other)) =
          (before ++ ptr :: after).find? fun q => decide ((idx.nodes q).key = some other) := by
        rw [List.find?_append, List.find?_append, List.find?_cons]
        simp [keyed, skip]
      unfold lookup
      rw [hash, bucket, Function.update_self, agreeFind, same, chain]
      cases hit : (before ++ ptr :: after).find? fun q => decide ((idx.nodes q).key = some other) with
      | none => rfl
      | some q =>
          have different : q ≠ ptr := by
            intro wrong
            have found := List.find?_some hit
            rw [wrong, keyed] at found
            exact skip (by simpa using found)
          simp [(kept q different).2]
  · have equal : other ≠ key := fun wrong => bucket (by rw [wrong])
    rw [if_neg equal]
    apply lookup_congr idx fin chains _ other sizes.1 (Function.update_of_ne bucket _ _)
    intro q member
    apply kept q
    intro wrong
    apply chain_alone idx chains frees placed _ _ (hash_bucket idx placed.sized other) inside bucket q member
    rw [wrong, chain]
    simp

include there blocks heads freed agree linked

theorem removed_placed :
    Placed fin (Function.update chains (idx.hashFunc key) (before ++ after)) (Function.update frees ptr.blockId (ptr :: frees ptr.blockId)) := by
  have inside := hash_bucket idx placed.sized key
  have bound : ptr.blockId < idx.blocks.length := (List.getElem?_eq_some_iff.mp there).1
  have member : ptr ∈ chains (idx.hashFunc key) := by
    rw [chain]
    simp
  have slot := chain_slot idx chains frees placed _ inside ptr member
  have used : 0 < block.useCnt := by
    have counted := placed.counted ptr.blockId block there
    have here : 0 < inBlock ptr.blockId (chains (idx.hashFunc key)) := List.countP_pos_iff.mpr ⟨ptr, member, by simp⟩
    have more := Finset.single_le_sum (f := fun j => inBlock ptr.blockId (chains j)) (fun _ _ => Nat.zero_le _) (Finset.mem_range.mpr inside)
    omega
  apply placed_swap idx fin chains frees placed (idx.hashFunc key) ptr.blockId inside block ⟨block.useCnt - 1, ptr⟩ there
    (before ++ after) (ptr :: frees ptr.blockId) ptr sizes blocks heads (.inl member) agree linked
  · intro q stays
    rw [(kept q (removed_apart idx chains frees placed key ptr before after chain keyed q stays).1).1]
    apply placed.bucketed _ inside q
    rw [chain]
    simp only [List.mem_append, List.mem_cons] at stays ⊢
    tauto
  · have agreeKeys : ((before ++ after).map fun q => (fin.nodes q).key) = (before ++ after).map fun q => (idx.nodes q).key := by
      apply List.map_congr_left
      intro q stays
      exact (kept q (removed_apart idx chains frees placed key ptr before after chain keyed q stays).1).1
    rw [agreeKeys]
    have keys := placed.keyed _ inside
    rw [chain, List.map_append, List.map_cons] at keys
    rw [List.map_append]
    exact (List.nodup_cons.mp (List.nodup_middle.mp keys)).2
  · apply linked_cons idx.nextOf fin.nextOf _ block.free _ _ (slot_not_null idx ptr slot) _ freed (placed.freed _ block there).1
    intro q free
    have different : q ≠ ptr := by
      intro same
      exact chain_not_free idx chains frees placed _ _ inside bound ptr member (same ▸ free)
    have notChain : q ∉ chains (idx.hashFunc key) := by
      intro wrong
      exact chain_not_free idx chains frees placed _ _ inside bound q wrong free
    simp only [nextOf, agree q different notChain]
  · intro q free
    rcases List.mem_cons.mp free with first | later
    · rw [first]
    · exact (placed.freed _ block there).2 q later
  · intro q
    rw [chain, List.count_append, List.count_append, List.count_cons, List.count_cons]
    omega
  · rw [chain]
    simp only [inBlock, List.countP_append, List.countP_cons, decide_true, if_true]
    omega
  · intro j different
    rw [chain]
    simp [inBlock, Ne.symm different]

theorem removed_done : Nonempty (Done idx fin chains (deletedAt key)) := by
  refine ⟨⟨_, _, removed_placed idx fin chains frees placed key ptr before after block chain keyed there sizes blocks heads freed kept agree linked,
    sizes, ?_⟩⟩
  intro other
  rw [removed_lookup idx fin chains frees placed key ptr before after chain keyed sizes kept other]
  by_cases equal : other = key <;> simp [deletedAt, equal]

end Remove

theorem mem_cpy_slot (idx : MemIdx) (ptr : KeyNodePtr) (slot : idx.IsSlot ptr) (key : UInt64) (position : Position) :
    idx.memCpy ptr key position =
      some { idx with nodes := Function.update idx.nodes ptr { idx.nodes ptr with key := some key, position := position } } := by
  rw [memCpy, read_slot idx ptr slot, Option.bind_some, write_slot idx ptr _ slot]

theorem set_next_slot (idx : MemIdx) (ptr : KeyNodePtr) (slot : idx.IsSlot ptr) (next : KeyNodePtr) :
    idx.setNext ptr next = some { idx with nodes := Function.update idx.nodes ptr { idx.nodes ptr with next := next } } := by
  rw [setNext, read_slot idx ptr slot, Option.bind_some, write_slot idx ptr _ slot]

theorem set_finds (idx : MemIdx) (chains frees : Nat → List KeyNodePtr) (placed : Placed idx chains frees) (key : UInt64) :
    (if idx.heads (idx.hashFunc key) = .null then some .null else idx.listFind key (idx.heads (idx.hashFunc key))) =
      some (((chains (idx.hashFunc key)).find? fun p => (idx.nodes p).key = some key).getD .null) := by
  by_cases empty : idx.heads (idx.hashFunc key) = .null
  · have linked := placed.chained _ (hash_bucket idx placed.sized key)
    rw [if_pos empty]
    cases list : chains (idx.hashFunc key) with
    | nil => rfl
    | cons p rest =>
        rw [list] at linked
        exact absurd (linked.1.symm.trans empty) linked.2.1
  · rw [if_neg empty]
    exact list_find_chain idx chains frees placed key

-- A node just taken becomes the first of the key's chain.
theorem push_taken (idx after : MemIdx) (chains frees : Nat → List KeyNodePtr) (placed : Placed idx chains frees) (ptr : KeyNodePtr)
    (taken : Taken idx chains ptr after) (key : UInt64) (position : Position)
    (absent : ∀ q ∈ chains (idx.hashFunc key), (idx.nodes q).key ≠ some key) :
    ∃ fin, ((after.memCpy ptr key position).bind fun copied =>
        (copied.setNext ptr (copied.heads (idx.hashFunc key))).map fun linked =>
          ((1 : Int), { linked with heads := Function.update linked.heads (idx.hashFunc key) ptr })) = some (1, fin) ∧
      Nonempty (Done idx fin chains fun other => if other = key then some (some position) else none) := by
  have bound : taken.blockId < taken.mid.blocks.length := (List.getElem?_eq_some_iff.mp taken.there).1
  have hash : ∀ k, taken.mid.hashFunc k = idx.hashFunc k := by
    intro k
    simp only [hashFunc, taken.size.1]
  have slot := free_slot taken.mid chains taken.frees taken.placed taken.blockId bound ptr (by rw [taken.list]; simp)
  rw [taken.result]
  have poppedSlot : (taken.mid.popped taken.blockId taken.block ptr).IsSlot ptr := by
    refine ⟨?_, slot.2⟩
    simp only [popped, List.length_set]
    exact slot.1
  have agrees : ∀ k, ∀ q ∈ chains (idx.hashFunc k), taken.mid.nodes q = idx.nodes q := fun k q member =>
    taken.kept q (chain_slot idx chains frees placed _ (hash_bucket idx placed.sized k) q member)
  have missing : ∀ q ∈ chains (taken.mid.hashFunc key), (taken.mid.nodes q).key ≠ some key := by
    intro q member
    rw [hash] at member
    rw [agrees key q member]
    exact absent q member
  refine ⟨taken.mid.pushed taken.blockId taken.block ptr key position, ?_, ?_⟩
  · rw [mem_cpy_slot _ ptr poppedSlot, Option.bind_some, set_next_slot _ ptr (by exact poppedSlot), Option.map_some]
    simp [pushed, popped, hash]
  · refine ⟨⟨_, _, pushed_placed taken.mid chains taken.frees taken.placed taken.blockId taken.block taken.there ptr taken.rest taken.list key
      position missing, taken.size, ?_⟩⟩
    intro other
    rw [pushed_lookup taken.mid chains taken.frees taken.placed taken.blockId taken.block taken.there ptr taken.rest taken.list key position missing]
    by_cases equal : other = key
    · simp [equal]
    · rw [if_neg equal, if_neg equal]
      apply lookup_congr idx taken.mid chains chains other taken.size.1 rfl
      intro q member
      rw [agrees other q member]
      exact ⟨rfl, rfl⟩

theorem done_same (idx : MemIdx) (chains frees : Nat → List KeyNodePtr) (placed : Placed idx chains frees) :
    Nonempty (Done idx idx chains fun _ => none) := ⟨⟨chains, frees, placed, ⟨rfl, rfl, rfl⟩, fun _ => rfl⟩⟩

def placedAt (key : UInt64) (position : Position) (code : Int) (other : UInt64) : Option (Option Position) :=
  if 0 ≤ code ∧ other = key then some (some position) else none

-- A key that was there gets a new position in the node it has.
def overwritten (idx : MemIdx) (key : UInt64) (position : Position) (ptr : KeyNodePtr) : KeyNodePtr → KeyNode :=
  Function.update idx.nodes ptr { idx.nodes ptr with key := some key, position := position }

theorem overwritten_key (idx : MemIdx) (key : UInt64) (position : Position) (ptr : KeyNodePtr) (keyed : (idx.nodes ptr).key = some key)
    (q : KeyNodePtr) : (idx.overwritten key position ptr q).key = (idx.nodes q).key := by
  unfold overwritten
  by_cases same : q = ptr
  · subst same
    rw [Function.update_self, keyed]
  · rw [Function.update_of_ne same]

theorem overwritten_lookup (idx : MemIdx) (chains : Nat → List KeyNodePtr) (key : UInt64) (position : Position) (ptr : KeyNodePtr)
    (hit : ((chains (idx.hashFunc key)).find? fun p => decide ((idx.nodes p).key = some key)) = some ptr) (other : UInt64) :
    ({ idx with nodes := idx.overwritten key position ptr } : MemIdx).lookup chains other =
      if other = key then some position else idx.lookup chains other := by
  have keyed : (idx.nodes ptr).key = some key := by simpa using List.find?_some hit
  have hash : ({ idx with nodes := idx.overwritten key position ptr } : MemIdx).hashFunc other = idx.hashFunc other := rfl
  unfold lookup
  rw [hash]
  simp only [overwritten_key idx key position ptr keyed]
  by_cases equal : other = key
  · subst equal
    rw [hit, if_pos rfl]
    simp [overwritten]
  · rw [if_neg equal]
    cases found : (chains (idx.hashFunc other)).find? fun q => decide ((idx.nodes q).key = some other) with
    | none => rfl
    | some q =>
        have different : q ≠ ptr := by
          intro wrong
          have known := List.find?_some found
          rw [wrong, keyed] at known
          exact equal (Option.some.inj (by simpa using known)).symm
        simp [overwritten, different]

theorem set_done (idx : MemIdx) (chains frees : Nat → List KeyNodePtr) (placed : Placed idx chains frees) (blockId : Option Nat) (shm : Bool)
    (key : UInt64) (position : Position) :
    (∃ code fin, idx.set blockId shm key position = some (code, fin) ∧ Nonempty (Done idx fin chains (placedAt key position code))) ∨
      idx.set blockId shm key position = none ∧ ∃ id, blockId = some id ∧ idx.blocks.length ≤ id := by
  have inside := hash_bucket idx placed.sized key
  rw [set, set_finds idx chains frees placed key, Option.bind_some]
  cases hit : (chains (idx.hashFunc key)).find? fun p => decide ((idx.nodes p).key = some key) with
  | some p =>
      have member := List.mem_of_find?_eq_some hit
      have keyed : (idx.nodes p).key = some key := by simpa using List.find?_some hit
      have slot := chain_slot idx chains frees placed _ inside p member
      rw [Option.getD_some, if_pos (slot_not_null idx p slot), mem_cpy_slot idx p slot, Option.map_some]
      refine .inl ⟨0, { idx with nodes := idx.overwritten key position p }, rfl, ⟨⟨chains, frees, ?_, ⟨rfl, rfl, rfl⟩, ?_⟩⟩⟩
      · apply placed_rewrite idx _ chains frees placed
        · exact overwritten_key idx key position p keyed
        · intro q
          unfold overwritten
          by_cases same : q = p
          · subst same
            rw [Function.update_self]
          · rw [Function.update_of_ne same]
      · intro other
        rw [overwritten_lookup idx chains key position p hit other]
        by_cases equal : other = key <;> simp [placedAt, equal]
  | none =>
      have absent : ∀ q ∈ chains (idx.hashFunc key), (idx.nodes q).key ≠ some key := by
        intro q member
        simpa using List.find?_eq_none.mp hit q member
      have failed : Nonempty (Done idx idx chains (placedAt key position (-1))) := by
        have same : placedAt key position (-1) = fun _ => none := by
          funext other
          simp [placedAt]
        rw [same]
        exact done_same idx chains frees placed
      have succeeded : placedAt key position 1 = fun other => if other = key then some (some position) else none := by
        funext other
        simp [placedAt]
      simp only [Option.getD_none, ne_eq, not_true_eq_false, if_false]
      cases blockId with
      | none =>
          rcases alloc_cases idx chains frees placed shm with nothing | ⟨ptr, after, found, present, ⟨taken⟩⟩
          · simp only [allocFor, nothing, Option.bind_some, if_true]
            exact .inl ⟨-1, idx, rfl, failed⟩
          · simp only [allocFor, found, Option.bind_some, if_neg present]
            obtain ⟨fin, result, done⟩ := push_taken idx after chains frees placed ptr taken key position absent
            rw [succeeded.symm] at done
            exact .inl ⟨1, fin, result, done⟩
      | some id =>
          by_cases bound : id < idx.blocks.length
          · have there : idx.blocks[id]? = some idx.blocks[id] := List.getElem?_eq_getElem bound
            cases list : frees id with
            | nil =>
                simp only [allocFor, block_alloc_empty idx chains frees placed id bound list, Option.bind_some, if_true]
                exact .inl ⟨-1, idx, rfl, failed⟩
            | cons ptr rest =>
                have slot := free_slot idx chains frees placed id bound ptr (by rw [list]; simp)
                simp only [allocFor, block_alloc_takes idx chains frees placed id _ there ptr rest list, Option.bind_some,
                  if_neg (slot_not_null idx ptr slot)]
                obtain ⟨fin, result, done⟩ := push_taken idx _ chains frees placed ptr
                  ⟨idx, frees, id, _, rest, placed, there, list, rfl, ⟨rfl, rfl, rfl⟩, rfl, fun _ _ => rfl⟩ key position absent
                rw [succeeded.symm] at done
                exact .inl ⟨1, fin, result, done⟩
          · have missing : idx.blocks[id]? = none := List.getElem?_eq_none (Nat.le_of_not_lt bound)
            refine .inr ⟨?_, id, rfl, Nat.le_of_not_lt bound⟩
            rw [allocFor, blockAlloc, missing]
            rfl

theorem slot_block (idx : MemIdx) (ptr : KeyNodePtr) (slot : idx.IsSlot ptr) : ∃ block, idx.blocks[ptr.blockId]? = some block := by
  have bound := slot.1
  exact ⟨idx.blocks[ptr.blockId], List.getElem?_eq_getElem bound⟩

theorem free_done (idx : MemIdx) (ptr : KeyNodePtr) (slot : idx.IsSlot ptr) (block : KeyBlock)
    (there : idx.blocks[ptr.blockId]? = some block) :
    idx.free ptr = some { idx with
      nodes := Function.update idx.nodes ptr { idx.nodes ptr with key := none, next := block.free }
      blocks := idx.blocks.set ptr.blockId ⟨block.useCnt - 1, ptr⟩ } := by
  rw [free, there, Option.bind_some, read_slot idx ptr slot, Option.bind_some, write_slot idx ptr _ slot]
  rfl

-- Either no node of the list has the key, or the one before it now points past it.
theorem list_del_loop (idx : MemIdx) (key : UInt64) (left : Nat) (prev start : KeyNodePtr) (list : List KeyNodePtr)
    (slots : ∀ p ∈ prev :: list, idx.IsSlot p) (linked : Linked idx.nextOf .null start list) (enough : list.length < left) :
    (∀ q ∈ list, (idx.nodes q).key ≠ some key) ∧ idx.listDelLoop key left prev start = some (.null, idx) ∨
      ∃ before last p after, prev :: list = before ++ last :: p :: after ∧ (idx.nodes p).key = some key ∧
        idx.listDelLoop key left prev start =
          some (p, { idx with nodes := Function.update idx.nodes last { idx.nodes last with next := idx.nextOf p } }) := by
  induction left generalizing prev start list with
  | zero => exact absurd enough (Nat.not_lt_zero _)
  | succ left ih =>
      cases list with
      | nil =>
          have first : start = .null := linked
          exact .inl ⟨by simp, by simp [listDelLoop, first]⟩
      | cons p rest =>
          obtain ⟨first, present, later⟩ := linked
          subst first
          have slot := slots start (by simp)
          simp only [listDelLoop, if_neg present, read_slot idx start slot, Option.bind_some]
          by_cases hit : (idx.nodes start).key = some key
          · rw [if_pos hit, set_next_slot idx prev (slots prev (by simp)), Option.map_some]
            exact .inr ⟨[], prev, start, rest, rfl, hit, rfl⟩
          · rw [if_neg hit]
            rcases ih start (idx.nodes start).next rest (fun q member => slots q (by simp only [List.mem_cons] at member ⊢; tauto)) later
              (by simpa using enough) with ⟨absent, result⟩ | ⟨before, last, found, after, parts, keyed, result⟩
            · refine .inl ⟨?_, result⟩
              intro q member
              rcases List.mem_cons.mp member with same | rests
              · rw [same]
                exact hit
              · exact absent q rests
            · exact .inr ⟨prev :: before, last, found, after, by rw [parts]; rfl, keyed, result⟩

theorem absent_lookup (idx : MemIdx) (chains : Nat → List KeyNodePtr) (key : UInt64)
    (absent : ∀ q ∈ chains (idx.hashFunc key), (idx.nodes q).key ≠ some key) : idx.lookup chains key = none := by
  have nothing : ((chains (idx.hashFunc key)).find? fun q => decide ((idx.nodes q).key = some key)) = none := by
    rw [List.find?_eq_none]
    intro q member
    simpa using absent q member
  rw [lookup, nothing]
  rfl

theorem del_done (idx : MemIdx) (chains frees : Nat → List KeyNodePtr) (placed : Placed idx chains frees) (key : UInt64) :
    ∃ code fin, idx.del key = some (code, fin) ∧ Nonempty (Done idx fin chains (deletedAt key)) := by
  have inside := hash_bucket idx placed.sized key
  have linked := placed.chained _ inside
  have slots := chain_slot idx chains frees placed _ inside
  have nothing : (∀ q ∈ chains (idx.hashFunc key), (idx.nodes q).key ≠ some key) → Nonempty (Done idx idx chains (deletedAt key)) := by
    intro absent
    refine ⟨⟨chains, frees, placed, ⟨rfl, rfl, rfl⟩, ?_⟩⟩
    intro other
    by_cases equal : other = key
    · simp [deletedAt, equal, absent_lookup idx chains key absent]
    · simp [deletedAt, equal]
  unfold del
  cases list : chains (idx.hashFunc key) with
  | nil =>
      rw [list] at linked
      have empty : idx.heads (idx.hashFunc key) = .null := linked
      simp only [empty, if_true]
      exact ⟨0, idx, rfl, nothing (by rw [list]; simp)⟩
  | cons head rest =>
      rw [list] at linked
      obtain ⟨first, present, later⟩ := linked
      have slot := slots head (by rw [list]; simp)
      simp only [first, if_neg present, read_slot idx head slot, Option.bind_some]
      by_cases hit : (idx.nodes head).key = some key
      · obtain ⟨block, there⟩ := slot_block idx head slot
        rw [if_pos hit, free_done { idx with heads := Function.update idx.heads (idx.hashFunc key) (idx.nodes head).next } head slot _ there, Option.map_some]
        refine ⟨1, _, rfl, ?_⟩
        have nodup := chain_nodup idx chains frees placed _ inside
        rw [list, List.nodup_cons] at nodup
        refine removed_done idx _ chains frees placed key head [] rest block list hit there ?_ ?_ ?_ ?_ ?_ ?_ ?_
        · exact ⟨rfl, rfl, rfl⟩
        · rfl
        · intro j different
          exact Function.update_of_ne different _ _
        · simp only [nextOf, Function.update_self]
        · intro q different
          simp only [Function.update_of_ne different, and_self]
        · intro q different _
          exact Function.update_of_ne different _ _
        · simp only [List.nil_append, Function.update_self]
          apply linked_congr idx.nextOf _ _ _ _ _ later
          intro q member
          have different : q ≠ head := fun same => nodup.1 (same ▸ member)
          simp only [nextOf, Function.update_of_ne different]
      · rw [if_neg hit]
        have enough := chain_length idx chains frees placed _ inside
        rw [list] at enough
        -- The head itself is looked at once more, without effect.
        have twice : idx.listDel key head = idx.listDelLoop key (idx.steps - 1) head (idx.nodes head).next := by
          obtain ⟨left, size⟩ : ∃ left, idx.steps = left + 1 := ⟨idx.steps - 1, by omega⟩
          rw [listDel, size, listDelLoop, if_neg present, read_slot idx head slot, Option.bind_some, if_neg hit]
          rfl
        rw [twice]
        rcases list_del_loop idx key (idx.steps - 1) head (idx.nodes head).next rest (fun q member => slots q (by rw [list]; exact member)) later
          (by simp only [List.length_cons] at enough; omega) with ⟨absent, result⟩ | ⟨before, last, found, after, parts, keyed, result⟩
        · simp only [result, Option.bind_some, if_true]
          refine ⟨0, idx, rfl, nothing ?_⟩
          intro q member
          rw [list] at member
          rcases List.mem_cons.mp member with same | rests
          · rw [same]
            exact hit
          · exact absent q rests
        · have chain : chains (idx.hashFunc key) = (before ++ [last]) ++ found :: after := by rw [list, parts]; simp
          have member : found ∈ chains (idx.hashFunc key) := by rw [chain]; simp
          have foundSlot := slots found member
          obtain ⟨block, there⟩ := slot_block idx found foundSlot
          simp only [result, Option.bind_some, if_neg (slot_not_null idx found foundSlot)]
          rw [free_done { idx with nodes := Function.update idx.nodes last { idx.nodes last with next := idx.nextOf found } } found foundSlot
            block there, Option.map_some]
          refine ⟨1, _, rfl, ?_⟩
          have nodup := chain_nodup idx chains frees placed _ inside
          rw [chain] at nodup
          have apart : ∀ q ∈ before ++ after, q ≠ last ∧ q ≠ found := by
            intro q stays
            simp only [List.append_assoc, List.cons_append, List.nil_append, List.nodup_append, List.nodup_cons, List.mem_cons] at nodup
            obtain ⟨_, ⟨lastApart, foundApart, _⟩, separate⟩ := nodup
            rcases List.mem_append.mp stays with early | late
            · exact ⟨separate q early last (.inl rfl), separate q early found (.inr (.inl rfl))⟩
            · exact ⟨fun same => lastApart (.inr (same ▸ late)), fun same => foundApart (same ▸ late)⟩
          have different : last ≠ found := by
            simp only [List.append_assoc, List.cons_append, List.nil_append, List.nodup_append, List.nodup_cons, List.mem_cons] at nodup
            exact fun same => nodup.2.1.1 (.inl same)
          refine removed_done idx _ chains frees placed key found (before ++ [last]) after block chain keyed there ?_ ?_ ?_ ?_ ?_ ?_ ?_
          · exact ⟨rfl, rfl, rfl⟩
          · rfl
          · intro j _
            rfl
          · simp only [nextOf, Function.update_self]
          · intro q notFound
            simp only [Function.update_of_ne notFound]
            by_cases same : q = last
            · subst same
              simp only [Function.update_self, and_self]
            · simp only [Function.update_of_ne same, and_self]
          · intro q notFound notChain
            have notLast : q ≠ last := fun same => notChain (by rw [same, chain]; simp)
            simp only [Function.update_of_ne notFound, Function.update_of_ne notLast]
          · rw [List.append_assoc]
            apply linked_unlink idx.nextOf _ _ _ before last found after
            · intro q stays
              obtain ⟨notLast, notFound⟩ := apart q stays
              simp only [nextOf, Function.update_of_ne notFound, Function.update_of_ne notLast]
            · simp only [nextOf, Function.update_of_ne different, Function.update_self]
            · have whole := placed.chained _ inside
              rw [chain, List.append_assoc] at whole
              exact whole

inductive Op where
  | set (blockId : Option Nat) (shm : Bool) (key : UInt64) (position : Position)
  | get (key : UInt64)
  | del (key : UInt64)
  | allocBlock (shm : Bool)

def perform (idx : MemIdx) : Op → Option (Int × MemIdx)
  | .set blockId shm key position => idx.set blockId shm key position
  | .get key => (idx.get key).map fun found => (if found.isSome then 1 else 0, idx)
  | .del key => idx.del key
  | .allocBlock shm => some (idx.allocBlock shm)

-- What a finite map would hold after the same call: a failed Set changes nothing.
def note (map : UInt64 → Option Position) (op : Op) (code : Int) : UInt64 → Option Position :=
  match op with
  | .set _ _ key position => if 0 ≤ code then Function.update map key (some position) else map
  | .del key => Function.update map key none
  | .get _ | .allocBlock _ => map

def act (state : MemIdx × (UInt64 → Option Position)) (op : Op) : Option (MemIdx × (UInt64 → Option Position)) :=
  (state.1.perform op).map fun (code, after) => (after, note state.2 op code)

-- Set with a block takes one that was initialised, as BuildOneRecord does.
def Op.Attached (idx : MemIdx) : Op → Prop
  | .set (some id) _ _ _ => id < idx.blocks.length
  | _ => True

theorem perform_done (idx : MemIdx) (chains frees : Nat → List KeyNodePtr) (placed : Placed idx chains frees) (op : Op) :
    (∃ code fin, idx.perform op = some (code, fin) ∧ ∃ lists frees, Placed fin lists frees ∧
      ∀ map, (∀ key, idx.lookup chains key = map key) → ∀ key, fin.lookup lists key = note map op code key) ∨
      idx.perform op = none ∧ ¬ op.Attached idx := by
  cases op with
  | set blockId shm key position =>
      rcases set_done idx chains frees placed blockId shm key position with ⟨code, fin, result, ⟨done⟩⟩ | ⟨failed, id, given, beyond⟩
      · refine .inl ⟨code, fin, result, done.lists, done.frees, done.placed, ?_⟩
        intro map same other
        rw [done.looked other, same other]
        by_cases good : 0 ≤ code
        · by_cases equal : other = key
          · simp [placedAt, note, good, equal]
          · simp [placedAt, note, good, equal]
        · simp [placedAt, note, good]
      · subst given
        exact .inr ⟨failed, Nat.not_lt.mpr beyond⟩
  | get key =>
      refine .inl ⟨if (idx.lookup chains key).isSome then 1 else 0, idx, ?_, chains, frees, placed, fun _ same => same⟩
      simp only [perform, get_lookup idx chains frees placed key, Option.map_some]
  | del key =>
      obtain ⟨code, fin, result, ⟨done⟩⟩ := del_done idx chains frees placed key
      refine .inl ⟨code, fin, result, done.lists, done.frees, done.placed, ?_⟩
      intro map same other
      rw [done.looked other, same other]
      by_cases equal : other = key
      · simp [deletedAt, note, equal]
      · simp [deletedAt, note, equal]
  | allocBlock shm =>
      simp only [perform, allocBlock]
      by_cases full : idx.blocks.length + 1 > idx.maxBlock
      · rw [if_pos full]
        exact .inl ⟨-1, idx, rfl, chains, frees, placed, fun _ same => same⟩
      · rw [if_neg full]
        by_cases refused : shm = false
        · rw [if_pos refused]
          exact .inl ⟨-1, idx, rfl, chains, frees, placed, fun _ same => same⟩
        · rw [if_neg refused]
          refine .inl ⟨_, _, rfl, chains, _, init_block_placed idx chains frees placed (by omega), ?_⟩
          intro map same key
          rw [init_block_lookup idx chains frees placed key]
          exact same key

-- A well linked index that agrees with the map.
def Agrees (state : MemIdx × (UInt64 → Option Position)) : Prop :=
  ∃ chains frees, Placed state.1 chains frees ∧ ∀ key, state.1.lookup chains key = state.2 key

theorem init_placed (headSize maxBlock maxKeyCnt : Nat) (memory : KeyNodePtr → KeyNode) (bucket : 0 < headSize) (slots : 2 ≤ maxKeyCnt)
    (offsets : maxKeyCnt ≤ 2 ^ 22) (ids : maxBlock ≤ 2 ^ 10) :
    Placed (init headSize maxBlock maxKeyCnt memory) (fun _ => []) (fun _ => []) where
  sized := ⟨bucket, slots, offsets, ids, Nat.zero_le _⟩
  chained _ _ := rfl
  freed i block there := by simp [init] at there
  once p := by
    have none_yet : ¬ (init headSize maxBlock maxKeyCnt memory).IsSlot p := by
      intro slot
      exact absurd slot.1 (Nat.not_lt_zero _)
    rw [if_neg none_yet]
    simp [occurs]
  bucketed _ _ p member := by simp at member
  keyed _ _ := by simp
  counted i block there := by simp [init] at there

theorem act_agrees (state : MemIdx × (UInt64 → Option Position)) (op : Op) (after : MemIdx × (UInt64 → Option Position)) (agrees : Agrees state)
    (done : act state op = some after) : Agrees after := by
  obtain ⟨chains, frees, placed, same⟩ := agrees
  obtain ⟨⟨code, fin⟩, result, rfl⟩ := Option.map_eq_some_iff.mp done
  rcases perform_done state.1 chains frees placed op with ⟨_, _, again, lists, rests, kept, noted⟩ | ⟨failed, _⟩
  · obtain ⟨rfl, rfl⟩ := Prod.mk.inj (Option.some.inj (again.symm.trans result))
    exact ⟨lists, rests, kept, noted state.2 same⟩
  · rw [failed] at result
    cases result

-- Every call returns unless Set is given a block that was never initialised.
theorem act_returns (state : MemIdx × (UInt64 → Option Position)) (op : Op) (agrees : Agrees state) (attached : op.Attached state.1) :
    (act state op).isSome = true := by
  obtain ⟨chains, frees, placed, _⟩ := agrees
  rcases perform_done state.1 chains frees placed op with ⟨_, _, result, _⟩ | ⟨_, missing⟩
  · rw [act, result]
    rfl
  · exact absurd attached missing

theorem mem_idx_refines_map (headSize maxBlock maxKeyCnt : Nat) (memory : KeyNodePtr → KeyNode) (bucket : 0 < headSize) (slots : 2 ≤ maxKeyCnt)
    (offsets : maxKeyCnt ≤ 2 ^ 22) (ids : maxBlock ≤ 2 ^ 10) (idx : MemIdx) (map : UInt64 → Option Position)
    (run : Reaches act (init headSize maxBlock maxKeyCnt memory, fun _ => none) (idx, map)) :
    (∀ key, idx.get key = some (map key)) ∧ (∃ chains frees, Placed idx chains frees) ∧
      ∀ op : Op, op.Attached idx → (act (idx, map) op).isSome = true := by
  have start : Agrees (init headSize maxBlock maxKeyCnt memory, fun _ => none) :=
    ⟨_, _, init_placed headSize maxBlock maxKeyCnt memory bucket slots offsets ids, fun _ => rfl⟩
  have agrees := run_invariant act Agrees act_agrees _ _ start run
  obtain ⟨chains, frees, placed, same⟩ := agrees
  refine ⟨?_, ⟨chains, frees, placed⟩, fun op attached => act_returns (idx, map) op ⟨chains, frees, placed, same⟩ attached⟩
  intro key
  rw [get_lookup idx chains frees placed key, same key]

-- One bucket, and blocks of two usable slots each.
def smallIdx : MemIdx × (UInt64 → Option Position) := (init 1 2 3 fun _ => {}, fun _ => none)

def smallOps : List Op :=
  [.set none true 7 ⟨0, 10⟩, .set none true 8 ⟨0, 20⟩, .set none true 9 ⟨0, 30⟩, .del 8, .set none true 9 ⟨1, 40⟩, .set (some 0) true 5 ⟨1, 50⟩]

theorem small_idx_refines_map :
    (∀ key, (endOf act smallIdx smallOps).1.get key = some ((endOf act smallIdx smallOps).2 key)) ∧
      (∃ chains frees, Placed (endOf act smallIdx smallOps).1 chains frees) ∧
      ∀ op : Op, op.Attached (endOf act smallIdx smallOps).1 → (act (endOf act smallIdx smallOps) op).isSome = true :=
  mem_idx_refines_map 1 2 3 (fun _ => {}) (by decide) (by decide) (by decide) (by decide) _ _
    (reaches_end act smallIdx smallOps (by decide +kernel))

-- The first slot of a block is a node slot as the others are, but no list has it.
theorem first_slot_nowhere :
    ∃ idx map, Reaches act smallIdx (idx, map) ∧ KeyNodePtr.null.blockId < idx.blocks.length ∧ KeyNodePtr.null.offset < idx.maxKeyCnt ∧
      ∀ chains frees : Nat → List KeyNodePtr, (∀ i, i < idx.headSize → Linked idx.nextOf .null (idx.heads i) (chains i)) →
        (∀ i block, idx.blocks[i]? = some block → Linked idx.nextOf .null block.free (frees i)) →
        occurs idx.headSize chains .null + occurs idx.blocks.length frees .null = 0 := by
  refine ⟨(endOf act smallIdx [.allocBlock true]).1, (endOf act smallIdx [.allocBlock true]).2,
    reaches_end act smallIdx [.allocBlock true] (by decide +kernel), by decide +kernel, by decide +kernel, ?_⟩
  intro chains frees chained freed
  have noChain : ∀ i, i < (endOf act smallIdx [.allocBlock true]).1.headSize → (chains i).count .null = 0 := by
    intro i inside
    rw [List.count_eq_zero]
    intro member
    exact linked_not_null _ _ _ _ (chained i inside) _ member rfl
  have noFree : ∀ i, i < (endOf act smallIdx [.allocBlock true]).1.blocks.length → (frees i).count .null = 0 := by
    intro i inside
    rw [List.count_eq_zero]
    intro member
    exact linked_not_null _ _ _ _ (freed i _ (List.getElem?_eq_getElem inside)) _ member rfl
  rw [occurs, occurs, Finset.sum_eq_zero fun i member => noChain i (Finset.mem_range.mp member),
    Finset.sum_eq_zero fun i member => noFree i (Finset.mem_range.mp member), Nat.add_zero]

end MemIdx

end PaxosStore.MemKv
