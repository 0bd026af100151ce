import PaxosStore.DbComm.LogBlocks

set_option autoImplicit false

namespace PaxosStore.DbComm

open PaxosStore.Codec
open PaxosStore.PaxosKv

-- `before` is what has been read of a value that goes on in the next block: the blocks
-- complete it to `value`, and `todo` and `after` is what is left then.
inductive Continues : Bytes → List Block → Bytes → List Part → List Block → Prop
  | last (before bytes : Bytes) (todo : List Part) (seq : Nat) (after : List Block) :
      Continues before (⟨seq, ⟨.last, bytes⟩ :: todo⟩ :: after) (before ++ bytes) todo after
  | middle (before bytes value : Bytes) (todo : List Part) (seq : Nat) (blocks after : List Block)
      (rest : Continues (before ++ bytes) blocks value todo after) :
      Continues before (⟨seq, [⟨.middle, bytes⟩]⟩ :: blocks) value todo after

-- The pieces left in a block and the blocks after it hold exactly these values.
inductive Spells : List Part → List Block → List Bytes → Prop
  | done : Spells [] [] []
  | next (block : Block) (blocks : List Block) (values : List Bytes) (rest : Spells block.parts blocks values) :
      Spells [] (block :: blocks) values
  | full (bytes : Bytes) (todo : List Part) (blocks : List Block) (values : List Bytes) (rest : Spells todo blocks values) :
      Spells (⟨.full, bytes⟩ :: todo) blocks (bytes :: values)
  | split (bytes value : Bytes) (todo : List Part) (blocks after : List Block) (values : List Bytes)
      (goes : Continues bytes blocks value todo after) (rest : Spells todo after values) :
      Spells [⟨.first, bytes⟩] blocks (value :: values)

-- More pieces in the last block, and fresh blocks after it.
def extendBlocks : List Block → List Part → List Block → List Block
  | [], _, fresh => fresh
  | [block], parts, fresh => { block with parts := block.parts ++ parts } :: fresh
  | block :: next :: rest, parts, fresh => block :: extendBlocks (next :: rest) parts fresh

theorem extend_last (before : List Block) (block : Block) (parts : List Part) (fresh : List Block) :
    extendBlocks (before ++ [block]) parts fresh = before ++ { block with parts := block.parts ++ parts } :: fresh := by
  induction before with
  | nil => rfl
  | cons first rest ih =>
    cases rest with
    | nil => rfl
    | cons second rest =>
      simp only [List.cons_append, extendBlocks] at ih ⊢
      rw [ih]

theorem extend_nothing (blocks fresh : List Block) : extendBlocks blocks [] fresh = blocks ++ fresh := by
  rcases List.eq_nil_or_concat blocks with rfl | ⟨before, last, rfl⟩
  · rfl
  · rw [List.concat_eq_append, extend_last, List.append_nil, List.append_assoc]
    rfl

theorem extend_cons (block next : Block) (rest : List Block) (parts : List Part) (fresh : List Block) :
    extendBlocks (block :: next :: rest) parts fresh = block :: extendBlocks (next :: rest) parts fresh := rfl

theorem continues_some (before value : Bytes) (todo : List Part) (blocks after : List Block) (goes : Continues before blocks value todo after) :
    ∃ block rest, blocks = block :: rest := by
  cases goes with
  | last => exact ⟨_, _, rfl⟩
  | middle => exact ⟨_, _, rfl⟩

-- What is added behind the value is added to what is left after it.
theorem continues_extend (before value : Bytes) (todo : List Part) (blocks after : List Block)
    (goes : Continues before blocks value todo after) (parts : List Part) (fresh : List Block) :
    (after = [] → Continues before (extendBlocks blocks parts fresh) value (todo ++ parts) fresh) ∧
      (after ≠ [] → Continues before (extendBlocks blocks parts fresh) value todo (extendBlocks after parts fresh)) := by
  induction goes with
  | last before bytes todo seq after =>
    constructor
    · rintro rfl
      exact Continues.last before bytes (todo ++ parts) seq fresh
    · intro some_after
      obtain ⟨next, rest, rfl⟩ := List.exists_cons_of_ne_nil some_after
      exact Continues.last before bytes todo seq _
  | middle before bytes value todo seq blocks after rest ih =>
    obtain ⟨next, others, rfl⟩ := continues_some _ _ _ _ _ rest
    exact ⟨fun none_after => Continues.middle before bytes value _ seq _ _ (ih.1 none_after),
      fun some_after => Continues.middle before bytes value todo seq _ _ (ih.2 some_after)⟩

theorem spells_extend (todo : List Part) (blocks : List Block) (values : List Bytes) (spelt : Spells todo blocks values)
    (parts : List Part) (fresh : List Block) (added : List Bytes) (more : Spells parts fresh added) :
    (blocks = [] → Spells (todo ++ parts) fresh (values ++ added)) ∧
      (blocks ≠ [] → Spells todo (extendBlocks blocks parts fresh) (values ++ added)) := by
  induction spelt with
  | done => exact ⟨fun _ => more, fun wrong => absurd rfl wrong⟩
  | next block blocks values rest ih =>
    refine ⟨fun wrong => absurd wrong (List.cons_ne_nil _ _), fun _ => ?_⟩
    cases blocks with
    | nil => exact Spells.next _ _ _ (ih.1 rfl)
    | cons second others => exact Spells.next _ _ _ (ih.2 (List.cons_ne_nil _ _))
  | full bytes todo blocks values rest ih =>
    exact ⟨fun none_after => Spells.full bytes _ _ _ (ih.1 none_after), fun some_after => Spells.full bytes _ _ _ (ih.2 some_after)⟩
  | split bytes value todo blocks after values goes rest ih =>
    have extended := continues_extend bytes value todo blocks after goes parts fresh
    obtain ⟨block, others, rfl⟩ := continues_some _ _ _ _ _ goes
    refine ⟨fun wrong => absurd wrong (List.cons_ne_nil _ _), fun _ => ?_⟩
    by_cases none_after : after = []
    · exact Spells.split bytes value _ _ _ _ (extended.1 none_after) (ih.1 none_after)
    · exact Spells.split bytes value todo _ _ _ (extended.2 none_after) (ih.2 none_after)

-- Values written one after the other from the head of a block on.
theorem spells_append (blocks fresh : List Block) (values added : List Bytes) (spelt : Spells [] blocks values) (more : Spells [] fresh added) :
    Spells [] (blocks ++ fresh) (values ++ added) := by
  have extended := spells_extend [] blocks values spelt [] fresh added more
  by_cases empty : blocks = []
  · subst empty
    exact extended.1 rfl
  · rw [← extend_nothing]
    exact extended.2 empty

-- The bytes of a block that holds `block`: its head, its pieces, and padding up to its
-- end. A value that goes on in the next block leaves no room for padding.
def Sealed (crc : Crc32c) (blockSize : Nat) (bytes : Bytes) (block : Block) : Prop :=
  block.parts ≠ [] ∧ (∀ part ∈ block.parts, part.Sized) ∧ block.seq < 2 ^ 64 ∧ bytes.length = blockSize ∧
    ∃ pad, bytes = headBytes crc block.seq ++ (partsBytes crc block.parts ++ pad) ∧ Padding crc pad ∧
      (∀ part, block.parts.getLast? = some part → part.kind = .first ∨ part.kind = .middle → pad = [])

-- A file of whole blocks: `first` is the block of the meta info.
structure Image (crc : Crc32c) (blockSize startSeq : Nat) (file : Bytes) (blocks : List Block) : Prop where
  framed : ∃ first pieces, file = first ++ List.flatten pieces ∧ first.length = blockSize ∧ List.Forall₂ (Sealed crc blockSize) pieces blocks
  current : ∀ block ∈ blocks, startSeq < block.seq

end PaxosStore.DbComm
