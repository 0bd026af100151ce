import PaxosStore.DbComm.LogSessions
import PaxosStore.DbComm.LogWriter

set_option autoImplicit false

namespace PaxosStore.DbComm

open PaxosStore.Codec
open PaxosStore.PaxosKv

def PartKind.begins (begun : Bool) : PartKind := if begun then .middle else .first

def PartKind.ends (begun : Bool) : PartKind := if begun then .last else .full

-- What one record of a fresh block can hold.
def freshRoom (blockSize : Nat) : Nat := blockSize - blockMetaSize - headerSize

-- The blocks that take what is left of a value, from the head of a block on; `begun`
-- says that a piece of the value stands before them.
inductive Fresh (blockSize : Nat) : Bool → Nat → Bytes → List Block → Prop
  | last (begun : Bool) (seq : Nat) (left : Bytes) (some_left : left ≠ []) (fits : left.length ≤ freshRoom blockSize) :
      Fresh blockSize begun seq left [⟨seq + 1, [⟨PartKind.ends begun, left⟩]⟩]
  | more (begun : Bool) (seq : Nat) (bytes rest : Bytes) (blocks : List Block) (fills : bytes.length = freshRoom blockSize)
      (goes : Fresh blockSize true (seq + 1) rest blocks) :
      Fresh blockSize begun seq (bytes ++ rest) (⟨seq + 1, [⟨PartKind.begins begun, bytes⟩]⟩ :: blocks)

-- How a value is cut where `room` bytes are left of a block: the piece that goes into
-- this block, and fresh ones.
inductive Cut (blockSize seq : Nat) : Nat → Bytes → List Part → List Block → Prop
  | head (value : Bytes) (blocks : List Block) (fresh : Fresh blockSize false seq value blocks) :
      Cut blockSize seq blockSize value [] blocks
  | inside (room : Nat) (value : Bytes) (inner : room < blockSize) (some_value : value ≠ []) (fits : headerSize + value.length ≤ room) :
      Cut blockSize seq room value [⟨.full, value⟩] []
  | across (room : Nat) (bytes rest : Bytes) (blocks : List Block) (inner : room < blockSize) (some_bytes : bytes ≠ [])
      (fills : headerSize + bytes.length = room) (fresh : Fresh blockSize true seq rest blocks) :
      Cut blockSize seq room (bytes ++ rest) [⟨.first, bytes⟩] blocks

theorem fresh_some (blockSize : Nat) (begun : Bool) (seq : Nat) (left : Bytes) (blocks : List Block) (fresh : Fresh blockSize begun seq left blocks) :
    left ≠ [] ∧ blocks ≠ [] := by
  induction fresh with
  | last begun seq left some_left fits => exact ⟨some_left, List.cons_ne_nil _ _⟩
  | more begun seq bytes rest blocks fills goes ih =>
    exact ⟨fun empty => ih.1 (List.append_eq_nil_iff.mp empty).2, List.cons_ne_nil _ _⟩

theorem fresh_continues (blockSize seq : Nat) (left : Bytes) (blocks : List Block) (fresh : Fresh blockSize true seq left blocks) (before : Bytes) :
    Continues before blocks (before ++ left) [] [] := by
  generalize begun : true = started at fresh
  induction fresh generalizing before with
  | last started seq left some_left fits =>
    subst begun
    exact Continues.last before left [] (seq + 1) []
  | more started seq bytes rest blocks fills goes ih =>
    subst begun
    rw [← List.append_assoc]
    exact Continues.middle before bytes _ [] (seq + 1) blocks [] (ih (before ++ bytes) rfl)

theorem fresh_spells (blockSize seq : Nat) (value : Bytes) (blocks : List Block) (fresh : Fresh blockSize false seq value blocks) :
    Spells [] blocks [value] := by
  cases fresh with
  | last _ _ _ some_left fits => exact Spells.next _ _ _ (Spells.full value [] [] [] Spells.done)
  | more _ _ bytes rest blocks fills goes =>
    exact Spells.next _ _ _ (Spells.split bytes _ [] blocks [] [] (fresh_continues blockSize (seq + 1) rest blocks goes bytes) Spells.done)

theorem cut_spells (blockSize seq room : Nat) (value : Bytes) (parts : List Part) (blocks : List Block)
    (cut : Cut blockSize seq room value parts blocks) : Spells parts blocks [value] := by
  cases cut with
  | head _ _ fresh => exact fresh_spells blockSize seq value blocks fresh
  | inside _ _ inner some_value fits => exact Spells.full value [] [] [] Spells.done
  | across _ bytes rest _ inner some_bytes fills fresh =>
    exact Spells.split bytes _ [] blocks [] [] (fresh_continues blockSize seq rest blocks fresh bytes) Spells.done

theorem cut_some (blockSize seq room : Nat) (value : Bytes) (parts : List Part) (blocks : List Block)
    (cut : Cut blockSize seq room value parts blocks) : value ≠ [] := by
  cases cut with
  | head _ _ fresh => exact (fresh_some blockSize false seq value blocks fresh).1
  | inside _ _ inner some_value fits => exact some_value
  | across _ bytes rest _ inner some_bytes fills fresh => exact fun empty => some_bytes (List.append_eq_nil_iff.mp empty).1

theorem fresh_numbers (blockSize : Nat) (begun : Bool) (seq : Nat) (left : Bytes) (blocks : List Block)
    (fresh : Fresh blockSize begun seq left blocks) : ∀ block ∈ blocks, seq < block.seq ∧ block.seq ≤ seq + blocks.length := by
  induction fresh with
  | last begun seq left some_left fits =>
    intro block member
    obtain rfl := List.mem_singleton.mp member
    exact ⟨Nat.lt_succ_self seq, Nat.le_refl _⟩
  | more begun seq bytes rest blocks fills goes ih =>
    intro block member
    rw [List.length_cons]
    rcases List.mem_cons.mp member with rfl | later
    · exact ⟨Nat.lt_succ_self seq, by dsimp only; omega⟩
    · have bounds := ih block later
      omega

theorem cut_numbers (blockSize seq room : Nat) (value : Bytes) (parts : List Part) (blocks : List Block)
    (cut : Cut blockSize seq room value parts blocks) : ∀ block ∈ blocks, seq < block.seq ∧ block.seq ≤ seq + blocks.length := by
  cases cut with
  | head _ _ fresh => exact fresh_numbers blockSize false seq value blocks fresh
  | inside _ _ inner some_value fits => exact fun block member => absurd member (List.not_mem_nil)
  | across _ bytes rest _ inner some_bytes fills fresh => exact fresh_numbers blockSize true seq rest blocks fresh

section Bytes

variable (crc : Crc32c) {blockSize : Nat}

-- A block without its padding.
def blockBytes (block : Block) : Bytes := headBytes crc block.seq ++ partsBytes crc block.parts

def blocksBytes (blocks : List Block) : Bytes := blocks.flatMap (blockBytes crc)

theorem block_bytes_length (block : Block) : (blockBytes crc block).length = blockMetaSize + partsSize block.parts := by
  rw [blockBytes, List.length_append, head_bytes_length, parts_bytes_length]

theorem blocks_bytes_cons (block : Block) (blocks : List Block) : blocksBytes crc (block :: blocks) = blockBytes crc block ++ blocksBytes crc blocks := rfl

-- What is written of the data blocks so far: all of them are whole, or the last one has
-- room left.
inductive Laid (blockSize : Nat) : Bytes → List Block → Prop
  | closed (pieces : List Bytes) (blocks : List Block) (framed : List.Forall₂ (Sealed crc blockSize) pieces blocks) :
      Laid blockSize pieces.flatten blocks
  | opened (pieces : List Bytes) (before : List Block) (block : Block) (framed : List.Forall₂ (Sealed crc blockSize) pieces before)
      (some_parts : block.parts ≠ []) (sized : ∀ part ∈ block.parts, part.Sized) (small : block.seq < 2 ^ 64)
      (room : blockMetaSize + partsSize block.parts < blockSize)
      (closes : ∀ part, block.parts.getLast? = some part → part.kind.Closes) :
      Laid blockSize (pieces.flatten ++ blockBytes crc block) (before ++ [block])

theorem sealed_exact (block : Block) (some_parts : block.parts ≠ []) (sized : ∀ part ∈ block.parts, part.Sized) (small : block.seq < 2 ^ 64)
    (exactly : blockMetaSize + partsSize block.parts = blockSize) : Sealed crc blockSize (blockBytes crc block) block := by
  refine ⟨some_parts, sized, small, by rw [block_bytes_length]; exact exactly, [], ?_, .inl rfl, fun _ _ _ => rfl⟩
  rw [List.append_nil, blockBytes]

theorem framed_more (pieces : List Bytes) (blocks : List Block) (framed : List.Forall₂ (Sealed crc blockSize) pieces blocks) (bytes : Bytes)
    (block : Block) (whole : Sealed crc blockSize bytes block) :
    List.Forall₂ (Sealed crc blockSize) (pieces ++ [bytes]) (blocks ++ [block]) ∧ (pieces ++ [bytes]).flatten = pieces.flatten ++ bytes :=
  ⟨List.rel_append framed (List.Forall₂.cons whole List.Forall₂.nil), by simp⟩

-- A last block that ends with the end of a value.
theorem laid_block (pieces : List Bytes) (before : List Block) (framed : List.Forall₂ (Sealed crc blockSize) pieces before) (block : Block)
    (some_parts : block.parts ≠ []) (sized : ∀ part ∈ block.parts, part.Sized) (small : block.seq < 2 ^ 64)
    (fits : blockMetaSize + partsSize block.parts ≤ blockSize) (closes : ∀ part, block.parts.getLast? = some part → part.kind.Closes) :
    Laid crc blockSize (pieces.flatten ++ blockBytes crc block) (before ++ [block]) := by
  by_cases full : blockMetaSize + partsSize block.parts = blockSize
  · obtain ⟨more, flat⟩ := framed_more crc pieces before framed _ block (sealed_exact crc block some_parts sized small full)
    rw [← flat]
    exact Laid.closed _ _ more
  · exact Laid.opened pieces before block framed some_parts sized small (by omega) closes

theorem laid_fresh (begun : Bool) (seq : Nat) (left : Bytes) (fresh : List Block) (cut : Fresh blockSize begun seq left fresh)
    (large : blockMetaSize + headerSize < blockSize) (limit : blockSize ≤ 2 ^ 16) (numbered : seq + fresh.length < 2 ^ 64)
    (pieces : List Bytes) (blocks : List Block) (framed : List.Forall₂ (Sealed crc blockSize) pieces blocks) :
    Laid crc blockSize (pieces.flatten ++ blocksBytes crc fresh) (blocks ++ fresh) := by
  simp only [blockMetaSize, headerSize] at large
  induction cut generalizing pieces blocks with
  | last begun seq left some_left fits =>
    simp only [freshRoom, blockMetaSize, headerSize] at fits
    have single : blocksBytes crc [⟨seq + 1, [⟨PartKind.ends begun, left⟩]⟩] = blockBytes crc ⟨seq + 1, [⟨PartKind.ends begun, left⟩]⟩ := by
      rw [blocks_bytes_cons, show blocksBytes crc [] = [] from rfl, List.append_nil]
    rw [single]
    refine laid_block crc pieces blocks framed _ (List.cons_ne_nil _ _) ?_ numbered ?_ ?_
    · intro part member
      obtain rfl := List.mem_singleton.mp member
      exact ⟨some_left, by dsimp only; omega⟩
    · rw [parts_size_one]
      simp only [blockMetaSize, headerSize]
      omega
    · intro part ends
      cases ends
      cases begun
      · exact .inl rfl
      · exact .inr rfl
  | more begun seq bytes rest fresh fills goes ih =>
    simp only [freshRoom, blockMetaSize, headerSize] at fills
    rw [List.length_cons] at numbered
    have whole : Sealed crc blockSize (blockBytes crc ⟨seq + 1, [⟨PartKind.begins begun, bytes⟩]⟩) ⟨seq + 1, [⟨PartKind.begins begun, bytes⟩]⟩ := by
      refine sealed_exact crc _ (List.cons_ne_nil _ _) ?_ (by dsimp only; omega) ?_
      · intro part member
        obtain rfl := List.mem_singleton.mp member
        refine ⟨fun empty => ?_, by dsimp only; omega⟩
        rw [show bytes = [] from empty, List.length_nil] at fills
        omega
      · rw [parts_size_one]
        simp only [blockMetaSize, headerSize]
        omega
    obtain ⟨more, flat⟩ := framed_more crc pieces blocks framed _ _ whole
    have later := ih (by omega) _ _ more
    rw [flat, List.append_assoc, List.append_assoc] at later
    exact later

-- The place after the data decides which of the two cases it is.
theorem laid_length (data : Bytes) (blocks : List Block) (laid : Laid crc blockSize data blocks) :
    (data.length % blockSize = 0 ∧ data.length = blocks.length * blockSize ∧
        ∃ pieces, data = pieces.flatten ∧ List.Forall₂ (Sealed crc blockSize) pieces blocks) ∨
      ∃ pieces before block, data = pieces.flatten ++ blockBytes crc block ∧ blocks = before ++ [block] ∧
        List.Forall₂ (Sealed crc blockSize) pieces before ∧ block.parts ≠ [] ∧ (∀ part ∈ block.parts, part.Sized) ∧ block.seq < 2 ^ 64 ∧
        (∀ part, block.parts.getLast? = some part → part.kind.Closes) ∧ data.length % blockSize = blockMetaSize + partsSize block.parts ∧
        data.length = before.length * blockSize + (blockMetaSize + partsSize block.parts) := by
  cases laid with
  | closed pieces blocks framed =>
    have size := flatten_length crc blockSize pieces blocks framed
    exact .inl ⟨by rw [size, Nat.mul_mod_left], size, pieces, rfl, framed⟩
  | opened pieces before block framed some_parts sized small room closes =>
    have size : (pieces.flatten ++ blockBytes crc block).length = before.length * blockSize + (blockMetaSize + partsSize block.parts) := by
      rw [List.length_append, flatten_length crc blockSize pieces before framed, block_bytes_length]
    refine .inr ⟨pieces, before, block, rfl, rfl, framed, some_parts, sized, small, closes, ?_, size⟩
    rw [size, Nat.add_comm, Nat.add_mul_mod_self_right, Nat.mod_eq_of_lt room]

-- A value that is written where the data ends.
theorem laid_cut (large : blockMetaSize + headerSize < blockSize) (limit : blockSize ≤ 2 ^ 16) (data : Bytes) (blocks : List Block)
    (laid : Laid crc blockSize data blocks) (seq : Nat) (value : Bytes) (parts : List Part) (fresh : List Block)
    (cut : Cut blockSize seq (blockSize - data.length % blockSize) value parts fresh) (numbered : seq + fresh.length < 2 ^ 64) :
    Laid crc blockSize (data ++ (partsBytes crc parts ++ blocksBytes crc fresh)) (extendBlocks blocks parts fresh) := by
  have positive : 0 < blockSize := by omega
  rcases laid_length crc data blocks laid with ⟨aligned, -, pieces, rfl, framed⟩ |
    ⟨pieces, before, block, rfl, rfl, framed, some_parts, sized, small, closes, place, -⟩
  · rw [aligned, Nat.sub_zero] at cut
    cases cut with
    | head _ _ fresh_blocks =>
      rw [extend_nothing]
      exact laid_fresh crc false seq value fresh fresh_blocks large limit numbered pieces blocks framed
    | inside _ _ inner _ _ => exact absurd inner (Nat.lt_irrefl _)
    | across _ _ _ _ inner _ _ _ => exact absurd inner (Nat.lt_irrefl _)
  · have reached : (pieces.flatten ++ blockBytes crc block).length % blockSize < blockSize := Nat.mod_lt _ positive
    rw [extend_last]
    generalize room_eq : blockSize - (pieces.flatten ++ blockBytes crc block).length % blockSize = room at cut
    have below : room < blockSize := by
      simp only [blockMetaSize] at place
      omega
    have grown : ∀ added : Part, blockBytes crc { block with parts := block.parts ++ [added] } = blockBytes crc block ++ partBytes crc added := by
      intro added
      simp only [blockBytes, parts_bytes_append, List.append_assoc]
      simp [partsBytes]
    have size : ∀ added : Part, blockMetaSize + partsSize (block.parts ++ [added]) =
        blockMetaSize + partsSize block.parts + (headerSize + added.bytes.length) := by
      intro added
      rw [parts_size_append, parts_size_one, Nat.add_assoc]
    have all_sized : ∀ added : Part, added.Sized → ∀ part ∈ block.parts ++ [added], part.Sized := by
      intro added fits part member
      rcases List.mem_append.mp member with old | new
      · exact sized part old
      · exact (List.mem_singleton.mp new) ▸ fits
    have one : ∀ added : Part, partsBytes crc [added] = partBytes crc added := fun added => by simp [partsBytes]
    cases cut with
    | head _ _ fresh_blocks => exact absurd below (Nat.lt_irrefl _)
    | inside _ _ inner some_value fits =>
      simp only [headerSize] at fits size
      have last := laid_block crc pieces before framed { block with parts := block.parts ++ [⟨.full, value⟩] }
        (by simp) (all_sized _ ⟨some_value, show value.length ≤ 0xFFFF by omega⟩) small
        (by dsimp only; rw [size]; dsimp only; omega)
        (fun part ends => by
          rw [List.getLast?_concat, Option.some.injEq] at ends
          exact ends ▸ .inl rfl)
      rw [grown] at last
      rw [one, show blocksBytes crc [] = [] from rfl, List.append_nil, List.append_assoc]
      exact last
    | across _ bytes rest _ inner some_bytes fills fresh_blocks =>
      simp only [headerSize] at fills size
      have whole : Sealed crc blockSize (blockBytes crc { block with parts := block.parts ++ [⟨.first, bytes⟩] })
          { block with parts := block.parts ++ [⟨.first, bytes⟩] } :=
        sealed_exact crc _ (by simp) (all_sized _ ⟨some_bytes, show bytes.length ≤ 0xFFFF by omega⟩) small (by dsimp only; rw [size]; dsimp only; omega)
      obtain ⟨more, flat⟩ := framed_more crc pieces before framed _ _ whole
      have later := laid_fresh crc true seq rest fresh fresh_blocks large limit numbered _ _ more
      rw [flat, grown, List.append_assoc before] at later
      have same : pieces.flatten ++ blockBytes crc block ++ (partBytes crc ⟨.first, bytes⟩ ++ blocksBytes crc fresh) =
          pieces.flatten ++ (blockBytes crc block ++ partBytes crc ⟨.first, bytes⟩) ++ blocksBytes crc fresh := by
        simp only [List.append_assoc]
      rw [one, same]
      exact later

-- The rest of the last block is filled up.
theorem laid_padded (data : Bytes) (blocks : List Block) (laid : Laid crc blockSize data blocks) (pad : Bytes) (padding : Padding crc pad)
    (aligned : (data ++ pad).length % blockSize = 0) (short : pad.length < blockSize) :
    Laid crc blockSize (data ++ pad) blocks := by
  rw [List.length_append] at aligned
  rcases laid_length crc data blocks laid with ⟨whole, -, -⟩ |
    ⟨pieces, before, block, rfl, rfl, framed, some_parts, sized, small, closes, place, size⟩
  · have none_left : pad = [] := by
      rw [Nat.add_mod, whole, Nat.zero_add, Nat.mod_mod, Nat.mod_eq_of_lt short] at aligned
      exact List.length_eq_zero_iff.mp aligned
    rw [none_left, List.append_nil]
    exact laid
  · have under : blockMetaSize + partsSize block.parts < blockSize := by
      rw [← place]
      exact Nat.mod_lt _ (by omega)
    have exactly : blockMetaSize + partsSize block.parts + pad.length = blockSize := by
      rw [Nat.add_mod, place, Nat.mod_eq_of_lt short] at aligned
      have bound : blockMetaSize + partsSize block.parts + pad.length < 2 * blockSize := by omega
      have positive : 0 < blockMetaSize + partsSize block.parts + pad.length := by
        simp only [blockMetaSize]
        omega
      obtain ⟨count, total⟩ := Nat.dvd_of_mod_eq_zero aligned
      have one : count = 1 := by
        rcases count with _ | _ | count
        · omega
        · rfl
        · rw [Nat.mul_add, Nat.mul_add] at total
          have more : 0 ≤ blockSize * count := Nat.zero_le _
          omega
      rw [total, one, Nat.mul_one]
    have whole : Sealed crc blockSize (blockBytes crc block ++ pad) block := by
      refine ⟨some_parts, sized, small, ?_, pad, ?_, padding, fun part ends open_ => ?_⟩
      · rw [List.length_append, block_bytes_length]
        exact exactly
      · rw [blockBytes, List.append_assoc]
      · rcases closes part ends with kind | kind <;> rw [kind] at open_ <;> simp at open_
    obtain ⟨more, flat⟩ := framed_more crc pieces before framed _ _ whole
    rw [List.append_assoc, ← flat]
    exact Laid.closed _ _ more

-- A whole number of blocks behind the meta info.
theorem laid_image (startSeq : Nat) (first data : Bytes) (blocks : List Block) (laid : Laid crc blockSize data blocks)
    (aligned : data.length % blockSize = 0) (size : first.length = blockSize) (current : ∀ block ∈ blocks, startSeq < block.seq) :
    Image crc blockSize startSeq (first ++ data) blocks := by
  rcases laid_length crc data blocks laid with ⟨-, -, pieces, rfl, framed⟩ | ⟨-, -, block, -, -, -, -, -, -, -, place, -⟩
  · exact ⟨⟨first, pieces, rfl, size, framed⟩, current⟩
  · rw [aligned] at place
    simp only [blockMetaSize] at place
    omega

-- The place where a value is written, once it is there.
theorem placed_cut (data : Bytes) (blocks : List Block) (laid : Laid crc blockSize data blocks) (seq : Nat) (value : Bytes)
    (parts : List Part) (fresh : List Block) (cut : Cut blockSize seq (blockSize - data.length % blockSize) value parts fresh) :
    Placed blockSize (extendBlocks blocks parts fresh) (blockSize + data.length) [value] := by
  have spelt := cut_spells blockSize seq _ value parts fresh cut
  rcases laid_length crc data blocks laid with ⟨aligned, size, -⟩ | ⟨pieces, before, block, -, rfl, -, some_parts, -, -, -, place, size⟩
  · rw [aligned, Nat.sub_zero] at cut
    cases cut with
    | head _ _ fresh_blocks =>
      obtain ⟨block, rest, rfl⟩ := List.exists_cons_of_ne_nil (fresh_some blockSize false seq value fresh fresh_blocks).2
      rw [extend_nothing, size]
      cases spelt with
      | next _ _ _ inner => exact ⟨block.parts, rest, ⟨blocks, block.seq, [], rfl, by simp [reach, Nat.add_mul, Nat.add_comm]⟩, inner⟩
    | inside _ _ inner _ _ => exact absurd inner (Nat.lt_irrefl _)
    | across _ _ _ _ inner _ _ _ => exact absurd inner (Nat.lt_irrefl _)
  · refine ⟨parts, fresh, ⟨before, block.seq, block.parts, extend_last before block parts fresh, ?_⟩, spelt⟩
    rw [size, reach, if_neg some_parts, Nat.add_mul, Nat.one_mul]
    omega

end Bytes

-- What is written later is read after what was there.
theorem placed_extend (blockSize : Nat) (blocks : List Block) (offset : Nat) (values : List Bytes) (placed : Placed blockSize blocks offset values)
    (parts : List Part) (fresh : List Block) (added : List Bytes) (more : Spells parts fresh added) :
    Placed blockSize (extendBlocks blocks parts fresh) offset (values ++ added) := by
  obtain ⟨todo, after, ⟨before, seq, done, rfl, place⟩, spelt⟩ := placed
  obtain ⟨at_end, inside⟩ := spells_extend todo after values spelt parts fresh added more
  by_cases last : after = []
  · subst last
    refine ⟨todo ++ parts, fresh, ⟨before, seq, done, ?_, place⟩, at_end rfl⟩
    rw [extend_last, List.append_assoc]
  · refine ⟨todo, extendBlocks after parts fresh, ⟨before, seq, done, ?_, place⟩, inside last⟩
    obtain ⟨next, rest, rfl⟩ := List.exists_cons_of_ne_nil last
    clear place
    induction before with
    | nil => rfl
    | cons first others ih =>
      cases others with
      | nil => rfl
      | cons second others =>
        simp only [List.cons_append, extendBlocks] at ih ⊢
        rw [ih]

end PaxosStore.DbComm
