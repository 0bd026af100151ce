import PaxosStore.Heap.Linked

set_option autoImplicit false

namespace PaxosStore.MemKv

def dictIntHashFunc (key : UInt64) : UInt32 :=
  let key := key + ~~~(key <<< 15)
  let key := key ^^^ (key >>> 10)
  let key := key + (key <<< 3)
  let key := key ^^^ (key >>> 6)
  let key := key + ~~~(key <<< 11)
  let key := key ^^^ (key >>> 16)
  key.toUInt32

-- A reference is packed into ten and twenty-two bits.
structure KeyNodePtr where
  blockId : Nat
  offset : Nat
deriving DecidableEq, Repr

def KeyNodePtr.null : KeyNodePtr := ⟨0, 0⟩

def KeyNodePtr.pack (blockId offset : Nat) : KeyNodePtr := ⟨blockId % 2 ^ 10, offset % 2 ^ 22⟩

-- Where a record lies: the data block and the offset in it.
structure Position where
  blockId : UInt16
  blockOffset : UInt32
deriving DecidableEq, Repr, Inhabited

-- The key is `none` where cKeyLen is 0; it is 8 for every key that is stored.
structure KeyNode where
  key : Option UInt64 := none
  position : Position := default
  next : KeyNodePtr := .null
deriving DecidableEq, Repr

structure KeyBlock where
  useCnt : Nat
  free : KeyNodePtr
deriving DecidableEq, Repr

-- `nodes` are the key arrays of all blocks. The three sizes are fixed by Init
-- (iSize, iMaxBlock) and by the build (MAX_OFFSET).
structure MemIdx where
  headSize : Nat
  maxBlock : Nat
  maxKeyCnt : Nat
  curBlock : Nat
  blocks : List KeyBlock
  nodes : KeyNodePtr → KeyNode
  heads : Nat → KeyNodePtr

namespace MemIdx

-- Init: no block yet, every bucket zeroed. What the shared memory of a block
-- will hold when it is created is not known.
def init (headSize maxBlock maxKeyCnt : Nat) (memory : KeyNodePtr → KeyNode) : MemIdx :=
  { headSize, maxBlock, maxKeyCnt, curBlock := 0, blocks := [], nodes := memory, heads := fun _ => .null }

def hashFunc (idx : MemIdx) (key : UInt64) : Nat := (dictIntHashFunc key).toNat % idx.headSize

-- `none` is an access outside the blocks that are attached.
def readNode (idx : MemIdx) (ptr : KeyNodePtr) : Option KeyNode :=
  if ptr.blockId < idx.blocks.length ∧ ptr.offset < idx.maxKeyCnt then some (idx.nodes ptr) else none

def writeNode (idx : MemIdx) (ptr : KeyNodePtr) (node : KeyNode) : Option MemIdx :=
  if ptr.blockId < idx.blocks.length ∧ ptr.offset < idx.maxKeyCnt then
    some { idx with nodes := Function.update idx.nodes ptr node }
  else none

def setNext (idx : MemIdx) (ptr next : KeyNodePtr) : Option MemIdx :=
  (idx.readNode ptr).bind fun node => idx.writeNode ptr { node with next := next }

def memCpy (idx : MemIdx) (ptr : KeyNodePtr) (key : UInt64) (position : Position) : Option MemIdx :=
  (idx.readNode ptr).bind fun node => idx.writeNode ptr { node with key := some key, position := position }

-- The last node keeps the key length it had.
def freshNode (idx : MemIdx) (blockId : Nat) (ptr : KeyNodePtr) : KeyNode :=
  if ptr.blockId ≠ blockId ∨ idx.maxKeyCnt ≤ ptr.offset then idx.nodes ptr
  else if ptr.offset + 1 = idx.maxKeyCnt then { idx.nodes ptr with next := .null }
  else if ptr.offset = 0 then { idx.nodes ptr with key := none, next := .null }
  else { idx.nodes ptr with key := none, next := .pack blockId (ptr.offset + 1) }

def initBlock (idx : MemIdx) : MemIdx :=
  { idx with
    nodes := idx.freshNode idx.blocks.length
    blocks := idx.blocks ++ [⟨0, .pack idx.blocks.length 1⟩] }

-- `shm` says whether the shared memory of a new block could be had.
def allocBlock (idx : MemIdx) (shm : Bool) : Int × MemIdx :=
  if idx.blocks.length + 1 > idx.maxBlock then (-1, idx)
  else if shm = false then (-1, idx)
  else (idx.blocks.length, idx.initBlock)

def blockAlloc (idx : MemIdx) (blockId : Nat) : Option (KeyNodePtr × MemIdx) :=
  (idx.blocks[blockId]?).bind fun block =>
    if block.free = .null then some (.null, idx)
    else
      (idx.readNode block.free).map fun node =>
        (block.free, { idx with blocks := idx.blocks.set blockId { useCnt := block.useCnt + 1, free := node.next } })

-- One turn over all blocks, from `blockId` on.
def searchBlocks (idx : MemIdx) : Nat → Nat → Option (KeyNodePtr × MemIdx)
  | 0, _ => some (.null, idx)
  | turns + 1, blockId =>
      let blockId := if blockId ≥ idx.blocks.length then 0 else blockId
      (idx.blockAlloc blockId).bind fun (ptr, after) =>
        if ptr = .null then idx.searchBlocks turns (blockId + 1) else some (ptr, { after with curBlock := blockId })

def allocLoop (shm : Bool) : Nat → MemIdx → Option (KeyNodePtr × MemIdx)
  | 0, _ => none
  | rounds + 1, idx =>
      (idx.searchBlocks idx.blocks.length idx.curBlock).bind fun (ptr, after) =>
        if ptr ≠ .null then some (ptr, after)
        else if idx.blocks.length + 1 > idx.maxBlock then some (.null, idx)
        else if shm = false then some (.null, idx)
        else allocLoop shm rounds { idx.initBlock with curBlock := idx.blocks.length }

-- A block just initialised has a free node, so that the loop takes two rounds.
def alloc (idx : MemIdx) (shm : Bool) : Option (KeyNodePtr × MemIdx) := allocLoop shm 2 idx

def free (idx : MemIdx) (ptr : KeyNodePtr) : Option MemIdx :=
  (idx.blocks[ptr.blockId]?).bind fun block =>
    (idx.readNode ptr).bind fun node =>
      (idx.writeNode ptr { node with key := none, next := block.free }).map fun after =>
        { after with blocks := after.blocks.set ptr.blockId { useCnt := block.useCnt - 1, free := ptr } }

-- More steps than there are nodes mean that the list never ends.
def steps (idx : MemIdx) : Nat := idx.blocks.length * idx.maxKeyCnt + 1

def listFindLoop (idx : MemIdx) (key : UInt64) : Nat → KeyNodePtr → Option KeyNodePtr
  | 0, _ => none
  | left + 1, ptr =>
      if ptr = .null then some .null
      else (idx.readNode ptr).bind fun node => if node.key = some key then some ptr else idx.listFindLoop key left node.next

def listFind (idx : MemIdx) (key : UInt64) (head : KeyNodePtr) : Option KeyNodePtr := idx.listFindLoop key idx.steps head

def listDelLoop (idx : MemIdx) (key : UInt64) : Nat → KeyNodePtr → KeyNodePtr → Option (KeyNodePtr × MemIdx)
  | 0, _, _ => none
  | left + 1, prev, ptr =>
      if ptr = .null then some (.null, idx)
      else
        (idx.readNode ptr).bind fun node =>
          if node.key = some key then (idx.setNext prev node.next).map fun after => (ptr, after)
          else idx.listDelLoop key left ptr node.next

def listDel (idx : MemIdx) (key : UInt64) (head : KeyNodePtr) : Option (KeyNodePtr × MemIdx) :=
  idx.listDelLoop key idx.steps head head

def allocFor (idx : MemIdx) (shm : Bool) : Option Nat → Option (KeyNodePtr × MemIdx)
  | none => idx.alloc shm
  | some blockId => idx.blockAlloc blockId

-- The node is taken from `blockId` when one is given. The code is 1 for a new
-- key, 0 for a key that was there and -1 (Empty) when no node is left.
def set (idx : MemIdx) (blockId : Option Nat) (shm : Bool) (key : UInt64) (position : Position) : Option (Int × MemIdx) :=
  let bucket := idx.hashFunc key
  (if idx.heads bucket = .null then some .null else idx.listFind key (idx.heads bucket)).bind fun found =>
    if found ≠ .null then (idx.memCpy found key position).map fun after => (0, after)
    else
      (idx.allocFor shm blockId).bind fun (ptr, after) =>
        if ptr = .null then some (-1, after)
        else
          (after.memCpy ptr key position).bind fun copied =>
            (copied.setNext ptr (copied.heads bucket)).map fun linked =>
              (1, { linked with heads := Function.update linked.heads bucket ptr })

def get (idx : MemIdx) (key : UInt64) : Option (Option Position) :=
  let bucket := idx.hashFunc key
  if idx.heads bucket = .null then some none
  else
    (idx.listFind key (idx.heads bucket)).bind fun found =>
      if found = .null then some none else (idx.readNode found).map fun node => some node.position

def del (idx : MemIdx) (key : UInt64) : Option (Int × MemIdx) :=
  let bucket := idx.hashFunc key
  let head := idx.heads bucket
  if head = .null then some (0, idx)
  else
    (idx.readNode head).bind fun node =>
      if node.key = some key then
        ({ idx with heads := Function.update idx.heads bucket node.next }.free head).map fun after => (1, after)
      else
        (idx.listDel key head).bind fun (ptr, after) =>
          if ptr = .null then some (0, after) else (after.free ptr).map fun freed => (1, freed)

end MemIdx

end PaxosStore.MemKv
