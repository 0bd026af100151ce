import PaxosStore.PaxosKv.PropNum
import PaxosStore.Codec.Bytes

set_option autoImplicit false

namespace PaxosStore.Certain

open PaxosStore.PaxosKv PaxosStore.Codec

structure SharedLimiter where
  maxTotalSize : Nat
  currTotalSize : Nat
deriving DecidableEq, Repr

namespace SharedLimiter

def allocBytes (l : SharedLimiter) (n : Nat) : Bool × SharedLimiter :=
  if l.currTotalSize + n > l.maxTotalSize then (false, l) else (true, { l with currTotalSize := l.currTotalSize + n })

def freeBytes (l : SharedLimiter) (n : Nat) : Option SharedLimiter :=
  asserting (l.currTotalSize ≥ n) (some { l with currTotalSize := l.currTotalSize - n })

end SharedLimiter

structure CapacityLimiter where
  maxCapacity : Nat
  currCapacity : Nat := 0
deriving DecidableEq, Repr

namespace CapacityLimiter

def allocBytes (l : CapacityLimiter) (shared : SharedLimiter) (n : Nat) : Bool × CapacityLimiter × SharedLimiter :=
  if l.currCapacity + n > l.maxCapacity then (false, l, shared)
  else if (shared.allocBytes n).1 then (true, { l with currCapacity := l.currCapacity + n }, (shared.allocBytes n).2)
  else (false, l, (shared.allocBytes n).2)

def freeBytes (l : CapacityLimiter) (shared : SharedLimiter) (n : Nat) : Option (CapacityLimiter × SharedLimiter) :=
  if n ≠ 0 then
    asserting (l.currCapacity ≥ n)
      ((shared.freeBytes n).map fun shared => ({ l with currCapacity := l.currCapacity - n }, shared))
  else some (l, shared)

end CapacityLimiter

-- `ioVec` is the place in the array of iovecs that io_vec points to.
structure WriteItem where
  rawData : Codec.Bytes
  len : Nat
  offset : Nat := 0
  ioVec : Option Nat := none
deriving DecidableEq, Repr

-- iov_base points `base` bytes into `data`.
structure IoVec where
  data : Codec.Bytes
  base : Nat
  len : Nat
deriving DecidableEq, Repr

abbrev WriteItemList := List WriteItem

namespace WriteItemList

def addWriteItem (items : WriteItemList) (rawData : Codec.Bytes) (len : Nat) : WriteItemList := items ++ [{ rawData := rawData, len := wrap32 len }]

def getLoop : Nat → WriteItemList → List IoVec → WriteItemList × List IoVec
  | 0, items, vecs => (items, vecs)
  | _ + 1, [], vecs => ([], vecs)
  | left + 1, item :: rest, vecs =>
      if item.ioVec.isSome then (item :: rest, vecs)
      else
        getLoop left (rest ++ [{ item with ioVec := some vecs.length }])
          (vecs ++ [{ data := item.rawData, base := item.offset, len := sub32 item.len item.offset }])

def getFirstNIterms (items : WriteItemList) (n : Nat) : WriteItemList × List IoVec := getLoop n items []

-- Every round takes one item with an iovec from the back.
def cleanLoop (vecs : List IoVec) : Nat → WriteItemList → Bool → Nat → Option (WriteItemList × Nat)
  | 0, items, _, free => some (items, free)
  | left + 1, items, done, free =>
      match items.getLast? with
      | none => some (items, free)
      | some item =>
          match item.ioVec with
          | none => some (items, free)
          | some place =>
              vecs[place]?.bind fun vec =>
                asserting (vec.base + vec.len = item.len)
                  (asserting (vec.len ≤ item.len)
                    (if vec.len = 0 then cleanLoop vecs left items.dropLast true (free + item.len)
                    else
                      asserting (done = false)
                        (cleanLoop vecs left ({ item with offset := item.len - vec.len, ioVec := none } :: items.dropLast) done free)))

def cleanWrittenItems (items : WriteItemList) (vecs : List IoVec) : Option (WriteItemList × Nat) :=
  cleanLoop vecs items.length items false 0

def freeAllWriteItems (items : WriteItemList) : WriteItemList × Nat := ([], (items.map WriteItem.len).sum)

end WriteItemList

end PaxosStore.Certain
