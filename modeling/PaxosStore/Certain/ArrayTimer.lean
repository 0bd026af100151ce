import PaxosStore.PaxosKv.PropNum
import PaxosStore.Codec.Bytes
import Mathlib.Logic.Function.Basic

set_option autoImplicit false

namespace PaxosStore.Certain

open PaxosStore.PaxosKv PaxosStore.Codec

-- An element is in a list when both pointers of its timer_list_entry are set.
structure EltEntry where
  index : Nat := 0
  linked : Bool := false
deriving DecidableEq, Repr

def kReadyListIndex : Nat := 2 ^ 32 - 1

-- A LIGHTLIST is written from its first to its last element.
structure ArrayTimer (α : Type) where
  timerCnt : Nat
  readyCnt : Nat
  maxTimeoutMsec : Nat
  currIndex : Nat
  currTimeMsec : Nat
  timerList : Nat → List α
  readyList : List α
  timerEntry : α → EltEntry

namespace ArrayTimer

variable {α : Type}

def create (maxTimeoutMsec now : Nat) : ArrayTimer α :=
  { timerCnt := 0, readyCnt := 0, maxTimeoutMsec := maxTimeoutMsec, currIndex := 0, currTimeMsec := now
    timerList := fun _ => [], readyList := [], timerEntry := fun _ => {} }

def size (s : ArrayTimer α) : Nat := wrap32 (s.timerCnt + s.readyCnt)

-- The array is cyclic; the sums are 32 bits wide.
def slotAt (s : ArrayTimer α) (ahead : Nat) : Nat :=
  let index := wrap32 (ahead + s.currIndex)
  let count := wrap32 (s.maxTimeoutMsec + 1)
  if index ≥ count then index - count else index

def exist (s : ArrayTimer α) (elt : α) : Option Bool :=
  if (s.timerEntry elt).linked then some true else asserting ((s.timerEntry elt).index = 0) (some false)

variable [DecidableEq α]

def toReadyList (s : ArrayTimer α) (index : Nat) (last : α) : ArrayTimer α :=
  { s with
    timerList := Function.update s.timerList index (s.timerList index).dropLast
    readyList := last :: s.readyList
    timerEntry := Function.update s.timerEntry last ⟨kReadyListIndex, true⟩ }

def moveTimerLoop (index : Nat) : Nat → ArrayTimer α → Nat → Option (ArrayTimer α × Nat)
  | 0, _, _ => none
  | fuel + 1, s, movedCnt =>
      match (s.timerList index).getLast? with
      | none => some (s, movedCnt)
      | some last =>
          asserting ((s.timerEntry last).index = index)
            (moveTimerLoop index fuel (s.toReadyList index last) (wrap32 (movedCnt + 1)))

def moveTimerToReadyListByIndex (s : ArrayTimer α) (index : Nat) : Option (ArrayTimer α × Nat) :=
  asserting (index ≤ s.maxTimeoutMsec) (moveTimerLoop index ((s.timerList index).length + 1) s 0)

def moveTimerFrom : Nat → Nat → Nat → Nat → ArrayTimer α → Option (ArrayTimer α × Nat × Nat)
  | 0, _, index, movedCnt, s => some (s, index, movedCnt)
  | left + 1, i, _, movedCnt, s =>
      (s.moveTimerToReadyListByIndex (s.slotAt i)).bind fun moved =>
        moveTimerFrom left (i + 1) (s.slotAt i) (wrap32 (movedCnt + moved.2)) moved.1

def turnTo (t : ArrayTimer α) (currTimeMsec index movedCnt : Nat) : ArrayTimer α :=
  { t with
    readyCnt := wrap32 (t.readyCnt + movedCnt)
    timerCnt := sub32 t.timerCnt movedCnt
    currTimeMsec := currTimeMsec
    currIndex := index }

-- The 32-bit loop counter never exceeds a range of 2^32 - 1.
def moveTimerToReadyList (s : ArrayTimer α) (now : Nat) : Option (ArrayTimer α) :=
  let currTimeMsec := if now < s.currTimeMsec then s.currTimeMsec else now
  let passed := currTimeMsec - s.currTimeMsec
  let range := if passed > s.maxTimeoutMsec then s.maxTimeoutMsec else passed
  if range < 2 ^ 32 - 1 then
    (moveTimerFrom (range + 1) 0 s.currIndex 0 s).map fun moved => moved.1.turnTo currTimeMsec moved.2.1 moved.2.2
  else none

def insertHead (s : ArrayTimer α) (index : Nat) (elt : α) : ArrayTimer α :=
  { s with
    timerEntry := Function.update s.timerEntry elt ⟨index, true⟩
    timerList := Function.update s.timerList index (elt :: s.timerList index)
    timerCnt := wrap32 (s.timerCnt + 1) }

def add (s : ArrayTimer α) (elt : α) (timeoutMsec now : Nat) : Option (Bool × ArrayTimer α) :=
  asserting (timeoutMsec ≤ s.maxTimeoutMsec)
    ((s.exist elt).bind fun present =>
      if present then some (false, s)
      else (s.moveTimerToReadyList now).map fun t => (true, t.insertHead (t.slotAt timeoutMsec) elt))

def takeFromSlot (s : ArrayTimer α) (index : Nat) (elt : α) : ArrayTimer α :=
  { s with
    timerCnt := sub32 s.timerCnt 1
    timerList := Function.update s.timerList index ((s.timerList index).erase elt)
    timerEntry := Function.update s.timerEntry elt {} }

def takeFromReady (s : ArrayTimer α) (elt : α) : ArrayTimer α :=
  { s with
    readyCnt := sub32 s.readyCnt 1
    readyList := s.readyList.erase elt
    timerEntry := Function.update s.timerEntry elt {} }

def takeOut (s : ArrayTimer α) (elt : α) : ArrayTimer α :=
  if (s.timerEntry elt).index ≠ kReadyListIndex then s.takeFromSlot (s.timerEntry elt).index elt else s.takeFromReady elt

def listOf (s : ArrayTimer α) (elt : α) : List α :=
  if (s.timerEntry elt).index ≠ kReadyListIndex then s.timerList (s.timerEntry elt).index else s.readyList

-- LIGHTLIST_REMOVE needs the list that the element is in.
def remove (s : ArrayTimer α) (elt : α) : Option (Bool × ArrayTimer α) :=
  (s.exist elt).bind fun present =>
    if present then asserting (elt ∈ s.listOf elt) (some (true, s.takeOut elt))
    else asserting ((s.timerEntry elt).index = 0) (some (false, s))

-- LIGHTLIST_LAST of an empty list is no element.
def takeTimerElt (s : ArrayTimer α) (now : Nat) : Option (Option α × ArrayTimer α) :=
  (if s.readyCnt = 0 then s.moveTimerToReadyList now else some s).bind fun t =>
    if t.readyCnt = 0 then some (none, t)
    else t.readyList.getLast?.bind fun elt =>
      (t.remove elt).bind fun removed => asserting (removed.1 = true) (some (some elt, removed.2))

end ArrayTimer

end PaxosStore.Certain
