import Mathlib.Logic.Function.Basic
import PaxosStore.Certain.Words

set_option autoImplicit false

namespace PaxosStore.Certain

-- What the queue's functions return: 0 or one of the kUtils codes.
inductive QueueCode where
  | ok
  | invalidArgs
  | queueEmpty
  | queueConflict
  | queueFull
deriving DecidableEq, Repr

-- Where a call of PushByMultiThread is, by the next atomic step. `seen` is a history
-- variable: how many exchanges had succeeded when the call read tail_.
inductive PushPoint (T : Type) where
  | idle
  | loadTail (item : T) (retryTimes : Int) (i : Nat)
  | loadHead (item : T) (retryTimes : Int) (i t seen : Nat)
  | exchange (item : T) (retryTimes : Int) (i t h seen : Nat)
  | swap (item : T) (h : Nat)
  | returned (given left : Option T) (code : QueueCode)
deriving DecidableEq, Repr

inductive PopPoint (T : Type) where
  | idle
  | loadTail
  | loadHead (t : Nat)
  | look (t : Nat)
  | take (t : Nat)
  | addTail (item : Option T)
  | returned (item : Option T) (code : QueueCode)
deriving DecidableEq, Repr

-- head_ and tail_ are 64 bits wide. `reserved` and `popped` are history: the items of the
-- exchanges that succeeded and the items taken out of their slots, in this order.
structure LockFreeQueue (T : Type) where
  capacity : Nat
  head : Nat
  tail : Nat
  items : Nat → Option T
  pushes : Nat → PushPoint T
  pop : PopPoint T
  reserved : List T
  popped : List T

namespace LockFreeQueue

variable {T : Type}

def create (capacity : Nat) : LockFreeQueue T := ⟨capacity, 0, 0, fun _ => none, fun _ => .idle, .idle, [], []⟩

def setPush (q : LockFreeQueue T) (k : Nat) (point : PushPoint T) : LockFreeQueue T :=
  { q with pushes := Function.update q.pushes k point }

-- The condition of the for loop.
def turn (item : T) (retryTimes : Int) (i : Nat) : PushPoint T :=
  if (i : Int) < retryTimes ∨ retryTimes = -1 then .loadTail item retryTimes i
  else .returned (some item) (some item) .queueConflict

def firstTurn (item : Option T) (retryTimes : Int) : PushPoint T :=
  match item with
  | none => .returned none none .invalidArgs
  | some item => turn item retryTimes 0

def callPush (q : LockFreeQueue T) (k : Nat) (item : Option T) (retryTimes : Int) : Option (LockFreeQueue T) :=
  match q.pushes k with
  | .idle => some (q.setPush k (firstTurn item retryTimes))
  | .returned _ _ _ => some (q.setPush k (firstTurn item retryTimes))
  | _ => none

def pushStep (q : LockFreeQueue T) (k : Nat) : Option (LockFreeQueue T) :=
  match q.pushes k with
  | .loadTail item retryTimes i => some (q.setPush k (.loadHead item retryTimes i q.tail q.reserved.length))
  | .loadHead item retryTimes i t seen =>
      if sub64 q.head t ≥ q.capacity then some (q.setPush k (.returned (some item) (some item) .queueFull))
      else some (q.setPush k (.exchange item retryTimes i t q.head seen))
  | .exchange item retryTimes i _ h _ =>
      if q.head = h then some { q.setPush k (.swap item h) with head := u64 (h + 1), reserved := q.reserved ++ [item] }
      else some (q.setPush k (turn item retryTimes (i + 1)))
  | .swap item h =>
      some { q.setPush k (.returned (some item) (q.items (h % q.capacity)) .ok) with
        items := Function.update q.items (h % q.capacity) (some item) }
  | _ => none

def callPop (q : LockFreeQueue T) : Option (LockFreeQueue T) :=
  match q.pop with
  | .idle => some { q with pop := .loadTail }
  | .returned _ _ => some { q with pop := .loadTail }
  | _ => none

def popStep (q : LockFreeQueue T) : Option (LockFreeQueue T) :=
  match q.pop with
  | .loadTail => some { q with pop := .loadHead q.tail }
  | .loadHead t => some { q with pop := if q.head = t then .returned none .queueEmpty else .look t }
  | .look t => some { q with pop := if q.items (t % q.capacity) = none then .returned none .queueConflict else .take t }
  | .take t =>
      some { q with
        items := Function.update q.items (t % q.capacity) none
        pop := .addTail (q.items (t % q.capacity))
        popped := q.popped ++ (q.items (t % q.capacity)).toList }
  | .addTail item => some { q with tail := u64 (q.tail + 1), pop := .returned item .ok }
  | _ => none

inductive Action (T : Type) where
  | callPush (k : Nat) (item : Option T) (retryTimes : Int)
  | push (k : Nat)
  | callPop
  | pop

def act (q : LockFreeQueue T) : Action T → Option (LockFreeQueue T)
  | .callPush k item retryTimes => q.callPush k item retryTimes
  | .push k => q.pushStep k
  | .callPop => q.callPop
  | .pop => q.popStep

-- When an exchange succeeds, none has wrapped head_ yet, or the slots go on in order where it
-- wraps and the call has not been overtaken by a whole round of the counter.
def Fits (q : LockFreeQueue T) : Action T → Prop
  | .push k => ∀ item retryTimes i t h seen, q.pushes k = .exchange item retryTimes i t h seen → q.head = h →
      q.reserved.length < 2 ^ 64 ∨ q.capacity ∣ 2 ^ 64 ∧ q.reserved.length + q.capacity < seen + 2 ^ 64
  | _ => True

-- The states of runs in which every step meets a condition on the state before it.
inductive Reached (meets : LockFreeQueue T → Action T → Prop) (capacity : Nat) : LockFreeQueue T → Prop where
  | start : Reached meets capacity (create capacity)
  | step (q r : LockFreeQueue T) (action : Action T) (before : Reached meets capacity q) (met : meets q action)
      (done : q.act action = some r) : Reached meets capacity r

end LockFreeQueue

end PaxosStore.Certain
