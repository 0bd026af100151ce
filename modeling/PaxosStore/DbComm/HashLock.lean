import Mathlib.Data.List.Sort
import PaxosStore.Locks.RwLocks

set_option autoImplicit false

namespace PaxosStore.DbComm

open PaxosStore.Locks

-- std::unique.
def unique : List Nat → List Nat
  | [] => []
  | [a] => [a]
  | a :: b :: rest => if a = b then unique (b :: rest) else a :: unique (b :: rest)

def dictIntHashFunc (key : UInt64) : UInt32 :=
  let key := key + ~~~(key <<< 15)
  let key := key ^^^ (key >>> 10)
  let key := key + (key <<< 3)
  let key := key ^^^ (key >>> 6)
  let key := key + ~~~(key <<< 11)
  let key := key ^^^ (key >>> 16)
  key.toUInt32

-- `asked` and `mode` are history: the set the object was made from and what its last call
-- locks for.
structure HashLock where
  hash : Nat
  hashVec : List Nat
  lock : Bool
  batchLock : Bool
  asked : List Nat
  mode : Mode
deriving DecidableEq, Repr

-- The three constructors. The one that takes a set leaves m_iHash as the memory was.
inductive Made where
  | single (hash : Nat)
  | batch (hashSet : List Nat) (memory : Nat)
  | logID (number : UInt64)

def Made.create (lockCount : Nat) : Made → HashLock
  | .single hash => ⟨hash, [], false, false, [], .write⟩
  | .batch hashSet memory =>
      ⟨memory, unique ((hashSet.map (· % lockCount)).insertionSort (· ≤ ·)), false, false, hashSet, .write⟩
  | .logID number => ⟨(dictIntHashFunc number).toNat, [], false, false, [], .write⟩

inductive LockCall where
  | readLock
  | writeLock
  | tryWriteLock
  | batchReadLock
  | batchWriteLock
  | batchTryWriteLock (failSet : List Nat)
deriving DecidableEq, Repr

inductive LockCode where
  | ok
  | busy
deriving DecidableEq, Repr

-- Where a thread is, by its next call of the pthread library.
inductive LockPoint where
  | rest
  | readLock
  | writeLock
  | tryWriteLock
  | batchReadLock (i : Nat)
  | batchWriteLock (i : Nat)
  | batchTryWriteLock (i : Nat) (failSet : List Nat)
  | returned (code : LockCode) (failSet : List Nat)
  | unLock
  | batchUnLock (i : Nat)
  | aborted
deriving DecidableEq, Repr

-- The locks and the threads that use them, each with at most one HashLock at a time.
structure HashBaseLock where
  lockCount : Nat
  locks : Nat → RwLock Nat
  objects : Nat → Option HashLock
  points : Nat → LockPoint

namespace HashBaseLock

def init (lockCount : Nat) : HashBaseLock := ⟨lockCount, fun _ => .free, fun _ => none, fun _ => .rest⟩

def put (b : HashBaseLock) (t : Nat) (object : Option HashLock) (point : LockPoint) : HashBaseLock :=
  { b with objects := Function.update b.objects t object, points := Function.update b.points t point }

def setLock (b : HashBaseLock) (a : Nat) (lock : RwLock Nat) : HashBaseLock := { b with locks := Function.update b.locks a lock }

def atRest : LockPoint → Bool
  | .rest => true
  | .returned _ _ => true
  | _ => false

def construct (b : HashBaseLock) (t : Nat) (made : Made) : Option HashBaseLock :=
  if b.points t = .rest ∧ b.objects t = none then some (b.put t (some (made.create b.lockCount)) .rest) else none

-- What a lock call does before it reaches the library.
def enter (o : HashLock) : LockCall → HashLock × LockPoint
  | .readLock => ({ o with lock := true, mode := .read }, .readLock)
  | .writeLock => ({ o with lock := true, mode := .write }, .writeLock)
  | .tryWriteLock => ({ o with mode := .write }, .tryWriteLock)
  | .batchReadLock => ({ o with lock := true, batchLock := true, mode := .read }, .batchReadLock 0)
  | .batchWriteLock => ({ o with lock := true, batchLock := true, mode := .write }, .batchWriteLock 0)
  | .batchTryWriteLock failSet =>
      ({ o with lock := true, batchLock := true, mode := .write }, if failSet = [] then .batchTryWriteLock 0 [] else .aborted)

def call (b : HashBaseLock) (t : Nat) (function : LockCall) : Option HashBaseLock :=
  match b.objects t with
  | none => none
  | some o =>
      if atRest (b.points t) then
        if o.lock then some (b.put t (some o) .aborted)
        else some (b.put t (some (enter o function).1) (enter o function).2)
      else none

def destruct (b : HashBaseLock) (t : Nat) : Option HashBaseLock :=
  match b.objects t with
  | none => none
  | some o =>
      if atRest (b.points t) then
        if o.lock then some (b.put t (some { o with lock := false }) (if o.batchLock then .batchUnLock o.hashVec.length else .unLock))
        else some (b.put t none .rest)
      else none

-- A pthread call that may wait: nothing happens while the lock is busy.
def waited (b : HashBaseLock) (t a : Nat) (o : HashLock) (next : LockPoint) : Attempt Nat → Option HashBaseLock
  | .acquired lock => some ((b.put t (some o) next).setLock a lock)
  | .busy => none
  | .deadlock => some (b.put t (some o) .aborted)

-- The end of BatchTryWriteLock: the vector keeps what was acquired.
def kept (hashVec failSet : List Nat) : List Nat :=
  if failSet = [] then hashVec
  else if failSet.length = hashVec.length then []
  else hashVec.filter (fun a => decide (a ∉ failSet))

def step (b : HashBaseLock) (t : Nat) : Option HashBaseLock :=
  match b.objects t with
  | none => none
  | some o =>
      match b.points t with
      | .readLock => b.waited t (o.hash % b.lockCount) o (.returned .ok []) ((b.locks (o.hash % b.lockCount)).rdlock t)
      | .writeLock => b.waited t (o.hash % b.lockCount) o (.returned .ok []) ((b.locks (o.hash % b.lockCount)).wrlock t)
      | .tryWriteLock =>
          match (b.locks (o.hash % b.lockCount)).wrlock t with
          | .acquired lock => some ((b.put t (some { o with lock := true }) (.returned .ok [])).setLock (o.hash % b.lockCount) lock)
          | _ => some (b.put t (some o) (.returned .busy []))
      | .batchReadLock i =>
          match o.hashVec[i]? with
          | none => some (b.put t (some o) (.returned .ok []))
          | some a => b.waited t a o (.batchReadLock (i + 1)) ((b.locks a).rdlock t)
      | .batchWriteLock i =>
          match o.hashVec[i]? with
          | none => some (b.put t (some o) (.returned .ok []))
          | some a => b.waited t a o (.batchWriteLock (i + 1)) ((b.locks a).wrlock t)
      | .batchTryWriteLock i failSet =>
          match o.hashVec[i]? with
          | none => some (b.put t (some { o with hashVec := kept o.hashVec failSet }) (.returned .ok failSet))
          | some a =>
              match (b.locks a).wrlock t with
              | .acquired lock => some ((b.put t (some o) (.batchTryWriteLock (i + 1) failSet)).setLock a lock)
              | _ => some (b.put t (some o) (.batchTryWriteLock (i + 1) (failSet.insert a)))
      | .unLock =>
          match (b.locks (o.hash % b.lockCount)).unlock t with
          | some lock => some ((b.put t none .rest).setLock (o.hash % b.lockCount) lock)
          | none => some (b.put t (some o) .aborted)
      | .batchUnLock 0 => some (b.put t none .rest)
      | .batchUnLock (i + 1) =>
          match o.hashVec[i]? with
          | none => some (b.put t (some o) .aborted)
          | some a =>
              match (b.locks a).unlock t with
              | some lock => some ((b.put t (some o) (.batchUnLock i)).setLock a lock)
              | none => some (b.put t (some o) .aborted)
      | _ => none

inductive Action where
  | construct (t : Nat) (made : Made)
  | call (t : Nat) (function : LockCall)
  | step (t : Nat)
  | destruct (t : Nat)

def act (b : HashBaseLock) : Action → Option HashBaseLock
  | .construct t made => b.construct t made
  | .call t function => b.call t function
  | .step t => b.step t
  | .destruct t => b.destruct t

-- What the assertions ask of the caller: an object that has locked is not locked again, and
-- the set that takes the failures comes empty.
def Fits (b : HashBaseLock) : Action → Prop
  | .call t function => (∀ o, b.objects t = some o → o.lock = false) ∧ ∀ failSet, function = .batchTryWriteLock failSet → failSet = []
  | _ => True

inductive Reached (lockCount : Nat) : HashBaseLock → Prop where
  | start : Reached lockCount (init lockCount)
  | act (b c : HashBaseLock) (action : Action) (before : Reached lockCount b) (fits : Fits b action) (done : b.act action = some c) :
      Reached lockCount c

-- The locks a thread has, by where it is.
def heldAt (lockCount : Nat) (o : HashLock) : LockPoint → List Nat
  | .readLock => []
  | .writeLock => []
  | .tryWriteLock => []
  | .batchReadLock i => o.hashVec.take i
  | .batchWriteLock i => o.hashVec.take i
  | .batchTryWriteLock i failSet => (o.hashVec.take i).filter (fun a => decide (a ∉ failSet))
  | .unLock => [o.hash % lockCount]
  | .batchUnLock i => o.hashVec.take i
  | _ => if o.lock then (if o.batchLock then o.hashVec else [o.hash % lockCount]) else []

def Holds (b : HashBaseLock) (t a : Nat) (mode : Mode) : Prop :=
  ∃ o, b.objects t = some o ∧ a ∈ heldAt b.lockCount o (b.points t) ∧ o.mode = mode

end HashBaseLock

end PaxosStore.DbComm
