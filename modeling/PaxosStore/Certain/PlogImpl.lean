import PaxosStore.Certain.EntryRecord
import PaxosStore.Certain.Words
import PaxosStore.Codec.BigEndian
import PaxosStore.Ordered.Scans

set_option autoImplicit false

namespace PaxosStore.Certain

open PaxosStore.Codec PaxosStore.Ordered

-- The key-value database under the plog. A write is a batch; a single put is a batch of one.
structure KvDb (S : Type) where
  empty : S
  get : S → Bytes → Option Bytes
  write : S → List (Bytes × Bytes) → S
  scan : S → List (Bytes × Bytes)

-- The last put of a key is read back, and an iterator goes through the keys in the order
-- of their bytes.
structure KvDb.Keeps {S : Type} (db : KvDb S) : Prop where
  empty : ∀ key, db.get db.empty key = none
  written : ∀ s puts key, db.get (db.write s puts) key = (latest puts key).or (db.get s key)
  sorted : ∀ s, (db.scan s).Pairwise fun a b => a.1 < b.1
  scanned : ∀ s key value, (key, value) ∈ db.scan s ↔ db.get s key = some value

-- EntryKey in the source: the numbers are stored with their highest byte first.
structure PlogKey where
  entityId : Nat
  entry : Nat
  valueId : Nat
deriving DecidableEq, Repr

namespace PlogKey

def serialize (key : PlogKey) : Bytes := bigEndian 8 key.entityId ++ (bigEndian 8 key.entry ++ bigEndian 8 key.valueId)

-- `none` is the failed assertion on the size.
def parse (slice : Bytes) : Option PlogKey :=
  if slice.length = 24 then
    some ⟨fromBigEndian (slice.take 8), fromBigEndian ((slice.drop 8).take 8), fromBigEndian (slice.drop 16)⟩
  else none

def wide (key : PlogKey) : Bool := key.entityId < 2 ^ 64 ∧ key.entry < 2 ^ 64 ∧ key.valueId < 2 ^ 64

def below (a b : PlogKey) : Prop :=
  a.entityId < b.entityId ∨ a.entityId = b.entityId ∧ (a.entry < b.entry ∨ a.entry = b.entry ∧ a.valueId < b.valueId)

instance (a b : PlogKey) : Decidable (a.below b) :=
  inferInstanceAs (Decidable (a.entityId < b.entityId ∨ a.entityId = b.entityId ∧ (a.entry < b.entry ∨ a.entry = b.entry ∧ a.valueId < b.valueId)))

end PlogKey

-- What a write of the database comes to. A failed one may have taken effect or not.
inductive KvStatus where
  | ok
  | failed (applied : Bool)
deriving DecidableEq, Repr

structure PlogRecord where
  entityId : Nat
  entry : Nat
  record : Bytes
deriving DecidableEq, Repr

-- The databases of a plog; `hash` is the hash of an entity modulo their number.
structure PlogImpl (S : Type) (count : Nat) where
  dbs : Fin count → S

namespace PlogImpl

variable {S : Type} {count : Nat} (db : KvDb S) (hash : Nat → Fin count) (s : PlogImpl S count)

def start : PlogImpl S count := ⟨fun _ => db.empty⟩

def write (hashId : Fin count) (puts : List (PlogKey × Bytes)) : KvStatus → RetCode × PlogImpl S count
  | .ok => (.ok, ⟨Function.update s.dbs hashId (db.write (s.dbs hashId) (puts.map fun put => (put.1.serialize, put.2)))⟩)
  | .failed true => (.implPlogSetErr, ⟨Function.update s.dbs hashId (db.write (s.dbs hashId) (puts.map fun put => (put.1.serialize, put.2)))⟩)
  | .failed false => (.implPlogSetErr, s)

def setValue (entityId entry valueId : Nat) (value : Bytes) (status : KvStatus) : Option (RetCode × PlogImpl S count) :=
  if 0 < valueId then some (s.write db (hash entityId) [(⟨entityId, entry, valueId⟩, value)] status) else none

def setRecord (entityId entry : Nat) (record : Bytes) (status : KvStatus) : RetCode × PlogImpl S count :=
  s.write db (hash entityId) [(⟨entityId, entry, 0⟩, record)] status

def multiSetRecords (hashId : Fin count) (records : List PlogRecord) (status : KvStatus) : RetCode × PlogImpl S count :=
  s.write db hashId (records.map fun record => (⟨record.entityId, record.entry, 0⟩, record.record)) status

-- The flag says that the database cannot read.
def read (fails : Bool) (key : PlogKey) : Except RetCode Bytes :=
  if fails then .error .implPlogGetErr
  else
    match db.get (s.dbs (hash key.entityId)) key.serialize with
    | some value => .ok value
    | none => .error .implPlogNotFound

def getValue (fails : Bool) (entityId entry valueId : Nat) : Option (Except RetCode Bytes) :=
  if 0 < valueId then some (s.read db hash fails ⟨entityId, entry, valueId⟩) else none

def getRecord (fails : Bool) (entityId entry : Nat) : Except RetCode Bytes := s.read db hash fails ⟨entityId, entry, 0⟩

-- One back from where the next entity begins.
def loadMaxEntry (entityId : Nat) : Option (Except RetCode Nat) :=
  let entries := db.scan (s.dbs (hash entityId))
  let target := (PlogKey.mk (u64 (entityId + 1)) 0 0).serialize
  let iter := Iterator.seek (fun entry => decide (entry.1 < target)) entries
  let iter := if iter.valid then iter.prev else Iterator.seekToLast entries
  match iter.current with
  | none => some (.error .implPlogNotFound)
  | some entry =>
      (PlogKey.parse entry.1).map fun key => if key.entityId = entityId then .ok key.entry else .error .implPlogNotFound

-- The loop of RangeGetRecord over what is ahead of the iterator.
def rangeLoop (entityId endEntry : Nat) : List (Bytes × Bytes) → Option (List (Nat × Bytes))
  | [] => some []
  | entry :: rest =>
      (PlogKey.parse entry.1).bind fun key =>
        if key.entry > endEntry ∨ key.entityId > entityId then some []
        else
          (rangeLoop entityId endEntry rest).map fun records =>
            if key.valueId = 0 then (key.entry, entry.2) :: records else records

def rangeGetRecord (entityId beginEntry endEntry : Nat) : Option (List (Nat × Bytes)) :=
  let target := (PlogKey.mk entityId (u64 (beginEntry + 1)) 0).serialize
  let iter := Iterator.seek (fun entry => decide (entry.1 < target)) (db.scan (s.dbs (hash entityId)))
  rangeLoop entityId endEntry iter.ahead

end PlogImpl

-- The writing calls of a plog.
inductive PlogCall (count : Nat) where
  | setValue (entityId entry valueId : Nat) (value : Bytes) (status : KvStatus)
  | setRecord (entityId entry : Nat) (record : Bytes) (status : KvStatus)
  | multiSetRecords (hashId : Fin count) (records : List PlogRecord) (status : KvStatus)
deriving DecidableEq

namespace PlogCall

variable {S : Type} {count : Nat} (db : KvDb S) (hash : Nat → Fin count)

def puts : PlogCall count → List (PlogKey × Bytes)
  | setValue entityId entry valueId value _ => [(⟨entityId, entry, valueId⟩, value)]
  | setRecord entityId entry record _ => [(⟨entityId, entry, 0⟩, record)]
  | multiSetRecords _ records _ => records.map fun record => (⟨record.entityId, record.entry, 0⟩, record.record)

def status : PlogCall count → KvStatus
  | setValue _ _ _ _ status => status
  | setRecord _ _ _ status => status
  | multiSetRecords _ _ status => status

-- What the call has written.
def applied (call : PlogCall count) : List (PlogKey × Bytes) :=
  match call.status with
  | .ok => call.puts
  | .failed true => call.puts
  | .failed false => []

-- Numbers have 64 bits, and a batch goes to the database of its records.
def fits (call : PlogCall count) : Bool :=
  call.puts.all (fun put => put.1.wide) &&
    match call with
    | multiSetRecords hashId records _ => records.all fun record => hash record.entityId = hashId
    | _ => true

def run (s : PlogImpl S count) : PlogCall count → Option (PlogImpl S count)
  | setValue entityId entry valueId value status => (s.setValue db hash entityId entry valueId value status).map (·.2)
  | setRecord entityId entry record status => some (s.setRecord db hash entityId entry record status).2
  | multiSetRecords hashId records status => some (s.multiSetRecords db hashId records status).2

def act (s : PlogImpl S count) (call : PlogCall count) : Option (PlogImpl S count) := if call.fits hash then call.run db hash s else none

end PlogCall

namespace PlogKey

theorem serialize_length (key : PlogKey) : key.serialize.length = 24 := by
  rw [serialize, List.length_append, List.length_append, big_endian_length, big_endian_length, big_endian_length]

theorem wide_bounds (key : PlogKey) (wide : key.wide = true) : key.entityId < 256 ^ 8 ∧ key.entry < 256 ^ 8 ∧ key.valueId < 256 ^ 8 :=
  of_decide_eq_true wide

-- Taking a serialized key apart gives the key back.
theorem parse_serialize (key : PlogKey) (wide : key.wide = true) : parse key.serialize = some key := by
  obtain ⟨entity, entry, value⟩ := wide_bounds key wide
  have first : key.serialize.take 8 = bigEndian 8 key.entityId := by
    rw [serialize, List.take_left' (big_endian_length 8 key.entityId)]
  have rest : key.serialize.drop 8 = bigEndian 8 key.entry ++ bigEndian 8 key.valueId := by
    rw [serialize, List.drop_left' (big_endian_length 8 key.entityId)]
  have last : key.serialize.drop 16 = bigEndian 8 key.valueId := by
    rw [show 16 = 8 + 8 from rfl, ← List.drop_drop, rest, List.drop_left' (big_endian_length 8 key.entry)]
  rw [parse, if_pos (serialize_length key), first, rest, last, List.take_left' (big_endian_length 8 key.entry), from_big_endian 8 _ entity,
    from_big_endian 8 _ entry, from_big_endian 8 _ value]

theorem serialize_inj (a b : PlogKey) (left : a.wide = true) (right : b.wide = true) (same : a.serialize = b.serialize) : a = b := by
  have parsed := parse_serialize a left
  rw [same, parse_serialize b right] at parsed
  exact (Option.some.inj parsed).symm

-- The order of the bytes is the order of the numbers.
theorem serialize_lt (a b : PlogKey) (left : a.wide = true) (right : b.wide = true) : a.serialize < b.serialize ↔ a.below b := by
  obtain ⟨entity, entry, value⟩ := wide_bounds a left
  obtain ⟨entity', entry', value'⟩ := wide_bounds b right
  have same (x y : Nat) (low : x < 256 ^ 8) (high : y < 256 ^ 8) : bigEndian 8 x = bigEndian 8 y ↔ x = y :=
    ⟨big_endian_inj 8 x y low high, fun equal => by rw [equal]⟩
  rw [serialize, serialize, append_lt _ _ _ _ ((big_endian_length 8 _).trans (big_endian_length 8 _).symm),
    append_lt _ _ _ _ ((big_endian_length 8 _).trans (big_endian_length 8 _).symm), big_endian_lt 8 _ _ entity entity',
    big_endian_lt 8 _ _ entry entry', big_endian_lt 8 _ _ value value', same _ _ entity entity', same _ _ entry entry', below]

end PlogKey

end PaxosStore.Certain
