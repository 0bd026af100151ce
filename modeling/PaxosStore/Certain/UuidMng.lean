import Mathlib.Data.Finset.Card
import Mathlib.Data.Finset.Dedup
import Mathlib.Logic.Function.Basic
import PaxosStore.Certain.LruTable

set_option autoImplicit false

namespace PaxosStore.Certain

-- Hash of the eight bytes of a uint64_t, low word first.
def hashStep (h : UInt32) (word : Nat) : UInt32 :=
  let h := (h + UInt32.ofNat word) * 0xc6a4a793
  h ^^^ (h >>> 16)

def hash (data : Nat) : Nat :=
  let seed : UInt32 := 20141208 ^^^ (8 * 0xc6a4a793)
  (hashStep (hashStep seed (data % 2 ^ 32)) (data / 2 ^ 32 % 2 ^ 32)).toNat

namespace UuidMng

def kMaxMemUuidNum : Nat := 2000000

def kShardNum : Nat := 1024

def limit : Nat := kMaxMemUuidNum / kShardNum

def shardOf (entityId : Nat) : Nat := hash entityId % kShardNum

-- uint32_t
def seconds (reading : Nat) : Nat := reading % 2 ^ 32

-- The loop of CheckTimeout, which takes an element with every turn.
def trim (now : Nat) : Nat → LruTable Nat Nat → LruTable Nat Nat
  | 0, t => t
  | fuel + 1, t =>
      match t.peekOldest with
      | none => t
      | some (uuid, timeout) => if timeout ≤ now ∨ t.size > limit then trim now fuel (t.remove uuid).2 else t

def checkTimeout (t : LruTable Nat Nat) (reading : Nat) : LruTable Nat Nat := trim (seconds reading) t.size t

end UuidMng

structure UuidMng where
  shards : Nat → LruTable Nat Nat

namespace UuidMng

def start : UuidMng := ⟨fun _ => .create 1024 false⟩

def exist (m : UuidMng) (entityId uuid reading : Nat) : Bool × UuidMng :=
  let table := checkTimeout (m.shards (shardOf entityId)) reading
  ((table.find uuid).isSome, ⟨Function.update m.shards (shardOf entityId) table⟩)

-- The clock is read once in CheckTimeout and once for the new element.
def add (m : UuidMng) (entityId uuid reading again : Nat) : Option UuidMng :=
  ((checkTimeout (m.shards (shardOf entityId)) reading).add uuid (seconds (again + 60))).map fun (_, table) =>
    ⟨Function.update m.shards (shardOf entityId) table⟩

inductive Call where
  | add (entityId uuid reading again : Nat)
  | exist (entityId uuid reading : Nat)
deriving DecidableEq, Repr

-- What a sequence of calls, newest first, leaves.
def after : List Call → Option UuidMng
  | [] => some start
  | .add entityId uuid reading again :: earlier => (after earlier).bind fun m => m.add entityId uuid reading again
  | .exist entityId uuid reading :: earlier => (after earlier).map fun m => (m.exist entityId uuid reading).2

def answer (earlier : List Call) (entityId uuid reading : Nat) : Option Bool :=
  (after earlier).map fun m => (m.exist entityId uuid reading).1

-- The clock does not go back in the calls and reads `now` after them.
def Clocked : List Call → Nat → Prop
  | [], _ => True
  | .add _ _ reading again :: earlier, now => Clocked earlier reading ∧ reading ≤ again ∧ again ≤ now
  | .exist _ _ reading :: earlier, now => Clocked earlier reading ∧ reading ≤ now

structure Added where
  entityId : Nat
  uuid : Nat
  time : Nat
deriving DecidableEq, Repr

-- The additions to a shard, newest first.
def additions (shard : Nat) : List Call → List Added
  | [] => []
  | .add entityId uuid _ again :: earlier =>
      if shardOf entityId = shard then ⟨entityId, uuid, again⟩ :: additions shard earlier else additions shard earlier
  | .exist _ _ _ :: earlier => additions shard earlier

-- What the table would be without limit and timeout.
def recency : List Added → List (Nat × Nat)
  | [] => []
  | added :: earlier => (added.uuid, added.time + 60) :: LruTable.others (recency earlier) added.uuid

theorem recency_mem (history : List Added) (elt : Nat × Nat) (member : elt ∈ recency history) :
    ∃ added ∈ history, elt = (added.uuid, added.time + 60) := by
  induction history with
  | nil => cases member
  | cons added earlier ih =>
    rcases List.mem_cons.mp member with same | older
    · exact ⟨added, List.mem_cons_self, same⟩
    · obtain ⟨other, known, same⟩ := ih (List.mem_of_mem_filter older)
      exact ⟨other, List.mem_cons_of_mem _ known, same⟩

def Sorted (elts : List (Nat × Nat)) : Prop := elts.Pairwise fun a b => b.2 ≤ a.2

structure Timed (history : List Added) (now : Nat) : Prop where
  sorted : history.Pairwise fun a b => b.time ≤ a.time
  past : ∀ added ∈ history, added.time ≤ now

theorem recency_sorted (history : List Added) (sorted : history.Pairwise fun a b => b.time ≤ a.time) : Sorted (recency history) := by
  induction history with
  | nil => exact List.Pairwise.nil
  | cons added earlier ih =>
    obtain ⟨first, later⟩ := List.pairwise_cons.mp sorted
    refine List.pairwise_cons.mpr ⟨fun elt member => ?_, (ih later).filter _⟩
    obtain ⟨other, known, rfl⟩ := recency_mem earlier elt (List.mem_of_mem_filter member)
    exact Nat.add_le_add_right (first other known) 60

theorem timed_later (history : List Added) (now later : Nat) (timed : Timed history now) (grown : now ≤ later) : Timed history later :=
  ⟨timed.sorted, fun added member => Nat.le_trans (timed.past added member) grown⟩

theorem additions_timed (shard : Nat) (calls : List Call) (now : Nat) (clocked : Clocked calls now) :
    Timed (additions shard calls) now := by
  induction calls generalizing now with
  | nil => exact ⟨List.Pairwise.nil, nofun⟩
  | cons call earlier ih =>
    cases call with
    | exist entityId uuid reading => exact timed_later _ reading now (ih reading clocked.1) clocked.2
    | add entityId uuid reading again =>
      obtain ⟨before, onward, past⟩ := clocked
      have timed := ih reading before
      rw [additions]
      split
      · refine ⟨List.pairwise_cons.mpr ⟨fun other member => ?_, timed.sorted⟩, fun other member => ?_⟩
        · exact Nat.le_trans (timed.past other member) onward
        · rcases List.mem_cons.mp member with rfl | older
          · exact past
          · exact Nat.le_trans (timed.past other older) (Nat.le_trans onward past)
      · exact timed_later _ reading now timed (Nat.le_trans onward past)

section Trimming

variable (now : Nat)

theorem trim_nil (fuel : Nat) (t : LruTable Nat Nat) (empty : t.elts = []) : trim now fuel t = t := by
  cases fuel with
  | zero => rfl
  | succ fuel => rw [trim, LruTable.peekOldest, empty, List.getLast?_nil]

theorem trim_step (fuel : Nat) (t : LruTable Nat Nat) (front : List (Nat × Nat)) (key value : Nat)
    (split : t.elts = front ++ [(key, value)]) :
    trim now (fuel + 1) t = if value ≤ now ∨ t.size > limit then trim now fuel (t.remove key).2 else t := by
  rw [trim, (t.oldest_removed front key value split).1]

theorem trim_plain (fuel : Nat) (t : LruTable Nat Nat) (plain : t.autoEliminate = false) : (trim now fuel t).autoEliminate = false := by
  induction fuel generalizing t with
  | zero => exact plain
  | succ fuel ih =>
    rw [trim]
    split
    · exact plain
    · split
      · exact ih _ plain
      · exact plain

theorem trim_front (fuel : Nat) (t : LruTable Nat Nat) : (trim now fuel t).elts <+: t.elts := by
  induction fuel generalizing t with
  | zero => exact List.prefix_rfl
  | succ fuel ih =>
    rcases List.eq_nil_or_concat t.elts with empty | ⟨front, ⟨key, value⟩, split⟩
    · rw [trim_nil now (fuel + 1) t empty]
    · rw [List.concat_eq_append] at split
      rw [trim_step now fuel t front key value split]
      by_cases old : value ≤ now ∨ t.size > limit
      · rw [if_pos old]
        have shorter := ih (t.remove key).2
        rw [(t.oldest_removed front key value split).2.2] at shorter
        rw [split]
        exact shorter.trans (List.prefix_append _ _)
      · rw [if_neg old]

-- An element that is in time and has fewer than the limit before it stays.
theorem trim_keeps (fuel : Nat) (t : LruTable Nat Nat) (front : List (Nat × Nat)) (elt : Nat × Nat) (rest : List (Nat × Nat))
    (split : t.elts = front ++ elt :: rest) (short : front.length < limit) (fresh : now < elt.2) : elt ∈ (trim now fuel t).elts := by
  induction fuel generalizing t rest with
  | zero =>
    rw [trim, split]
    exact List.mem_append_right _ List.mem_cons_self
  | succ fuel ih =>
    rcases List.eq_nil_or_concat rest with rfl | ⟨middle, ⟨key, value⟩, rfl⟩
    · rw [trim_step now fuel t front elt.1 elt.2 split, if_neg]
      · rw [split]
        exact List.mem_append_right _ List.mem_cons_self
      · rw [LruTable.size, split, List.length_append, List.length_singleton]
        omega
    · rw [List.concat_eq_append, ← List.cons_append, ← List.append_assoc] at split
      rw [trim_step now fuel t _ key value split]
      split
      · refine ih (t.remove key).2 middle ?_
        exact (t.oldest_removed _ key value split).2.2
      · rw [split]
        exact List.mem_append_left _ (List.mem_append_right _ List.mem_cons_self)

theorem trim_fresh (fuel : Nat) (t : LruTable Nat Nat) (sorted : Sorted t.elts) (enough : t.size ≤ fuel) :
    (trim now fuel t).size ≤ limit ∧ ∀ elt ∈ (trim now fuel t).elts, now < elt.2 := by
  induction fuel generalizing t with
  | zero =>
    have empty : t.elts = [] := List.eq_nil_of_length_eq_zero (Nat.le_zero.mp enough)
    rw [trim, LruTable.size, empty]
    exact ⟨Nat.zero_le _, nofun⟩
  | succ fuel ih =>
    rcases List.eq_nil_or_concat t.elts with empty | ⟨front, ⟨key, value⟩, split⟩
    · rw [trim_nil now (fuel + 1) t empty, LruTable.size, empty]
      exact ⟨Nat.zero_le _, nofun⟩
    · rw [List.concat_eq_append] at split
      have ordered := sorted
      rw [Sorted, split] at ordered
      obtain ⟨front_sorted, -, last⟩ := List.pairwise_append.mp ordered
      rw [trim_step now fuel t front key value split]
      by_cases old : value ≤ now ∨ t.size > limit
      · rw [if_pos old]
        have left := (t.oldest_removed front key value split).2.2
        refine ih (t.remove key).2 ?_ ?_
        · rw [left]
          exact front_sorted
        · rw [LruTable.size, left]
          rw [LruTable.size, split, List.length_append, List.length_singleton] at enough
          exact Nat.le_of_succ_le_succ enough
      · rw [if_neg old]
        refine ⟨by omega, fun elt member => ?_⟩
        rw [split] at member
        rcases List.mem_append.mp member with earlier | final
        · have bound := last elt earlier (key, value) (List.mem_singleton.mpr rfl)
          dsimp only at bound
          omega
        · rw [List.mem_singleton.mp final]
          dsimp only
          omega

end Trimming

-- The table of a shard is the head of what was added to it: nothing that is in time and
-- within the limit is missing.
structure Mirrors (history : List Added) (now : Nat) (t : LruTable Nat Nat) : Prop where
  plain : t.autoEliminate = false
  front : t.elts <+: recency history
  kept : ∀ front elt rest, recency history = front ++ elt :: rest → front.length < limit → now < elt.2 → elt ∈ t.elts

theorem mirrors_later (history : List Added) (now later : Nat) (t : LruTable Nat Nat) (mirrors : Mirrors history now t)
    (grown : now ≤ later) : Mirrors history later t :=
  ⟨mirrors.plain, mirrors.front, fun front elt rest split short fresh =>
    mirrors.kept front elt rest split short (Nat.lt_of_le_of_lt grown fresh)⟩

theorem seconds_small (reading : Nat) (small : reading < 2 ^ 32) : seconds reading = reading := Nat.mod_eq_of_lt small

theorem recency_once (history : List Added) : ((recency history).map Prod.fst).Nodup := by
  induction history with
  | nil => exact List.nodup_nil
  | cons added earlier ih =>
    exact List.nodup_cons.mpr ⟨LruTable.key_not_in_others _ _, ih.sublist (LruTable.others_sublist _ _)⟩

-- An element of a front part stands there where it stands in the whole.
theorem front_split {A : Type} (l later front rest : List A) (elt : A) (once : (l ++ later).Nodup)
    (split : l ++ later = front ++ elt :: rest) (member : elt ∈ l) : ∃ tail, l = front ++ elt :: tail := by
  have apart : elt ∉ later := fun there => (List.nodup_append.mp once).2.2 elt member elt there rfl
  rcases List.append_eq_append_iff.mp split with ⟨middle, -, tail⟩ | ⟨middle, whole, tail⟩
  · exact absurd (by rw [tail]; exact List.mem_append_right _ List.mem_cons_self) apart
  · cases middle with
    | nil => exact absurd (by rw [← List.nil_append later, ← tail]; exact List.mem_cons_self) apart
    | cons first middle =>
      injection tail with same
      exact ⟨middle, by rw [whole, same]⟩

theorem mirrors_checked (history : List Added) (now : Nat) (t : LruTable Nat Nat) (mirrors : Mirrors history now t)
    (timed : Timed history now) (small : now < 2 ^ 32) :
    Mirrors history now (checkTimeout t now) ∧ (checkTimeout t now).size ≤ limit ∧ ∀ elt ∈ (checkTimeout t now).elts, now < elt.2 := by
  rw [checkTimeout, seconds_small now small]
  obtain ⟨later, whole⟩ := mirrors.front
  have sorted : Sorted t.elts := (recency_sorted history timed.sorted).sublist mirrors.front.sublist
  have trimmed := trim_fresh now t.size t sorted (Nat.le_refl _)
  refine ⟨⟨trim_plain now _ t mirrors.plain, (trim_front now _ t).trans mirrors.front, fun front elt rest split short fresh => ?_⟩,
    trimmed.1, trimmed.2⟩
  have member := mirrors.kept front elt rest split short fresh
  have once : (t.elts ++ later).Nodup := by
    rw [whole]
    exact (recency_once history).of_map
  obtain ⟨tail, place⟩ := front_split t.elts later front rest elt once (whole.trans split) member
  exact trim_keeps now t.size t front elt tail place short fresh

theorem mirrors_put (history : List Added) (now : Nat) (t : LruTable Nat Nat) (mirrors : Mirrors history now t)
    (entityId uuid time later : Nat) (grown : now ≤ later) :
    Mirrors (⟨entityId, uuid, time⟩ :: history) later (t.put uuid (time + 60)) := by
  refine ⟨mirrors.plain, List.cons_prefix_cons.mpr ⟨rfl, mirrors.front.filter _⟩, fun front elt rest split short fresh => ?_⟩
  cases front with
  | nil =>
    injection split with same
    rw [← same]
    exact List.mem_cons_self
  | cons first front =>
    injection split with same others
    obtain ⟨before, from_, whole, kept, last⟩ := List.filter_eq_append_iff.mp others
    obtain ⟨skipped, after, more, skips, passes, -⟩ := List.filter_eq_cons_iff.mp last
    subst more
    have once : ((before ++ skipped).map Prod.fst).Nodup := by
      have all := recency_once history
      rw [whole, ← List.append_assoc, List.map_append] at all
      exact all.of_append_left
    have count := LruTable.others_length (before ++ skipped) uuid once
    have none_left : LruTable.others skipped uuid = [] := List.filter_eq_nil_iff.mpr skips
    rw [LruTable.others, List.filter_append, ← LruTable.others, ← LruTable.others, none_left, List.append_nil, LruTable.others, kept] at count
    refine List.mem_cons_of_mem _ (List.mem_filter.mpr ⟨?_, passes⟩)
    refine mirrors.kept (before ++ skipped) elt after (by rw [whole, List.append_assoc]) ?_ (Nat.lt_of_le_of_lt grown fresh)
    rw [List.length_cons] at short
    omega

-- How many uuids were added.
def uuidsOf (since : List Added) : Nat := (since.map Added.uuid).toFinset.card

theorem recency_keys (history : List Added) (uuid : Nat) : uuid ∈ (recency history).map Prod.fst ↔ uuid ∈ history.map Added.uuid := by
  induction history with
  | nil => rfl
  | cons added earlier ih =>
    rw [recency, List.map_cons, List.mem_cons, List.map_cons, List.mem_cons, ← ih]
    refine or_congr_right' fun other => ?_
    rw [LruTable.others, List.mem_map, List.mem_map]
    constructor
    · rintro ⟨elt, kept, same⟩
      exact ⟨elt, List.mem_of_mem_filter kept, same⟩
    · rintro ⟨elt, member, same⟩
      exact ⟨elt, List.mem_filter.mpr ⟨member, decide_eq_true (by rw [same]; exact other)⟩, same⟩

theorem recency_length (history : List Added) : (recency history).length = uuidsOf history := by
  have keys : ((recency history).map Prod.fst).toFinset = (history.map Added.uuid).toFinset := by
    ext uuid
    rw [List.mem_toFinset, List.mem_toFinset, recency_keys]
  rw [uuidsOf, ← keys, List.toFinset_card_of_nodup (recency_once history), List.length_map]

theorem recency_append (since earlier : List Added) :
    recency (since ++ earlier) = recency since ++ (recency earlier).filter fun elt => elt.1 ∉ since.map Added.uuid := by
  induction since with
  | nil => simp [recency]
  | cons added since ih =>
    rw [List.cons_append, recency, ih, recency, LruTable.others, List.filter_append, List.filter_filter, List.cons_append, LruTable.others]
    congr 2
    refine List.filter_congr fun elt _ => ?_
    simp [List.mem_map]

-- The last addition of the uuid is in time, and fewer uuids than the limit came after it.
def Remembered (history : List Added) (uuid now : Nat) : Prop :=
  ∃ since added earlier, history = since ++ added :: earlier ∧ added.uuid = uuid ∧ uuid ∉ since.map Added.uuid ∧
    now < added.time + 60 ∧ uuidsOf since < limit

theorem last_added (history : List Added) (uuid : Nat) (member : uuid ∈ history.map Added.uuid) :
    ∃ since added earlier, history = since ++ added :: earlier ∧ added.uuid = uuid ∧ uuid ∉ since.map Added.uuid := by
  obtain ⟨front, rest, split, apart⟩ := List.eq_append_cons_of_mem member
  obtain ⟨since, others, whole, fronts, rests⟩ := List.map_eq_append_iff.mp split
  obtain ⟨added, earlier, more, same, -⟩ := List.map_eq_cons_iff.mp rests
  exact ⟨since, added, earlier, by rw [whole, more], same, by rw [fronts]; exact apart⟩

theorem recency_split (since earlier : List Added) (added : Added) (apart : added.uuid ∉ since.map Added.uuid) :
    ∃ rest, recency (since ++ added :: earlier) = recency since ++ (added.uuid, added.time + 60) :: rest := by
  rw [recency_append, recency, List.filter_cons_of_pos (by simpa using apart)]
  exact ⟨_, rfl⟩

theorem checked_remembered (history : List Added) (now : Nat) (t : LruTable Nat Nat) (mirrors : Mirrors history now t)
    (timed : Timed history now) (small : now < 2 ^ 32) (uuid : Nat) :
    ((checkTimeout t now).find uuid).isSome = true ↔ Remembered history uuid now := by
  obtain ⟨checked, short, fresh⟩ := mirrors_checked history now t mirrors timed small
  rw [LruTable.find_is_some]
  constructor
  · intro member
    obtain ⟨elt, there, rfl⟩ := List.mem_map.mp member
    have known := checked.front.subset there
    obtain ⟨since, added, earlier, rfl, same, apart⟩ :=
      last_added history elt.1 ((recency_keys history elt.1).mp (List.mem_map.mpr ⟨elt, known, rfl⟩))
    rw [← same] at apart
    obtain ⟨rest, split⟩ := recency_split since earlier added apart
    have elt_eq : elt = (added.uuid, added.time + 60) :=
      List.inj_on_of_nodup_map (recency_once _) known (by rw [split]; exact List.mem_append_right _ List.mem_cons_self) same.symm
    refine ⟨since, added, earlier, rfl, same, by rw [← same]; exact apart, ?_, ?_⟩
    · have inTime := fresh elt there
      rw [elt_eq] at inTime
      exact inTime
    · obtain ⟨later, whole⟩ := checked.front
      have once : ((checkTimeout t now).elts ++ later).Nodup := by
        rw [whole]
        exact (recency_once _).of_map
      rw [elt_eq] at there
      obtain ⟨tail, place⟩ := front_split _ later (recency since) rest _ once (whole.trans split) there
      rw [LruTable.size, place, List.length_append, List.length_cons, recency_length] at short
      omega
  · rintro ⟨since, added, earlier, rfl, rfl, apart, inTime, few⟩
    obtain ⟨rest, split⟩ := recency_split since earlier added apart
    have there := checked.kept (recency since) _ rest split (by rw [recency_length]; exact few) inTime
    exact List.mem_map.mpr ⟨_, there, rfl⟩

theorem after_mirrors (calls : List Call) (now : Nat) (clocked : Clocked calls now) (small : now < 2 ^ 32 - 60) :
    ∃ m, after calls = some m ∧ ∀ shard, Mirrors (additions shard calls) now (m.shards shard) := by
  induction calls generalizing now with
  | nil => exact ⟨start, rfl, fun shard => ⟨rfl, List.prefix_rfl, fun front elt rest split => by cases front <;> cases split⟩⟩
  | cons call earlier ih =>
    cases call with
    | exist entityId uuid reading =>
      obtain ⟨before, grown⟩ := clocked
      obtain ⟨m, done, mirrors⟩ := ih reading before (by omega)
      refine ⟨(m.exist entityId uuid reading).2, by rw [after, done]; rfl, fun shard => ?_⟩
      rw [exist, additions]
      dsimp only
      by_cases same : shard = shardOf entityId
      · subst same
        rw [Function.update_self]
        exact mirrors_later _ reading now _
          (mirrors_checked _ reading _ (mirrors _) (additions_timed _ earlier reading before) (by omega)).1 grown
      · rw [Function.update_of_ne same]
        exact mirrors_later _ reading now _ (mirrors shard) grown
    | add entityId uuid reading again =>
      obtain ⟨before, onward, grown⟩ := clocked
      obtain ⟨m, done, mirrors⟩ := ih reading before (by omega)
      have checked := (mirrors_checked _ reading _ (mirrors (shardOf entityId)) (additions_timed _ earlier reading before) (by omega)).1
      have stamp : seconds (again + 60) = again + 60 := seconds_small _ (by omega)
      refine ⟨⟨Function.update m.shards (shardOf entityId)
        ((checkTimeout (m.shards (shardOf entityId)) reading).put uuid (again + 60))⟩, ?_, fun shard => ?_⟩
      · rw [after, done, Option.bind_some, add, LruTable.add_plain _ _ _ checked.plain, stamp]
        rfl
      · rw [additions]
        dsimp only
        by_cases same : shard = shardOf entityId
        · subst same
          rw [Function.update_self, if_pos rfl]
          exact mirrors_put _ reading _ checked entityId uuid again now (Nat.le_trans onward grown)
        · rw [Function.update_of_ne same, if_neg (Ne.symm same)]
          exact mirrors_later _ reading now _ (mirrors shard) (Nat.le_trans onward grown)

-- Add was called for the entity and the uuid less than a minute ago.
def AddedWithin (calls : List Call) (entityId uuid now : Nat) : Prop :=
  ∃ reading again, Call.add entityId uuid reading again ∈ calls ∧ now < again + 60

-- It was, and fewer additions than the limit have gone to the shard since.
def AddedLately (calls : List Call) (entityId uuid now : Nat) : Prop :=
  ∃ since reading again earlier, calls = since ++ .add entityId uuid reading again :: earlier ∧ now < again + 60 ∧
    (additions (shardOf entityId) since).length < limit

def Lawful (calls : List Call) (entityId uuid now : Nat) (found : Bool) : Prop :=
  (found = true → AddedWithin calls entityId uuid now) ∧ (AddedLately calls entityId uuid now → found = true)

-- The shard remembers the uuid, but of another entity.
def Masked (calls : List Call) (entityId uuid now : Nat) : Prop :=
  Remembered (additions (shardOf entityId) calls) uuid now ∧ ¬ AddedWithin calls entityId uuid now

theorem additions_append (shard : Nat) (since earlier : List Call) :
    additions shard (since ++ earlier) = additions shard since ++ additions shard earlier := by
  induction since with
  | nil => rfl
  | cons call since ih =>
    cases call with
    | exist entityId uuid reading => exact ih
    | add entityId uuid reading again =>
      rw [List.cons_append, additions, additions, ih]
      split
      · rfl
      · rfl

-- The last addition of a uuid is not before another one of it.
theorem lately_remembered (calls : List Call) (entityId uuid now : Nat) (clocked : Clocked calls now)
    (lately : AddedLately calls entityId uuid now) : Remembered (additions (shardOf entityId) calls) uuid now := by
  obtain ⟨since, reading, again, earlier, rfl, inTime, few⟩ := lately
  have timed := additions_timed (shardOf entityId) _ now clocked
  have whole : additions (shardOf entityId) (since ++ .add entityId uuid reading again :: earlier) =
      additions (shardOf entityId) since ++ ⟨entityId, uuid, again⟩ :: additions (shardOf entityId) earlier := by
    rw [additions_append, additions, if_pos rfl]
  rw [whole] at timed ⊢
  by_cases repeated : uuid ∈ (additions (shardOf entityId) since).map Added.uuid
  · obtain ⟨front, added, rest, split, same, apart⟩ := last_added _ uuid repeated
    refine ⟨front, added, rest ++ ⟨entityId, uuid, again⟩ :: additions (shardOf entityId) earlier, ?_, same, apart, ?_, ?_⟩
    · rw [split, List.append_assoc, List.cons_append]
    · have newer := (List.pairwise_append.mp timed.sorted).2.2 added
        (by rw [split]; exact List.mem_append_right _ List.mem_cons_self) ⟨entityId, uuid, again⟩ List.mem_cons_self
      dsimp only at newer
      omega
    · have most := List.toFinset_card_le (front.map Added.uuid)
      rw [List.length_map] at most
      rw [split, List.length_append] at few
      exact Nat.lt_of_le_of_lt most (by omega)
  · have most := List.toFinset_card_le ((additions (shardOf entityId) since).map Added.uuid)
    rw [List.length_map] at most
    exact ⟨_, _, _, rfl, rfl, repeated, inTime, Nat.lt_of_le_of_lt most few⟩

theorem exist_lawful_iff (calls : List Call) (entityId uuid now : Nat) (clocked : Clocked calls now) (small : now < 2 ^ 32 - 60) :
    ∃ found, answer calls entityId uuid now = some found ∧
      (Lawful calls entityId uuid now found ↔ ¬ Masked calls entityId uuid now) := by
  obtain ⟨m, done, mirrors⟩ := after_mirrors calls now clocked small
  have remembered := checked_remembered _ now _ (mirrors (shardOf entityId)) (additions_timed _ calls now clocked) (by omega) uuid
  refine ⟨(m.exist entityId uuid now).1, by rw [answer, done]; rfl, ?_⟩
  constructor
  · intro lawful masked
    exact masked.2 (lawful.1 (remembered.mpr masked.1))
  · intro own
    refine ⟨fun found => ?_, fun lately => remembered.mpr (lately_remembered calls entityId uuid now clocked lately)⟩
    by_contra foreign
    exact own ⟨remembered.mp found, foreign⟩

-- Two entities of one shard.
theorem foreign_uuid_found : Clocked [.add 1 7 0 0] 5 ∧ answer [.add 1 7 0 0] 617 7 5 = some true ∧
    ¬ Lawful [.add 1 7 0 0] 617 7 5 true := by
  refine ⟨⟨trivial, Nat.le_refl _, by decide⟩, by decide +kernel, fun lawful => ?_⟩
  obtain ⟨reading, again, member, -⟩ := lawful.1 rfl
  simp at member

theorem own_uuid_found : ∃ found, answer [.add 617 7 0 0] 617 7 5 = some found ∧
    (Lawful [.add 617 7 0 0] 617 7 5 found ↔ ¬ Masked [.add 617 7 0 0] 617 7 5) :=
  exist_lawful_iff [.add 617 7 0 0] 617 7 5 ⟨trivial, Nat.le_refl _, by decide⟩ (by decide)

end UuidMng

end PaxosStore.Certain
