import Mathlib.Algebra.Order.BigOperators.Group.List
import Mathlib.Algebra.Order.Group.Nat
import Mathlib.Data.List.Perm.Basic
import PaxosStore.Certain.EntryObjects

set_option autoImplicit false

namespace PaxosStore.Certain

namespace LruTable

variable {K V : Type} [DecidableEq K]

-- The table is the element and the rest.
theorem table_parts (elts : List (K × V)) (key : K) (value : V) (once : (elts.map Prod.fst).Nodup) (member : (key, value) ∈ elts) :
    elts.Perm ((key, value) :: others elts key) := by
  induction elts with
  | nil => cases member
  | cons elt rest ih =>
      obtain ⟨apart, later⟩ := List.nodup_cons.mp once
      rcases List.mem_cons.mp member with same | inside
      · subst same
        rw [others, List.filter_cons_of_neg (by simp), ← others, others_absent rest key apart]
      · have differ : elt.1 ≠ key := fun same => apart (List.mem_map.mpr ⟨(key, value), inside, same.symm⟩)
        rw [others, List.filter_cons_of_pos (by simp [differ]), ← others]
        exact ((ih later inside).cons elt).trans (List.Perm.swap _ _ _)

end LruTable

open PaxosStore.PaxosKv LruTable

namespace EntryInfoMng

variable {n : Nat}

def sizeAt (infos : Nat → Option (EntryObject n)) (address : Nat) : Nat := (infos address).elim 0 fun object => object.info.totalSize

-- The addresses in the LRU table, newest first.
def live (m : EntryInfoMng n) : List Nat := m.lruTable.elts.map Prod.snd

-- The tables agree on what is live, and the counters count it.
structure Accounted (m : EntryInfoMng n) : Prop where
  once : m.live.Nodup
  table : ∀ address, address ∈ m.live ↔ (m.entryInfos address).isSome
  lists_once : ∀ entity, (m.entryLists entity).Nodup
  lists : ∀ entity address, address ∈ m.entryLists entity ↔
    ∃ object, m.entryInfos address = some object ∧ object.info.entityNumber = entity
  total : m.totalSize = u64 (m.live.map (sizeAt m.entryInfos)).sum
  below : m.live.length ≤ 2 ^ 32 → m.totalSize = (m.live.map (sizeAt m.entryInfos)).sum
  number : sub64 m.createCnt m.destroyCnt = m.live.length

structure Inv (m : EntryInfoMng n) : Prop where
  plain : m.lruTable.autoEliminate = false
  known : ∀ number entity, m.entityInfos number = some entity → entity.number = number
  keyed : ∀ key address, (key, address) ∈ m.lruTable.elts → ∃ object, m.entryInfos address = some object ∧ m.keyOf object = some key
  listed : ∀ address object, m.entryInfos address = some object → ∃ key, m.keyOf object = some key ∧ (key, address) ∈ m.lruTable.elts
  lists_once : ∀ entity, (m.entryLists entity).Nodup
  lists : ∀ entity address, address ∈ m.entryLists entity ↔
    ∃ object, m.entryInfos address = some object ∧ object.info.entityNumber = entity
  small : ∀ address object, m.entryInfos address = some object → object.info.totalSize < 2 ^ 32
  placed : ∀ address object, m.entryInfos address = some object → 0 < address ∧ address < 2 ^ 64
  total : m.totalSize = u64 (m.live.map (sizeAt m.entryInfos)).sum
  number : ∃ destroyed, m.destroyCnt = u64 destroyed ∧ m.createCnt = u64 (destroyed + m.live.length)

theorem zero_small : u64 0 = 0 := u64_small 0 (Nat.two_pow_pos 64)

theorem live_start : live (start : EntryInfoMng n) = [] := rfl

theorem start_empty (address : Nat) (object : EntryObject n) : (start : EntryInfoMng n).entryInfos address ≠ some object :=
  fun there => Option.some_ne_none object there.symm

theorem inv_start : Inv (start : EntryInfoMng n) where
  plain := rfl
  known := fun _ entity there => absurd there.symm (Option.some_ne_none entity)
  keyed := nofun
  listed := fun address object there => absurd there (start_empty address object)
  lists_once := fun _ => List.nodup_nil
  lists := fun _ _ => ⟨nofun, fun ⟨object, there, _⟩ => absurd there (start_empty _ object)⟩
  small := fun address object there => absurd there (start_empty address object)
  placed := fun address object there => absurd there (start_empty address object)
  total := by
    rw [live_start, List.map_nil, List.sum_nil, zero_small]
    rfl
  number := by
    refine ⟨0, ?_, ?_⟩
    · rw [zero_small]
      rfl
    · rw [live_start, List.length_nil, Nat.add_zero, zero_small]
      rfl

theorem one_key (m : EntryInfoMng n) (inv : Inv m) (first second : EntryKey) (address : Nat)
    (left : (first, address) ∈ m.lruTable.elts) (right : (second, address) ∈ m.lruTable.elts) : first = second := by
  obtain ⟨object, there, key⟩ := inv.keyed first address left
  obtain ⟨other, also, another⟩ := inv.keyed second address right
  rw [there] at also
  cases also
  rw [key] at another
  exact Option.some.inj another

theorem live_once (m : EntryInfoMng n) (inv : Inv m) : m.live.Nodup := by
  have elts : m.lruTable.elts.Nodup := m.lruTable.once.of_map _
  refine List.Nodup.map_on ?_ elts
  intro left first right second same
  obtain ⟨key, address⟩ := left
  obtain ⟨other, another⟩ := right
  cases same
  rw [one_key m inv key other address first second]

theorem live_iff (m : EntryInfoMng n) (inv : Inv m) (address : Nat) : address ∈ m.live ↔ (m.entryInfos address).isSome := by
  rw [live, List.mem_map, Option.isSome_iff_exists]
  constructor
  · rintro ⟨⟨key, _⟩, member, rfl⟩
    obtain ⟨object, there, _⟩ := inv.keyed key _ member
    exact ⟨object, there⟩
  · rintro ⟨object, there⟩
    obtain ⟨key, _, member⟩ := inv.listed address object there
    exact ⟨(key, address), member, rfl⟩

-- Addresses are positive and 64 bits wide, so there are fewer live entries than that.
theorem live_bound (m : EntryInfoMng n) (inv : Inv m) : m.live.length < 2 ^ 64 := by
  have inside : m.live ⊆ (List.range (2 ^ 64 - 1)).map (· + 1) := by
    intro address member
    obtain ⟨object, there⟩ := Option.isSome_iff_exists.mp ((live_iff m inv address).mp member)
    obtain ⟨low, high⟩ := inv.placed address object there
    exact List.mem_map.mpr ⟨address - 1, List.mem_range.mpr (by omega), by omega⟩
  have least := ((live_once m inv).subperm inside).length_le
  rw [List.length_map, List.length_range] at least
  omega

theorem sizes_bound (m : EntryInfoMng n) (inv : Inv m) : (m.live.map (sizeAt m.entryInfos)).sum ≤ m.live.length * (2 ^ 32 - 1) := by
  have each : ∀ size ∈ m.live.map (sizeAt m.entryInfos), size ≤ 2 ^ 32 - 1 := by
    intro size member
    obtain ⟨address, _, rfl⟩ := List.mem_map.mp member
    rw [sizeAt]
    cases there : m.entryInfos address with
    | none => exact Nat.zero_le _
    | some object => exact Nat.le_sub_one_of_lt (inv.small address object there)
  have sum := List.sum_le_card_nsmul _ _ each
  rwa [List.length_map] at sum

theorem inv_accounted (m : EntryInfoMng n) (inv : Inv m) : Accounted m where
  once := live_once m inv
  table := live_iff m inv
  lists_once := inv.lists_once
  lists := inv.lists
  total := inv.total
  below := by
    intro few
    have bound := sizes_bound m inv
    rw [inv.total, u64_small]
    calc (m.live.map (sizeAt m.entryInfos)).sum ≤ m.live.length * (2 ^ 32 - 1) := bound
      _ ≤ 2 ^ 32 * (2 ^ 32 - 1) := Nat.mul_le_mul_right _ few
      _ < 2 ^ 64 := by decide
  number := by
    obtain ⟨destroyed, gone, made⟩ := inv.number
    have bound := live_bound m inv
    rw [gone, made, sub64_counts _ _ (Nat.le_add_right _ _) (by omega), Nat.add_sub_cancel_left]

-- A live entry and the rest.
theorem live_parts (m : EntryInfoMng n) (inv : Inv m) (address : Nat) (object : EntryObject n)
    (there : m.entryInfos address = some object) : m.live.Perm (address :: m.live.erase address) :=
  List.perm_cons_erase ((live_iff m inv address).mpr (by rw [there]; rfl))

theorem rest_apart (m : EntryInfoMng n) (inv : Inv m) (address : Nat) : address ∉ m.live.erase address :=
  (live_once m inv).not_mem_erase

theorem sizes_off (infos : Nat → Option (EntryObject n)) (addresses : List Nat) (address : Nat) (object : Option (EntryObject n))
    (apart : address ∉ addresses) : addresses.map (sizeAt (Function.update infos address object)) = addresses.map (sizeAt infos) := by
  refine List.map_congr_left fun other member => ?_
  have differ : other ≠ address := fun same => apart (same ▸ member)
  rw [sizeAt, sizeAt, Function.update_of_ne differ]

theorem total_parts (m : EntryInfoMng n) (inv : Inv m) (address : Nat) (object : EntryObject n)
    (there : m.entryInfos address = some object) :
    m.totalSize = u64 (object.info.totalSize + ((m.live.erase address).map (sizeAt m.entryInfos)).sum) := by
  rw [inv.total, ((live_parts m inv address object there).map _).sum_eq, List.map_cons, List.sum_cons, sizeAt, there]
  rfl

-- A live entry changes, and the limiter knows its new size.
theorem inv_resize (m : EntryInfoMng n) (inv : Inv m) (address total : Nat) (object : EntryObject n) (info : EntryInfo n)
    (there : m.entryInfos address = some object) (same : info.entityNumber = object.info.entityNumber) (small : info.totalSize < 2 ^ 32)
    (counted : ∀ rest, m.totalSize = u64 (object.info.totalSize + rest) → total = u64 (info.totalSize + rest)) :
    Inv { m.setObject address (some { object with info := info }) with totalSize := total } := by
  have key : m.keyOf { object with info := info } = m.keyOf object := by rw [keyOf, keyOf, same]
  exact {
    plain := inv.plain
    known := inv.known
    keyed := by
      intro key' other member
      obtain ⟨found, present, its⟩ := inv.keyed key' other member
      show ∃ object', Function.update _ _ _ _ = _ ∧ _
      by_cases one : other = address
      · subst one
        rw [there] at present
        cases present
        rw [Function.update_self]
        exact ⟨_, rfl, key.trans its⟩
      · rw [Function.update_of_ne one]
        exact ⟨found, present, its⟩
    listed := by
      intro other found present
      change Function.update _ _ _ _ = _ at present
      by_cases one : other = address
      · subst one
        rw [Function.update_self] at present
        cases present
        obtain ⟨own, its, member⟩ := inv.listed other object there
        exact ⟨own, key.trans its, member⟩
      · rw [Function.update_of_ne one] at present
        exact inv.listed other found present
    lists_once := inv.lists_once
    lists := by
      intro entity other
      refine (inv.lists entity other).trans ?_
      show _ ↔ ∃ object', Function.update _ _ _ _ = _ ∧ _
      by_cases one : other = address
      · subst one
        rw [Function.update_self, there]
        constructor
        · rintro ⟨found, present, owner⟩
          cases present
          exact ⟨_, rfl, same.trans owner⟩
        · rintro ⟨found, present, owner⟩
          cases present
          exact ⟨_, rfl, same.symm.trans owner⟩
      · rw [Function.update_of_ne one]
    small := by
      intro other found present
      change Function.update _ _ _ _ = _ at present
      by_cases one : other = address
      · subst one
        rw [Function.update_self] at present
        cases present
        exact small
      · rw [Function.update_of_ne one] at present
        exact inv.small other found present
    placed := by
      intro other found present
      change Function.update _ _ _ _ = _ at present
      by_cases one : other = address
      · exact one ▸ inv.placed address object there
      · rw [Function.update_of_ne one] at present
        exact inv.placed other found present
    total := by
      show total = u64 (m.live.map (sizeAt (Function.update _ _ _))).sum
      rw [((live_parts m inv address object there).map _).sum_eq, List.map_cons, List.sum_cons,
        sizes_off m.entryInfos _ address _ (rest_apart m inv address), sizeAt, Function.update_self]
      exact counted _ (total_parts m inv address object there)
    number := inv.number }

theorem inv_remove (m r : EntryInfoMng n) (inv : Inv m) (address : Nat) (done : m.removeFromTotalSize address = some r) :
    Inv r ∧ ∃ object, m.entryInfos address = some object ∧
      r.entryInfos address = some { object with info := { object.info with totalSize := 0 } } := by
  obtain ⟨object, there, rest⟩ := Option.bind_eq_some_iff.mp done
  cases rest
  refine ⟨?_, object, there, Function.update_self _ _ _⟩
  refine inv_resize m inv address _ object { object.info with totalSize := 0 } there rfl (Nat.two_pow_pos 32) ?_
  intro rest parts
  have small := inv.small address object there
  rw [parts, sub64_sum _ _ (by omega)]
  exact congrArg u64 (Nat.zero_add rest).symm

theorem inv_update (o : Options n) (m r : EntryInfoMng n) (inv : Inv m) (address : Nat) (done : updateTotalSize o m address = some r) :
    Inv r := by
  obtain ⟨next, removed, done⟩ := Option.bind_eq_some_iff.mp done
  obtain ⟨kept, object, there, zero⟩ := inv_remove m next inv address removed
  obtain ⟨found, present, done⟩ := Option.bind_eq_some_iff.mp done
  rw [zero] at present
  cases present
  cases done
  refine inv_resize next kept address _ _ _ zero rfl (Nat.mod_lt _ (Nat.two_pow_pos 32)) ?_
  intro rest parts
  rw [parts, u64_add]
  exact congrArg u64 ((congrArg (· + _) (Nat.zero_add rest)).trans (Nat.add_comm _ _))

theorem inv_listed_old (m : EntryInfoMng n) (inv : Inv m) (keys : List EntryKey) : Inv { m with oldChosenList := keys } :=
  ⟨inv.plain, inv.known, inv.keyed, inv.listed, inv.lists_once, inv.lists, inv.small, inv.placed, inv.total, inv.number⟩

theorem inv_move (o : Options n) (nowSec : Nat) (m r : EntryInfoMng n) (inv : Inv m) (address : Nat)
    (done : moveToOldChosenList o nowSec m address = some r) : Inv r := by
  obtain ⟨object, there, done⟩ := Option.bind_eq_some_iff.mp done
  obtain ⟨key, _, done⟩ := Option.bind_eq_some_iff.mp done
  cases done
  refine inv_listed_old (m.setObject address _) ?_ _
  exact inv_resize m inv address m.totalSize object { object.info with expiredTimestampSec := nowSec + o.entryTimeoutSec } there rfl
    (inv.small address object there) (fun _ parts => parts)

-- The LRU order does not matter.
theorem inv_order (m : EntryInfoMng n) (inv : Inv m) (table : LruTable EntryKey Nat) (plain : table.autoEliminate = false)
    (order : table.elts.Perm m.lruTable.elts) : Inv { m with lruTable := table } where
  plain := plain
  known := inv.known
  keyed := fun key address member => inv.keyed key address (order.mem_iff.mp member)
  listed := fun address object there => by
    obtain ⟨key, its, member⟩ := inv.listed address object there
    exact ⟨key, its, order.mem_iff.mpr member⟩
  lists_once := inv.lists_once
  lists := inv.lists
  small := inv.small
  placed := inv.placed
  total := inv.total.trans (congrArg u64 ((order.map Prod.snd).map _).sum_eq.symm)
  number := by
    obtain ⟨destroyed, gone, made⟩ := inv.number
    refine ⟨destroyed, gone, made.trans ?_⟩
    have same := (order.map Prod.snd).length_eq
    exact congrArg (fun length => u64 (destroyed + length)) same.symm

theorem inv_refresh (m r : EntryInfoMng n) (inv : Inv m) (address : Nat) (ok : Bool) (done : m.refreshEntryInfo address = some (ok, r)) :
    Inv r := by
  obtain ⟨object, there, done⟩ := Option.bind_eq_some_iff.mp done
  obtain ⟨key, its, done⟩ := Option.bind_eq_some_iff.mp done
  obtain ⟨own, also, member⟩ := inv.listed address object there
  rw [its] at also
  cases also
  have found := (m.lruTable.find_some key address).mpr member
  rw [refresh, found] at done
  cases done
  exact inv_order m inv _ inv.plain (table_parts m.lruTable.elts key address m.lruTable.once member).symm

theorem destroy_spec (o : Options n) (m r : EntryInfoMng n) (address : Nat) (done : destroyEntryInfo o m address = some r) :
    ∃ object key, m.entryInfos address = some object ∧ m.keyOf object = some key ∧
      r = { m with
        entryLists := Function.update m.entryLists object.info.entityNumber ((m.entryLists object.info.entityNumber).erase address)
        entryInfos := Function.update m.entryInfos address none
        lruTable := m.lruTable.drop key
        totalSize := sub64 m.totalSize object.info.totalSize
        destroyCnt := u64 (m.destroyCnt + 1) } := by
  obtain ⟨object, there, done⟩ := Option.bind_eq_some_iff.mp done
  obtain ⟨key, its, done⟩ := Option.bind_eq_some_iff.mp done
  obtain ⟨listed, done⟩ := (asserting_some _ _ _).mp done
  obtain ⟨next, removed, done⟩ := Option.bind_eq_some_iff.mp done
  obtain ⟨_, done⟩ := (asserting_some _ _ _).mp done
  obtain ⟨found, present, removed⟩ := Option.bind_eq_some_iff.mp removed
  change m.entryInfos address = some found at present
  rw [there] at present
  cases present
  cases removed
  cases done
  refine ⟨object, key, there, its, ?_⟩
  dsimp only [setObject, setList, remove]
  rw [Function.update_idem]

theorem inv_destroy (o : Options n) (m r : EntryInfoMng n) (inv : Inv m) (address : Nat) (done : destroyEntryInfo o m address = some r) :
    Inv r := by
  obtain ⟨object, key, there, its, same⟩ := destroy_spec o m r address done
  subst same
  obtain ⟨own, also, member⟩ := inv.listed address object there
  rw [its] at also
  cases also
  have parts := table_parts m.lruTable.elts key address m.lruTable.once member
  have once : (address :: (others m.lruTable.elts key).map Prod.snd).Nodup :=
    (parts.map Prod.snd).nodup_iff.mp (live_once m inv)
  have apart := (List.nodup_cons.mp once).1
  have kept : ∀ other found, found ≠ address → ((other, found) ∈ others m.lruTable.elts key ↔ (other, found) ∈ m.lruTable.elts) := by
    intro other found differ
    rw [parts.mem_iff, List.mem_cons]
    constructor
    · exact fun inside => .inr inside
    · rintro (same | inside)
      · cases same
        exact absurd rfl differ
      · exact inside
  have left : ∀ other found, Function.update m.entryInfos address none other = some found ↔ other ≠ address ∧ m.entryInfos other = some found := by
    intro other found
    by_cases one : other = address
    · subst one
      rw [Function.update_self]
      exact ⟨nofun, fun ⟨differ, _⟩ => absurd rfl differ⟩
    · rw [Function.update_of_ne one]
      exact ⟨fun present => ⟨one, present⟩, fun ⟨_, present⟩ => present⟩
  have small := inv.small address object there
  exact {
    plain := inv.plain
    known := inv.known
    keyed := by
      intro other found member
      have differ : found ≠ address := fun one => apart (List.mem_map.mpr ⟨(other, found), member, one⟩)
      obtain ⟨another, present, its⟩ := inv.keyed other found ((kept other found differ).mp member)
      exact ⟨another, (left found another).mpr ⟨differ, present⟩, its⟩
    listed := by
      intro other found present
      obtain ⟨differ, present⟩ := (left other found).mp present
      obtain ⟨own, its, member⟩ := inv.listed other found present
      exact ⟨own, its, (kept own other differ).mpr member⟩
    lists_once := by
      intro entity
      dsimp only
      by_cases one : entity = object.info.entityNumber
      · subst one
        rw [Function.update_self]
        exact (inv.lists_once _).erase _
      · rw [Function.update_of_ne one]
        exact inv.lists_once entity
    lists := by
      intro entity other
      dsimp only
      have before := inv.lists entity other
      constructor
      · intro inside
        have was : other ≠ address ∧ other ∈ m.entryLists entity := by
          by_cases one : entity = object.info.entityNumber
          · subst one
            rw [Function.update_self] at inside
            exact (inv.lists_once _).mem_erase_iff.mp inside
          · rw [Function.update_of_ne one] at inside
            refine ⟨fun same => one ?_, inside⟩
            obtain ⟨found, present, owner⟩ := before.mp inside
            rw [same, there] at present
            cases present
            exact owner.symm
        obtain ⟨found, present, owner⟩ := before.mp was.2
        exact ⟨found, (left other found).mpr ⟨was.1, present⟩, owner⟩
      · rintro ⟨found, present, owner⟩
        obtain ⟨differ, present⟩ := (left other found).mp present
        have inside := before.mpr ⟨found, present, owner⟩
        by_cases one : entity = object.info.entityNumber
        · subst one
          rw [Function.update_self]
          exact (inv.lists_once _).mem_erase_iff.mpr ⟨differ, inside⟩
        · rw [Function.update_of_ne one]
          exact inside
    small := fun other found present => inv.small other found ((left other found).mp present).2
    placed := fun other found present => inv.placed other found ((left other found).mp present).2
    total := by
      show sub64 m.totalSize object.info.totalSize = u64 (((others m.lruTable.elts key).map Prod.snd).map _).sum
      rw [sizes_off m.entryInfos _ address none apart, inv.total, live, ((parts.map Prod.snd).map _).sum_eq, List.map_cons, List.map_cons,
        List.sum_cons, sizeAt, there]
      exact sub64_sum object.info.totalSize _ (by omega)
    number := by
      obtain ⟨destroyed, gone, made⟩ := inv.number
      refine ⟨destroyed + 1, ?_, ?_⟩
      · show u64 (m.destroyCnt + 1) = _
        rw [gone, u64_succ]
      · have length := (parts.map Prod.snd).length_eq
        rw [List.map_cons, List.length_cons] at length
        refine made.trans (congrArg u64 ?_)
        show destroyed + (m.lruTable.elts.map Prod.snd).length = destroyed + 1 + ((others m.lruTable.elts key).map Prod.snd).length
        omega }

-- A destruction of a live entry runs through.
theorem destroy_live (o : Options n) (m : EntryInfoMng n) (inv : Inv m) (address : Nat) (share : 0 < shareNum o)
    (there : (m.entryInfos address).isSome) : (destroyEntryInfo o m address).isSome := by
  obtain ⟨object, present⟩ := Option.isSome_iff_exists.mp there
  obtain ⟨key, its, _⟩ := inv.listed address object present
  have listed := (inv.lists object.info.entityNumber address).mpr ⟨object, present, rfl⟩
  rw [destroyEntryInfo, present]
  dsimp only [Option.bind_eq_bind, Option.bind_some]
  rw [its]
  dsimp only [Option.bind_some]
  rw [asserting, if_pos listed]
  dsimp only [removeFromTotalSize, setList, Option.bind_eq_bind, Option.bind_some]
  rw [present]
  dsimp only [Option.bind_some]
  rw [asserting, if_pos share]
  rfl

-- CreateEntryInfo before it asks for the size of the new entry.
def enter (m : EntryInfoMng n) (entity : EntityInfo n) (entry address : Nat) (garbage : Bool × (Fin n → Bool)) : EntryInfoMng n :=
  { m with
    entryLists := Function.update m.entryLists entity.number (address :: m.entryLists entity.number)
    entryInfos := Function.update m.entryInfos address (some (newObject entity entry address garbage))
    lruTable := m.lruTable.put ⟨entity.entityId, entry⟩ address
    createCnt := u64 (m.createCnt + 1) }

theorem inv_enter (m : EntryInfoMng n) (inv : Inv m) (entity : EntityInfo n) (entry address : Nat) (garbage : Bool × (Fin n → Bool))
    (known : m.entityInfos entity.number = some entity) (absent : m.findEntryInfo ⟨entity.entityId, entry⟩ = none)
    (free : m.entryInfos address = none) (low : 0 < address) (high : address < 2 ^ 64) : Inv (m.enter entity entry address garbage) := by
  have key : m.keyOf (newObject entity entry address garbage) = some ⟨entity.entityId, entry⟩ := by
    rw [keyOf]
    show (m.entityInfos entity.number).map _ = _
    rw [known]
    rfl
  have missing : (⟨entity.entityId, entry⟩ : EntryKey) ∉ m.lruTable.elts.map Prod.fst := by
    intro member
    have found := (m.lruTable.find_is_some _).mpr member
    rw [findEntryInfo] at absent
    rw [absent] at found
    cases found
  have elts : (m.lruTable.put ⟨entity.entityId, entry⟩ address).elts = (⟨entity.entityId, entry⟩, address) :: m.lruTable.elts :=
    congrArg _ (others_absent _ _ missing)
  have outside : address ∉ m.live := by
    intro member
    have there := (live_iff m inv address).mp member
    rw [free] at there
    cases there
  have left : ∀ other found, Function.update m.entryInfos address (some (newObject entity entry address garbage)) other = some found ↔
      other = address ∧ found = newObject entity entry address garbage ∨ m.entryInfos other = some found := by
    intro other found
    by_cases one : other = address
    · subst one
      rw [Function.update_self, free]
      constructor
      · intro same
        exact .inl ⟨rfl, (Option.some.inj same).symm⟩
      · rintro (⟨_, rfl⟩ | present)
        · rfl
        · cases present
    · rw [Function.update_of_ne one]
      constructor
      · exact .inr
      · rintro (⟨same, _⟩ | present)
        · exact absurd same one
        · exact present
  exact {
    plain := inv.plain
    known := inv.known
    keyed := by
      intro other found member
      dsimp only [enter] at member ⊢
      rw [elts] at member
      rcases List.mem_cons.mp member with same | inside
      · cases same
        exact ⟨_, Function.update_self _ _ _, key⟩
      · obtain ⟨object, present, its⟩ := inv.keyed other found inside
        exact ⟨object, (left found object).mpr (.inr present), its⟩
    listed := by
      intro other found present
      dsimp only [enter] at present ⊢
      rw [elts]
      rcases (left other found).mp present with ⟨rfl, rfl⟩ | present
      · exact ⟨_, key, List.mem_cons_self⟩
      · obtain ⟨own, its, member⟩ := inv.listed other found present
        exact ⟨own, its, List.mem_cons_of_mem _ member⟩
    lists_once := by
      intro other
      dsimp only [enter]
      by_cases one : other = entity.number
      · subst one
        rw [Function.update_self]
        refine List.nodup_cons.mpr ⟨fun inside => ?_, inv.lists_once _⟩
        obtain ⟨object, present, _⟩ := (inv.lists _ address).mp inside
        rw [free] at present
        cases present
      · rw [Function.update_of_ne one]
        exact inv.lists_once other
    lists := by
      intro other found
      dsimp only [enter]
      have before := inv.lists other found
      constructor
      · intro inside
        have was : other = entity.number ∧ found = address ∨ found ∈ m.entryLists other := by
          by_cases one : other = entity.number
          · subst one
            rw [Function.update_self] at inside
            exact (List.mem_cons.mp inside).imp_left fun same => ⟨rfl, same⟩
          · rw [Function.update_of_ne one] at inside
            exact .inr inside
        rcases was with ⟨rfl, rfl⟩ | was
        · exact ⟨_, Function.update_self _ _ _, rfl⟩
        · obtain ⟨object, present, owner⟩ := before.mp was
          exact ⟨object, (left found object).mpr (.inr present), owner⟩
      · rintro ⟨object, present, owner⟩
        rcases (left found object).mp present with ⟨rfl, rfl⟩ | present
        · change entity.number = other at owner
          rw [← owner, Function.update_self]
          exact List.mem_cons_self
        · have inside := before.mpr ⟨object, present, owner⟩
          by_cases one : other = entity.number
          · subst one
            rw [Function.update_self]
            exact List.mem_cons_of_mem _ inside
          · rw [Function.update_of_ne one]
            exact inside
    small := by
      intro other found present
      rcases (left other found).mp present with ⟨_, rfl⟩ | present
      · exact Nat.two_pow_pos 32
      · exact inv.small other found present
    placed := by
      intro other found present
      rcases (left other found).mp present with ⟨rfl, _⟩ | present
      · exact ⟨low, high⟩
      · exact inv.placed other found present
    total := by
      dsimp only [enter, live]
      rw [elts, List.map_cons, List.map_cons, List.sum_cons, ← live, sizes_off m.entryInfos _ address _ outside, sizeAt,
        Function.update_self]
      refine inv.total.trans (congrArg u64 ?_)
      exact (Nat.zero_add _).symm
    number := by
      obtain ⟨destroyed, gone, made⟩ := inv.number
      refine ⟨destroyed, gone, ?_⟩
      dsimp only [enter, live]
      rw [elts, made, u64_succ, List.map_cons, List.length_cons]
      rfl }

theorem inv_create (o : Options n) (m r : EntryInfoMng n) (inv : Inv m) (entityNumber entry address : Nat) (garbage : Bool × (Fin n → Bool))
    (entity : EntityInfo n) (known : m.entityInfos entityNumber = some entity) (absent : m.findEntryInfo ⟨entity.entityId, entry⟩ = none)
    (free : m.entryInfos address = none) (low : 0 < address) (high : address < 2 ^ 64)
    (done : createEntryInfo o m entityNumber entry address garbage = some r) : Inv r := by
  obtain rfl := inv.known entityNumber entity known
  obtain ⟨also, same, done⟩ := Option.bind_eq_some_iff.mp done
  rw [known] at same
  cases same
  obtain ⟨⟨ok, table⟩, added, done⟩ := Option.bind_eq_some_iff.mp done
  have plain := add_plain m.lruTable (⟨entity.entityId, entry⟩ : EntryKey) address inv.plain
  change m.lruTable.add _ _ = _ at added
  rw [plain] at added
  cases added
  dsimp only at done
  obtain ⟨_, done⟩ := (asserting_some _ _ _).mp done
  exact inv_update o (m.enter entity entry address garbage) r (inv_enter m inv entity entry address garbage known absent free low high)
    address done

theorem inv_entity (m : EntryInfoMng n) (inv : Inv m) (entity : EntityInfo n) (new : m.entityInfos entity.number = none) :
    Inv { m.setList entity.number [] with entityInfos := Function.update m.entityInfos entity.number (some entity) } := by
  have owners : ∀ address object, m.entryInfos address = some object → object.info.entityNumber ≠ entity.number := by
    intro address object there same
    obtain ⟨key, its, _⟩ := inv.listed address object there
    rw [keyOf, same, new] at its
    cases its
  have keys : ∀ address object, m.entryInfos address = some object →
      keyOf { m.setList entity.number [] with entityInfos := Function.update m.entityInfos entity.number (some entity) } object = m.keyOf object := by
    intro address object there
    rw [keyOf, keyOf]
    dsimp only
    rw [Function.update_of_ne (owners address object there)]
  exact {
    plain := inv.plain
    known := by
      intro number found there
      dsimp only at there
      by_cases one : number = entity.number
      · rw [one, Function.update_self] at there
        cases there
        exact one.symm
      · rw [Function.update_of_ne one] at there
        exact inv.known number found there
    keyed := by
      intro key address member
      obtain ⟨object, there, its⟩ := inv.keyed key address member
      exact ⟨object, there, (keys address object there).trans its⟩
    listed := by
      intro address object there
      obtain ⟨key, its, member⟩ := inv.listed address object there
      exact ⟨key, (keys address object there).trans its, member⟩
    lists_once := by
      intro other
      dsimp only [setList]
      by_cases one : other = entity.number
      · rw [one, Function.update_self]
        exact List.nodup_nil
      · rw [Function.update_of_ne one]
        exact inv.lists_once other
    lists := by
      intro other address
      dsimp only [setList]
      by_cases one : other = entity.number
      · rw [one, Function.update_self]
        refine ⟨nofun, ?_⟩
        rintro ⟨object, there, owner⟩
        exact absurd owner (owners address object there)
      · rw [Function.update_of_ne one]
        exact inv.lists other address
    small := inv.small
    placed := inv.placed
    total := inv.total
    number := inv.number }

end EntryInfoMng

end PaxosStore.Certain
