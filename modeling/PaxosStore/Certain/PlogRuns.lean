import PaxosStore.Certain.PlogImpl
import PaxosStore.Consensus.Run

set_option autoImplicit false

namespace PaxosStore.Certain

open PaxosStore.Codec PaxosStore.Ordered PaxosStore.Consensus

variable {S : Type} {count : Nat} {db : KvDb S} {hash : Nat → Fin count}

-- The databases hold the last of the writes to each key, each in the one of its entity.
structure PlogHolds (db : KvDb S) (hash : Nat → Fin count) (s : PlogImpl S count) (writes : List (PlogKey × Bytes)) : Prop where
  wide : ∀ write ∈ writes, write.1.wide = true
  kept : ∀ shard bytes, db.get (s.dbs shard) bytes =
    latest ((writes.filter fun write => hash write.1.entityId = shard).map fun write => (write.1.serialize, write.2)) bytes

theorem holds_start (keeps : db.Keeps) : PlogHolds db hash (PlogImpl.start db) [] :=
  ⟨fun _ wrong => (by cases wrong), fun _ bytes => keeps.empty bytes⟩

section Writing

variable {s : PlogImpl S count} {writes : List (PlogKey × Bytes)}

theorem write_holds (keeps : db.Keeps) (holds : PlogHolds db hash s writes) (hashId : Fin count) (puts : List (PlogKey × Bytes))
    (wide : ∀ put ∈ puts, put.1.wide = true) (here : ∀ put ∈ puts, hash put.1.entityId = hashId) :
    PlogHolds db hash ⟨Function.update s.dbs hashId (db.write (s.dbs hashId) (puts.map fun put => (put.1.serialize, put.2)))⟩ (writes ++ puts) := by
  refine ⟨fun write member => ?_, fun shard bytes => ?_⟩
  · rcases List.mem_append.mp member with old | new
    · exact holds.wide write old
    · exact wide write new
  · rw [List.filter_append, List.map_append, latest_append, ← holds.kept]
    by_cases same : shard = hashId
    · subst same
      have all : puts.filter (fun write => hash write.1.entityId = shard) = puts :=
        List.filter_eq_self.mpr fun put member => decide_eq_true (here put member)
      dsimp only
      rw [Function.update_self, keeps.written, all]
    · have none : puts.filter (fun write => hash write.1.entityId = shard) = [] :=
        List.filter_eq_nil_iff.mpr fun put member wrong => same ((of_decide_eq_true wrong).symm.trans (here put member))
      dsimp only
      rw [Function.update_of_ne same, none]
      rfl

theorem call_fits (call : PlogCall count) (fits : call.fits hash = true) : ∀ put ∈ call.puts, put.1.wide = true :=
  List.all_eq_true.mp (Bool.and_eq_true_iff.mp fits).1

-- A call of any kind, also one that fails.
theorem written_holds (keeps : db.Keeps) (holds : PlogHolds db hash s writes) (call : PlogCall count) (fits : call.fits hash = true)
    (hashId : Fin count) (here : ∀ put ∈ call.puts, hash put.1.entityId = hashId) :
    PlogHolds db hash (s.write db hashId call.puts call.status).2 (writes ++ call.applied) := by
  have wide := call_fits call fits
  unfold PlogCall.applied
  cases call.status with
  | ok => exact write_holds keeps holds hashId call.puts wide here
  | failed applied =>
      cases applied with
      | true => exact write_holds keeps holds hashId call.puts wide here
      | false =>
          rw [List.append_nil]
          exact holds

theorem act_holds (keeps : db.Keeps) (holds : PlogHolds db hash s writes) (call : PlogCall count) {next : PlogImpl S count}
    (done : call.act db hash s = some next) : PlogHolds db hash next (writes ++ call.applied) := by
  unfold PlogCall.act at done
  split at done
  · rename_i fits
    cases call with
    | setValue entityId entry valueId value status =>
        obtain ⟨result, set, rfl⟩ := Option.map_eq_some_iff.mp done
        unfold PlogImpl.setValue at set
        split at set
        · cases set
          refine written_holds keeps holds (.setValue entityId entry valueId value status) fits (hash entityId) fun put member => ?_
          rw [List.mem_singleton.mp member]
        · cases set
    | setRecord entityId entry record status =>
        cases done
        refine written_holds keeps holds (.setRecord entityId entry record status) fits (hash entityId) fun put member => ?_
        rw [List.mem_singleton.mp member]
    | multiSetRecords hashId records status =>
        cases done
        have grouped := List.all_eq_true.mp (Bool.and_eq_true_iff.mp fits).2
        refine written_holds keeps holds (.multiSetRecords hashId records status) fits hashId fun put member => ?_
        obtain ⟨record, there, rfl⟩ := List.mem_map.mp member
        exact of_decide_eq_true (grouped record there)
  · cases done

-- After a run the databases hold what its calls have written.
theorem run_holds (keeps : db.Keeps) (holds : PlogHolds db hash s writes) (calls : List (PlogCall count)) {next : PlogImpl S count}
    (run : calls.foldlM (PlogCall.act db hash) s = some next) : PlogHolds db hash next (writes ++ calls.flatMap PlogCall.applied) := by
  induction calls generalizing s writes with
  | nil =>
      cases run
      rw [List.flatMap_nil, List.append_nil]
      exact holds
  | cons call rest ih =>
      rw [List.foldlM_cons] at run
      obtain ⟨middle, first, later⟩ := Option.bind_eq_some_iff.mp run
      rw [List.flatMap_cons, ← List.append_assoc]
      exact ih (act_holds keeps holds call first) later

end Writing

section Reading

variable {s : PlogImpl S count} {writes : List (PlogKey × Bytes)} (keeps : db.Keeps) (holds : PlogHolds db hash s writes)
include holds

theorem holds_get (key : PlogKey) (wide : key.wide = true) :
    db.get (s.dbs (hash key.entityId)) key.serialize = latest writes key := by
  rw [holds.kept, latest_map, latest_filter _ _ _ fun _ => decide_eq_true rfl]
  intro write member same
  exact PlogKey.serialize_inj write.1 key (holds.wide write (List.mem_filter.mp member).1) wide same

include keeps

-- What an iterator over one database goes through.
theorem holds_scan (shard : Fin count) : ∃ keyed : List (PlogKey × Bytes),
    db.scan (s.dbs shard) = keyed.map (fun entry => (entry.1.serialize, entry.2)) ∧ keyed.Pairwise (fun a b => a.1.below b.1) ∧
    ∀ key value, (key, value) ∈ keyed ↔ hash key.entityId = shard ∧ latest writes key = some value := by
  have origin (entry : Bytes × Bytes) (member : entry ∈ db.scan (s.dbs shard)) : ∃ key, entry.1 = PlogKey.serialize key ∧ key.wide = true ∧
      hash key.entityId = shard ∧ latest writes key = some entry.2 := by
    have held := (keeps.scanned (s.dbs shard) entry.1 entry.2).mp member
    obtain ⟨write, there, same⟩ := List.mem_map.mp (latest_mem _ _ _ (holds.kept shard entry.1 ▸ held))
    obtain ⟨there, inside⟩ := List.mem_filter.mp there
    have inside : hash write.1.entityId = shard := of_decide_eq_true inside
    have wide := holds.wide write there
    have same : write.1.serialize = entry.1 := (Prod.mk.inj same).1
    refine ⟨write.1, same.symm, wide, inside, ?_⟩
    rw [← holds_get holds write.1 wide, inside, same]
    exact held
  let keyOf (entry : Bytes × Bytes) : PlogKey × Bytes := ((PlogKey.parse entry.1).getD ⟨0, 0, 0⟩, entry.2)
  have known (entry : Bytes × Bytes) (member : entry ∈ db.scan (s.dbs shard)) : (keyOf entry).1.serialize = entry.1 ∧
      (keyOf entry).1.wide = true ∧ hash (keyOf entry).1.entityId = shard ∧ latest writes (keyOf entry).1 = some entry.2 := by
    obtain ⟨key, same, wide, inside, last⟩ := origin entry member
    have parsed : (keyOf entry).1 = key := by
      change (PlogKey.parse entry.1).getD ⟨0, 0, 0⟩ = key
      rw [same, PlogKey.parse_serialize key wide]
      rfl
    rw [parsed]
    exact ⟨same.symm, wide, inside, last⟩
  refine ⟨(db.scan (s.dbs shard)).map keyOf, ?_, ?_, fun key value => ⟨fun member => ?_, fun last => ?_⟩⟩
  · rw [List.map_map]
    refine (List.map_id _).symm.trans (List.map_congr_left fun entry member => ?_)
    exact Prod.ext (known entry member).1.symm rfl
  · rw [List.pairwise_map]
    refine (keeps.sorted (s.dbs shard)).imp_of_mem fun first second low => ?_
    obtain ⟨same, wide, _⟩ := known _ first
    obtain ⟨same', wide', _⟩ := known _ second
    rw [← same, ← same'] at low
    exact (PlogKey.serialize_lt _ _ wide wide').mp low
  · obtain ⟨entry, there, same⟩ := List.mem_map.mp member
    obtain ⟨_, _, inside, last⟩ := known entry there
    rw [same] at inside last
    rw [show entry.2 = value from (Prod.mk.inj same).2] at last
    exact ⟨inside, last⟩
  · have wide := holds.wide _ (latest_mem writes key value last.2)
    refine List.mem_map.mpr ⟨(key.serialize, value), (keeps.scanned _ _ _).mpr ?_, ?_⟩
    · rw [← last.1, holds_get holds key wide]
      exact last.2
    · change ((PlogKey.parse key.serialize).getD ⟨0, 0, 0⟩, value) = (key, value)
      rw [PlogKey.parse_serialize key wide]
      rfl

end Reading

end PaxosStore.Certain
