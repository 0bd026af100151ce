import PaxosStore.Certain.AccountSteps

set_option autoImplicit false

namespace PaxosStore.Certain

open PaxosStore.PaxosKv

namespace EntryInfoMng

variable {n : Nat}

theorem inv_old_chosen (o : Options n) (count left : Nat) (m r : EntryInfoMng n) (inv : Inv m)
    (done : removeOldChosen o count m = some (left, r)) : Inv r := by
  induction count generalizing m with
  | zero =>
      cases done
      exact inv
  | succ count ih =>
      unfold removeOldChosen at done
      split at done
      · cases done
        exact inv
      · rename_i key rest listed
        split at done
        · have shorter := inv_listed_old m inv rest
          split at done
          · exact ih _ shorter done
          · obtain ⟨object, there, done⟩ := Option.bind_eq_some_iff.mp done
            obtain ⟨_, done⟩ := (asserting_some _ _ _).mp done
            obtain ⟨next, destroyed, done⟩ := Option.bind_eq_some_iff.mp done
            exact ih next (inv_destroy o _ next shorter _ destroyed) done
        · cases done
          exact inv

theorem inv_oldest (o : Options n) (count : Nat) (m r : EntryInfoMng n) (inv : Inv m) (done : removeOldest o count m = some r) : Inv r := by
  induction count generalizing m with
  | zero =>
      cases done
      exact inv
  | succ count ih =>
      unfold removeOldest at done
      split at done
      · obtain ⟨⟨key, address⟩, last, done⟩ := Option.bind_eq_some_iff.mp done
        obtain ⟨object, there, done⟩ := Option.bind_eq_some_iff.mp done
        dsimp only at done
        split at done
        · obtain ⟨⟨ok, next⟩, refreshed, done⟩ := Option.bind_eq_some_iff.mp done
          obtain ⟨_, done⟩ := (asserting_some _ _ _).mp done
          exact ih next (inv_refresh m next inv address ok refreshed) done
        · obtain ⟨next, destroyed, done⟩ := Option.bind_eq_some_iff.mp done
          exact ih next (inv_destroy o m next inv address destroyed) done
      · cases done
        exact inv

theorem inv_room (o : Options n) (m r : EntryInfoMng n) (inv : Inv m) (ok : Bool) (done : makeEnoughRoom o m = some (ok, r)) : Inv r := by
  obtain ⟨_, done⟩ := (asserting_some _ _ _).mp done
  split at done
  · obtain ⟨⟨count, next⟩, first, done⟩ := Option.bind_eq_some_iff.mp done
    have kept := inv_old_chosen o _ count m next inv first
    dsimp only at done
    split at done
    · cases done
      exact kept
    · obtain ⟨last, second, done⟩ := Option.bind_eq_some_iff.mp done
      cases done
      exact inv_oldest o count next _ kept second
  · cases done
    exact inv

theorem inv_cleanup (o : Options n) (nowSec : Nat) (keys : List EntryKey) (count : Nat) (m r : EntryInfoMng n) (inv : Inv m) (ok : Bool)
    (done : cleanupExpired o nowSec keys count m = some (ok, r)) : Inv r := by
  induction keys generalizing count m with
  | nil =>
      cases done
      exact inv_listed_old m inv []
  | cons key rest ih =>
      unfold cleanupExpired at done
      split at done
      · split at done
        · exact ih count m inv done
        · obtain ⟨object, there, done⟩ := Option.bind_eq_some_iff.mp done
          obtain ⟨_, done⟩ := (asserting_some _ _ _).mp done
          split at done
          · cases done
            exact inv_listed_old m inv _
          · obtain ⟨next, destroyed, done⟩ := Option.bind_eq_some_iff.mp done
            exact ih _ next (inv_destroy o m next inv _ destroyed) done
      · cases done
        exact inv_listed_old m inv _

theorem inv_step (o : Options n) (m r : EntryInfoMng n) (inv : Inv m) (first : Step n) (done : step o m first = some r) : Inv r := by
  cases first with
  | entity entity =>
      obtain ⟨new, done⟩ := (asserting_some _ _ _).mp done
      cases done
      exact inv_entity m inv entity (Option.isNone_iff_eq_none.mp new)
  | create entityNumber entry address garbage =>
      obtain ⟨entity, known, done⟩ := Option.bind_eq_some_iff.mp done
      obtain ⟨⟨absent, free, low, high⟩, done⟩ := (asserting_some _ _ _).mp done
      exact inv_create o m r inv entityNumber entry address garbage entity known absent (Option.isNone_iff_eq_none.mp free) low high done
  | handle address info =>
      obtain ⟨object, there, done⟩ := Option.bind_eq_some_iff.mp done
      obtain ⟨⟨_, owner, size⟩, done⟩ := (asserting_some _ _ _).mp done
      cases done
      exact inv_resize m inv address m.totalSize object info there owner (size ▸ inv.small address object there)
        (fun rest parts => by rw [parts, size])
  | updateMemorySize address => exact inv_update o m r inv address done
  | makeEnoughRoom =>
      obtain ⟨⟨ok, next⟩, room, rfl⟩ := Option.map_eq_some_iff.mp done
      exact inv_room o m next inv ok room
  | cleanupExpiredChosenEntry nowSec =>
      obtain ⟨⟨ok, next⟩, cleaned, rfl⟩ := Option.map_eq_some_iff.mp done
      exact inv_cleanup o nowSec _ 0 m next inv ok cleaned
  | moveToOldChosenList nowSec address => exact inv_move o nowSec m r inv address done
  | refresh address =>
      obtain ⟨⟨ok, next⟩, refreshed, rfl⟩ := Option.map_eq_some_iff.mp done
      exact inv_refresh m next inv address ok refreshed
  | destroy address => exact inv_destroy o m r inv address done

theorem inv_run (o : Options n) (m r : EntryInfoMng n) (inv : Inv m) (steps : List (Step n)) (done : run o m steps = some r) : Inv r := by
  induction steps generalizing m with
  | nil =>
      cases done
      exact inv
  | cons first rest ih =>
      obtain ⟨next, stepped, done⟩ := Option.bind_eq_some_iff.mp done
      exact ih next (inv_step o m next inv first stepped) done

-- No destruction gets stuck on a table that has lost the entry.
theorem runs_accounted (o : Options n) (steps : List (Step n)) (m : EntryInfoMng n) (done : run o start steps = some m) :
    Accounted m ∧ ∀ address, 0 < shareNum o → (m.entryInfos address).isSome → (destroyEntryInfo o m address).isSome := by
  have inv := inv_run o start m inv_start steps done
  exact ⟨inv_accounted m inv, fun address share there => destroy_live o m inv address share there⟩

-- Three entries of two entities: one is evicted, one expires.
def threeEntries : List (Step 3) :=
  [.entity { number := 1, entityId := 7, localAcceptorId := 0, preAuthEntry := 0, activePeerAcceptorId := 1, uuidBase := 0 },
    .entity { number := 2, entityId := 8, localAcceptorId := 0, preAuthEntry := 0, activePeerAcceptorId := 1, uuidBase := 0 },
    .create 1 1 64 (false, fun _ => false), .create 1 2 128 (false, fun _ => false), .create 2 1 192 (false, fun _ => false),
    .updateMemorySize 128, .moveToOldChosenList 10 128, .refresh 64, .makeEnoughRoom, .moveToOldChosenList 10 64,
    .cleanupExpiredChosenEntry 4000]

def twoEntries : Options 3 := { entityWorkerNum := 1, maxMemEntryNum := 2, machineSize := fun _ => 100 }

theorem three_accounted : ∃ m : EntryInfoMng 3, run twoEntries start threeEntries = some m ∧
    m.live = [192] ∧ m.entryLists 2 = [192] ∧ m.totalSize = 100 ∧ Accounted m :=
  ⟨_, rfl, rfl, rfl, rfl, (runs_accounted twoEntries threeEntries _ rfl).1⟩

end EntryInfoMng

end PaxosStore.Certain
