import PaxosStore.Certain.OldChosen

set_option autoImplicit false

namespace PaxosStore.Certain

variable {n : Nat}

namespace Node

open Desk

-- The states in which the second loop of MakeEnoughRoomInner peeks at the oldest entry.
inductive OldestLoop (o : Options n) : Nat → Node n → Node n → Prop where
  | peek (count : Nat) (s : Node n) (past : needRemove o s = true) : OldestLoop o (count + 1) s s
  | refreshed (count : Nat) (s u : Node n) (key : EntryKey) (info : EntryInfo n) (past : needRemove o s = true)
      (last : s.lruTable.getLast? = some key) (live : s.entryInfos key = some info) (uncertain : info.uncertain = true)
      (later : OldestLoop o count (s.refreshEntryInfo key) u) : OldestLoop o (count + 1) s u
  | destroyed (count : Nat) (s t u : Node n) (key : EntryKey) (info : EntryInfo n) (past : needRemove o s = true)
      (last : s.lruTable.getLast? = some key) (live : s.entryInfos key = some info) (certain : info.uncertain = false)
      (gone : s.destroyEntryInfo ⟨key, info.number⟩ = some t) (later : OldestLoop o count t u) : OldestLoop o (count + 1) s u

inductive PeeksOldest (o : Options n) (s : Node n) : Node n → Prop where
  | room (count : Nat) (t u : Node n) (cleared : removeOldChosen o kMaxCleanupNum s = some (count, t)) (empty : t.oldChosenList = [])
      (loop : OldestLoop o count t u) : PeeksOldest o s u

theorem oldest_loop_tabled (o : Options n) (count : Nat) (s u : Node n) (loop : OldestLoop o count s u) (empty : s.oldChosenList = [])
    (tabled : Tabled s.desk) : Tabled u.desk ∧ needRemove o u = true := by
  induction loop with
  | peek count s past => exact ⟨tabled, past⟩
  | refreshed count s u key info past last live uncertain later ih =>
      exact ih empty (tabled_act _ _ (.refresh key (List.mem_of_getLast? last)) tabled)
  | destroyed count s t u key info past last live certain gone later ih =>
      obtain ⟨same, found, effect⟩ := destroy_desk s t _ gone
      obtain ⟨liveSame, -⟩ := deref_some _ _ same found
      have equal : info = same := Option.some.inj (live.symm.trans liveSame)
      subst equal
      refine ih ((congrArg Desk.oldChosenList effect).trans empty) ?_
      rw [effect]
      exact tabled_act s.desk _ (.oldest key info empty live certain) tabled

theorem peeks_oldest_there (o : Options n) (s u : Node n) (peeks : PeeksOldest o s u) (tabled : Tabled s.desk) :
    ∃ key info, u.lruTable.getLast? = some key ∧ u.entryInfos key = some info := by
  cases peeks with
  | room count t u cleared empty loop =>
      have toLoop := remove_old_chosen_works o kMaxCleanupNum count s t cleared
      have before := changes_keep Tabled tabled_change _ _ (works_changes s t toLoop) tabled
      obtain ⟨after, past⟩ := oldest_loop_tabled o count t u loop empty before
      exact oldest_there o u after past

-- The states that a run goes through from here on.
inductive Later (o : Options n) (s : Node n) : Node n → Prop where
  | now : Later o s s
  | step (t u : Node n) (env : Env n) (event : Event) (before : Later o s t) (done : t.handle o env event = some u) : Later o s u

theorem later_reached (o : Options n) (s t : Node n) (reached : Reached o Any s) (later : Later o s t) : Reached o Any t := by
  induction later with
  | now => exact reached
  | step t u env event _ done ih => exact .step t u env event ih trivial done

theorem later_follows (o : Options n) (s t : Node n) (key : EntryKey) (number : Nat) (reached : Reached o Any s) (later : Later o s t)
    (follows : Follows key number s.desk) : Follows key number t.desk := by
  induction later with
  | now => exact follows
  | step t u env event before done ih =>
      have once := reached_once o Any t (later_reached o s t reached before)
      exact changes_keep (Follows key number) (follows_change key number) _ _ (handle_changes o t u env event once done) ih

-- What the asserts of the two loops over the old chosen list look at.
def Deletable (s : Node n) (key : EntryKey) : Prop :=
  ∃ info, s.entryInfos key = some info ∧ info.uncertain = false ∧ info.machine.entryState = .chosen

theorem clean_deletable (s : Node n) (clean : Clean s.desk) : ∀ key ∈ s.oldChosenList, Deletable s key := by
  intro key member
  obtain ⟨info, entity, evictable⟩ := clean.listed key member
  exact ⟨info, evictable.live, evictable.certain, evictable.closed⟩

-- In every state reached the keys on the old chosen list are those of live, chosen
-- and certain entries, and such an entry stays so, with its key on the list, as long
-- as the object lives. Whenever room is asked for, in the middle of any handler, the
-- loop over the list runs to its end and the oldest entry of the table is there to
-- be looked at; and the cleanup of expired entries runs to its end.
theorem eviction_candidates_clean (o : Options n) (s : Node n) (reached : Reached o Any s) :
    (∀ key ∈ s.oldChosenList, Deletable s key) ∧
      (∀ t, Later o s t → ∀ key ∈ s.oldChosenList, ∀ info after, s.entryInfos key = some info → t.entryInfos key = some after →
        after.number = info.number → key ∈ t.oldChosenList ∧ after.uncertain = false ∧ after.machine.entryState = .chosen) ∧
      ∀ env event,
        (∀ u, AsksRoom o s env event u → (∀ key ∈ u.oldChosenList, Deletable u key) ∧ (removeOldChosen o kMaxCleanupNum u).isSome ∧
          ∀ v, PeeksOldest o u v → ∃ key info, v.lruTable.getLast? = some key ∧ v.entryInfos key = some info) ∧
        ∀ next u, event = .tick next → TickCleans { s with env := env } u →
          (∀ key ∈ u.oldChosenList, Deletable u key) ∧ u.cleanupExpiredChosenEntry.isSome := by
  have clean := reached_clean o Any s reached
  have once := reached_once o Any s reached
  have tabled := reached_desk o Any Tabled tabled_start tabled_change s reached
  have numbered : Numbered s.desk := reached_desk o Any Numbered (fun _ _ _ live => by cases live) numbered_change s reached
  refine ⟨clean_deletable s clean, fun t later key member info after live liveAfter same => ?_, fun env event => ⟨fun u asks => ?_, ?_⟩⟩
  · have follows := later_follows o s t key info.number reached later ⟨numbered key info live, fun _ _ _ => member⟩
    have listed := follows.listed after liveAfter same
    obtain ⟨other, here, certain, closed⟩ := clean_deletable t (reached_clean o Any t (later_reached o s t reached later)) key listed
    rw [liveAfter] at here
    cases here
    exact ⟨listed, certain, closed⟩
  · have changes := asks_room_changes o s u env event once asks
    have cleanHere := changes_keep Clean clean_change _ _ changes clean
    exact ⟨clean_deletable u cleanHere, remove_old_chosen_total o _ u cleanHere,
      fun v peeks => peeks_oldest_there o u v peeks (changes_keep Tabled tabled_change _ _ changes tabled)⟩
  · rintro next u - cleans
    have onClock : Clean { s.desk with now := env.nowMsec } := clean_list s.desk _ clean rfl rfl rfl (.refl _)
    have cleanHere := changes_keep Clean clean_change _ _ (tick_cleans_changes { s with env := env } u once cleans) onClock
    exact ⟨clean_deletable u cleanHere, cleanup_total _ _ 0 u cleanHere⟩

-- Every entry is too much for this memory.
def crowded : Options 3 := { maxMemEntrySize := 0, machineSize := fun _ => 1 }

def chosenMsg (entry : Nat) : PaxosCmd :=
  { entityId := 0, entry := entry, localAcceptorId := 1, peerAcceptorId := 0
    localEntryRecord := { preparedNum := 2, promisedNum := 2, acceptedNum := 2, valueId := 2, chosen := true } }

def retiringRun : List (Env 3 × Event) :=
  [({}, .paxosCmd (chosenMsg 1)), ({}, .plogReq 0 0 .ok), ({}, .plogRsp 0), ({}, .plogReq 0 0 .ok), ({}, .plogRsp 0)]

-- The first entry is retired, and evicted when the second one asks for room.
theorem retired_entry_evicted :
    ∃ s t : Node 3, runEvents crowded unchecked retiringRun (start fun _ => 0) = some s ∧ s.oldChosenList = [⟨0, 1⟩] ∧
      Deletable s ⟨0, 1⟩ ∧ s.handle crowded {} (.paxosCmd (chosenMsg 2)) = some t ∧ t.oldChosenList = [] ∧ t.lruTable = [⟨0, 2⟩] := by
  have ends : (runEvents crowded unchecked retiringRun (start fun _ => 0)).bind (fun s =>
      (s.handle crowded {} (.paxosCmd (chosenMsg 2))).map fun t => (s.oldChosenList, t.oldChosenList, t.lruTable)) =
      some ([⟨0, 1⟩], [], [⟨0, 2⟩]) := by decide +kernel
  obtain ⟨s, run, seen⟩ := Option.bind_eq_some_iff.mp ends
  obtain ⟨t, handled, shape⟩ := Option.map_eq_some_iff.mp seen
  obtain ⟨list, after⟩ := Prod.mk.inj shape
  obtain ⟨empty, table⟩ := Prod.mk.inj after
  have clean := eviction_candidates_clean crowded s (unchecked_reached crowded retiringRun _ s (.start _) run)
  exact ⟨s, t, run, list, clean.1 ⟨0, 1⟩ (by rw [list]; exact List.mem_cons_self), handled, empty, table⟩

end Node

end PaxosStore.Certain
