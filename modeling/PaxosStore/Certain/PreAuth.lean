import PaxosStore.Certain.Entries

set_option autoImplicit false

namespace PaxosStore.Certain

open PaxosStore.Consensus EntryStateMachine

variable {n : Nat}

-- A step whose ballot number is below 2^32.
def Entries.fitMove (s : Entries n) (mv : Move n) : Option (Entries n) :=
  if mv.fits s then s.move mv else none

-- Of a chosen ballot of acceptor `i`, some other acceptor is a witness: it voted
-- for it and has had the entry chosen at that ballot ever since.
theorem elected_witness (s : Entries 3) (e : Nat) (h : History 3) (i : Fin 3) (inv : EntryInv s e h)
    (elected : (s.entry e).elected i = true) :
    ∃ z, z ≠ i ∧ ((s.entry e).localRecord z).acceptedNum = ((s.entry e).localRecord i).acceptedNum := by
  obtain ⟨marked, owns⟩ := (elected_iff _ i).mp elected
  obtain ⟨quorum, major, votes⟩ := (current_own h i _ (inv.backed.current i)).chosen marked
  have large : 1 < quorum.card := by
    rw [Majority, Fintype.card_fin] at major
    omega
  obtain ⟨z, member, other⟩ := Finset.exists_mem_ne large i
  have foreign : ¬ Owns z ((s.entry e).localRecord i).acceptedNum := fun mine => other (owner_unique z i _ mine owns)
  have voted := votes z member
  exact ⟨z, other, (inv.spread (Nat.le_refl 3) z _ (by rw [Acceptors.localRecord, voted]; simp) foreign).2⟩

theorem three_pre_auth_unique (s : Entries 3) (e : Nat) (i j : Fin 3) (inv : EntriesInv s) (left : s.preAuth i e = true)
    (right : s.preAuth j e = true) : i = j := by
  rcases inv.noted i e left with ⟨zero, first⟩ | ⟨positive, electedLeft⟩
  · rcases inv.noted j e right with ⟨_, second⟩ | ⟨above, _⟩
    · exact Fin.ext (first.trans second.symm)
    · omega
  · rcases inv.noted j e right with ⟨zero, _⟩ | ⟨_, electedRight⟩
    · omega
    · obtain ⟨h, known⟩ := inv.entry e positive
      obtain ⟨z, otherLeft, sameLeft⟩ := elected_witness s e h i known electedLeft
      obtain ⟨w, otherRight, sameRight⟩ := elected_witness s e h j known electedRight
      have ownsLeft := ((elected_iff _ i).mp electedLeft).2
      have ownsRight := ((elected_iff _ j).mp electedRight).2
      by_contra different
      have apart : ((s.entry e).localRecord i).acceptedNum ≠ ((s.entry e).localRecord j).acceptedNum := by
        intro same
        exact different (owner_unique i j _ ownsLeft (same ▸ ownsRight))
      -- i and z hold one ballot, j and w another: four different acceptors out of three.
      have first : z ≠ j := by rintro rfl; exact apart sameLeft.symm
      have second : z ≠ w := by rintro rfl; exact apart (sameLeft.symm.trans sameRight)
      have third : i ≠ w := by rintro rfl; exact apart sameRight
      omega

theorem three_inv_step (s : Entries 3) (mv : Move 3) (t : Entries 3) (inv : EntriesInv s) (done : s.fitMove mv = some t) :
    EntriesInv t := by
  rw [Entries.fitMove] at done
  by_cases fits : mv.fits s = true
  · rw [if_pos fits] at done
    apply entries_inv_move s mv t (by decide) inv fits _ done
    rintro e i rfl right j first
    exact three_pre_auth_unique s (e - 1) j i inv (inv.right j e first).2 right
  · rw [if_neg fits] at done
    cases done

theorem pre_auth_safe_of_three (flags : Nat → Fin 3 → Fin 3 → Bool) (s : Entries 3)
    (run : Reaches Entries.fitMove (Entries.start flags) s) :
    (∀ e i j, s.firstRound i e = true → s.firstRound j e = true → i = j) ∧
    ∀ e, 0 < e → ∀ i j, ((s.entry e).localRecord i).chosen = true → ((s.entry e).localRecord j).chosen = true →
      ((s.entry e).localRecord i).proposal = ((s.entry e).localRecord j).proposal := by
  have inv := run_invariant Entries.fitMove EntriesInv three_inv_step _ s (entries_inv_start flags) run
  exact ⟨inv.sole, fun e positive i j left right => entries_agree s e i j inv positive left right⟩

-- Entry 1 is chosen at a ballot of acceptor 1, which everybody learns.
def firstEntry : List (Move 3) :=
  let promise : EntryRecord := { preparedNum := 5, promisedNum := 5 }
  let answer : EntryRecord := { promisedNum := 5 }
  let proposal : EntryRecord := { preparedNum := 5, promisedNum := 5, acceptedNum := 5, valueId := 5 }
  let learnt : EntryRecord := { promisedNum := 5, acceptedNum := 5, valueId := 5, chosen := true }
  [.act 1 (.promise 1 false), .act 1 (.send 1), .act 1 (.update 2 1 promise), .act 1 (.send 2), .act 1 (.update 1 2 answer),
    .act 1 (.accept 1 [] []), .act 1 (.send 1), .act 1 (.update 2 1 proposal), .act 1 (.send 2), .act 1 (.update 1 2 learnt),
    .updateByChosenEntry 1 1, .act 1 (.update 0 2 learnt), .act 2 (.promise 0 false)]

def handOver : List (Move 3) :=
  let proposal : EntryRecord := { preparedNum := 2, promisedNum := 2, acceptedNum := 2, valueId := 2, value := [1] }
  let learnt : EntryRecord := { promisedNum := 2, acceptedNum := 2, valueId := 2, value := [1], chosen := true }
  firstEntry ++ [.act 2 (.promise 1 true), .act 2 (.accept 1 [1] []), .act 2 (.send 1), .act 2 (.update 2 1 proposal),
    .act 2 (.send 2), .act 2 (.update 1 2 learnt)]

theorem hand_over_agrees : ∃ s : Entries 3, Reaches Entries.fitMove (Entries.start fun _ _ _ => false) s ∧
    s.firstRound 1 2 = true ∧ ((s.entry 2).localRecord 1).chosen = true ∧ ((s.entry 2).localRecord 2).chosen = true ∧
    ((s.entry 2).localRecord 1).proposal = ((s.entry 2).localRecord 2).proposal := by
  have run := reaches_end Entries.fitMove (Entries.start fun _ _ _ => false) handOver (by decide +kernel)
  have left : (((endOf Entries.fitMove (Entries.start fun _ _ _ => false) handOver).entry 2).localRecord 1).chosen = true := by
    decide +kernel
  have right : (((endOf Entries.fitMove (Entries.start fun _ _ _ => false) handOver).entry 2).localRecord 2).chosen = true := by
    decide +kernel
  exact ⟨_, run, by decide +kernel, left, right, (pre_auth_safe_of_three _ _ run).2 2 (by decide) 1 2 left right⟩

-- Acceptor 0 has promised itself `num` and heard nothing.
def waiting (num : Nat) : EntryStateMachine 3 :=
  ⟨0, Function.update (fun _ => {}) 0 { preparedNum := num, promisedNum := num }, fun _ => false, .promiseLocal⟩

def climb (s : Entries 3) (num : Nat) : Entries 3 :=
  { s with entry := Function.update s.entry 2 ((Acceptors.start fun _ _ => false).setMachine 0 (waiting num)) }

theorem waiting_alone (num : Nat) (positive : 0 < num) : ((waiting num).promisedBy num).card < 3 / 2 + 1 := by
  have only : (waiting num).promisedBy num ⊆ {0} := by
    intro i member
    by_contra other
    have elsewhere : i ≠ 0 := by simpa using other
    have promised : ((waiting num).entryRecords i).promisedNum = num := by simpa [promisedBy] using member
    simp [waiting, elsewhere] at promised
    omega
  have few := Finset.card_le_card only
  rw [Finset.card_singleton] at few
  omega

theorem waiting_again (old num : Nat) (positive : 0 < num) :
    ((waiting old).setLocal { (waiting old).localRecord with preparedNum := num, promisedNum := num }).calcEntryState =
      some (waiting num) := by
  have written : (waiting old).setLocal { (waiting old).localRecord with preparedNum := num, promisedNum := num } = waiting num := by
    simp [waiting, setLocal, setRecord, EntryStateMachine.localRecord]
  rw [written]
  have alone := waiting_alone num positive
  have record : (waiting num).localRecord = { preparedNum := num, promisedNum := num } := by
    simp [waiting, EntryStateMachine.localRecord]
  unfold calcEntryState
  rw [record]
  simp only [Bool.false_eq_true, if_false, gt_iff_lt, Nat.lt_irrefl, false_and, Nat.zero_le, and_self, if_true]
  rw [if_neg (by omega), if_neg (by omega), if_neg (by omega)]
  rfl

theorem waiting_promise (k : Nat) (fits : 3 * k + 7 < 2 ^ 32) :
    (waiting (3 * k + 4)).promise false = some (.ok, waiting (3 * k + 7)) := by
  have record : (waiting (3 * k + 4)).localRecord.promisedNum = 3 * k + 4 := by
    simp [waiting, EntryStateMachine.localRecord]
  have next : (waiting (3 * k + 4)).exactNum false = 3 * k + 7 := by
    unfold exactNum
    rw [record]
    have id : ((waiting (3 * k + 4)).localAcceptorId : Nat) = 0 := rfl
    rw [id]
    dsimp only
    rw [if_neg (by omega)]
    omega
  unfold promise
  rw [next_num_exact _ false (by decide) (by omega), next]
  exact congrArg (Option.map fun m => (if m.entryState ≠ .promiseLocal then RetCode.invalidEntryState else RetCode.ok, m))
    (waiting_again (3 * k + 4) (3 * k + 7) (by omega))

theorem climb_step (s : Entries 3) (k : Nat) (fits : 3 * k + 7 < 2 ^ 32) :
    (climb s (3 * k + 4)).move (.act 2 (.promise 0 false)) = some (climb s (3 * k + 7)) := by
  have acted : ((climb s (3 * k + 4)).entry 2).act (.promise 0 false) =
      some ((Acceptors.start fun _ _ => false).setMachine 0 (waiting (3 * k + 7))) := by
    simp [climb, Acceptors.act, Acceptors.setMachine, waiting_promise k fits]
  have late : ∀ i, ((Acceptors.start fun _ _ => false).setMachine 0 (waiting (3 * k + 7))).inFirstRound i = false := by
    intro i
    by_cases zero : i = 0
    · subst zero
      simp [Acceptors.inFirstRound, Acceptors.setMachine, Acceptors.localRecord, waiting, EntryStateMachine.localRecord]
    · simp [Acceptors.inFirstRound, Acceptors.setMachine, Acceptors.localRecord, zero, Acceptors.start, EntryStateMachine.create,
        EntryStateMachine.localRecord]
  rw [Entries.move, if_pos ⟨by decide, rfl⟩, acted]
  simp [Entries.setEntry, climb, late]

theorem climb_run (s : Entries 3) (k : Nat) (fits : 3 * k + 4 < 2 ^ 32) :
    Reaches Entries.move (climb s 4) (climb s (3 * k + 4)) := by
  induction k with
  | zero => exact reaches_refl _ _
  | succ k ih =>
      apply reaches_trans _ _ _ _ (ih (by omega))
      exact reaches_step _ _ _ _ (climb_step s k (by omega))

-- Acceptor 1 skips the prepare phase at entry 2; acceptor 0 wraps around to ballot 3.
def secondEntry : List (Move 3) :=
  let rightful : EntryRecord := { preparedNum := 2, promisedNum := 2, acceptedNum := 2, valueId := 2, value := [1] }
  let wrapped : EntryRecord := { preparedNum := 3, promisedNum := 3, acceptedNum := 3, valueId := 3, value := [0] }
  [.act 2 (.promise 1 true), .act 2 (.accept 1 [1] []), .act 2 (.send 1), .act 2 (.update 2 1 rightful),
    .act 2 (.promise 0 false), .act 2 (.accept 0 [0] []), .act 2 (.send 0), .act 2 (.update 1 0 wrapped)]

def afterFirst : Entries 3 := endOf Entries.move (Entries.start fun _ _ _ => false) firstEntry

theorem climb_first : climb afterFirst 4 = afterFirst := by
  have here : (Acceptors.start fun _ _ => false).setMachine 0 (waiting 4) = afterFirst.entry 2 := by decide +kernel
  rw [climb, here, Function.update_eq_self]

def wrappedState : Entries 3 := endOf Entries.move (climb afterFirst (3 * 1431655763 + 4)) secondEntry

theorem wrapped_reached : Reaches Entries.move (Entries.start fun _ _ _ => false) wrappedState := by
  have first := reaches_end Entries.move (Entries.start fun _ _ _ => false) firstEntry (by decide +kernel)
  have middle := climb_run afterFirst 1431655763 (by decide)
  rw [climb_first] at middle
  have last := reaches_end Entries.move (climb afterFirst (3 * 1431655763 + 4)) secondEntry (by decide +kernel)
  exact reaches_trans _ _ _ _ first (reaches_trans _ _ _ _ middle last)

theorem wrapped_pre_auth_unsafe : ∃ s : Entries 3, Reaches Entries.move (Entries.start fun _ _ _ => false) s ∧
    s.firstRound 0 2 = true ∧ s.firstRound 1 2 = true ∧
    ((s.entry 2).localRecord 1).chosen = true ∧ ((s.entry 2).localRecord 2).chosen = true ∧
    ((s.entry 2).localRecord 1).value ≠ ((s.entry 2).localRecord 2).value := by
  refine ⟨wrappedState, wrapped_reached, ?_⟩
  decide +kernel
-- With five acceptors an entry can be chosen at ballots of two proposers. The
-- right to skip the prepare phase at the next entry is then used by one only.
def Move.unrivalled (s : Entries n) : Move n → Bool
  | .act e (.promise i true) => e ≤ 1 ∨ ∀ j, j ≠ i → (s.entry (e - 1)).elected j = false
  | _ => true

def Entries.soleMove (s : Entries n) (mv : Move n) : Option (Entries n) :=
  if mv.fits s ∧ mv.unrivalled s then s.move mv else none

theorem sole_inv_step (small : n ≤ kMaxAcceptorNum) (s : Entries n) (mv : Move n) (t : Entries n) (inv : EntriesInv s)
    (done : s.soleMove mv = some t) : EntriesInv t := by
  rw [Entries.soleMove] at done
  by_cases allowed : mv.fits s = true ∧ mv.unrivalled s = true
  · rw [if_pos allowed] at done
    apply entries_inv_move s mv t small inv allowed.1 _ done
    rintro e i rfl right j first
    obtain ⟨positive, earlier⟩ := inv.right j e first
    have unrivalled : e ≤ 1 ∨ ∀ k, k ≠ i → (s.entry (e - 1)).elected k = false := by
      simpa [Move.unrivalled] using allowed.2
    by_contra different
    rcases inv.noted j (e - 1) earlier with ⟨zero, firstJ⟩ | ⟨above, elected⟩
    · rcases inv.noted i (e - 1) right with ⟨_, firstI⟩ | ⟨above, _⟩
      · exact different (Fin.ext (firstJ.trans firstI.symm))
      · omega
    · rcases unrivalled with low | alone
      · omega
      · rw [alone j different] at elected
        cases elected
  · rw [if_neg allowed] at done
    cases done

theorem pre_auth_safe_unrivalled (flags : Nat → Fin 5 → Fin 5 → Bool) (s : Entries 5)
    (run : Reaches Entries.soleMove (Entries.start flags) s) :
    (∀ e i j, s.firstRound i e = true → s.firstRound j e = true → i = j) ∧
    ∀ e, 0 < e → ∀ i j, ((s.entry e).localRecord i).chosen = true → ((s.entry e).localRecord j).chosen = true →
      ((s.entry e).localRecord i).proposal = ((s.entry e).localRecord j).proposal := by
  have inv := run_invariant Entries.soleMove EntriesInv (sole_inv_step (by decide)) _ s (entries_inv_start flags) run
  exact ⟨inv.sole, fun e positive i j left right => entries_agree s e i j inv positive left right⟩

-- Entry 1: acceptor 0 proposes at ballot 1 and its votes are delayed; acceptor 1
-- re-proposes the same value at ballot 7. Both ballots get a majority.
def twiceChosen : List (Move 5) :=
  let first : EntryRecord := { preparedNum := 1, promisedNum := 1, acceptedNum := 1, valueId := 1 }
  let vote : EntryRecord := { promisedNum := 1, acceptedNum := 1, valueId := 1 }
  let prepare : EntryRecord := { preparedNum := 7, promisedNum := 7 }
  let answer : EntryRecord := { promisedNum := 7, acceptedNum := 1, valueId := 1 }
  let second : EntryRecord := { preparedNum := 7, promisedNum := 7, acceptedNum := 7, valueId := 1 }
  let revote : EntryRecord := { promisedNum := 7, acceptedNum := 7, valueId := 1 }
  [.act 1 (.promise 0 true), .act 1 (.accept 0 [] []), .act 1 (.send 0), .act 1 (.update 2 0 first), .act 1 (.send 2),
    .act 1 (.update 3 0 first), .act 1 (.send 3),
    .act 1 (.promise 1 false), .act 1 (.send 1), .act 1 (.update 2 1 prepare), .act 1 (.send 2), .act 1 (.update 3 1 prepare),
    .act 1 (.send 3), .act 1 (.update 1 2 answer), .act 1 (.update 1 3 answer), .act 1 (.accept 1 [] []), .act 1 (.send 1),
    .act 1 (.update 2 1 second), .act 1 (.send 2), .act 1 (.update 3 1 second), .act 1 (.send 3),
    .act 1 (.update 1 2 revote), .act 1 (.update 1 3 revote), .updateByChosenEntry 1 1,
    .act 1 (.update 0 2 vote), .act 1 (.update 0 3 vote), .updateByChosenEntry 0 1]

-- Entry 2: both skip the prepare phase.
def bothSkip : List (Move 5) :=
  let left : EntryRecord := { preparedNum := 1, promisedNum := 1, acceptedNum := 1, valueId := 1, value := [0] }
  let leftVote : EntryRecord := { promisedNum := 1, acceptedNum := 1, valueId := 1, value := [0] }
  let right : EntryRecord := { preparedNum := 2, promisedNum := 2, acceptedNum := 2, valueId := 2, value := [1] }
  let rightVote : EntryRecord := { promisedNum := 2, acceptedNum := 2, valueId := 2, value := [1] }
  [.act 2 (.promise 0 true), .act 2 (.accept 0 [0] []), .act 2 (.send 0), .act 2 (.promise 1 true), .act 2 (.accept 1 [1] []),
    .act 2 (.send 1), .act 2 (.update 2 0 left), .act 2 (.send 2), .act 2 (.update 3 0 left), .act 2 (.update 3 2 leftVote),
    .act 2 (.update 4 1 right), .act 2 (.send 4), .act 2 (.update 2 1 right), .act 2 (.update 2 4 rightVote)]

theorem five_pre_auth_unsafe : ∃ s : Entries 5, Reaches Entries.move (Entries.start fun _ _ _ => false) s ∧
    s.firstRound 0 2 = true ∧ s.firstRound 1 2 = true ∧
    ((s.entry 2).localRecord 2).chosen = true ∧ ((s.entry 2).localRecord 3).chosen = true ∧
    ((s.entry 2).localRecord 2).value ≠ ((s.entry 2).localRecord 3).value := by
  have run := reaches_end Entries.move (Entries.start fun _ _ _ => false) (twiceChosen ++ bothSkip) (by decide +kernel)
  refine ⟨_, run, ?_⟩
  decide +kernel

def oneSkips : List (Move 5) :=
  let first : EntryRecord := { preparedNum := 1, promisedNum := 1, acceptedNum := 1, valueId := 1 }
  let vote : EntryRecord := { promisedNum := 1, acceptedNum := 1, valueId := 1 }
  [.act 1 (.promise 0 true), .act 1 (.accept 0 [] []), .act 1 (.send 0), .act 1 (.update 2 0 first), .act 1 (.send 2),
    .act 1 (.update 3 0 first), .act 1 (.send 3), .act 1 (.update 0 2 vote), .act 1 (.update 0 3 vote),
    .act 1 (.update 3 2 vote), .updateByChosenEntry 0 1, .act 2 (.promise 0 true)]

theorem one_skips_agrees : ∃ s : Entries 5, Reaches Entries.soleMove (Entries.start fun _ _ _ => false) s ∧
    s.firstRound 0 2 = true ∧ ((s.entry 1).localRecord 0).chosen = true ∧ ((s.entry 1).localRecord 3).chosen = true ∧
    ((s.entry 1).localRecord 0).proposal = ((s.entry 1).localRecord 3).proposal := by
  have run := reaches_end Entries.soleMove (Entries.start fun _ _ _ => false) oneSkips (by decide +kernel)
  have left : (((endOf Entries.soleMove (Entries.start fun _ _ _ => false) oneSkips).entry 1).localRecord 0).chosen = true := by
    decide +kernel
  have right : (((endOf Entries.soleMove (Entries.start fun _ _ _ => false) oneSkips).entry 1).localRecord 3).chosen = true := by
    decide +kernel
  exact ⟨_, run, by decide +kernel, left, right, (pre_auth_safe_unrivalled _ _ run).2 1 (by decide) 0 3 left right⟩

end PaxosStore.Certain
