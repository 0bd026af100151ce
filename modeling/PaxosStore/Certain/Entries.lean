import PaxosStore.Certain.Agreement

set_option autoImplicit false

namespace PaxosStore.Certain

open PaxosStore.Consensus EntryStateMachine

-- All entries of one entity. `preAuth i e` says that acceptor `i` once set its
-- pre_auth_entry to `e`; the source keeps the largest. `firstRound` only records
-- who ever prepared a first-round ballot at an entry.
structure Entries (n : Nat) where
  entry : Nat → Acceptors n
  preAuth : Fin n → Nat → Bool
  firstRound : Fin n → Nat → Bool

inductive Move (n : Nat) where
  | act (entry : Nat) (a : Action n)
  | updateByChosenEntry (i : Fin n) (entry : Nat)
deriving DecidableEq

variable {n : Nat}

def Acceptors.inFirstRound (s : Acceptors n) (i : Fin n) : Bool :=
  0 < (s.localRecord i).preparedNum ∧ (s.localRecord i).preparedNum ≤ n

-- The entry was chosen at a ballot of acceptor `i`, as far as `i` knows.
def Acceptors.elected (s : Acceptors n) (i : Fin n) : Bool :=
  (s.localRecord i).chosen ∧ ((s.localRecord i).acceptedNum - 1) % n = i

namespace Entries

-- EntityInfo starts with pre_auth_entry = 0 at acceptor 0 and kInvalidEntry elsewhere.
def start (flags : Nat → Fin n → Fin n → Bool) : Entries n :=
  ⟨fun e => Acceptors.start (flags e), fun i e => i.val = 0 ∧ e = 0, fun _ _ => false⟩

-- HandleWriteCmd passes pre_auth = (pre_auth_entry + 1 == entry).
def authorised (s : Entries n) (e : Nat) : Action n → Bool
  | .promise i preAuth => !preAuth || s.preAuth i (e - 1)
  | _ => true

def setEntry (s : Entries n) (e : Nat) (t : Acceptors n) : Entries n :=
  { s with
    entry := Function.update s.entry e t
    firstRound := fun i x => s.firstRound i x || (x = e && t.inFirstRound i) }

def move (s : Entries n) : Move n → Option (Entries n)
  | .act e a => if 0 < e ∧ s.authorised e a then ((s.entry e).act a).map fun t => s.setEntry e t else none
  | .updateByChosenEntry i e =>
      if 0 < e ∧ ((s.entry e).machines i).entryState = .chosen ∧ ((s.entry e).machines i).hasAcceptedMyProposal i then
        some { s with preAuth := fun j x => s.preAuth j x || (j = i && x = e) }
      else none

end Entries

structure EntryInv (s : Entries n) (e : Nat) (h : History n) : Prop where
  backed : Backed h (s.entry e)
  prepared : ∀ i, (s.entry e).inFirstRound i = true → s.firstRound i e = true
  proposed : ∀ ballot, ballot ≤ n → h.proposal ballot ≠ none → ∀ i, Owns i ballot → s.firstRound i e = true
  -- With three acceptors a vote for somebody else's ballot already makes a majority.
  spread : n ≤ 3 → ∀ i ballot, h.vote i ballot ≠ none → ¬ Owns i ballot →
    ((s.entry e).localRecord i).chosen = true ∧ ((s.entry e).localRecord i).acceptedNum = ballot

structure EntriesInv (s : Entries n) : Prop where
  entry : ∀ e, 0 < e → ∃ h, EntryInv s e h
  noted : ∀ i e, s.preAuth i e = true → e = 0 ∧ i.val = 0 ∨ 0 < e ∧ (s.entry e).elected i = true
  right : ∀ i e, s.firstRound i e = true → 0 < e ∧ s.preAuth i (e - 1) = true
  sole : ∀ e i j, s.firstRound i e = true → s.firstRound j e = true → i = j

theorem elected_iff (s : Acceptors n) (i : Fin n) :
    s.elected i = true ↔ (s.localRecord i).chosen = true ∧ Owns i (s.localRecord i).acceptedNum := by
  simp [Acceptors.elected, Owns]

theorem elected_keeps (s t : Acceptors n) (i : Fin n) (keeps : Keeps (s.localRecord i) (t.localRecord i))
    (elected : s.elected i = true) : t.elected i = true := by
  rw [elected_iff] at elected ⊢
  obtain ⟨marked, accepted, _⟩ := keeps elected.1
  exact ⟨marked, accepted ▸ elected.2⟩

theorem entries_inv_start (flags : Nat → Fin n → Fin n → Bool) : EntriesInv (Entries.start flags) where
  entry := fun e _ => ⟨Voting.empty,
    { backed := backed_start (flags e)
      prepared := by intro i first; exact absurd first (by simp [Acceptors.inFirstRound, Entries.start, Acceptors.start,
        Acceptors.localRecord, EntryStateMachine.create, EntryStateMachine.localRecord])
      proposed := fun _ _ known => absurd rfl known
      spread := fun _ _ _ known => absurd rfl known }⟩
  noted := by
    intro i e noted
    have initial : i.val = 0 ∧ e = 0 := by simpa [Entries.start] using noted
    exact .inl ⟨initial.2, initial.1⟩
  right := by intro i e first; cases first
  sole := by intro e i j first; cases first

-- Two first-round ballots of one owner are the same ballot.
theorem first_ballot_unique (i : Fin n) (left right : Nat) (ownsLeft : Owns i left) (ownsRight : Owns i right)
    (positiveLeft : 0 < left) (positiveRight : 0 < right) (lowLeft : left ≤ n) (lowRight : right ≤ n) : left = right := by
  unfold Owns at ownsLeft ownsRight
  rw [Nat.mod_eq_of_lt (by omega)] at ownsLeft ownsRight
  omega

theorem unused_of_sole (s : Entries n) (e : Nat) (h : History n) (inv : EntryInv s e h)
    (sole : ∀ i j, s.firstRound i e = true → s.firstRound j e = true → i = j) (i : Fin n)
    (positive : 0 < ((s.entry e).localRecord i).preparedNum) (low : ((s.entry e).localRecord i).preparedNum ≤ n)
    (silent : h.vote i ((s.entry e).localRecord i).preparedNum = none) (other : Nat) (otherLow : other ≤ n) :
    h.proposal other = none := by
  cases known : h.proposal other with
  | none => rfl
  | some proposal =>
      obtain ⟨above, _, owner⟩ := inv.backed.origin other proposal known
      have ownerBound : (other - 1) % n < n := Nat.mod_lt _ i.pos
      have owns : Owns ⟨(other - 1) % n, ownerBound⟩ other := rfl
      have mine := inv.prepared i (by simp [Acceptors.inFirstRound, positive, low])
      have theirs := inv.proposed other otherLow (by simp [known]) ⟨(other - 1) % n, ownerBound⟩ owns
      have same := sole _ i theirs mine
      rw [same] at owns
      have prepared := (inv.backed.current i).prepared positive
      have equal := first_ballot_unique i other _ owns prepared above positive otherLow low
      have voted := owner i owns
      rw [equal] at voted
      exact absurd (voted.symm.trans silent) (by simp)

theorem spread_step (h next : History n) (s t : Acceptors n) (small : n ≤ 3) (backed : Backed next t) (grown : Grown h next s t)
    (keeps : ∀ i, Keeps (s.localRecord i) (t.localRecord i))
    (spread : ∀ i ballot, h.vote i ballot ≠ none → ¬ Owns i ballot →
      (s.localRecord i).chosen = true ∧ (s.localRecord i).acceptedNum = ballot)
    (i : Fin n) (ballot : Nat) (voted : next.vote i ballot ≠ none) (foreign : ¬ Owns i ballot) :
    (t.localRecord i).chosen = true ∧ (t.localRecord i).acceptedNum = ballot := by
  by_cases before : h.vote i ballot = none
  · obtain ⟨accepted, positive, owns | ⟨j, other, same⟩⟩ := grown.voted i ballot before voted
    · exact absurd owns foreign
    · refine ⟨?_, accepted⟩
      by_contra open_
      have current := backed.current i
      have unmarked : (t.machines i).localRecord.chosen = false := by simpa [Acceptors.localRecord] using open_
      have own : (t.machines i).localRecord.acceptedNum = ballot := accepted
      apply current.tidy.counted unmarked (by omega)
      have pair : ({i, j} : Finset (Fin n)) ⊆ (t.machines i).acceptedBy (t.machines i).localRecord.acceptedNum := by
        intro k member
        rcases Finset.mem_insert.mp member with rfl | last
        · simp only [acceptedBy, Finset.mem_filter, Finset.mem_univ, true_and]
          rw [EntryStateMachine.localRecord, current.self]
        · rw [Finset.mem_singleton.mp last]
          simp [acceptedBy, own, same]
      refine majority_mono _ _ pair ?_
      rw [Majority, Fintype.card_fin, Finset.card_pair (Ne.symm other)]
      omega
  · obtain ⟨marked, accepted⟩ := spread i ballot before foreign
    obtain ⟨kept, sameNum, _⟩ := keeps i marked
    exact ⟨kept, sameNum.trans accepted⟩

def Move.fits (s : Entries n) : Move n → Bool
  | .act e a => a.fits (s.entry e)
  | .updateByChosenEntry _ _ => true

theorem set_entry_same (s : Entries n) (e : Nat) (t : Acceptors n) : (s.setEntry e t).entry e = t := by
  simp [Entries.setEntry]

theorem set_entry_other (s : Entries n) (e x : Nat) (t : Acceptors n) (other : x ≠ e) :
    (s.setEntry e t).entry x = s.entry x ∧ ∀ i, (s.setEntry e t).firstRound i x = s.firstRound i x := by
  simp [Entries.setEntry, other]

theorem first_round_set (s : Entries n) (e x : Nat) (t : Acceptors n) (i : Fin n) :
    (s.setEntry e t).firstRound i x = true ↔ s.firstRound i x = true ∨ x = e ∧ t.inFirstRound i = true := by
  simp [Entries.setEntry]

theorem entry_inv_other (s : Entries n) (e x : Nat) (t : Acceptors n) (h : History n) (other : x ≠ e) (inv : EntryInv s x h) :
    EntryInv (s.setEntry e t) x h := by
  obtain ⟨same, sameRound⟩ := set_entry_other s e x t other
  constructor
  · rw [same]
    exact inv.backed
  · intro i
    rw [same, sameRound]
    exact inv.prepared i
  · intro ballot low known i
    rw [sameRound]
    exact inv.proposed ballot low known i
  · rw [same]
    exact inv.spread

theorem entry_inv_act (s : Entries n) (e : Nat) (t : Acceptors n) (a : Action n) (h : History n) (small : n ≤ kMaxAcceptorNum)
    (inv : EntryInv s e h) (sole : ∀ i j, s.firstRound i e = true → s.firstRound j e = true → i = j)
    (fits : a.fits (s.entry e) = true) (done : (s.entry e).act a = some t) :
    ∃ next, EntryInv (s.setEntry e t) e next := by
  obtain ⟨next, backed, grown⟩ := backed_act h (s.entry e) t a small inv.backed fits
    (fun i positive low silent => unused_of_sole s e h inv sole i positive low silent) done
  have keeps := act_keeps h (s.entry e) t a inv.backed done
  refine ⟨next, ?_⟩
  constructor
  · rw [set_entry_same]
    exact backed
  · intro i first
    rw [set_entry_same] at first
    exact (first_round_set s e e t i).mpr (.inr ⟨rfl, first⟩)
  · intro ballot low known i owns
    rw [first_round_set]
    left
    by_cases fresh : h.proposal ballot = none
    · obtain ⟨j, prepared, positive⟩ := grown.proposed ballot fresh known
      have mine := (inv.backed.current j).prepared (by rw [← prepared] at positive; exact positive)
      have same := owner_unique i j ballot owns (prepared ▸ mine)
      subst same
      exact inv.prepared i (by simp [Acceptors.inFirstRound, prepared, positive, low])
    · exact inv.proposed ballot low fresh i owns
  · rw [set_entry_same]
    intro three
    exact spread_step h next (s.entry e) t three backed grown (fun i => (keeps i).1) (inv.spread three)

-- `exclusive` is what the two configurations have to provide: whoever uses its
-- right to skip the prepare phase is the only one that ever did at this entry.
theorem entries_inv_act (s : Entries n) (e : Nat) (a : Action n) (t : Acceptors n) (small : n ≤ kMaxAcceptorNum) (inv : EntriesInv s)
    (positive : 0 < e) (authorised : s.authorised e a = true) (fits : a.fits (s.entry e) = true)
    (exclusive : ∀ i, a = .promise i true → ∀ j, s.firstRound j e = true → j = i) (done : (s.entry e).act a = some t) :
    EntriesInv (s.setEntry e t) := by
  obtain ⟨h, here⟩ := inv.entry e positive
  have keeps := act_keeps h (s.entry e) t a here.backed done
  -- A new first-round proposer is the pre-authorised caller of Promise.
  have newcomer : ∀ i, t.inFirstRound i = true → s.firstRound i e = true ∨ a = .promise i true ∧ s.preAuth i (e - 1) = true := by
    intro i first
    have bounds : 0 < (t.localRecord i).preparedNum ∧ (t.localRecord i).preparedNum ≤ n := by
      simpa [Acceptors.inFirstRound] using first
    rcases (keeps i).2 with same | ⟨preAuth, rfl, prepared⟩
    · left
      apply here.prepared
      simp only [Acceptors.inFirstRound, ← same]
      simpa using bounds
    · right
      rw [prepared, next_num_exact _ preAuth small (of_decide_eq_true fits)] at bounds
      obtain ⟨rfl, _, _⟩ := exact_num_first _ preAuth bounds.2
      exact ⟨rfl, by simpa [Entries.authorised] using authorised⟩
  constructor
  · intro x above
    by_cases same : x = e
    · subst same
      exact entry_inv_act s x t a h small here (inv.sole x) fits done
    · obtain ⟨other, known⟩ := inv.entry x above
      exact ⟨other, entry_inv_other s e x t other same known⟩
  · intro i x noted
    rcases inv.noted i x noted with first | ⟨above, elected⟩
    · exact .inl first
    · refine .inr ⟨above, ?_⟩
      by_cases same : x = e
      · subst same
        rw [set_entry_same]
        exact elected_keeps (s.entry x) t i (keeps i).1 elected
      · rw [(set_entry_other s e x t same).1]
        exact elected
  · intro i x first
    rcases (first_round_set s e x t i).mp first with old | ⟨rfl, new⟩
    · exact inv.right i x old
    · rcases newcomer i new with old | ⟨_, right⟩
      · exact inv.right i x old
      · exact ⟨positive, right⟩
  · intro x i j left right
    by_cases same : x = e
    · subst same
      have cases_ : ∀ k, (s.setEntry x t).firstRound k x = true → s.firstRound k x = true ∨ a = .promise k true := by
        intro k known
        rcases (first_round_set s x x t k).mp known with old | ⟨_, new⟩
        · exact .inl old
        · exact (newcomer k new).imp_right (·.1)
      rcases cases_ i left with oldLeft | newLeft
      · rcases cases_ j right with oldRight | newRight
        · exact inv.sole x i j oldLeft oldRight
        · exact exclusive j newRight i oldLeft
      · rcases cases_ j right with oldRight | newRight
        · exact (exclusive i newLeft j oldRight).symm
        · rw [newLeft] at newRight
          cases newRight
          rfl
    · rw [(set_entry_other s e x t same).2] at left right
      exact inv.sole x i j left right

theorem entries_inv_noted (s : Entries n) (i : Fin n) (e : Nat) (inv : EntriesInv s) (positive : 0 < e)
    (closed : ((s.entry e).machines i).entryState = .chosen)
    (mine : ((s.entry e).machines i).hasAcceptedMyProposal i = true) :
    EntriesInv { s with preAuth := fun j x => s.preAuth j x || (j = i && x = e) } where
  entry := by
    intro x above
    obtain ⟨h, known⟩ := inv.entry x above
    exact ⟨h, ⟨known.backed, known.prepared, known.proposed, known.spread⟩⟩
  noted := by
    intro j x noted
    have cases_ : s.preAuth j x = true ∨ j = i ∧ x = e := by simpa using noted
    rcases cases_ with old | ⟨rfl, rfl⟩
    · exact inv.noted j x old
    · obtain ⟨h, known⟩ := inv.entry x positive
      have current := known.backed.current j
      have marked := current.tidy.chosen.mp closed
      have record := current_own h j _ current
      have own := of_decide_eq_true mine
      refine .inr ⟨positive, (elected_iff _ j).mpr ⟨marked, ?_⟩⟩
      rw [Acceptors.localRecord, own.2]
      apply current.prepared
      rw [← own.2]
      apply Nat.pos_of_ne_zero
      intro zero
      rw [(record.blank zero).2] at marked
      cases marked
  right := by
    intro j x first
    obtain ⟨above, right⟩ := inv.right j x first
    exact ⟨above, by simp [right]⟩
  sole := inv.sole

theorem entries_inv_move (s : Entries n) (mv : Move n) (t : Entries n) (small : n ≤ kMaxAcceptorNum) (inv : EntriesInv s)
    (fits : mv.fits s = true)
    (exclusive : ∀ e i, mv = .act e (.promise i true) → s.preAuth i (e - 1) = true → ∀ j, s.firstRound j e = true → j = i)
    (done : s.move mv = some t) : EntriesInv t := by
  cases mv with
  | act e a =>
      rw [Entries.move] at done
      by_cases allowed : 0 < e ∧ s.authorised e a = true
      · rw [if_pos allowed] at done
        obtain ⟨next, acted, rfl⟩ := Option.map_eq_some_iff.mp done
        apply entries_inv_act s e a next small inv allowed.1 allowed.2 fits _ acted
        rintro i rfl
        exact exclusive e i rfl (by simpa [Entries.authorised] using allowed.2)
      · rw [if_neg allowed] at done
        cases done
  | updateByChosenEntry i e =>
      rw [Entries.move] at done
      by_cases allowed : 0 < e ∧ ((s.entry e).machines i).entryState = .chosen ∧ ((s.entry e).machines i).hasAcceptedMyProposal i
      · rw [if_pos allowed] at done
        cases done
        exact entries_inv_noted s i e inv allowed.1 allowed.2.1 allowed.2.2
      · rw [if_neg allowed] at done
        cases done

theorem entries_agree (s : Entries n) (e : Nat) (i j : Fin n) (inv : EntriesInv s) (positive : 0 < e)
    (left : ((s.entry e).localRecord i).chosen = true) (right : ((s.entry e).localRecord j).chosen = true) :
    ((s.entry e).localRecord i).proposal = ((s.entry e).localRecord j).proposal := by
  obtain ⟨h, known⟩ := inv.entry e positive
  exact backed_agree h (s.entry e) i j known.backed left right

end PaxosStore.Certain
