import PaxosStore.Certain.Acceptors

set_option autoImplicit false

namespace PaxosStore.Certain

open PaxosStore.Consensus

variable {n : Nat}

theorem record_backed_marked (h : History n) (i : Fin n) (m : EntryStateMachine n) (self : m.localAcceptorId = i)
    (stored : ∀ j, RecordBacked h j (m.entryRecords j)) :
    RecordBacked h i { m.localRecord with chosen := m.decided } := by
  have own : RecordBacked h i m.localRecord := self ▸ stored m.localAcceptorId
  by_cases marked : m.localRecord.chosen = true
  · have same : m.decided = true := by simp [EntryStateMachine.decided, marked]
    rw [same, EntryStateMachine.chosen_eta _ true marked]
    exact own
  · have open_ : m.localRecord.chosen = false := by simpa using marked
    cases verdict : m.decided with
    | false =>
        rw [EntryStateMachine.chosen_eta _ false open_]
        exact own
    | true =>
        have counted : m.localRecord.acceptedNum > 0 ∧ (m.acceptedBy m.localRecord.acceptedNum).card ≥ n / 2 + 1 := by
          simpa [EntryStateMachine.decided, open_] using verdict
        have major : Majority (m.acceptedBy m.localRecord.acceptedNum) := by
          rw [Majority, Fintype.card_fin]
          exact counted.2
        have chosen : h.Chosen m.localRecord.acceptedNum m.localRecord.proposal := by
          apply chosen_of_count h m.entryRecords (m.acceptedBy m.localRecord.acceptedNum) _ _ stored counted.1 major
          · intro j member
            simpa [EntryStateMachine.acceptedBy] using member
          · exact own.accepted counted.1
        exact
          { promised := own.promised
            ordered := own.ordered
            blank := fun zero => absurd zero (Nat.ne_of_gt counted.1)
            accepted := own.accepted
            voted := fun unmarked => by cases unmarked
            quiet := fun unmarked => by cases unmarked
            chosen := fun _ => chosen }

theorem current_of_calc (h : History n) (i : Fin n) (m next : EntryStateMachine n) (done : m.calcEntryState = some next)
    (self : m.localAcceptorId = i) (stored : ∀ j, RecordBacked h j (m.entryRecords j))
    (promised : m.localRecord.promisedNum = h.promised i)
    (last : m.localRecord.chosen = false → ∀ low, m.localRecord.acceptedNum < low → h.vote i low = none)
    (prepared : 0 < m.localRecord.preparedNum → EntryStateMachine.Owns i m.localRecord.preparedNum)
    (covers : m.localRecord.chosen = false → ∀ j, (m.entryRecords j).chosen = false ∧
      (m.entryRecords j).promisedNum ≤ m.localRecord.promisedNum) : Current h i next := by
  obtain ⟨sameId, _, records, tidy⟩ := EntryStateMachine.calc_effect m next done
  have own := EntryStateMachine.calc_local m next done
  have wasOpen : next.localRecord.chosen = false → m.localRecord.chosen = false := by
    intro open_
    rw [own] at open_
    by_contra marked
    simp [EntryStateMachine.decided, marked] at open_
  exact
    { self := sameId.trans self
      tidy := tidy
      stored := by
        intro j
        rw [records, self]
        by_cases here : j = i
        · subst here
          simpa using record_backed_marked h j m self stored
        · simpa [here] using stored j
      promised := by rw [own]; exact promised
      last := by
        intro open_
        rw [own]
        exact last (wasOpen open_)
      prepared := by rw [own]; exact prepared
      covers := by
        intro open_ j
        rw [own] at open_ ⊢
        rw [records, self]
        have before := covers (wasOpen (by rw [own]; exact open_))
        by_cases here : j = i
        · subst here
          simpa using open_
        · simpa [here] using before j }

-- The operations all write the local record and recompute the state.
theorem current_of_local (h : History n) (i : Fin n) (m next : EntryStateMachine n) (record : EntryRecord)
    (done : (m.setLocal record).calcEntryState = some next) (self : m.localAcceptorId = i)
    (others : ∀ j, j ≠ i → RecordBacked h j (m.entryRecords j)) (own : RecordBacked h i record)
    (promised : record.promisedNum = h.promised i)
    (last : record.chosen = false → ∀ low, record.acceptedNum < low → h.vote i low = none)
    (prepared : 0 < record.preparedNum → EntryStateMachine.Owns i record.preparedNum)
    (covers : record.chosen = false → ∀ j, j ≠ i → (m.entryRecords j).chosen = false ∧
      (m.entryRecords j).promisedNum ≤ record.promisedNum) : Current h i next := by
  apply current_of_calc h i (m.setLocal record) next done self
  · intro j
    by_cases here : j = i
    · subst here
      simpa [EntryStateMachine.setLocal, EntryStateMachine.setRecord, self] using own
    · simpa [EntryStateMachine.setLocal, EntryStateMachine.setRecord, self, here] using others j here
  · rw [EntryStateMachine.local_set_local]
    exact promised
  · rw [EntryStateMachine.local_set_local]
    exact last
  · rw [EntryStateMachine.local_set_local]
    exact prepared
  · rw [EntryStateMachine.local_set_local]
    intro open_ j
    by_cases here : j = i
    · subst here
      simpa [EntryStateMachine.setLocal, EntryStateMachine.setRecord, self] using open_
    · simpa [EntryStateMachine.setLocal, EntryStateMachine.setRecord, self, here] using covers open_ j here

theorem current_own (h : History n) (i : Fin n) (m : EntryStateMachine n) (current : Current h i m) :
    RecordBacked h i m.localRecord := by
  rw [EntryStateMachine.localRecord, current.self]
  exact current.stored i

-- What one step adds to the history: a proposal is made at the number its
-- proposer prepared, and a vote is at once visible in the voter's own records.
structure Grown (h next : History n) (s t : Acceptors n) : Prop where
  later : h.Extends next
  proposed : ∀ ballot, h.proposal ballot = none → next.proposal ballot ≠ none →
    ∃ i, (s.localRecord i).preparedNum = ballot ∧ 0 < ballot
  voted : ∀ i ballot, h.vote i ballot = none → next.vote i ballot ≠ none →
    (t.localRecord i).acceptedNum = ballot ∧ 0 < ballot ∧ (EntryStateMachine.Owns i ballot ∨
      ∃ j, j ≠ i ∧ ((t.machines i).entryRecords j).acceptedNum = ballot)

theorem grown_silent (h next : History n) (s t : Acceptors n) (later : h.Extends next)
    (proposals : next.proposal = h.proposal) (votes : next.vote = h.vote) : Grown h next s t where
  later := later
  proposed := by
    intro ballot fresh known
    rw [proposals] at known
    exact absurd fresh known
  voted := by
    intro i ballot fresh known
    rw [votes] at known
    exact absurd fresh known

theorem originated_cast (h : History n) (i : Fin n) (ballot : Nat) (proposal : Proposal) (origin : Originated h)
    (proposed : h.proposal ballot = some proposal) : Originated (h.cast i ballot proposal) := by
  intro other seen known
  obtain ⟨positive, first, owner⟩ := origin other seen known
  refine ⟨positive, first, fun j owns => ?_⟩
  by_cases here : j = i ∧ other = ballot
  · obtain ⟨rfl, rfl⟩ := here
    have equal : proposal = seen := Option.some.inj (proposed.symm.trans known)
    simp [Voting.cast, equal]
  · have kept : (h.cast i ballot proposal).vote j other = h.vote j other := by
      by_cases same : j = i
      · subst same
        have elsewhere : other ≠ ballot := fun eq => here ⟨rfl, eq⟩
        simp [Voting.cast, elsewhere]
      · simp [Voting.cast, same]
    rw [kept]
    exact owner j owns

theorem cast_other (h : History n) (i j : Fin n) (ballot : Nat) (proposal : Proposal) (other : j ≠ i) :
    (h.cast i ballot proposal).promised j = h.promised j ∧ (h.cast i ballot proposal).vote j = h.vote j := by
  simp [Voting.cast, other]

theorem raise_other (h : History n) (i j : Fin n) (ballot : Nat) (other : j ≠ i) :
    (h.raise i ballot).promised j = h.promised j ∧ (h.raise i ballot).vote j = h.vote j := by
  simp [Voting.raise, other]

-- A step that only promises.
theorem backed_raise (h : History n) (s : Acceptors n) (i : Fin n) (ballot : Nat) (m : EntryStateMachine n)
    (backed : Backed h s) (current : Current (h.raise i ballot) i m) :
    Backed (h.raise i ballot) (s.setMachine i m) ∧ Grown h (h.raise i ballot) s (s.setMachine i m) := by
  have later := Voting.extends_raise h i ballot
  constructor
  · apply backed_move h _ s i m backed later (Voting.sound_raise n h i ballot backed.sound) backed.origin current
    intro j other
    exact raise_other h i j ballot other
  · exact grown_silent h _ s _ later rfl rfl

theorem backed_promise (h : History n) (s : Acceptors n) (i : Fin n) (preAuth : Bool) (code : RetCode)
    (m : EntryStateMachine n) (small : n ≤ kMaxAcceptorNum) (backed : Backed h s)
    (fits : (s.machines i).exactNum preAuth < 2 ^ 32) (done : (s.machines i).promise preAuth = some (code, m)) :
    ∃ next, Backed next (s.setMachine i m) ∧ Grown h next s (s.setMachine i m) := by
  have old := backed.current i
  have own := current_own h i _ old
  have above := EntryStateMachine.exact_num_above (s.machines i) preAuth
  have owned := EntryStateMachine.exact_num_owned (s.machines i) preAuth
  have computed := EntryStateMachine.promise_cases (s.machines i) m preAuth code done
  rw [EntryStateMachine.next_num_exact (s.machines i) preAuth small fits] at computed
  generalize (s.machines i).exactNum preAuth = pn at above owned computed
  have later := Voting.extends_raise h i pn
  have raised : (h.raise i pn).promised i = pn := by
    have bound := old.promised
    simp [Voting.raise]
    omega
  refine ⟨h.raise i pn, backed_raise h s i pn m backed ?_⟩
  apply current_of_local (h.raise i pn) i _ m _ computed old.self
  · exact fun j _ => record_backed_extends h _ j _ later (old.stored j)
  · exact
      { promised := by rw [raised]
        ordered := Nat.le_trans own.ordered (Nat.le_of_lt above)
        blank := own.blank
        accepted := own.accepted
        voted := own.voted
        quiet := fun open_ low past _ => old.last open_ low past
        chosen := fun marked => Voting.chosen_extends h _ _ _ later (own.chosen marked) }
  · rw [raised]
  · exact old.last
  · exact fun _ => old.self ▸ owned
  · exact fun open_ j _ => ⟨(old.covers open_ j).1, Nat.le_trans (old.covers open_ j).2 (Nat.le_of_lt above)⟩

theorem adopted_proposal (h : History n) (i j : Fin n) (record peer : EntryRecord) (origin : Originated h)
    (own : RecordBacked h i record) (other : RecordBacked h j peer) (positive : 0 < peer.acceptedNum)
    (same : record.valueId = peer.valueId) : record.proposal = peer.proposal := by
  obtain ⟨_, first, _⟩ := origin _ _ (other.accepted positive)
  have known : h.proposal record.valueId = some peer.proposal := same ▸ first
  by_cases zero : record.acceptedNum = 0
  · have blank : record.valueId = 0 := congrArg Proposal.valueId (own.blank zero).1
    rw [blank] at known
    exact absurd (origin 0 _ known).1 (Nat.lt_irrefl 0)
  · obtain ⟨_, ownFirst, _⟩ := origin _ _ (own.accepted (Nat.pos_of_ne_zero zero))
    exact Option.some.inj (ownFirst.symm.trans known)

theorem stored_beside (h : History n) (i j : Fin n) (m : EntryStateMachine n) (record : EntryRecord)
    (current : Current h i m) (known : RecordBacked h j record) (k : Fin n) :
    RecordBacked h k ((m.setRecord j record).entryRecords k) := by
  by_cases here : k = j
  · subst here
    simpa [EntryStateMachine.setRecord] using known
  · simpa [EntryStateMachine.setRecord, here] using current.stored k

theorem covers_beside (h : History n) (i j : Fin n) (m : EntryStateMachine n) (record : EntryRecord) (bound : Nat)
    (current : Current h i m) (open_ : m.localRecord.chosen = false) (unchosen : record.chosen = false)
    (below : m.localRecord.promisedNum ≤ bound) (peerBelow : record.promisedNum ≤ bound) (k : Fin n) :
    ((m.setRecord j record).entryRecords k).chosen = false ∧ ((m.setRecord j record).entryRecords k).promisedNum ≤ bound := by
  by_cases here : k = j
  · subst here
    simpa [EntryStateMachine.setRecord] using ⟨unchosen, peerBelow⟩
  · have before := current.covers open_ k
    simpa [EntryStateMachine.setRecord, here] using ⟨before.1, Nat.le_trans before.2 below⟩

-- Learning a chosen value, or only a higher promise, casts no vote.
theorem backed_learn (h : History n) (s : Acceptors n) (i j : Fin n) (peer record : EntryRecord) (m : EntryStateMachine n)
    (backed : Backed h s) (known : RecordBacked h j peer) (open_ : (s.machines i).localRecord.chosen = false)
    (computed : (((s.machines i).setRecord j peer).setLocal record).calcEntryState = some m)
    (prepared : record.preparedNum = (s.machines i).localRecord.preparedNum)
    (promised : record.promisedNum = max (s.machines i).localRecord.promisedNum peer.promisedNum)
    (content : peer.chosen = true ∧ record.chosen = true ∧ record.acceptedNum = peer.acceptedNum ∧ record.proposal = peer.proposal ∨
      peer.chosen = false ∧ record.chosen = false ∧ record.acceptedNum = (s.machines i).localRecord.acceptedNum ∧
        record.proposal = (s.machines i).localRecord.proposal) :
    ∃ next, Backed next (s.setMachine i m) ∧ Grown h next s (s.setMachine i m) := by
  have old := backed.current i
  have own := current_own h i _ old
  have later := Voting.extends_raise h i peer.promisedNum
  have raised : (h.raise i peer.promisedNum).promised i = record.promisedNum := by
    rw [promised, old.promised]
    simp [Voting.raise]
  refine ⟨h.raise i peer.promisedNum, backed_raise h s i peer.promisedNum m backed ?_⟩
  apply current_of_local _ i _ m record computed old.self
  · exact fun k _ => record_backed_extends h _ k _ later (stored_beside h i j _ peer old known k)
  · rcases content with ⟨marked, markedToo, accepted, proposal⟩ | ⟨_, unmarked, accepted, proposal⟩
    · have positive : 0 < peer.acceptedNum := by
        apply Nat.pos_of_ne_zero
        intro zero
        rw [(known.blank zero).2] at marked
        cases marked
      exact
        { promised := by rw [raised]
          ordered := by rw [accepted, promised]; exact Nat.le_trans known.ordered (Nat.le_max_right _ _)
          blank := fun zero => by omega
          accepted := fun _ => by rw [accepted, proposal]; exact known.accepted positive
          voted := fun unmarked => by rw [markedToo] at unmarked; cases unmarked
          quiet := fun unmarked => by rw [markedToo] at unmarked; cases unmarked
          chosen := fun _ => by
            rw [accepted, proposal]
            exact Voting.chosen_extends h _ _ _ later (known.chosen marked) }
    · exact
        { promised := by rw [raised]
          ordered := by rw [accepted, promised]; exact Nat.le_trans own.ordered (Nat.le_max_left _ _)
          blank := fun zero => ⟨by rw [proposal]; exact (own.blank (accepted ▸ zero)).1, unmarked⟩
          accepted := by rw [accepted, proposal]; exact own.accepted
          voted := fun _ => by rw [accepted, proposal]; exact own.voted open_
          quiet := fun _ low above _ => old.last open_ low (accepted ▸ above)
          chosen := fun marked => by rw [unmarked] at marked; cases marked }
  · exact raised.symm
  · intro unmarked low above
    rcases content with ⟨_, marked, _, _⟩ | ⟨_, _, accepted, _⟩
    · rw [marked] at unmarked
      cases unmarked
    · exact old.last open_ low (accepted ▸ above)
  · rw [prepared]
    exact old.prepared
  · intro unmarked k _
    rcases content with ⟨_, marked, _, _⟩ | ⟨unchosen, _, _, _⟩
    · rw [marked] at unmarked
      cases unmarked
    · exact covers_beside h i j _ peer _ old open_ unchosen (promised ▸ Nat.le_max_left _ _) (promised ▸ Nat.le_max_right _ _) k

-- Acceptor `i` votes at `ballot`; `made` is the history with the proposal in it.
theorem backed_vote (h made : History n) (s : Acceptors n) (i : Fin n) (base m : EntryStateMachine n) (record : EntryRecord)
    (ballot : Nat) (backed : Backed h s) (later : h.Extends made) (sound : made.Sound n)
    (samePromised : made.promised = h.promised) (sameVotes : made.vote = h.vote)
    (proposed : made.proposal ballot = some record.proposal) (origin : Originated (made.cast i ballot record.proposal))
    (open_ : (s.machines i).localRecord.chosen = false) (allowed : (s.machines i).localRecord.promisedNum ≤ ballot)
    (ahead : (s.machines i).localRecord.acceptedNum < ballot) (self : base.localAcceptorId = i)
    (others : ∀ k, k ≠ i → RecordBacked h k (base.entryRecords k) ∧ (base.entryRecords k).chosen = false ∧
      (base.entryRecords k).promisedNum ≤ ballot)
    (prepared : record.preparedNum = (s.machines i).localRecord.preparedNum) (promised : record.promisedNum = ballot)
    (accepted : record.acceptedNum = ballot) (unmarked : record.chosen = false)
    (computed : (base.setLocal record).calcEntryState = some m) :
    Backed (made.cast i ballot record.proposal) (s.setMachine i m) ∧ h.Extends (made.cast i ballot record.proposal) := by
  have old := backed.current i
  have permitted : made.promised i ≤ ballot := by
    rw [samePromised, ← old.promised]
    exact allowed
  have vacant := Voting.vacant_of_proposed n made i ballot _ sound proposed
  have grown := Voting.extends_trans h made _ later (Voting.extends_cast made i ballot record.proposal permitted vacant)
  refine ⟨?_, grown⟩
  apply backed_move h _ s i m backed grown (Voting.sound_cast n made i ballot _ sound proposed permitted) origin
  · apply current_of_local _ i base m record computed self
    · exact fun k other => record_backed_extends h _ k _ grown (others k other).1
    · exact
        { promised := by rw [promised]; simp [Voting.cast]
          ordered := by rw [promised, accepted]
          blank := fun zero => by omega
          accepted := fun _ => by rw [accepted]; exact proposed
          voted := fun _ _ => by rw [accepted]; simp [Voting.cast]
          quiet := fun _ low above below => by omega
          chosen := fun marked => by rw [unmarked] at marked; cases marked }
    · rw [promised]
      simp [Voting.cast]
    · intro _ low above
      have elsewhere : low ≠ ballot := by omega
      have absent := old.last open_ low (by omega)
      simpa [Voting.cast, elsewhere, sameVotes] using absent
    · rw [prepared]
      exact old.prepared
    · rw [promised]
      exact fun _ k other => (others k other).2
  · intro k other
    obtain ⟨keptPromise, keptVotes⟩ := cast_other made i k ballot record.proposal other
    exact ⟨by rw [keptPromise, samePromised], by rw [keptVotes, sameVotes]⟩

theorem voted_cast (h made : History n) (i k : Fin n) (ballot other : Nat) (proposal : Proposal) (sameVotes : made.vote = h.vote)
    (fresh : h.vote k other = none) (known : (made.cast i ballot proposal).vote k other ≠ none) : k = i ∧ other = ballot := by
  by_cases same : k = i
  · subst same
    refine ⟨rfl, ?_⟩
    by_contra elsewhere
    exact known (by simpa [Voting.cast, elsewhere, sameVotes] using fresh)
  · exact absurd (by simpa [Voting.cast, same, sameVotes] using fresh) known

theorem local_set_machine (s : Acceptors n) (i : Fin n) (m : EntryStateMachine n) :
    (s.setMachine i m).localRecord i = m.localRecord := by
  simp [Acceptors.setMachine, Acceptors.localRecord]

theorem backed_adopt (h : History n) (s : Acceptors n) (i j : Fin n) (peer : EntryRecord) (m : EntryStateMachine n)
    (backed : Backed h s) (known : RecordBacked h j peer) (other : j ≠ i) (open_ : (s.machines i).localRecord.chosen = false)
    (computed : (((s.machines i).setRecord j peer).setLocal
      (EntryStateMachine.adopt (s.machines i).localRecord peer)).calcEntryState = some m) :
    ∃ next, Backed next (s.setMachine i m) ∧ Grown h next s (s.setMachine i m) := by
  have old := backed.current i
  have own := current_own h i _ old
  have stored := EntryStateMachine.calc_local _ m computed
  rw [EntryStateMachine.local_set_local] at stored
  have keptPeer : m.entryRecords j = peer := by
    have remote : j ≠ (((s.machines i).setRecord j peer).setLocal
        (EntryStateMachine.adopt (s.machines i).localRecord peer)).localAcceptorId := fun eq => other (eq.trans old.self)
    rw [EntryStateMachine.calc_other _ m j remote computed]
    simp [EntryStateMachine.setLocal, EntryStateMachine.setRecord, old.self, other]
  obtain ⟨prepared, promised, content⟩ := EntryStateMachine.adopt_cases (s.machines i).localRecord peer
  generalize EntryStateMachine.adopt (s.machines i).localRecord peer = record at prepared promised content computed stored
  have settled (positive : 0 < peer.acceptedNum) (proposal : record.proposal =
      if (s.machines i).localRecord.valueId = peer.valueId then (s.machines i).localRecord.proposal else peer.proposal) :
      record.proposal = peer.proposal := by
    rw [proposal]
    split
    · rename_i same
      exact adopted_proposal h i j _ peer backed.origin own known positive same
    · rfl
  rcases content with ⟨taken, accepted, mark, proposal⟩ | ⟨unchosen, accepted, mark, proposal⟩
  · by_cases marked : peer.chosen = true
    · have positive : 0 < peer.acceptedNum := by
        apply Nat.pos_of_ne_zero
        intro zero
        rw [(known.blank zero).2] at marked
        cases marked
      exact backed_learn h s i j peer record m backed known open_ computed prepared promised
        (.inl ⟨marked, mark.trans marked, accepted, settled positive proposal⟩)
    · -- The peer's record is a proposal at its own promised number, so this is a vote.
      have unchosen : peer.chosen = false := by simpa using marked
      obtain ⟨reach, ahead⟩ := taken.resolve_left marked
      have ordered := known.ordered
      have whole := settled (by omega) proposal
      have proposed : h.proposal peer.acceptedNum = some record.proposal := by
        rw [whole]
        exact known.accepted (by omega)
      have step := backed_vote h h s i ((s.machines i).setRecord j peer) m record peer.acceptedNum backed
        (Voting.extends_refl h) backed.sound rfl rfl proposed
        (originated_cast h i _ _ backed.origin proposed) open_ (by omega) ahead old.self
        (fun k _ => ⟨stored_beside h i j _ peer old known k,
          covers_beside h i j _ peer _ old open_ unchosen (by omega) (by omega) k⟩)
        prepared (by omega) accepted (mark.trans unchosen) computed
      refine ⟨_, step.1, ⟨step.2, fun ballot fresh known => absurd fresh known, ?_⟩⟩
      intro k ballot fresh cast_
      obtain ⟨rfl, rfl⟩ := voted_cast h h i k peer.acceptedNum ballot record.proposal rfl fresh cast_
      refine ⟨?_, by omega, .inr ⟨j, other, ?_⟩⟩
      · rw [local_set_machine, stored]
        exact accepted
      · have kept : (s.setMachine k m).machines k = m := by simp [Acceptors.setMachine]
        rw [kept, keptPeer]
  · exact backed_learn h s i j peer record m backed known open_ computed prepared promised
      (.inr ⟨unchosen, mark.trans open_, accepted, proposal⟩)

theorem backed_same (h : History n) (s : Acceptors n) (i : Fin n) (backed : Backed h s) :
    ∃ next, Backed next (s.setMachine i (s.machines i)) ∧ Grown h next s (s.setMachine i (s.machines i)) := by
  have same : s.setMachine i (s.machines i) = s := by simp [Acceptors.setMachine]
  rw [same]
  exact ⟨h, backed, grown_silent h h s s (Voting.extends_refl h) rfl rfl⟩

theorem backed_update (h : History n) (s : Acceptors n) (i j : Fin n) (peer : EntryRecord) (code : RetCode)
    (m : EntryStateMachine n) (backed : Backed h s) (known : RecordBacked h j peer) (other : j ≠ i)
    (done : (s.machines i).update j peer = some (code, m)) :
    ∃ next, Backed next (s.setMachine i m) ∧ Grown h next s (s.setMachine i m) := by
  have old := backed.current i
  rcases EntryStateMachine.update_cases (s.machines i) m j peer code done with
    rfl | ⟨_, _, _, _, ⟨self, _⟩ | ⟨_, closed, rfl⟩ | ⟨_, pending, computed⟩⟩
  · exact backed_same h s i backed
  · exact absurd (self.trans old.self) other
  · have marked := old.tidy.chosen.mp closed
    have remote : j ≠ (s.machines i).localAcceptorId := fun eq => other (eq.trans old.self)
    have kept := EntryStateMachine.local_set_other (s.machines i) j peer remote
    refine ⟨h, ?_, grown_silent h h s _ (Voting.extends_refl h) rfl rfl⟩
    apply backed_move h h s i _ backed (Voting.extends_refl h) backed.sound backed.origin
    · exact
        { self := old.self
          tidy := EntryStateMachine.tidy_of_chosen _ closed (by rw [kept]; exact marked)
          stored := stored_beside h i j _ peer old known
          promised := by rw [kept]; exact old.promised
          last := by rw [kept]; exact old.last
          prepared := by rw [kept]; exact old.prepared
          covers := fun open_ => by rw [kept, marked] at open_; cases open_ }
    · exact fun _ _ => ⟨rfl, rfl⟩
  · have open_ : (s.machines i).localRecord.chosen = false := by
      by_contra marked
      exact pending (old.tidy.chosen.mpr (by simpa using marked))
    exact backed_adopt h s i j peer m backed known other open_ computed

theorem no_zero_vote (h : History n) (sound : h.Sound n) (origin : Originated h) (a : Fin n) : h.vote a 0 = none := by
  cases voted : h.vote a 0 with
  | none => rfl
  | some proposal =>
      have known := sound.matched a 0 proposal voted
      exact absurd (origin 0 proposal known).1 (Nat.lt_irrefl 0)

-- The record Accept writes carries a value that no lower ballot can contradict.
theorem accept_safe (h : History n) (i : Fin n) (m : EntryStateMachine n) (value : Bytes) (uuids : List Nat)
    (sound : h.Sound n) (origin : Originated h) (current : Current h i m) (open_ : m.localRecord.chosen = false)
    (major : Majority (m.promisedBy m.localRecord.promisedNum)) :
    h.Safe m.localRecord.promisedNum (m.acceptedRecord value m.getLocalPromisedNum uuids).proposal := by
  have promised : ∀ a ∈ m.promisedBy m.localRecord.promisedNum, (m.entryRecords a).promisedNum = m.localRecord.promisedNum := by
    intro a member
    simpa [EntryStateMachine.promisedBy] using member
  have reached : ∀ a ∈ m.promisedBy m.localRecord.promisedNum, m.localRecord.promisedNum ≤ h.promised a := by
    intro a member
    have stored := (current.stored a).promised
    rwa [promised a member] at stored
  have quiet : ∀ a ∈ m.promisedBy m.localRecord.promisedNum, ∀ low, (m.entryRecords m.selected).acceptedNum < low →
      low < m.localRecord.promisedNum → h.vote a low = none := by
    intro a member low above below
    have largest := EntryStateMachine.selected_largest m a
    exact (current.stored a).quiet (current.covers open_ a).1 low (by omega) (by rw [promised a member]; exact below)
  unfold EntryStateMachine.acceptedRecord
  dsimp only
  by_cases found : (m.entryRecords m.selected).acceptedNum > 0
  · rw [if_pos found]
    exact Voting.safe_of_highest n h sound _ _ _ _ major reached ((current.stored m.selected).accepted found) quiet
  · rw [if_neg found]
    apply Voting.safe_of_unvoted h _ _ _ major reached
    intro a member low below
    by_cases zero : low = 0
    · subst zero
      exact no_zero_vote h sound origin a
    · exact quiet a member low (by omega) below

theorem accept_origin (h : History n) (i : Fin n) (m : EntryStateMachine n) (value : Bytes) (uuids : List Nat)
    (origin : Originated h) (current : Current h i m) (fresh : h.proposal m.localRecord.promisedNum = none) :
    (h.propose m.localRecord.promisedNum (m.acceptedRecord value m.getLocalPromisedNum uuids).proposal).proposal
      (m.acceptedRecord value m.getLocalPromisedNum uuids).valueId =
        some (m.acceptedRecord value m.getLocalPromisedNum uuids).proposal := by
  unfold EntryStateMachine.acceptedRecord
  dsimp only
  by_cases found : (m.entryRecords m.selected).acceptedNum > 0
  · rw [if_pos found]
    obtain ⟨_, first, _⟩ := origin _ _ ((current.stored m.selected).accepted found)
    exact (Voting.extends_propose h _ _ fresh).proposal _ _ first
  · rw [if_neg found]
    simp [Voting.propose, EntryStateMachine.getLocalPromisedNum]

theorem originated_propose (h : History n) (i : Fin n) (ballot : Nat) (proposal : Proposal) (origin : Originated h)
    (positive : 0 < ballot) (fresh : h.proposal ballot = none) (owned : EntryStateMachine.Owns i ballot)
    (first : (h.propose ballot proposal).proposal proposal.valueId = some proposal) :
    Originated ((h.propose ballot proposal).cast i ballot proposal) := by
  intro other seen known
  by_cases here : other = ballot
  · subst here
    have equal : proposal = seen := by simpa [Voting.cast, Voting.propose] using known
    subst equal
    refine ⟨positive, first, fun j owns => ?_⟩
    rw [EntryStateMachine.owner_unique j i other owns owned]
    simp [Voting.cast]
  · have before : h.proposal other = some seen := by simpa [Voting.cast, Voting.propose, here] using known
    obtain ⟨above, firstSeen, owner⟩ := origin other seen before
    refine ⟨above, (Voting.extends_propose h ballot proposal fresh).proposal _ _ firstSeen, fun j owns => ?_⟩
    have voted := owner j owns
    by_cases same : j = i
    · subst same
      simpa [Voting.cast, Voting.propose, here] using voted
    · simpa [Voting.cast, Voting.propose, same] using voted

-- `unused` is what the pre-authorisation rule has to provide: a first-round
-- ballot is only used where no other one was.
theorem backed_accept (h : History n) (s : Acceptors n) (i : Fin n) (value : Bytes) (uuids : List Nat) (code : RetCode)
    (own : Bool) (m : EntryStateMachine n) (backed : Backed h s)
    (unused : (s.localRecord i).preparedNum ≤ n → 0 < (s.localRecord i).preparedNum → h.vote i (s.localRecord i).preparedNum = none →
      ∀ other, other ≤ n → h.proposal other = none)
    (done : (s.machines i).accept value (s.machines i).getLocalPromisedNum uuids = some (code, own, m)) :
    ∃ next, Backed next (s.setMachine i m) ∧ Grown h next s (s.setMachine i m) := by
  have old := backed.current i
  rcases EntryStateMachine.accept_cases (s.machines i) m value _ uuids code own done with
    rfl | ⟨acceptable, positive, _, _, computed⟩
  · exact backed_same h s i backed
  obtain ⟨open_, prepared, behind, state⟩ := EntryStateMachine.acceptable_cases (s.machines i) old.tidy acceptable
  have owned : EntryStateMachine.Owns i (s.machines i).localRecord.promisedNum := prepared ▸ old.prepared (prepared ▸ positive)
  have silent := old.last open_ _ behind
  have fresh : h.proposal (s.machines i).localRecord.promisedNum = none := by
    cases known : h.proposal (s.machines i).localRecord.promisedNum with
    | none => rfl
    | some seen =>
        have voted := (backed.origin _ seen known).2.2 i owned
        rw [silent] at voted
        cases voted
  obtain ⟨keptPrepared, keptPromised, accepted, keptMark⟩ :=
    EntryStateMachine.accepted_shape (s.machines i) value (s.machines i).getLocalPromisedNum uuids
  have first := accept_origin h i (s.machines i) value uuids backed.origin old fresh
  have safe (major : Majority ((s.machines i).promisedBy (s.machines i).localRecord.promisedNum)) :=
    accept_safe h i (s.machines i) value uuids backed.sound backed.origin old open_ major
  have stored := EntryStateMachine.calc_local _ m computed
  rw [EntryStateMachine.local_set_local] at stored
  generalize (s.machines i).acceptedRecord value (s.machines i).getLocalPromisedNum uuids = record at *
  have sound : (h.propose (s.machines i).localRecord.promisedNum record.proposal).Sound n := by
    apply Voting.sound_propose n h _ _ backed.sound fresh
    by_cases low : (s.machines i).localRecord.promisedNum ≤ n
    · refine .inr ⟨low, unused ?_ ?_ ?_⟩
      · rw [Acceptors.localRecord, prepared]
        exact low
      · rw [Acceptors.localRecord, prepared]
        exact positive
      · rw [Acceptors.localRecord, prepared]
        exact silent
    · rcases state with major | skipped
      · exact .inl ⟨safe major, by omega⟩
      · exact absurd skipped low
  have step := backed_vote h (h.propose (s.machines i).localRecord.promisedNum record.proposal) s i (s.machines i) m record
    (s.machines i).localRecord.promisedNum backed (Voting.extends_propose h _ _ fresh) sound rfl rfl
    (by simp [Voting.propose]) (originated_propose h i _ _ backed.origin positive fresh owned first) open_ (Nat.le_refl _)
    behind old.self (fun k _ => ⟨old.stored k, old.covers open_ k⟩) keptPrepared keptPromised accepted
    (keptMark.trans open_) computed
  refine ⟨_, step.1, ⟨step.2, ?_, ?_⟩⟩
  · intro ballot absent known
    by_cases here : ballot = (s.machines i).localRecord.promisedNum
    · subst here
      exact ⟨i, prepared, positive⟩
    · exact absurd (by simpa [Voting.cast, Voting.propose, here] using absent) known
  · intro k ballot absent known
    obtain ⟨rfl, rfl⟩ := voted_cast h (h.propose (s.machines i).localRecord.promisedNum record.proposal) i k _ ballot record.proposal rfl absent known
    refine ⟨?_, positive, .inl owned⟩
    rw [local_set_machine, stored]
    exact accepted

-- The numbers of a run stay below 2^32.
def Action.fits (s : Acceptors n) : Action n → Bool
  | .promise i preAuth => (s.machines i).exactNum preAuth < 2 ^ 32
  | _ => true

theorem backed_act (h : History n) (s t : Acceptors n) (a : Action n) (small : n ≤ kMaxAcceptorNum) (backed : Backed h s)
    (fits : a.fits s = true)
    (unused : ∀ i, 0 < (s.localRecord i).preparedNum → (s.localRecord i).preparedNum ≤ n →
      h.vote i (s.localRecord i).preparedNum = none → ∀ other, other ≤ n → h.proposal other = none)
    (done : s.act a = some t) : ∃ next, Backed next t ∧ Grown h next s t := by
  cases a with
  | send i =>
      cases done
      refine ⟨h, ?_, grown_silent h h s _ (Voting.extends_refl h) rfl rfl⟩
      refine ⟨backed.sound, backed.origin, backed.current, ?_⟩
      intro j record member
      rcases List.mem_cons.mp member with new | old
      · cases new
        exact current_own h i _ (backed.current i)
      · exact backed.flight j record old
  | promise i preAuth =>
      obtain ⟨⟨code, m⟩, computed, rfl⟩ := Option.map_eq_some_iff.mp done
      exact backed_promise h s i preAuth code m small backed (of_decide_eq_true fits) computed
  | accept i value uuids =>
      obtain ⟨⟨code, own, m⟩, computed, rfl⟩ := Option.map_eq_some_iff.mp done
      exact backed_accept h s i value uuids code own m backed (fun low positive => unused i positive low) computed
  | update i j record =>
      rw [Acceptors.act] at done
      by_cases delivered : (j, record) ∈ s.sent ∧ j ≠ i
      · rw [if_pos delivered] at done
        obtain ⟨⟨code, m⟩, computed, rfl⟩ := Option.map_eq_some_iff.mp done
        exact backed_update h s i j record code m backed (backed.flight j record delivered.1) delivered.2 computed
      · rw [if_neg delivered] at done
        cases done

end PaxosStore.Certain
