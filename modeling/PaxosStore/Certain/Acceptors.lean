import PaxosStore.Certain.MachineSteps
import PaxosStore.Consensus.Voting

set_option autoImplicit false

namespace PaxosStore.Certain

open PaxosStore.Consensus

-- The acceptors of one entry and every record that was ever put on the wire.
-- Messages stay available for ever: they may be lost, duplicated and reordered.
structure Acceptors (n : Nat) where
  machines : Fin n → EntryStateMachine n
  sent : List (Fin n × EntryRecord)
deriving DecidableEq

inductive Action (n : Nat) where
  | send (i : Fin n)
  | promise (i : Fin n) (preAuth : Bool)
  | accept (i : Fin n) (value : Bytes) (uuids : List Nat)
  | update (i peer : Fin n) (record : EntryRecord)
deriving DecidableEq

namespace Acceptors

variable {n : Nat}

def start (flags : Fin n → Fin n → Bool) : Acceptors n :=
  ⟨fun i => EntryStateMachine.create i (flags i), []⟩

def localRecord (s : Acceptors n) (i : Fin n) : EntryRecord := (s.machines i).localRecord

def setMachine (s : Acceptors n) (i : Fin n) (m : EntryStateMachine n) : Acceptors n :=
  { s with machines := Function.update s.machines i m }

-- `none` denotes a failed assertion or a message that was never sent. The value
-- id of an accepted value is the acceptor's promised number, as the callers pass it.
def act (s : Acceptors n) : Action n → Option (Acceptors n)
  | .send i => some { s with sent := (i, s.localRecord i) :: s.sent }
  | .promise i preAuth => ((s.machines i).promise preAuth).map fun result => s.setMachine i result.2
  | .accept i value uuids =>
      ((s.machines i).accept value (s.machines i).getLocalPromisedNum uuids).map fun result => s.setMachine i result.2.2
  | .update i peer record =>
      if (peer, record) ∈ s.sent ∧ peer ≠ i then
        ((s.machines i).update peer record).map fun result => s.setMachine i result.2
      else none

end Acceptors

abbrev History (n : Nat) := Voting (Fin n) Proposal

-- What the history guarantees for a record that acceptor `j` once had.
structure RecordBacked {n : Nat} (h : History n) (j : Fin n) (record : EntryRecord) : Prop where
  promised : record.promisedNum ≤ h.promised j
  ordered : record.acceptedNum ≤ record.promisedNum
  blank : record.acceptedNum = 0 → record.proposal = ⟨0, [], []⟩ ∧ record.chosen = false
  accepted : 0 < record.acceptedNum → h.proposal record.acceptedNum = some record.proposal
  voted : record.chosen = false → 0 < record.acceptedNum → h.vote j record.acceptedNum = some record.proposal
  quiet : record.chosen = false → ∀ low, record.acceptedNum < low → low < record.promisedNum → h.vote j low = none
  chosen : record.chosen = true → h.Chosen record.acceptedNum record.proposal

-- A value id is the ballot its value was first proposed at, and the owner of a
-- ballot votes for its own proposal.
def Originated {n : Nat} (h : History n) : Prop :=
  ∀ ballot proposal, h.proposal ballot = some proposal →
    0 < ballot ∧ h.proposal proposal.valueId = some proposal ∧
      ∀ i : Fin n, EntryStateMachine.Owns i ballot → h.vote i ballot = some proposal

-- What the history guarantees for the machine acceptor `i` has now.
structure Current {n : Nat} (h : History n) (i : Fin n) (m : EntryStateMachine n) : Prop where
  self : m.localAcceptorId = i
  tidy : m.Tidy
  stored : ∀ j, RecordBacked h j (m.entryRecords j)
  promised : m.localRecord.promisedNum = h.promised i
  last : m.localRecord.chosen = false → ∀ low, m.localRecord.acceptedNum < low → h.vote i low = none
  prepared : 0 < m.localRecord.preparedNum → EntryStateMachine.Owns i m.localRecord.preparedNum
  covers : m.localRecord.chosen = false → ∀ j, (m.entryRecords j).chosen = false ∧
    (m.entryRecords j).promisedNum ≤ m.localRecord.promisedNum

structure Backed {n : Nat} (h : History n) (s : Acceptors n) : Prop where
  sound : h.Sound n
  origin : Originated h
  current : ∀ i, Current h i (s.machines i)
  flight : ∀ j record, (j, record) ∈ s.sent → RecordBacked h j record

section

variable {n : Nat}

theorem record_backed_empty (h : History n) (j : Fin n) : RecordBacked h j {} where
  promised := Nat.zero_le _
  ordered := Nat.le_refl _
  blank := fun _ => ⟨rfl, rfl⟩
  accepted := fun positive => absurd positive (Nat.lt_irrefl 0)
  voted := fun _ positive => absurd positive (Nat.lt_irrefl 0)
  quiet := fun _ low _ below => absurd below (Nat.not_lt_zero low)
  chosen := fun marked => by cases marked

theorem backed_start (flags : Fin n → Fin n → Bool) : Backed Voting.empty (Acceptors.start flags) where
  sound := Voting.sound_empty n
  origin := by intro ballot proposal proposed; cases proposed
  current := fun i =>
    { self := rfl
      tidy := EntryStateMachine.tidy_create i (flags i)
      stored := fun j => record_backed_empty _ j
      promised := rfl
      last := fun _ _ _ => rfl
      prepared := fun positive => absurd positive (Nat.lt_irrefl 0)
      covers := fun _ _ => ⟨rfl, Nat.le_refl _⟩ }
  flight := by intro j record member; cases member

theorem record_backed_extends (h next : History n) (j : Fin n) (record : EntryRecord) (later : h.Extends next)
    (backed : RecordBacked h j record) : RecordBacked next j record where
  promised := Nat.le_trans backed.promised (later.promised j)
  ordered := backed.ordered
  blank := backed.blank
  accepted := fun positive => later.proposal _ _ (backed.accepted positive)
  voted := fun open_ positive => later.vote j _ _ (backed.voted open_ positive)
  quiet := fun open_ low above below =>
    later.abstained j low (Nat.lt_of_lt_of_le below backed.promised) (backed.quiet open_ low above below)
  chosen := fun marked => Voting.chosen_extends h next _ _ later (backed.chosen marked)

-- One acceptor moves; the history of the others is untouched.
theorem backed_move (h next : History n) (s : Acceptors n) (i : Fin n) (m : EntryStateMachine n) (backed : Backed h s)
    (later : h.Extends next) (sound : next.Sound n) (origin : Originated next) (current : Current next i m)
    (others : ∀ j, j ≠ i → next.promised j = h.promised j ∧ next.vote j = h.vote j) :
    Backed next (s.setMachine i m) where
  sound := sound
  origin := origin
  current := by
    intro j
    by_cases same : j = i
    · subst same
      simpa [Acceptors.setMachine] using current
    · have old := backed.current j
      obtain ⟨samePromise, sameVotes⟩ := others j same
      have kept : (s.setMachine i m).machines j = s.machines j := by simp [Acceptors.setMachine, same]
      rw [kept]
      exact
        { self := old.self
          tidy := old.tidy
          stored := fun k => record_backed_extends h next k _ later (old.stored k)
          promised := old.promised.trans samePromise.symm
          last := fun open_ low above => by rw [sameVotes]; exact old.last open_ low above
          prepared := old.prepared
          covers := old.covers }
  flight := fun j record member => record_backed_extends h next j record later (backed.flight j record member)

-- A majority that accepted one number chose its proposal: each member either
-- voted there or learnt that the number was already chosen.
theorem chosen_of_count (h : History n) (records : Fin n → EntryRecord) (quorum : Finset (Fin n)) (num : Nat)
    (proposal : Proposal) (stored : ∀ j, RecordBacked h j (records j)) (positive : 0 < num)
    (major : Majority quorum) (same : ∀ j ∈ quorum, (records j).acceptedNum = num)
    (proposed : h.proposal num = some proposal) : h.Chosen num proposal := by
  have agreed : ∀ j ∈ quorum, (records j).proposal = proposal := by
    intro j member
    have known := (stored j).accepted (by rw [same j member]; exact positive)
    rw [same j member, proposed] at known
    exact (Option.some.inj known).symm
  by_cases learnt : ∃ j ∈ quorum, (records j).chosen = true
  · obtain ⟨j, member, marked⟩ := learnt
    have chosen := (stored j).chosen marked
    rwa [same j member, agreed j member] at chosen
  · refine ⟨quorum, major, fun j member => ?_⟩
    have open_ : (records j).chosen = false := by
      by_contra marked
      exact learnt ⟨j, member, by simpa using marked⟩
    have vote := (stored j).voted open_ (by rw [same j member]; exact positive)
    rwa [same j member, agreed j member] at vote

end

end PaxosStore.Certain
