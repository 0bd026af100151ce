import PaxosStore.Consensus.Quorum
import Mathlib.Logic.Function.Basic

set_option autoImplicit false

namespace PaxosStore.Consensus

-- The history of one consensus instance: the ballot below which an acceptor no
-- longer votes, every vote it ever cast, and the one value proposed per ballot.
structure Voting (A V : Type) where
  promised : A → Nat
  vote : A → Nat → Option V
  proposal : Nat → Option V

namespace Voting

variable {A V : Type}

def empty : Voting A V := ⟨fun _ => 0, fun _ _ => none, fun _ => none⟩

def raise [DecidableEq A] (h : Voting A V) (a : A) (ballot : Nat) : Voting A V :=
  { h with promised := Function.update h.promised a (max (h.promised a) ballot) }

def propose (h : Voting A V) (ballot : Nat) (value : V) : Voting A V :=
  { h with proposal := Function.update h.proposal ballot (some value) }

def cast [DecidableEq A] (h : Voting A V) (a : A) (ballot : Nat) (value : V) : Voting A V :=
  { h with
    promised := Function.update h.promised a ballot
    vote := Function.update h.vote a (Function.update (h.vote a) ballot (some value)) }

-- A later history keeps what was recorded, and an abstention below a promise is final.
structure Extends (h next : Voting A V) : Prop where
  promised : ∀ a, h.promised a ≤ next.promised a
  proposal : ∀ ballot value, h.proposal ballot = some value → next.proposal ballot = some value
  vote : ∀ a ballot value, h.vote a ballot = some value → next.vote a ballot = some value
  abstained : ∀ a ballot, ballot < h.promised a → h.vote a ballot = none → next.vote a ballot = none

theorem extends_refl (h : Voting A V) : Extends h h :=
  ⟨fun _ => Nat.le_refl _, fun _ _ known => known, fun _ _ _ known => known, fun _ _ _ known => known⟩

theorem extends_trans (h middle next : Voting A V) (first : Extends h middle) (second : Extends middle next) :
    Extends h next where
  promised := fun a => Nat.le_trans (first.promised a) (second.promised a)
  proposal := fun ballot value known => second.proposal ballot value (first.proposal ballot value known)
  vote := fun a ballot value known => second.vote a ballot value (first.vote a ballot value known)
  abstained := fun a ballot below absent =>
    second.abstained a ballot (Nat.lt_of_lt_of_le below (first.promised a)) (first.abstained a ballot below absent)

theorem extends_raise [DecidableEq A] (h : Voting A V) (a : A) (ballot : Nat) : Extends h (h.raise a ballot) where
  promised := by
    intro b
    by_cases same : b = a
    · subst same
      simp [raise]
    · simp [raise, same]
  proposal := fun _ _ known => known
  vote := fun _ _ _ known => known
  abstained := fun _ _ _ known => known

theorem extends_propose (h : Voting A V) (ballot : Nat) (value : V) (fresh : h.proposal ballot = none) :
    Extends h (h.propose ballot value) where
  promised := fun _ => Nat.le_refl _
  proposal := by
    intro other seen known
    have elsewhere : other ≠ ballot := by
      rintro rfl
      rw [fresh] at known
      cases known
    simpa [propose, elsewhere] using known
  vote := fun _ _ _ known => known
  abstained := fun _ _ _ known => known

-- An acceptor votes at a ballot it has not promised away, so a vote never
-- lands where an abstention was already counted on.
theorem extends_cast [DecidableEq A] (h : Voting A V) (a : A) (ballot : Nat) (value : V)
    (allowed : h.promised a ≤ ballot) (vacant : h.vote a ballot = none ∨ h.vote a ballot = some value) :
    Extends h (h.cast a ballot value) where
  promised := by
    intro b
    by_cases same : b = a
    · subst same
      simpa [cast] using allowed
    · simp [cast, same]
  proposal := fun _ _ known => known
  vote := by
    intro b other seen known
    by_cases same : b = a
    · subst same
      by_cases here : other = ballot
      · subst here
        rcases vacant with absent | repeated
        · rw [absent] at known
          cases known
        · simpa [cast, repeated] using known
      · simpa [cast, here] using known
    · simpa [cast, same] using known
  abstained := by
    intro b other below absent
    by_cases same : b = a
    · subst same
      have elsewhere : other ≠ ballot := by omega
      simpa [cast, elsewhere] using absent
    · simpa [cast, same] using absent

variable [Fintype A]

-- No value other than `value` can still be chosen at ballot `low`.
def SettledAt (h : Voting A V) (low : Nat) (value : V) : Prop :=
  ∃ quorum : Finset A, Majority quorum ∧
    ∀ a ∈ quorum, h.vote a low = some value ∨ h.vote a low = none ∧ low < h.promised a

def Safe (h : Voting A V) (ballot : Nat) (value : V) : Prop :=
  ∀ low, low < ballot → SettledAt h low value

def Chosen (h : Voting A V) (ballot : Nat) (value : V) : Prop :=
  ∃ quorum : Finset A, Majority quorum ∧ ∀ a ∈ quorum, h.vote a ballot = some value

theorem safe_extends (h next : Voting A V) (ballot : Nat) (value : V) (later : Extends h next)
    (safe : Safe h ballot value) : Safe next ballot value := by
  intro low below
  obtain ⟨quorum, major, evidence⟩ := safe low below
  refine ⟨quorum, major, fun a member => ?_⟩
  rcases evidence a member with voted | ⟨absent, above⟩
  · exact .inl (later.vote a low value voted)
  · exact .inr ⟨later.abstained a low above absent, Nat.lt_of_lt_of_le above (later.promised a)⟩

theorem chosen_extends (h next : Voting A V) (ballot : Nat) (value : V) (later : Extends h next)
    (chosen : Chosen h ballot value) : Chosen next ballot value := by
  obtain ⟨quorum, major, votes⟩ := chosen
  exact ⟨quorum, major, fun a member => later.vote a ballot value (votes a member)⟩

-- Ballots up to `base` skip the prepare phase; at most one of them is used.
structure Sound (base : Nat) (h : Voting A V) : Prop where
  matched : ∀ a ballot value, h.vote a ballot = some value → h.proposal ballot = some value
  safe : ∀ ballot value, h.proposal ballot = some value → Safe h ballot value ∨ ballot ≤ base
  single : ∀ first second, first ≤ base → second ≤ base →
    h.proposal first ≠ none → h.proposal second ≠ none → first = second

theorem sound_empty (base : Nat) : Sound base (empty : Voting A V) where
  matched := by intro a ballot value voted; cases voted
  safe := by intro ballot value proposed; cases proposed
  single := by intro first second _ _ proposed; exact absurd rfl proposed

theorem sound_raise [DecidableEq A] (base : Nat) (h : Voting A V) (a : A) (ballot : Nat) (sound : Sound base h) :
    Sound base (h.raise a ballot) where
  matched := sound.matched
  safe := fun other value proposed =>
    (sound.safe other value proposed).imp_left (safe_extends h _ other value (extends_raise h a ballot))
  single := sound.single

theorem vacant_of_proposed (base : Nat) (h : Voting A V) (a : A) (ballot : Nat) (value : V) (sound : Sound base h)
    (proposed : h.proposal ballot = some value) : h.vote a ballot = none ∨ h.vote a ballot = some value := by
  cases voted : h.vote a ballot with
  | none => exact .inl rfl
  | some old => exact .inr ((sound.matched a ballot old voted).symm.trans proposed)

theorem sound_cast [DecidableEq A] (base : Nat) (h : Voting A V) (a : A) (ballot : Nat) (value : V)
    (sound : Sound base h) (proposed : h.proposal ballot = some value) (allowed : h.promised a ≤ ballot) :
    Sound base (h.cast a ballot value) where
  matched := by
    intro b other seen voted
    by_cases same : b = a
    · subst same
      by_cases here : other = ballot
      · subst here
        have equal : value = seen := by simpa [cast] using voted
        exact equal ▸ proposed
      · exact sound.matched b other seen (by simpa [cast, here] using voted)
    · exact sound.matched b other seen (by simpa [cast, same] using voted)
  safe := fun other seen known =>
    (sound.safe other seen known).imp_left
      (safe_extends h _ other seen (extends_cast h a ballot value allowed (vacant_of_proposed base h a ballot value sound proposed)))
  single := sound.single

theorem sound_propose (base : Nat) (h : Voting A V) (ballot : Nat) (value : V) (sound : Sound base h)
    (fresh : h.proposal ballot = none)
    (allowed : Safe h ballot value ∧ base < ballot ∨ ballot ≤ base ∧ ∀ other, other ≤ base → h.proposal other = none) :
    Sound base (h.propose ballot value) where
  matched := fun a other seen voted =>
    (extends_propose h ballot value fresh).proposal other seen (sound.matched a other seen voted)
  safe := by
    intro other seen proposed
    by_cases here : other = ballot
    · subst here
      have equal : value = seen := by simpa [propose] using proposed
      subst equal
      exact allowed.imp (·.1) (·.1)
    · exact sound.safe other seen (by simpa [propose, here] using proposed)
  single := by
    intro first second lowFirst lowSecond knownFirst knownSecond
    rcases allowed with ⟨_, above⟩ | ⟨_, unused⟩
    · have elsewhereFirst : first ≠ ballot := by omega
      have elsewhereSecond : second ≠ ballot := by omega
      exact sound.single first second lowFirst lowSecond
        (by simpa [propose, elsewhereFirst] using knownFirst)
        (by simpa [propose, elsewhereSecond] using knownSecond)
    · have onlyHere : ∀ other, other ≤ base → (h.propose ballot value).proposal other ≠ none → other = ballot := by
        intro other low known
        by_contra elsewhere
        exact known (by simpa [propose, elsewhere] using unused other low)
      rw [onlyHere first lowFirst knownFirst, onlyHere second lowSecond knownSecond]

theorem safe_of_unvoted (h : Voting A V) (quorum : Finset A) (ballot : Nat) (value : V)
    (major : Majority quorum) (promised : ∀ a ∈ quorum, ballot ≤ h.promised a)
    (unvoted : ∀ a ∈ quorum, ∀ low, low < ballot → h.vote a low = none) : Safe h ballot value := by
  intro low below
  refine ⟨quorum, major, fun a member => .inr ⟨unvoted a member low below, ?_⟩⟩
  exact Nat.lt_of_lt_of_le below (promised a member)

-- The value rule of the prepare phase: `highest` may come from anybody, as long
-- as no member of the promising quorum voted between it and the new ballot.
theorem safe_of_highest (base : Nat) (h : Voting A V) (sound : Sound base h) (quorum : Finset A)
    (ballot highest : Nat) (value : V) (major : Majority quorum)
    (promised : ∀ a ∈ quorum, ballot ≤ h.promised a) (proposed : h.proposal highest = some value)
    (unvoted : ∀ a ∈ quorum, ∀ low, highest < low → low < ballot → h.vote a low = none) :
    Safe h ballot value := by
  intro low lowBelow
  rcases Nat.lt_trichotomy low highest with less | same | greater
  · rcases sound.safe highest value proposed with safe | skipped
    · exact safe low less
    · refine ⟨quorum, major, fun a member => .inr ⟨?_, Nat.lt_of_lt_of_le lowBelow (promised a member)⟩⟩
      cases voted : h.vote a low with
      | none => rfl
      | some old =>
          have known : h.proposal low ≠ none := by simp [sound.matched a low old voted]
          have clash := sound.single low highest (by omega) skipped known (by simp [proposed])
          omega
  · subst same
    refine ⟨quorum, major, fun a member => ?_⟩
    rcases vacant_of_proposed base h a low value sound proposed with absent | voted
    · exact .inr ⟨absent, Nat.lt_of_lt_of_le lowBelow (promised a member)⟩
    · exact .inl voted
  · refine ⟨quorum, major, fun a member => .inr ⟨unvoted a member low greater lowBelow, ?_⟩⟩
    exact Nat.lt_of_lt_of_le lowBelow (promised a member)

theorem chosen_proposed (base : Nat) (h : Voting A V) (sound : Sound base h) (ballot : Nat) (value : V)
    (chosen : Chosen h ballot value) : h.proposal ballot = some value := by
  obtain ⟨quorum, major, votes⟩ := chosen
  obtain ⟨a, member⟩ := majority_member quorum major
  exact sound.matched a ballot value (votes a member)

theorem chosen_below [DecidableEq A] (base : Nat) (h : Voting A V) (sound : Sound base h) (low high : Nat)
    (first second : V) (order : low < high) (chosenLow : Chosen h low first) (proposed : h.proposal high = some second) :
    first = second := by
  rcases sound.safe high second proposed with safe | skipped
  · obtain ⟨votersLow, majorLow, votes⟩ := chosenLow
    obtain ⟨settlers, majorSettled, evidence⟩ := safe low order
    obtain ⟨a, voted, settled⟩ := majority_meets votersLow settlers majorLow majorSettled
    have vote := votes a voted
    rcases evidence a settled with same | ⟨absent, _⟩
    · exact Option.some.inj (vote.symm.trans same)
    · rw [vote] at absent
      cases absent
  · have known := chosen_proposed base h sound low first chosenLow
    have clash := sound.single low high (by omega) skipped (by simp [known]) (by simp [proposed])
    omega

theorem chosen_agree [DecidableEq A] (base : Nat) (h : Voting A V) (sound : Sound base h) (left right : Nat)
    (first second : V) (chosenLeft : Chosen h left first) (chosenRight : Chosen h right second) : first = second := by
  have proposedLeft := chosen_proposed base h sound left first chosenLeft
  have proposedRight := chosen_proposed base h sound right second chosenRight
  rcases Nat.lt_trichotomy left right with less | same | greater
  · exact chosen_below base h sound left right first second less chosenLeft proposedRight
  · subst same
    exact Option.some.inj (proposedLeft.symm.trans proposedRight)
  · exact (chosen_below base h sound right left second first greater chosenRight proposedLeft).symm

end Voting

end PaxosStore.Consensus
