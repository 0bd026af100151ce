import PaxosStore.PaxosKv.DbImpl

set_option autoImplicit false

namespace PaxosStore.PaxosKv

open PaxosStore.Consensus

-- A log that a Set may go on from: it is empty, it is at its first index, or its
-- last index or the one before is chosen.
def mayWrite (log : PaxosLog) : Bool :=
  log = [] || getMaxIndex log = 1 || (getMaxIns log).any (·.2.chosen) || log.any (fun entry => entry.1 + 1 = getMaxIndex log && entry.2.chosen)

def CanWriteExact (log : PaxosLog) : Prop := canWrite log = some (if mayWrite log then 0 else paxosSetLocalOut)

-- Two pending instances, of which the lower one is only accepted.
def lowerAccepted (log : PaxosLog) : Prop := log.length = 2 ∧ getChosenIns log = none

-- can_write reads the index of a chosen instance that such a log does not have.
theorem can_write_exact_iff (selfId : Fin 3) (memberId : Nat) (s : LogServer) (run : Reaches (LogServer.act selfId memberId) {} s) :
    CanWriteExact s.log ↔ ¬ lowerAccepted s.log := by
  have formed := (LogServer.run_next selfId memberId {} s formed_nil run).formed
  generalize s.log = log at formed
  rcases slim_shape log formed.slim with rfl | ⟨ins, rfl⟩ | ⟨prev, ins, rfl, keeps⟩
  · refine ⟨fun _ wrong => ?_, fun _ => rfl⟩
    cases wrong.1
  · have single : canWrite [ins] = some (if ins.2.chosen then 0 else if ins.1 = 1 then 0 else paxosSetLocalOut) := rfl
    have max : getMaxIndex [ins] = ins.1 := rfl
    refine ⟨fun _ wrong => absurd wrong.1 (by simp), fun _ => ?_⟩
    rw [CanWriteExact, single, mayWrite, max]
    simp only [List.cons_ne_nil, decide_false, Bool.false_or, getMaxIns, List.getLast?_singleton, Option.any_some, List.any_cons, List.any_nil,
      Bool.or_false, Nat.add_eq_left, Nat.one_ne_zero, Bool.false_and, Bool.or_eq_true, decide_eq_true_eq]
    by_cases marked : ins.2.chosen = true
    · rw [if_pos marked, if_pos (.inr marked)]
    · rw [if_neg marked]
      by_cases first : ins.1 = 1
      · rw [if_pos first, if_pos (.inl first)]
      · rw [if_neg first, if_neg (by simp [first, marked])]
  · have next := consecutive prev ins formed
    obtain ⟨pending, wrapped, -⟩ := keeps_both prev ins keeps
    have max : getMaxIndex [prev, ins] = ins.1 := rfl
    have slim : isSlim [prev, ins] = true := keeps
    have asked : canWrite [prev, ins] =
        (getChosenIns [prev, ins]).bind fun chosen => asserting (u64 (chosen.1 + 1) = ins.1) (some 0) := by
      show asserting (isSlim [prev, ins] = true) _ = _
      rw [asserting, if_pos slim]
      rfl
    have lower : getChosenIns [prev, ins] = if prev.2.chosen then some prev else none := by
      rw [getChosenIns]
      cases marked : prev.2.chosen <;> simp [List.find?, pending, marked]
    rw [CanWriteExact, asked, lower, lowerAccepted, lower]
    cases marked : prev.2.chosen with
    | true =>
      have allowed : mayWrite [prev, ins] = true := by simp [mayWrite, max, next, marked]
      refine ⟨fun _ wrong => (by cases wrong.2), fun _ => ?_⟩
      rw [allowed, if_pos rfl, if_pos rfl, Option.bind_some, asserting, if_pos wrapped]
    | false =>
      refine ⟨fun exact_ => (by cases exact_), fun holds => absurd ⟨rfl, rfl⟩ holds⟩

-- An accepted value at index 1 and a promise at index 2, whose sender has seen index 1 chosen.
def acceptedBelow : List LogOp :=
  [.message ⟨1, { type := .accpt, fromId := 1, toId := some 0, proposedNum := 65538, acceptedValue := some ⟨9, [1]⟩ }⟩ false true,
   .message ⟨2, { type := .prop, fromId := 1, toId := some 0, proposedNum := 65538 }⟩ false true]

theorem missed_choice_stops : ¬ ∀ selfId memberId s, Reaches (LogServer.act selfId memberId) {} s → CanWriteExact s.log := by
  intro always
  have exact_ := always 0 7 _ (reaches_end (LogServer.act 0 7) {} acceptedBelow (by decide +kernel))
  have stopped : canWrite (endOf (LogServer.act 0 7) {} acceptedBelow).log = none := by decide +kernel
  rw [CanWriteExact, stopped] at exact_
  cases exact_

theorem accepted_first_exact : CanWriteExact (endOf (LogServer.act 0 7) {} (acceptedBelow.take 1)).log :=
  (can_write_exact_iff 0 7 _ (reaches_end (LogServer.act 0 7) {} (acceptedBelow.take 1) (by decide +kernel))).mpr
    fun wrong => absurd wrong.1 (by decide +kernel)

end PaxosStore.PaxosKv
