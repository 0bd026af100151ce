import Mathlib.Algebra.Group.Int.Defs
import Mathlib.Algebra.Ring.Nat
import Mathlib.Data.List.Basic

set_option autoImplicit false

namespace PaxosStore.Consensus

variable {S A : Type}

-- A run is a list of actions, each of which the partial step function allows.
def Reaches (act : S → A → Option S) (s t : S) : Prop := ∃ actions : List A, actions.foldlM act s = some t

-- The state a list of actions ends in, if all of them are allowed.
def endOf (act : S → A → Option S) (s : S) (actions : List A) : S := (actions.foldlM act s).getD s

theorem reaches_end (act : S → A → Option S) (s : S) (actions : List A) (allowed : (actions.foldlM act s).isSome = true) :
    Reaches act s (endOf act s actions) := by
  obtain ⟨t, run⟩ := Option.isSome_iff_exists.mp allowed
  exact ⟨actions, by rw [endOf, run]; rfl⟩

theorem reaches_refl (act : S → A → Option S) (s : S) : Reaches act s s := ⟨[], rfl⟩

theorem reaches_step (act : S → A → Option S) (s : S) (a : A) (t : S) (done : act s a = some t) : Reaches act s t := by
  refine ⟨[a], ?_⟩
  rw [List.foldlM_cons, done]
  rfl

theorem reaches_trans (act : S → A → Option S) (s t u : S) (first : Reaches act s t) (second : Reaches act t u) :
    Reaches act s u := by
  obtain ⟨before, run⟩ := first
  obtain ⟨after, rest⟩ := second
  refine ⟨before ++ after, ?_⟩
  rw [List.foldlM_append, run]
  exact rest

-- What every step preserves holds along a whole run.
theorem run_invariant (act : S → A → Option S) (Inv : S → Prop) (step : ∀ s a t, Inv s → act s a = some t → Inv t)
    (s t : S) (start : Inv s) (run : Reaches act s t) : Inv t := by
  obtain ⟨actions, run⟩ := run
  induction actions generalizing s with
  | nil =>
      cases run
      exact start
  | cons a rest ih =>
      rw [List.foldlM_cons] at run
      obtain ⟨middle, first, later⟩ := Option.bind_eq_some_iff.mp run
      exact ih middle (step s a middle start first) later

-- The same for a relation between the first state and the current one.
theorem run_relation (act : S → A → Option S) (Inv : S → Prop) (Rel : S → S → Prop) (refl : ∀ s, Rel s s)
    (trans : ∀ s t u, Rel s t → Rel t u → Rel s u) (step : ∀ s a t, Inv s → act s a = some t → Inv t ∧ Rel s t)
    (s t : S) (start : Inv s) (run : Reaches act s t) : Inv t ∧ Rel s t := by
  apply run_invariant act (fun u => Inv u ∧ Rel s u) _ s t ⟨start, refl s⟩ run
  intro u a v known done
  obtain ⟨kept, related⟩ := step u a v known.1 done
  exact ⟨kept, trans s u v known.2 related⟩

end PaxosStore.Consensus
