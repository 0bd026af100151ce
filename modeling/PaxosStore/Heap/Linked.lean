import Mathlib.Algebra.BigOperators.Group.Finset.Basic
import Mathlib.Algebra.Order.BigOperators.Group.Finset

set_option autoImplicit false

namespace PaxosStore.Heap

variable {P : Type}

-- The references met from `start` on, up to the null reference.
def Linked (next : P → P) (null : P) : P → List P → Prop
  | start, [] => start = null
  | start, p :: rest => start = p ∧ p ≠ null ∧ Linked next null (next p) rest

theorem linked_start (next : P → P) (null start : P) (list : List P) (linked : Linked next null start list) :
    start = list.head?.getD null := by
  cases list with
  | nil => exact linked
  | cons p rest => exact linked.1

theorem linked_not_null (next : P → P) (null start : P) (list : List P) (linked : Linked next null start list) (p : P)
    (member : p ∈ list) : p ≠ null := by
  induction list generalizing start with
  | nil => simp at member
  | cons q rest ih =>
      rcases List.mem_cons.mp member with same | later
      · rw [same]
        exact linked.2.1
      · exact ih (next q) linked.2.2 later

theorem linked_congr (next other : P → P) (null start : P) (list : List P) (agree : ∀ p ∈ list, other p = next p)
    (linked : Linked next null start list) : Linked other null start list := by
  induction list generalizing start with
  | nil => exact linked
  | cons p rest ih =>
      obtain ⟨first, present, later⟩ := linked
      refine ⟨first, present, ?_⟩
      rw [agree p (by simp)]
      exact ih (next p) (fun q member => agree q (by simp [member])) later

theorem linked_cons (next other : P → P) (null start : P) (list : List P) (p : P) (present : p ≠ null)
    (agree : ∀ q ∈ list, other q = next q) (points : other p = start) (linked : Linked next null start list) :
    Linked other null p (p :: list) := by
  refine ⟨rfl, present, ?_⟩
  rw [points]
  exact linked_congr next other null start list agree linked

-- Taking `p` out from behind `prev`.
theorem linked_unlink (next other : P → P) (null start : P) (before : List P) (prev p : P) (after : List P)
    (agree : ∀ q ∈ before ++ after, other q = next q) (points : other prev = next p)
    (linked : Linked next null start (before ++ prev :: p :: after)) : Linked other null start (before ++ prev :: after) := by
  induction before generalizing start with
  | nil =>
      obtain ⟨first, present, _, _, later⟩ := linked
      refine ⟨first, present, ?_⟩
      rw [points]
      exact linked_congr next other null (next p) after (fun q member => agree q (by simp [member])) later
  | cons q rest ih =>
      obtain ⟨first, present, later⟩ := linked
      refine ⟨first, present, ?_⟩
      rw [agree q (by simp)]
      exact ih (next q) (fun r member => agree r (by simp only [List.cons_append, List.mem_cons]; exact .inr member)) later

theorem sum_replace (n i : Nat) (inside : i < n) (lists : Nat → List P) (list : List P) (measure : List P → Nat) :
    (∑ j ∈ Finset.range n, measure (Function.update lists i list j)) + measure (lists i) =
      (∑ j ∈ Finset.range n, measure (lists j)) + measure list := by
  have member : i ∈ Finset.range n := Finset.mem_range.mpr inside
  rw [← Finset.add_sum_erase _ _ member, ← Finset.add_sum_erase (Finset.range n) (fun j => measure (lists j)) member]
  have others : ∑ j ∈ (Finset.range n).erase i, measure (Function.update lists i list j) =
      ∑ j ∈ (Finset.range n).erase i, measure (lists j) := by
    apply Finset.sum_congr rfl
    intro j chosen
    rw [Function.update_of_ne (Finset.ne_of_mem_erase chosen)]
  rw [others, Function.update_self]
  omega

section Counting

variable [DecidableEq P]

-- How often a reference occurs in the first `n` lists.
def occurs (n : Nat) (lists : Nat → List P) (p : P) : Nat := ∑ i ∈ Finset.range n, (lists i).count p

theorem occurs_update (n i : Nat) (inside : i < n) (lists : Nat → List P) (list : List P) (p : P) :
    occurs n (Function.update lists i list) p + (lists i).count p = occurs n lists p + list.count p :=
  sum_replace n i inside lists list (·.count p)

theorem count_le_occurs (n i : Nat) (inside : i < n) (lists : Nat → List P) (p : P) : (lists i).count p ≤ occurs n lists p :=
  Finset.single_le_sum (f := fun j => (lists j).count p) (fun _ _ => Nat.zero_le _) (Finset.mem_range.mpr inside)

theorem occurs_pos (n i : Nat) (inside : i < n) (lists : Nat → List P) (p : P) (member : p ∈ lists i) : 0 < occurs n lists p :=
  Nat.lt_of_lt_of_le (List.count_pos_iff.mpr member) (count_le_occurs n i inside lists p)

-- Two lists with a reference in common, both among the first `n`, count twice.
theorem occurs_twice (n i j : Nat) (insideI : i < n) (insideJ : j < n) (different : i ≠ j) (lists : Nat → List P) (p : P)
    (first : p ∈ lists i) (second : p ∈ lists j) : 2 ≤ occurs n lists p := by
  have known := occurs_update n i insideI lists [] p
  have other : p ∈ Function.update lists i [] j := by
    rw [Function.update_of_ne (Ne.symm different)]
    exact second
  have more := occurs_pos n j insideJ (Function.update lists i []) p other
  have here := List.count_pos_iff.mpr first
  simp only [List.count_nil] at known
  omega

theorem nodup_of_occurs (n i : Nat) (inside : i < n) (lists : Nat → List P) (once : ∀ p, occurs n lists p ≤ 1) : (lists i).Nodup := by
  rw [List.nodup_iff_count_le_one]
  intro p
  exact Nat.le_trans (count_le_occurs n i inside lists p) (once p)

end Counting

end PaxosStore.Heap
