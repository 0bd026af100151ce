import PaxosStore.Certain.TimerLists

set_option autoImplicit false

namespace PaxosStore.Certain

open PaxosStore.PaxosKv PaxosStore.Codec

namespace ArrayTimer

variable {α : Type}

theorem held_exists (elts : Finset α) (held : List (α × Nat)) (k late : Nat) (s : ArrayTimer α) (elt : α) (deadline : Nat)
    (wheel : Wheel elts held k late s) (listed : (elt, deadline) ∈ held) : s.exist elt = some true := by
  have linked : (s.timerEntry elt).linked = true := by
    rcases wheel.present elt deadline listed with there | ⟨i, there⟩
    · rw [(wheel.ready elt there).1]
    · rw [(slot_index elts held k late s wheel i elt there).2.1]
  rw [exist, if_pos linked]

theorem absent_free (elts : Finset α) (held : List (α × Nat)) (k late : Nat) (s : ArrayTimer α) (elt : α)
    (wheel : Wheel elts held k late s) (absent : ∀ deadline, (elt, deadline) ∉ held) :
    s.exist elt = some false ∧ elt ∉ s.readyList ∧ ∀ i, elt ∉ s.timerList i := by
  refine ⟨?_, fun there => ?_, fun i there => ?_⟩
  · rw [exist, wheel.free elt absent]
    rfl
  · obtain ⟨-, deadline, listed, -⟩ := wheel.ready elt there
    exact absent deadline listed
  · obtain ⟨-, -, deadline, listed⟩ := slot_index elts held k late s wheel i elt there
    exact absent deadline listed

variable [DecidableEq α]

-- An element that is not in the timer goes to the slot of its deadline.
theorem insert_head_timed (elts : Finset α) (few : elts.card < 2 ^ 32) (held : List (α × Nat)) (k : Nat) (s : ArrayTimer α) (elt : α)
    (timeoutMsec : Nat) (timed : Timed elts held k s) (bound : timeoutMsec ≤ s.maxTimeoutMsec) (asked : elt ∈ elts)
    (absent : ∀ deadline, (elt, deadline) ∉ held) :
    Timed elts ((elt, s.currTimeMsec + timeoutMsec) :: held) 0 (s.insertHead (s.slotAt timeoutMsec) elt) := by
  have wheel := timed.wheel
  obtain ⟨-, notReady, notThere⟩ := absent_free elts held k 0 s elt wheel absent
  have inside := slot_at_inside s timeoutMsec wheel.narrow wheel.inside bound
  have others : ∀ other, other ≠ elt → (s.insertHead (s.slotAt timeoutMsec) elt).timerEntry other = s.timerEntry other :=
    fun other different => Function.update_of_ne different _ _
  have itself : (s.insertHead (s.slotAt timeoutMsec) elt).timerEntry elt = ⟨s.slotAt timeoutMsec, true⟩ := Function.update_self ..
  have lists : ∀ i, ∀ other ∈ (s.insertHead (s.slotAt timeoutMsec) elt).timerList i,
      (other = elt ∧ i = s.slotAt timeoutMsec) ∨ other ∈ s.timerList i := by
    intro i other there
    by_cases same : i = s.slotAt timeoutMsec
    · subst same
      simp only [insertHead, Function.update_self] at there
      rcases List.mem_cons.mp there with first | later
      · exact .inl ⟨first, rfl⟩
      · exact .inr later
    · simp only [insertHead, Function.update_of_ne same] at there
      exact .inr there
  have different : ∀ other deadline, (other, deadline) ∈ held → other ≠ elt := by
    rintro other deadline listed rfl
    exact absent deadline listed
  have replaced := waiting_update s (s.slotAt timeoutMsec) (elt :: s.timerList (s.slotAt timeoutMsec)) inside
    (s.insertHead (s.slotAt timeoutMsec) elt) rfl rfl
  have wheelAfter : Wheel elts ((elt, s.currTimeMsec + timeoutMsec) :: held) 0 0 (s.insertHead (s.slotAt timeoutMsec) elt) := by
    constructor
    · exact wheel.narrow
    · exact wheel.inside
    · intro i above
      have other : i ≠ s.slotAt timeoutMsec := fun same => absurd inside (by rw [← same]; exact Nat.not_le.mpr above)
      rw [show (s.insertHead (s.slotAt timeoutMsec) elt).timerList i = s.timerList i from Function.update_of_ne other _ _]
      exact wheel.bare i above
    · intro ahead close other there
      rcases lists _ other there with ⟨rfl, slot⟩ | before
      · have same := slot_at_apart s ahead timeoutMsec wheel.narrow wheel.inside close bound slot
        subst same
        exact ⟨itself, List.mem_cons_self⟩
      · obtain ⟨entry, listed⟩ := wheel.slot ahead close other before
        rw [others other (different other _ listed)]
        exact ⟨entry, List.mem_cons_of_mem _ listed⟩
    · intro ahead less
      omega
    · intro i
      by_cases same : i = s.slotAt timeoutMsec
      · subst same
        simp only [insertHead, Function.update_self]
        exact List.nodup_cons.mpr ⟨notThere _, wheel.slotOnce _⟩
      · simp only [insertHead, Function.update_of_ne same]
        exact wheel.slotOnce i
    · intro other there
      obtain ⟨entry, deadline, listed, early⟩ := wheel.ready other there
      rw [others other (different other _ listed)]
      exact ⟨entry, deadline, List.mem_cons_of_mem _ listed, early⟩
    · exact wheel.readyOnce
    · refine List.Pairwise.imp_of_mem ?_ wheel.ordered
      intro later earlier first second older d e left right
      have held1 : (later, d) ∈ held := (List.mem_cons.mp left).resolve_left fun same => notReady ((Prod.mk.inj same).1 ▸ first)
      have held2 : (earlier, e) ∈ held := (List.mem_cons.mp right).resolve_left fun same => notReady ((Prod.mk.inj same).1 ▸ second)
      exact older d e held1 held2
    · intro other deadline listed
      rcases List.mem_cons.mp listed with same | before
      · obtain ⟨rfl, -⟩ := Prod.mk.inj same
        refine .inr ⟨s.slotAt timeoutMsec, ?_⟩
        simp only [insertHead, Function.update_self]
        exact List.mem_cons_self
      · refine (wheel.present other deadline before).imp_right fun ⟨i, there⟩ => ⟨i, ?_⟩
        by_cases same : i = s.slotAt timeoutMsec
        · subst same
          simp only [insertHead, Function.update_self]
          exact List.mem_cons_of_mem _ there
        · simp only [insertHead, Function.update_of_ne same]
          exact there
    · intro other absentAfter
      have apart : other ≠ elt := by
        rintro rfl
        exact absentAfter _ List.mem_cons_self
      rw [others other apart]
      exact wheel.free other fun deadline listed => absentAfter deadline (List.mem_cons_of_mem _ listed)
    · rw [List.map_cons]
      refine List.nodup_cons.mpr ⟨fun member => ?_, wheel.heldOnce⟩
      obtain ⟨pair, listed, same⟩ := List.mem_map.mp member
      exact absent pair.2 (by rw [show elt = pair.1 from same.symm]; exact listed)
    · intro other deadline listed
      rcases List.mem_cons.mp listed with same | before
      · rw [(Prod.mk.inj same).1]
        exact asked
      · exact wheel.known other deadline before
    · have number := wheel.number
      simp only [List.length_cons] at replaced ⊢
      rw [show (s.insertHead (s.slotAt timeoutMsec) elt).readyList = s.readyList from rfl]
      omega
  have limit := held_few elts _ 0 0 _ wheelAfter
  have number := wheel.number
  refine ⟨wheelAfter, ?_, timed.ready⟩
  show wrap32 (s.timerCnt + 1) = _
  simp only [List.length_cons] at limit replaced
  rw [wrap32_small _ (by rw [timed.timer]; omega), timed.timer]
  omega

theorem erase_none (held : List (α × Nat)) (elt : α) (absent : ∀ deadline, (elt, deadline) ∉ held) :
    held.filter (fun pair => pair.1 ≠ elt) = held := by
  refine List.filter_eq_self.mpr fun pair member => ?_
  simp only [ne_eq, decide_eq_true_eq]
  rintro rfl
  exact absent pair.2 member

theorem erase_count (held : List (α × Nat)) (elt : α) (deadline : Nat) (once : (held.map Prod.fst).Nodup)
    (listed : (elt, deadline) ∈ held) : (held.filter fun pair => pair.1 ≠ elt).length + 1 = held.length := by
  induction held with
  | nil => cases listed
  | cons pair rest ih =>
      obtain ⟨fresh, others⟩ := List.nodup_cons.mp once
      rcases List.mem_cons.mp listed with same | later
      · subst same
        rw [List.filter_cons_of_neg (by simp), erase_none rest elt fun d member => fresh (List.mem_map.mpr ⟨_, member, rfl⟩)]
        rfl
      · have apart : pair.1 ≠ elt := fun same => fresh (List.mem_map.mpr ⟨_, later, same.symm⟩)
        rw [List.filter_cons_of_pos (by simpa using apart), List.length_cons, List.length_cons, ih others later]

theorem mem_erased (held : List (α × Nat)) (elt other : α) (deadline : Nat) :
    (other, deadline) ∈ held.filter (fun pair => pair.1 ≠ elt) ↔ (other, deadline) ∈ held ∧ other ≠ elt := by
  simp [List.mem_filter]

-- Whatever takes `elt` out of its list and nothing else.
theorem wheel_without (elts : Finset α) (held : List (α × Nat)) (k : Nat) (s t : ArrayTimer α) (elt : α) (deadline : Nat)
    (wheel : Wheel elts held k 0 s) (listed : (elt, deadline) ∈ held) (maxTimeout : t.maxTimeoutMsec = s.maxTimeoutMsec)
    (index : t.currIndex = s.currIndex) (time : t.currTimeMsec = s.currTimeMsec)
    (slots : ∀ i, t.timerList i = (s.timerList i).erase elt) (ready : t.readyList = s.readyList.erase elt)
    (entries : t.timerEntry = Function.update s.timerEntry elt {}) (number : t.waiting + t.readyList.length + 1 = held.length) :
    Wheel elts (held.filter fun pair => pair.1 ≠ elt) k 0 t := by
  have sameSlot : ∀ ahead, t.slotAt ahead = s.slotAt ahead := fun ahead => by rw [slotAt, slotAt, index, maxTimeout]
  have others : ∀ other, other ≠ elt → t.timerEntry other = s.timerEntry other := fun other different => by
    rw [entries, Function.update_of_ne different]
  have inSlot : ∀ i other, other ∈ t.timerList i ↔ other ≠ elt ∧ other ∈ s.timerList i := fun i other => by
    rw [slots, (wheel.slotOnce i).mem_erase_iff]
  have inReady : ∀ other, other ∈ t.readyList ↔ other ≠ elt ∧ other ∈ s.readyList := fun other => by
    rw [ready, wheel.readyOnce.mem_erase_iff]
  constructor
  · exact maxTimeout ▸ wheel.narrow
  · rw [maxTimeout, index]
    exact wheel.inside
  · intro i above
    rw [slots, wheel.bare i (maxTimeout ▸ above), List.erase_nil]
  · intro ahead close other there
    obtain ⟨different, before⟩ := (inSlot _ other).mp there
    rw [sameSlot] at before ⊢
    obtain ⟨entry, known⟩ := wheel.slot ahead (maxTimeout ▸ close) other before
    rw [others other different, time]
    exact ⟨entry, (mem_erased held elt other _).mpr ⟨known, different⟩⟩
  · intro ahead less close
    rw [sameSlot, slots, wheel.drained ahead less (maxTimeout ▸ close), List.erase_nil]
  · intro i
    rw [slots]
    exact (wheel.slotOnce i).erase elt
  · intro other there
    obtain ⟨different, before⟩ := (inReady other).mp there
    obtain ⟨entry, d, known, early⟩ := wheel.ready other before
    rw [others other different, time]
    exact ⟨entry, d, (mem_erased held elt other d).mpr ⟨known, different⟩, early⟩
  · rw [ready]
    exact wheel.readyOnce.erase elt
  · rw [ready]
    refine List.Pairwise.imp ?_ (wheel.ordered.sublist List.erase_sublist)
    intro later earlier older d e left right
    exact older d e ((mem_erased held elt later d).mp left).1 ((mem_erased held elt earlier e).mp right).1
  · intro other d known
    obtain ⟨before, different⟩ := (mem_erased held elt other d).mp known
    rcases wheel.present other d before with there | ⟨i, there⟩
    · exact .inl ((inReady other).mpr ⟨different, there⟩)
    · exact .inr ⟨i, (inSlot i other).mpr ⟨different, there⟩⟩
  · intro other absent
    by_cases same : other = elt
    · rw [same, entries, Function.update_self]
    · rw [others other same]
      exact wheel.free other fun d known => absent d ((mem_erased held elt other d).mpr ⟨known, same⟩)
  · exact (List.Sublist.map Prod.fst List.filter_sublist).nodup wheel.heldOnce
  · intro other d known
    exact wheel.known other d ((mem_erased held elt other d).mp known).1
  · have count := erase_count held elt deadline wheel.heldOnce listed
    omega

theorem take_out_timed (elts : Finset α) (held : List (α × Nat)) (k : Nat) (s : ArrayTimer α) (elt : α)
    (deadline : Nat) (timed : Timed elts held k s) (listed : (elt, deadline) ∈ held) :
    elt ∈ s.listOf elt ∧ Timed elts (held.filter fun pair => pair.1 ≠ elt) k (s.takeOut elt) ∧
      (s.takeOut elt).readyList = s.readyList.erase elt ∧ (s.takeOut elt).maxTimeoutMsec = s.maxTimeoutMsec ∧
      (s.takeOut elt).currTimeMsec = s.currTimeMsec := by
  have wheel := timed.wheel
  have number := wheel.number
  have timer := timed.timer
  have readyCnt := timed.ready
  by_cases there : elt ∈ s.readyList
  · have index : (s.timerEntry elt).index = kReadyListIndex := by rw [(wheel.ready elt there).1]
    have notSlot : ∀ i, elt ∉ s.timerList i := fun i member => slot_not_ready elts held k 0 s wheel i elt member there
    have length := List.length_erase_of_mem there
    have positive := List.length_pos_of_mem there
    rw [listOf, if_neg (not_not_intro index), takeOut, if_neg (not_not_intro index)]
    have same := waiting_congr s (s.takeFromReady elt) rfl rfl
    have sumReady : (s.takeFromReady elt).readyCnt = sub32 s.readyCnt 1 := rfl
    have list : (s.takeFromReady elt).readyList = s.readyList.erase elt := rfl
    refine ⟨there, ⟨wheel_without elts held k s _ elt deadline wheel listed rfl rfl rfl ?_ rfl rfl ?_, ?_, ?_⟩, rfl, rfl, rfl⟩
    · exact fun i => (List.erase_of_not_mem (notSlot i)).symm
    · rw [same, list, length]
      omega
    · rw [same]
      exact timer
    · rw [sumReady, sub32_le _ _ (by omega), list, length]
      omega
  · obtain ⟨i, slot⟩ := (wheel.present elt deadline listed).resolve_left there
    obtain ⟨bound, entry, -⟩ := slot_index elts held k 0 s wheel i elt slot
    have narrow := wheel.narrow
    have indexIs : (s.timerEntry elt).index = i := by rw [entry]
    have index : (s.timerEntry elt).index ≠ kReadyListIndex := by
      rw [indexIs, kReadyListIndex]
      omega
    have length := List.length_erase_of_mem slot
    have positive := List.length_pos_of_mem slot
    rw [listOf, if_pos index, takeOut, if_pos index, indexIs]
    have replaced := waiting_update s i ((s.timerList i).erase elt) bound (s.takeFromSlot i elt) rfl rfl
    have sumTimer : (s.takeFromSlot i elt).timerCnt = sub32 s.timerCnt 1 := rfl
    have list : (s.takeFromSlot i elt).readyList = s.readyList := rfl
    rw [length] at replaced
    refine ⟨slot, ⟨wheel_without elts held k s _ elt deadline wheel listed rfl rfl rfl ?_ ?_ rfl ?_, ?_, readyCnt⟩, ?_, rfl, rfl⟩
    · intro j
      by_cases same : j = i
      · rw [same]
        exact Function.update_self ..
      · rw [show (s.takeFromSlot i elt).timerList j = s.timerList j from Function.update_of_ne same _ _]
        refine (List.erase_of_not_mem fun member => ?_).symm
        have equal := congrArg EltEntry.index ((slot_index elts held k 0 s wheel j elt member).2.1.symm.trans entry)
        exact same equal
    · exact (List.erase_of_not_mem there).symm
    · rw [list]
      omega
    · rw [sumTimer, sub32_le _ _ (by omega)]
      omega
    · exact (List.erase_of_not_mem there).symm

theorem remove_timed (elts : Finset α) (held : List (α × Nat)) (k : Nat) (s : ArrayTimer α) (elt : α) (deadline : Nat)
    (timed : Timed elts held k s) (listed : (elt, deadline) ∈ held) : s.remove elt = some (true, s.takeOut elt) := by
  have there := (take_out_timed elts held k s elt deadline timed listed).1
  rw [remove, held_exists elts held k 0 s elt deadline timed.wheel listed, Option.bind_some, if_pos rfl, asserting, if_pos there]

theorem remove_absent (elts : Finset α) (held : List (α × Nat)) (k : Nat) (s : ArrayTimer α) (elt : α) (timed : Timed elts held k s)
    (absent : ∀ deadline, (elt, deadline) ∉ held) : s.remove elt = some (false, s) := by
  have free : (s.timerEntry elt).index = 0 := by rw [timed.wheel.free elt absent]
  rw [remove, (absent_free elts held k 0 s elt timed.wheel absent).1, Option.bind_some, if_neg (by decide), asserting, if_pos free]

omit [DecidableEq α] in
-- No element in a slot is due before the timer's time, and all the ready ones are.
theorem last_ready_first (elts : Finset α) (held : List (α × Nat)) (k : Nat) (s : ArrayTimer α) (elt : α) (timed : Timed elts held k s)
    (last : s.readyList.getLast? = some elt) :
    ∃ deadline, (elt, deadline) ∈ held ∧ deadline ≤ s.currTimeMsec ∧ ∀ pair ∈ held, deadline ≤ pair.2 := by
  have wheel := timed.wheel
  obtain ⟨member, -, whole⟩ := take_last s.readyList elt last wheel.readyOnce
  obtain ⟨-, deadline, listed, early⟩ := wheel.ready elt member
  refine ⟨deadline, listed, early, fun pair known => ?_⟩
  rcases wheel.present pair.1 pair.2 known with there | ⟨i, there⟩
  · rw [whole] at there
    rcases List.mem_append.mp there with before | itself
    · have ordered := wheel.ordered
      rw [whole] at ordered
      exact (List.pairwise_append.mp ordered).2.2 pair.1 before elt (by simp) pair.2 deadline known listed
    · have same : pair.1 = elt := by simpa using itself
      exact Nat.le_of_eq (held_deadline held wheel.heldOnce elt deadline pair.2 listed (same ▸ known))
  · obtain ⟨bound, -⟩ := slot_index elts held k 0 s wheel i pair.1 there
    obtain ⟨ahead, close, rfl⟩ := slot_at_every s i wheel.narrow wheel.inside bound
    have same := held_deadline held wheel.heldOnce pair.1 _ _ known (wheel.slot ahead close pair.1 there).2
    omega

theorem erase_last (list : List α) (last : α) (final : list.getLast? = some last) (once : list.Nodup) :
    list.erase last = list.dropLast := by
  obtain ⟨-, gone, whole⟩ := take_last list last final once
  generalize list.dropLast = front at gone whole
  rw [whole, List.erase_append_right _ gone, List.erase_cons_head, List.append_nil]

end ArrayTimer

end PaxosStore.Certain
