import PaxosStore.Certain.ArrayTimer
import PaxosStore.Heap.Linked

set_option autoImplicit false

namespace PaxosStore.Certain

open PaxosStore.PaxosKv PaxosStore.Codec PaxosStore.Heap

namespace ArrayTimer

variable {α : Type}

theorem slot_at_sum (s : ArrayTimer α) (ahead : Nat) (narrow : s.maxTimeoutMsec < 2 ^ 31) (inside : s.currIndex ≤ s.maxTimeoutMsec)
    (bound : ahead ≤ s.maxTimeoutMsec) :
    s.slotAt ahead =
      if ahead + s.currIndex ≥ s.maxTimeoutMsec + 1 then ahead + s.currIndex - (s.maxTimeoutMsec + 1) else ahead + s.currIndex := by
  have index : wrap32 (ahead + s.currIndex) = ahead + s.currIndex := wrap32_small _ (by omega)
  have count : wrap32 (s.maxTimeoutMsec + 1) = s.maxTimeoutMsec + 1 := wrap32_small _ (by omega)
  rw [slotAt, index, count]

theorem slot_at_inside (s : ArrayTimer α) (ahead : Nat) (narrow : s.maxTimeoutMsec < 2 ^ 31)
    (inside : s.currIndex ≤ s.maxTimeoutMsec) (bound : ahead ≤ s.maxTimeoutMsec) : s.slotAt ahead ≤ s.maxTimeoutMsec := by
  rw [slot_at_sum s ahead narrow inside bound]
  split <;> omega

theorem slot_at_apart (s : ArrayTimer α) (left right : Nat) (narrow : s.maxTimeoutMsec < 2 ^ 31)
    (inside : s.currIndex ≤ s.maxTimeoutMsec) (first : left ≤ s.maxTimeoutMsec) (second : right ≤ s.maxTimeoutMsec)
    (same : s.slotAt left = s.slotAt right) : left = right := by
  rw [slot_at_sum s left narrow inside first, slot_at_sum s right narrow inside second] at same
  split at same <;> split at same <;> omega

theorem slot_at_every (s : ArrayTimer α) (index : Nat) (narrow : s.maxTimeoutMsec < 2 ^ 31)
    (inside : s.currIndex ≤ s.maxTimeoutMsec) (bound : index ≤ s.maxTimeoutMsec) :
    ∃ ahead, ahead ≤ s.maxTimeoutMsec ∧ s.slotAt ahead = index := by
  by_cases before : index < s.currIndex
  · refine ⟨index + (s.maxTimeoutMsec + 1) - s.currIndex, by omega, ?_⟩
    rw [slot_at_sum s _ narrow inside (by omega)]
    split <;> omega
  · refine ⟨index - s.currIndex, by omega, ?_⟩
    rw [slot_at_sum s _ narrow inside (by omega)]
    split <;> omega

def waiting (s : ArrayTimer α) : Nat := ∑ i ∈ Finset.range (s.maxTimeoutMsec + 1), (s.timerList i).length

-- `held` gives the elements in the timer with their deadlines. The slots up to `k`
-- ahead of the current one are empty, the ready elements are due by `late` from now.
structure Wheel (elts : Finset α) (held : List (α × Nat)) (k late : Nat) (s : ArrayTimer α) : Prop where
  narrow : s.maxTimeoutMsec < 2 ^ 31
  inside : s.currIndex ≤ s.maxTimeoutMsec
  bare : ∀ i, s.maxTimeoutMsec < i → s.timerList i = []
  slot : ∀ ahead, ahead ≤ s.maxTimeoutMsec → ∀ elt ∈ s.timerList (s.slotAt ahead),
    s.timerEntry elt = ⟨s.slotAt ahead, true⟩ ∧ (elt, s.currTimeMsec + ahead) ∈ held
  drained : ∀ ahead, ahead < k → ahead ≤ s.maxTimeoutMsec → s.timerList (s.slotAt ahead) = []
  slotOnce : ∀ i, (s.timerList i).Nodup
  ready : ∀ elt ∈ s.readyList, s.timerEntry elt = ⟨kReadyListIndex, true⟩ ∧
    ∃ deadline, (elt, deadline) ∈ held ∧ deadline ≤ s.currTimeMsec + late
  readyOnce : s.readyList.Nodup
  ordered : s.readyList.Pairwise fun later earlier => ∀ d e, (later, d) ∈ held → (earlier, e) ∈ held → e ≤ d
  present : ∀ elt deadline, (elt, deadline) ∈ held → elt ∈ s.readyList ∨ ∃ i, elt ∈ s.timerList i
  free : ∀ elt, (∀ deadline, (elt, deadline) ∉ held) → s.timerEntry elt = {}
  heldOnce : (held.map Prod.fst).Nodup
  known : ∀ elt deadline, (elt, deadline) ∈ held → elt ∈ elts
  number : s.waiting + s.readyList.length = held.length

section Lists

variable (elts : Finset α) (held : List (α × Nat)) (k late : Nat) (s : ArrayTimer α)

theorem held_deadline (once : (held.map Prod.fst).Nodup) (elt : α) (d e : Nat) (first : (elt, d) ∈ held)
    (second : (elt, e) ∈ held) : d = e := by
  have same := List.inj_on_of_nodup_map once first second rfl
  exact (Prod.mk.inj same).2

-- An element of a slot is in this slot only, and not in the ready list.
theorem slot_index (wheel : Wheel elts held k late s) (i : Nat) (elt : α) (member : elt ∈ s.timerList i) :
    i ≤ s.maxTimeoutMsec ∧ s.timerEntry elt = ⟨i, true⟩ ∧ ∃ deadline, (elt, deadline) ∈ held := by
  have bound : i ≤ s.maxTimeoutMsec := by
    by_contra above
    rw [wheel.bare i (by omega)] at member
    cases member
  obtain ⟨ahead, close, rfl⟩ := slot_at_every s i wheel.narrow wheel.inside bound
  obtain ⟨entry, listed⟩ := wheel.slot ahead close elt member
  exact ⟨bound, entry, _, listed⟩

theorem slot_not_ready (wheel : Wheel elts held k late s) (i : Nat) (elt : α) (member : elt ∈ s.timerList i) :
    elt ∉ s.readyList := by
  intro listed
  obtain ⟨bound, entry, -⟩ := slot_index elts held k late s wheel i elt member
  have index := congrArg EltEntry.index ((wheel.ready elt listed).1.symm.trans entry)
  have narrow := wheel.narrow
  simp only [kReadyListIndex] at index
  omega

theorem waiting_congr (t : ArrayTimer α) (same : t.maxTimeoutMsec = s.maxTimeoutMsec) (lists : t.timerList = s.timerList) :
    t.waiting = s.waiting := by
  rw [waiting, waiting, same, lists]

theorem waiting_update (i : Nat) (list : List α) (bound : i ≤ s.maxTimeoutMsec) (t : ArrayTimer α)
    (same : t.maxTimeoutMsec = s.maxTimeoutMsec) (lists : t.timerList = Function.update s.timerList i list) :
    t.waiting + (s.timerList i).length = s.waiting + list.length := by
  rw [waiting, waiting, same, lists]
  exact sum_replace (s.maxTimeoutMsec + 1) i (by omega) s.timerList list List.length

theorem held_few [DecidableEq α] (wheel : Wheel elts held k late s) : held.length ≤ elts.card := by
  have inside : (held.map Prod.fst).toFinset ⊆ elts := by
    intro elt member
    obtain ⟨pair, listed, rfl⟩ := List.mem_map.mp (List.mem_toFinset.mp member)
    exact wheel.known pair.1 pair.2 listed
  have few := Finset.card_le_card inside
  rwa [List.toFinset_card_of_nodup wheel.heldOnce, List.length_map] at few

end Lists

variable [DecidableEq α]

omit [DecidableEq α] in
theorem take_last (list : List α) (last : α) (final : list.getLast? = some last) (once : list.Nodup) :
    last ∈ list ∧ last ∉ list.dropLast ∧ list = list.dropLast ++ [last] := by
  have whole : list = list.dropLast ++ [last] := (List.dropLast_append_getLast? last final).symm
  refine ⟨List.mem_of_getLast? final, fun member => ?_, whole⟩
  rw [whole] at once
  exact (List.nodup_append.mp once).2.2 last member last (by simp) rfl

-- One round of the loop over the slot that is `k` ahead.
theorem to_ready_wheel (elts : Finset α) (held : List (α × Nat)) (k : Nat) (s : ArrayTimer α) (last : α)
    (wheel : Wheel elts held k k s) (bound : k ≤ s.maxTimeoutMsec) (final : (s.timerList (s.slotAt k)).getLast? = some last) :
    (s.timerEntry last).index = s.slotAt k ∧ Wheel elts held k k (s.toReadyList (s.slotAt k) last) := by
  obtain ⟨member, gone, whole⟩ := take_last _ last final (wheel.slotOnce _)
  obtain ⟨entry, listed⟩ := wheel.slot k bound last member
  have subset : ∀ i, ∀ elt ∈ (s.toReadyList (s.slotAt k) last).timerList i, elt ∈ s.timerList i ∧ elt ≠ last := by
    intro i elt there
    by_cases same : i = s.slotAt k
    · subst same
      simp only [toReadyList, Function.update_self] at there
      refine ⟨List.mem_of_mem_dropLast there, ?_⟩
      rintro rfl
      exact gone there
    · simp only [toReadyList, Function.update_of_ne same] at there
      refine ⟨there, ?_⟩
      rintro rfl
      have index := congrArg EltEntry.index ((slot_index elts held k k s wheel i elt there).2.1.symm.trans entry)
      exact same index
  have others : ∀ elt, elt ≠ last → (s.toReadyList (s.slotAt k) last).timerEntry elt = s.timerEntry elt :=
    fun elt other => Function.update_of_ne other _ _
  have itself : (s.toReadyList (s.slotAt k) last).timerEntry last = ⟨kReadyListIndex, true⟩ := Function.update_self ..
  refine ⟨by rw [entry], ?_⟩
  constructor
  · exact wheel.narrow
  · exact wheel.inside
  · intro i above
    apply List.eq_nil_iff_forall_not_mem.mpr
    intro elt there
    have before := (subset i elt there).1
    rw [wheel.bare i above] at before
    cases before
  · intro ahead close elt there
    obtain ⟨before, other⟩ := subset _ elt there
    rw [others elt other]
    exact wheel.slot ahead close elt before
  · intro ahead less close
    apply List.eq_nil_iff_forall_not_mem.mpr
    intro elt there
    have before := (subset _ elt there).1
    rw [show s.timerList ((s.toReadyList (s.slotAt k) last).slotAt ahead) = [] from wheel.drained ahead less close] at before
    cases before
  · intro i
    by_cases same : i = s.slotAt k
    · subst same
      simp only [toReadyList, Function.update_self]
      exact (List.dropLast_sublist _).nodup (wheel.slotOnce _)
    · simp only [toReadyList, Function.update_of_ne same]
      exact wheel.slotOnce i
  · intro elt there
    by_cases same : elt = last
    · subst same
      exact ⟨itself, _, listed, Nat.le_refl _⟩
    · rw [others elt same]
      exact wheel.ready elt ((List.mem_cons.mp there).resolve_left same)
  · exact List.nodup_cons.mpr ⟨slot_not_ready elts held k k s wheel _ last member, wheel.readyOnce⟩
  · refine List.pairwise_cons.mpr ⟨fun earlier there d e first second => ?_, wheel.ordered⟩
    -- what is ready is due by now + k, which is when `last` is due
    obtain ⟨-, deadline, known, early⟩ := wheel.ready earlier there
    have left := held_deadline held wheel.heldOnce last _ _ first listed
    have right := held_deadline held wheel.heldOnce earlier _ _ second known
    omega
  · intro elt deadline known
    by_cases same : elt = last
    · exact .inl (by rw [same]; exact List.mem_cons_self)
    · rcases wheel.present elt deadline known with there | ⟨i, there⟩
      · exact .inl (List.mem_cons_of_mem _ there)
      · refine .inr ⟨i, ?_⟩
        by_cases slot : i = s.slotAt k
        · subst slot
          rw [whole] at there
          simp only [toReadyList, Function.update_self]
          exact (List.mem_append.mp there).resolve_right (by simpa using same)
        · simp only [toReadyList, Function.update_of_ne slot]
          exact there
  · intro elt absent
    have other : elt ≠ last := by
      rintro rfl
      exact absent _ listed
    rw [others elt other]
    exact wheel.free elt absent
  · exact wheel.heldOnce
  · exact wheel.known
  · have replaced := waiting_update s (s.slotAt k) (s.timerList (s.slotAt k)).dropLast
      (slot_at_inside s k wheel.narrow wheel.inside bound) (s.toReadyList (s.slotAt k) last) rfl rfl
    have number := wheel.number
    have length := congrArg List.length whole
    simp only [List.length_append, List.length_singleton] at length
    simp only [toReadyList, List.length_cons] at replaced ⊢
    omega

-- What the loops leave alone; they put elements in front of the ready list.
structure Moved (s t : ArrayTimer α) : Prop where
  maxTimeout : t.maxTimeoutMsec = s.maxTimeoutMsec
  index : t.currIndex = s.currIndex
  time : t.currTimeMsec = s.currTimeMsec
  timer : t.timerCnt = s.timerCnt
  ready : t.readyCnt = s.readyCnt
  front : ∃ new, t.readyList = new ++ s.readyList

omit [DecidableEq α] in
theorem moved_trans (s t u : ArrayTimer α) (first : Moved s t) (second : Moved t u) : Moved s u := by
  obtain ⟨near, nearFront⟩ := first.front
  obtain ⟨far, farFront⟩ := second.front
  exact ⟨second.maxTimeout.trans first.maxTimeout, second.index.trans first.index, second.time.trans first.time,
    second.timer.trans first.timer, second.ready.trans first.ready,
    far ++ near, by rw [farFront, nearFront, List.append_assoc]⟩

section Loops

variable (elts : Finset α) (held : List (α × Nat)) (few : elts.card < 2 ^ 32)

include few

theorem move_timer_loop (k fuel : Nat) (s : ArrayTimer α) (movedCnt : Nat) (wheel : Wheel elts held k k s)
    (bound : k ≤ s.maxTimeoutMsec) (enough : (s.timerList (s.slotAt k)).length < fuel) (counted : movedCnt ≤ s.readyList.length) :
    ∃ t cnt, moveTimerLoop (s.slotAt k) fuel s movedCnt = some (t, cnt) ∧ Wheel elts held (k + 1) k t ∧ Moved s t ∧
      cnt + s.readyList.length = movedCnt + t.readyList.length := by
  induction fuel generalizing s movedCnt with
  | zero => omega
  | succ fuel ih =>
      rw [moveTimerLoop]
      cases final : (s.timerList (s.slotAt k)).getLast? with
      | none =>
          refine ⟨s, movedCnt, rfl, ?_, ⟨rfl, rfl, rfl, rfl, rfl, [], rfl⟩, rfl⟩
          refine { wheel with drained := fun ahead less close => ?_ }
          by_cases here : ahead = k
          · rw [here]
            exact List.getLast?_eq_none_iff.mp final
          · exact wheel.drained ahead (by omega) close
      | some last =>
          obtain ⟨entry, next⟩ := to_ready_wheel elts held k s last wheel bound final
          have length : (s.toReadyList (s.slotAt k) last).readyList.length = s.readyList.length + 1 := rfl
          have total := next.number
          have less := held_few elts held k k _ next
          have exact32 : wrap32 (movedCnt + 1) = movedCnt + 1 := wrap32_small _ (by omega)
          have shorter : ((s.toReadyList (s.slotAt k) last).timerList (s.slotAt k)).length < fuel := by
            obtain ⟨-, -, whole⟩ := take_last _ last final (wheel.slotOnce _)
            have sum := congrArg List.length whole
            simp only [List.length_append, List.length_singleton] at sum
            simp only [toReadyList, Function.update_self]
            omega
          obtain ⟨t, cnt, ran, after, moved, sum⟩ := ih (s.toReadyList (s.slotAt k) last) (movedCnt + 1) next bound shorter (by omega)
          obtain ⟨new, front⟩ := moved.front
          refine ⟨t, cnt, ?_, after, ⟨moved.maxTimeout, moved.index, moved.time, moved.timer, moved.ready, new ++ [last], ?_⟩, by omega⟩
          · dsimp only
            rw [asserting, if_pos entry, exact32]
            exact ran
          · rw [front, List.append_assoc]
            rfl

theorem move_timer_by_index (k : Nat) (s : ArrayTimer α) (wheel : Wheel elts held k k s) (bound : k ≤ s.maxTimeoutMsec) :
    ∃ t cnt, s.moveTimerToReadyListByIndex (s.slotAt k) = some (t, cnt) ∧ Wheel elts held (k + 1) k t ∧ Moved s t ∧
      cnt + s.readyList.length = t.readyList.length := by
  obtain ⟨t, cnt, ran, after, moved, sum⟩ := move_timer_loop elts held few k ((s.timerList (s.slotAt k)).length + 1) s 0 wheel bound
    (by omega) (by omega)
  refine ⟨t, cnt, ?_, after, moved, by omega⟩
  rw [moveTimerToReadyListByIndex, asserting, if_pos (slot_at_inside s k wheel.narrow wheel.inside bound)]
  exact ran

omit few [DecidableEq α] in
theorem wheel_later (k late later : Nat) (s : ArrayTimer α) (wheel : Wheel elts held k late s) (le : late ≤ later) :
    Wheel elts held k later s := by
  refine { wheel with ready := fun elt there => ?_ }
  obtain ⟨entry, deadline, known, early⟩ := wheel.ready elt there
  exact ⟨entry, deadline, known, by omega⟩

theorem move_timer_from (left i index : Nat) (s : ArrayTimer α) (movedCnt : Nat) (wheel : Wheel elts held i i s)
    (bound : i + left ≤ s.maxTimeoutMsec) (counted : movedCnt ≤ s.readyList.length) :
    ∃ t cnt, moveTimerFrom (left + 1) i index movedCnt s = some (t, s.slotAt (i + left), cnt) ∧
      Wheel elts held (i + left + 1) (i + left) t ∧ Moved s t ∧ cnt + s.readyList.length = movedCnt + t.readyList.length := by
  induction left generalizing s i index movedCnt with
  | zero =>
      obtain ⟨t, cnt, ran, after, moved, sum⟩ := move_timer_by_index elts held few i s wheel (by omega)
      have total := after.number
      have less := held_few elts held _ _ _ after
      have exact32 : wrap32 (movedCnt + cnt) = movedCnt + cnt := wrap32_small _ (by omega)
      refine ⟨t, movedCnt + cnt, ?_, after, moved, by omega⟩
      simp only [moveTimerFrom, ran, Option.bind_some, exact32, Nat.add_zero]
  | succ left ih =>
      obtain ⟨t, cnt, ran, after, moved, sum⟩ := move_timer_by_index elts held few i s wheel (by omega)
      have total := after.number
      have less := held_few elts held _ _ _ after
      have exact32 : wrap32 (movedCnt + cnt) = movedCnt + cnt := wrap32_small _ (by omega)
      obtain ⟨u, all, rest, done, further, whole⟩ := ih (i + 1) (s.slotAt i) t (movedCnt + cnt)
        (wheel_later elts held _ _ _ t after (by omega)) (by rw [moved.maxTimeout]; omega) (by omega)
      have sameSlot : t.slotAt (i + 1 + left) = s.slotAt (i + (left + 1)) := by
        rw [slotAt, slotAt, moved.maxTimeout, moved.index, show i + 1 + left = i + (left + 1) by omega]
      refine ⟨u, all, ?_, ?_, moved_trans s t u moved further, by omega⟩
      · rw [moveTimerFrom, ran, Option.bind_some, exact32, rest, sameSlot]
      · rw [show i + (left + 1) = i + 1 + left by omega]
        exact done

omit few [DecidableEq α] in
theorem slot_at_turned (s t : ArrayTimer α) (turned ahead before : Nat) (narrow : s.maxTimeoutMsec < 2 ^ 31)
    (inside : s.currIndex ≤ s.maxTimeoutMsec) (same : t.maxTimeoutMsec = s.maxTimeoutMsec) (index : t.currIndex = s.slotAt turned)
    (passed : turned < before) (bound : before ≤ s.maxTimeoutMsec) (close : ahead ≤ s.maxTimeoutMsec)
    (slot : s.slotAt before = t.slotAt ahead) : before = turned + ahead := by
  have there := slot_at_inside s turned narrow inside (by omega)
  rw [slot_at_sum s before narrow inside bound, slot_at_sum t ahead (by omega) (by omega) (by omega), same, index,
    slot_at_sum s turned narrow inside (by omega)] at slot
  split at slot <;> split at slot <;> split at slot <;> omega

-- The slots up to `turned` ahead are empty, so the clock may stand at the last of
-- them, and anywhere after it when there is no other.
omit few [DecidableEq α] in
theorem wheel_turned (turned time : Nat) (s t : ArrayTimer α) (wheel : Wheel elts held (turned + 1) turned s)
    (bound : turned ≤ s.maxTimeoutMsec) (reached : s.currTimeMsec + turned ≤ time)
    (whole : turned = s.maxTimeoutMsec ∨ time = s.currTimeMsec + turned)
    (maxTimeout : t.maxTimeoutMsec = s.maxTimeoutMsec) (index : t.currIndex = s.slotAt turned) (clock : t.currTimeMsec = time)
    (lists : t.timerList = s.timerList) (readyList : t.readyList = s.readyList) (entries : t.timerEntry = s.timerEntry) :
    Wheel elts held 1 0 t := by
  have inside : t.currIndex ≤ t.maxTimeoutMsec := by
    rw [index, maxTimeout]
    exact slot_at_inside s turned wheel.narrow wheel.inside bound
  have narrow : t.maxTimeoutMsec < 2 ^ 31 := maxTimeout ▸ wheel.narrow
  have position : ∀ ahead, ahead ≤ t.maxTimeoutMsec → ∀ elt ∈ t.timerList (t.slotAt ahead), turned < s.maxTimeoutMsec ∧ 0 < ahead ∧
      turned + ahead ≤ s.maxTimeoutMsec ∧ t.slotAt ahead = s.slotAt (turned + ahead) := by
    intro ahead close elt there
    have slotInside := slot_at_inside t ahead narrow inside close
    obtain ⟨before, beforeBound, slot⟩ := slot_at_every s (t.slotAt ahead) wheel.narrow wheel.inside (maxTimeout ▸ slotInside)
    rw [lists, ← slot] at there
    have late : turned < before := by
      by_contra early
      rw [wheel.drained before (by omega) beforeBound] at there
      cases there
    have sum := slot_at_turned s t turned ahead before wheel.narrow wheel.inside maxTimeout index late beforeBound
      (maxTimeout ▸ close) slot
    subst sum
    exact ⟨by omega, by omega, beforeBound, slot.symm⟩
  constructor
  · exact narrow
  · exact inside
  · intro i above
    rw [lists]
    exact wheel.bare i (maxTimeout ▸ above)
  · intro ahead close elt there
    obtain ⟨partly, -, sumBound, slot⟩ := position ahead close elt there
    rw [slot, lists] at there
    have known := wheel.slot (turned + ahead) sumBound elt there
    rw [entries, slot, clock, whole.resolve_left (by omega), Nat.add_assoc]
    exact known
  · intro ahead first close
    apply List.eq_nil_iff_forall_not_mem.mpr
    intro elt there
    have later := (position ahead close elt there).2.1
    omega
  · rw [lists]
    exact wheel.slotOnce
  · rw [readyList, entries, clock]
    intro elt there
    obtain ⟨entry, deadline, known, early⟩ := wheel.ready elt there
    exact ⟨entry, deadline, known, by omega⟩
  · rw [readyList]
    exact wheel.readyOnce
  · rw [readyList]
    exact wheel.ordered
  · rw [readyList, lists]
    exact wheel.present
  · rw [entries]
    exact wheel.free
  · exact wheel.heldOnce
  · exact wheel.known
  · rw [readyList, waiting_congr s t maxTimeout lists]
    exact wheel.number

end Loops

-- Between two calls the counters are exact and no ready element is early.
structure Timed (elts : Finset α) (held : List (α × Nat)) (k : Nat) (s : ArrayTimer α) : Prop where
  wheel : Wheel elts held k 0 s
  timer : s.timerCnt = s.waiting
  ready : s.readyCnt = s.readyList.length

omit [DecidableEq α] in
theorem turn_to_timer (t : ArrayTimer α) (currTimeMsec index movedCnt : Nat) :
    (t.turnTo currTimeMsec index movedCnt).timerCnt = sub32 t.timerCnt movedCnt := rfl

omit [DecidableEq α] in
theorem turn_to_ready (t : ArrayTimer α) (currTimeMsec index movedCnt : Nat) :
    (t.turnTo currTimeMsec index movedCnt).readyCnt = wrap32 (t.readyCnt + movedCnt) := rfl

theorem move_timer_to_ready_list (elts : Finset α) (few : elts.card < 2 ^ 32) (held : List (α × Nat)) (s : ArrayTimer α) (now : Nat)
    (timed : Timed elts held 0 s) :
    ∃ t, s.moveTimerToReadyList now = some t ∧ Timed elts held 1 t ∧ t.maxTimeoutMsec = s.maxTimeoutMsec ∧
      t.currTimeMsec = max s.currTimeMsec now ∧ ∃ new, t.readyList = new ++ s.readyList := by
  have narrow := timed.wheel.narrow
  rw [moveTimerToReadyList]
  have clock : (if now < s.currTimeMsec then s.currTimeMsec else now) = max s.currTimeMsec now := by
    split <;> omega
  rw [clock]
  generalize rangeIs : (if max s.currTimeMsec now - s.currTimeMsec > s.maxTimeoutMsec then s.maxTimeoutMsec
    else max s.currTimeMsec now - s.currTimeMsec) = range
  have bound : range ≤ s.maxTimeoutMsec ∧ s.currTimeMsec + range ≤ max s.currTimeMsec now ∧
      (range = s.maxTimeoutMsec ∨ max s.currTimeMsec now = s.currTimeMsec + range) := by
    split at rangeIs <;> omega
  obtain ⟨small, reached, whole⟩ := bound
  obtain ⟨t, cnt, ran, after, moved, sum⟩ := move_timer_from elts held few range 0 s.currIndex s 0 timed.wheel (by omega) (by omega)
  rw [Nat.zero_add] at after ran
  have counts := timed.timer
  have readies := timed.ready
  have before := timed.wheel.number
  have number := after.number
  have limit := held_few elts held _ _ t after
  have sameSlot : s.slotAt range = t.slotAt range := by
    rw [slotAt, slotAt, moved.index, moved.maxTimeout]
  have readySum : wrap32 (t.readyCnt + cnt) = t.readyCnt + cnt := wrap32_small _ (by rw [moved.ready]; omega)
  have timerSum : sub32 t.timerCnt cnt = t.timerCnt - cnt := sub32_le _ _ (by rw [moved.timer]; omega)
  rw [if_pos (show range < 2 ^ 32 - 1 by omega), ran]
  refine ⟨t.turnTo (max s.currTimeMsec now) (s.slotAt range) cnt, rfl, ⟨?_, ?_, ?_⟩, moved.maxTimeout, rfl, moved.front⟩
  · refine wheel_turned elts held range (max s.currTimeMsec now) t _ after (by rw [moved.maxTimeout]; exact small)
      (by rw [moved.time]; exact reached) (by rw [moved.maxTimeout, moved.time]; exact whole) rfl ?_ rfl rfl rfl rfl
    exact sameSlot
  · rw [turn_to_timer, timerSum, waiting_congr t (t.turnTo _ _ _) rfl rfl, moved.timer]
    omega
  · rw [turn_to_ready, readySum, moved.ready]
    show s.readyCnt + cnt = t.readyList.length
    omega

end ArrayTimer

end PaxosStore.Certain
