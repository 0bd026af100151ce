import PaxosStore.Certain.TimerCalls

set_option autoImplicit false

namespace PaxosStore.Certain

open PaxosStore.PaxosKv PaxosStore.Codec

namespace ArrayTimer

variable {α : Type} [DecidableEq α]

inductive Call (α : Type) where
  | add (elt : α) (timeoutMsec now : Nat)
  | remove (elt : α)
  | takeTimerElt (now : Nat)
deriving DecidableEq

inductive Answer (α : Type) where
  | done (success : Bool)
  | taken (elt : Option α)
deriving DecidableEq

def call (s : ArrayTimer α) : Call α → Option (Answer α × ArrayTimer α)
  | .add elt timeoutMsec now => (s.add elt timeoutMsec now).map fun r => (.done r.1, r.2)
  | .remove elt => (s.remove elt).map fun r => (.done r.1, r.2)
  | .takeTimerElt now => (s.takeTimerElt now).map fun r => (.taken r.1, r.2)

-- The clock is read by an Add of a new element and by a TakeTimerElt that finds the
-- ready list empty.
omit [DecidableEq α] in
def reading (s : ArrayTimer α) : Call α → Option Nat
  | .add elt _ now => if (s.timerEntry elt).linked then none else some now
  | .remove _ => none
  | .takeTimerElt now => if s.readyCnt = 0 then some now else none

-- What the callers were told: `time` is the largest reading so far, `held` the
-- elements added and neither removed nor returned since, with their deadlines.
structure Account (α : Type) where
  time : Nat
  held : List (α × Nat) := []
  added : List α := []
  removed : List α := []
  given : List (α × Nat) := []

namespace Account

def without (a : Account α) (elt : α) : List (α × Nat) := a.held.filter fun pair => pair.1 ≠ elt

def note (a : Account α) (read : Option Nat) (call : Call α) (answer : Answer α) : Account α :=
  let time := (read.map fun now => max a.time now).getD a.time
  match call, answer with
  | .add elt timeoutMsec _, .done true =>
      { a with time := time, held := (elt, time + timeoutMsec) :: a.held, added := elt :: a.added }
  | .remove elt, .done true => { a with time := time, held := a.without elt, removed := elt :: a.removed }
  | .takeTimerElt _, .taken (some elt) =>
      { a with time := time, held := a.without elt, given := (a.held.filter fun pair => pair.1 = elt) ++ a.given }
  | _, _ => { a with time := time }

end Account

def run : List (Call α) → ArrayTimer α × Account α → Option (ArrayTimer α × Account α)
  | [], state => some state
  | next :: later, state =>
      (state.1.call next).bind fun r => run later (r.2, state.2.note (state.1.reading next) next r.1)

def Call.Allowed (maxTimeoutMsec : Nat) (elts : Finset α) : Call α → Prop
  | .add elt timeoutMsec _ => timeoutMsec ≤ maxTimeoutMsec ∧ elt ∈ elts
  | _ => True

omit [DecidableEq α] in
def Call.takes : Call α → Bool
  | .takeTimerElt _ => true
  | _ => false

-- Every element that was added is held, or was removed or returned for it.
structure Balanced (elts : Finset α) (state : ArrayTimer α × Account α) : Prop where
  timed : Timed elts state.2.held 0 state.1
  clock : state.1.currTimeMsec = state.2.time
  past : ∀ pair ∈ state.2.given, pair.2 ≤ state.2.time ∧ ∀ other ∈ state.2.held, pair.2 ≤ other.2
  ordered : (state.2.given.map Prod.snd).Pairwise (· ≥ ·)
  used : ∀ elt, state.2.added.count elt =
    state.2.removed.count elt + (state.2.given.map Prod.fst).count elt + (state.2.held.map Prod.fst).count elt

-- What one call does, whatever it is.
structure Served (elts : Finset α) (s : ArrayTimer α) (a : Account α) (next : Call α) (answer : Answer α) (t : ArrayTimer α) : Prop where
  balanced : Balanced elts (t, a.note (s.reading next) next answer)
  same : t.maxTimeoutMsec = s.maxTimeoutMsec

theorem count_erased (held : List (α × Nat)) (elt other : α) (deadline : Nat) (once : (held.map Prod.fst).Nodup)
    (listed : (elt, deadline) ∈ held) :
    ((held.filter fun pair => pair.1 ≠ elt).map Prod.fst).count other + [elt].count other = (held.map Prod.fst).count other := by
  have fst : (held.filter fun pair => pair.1 ≠ elt).map Prod.fst = (held.map Prod.fst).filter (· ≠ elt) := by
    rw [List.filter_map]
    rfl
  by_cases same : other = elt
  · subst same
    have member : other ∈ held.map Prod.fst := List.mem_map.mpr ⟨_, listed, rfl⟩
    rw [fst, List.count_eq_one_of_mem once member, List.count_eq_zero_of_not_mem (by simp)]
    simp
  · rw [fst, List.count_filter (by simpa using same), List.count_singleton, if_neg (by simpa using Ne.symm same), Nat.add_zero]

theorem only_one (held : List (α × Nat)) (elt : α) (deadline : Nat) (once : (held.map Prod.fst).Nodup)
    (listed : (elt, deadline) ∈ held) : (held.filter fun pair => pair.1 = elt) = [(elt, deadline)] := by
  induction held with
  | nil => cases listed
  | cons pair rest ih =>
      obtain ⟨fresh, others⟩ := List.nodup_cons.mp once
      rcases List.mem_cons.mp listed with same | later
      · subst same
        have none : rest.filter (fun pair => pair.1 = elt) = [] := by
          refine List.filter_eq_nil_iff.mpr fun pair member => ?_
          simp only [decide_eq_true_eq]
          rintro rfl
          exact fresh (List.mem_map.mpr ⟨pair, member, rfl⟩)
        rw [List.filter_cons_of_pos (by simp), none]
      · have apart : pair.1 ≠ elt := fun same => fresh (List.mem_map.mpr ⟨_, later, same.symm⟩)
        rw [List.filter_cons_of_neg (by simpa using apart)]
        exact ih others later

section Calls

variable (elts : Finset α) (few : elts.card < 2 ^ 32) (s : ArrayTimer α) (a : Account α)

theorem reading_absent (elt : α) (timeoutMsec now : Nat) (balanced : Balanced elts (s, a)) (absent : ∀ deadline, (elt, deadline) ∉ a.held) :
    s.reading (.add elt timeoutMsec now) = some now := by
  rw [reading, balanced.timed.wheel.free elt absent]
  rfl

theorem past_without (elt : α) (balanced : Balanced elts (s, a)) (time : Nat) (later : a.time ≤ time) :
    ∀ pair ∈ a.given, pair.2 ≤ time ∧ ∀ other ∈ a.without elt, pair.2 ≤ other.2 := by
  intro pair member
  obtain ⟨early, before⟩ := balanced.past pair member
  have bound : pair.2 ≤ a.time := early
  exact ⟨by omega, fun other kept => before other (List.mem_filter.mp kept).1⟩

include few in
theorem add_served (elt : α) (timeoutMsec now : Nat) (balanced : Balanced elts (s, a)) (bound : timeoutMsec ≤ s.maxTimeoutMsec)
    (asked : elt ∈ elts) :
    ∃ answer t, s.call (.add elt timeoutMsec now) = some (answer, t) ∧ Served elts s a (.add elt timeoutMsec now) answer t ∧
      ∃ new, t.readyList = new ++ s.readyList := by
  by_cases listed : ∃ deadline, (elt, deadline) ∈ a.held
  · obtain ⟨deadline, known⟩ := listed
    have present := held_exists elts a.held 0 0 s elt deadline balanced.timed.wheel known
    have linked : (s.timerEntry elt).linked = true := by
      by_contra loose
      rw [exist, if_neg loose, asserting] at present
      split at present <;> cases present
    have noted : a.note (s.reading (.add elt timeoutMsec now)) (.add elt timeoutMsec now) (.done false) = a := by
      rw [reading, if_pos linked]
      rfl
    refine ⟨.done false, s, ?_, ⟨?_, rfl⟩, [], rfl⟩
    · rw [call, add, asserting, if_pos bound, present]
      rfl
    · rw [noted]
      exact balanced
  · have absent : ∀ deadline, (elt, deadline) ∉ a.held := fun deadline known => listed ⟨deadline, known⟩
    obtain ⟨t, moves, timed, maxTimeout, clock, new, front⟩ := move_timer_to_ready_list elts few a.held s now balanced.timed
    have free := (absent_free elts a.held 0 0 s elt balanced.timed.wheel absent).1
    have here : s.currTimeMsec = a.time := balanced.clock
    rw [here] at clock
    have after := insert_head_timed elts few a.held 1 t elt timeoutMsec timed (maxTimeout ▸ bound) asked absent
    have noted : a.note (s.reading (.add elt timeoutMsec now)) (.add elt timeoutMsec now) (.done true) =
        { a with time := max a.time now, held := (elt, max a.time now + timeoutMsec) :: a.held, added := elt :: a.added } := by
      rw [reading_absent elts s a elt timeoutMsec now balanced absent]
      rfl
    refine ⟨.done true, t.insertHead (t.slotAt timeoutMsec) elt, ?_, ⟨?_, maxTimeout⟩, new, front⟩
    · rw [call, add, asserting, if_pos bound, free, Option.bind_some, if_neg (by decide), moves]
      rfl
    · rw [noted]
      refine ⟨clock ▸ after, clock, fun pair member => ?_, balanced.ordered, fun other => ?_⟩
      · obtain ⟨early, before⟩ := balanced.past pair member
        have limit : pair.2 ≤ a.time := early
        refine ⟨Nat.le_trans limit (Nat.le_max_left ..), fun other known => ?_⟩
        rcases List.mem_cons.mp known with rfl | older
        · show pair.2 ≤ max a.time now + timeoutMsec
          omega
        · exact before other older
      · have used := balanced.used other
        simp only [List.map_cons, List.count_cons] at used ⊢
        omega

theorem remove_served (elt : α) (balanced : Balanced elts (s, a)) :
    ∃ answer t, s.call (.remove elt) = some (answer, t) ∧ Served elts s a (.remove elt) answer t ∧
      t.readyList = s.readyList.erase elt := by
  by_cases listed : ∃ deadline, (elt, deadline) ∈ a.held
  · obtain ⟨deadline, known⟩ := listed
    obtain ⟨-, timed, ready, maxTimeout, clock⟩ := take_out_timed elts a.held 0 s elt deadline balanced.timed known
    refine ⟨.done true, s.takeOut elt, ?_, ⟨⟨timed, clock.trans balanced.clock, past_without elts s a elt balanced a.time (Nat.le_refl _),
      balanced.ordered, fun other => ?_⟩, maxTimeout⟩, ready⟩
    · rw [call, remove_timed elts a.held 0 s elt deadline balanced.timed known]
      rfl
    · have used := balanced.used other
      have erased := count_erased a.held elt other deadline balanced.timed.wheel.heldOnce known
      show a.added.count other = (elt :: a.removed).count other + (a.given.map Prod.fst).count other +
        ((a.without elt).map Prod.fst).count other
      rw [Account.without]
      simp only [List.count_cons, List.count_nil] at used erased ⊢
      omega
  · have absent : ∀ deadline, (elt, deadline) ∉ a.held := fun deadline known => listed ⟨deadline, known⟩
    refine ⟨.done false, s, ?_, ⟨balanced, rfl⟩, ?_⟩
    · rw [call, remove_absent elts a.held 0 s elt balanced.timed absent]
      rfl
    · exact (List.erase_of_not_mem (absent_free elts a.held 0 0 s elt balanced.timed.wheel absent).2.1).symm

-- Once the clock has been read, if it has to be.
def Read (now : Nat) (t : ArrayTimer α) : Prop :=
  Timed elts a.held 0 t ∧ t.maxTimeoutMsec = s.maxTimeoutMsec ∧
    t.currTimeMsec = ((s.reading (.takeTimerElt now)).map fun now => max a.time now).getD a.time ∧
    (s.readyList = [] → Timed elts a.held 1 t) ∧ (s.readyList ≠ [] → t = s)

include few in
theorem take_reads (now : Nat) (balanced : Balanced elts (s, a)) :
    ∃ t, (if s.readyCnt = 0 then s.moveTimerToReadyList now else some s) = some t ∧ Read elts s a now t := by
  have count := balanced.timed.ready
  dsimp only at count
  have here : s.currTimeMsec = a.time := balanced.clock
  by_cases empty : s.readyCnt = 0
  · have none : s.readyList = [] := List.eq_nil_of_length_eq_zero (by omega)
    obtain ⟨t, moves, timed, maxTimeout, clock, -⟩ := move_timer_to_ready_list elts few a.held s now balanced.timed
    rw [if_pos empty, moves]
    refine ⟨t, rfl, ⟨{ timed.wheel with drained := fun ahead less => by omega }, timed.timer, timed.ready⟩, maxTimeout, ?_,
      fun _ => timed, fun some => absurd none some⟩
    rw [clock, here, reading, if_pos empty]
    rfl
  · have some : s.readyList ≠ [] := fun none => empty (by rw [count, none]; rfl)
    rw [if_neg empty]
    refine ⟨s, rfl, balanced.timed, rfl, ?_, fun none => absurd none some, fun _ => rfl⟩
    rw [here, reading, if_neg empty]
    rfl

-- What TakeTimerElt answers, `time` being the timer's time after it.
structure Given (answer : Option α) (time : Nat) (t : ArrayTimer α) : Prop where
  due : ∀ elt, answer = some elt → ∃ deadline, (elt, deadline) ∈ a.held ∧ deadline ≤ time ∧ ∀ pair ∈ a.held, deadline ≤ pair.2
  early : answer = none → ∀ pair ∈ a.held, time < pair.2
  ready : s.readyList = [] → ∀ pair ∈ a.held, pair.2 ≤ time → answer = some pair.1 ∨ pair.1 ∈ t.readyList
  inTurn : s.readyList ≠ [] → answer = s.readyList.getLast? ∧ t.readyList = s.readyList.dropLast

omit [DecidableEq α] in
theorem drained_late (time : Nat) (t : ArrayTimer α) (timed : Timed elts a.held 1 t) (clock : t.currTimeMsec = time) (pair : α × Nat)
    (known : pair ∈ a.held) (absent : pair.1 ∉ t.readyList) : time < pair.2 := by
  have wheel := timed.wheel
  obtain ⟨i, there⟩ := (wheel.present pair.1 pair.2 known).resolve_left absent
  obtain ⟨bound, -⟩ := slot_index elts a.held 1 0 t wheel i pair.1 there
  obtain ⟨ahead, close, rfl⟩ := slot_at_every t i wheel.narrow wheel.inside bound
  have same := held_deadline a.held wheel.heldOnce pair.1 _ _ known (wheel.slot ahead close pair.1 there).2
  have positive : ahead ≠ 0 := by
    rintro rfl
    rw [wheel.drained 0 (by omega) close] at there
    cases there
  omega

include few in
theorem take_served (now : Nat) (balanced : Balanced elts (s, a)) :
    ∃ answer t, s.takeTimerElt now = some (answer, t) ∧ Served elts s a (.takeTimerElt now) (.taken answer) t ∧
      Given s a answer (a.note (s.reading (.takeTimerElt now)) (.takeTimerElt now) (.taken answer)).time t := by
  obtain ⟨t, reads, timed, maxTimeout, clock, drained, unread⟩ := take_reads elts few s a now balanced
  have forward : a.time ≤ t.currTimeMsec := by
    rw [clock]
    cases s.reading (.takeTimerElt now) with
    | none => exact Nat.le_refl _
    | some now => exact Nat.le_max_left ..
  rw [takeTimerElt, reads, Option.bind_some]
  cases last : t.readyList.getLast? with
  | none =>
      have none : t.readyList = [] := List.getLast?_eq_none_iff.mp last
      have empty : t.readyCnt = 0 := by rw [timed.ready, none]; rfl
      have before : s.readyList = [] := by
        by_contra some
        rw [unread some] at none
        exact some none
      refine ⟨.none, t, by rw [if_pos empty], ⟨⟨timed, clock, ?_, balanced.ordered, balanced.used⟩, maxTimeout⟩, ?_⟩
      · intro pair member
        obtain ⟨early, others⟩ := balanced.past pair member
        refine ⟨?_, others⟩
        show pair.2 ≤ ((s.reading (.takeTimerElt now)).map fun now => max a.time now).getD a.time
        rw [← clock]
        exact Nat.le_trans early forward
      · have late : ∀ pair ∈ a.held, t.currTimeMsec < pair.2 := fun pair known =>
          drained_late elts a _ t (drained before) rfl pair known (by rw [none]; exact List.not_mem_nil)
        rw [show (a.note (s.reading (.takeTimerElt now)) (.takeTimerElt now) (.taken .none)).time = t.currTimeMsec from clock.symm]
        exact ⟨fun elt same => (by cases same), fun _ => late, fun _ pair known early => absurd (late pair known) (Nat.not_lt.mpr early),
          fun some => absurd before some⟩
  | some elt =>
      have member := List.mem_of_getLast? last
      have filled : t.readyCnt ≠ 0 := by
        rw [timed.ready]
        exact Nat.pos_iff_ne_zero.mp (List.length_pos_of_mem member)
      obtain ⟨deadline, known, early, least⟩ := last_ready_first elts a.held 0 t elt timed last
      obtain ⟨-, after, ready, sameMax, sameClock⟩ := take_out_timed elts a.held 0 t elt deadline timed known
      have removes := remove_timed elts a.held 0 t elt deadline timed known
      have noted : a.note (s.reading (.takeTimerElt now)) (.takeTimerElt now) (.taken (some elt)) =
          { a with time := t.currTimeMsec, held := a.without elt, given := (elt, deadline) :: a.given } := by
        rw [Account.note, only_one a.held elt deadline timed.wheel.heldOnce known, clock]
        rfl
      refine ⟨some elt, t.takeOut elt, ?_, ⟨?_, sameMax.trans maxTimeout⟩, ?_⟩
      · rw [if_neg filled, Option.bind_some, removes, Option.bind_some, asserting, if_pos rfl]
      · rw [noted]
        refine ⟨after, sameClock, ?_, ?_, fun other => ?_⟩
        · intro pair given
          rcases List.mem_cons.mp given with rfl | older
          · exact ⟨early, fun other kept => least other (List.mem_filter.mp kept).1⟩
          · exact past_without elts s a elt balanced t.currTimeMsec forward pair older
        · refine List.pairwise_cons.mpr ⟨fun older listed => ?_, balanced.ordered⟩
          obtain ⟨pair, given, rfl⟩ := List.mem_map.mp listed
          exact (balanced.past pair given).2 (elt, deadline) known
        · have used := balanced.used other
          have erased := count_erased a.held elt other deadline balanced.timed.wheel.heldOnce known
          show a.added.count other = a.removed.count other + (((elt, deadline) :: a.given).map Prod.fst).count other +
            ((a.without elt).map Prod.fst).count other
          rw [Account.without]
          simp only [List.map_cons, List.count_cons, List.count_nil] at used erased ⊢
          omega
      · rw [noted]
        have list : (t.takeOut elt).readyList = t.readyList.dropLast :=
          ready.trans (erase_last t.readyList elt last timed.wheel.readyOnce)
        refine ⟨?_, fun none => (by cases none), fun empty pair listed late => ?_, fun some => ?_⟩
        · rintro other ⟨⟩
          exact ⟨deadline, known, early, least⟩
        · by_cases there : pair.1 ∈ t.readyList
          · obtain ⟨-, -, whole⟩ := take_last t.readyList elt last timed.wheel.readyOnce
            rw [whole] at there
            rcases List.mem_append.mp there with front | final
            · exact .inr (by rw [list]; exact front)
            · exact .inl (by rw [show pair.1 = elt by simpa using final])
          · exact absurd (drained_late elts a _ t (drained empty) rfl pair listed there) (Nat.not_lt.mpr late)
        · rw [← unread some]
          exact ⟨last.symm, list⟩

include few in
theorem call_served (next : Call α) (balanced : Balanced elts (s, a)) (allowed : next.Allowed s.maxTimeoutMsec elts) :
    ∃ answer t, s.call next = some (answer, t) ∧ Served elts s a next answer t := by
  cases next with
  | add elt timeoutMsec now =>
      obtain ⟨answer, t, done, served, -⟩ := add_served elts few s a elt timeoutMsec now balanced allowed.1 allowed.2
      exact ⟨answer, t, done, served⟩
  | remove elt =>
      obtain ⟨answer, t, done, served, -⟩ := remove_served elts s a elt balanced
      exact ⟨answer, t, done, served⟩
  | takeTimerElt now =>
      obtain ⟨answer, t, done, served, -⟩ := take_served elts few s a now balanced
      exact ⟨.taken answer, t, by rw [call, done]; rfl, served⟩

end Calls

theorem note_given (a : Account α) (read : Option Nat) (next : Call α) (answer : Answer α) :
    ∃ first, (a.note read next answer).given = first ++ a.given := by
  cases next <;> cases answer <;> rename_i result <;> cases result <;> first | exact ⟨[], rfl⟩ | exact ⟨_, rfl⟩

section Runs

variable (elts : Finset α) (few : elts.card < 2 ^ 32)

include few

theorem run_balanced (calls : List (Call α)) (state : ArrayTimer α × Account α) (balanced : Balanced elts state)
    (allowed : ∀ next ∈ calls, next.Allowed state.1.maxTimeoutMsec elts) :
    ∃ after, run calls state = some after ∧ Balanced elts after ∧ ∃ new, after.2.given = new ++ state.2.given := by
  induction calls generalizing state with
  | nil => exact ⟨state, rfl, balanced, [], rfl⟩
  | cons next later ih =>
      obtain ⟨answer, t, done, served⟩ := call_served elts few state.1 state.2 next balanced (allowed next List.mem_cons_self)
      obtain ⟨after, rest, keeps, new, given⟩ := ih _ served.balanced fun call member => by
        rw [served.same]
        exact allowed call (List.mem_cons_of_mem _ member)
      obtain ⟨first, front⟩ := note_given state.2 (state.1.reading next) next answer
      refine ⟨after, ?_, keeps, new ++ first, ?_⟩
      · rw [run, done]
        exact rest
      · rw [given, front, List.append_assoc]

-- `ahead` are the ready elements that come out before `elt`.
theorem line_step (s : ArrayTimer α) (a : Account α) (next : Call α) (elt : α) (behind ahead : List α) (balanced : Balanced elts (s, a))
    (allowed : next.Allowed s.maxTimeoutMsec elts) (line : s.readyList = behind ++ elt :: ahead) (stays : next ≠ .remove elt) :
    ∃ answer t, s.call next = some (answer, t) ∧ Served elts s a next answer t ∧
      ((∃ first, (a.note (s.reading next) next answer).given = first ++ a.given ∧ elt ∈ first.map Prod.fst) ∨ ∃ behind' ahead', t.readyList = behind' ++ elt :: ahead' ∧
        ahead'.length + (if next.takes then 1 else 0) ≤ ahead.length) := by
  have once : s.readyList.Nodup := balanced.timed.wheel.readyOnce
  rw [line] at once
  cases next with
  | add other timeoutMsec now =>
      obtain ⟨answer, t, done, served, new, front⟩ := add_served elts few s a other timeoutMsec now balanced allowed.1 allowed.2
      exact ⟨answer, t, done, served, .inr ⟨new ++ behind, ahead, by rw [front, line, List.append_assoc], Nat.le_refl _⟩⟩
  | remove other =>
      have apart : elt ≠ other := fun same => stays (by rw [same])
      obtain ⟨answer, t, done, served, erased⟩ := remove_served elts s a other balanced
      refine ⟨answer, t, done, served, .inr ?_⟩
      rw [line] at erased
      by_cases there : other ∈ behind
      · exact ⟨behind.erase other, ahead, by rw [erased, List.erase_append_left _ there], Nat.le_refl _⟩
      · refine ⟨behind, ahead.erase other, ?_, List.erase_sublist.length_le⟩
        rw [erased, List.erase_append_right _ there, List.erase_cons_tail (by simpa using apart)]
  | takeTimerElt now =>
      obtain ⟨answer, t, done, served, given⟩ := take_served elts few s a now balanced
      have filled : s.readyList ≠ [] := by rw [line]; simp
      obtain ⟨last, rest⟩ := given.inTurn filled
      rw [line] at last rest
      refine ⟨.taken answer, t, by rw [call, done]; rfl, served, ?_⟩
      cases ahead with
      | nil =>
          have itself : answer = some elt := by
            rw [last, List.getLast?_append, List.getLast?_singleton]
            rfl
          obtain ⟨deadline, known, -⟩ := given.due elt itself
          subst itself
          refine .inl ⟨_, rfl, List.mem_map.mpr ⟨(elt, deadline), List.mem_filter.mpr ⟨known, ?_⟩, rfl⟩⟩
          simp
      | cons first others =>
          refine .inr ⟨behind, (first :: others).dropLast, ?_, ?_⟩
          · rw [rest, List.dropLast_append_of_ne_nil (by simp), List.dropLast_cons_of_ne_nil (by simp)]
          · rw [List.length_dropLast]
            show (first :: others).length - 1 + 1 ≤ (first :: others).length
            simp

theorem line_run (later : List (Call α)) (s : ArrayTimer α) (a : Account α) (elt : α) (behind ahead : List α)
    (balanced : Balanced elts (s, a)) (allowed : ∀ next ∈ later, next.Allowed s.maxTimeoutMsec elts)
    (line : s.readyList = behind ++ elt :: ahead) (stays : .remove elt ∉ later)
    (enough : ahead.length < (later.filter Call.takes).length) :
    ∃ t b, run later (s, a) = some (t, b) ∧ ∃ new, b.given = new ++ a.given ∧ elt ∈ new.map Prod.fst := by
  induction later generalizing s a behind ahead with
  | nil => cases enough
  | cons next later ih =>
      have others : ∀ call ∈ later, call.Allowed s.maxTimeoutMsec elts := fun call member => allowed call (List.mem_cons_of_mem _ member)
      obtain ⟨answer, t, done, served, turn⟩ := line_step elts few s a next elt behind ahead balanced
        (allowed next List.mem_cons_self) line fun same => stays (by rw [same]; exact List.mem_cons_self)
      rw [run, done]
      rcases turn with ⟨first, noted, itself⟩ | ⟨behind', ahead', front, closer⟩
      · obtain ⟨⟨u, b⟩, rest, -, new, given⟩ := run_balanced elts few later _ served.balanced (by rw [served.same]; exact others)
        refine ⟨u, b, rest, new ++ first, ?_, ?_⟩
        · rw [given, noted, List.append_assoc]
        · rw [List.map_append]
          exact List.mem_append_right _ itself
      · obtain ⟨u, b, rest, new, given, member⟩ := ih t _ behind' ahead' served.balanced (by rw [served.same]; exact others) front
          (fun member => stays (List.mem_cons_of_mem _ member)) (by
            cases takes : next.takes with
            | true =>
                rw [List.filter_cons_of_pos takes, List.length_cons] at enough
                rw [takes, if_pos rfl] at closer
                omega
            | false =>
                rw [List.filter_cons_of_neg (by simp [takes])] at enough
                rw [takes, if_neg (by decide)] at closer
                omega)
        obtain ⟨first, noted⟩ := note_given a (s.reading next) next answer
        refine ⟨u, b, rest, new ++ first, ?_, ?_⟩
        · rw [given, noted, List.append_assoc]
        · rw [List.map_append]
          exact List.mem_append_left _ member

end Runs

theorem create_balanced (elts : Finset α) (maxTimeoutMsec now : Nat) (narrow : maxTimeoutMsec < 2 ^ 31) :
    Balanced elts (create maxTimeoutMsec now, { time := now }) := by
  have none : (create maxTimeoutMsec now : ArrayTimer α).waiting = 0 := Finset.sum_eq_zero fun i _ => rfl
  refine ⟨⟨⟨narrow, Nat.zero_le _, fun _ _ => rfl, ?_, fun _ _ _ => rfl, fun _ => List.nodup_nil, ?_, List.nodup_nil, .nil, ?_,
    fun _ _ => rfl, List.nodup_nil, ?_, by rw [none]; rfl⟩, none.symm, rfl⟩, rfl, ?_, .nil, fun _ => rfl⟩
  · intro _ _ elt there
    cases there
  · intro elt there
    cases there
  · intro elt deadline known
    cases known
  · intro elt deadline known
    cases known
  · intro pair given
    cases given

-- A state of the timer, and what its callers were told, between two calls.
structure OnTime (elts : Finset α) (s : ArrayTimer α) (a : Account α) : Prop where
  size : s.size = a.held.length ∧ (a.held.map Prod.fst).Nodup
  once : ∀ elt, a.added.count elt = a.removed.count elt + (a.given.map Prod.fst).count elt + (a.held.map Prod.fst).count elt
  ordered : (a.given.map Prod.snd).Pairwise (· ≥ ·)
  served : ∀ now, ∃ answer t, s.takeTimerElt now = some (answer, t) ∧
    Given s a answer (a.note (s.reading (.takeTimerElt now)) (.takeTimerElt now) (.taken answer)).time t
  inLine : ∀ elt behind ahead later, s.readyList = behind ++ elt :: ahead → (∀ next ∈ later, next.Allowed s.maxTimeoutMsec elts) →
    .remove elt ∉ later → ahead.length < (later.filter Call.takes).length →
    ∃ t b, run later (s, a) = some (t, b) ∧ ∃ new, b.given = new ++ a.given ∧ elt ∈ new.map Prod.fst

theorem timer_delivers (elts : Finset α) (few : elts.card < 2 ^ 32) (maxTimeoutMsec start : Nat) (narrow : maxTimeoutMsec < 2 ^ 31)
    (calls : List (Call α)) (allowed : ∀ next ∈ calls, next.Allowed maxTimeoutMsec elts) :
    ∃ s a, run calls (create maxTimeoutMsec start, { time := start }) = some (s, a) ∧ OnTime elts s a := by
  obtain ⟨⟨s, a⟩, ran, balanced, -⟩ := run_balanced elts few calls _ (create_balanced elts maxTimeoutMsec start narrow) allowed
  have wheel := balanced.timed.wheel
  have number := wheel.number
  have limit := held_few elts a.held 0 0 s wheel
  have timer := balanced.timed.timer
  have ready := balanced.timed.ready
  refine ⟨s, a, ran, ⟨⟨?_, wheel.heldOnce⟩, balanced.used, balanced.ordered, fun now => ?_, ?_⟩⟩
  · dsimp only at timer ready number
    rw [size, wrap32_small _ (by omega)]
    omega
  · obtain ⟨answer, t, done, -, given⟩ := take_served elts few s a now balanced
    exact ⟨answer, t, done, given⟩
  · intro elt behind ahead later line allowedLater stays enough
    exact line_run elts few later s a elt behind ahead balanced allowedLater line stays enough

-- Elements 1 and 3 become due together while the clock jumps past the whole wheel.
def jumpingCalls : List (Call Nat) :=
  [.add 1 2 10, .add 2 0 9, .takeTimerElt 10, .takeTimerElt 11, .add 3 1 11, .add 1 0 11, .remove 2, .takeTimerElt 20, .takeTimerElt 5]

theorem jumping_calls_delivered : ∃ (s : ArrayTimer Nat) (a : Account Nat),
    run jumpingCalls (create 3 10, { time := 10 }) = some (s, a) ∧ a.given = [(3, 12), (1, 12), (2, 10)] ∧ OnTime {1, 2, 3} s a := by
  have allowed : ∀ next ∈ jumpingCalls, next.Allowed 3 {1, 2, 3} := by
    simp [jumpingCalls, Call.Allowed]
  obtain ⟨s, a, ran, onTime⟩ := timer_delivers {1, 2, 3} (by decide) 3 10 (by decide) jumpingCalls allowed
  have given : (run jumpingCalls (create 3 10, { time := 10 })).map (fun state => state.2.given) = some [(3, 12), (1, 12), (2, 10)] := by
    decide +kernel
  rw [ran] at given
  exact ⟨s, a, ran, Option.some.inj given, onTime⟩

end ArrayTimer

end PaxosStore.Certain
