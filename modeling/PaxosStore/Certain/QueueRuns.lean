import PaxosStore.Certain.QueueSteps

set_option autoImplicit false

namespace PaxosStore.Certain.LockFreeQueue

variable {T : Type}

-- Nothing is lost, handed out twice or out of order, and no slot is written while it is in use.
structure Sound (q : LockFreeQueue T) : Prop where
  ordered : q.popped <+: q.reserved
  held : q.reserved.length ≤ q.popped.length + q.capacity
  kept : ∀ i item, q.popped.length ≤ i → q.reserved[i]? = some item →
    q.items (i % q.capacity) = some item ∨ ∃ k, q.pushes k = .swap item (u64 i)
  free : ∀ k item h, q.pushes k = .swap item h → q.items (h % q.capacity) = none
  left : ∀ k given left code, q.pushes k = .returned given left code → left = if code = .ok then none else given
  pushed : ∀ k given left, q.pushes k = .returned given left .ok → ∃ item, given = some item ∧ item ∈ q.reserved
  handed : ∀ item, q.pop = .returned item .ok → ∃ taken, item = some taken ∧ q.popped.getLast? = some taken
  kept_back : ∀ item code, q.pop = .returned item code → code ≠ .ok → item = none

theorem inv_sound (q : LockFreeQueue T) (inv : Inv q) : Sound q where
  ordered := inv.ordered
  held := by
    have room := inv.room
    have released := released_le q
    omega
  kept := inv.placed
  free := by
    intro k item h pending
    obtain ⟨i, low, number, there, free⟩ := inv.pending k item h pending
    rw [number, slot_plain q inv i (index_below _ _ _ there)]
    exact free
  left := inv.left
  pushed := inv.pushed
  handed := by
    intro item point
    have popper := inv.popper
    rw [point] at popper
    exact popper
  kept_back := by
    intro item code point failed
    have popper := inv.popper
    rw [point, Popper, if_neg failed] at popper
    exact popper

theorem nothing_lost (capacity : Nat) (bound : capacity < 2 ^ 64) (q : LockFreeQueue T) (reached : Reached Fits capacity q) : Sound q :=
  inv_sound q (reached_inv capacity bound q reached)

def run (q : LockFreeQueue T) : List (Action T) → Option (LockFreeQueue T)
  | [] => some q
  | action :: rest => (q.act action).bind (fun next => next.run rest)

-- One step reserves at most one slot.
theorem act_reserved (q r : LockFreeQueue T) (action : Action T) (done : q.act action = some r) :
    r.reserved.length ≤ q.reserved.length + 1 := by
  cases action with
  | push k =>
      rw [act, pushStep] at done
      split at done
      · cases done
        exact Nat.le_succ _
      · split at done <;> cases done <;> exact Nat.le_succ _
      · split at done
        · cases done
          exact Nat.le_of_eq (List.length_append)
        · cases done
          exact Nat.le_succ _
      · cases done
        exact Nat.le_succ _
      · cases done
  | callPush k item retryTimes =>
      rw [act, callPush] at done
      split at done <;> cases done <;> exact Nat.le_succ _
  | callPop =>
      rw [act, callPop] at done
      split at done <;> cases done <;> exact Nat.le_succ _
  | pop =>
      rw [act, popStep] at done
      split at done <;> cases done <;> exact Nat.le_succ _

-- Runs of fewer than 2^64 steps meet the condition.
theorem short_run (capacity : Nat) (q r : LockFreeQueue T) (actions : List (Action T)) (reached : Reached Fits capacity q)
    (short : q.reserved.length + actions.length < 2 ^ 64) (done : q.run actions = some r) : Reached Fits capacity r := by
  induction actions generalizing q with
  | nil =>
      cases done
      exact reached
  | cons action rest ih =>
      obtain ⟨next, first, done⟩ := Option.bind_eq_some_iff.mp done
      rw [List.length_cons] at short
      have grown := act_reserved q next action first
      refine ih next (.step q next action reached ?_ first) (by omega) done
      cases action with
      | push k =>
          intro item retryTimes i t h seen _ _
          left
          omega
      | _ => trivial

-- Two producers cross in a queue of one slot: the second finds it full, and once the first
-- item is popped it succeeds.
def crossed : List (Action Nat) :=
  [.callPush 0 (some 7) 5, .callPush 1 (some 8) 5, .push 0, .push 1, .push 0, .push 1, .push 0, .push 1, .push 1, .push 1,
    .push 0, .callPop, .pop, .pop, .pop, .pop, .pop, .callPush 1 (some 8) 5, .push 1, .push 1, .push 1, .push 1]

theorem nothing_lost_crossed : ∃ q : LockFreeQueue Nat, (create 1).run crossed = some q ∧ q.popped = [7] ∧ q.reserved = [7, 8] ∧ Sound q :=
  ⟨_, rfl, rfl, rfl, nothing_lost 1 (by decide) _ (short_run 1 (create 1) _ crossed .start (by decide) rfl)⟩

theorem set_again (q : LockFreeQueue T) (k : Nat) (old new : PushPoint T) : (q.setPush k old).setPush k new = q.setPush k new := by
  rw [setPush, setPush, setPush, Function.update_idem]

def PushAtRest : PushPoint T → Prop
  | .idle => True
  | .returned _ _ _ => True
  | _ => False

def PopAtRest : PopPoint T → Prop
  | .idle => True
  | .returned _ _ => True
  | _ => False

theorem call_push_ready (q : LockFreeQueue T) (k : Nat) (item : Option T) (retryTimes : Int) (ready : PushAtRest (q.pushes k)) :
    q.callPush k item retryTimes = some (q.setPush k (firstTurn item retryTimes)) := by
  rw [callPush]
  cases point : q.pushes k with
  | idle => rfl
  | returned given left code => rfl
  | _ =>
      rw [point] at ready
      exact ready.elim

theorem call_pop_ready (q : LockFreeQueue T) (ready : PopAtRest q.pop) : q.callPop = some { q with pop := .loadTail } := by
  rw [callPop]
  cases point : q.pop with
  | idle => rfl
  | returned item code => rfl
  | _ =>
      rw [point] at ready
      exact ready.elim

-- A push that nobody disturbs reserves a slot in four steps.
theorem reserves (capacity : Nat) (q : LockFreeQueue T) (k : Nat) (item : T) (reached : Reached (fun _ _ => True) capacity q)
    (ready : PushAtRest (q.pushes k)) (room : sub64 q.head q.tail < q.capacity) :
    Reached (fun _ _ => True) capacity
      { q.setPush k (.swap item q.head) with head := u64 (q.head + 1), reserved := q.reserved ++ [item] } := by
  have called := Reached.step q _ (.callPush k (some item) 5) reached trivial (call_push_ready q k _ 5 ready)
  have first : firstTurn (some item) 5 = .loadTail item 5 0 := rfl
  rw [first] at called
  have loaded : Reached (fun _ _ => True) capacity (q.setPush k (.loadHead item 5 0 q.tail q.reserved.length)) := by
    refine .step _ _ (.push k) called trivial ?_
    rw [act, pushStep, push_here]
    exact congrArg some (set_again q k _ _)
  have read : Reached (fun _ _ => True) capacity (q.setPush k (.exchange item 5 0 q.tail q.head q.reserved.length)) := by
    refine .step _ _ (.push k) loaded trivial ?_
    rw [act, pushStep, push_here]
    refine (if_neg (Nat.not_le.mpr room)).trans ?_
    exact congrArg some (set_again q k _ _)
  refine .step _ _ (.push k) read trivial ?_
  rw [act, pushStep, push_here]
  refine (if_pos rfl).trans ?_
  rw [set_again]
  rfl

theorem publishes (capacity : Nat) (q : LockFreeQueue T) (k : Nat) (item : T) (h : Nat) (reached : Reached (fun _ _ => True) capacity q)
    (point : q.pushes k = .swap item h) :
    Reached (fun _ _ => True) capacity
      { q.setPush k (.returned (some item) (q.items (h % q.capacity)) .ok) with
        items := Function.update q.items (h % q.capacity) (some item) } := by
  refine .step _ _ (.push k) reached trivial ?_
  rw [act, pushStep, point]

theorem consumes (capacity : Nat) (q : LockFreeQueue T) (item : T) (reached : Reached (fun _ _ => True) capacity q)
    (ready : PopAtRest q.pop) (more : q.head ≠ q.tail) (full : q.items (q.tail % q.capacity) = some item) :
    Reached (fun _ _ => True) capacity
      { q with
        items := Function.update q.items (q.tail % q.capacity) none
        pop := .returned (some item) .ok
        popped := q.popped ++ [item]
        tail := u64 (q.tail + 1) } := by
  have called := Reached.step q _ .callPop reached trivial (call_pop_ready q ready)
  have loaded : Reached (fun _ _ => True) capacity { q with pop := .loadHead q.tail } := .step _ _ .pop called trivial rfl
  have read : Reached (fun _ _ => True) capacity { q with pop := .look q.tail } := by
    refine .step _ _ .pop loaded trivial ?_
    rw [act, popStep]
    dsimp only
    rw [if_neg more]
  have looked : Reached (fun _ _ => True) capacity { q with pop := .take q.tail } := by
    refine .step _ _ .pop read trivial ?_
    rw [act, popStep]
    dsimp only
    rw [if_neg (by rw [full]; nofun)]
  have taken : Reached (fun _ _ => True) capacity
      { q with
        items := Function.update q.items (q.tail % q.capacity) none
        pop := .addTail (some item)
        popped := q.popped ++ [item] } := by
    refine .step _ _ .pop looked trivial ?_
    rw [act, popStep]
    dsimp only
    rw [full]
    rfl
  exact .step _ _ .pop taken trivial rfl

-- Between two calls: producers 0 and 1 and the consumer are at rest and every slot is empty.
structure Resting (n : Nat) (q : LockFreeQueue Nat) : Prop where
  reached : Reached (fun _ _ => True) 3 q
  capacity : q.capacity = 3
  head : q.head = u64 n
  tail : q.tail = u64 n
  items : q.items = fun _ => none
  first : PushAtRest (q.pushes 0)
  second : PushAtRest (q.pushes 1)
  pop : PopAtRest q.pop

theorem resting_room (n : Nat) (q : LockFreeQueue Nat) (rest : Resting n q) : sub64 q.head q.tail < q.capacity := by
  rw [rest.head, rest.tail, rest.capacity, sub64, if_neg (Nat.lt_irrefl _), Nat.sub_self]
  decide

theorem rests_again (n : Nat) (q : LockFreeQueue Nat) (rest : Resting n q) : ∃ r, Resting (n + 1) r := by
  have slots : Function.update (Function.update q.items (u64 n % q.capacity) (some 7)) (u64 n % q.capacity) none = fun _ => none := by
    rw [Function.update_idem, rest.items]
    exact Function.update_eq_self _ _
  have differ : u64 (u64 n + 1) ≠ u64 n := by
    rw [u64_succ, u64, u64]
    omega
  have reserved := reserves 3 q 0 7 rest.reached rest.first (resting_room n q rest)
  have published := publishes 3 _ 0 7 q.head reserved (push_here q 0 _)
  have consumed := consumes 3 _ 7 published rest.pop (by dsimp only [setPush]; rw [rest.head, rest.tail]; exact differ)
    (by dsimp only [setPush]; rw [rest.head, rest.tail, Function.update_self])
  refine ⟨_, consumed, rest.capacity, ?_, ?_, ?_, ?_, ?_, trivial⟩
  · dsimp only [setPush]
    rw [rest.head, u64_succ]
  · dsimp only [setPush]
    rw [rest.tail, u64_succ]
  · dsimp only [setPush]
    rw [rest.head, rest.tail]
    exact slots
  · dsimp only [setPush]
    rw [Function.update_self]
    trivial
  · dsimp only [setPush]
    rw [Function.update_of_ne (by decide), Function.update_of_ne (by decide)]
    exact rest.second

theorem rests (n : Nat) : ∃ q, Resting n q := by
  induction n with
  | zero => exact ⟨create 3, .start, rfl, rfl, rfl, rfl, trivial, trivial, trivial⟩
  | succ n ih =>
      obtain ⟨q, rest⟩ := ih
      exact rests_again n q rest

-- After 2^64 - 1 pushes and pops, head_ wraps and the next two pushes share slot 0.
theorem slot_shared : ∃ q : LockFreeQueue Nat, Reached (fun _ _ => True) 3 q ∧ q.pushes 1 = .swap 8 0 ∧ q.items 0 = some 7 ∧ ¬ Sound q := by
  obtain ⟨q, rest⟩ := rests (2 ^ 64 - 1)
  have head : q.head = 2 ^ 64 - 1 := rest.head.trans (by decide)
  have tail : q.tail = 2 ^ 64 - 1 := rest.tail.trans (by decide)
  have reserved := reserves 3 q 0 7 rest.reached rest.first (resting_room _ q rest)
  have published := publishes 3 _ 0 7 q.head reserved (push_here q 0 _)
  have wrapped : u64 (q.head + 1) = 0 := by
    rw [head]
    decide
  have slot : q.head % q.capacity = 0 := by
    rw [head, rest.capacity, show (2 ^ 64 - 1) % 3 = 0 from by decide]
  have ready : PushAtRest ((setPush (setPush q 0 (.swap 7 q.head)) 0 (.returned (some 7) (q.items (q.head % q.capacity)) .ok)).pushes 1) := by
    rw [push_there _ _ _ _ (by decide), push_there _ _ _ _ (by decide)]
    exact rest.second
  have overtaken := reserves 3 _ 1 8 published ready (by
    dsimp only [setPush]
    rw [wrapped, tail, rest.capacity]
    decide)
  refine ⟨_, overtaken, ?_, ?_, ?_⟩
  · dsimp only [setPush]
    rw [Function.update_self]
    exact congrArg (PushPoint.swap 8) wrapped
  · dsimp only [setPush]
    rw [slot, Function.update_self]
  · intro sound
    have free := sound.free 1 8 (u64 (q.head + 1)) (by
      dsimp only [setPush]
      rw [Function.update_self])
    dsimp only [setPush] at free
    rw [wrapped, slot, Nat.zero_mod, Function.update_self] at free
    cases free

end PaxosStore.Certain.LockFreeQueue
