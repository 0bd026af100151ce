import PaxosStore.Certain.QueueSlots

set_option autoImplicit false

namespace PaxosStore.Certain.LockFreeQueue

variable {T : Type}

theorem reading_later (q r : LockFreeQueue T) (point : PushPoint T) (reading : Reading q point) (capacity : r.capacity = q.capacity)
    (released : q.released ≤ r.released) (reserved : q.reserved.length ≤ r.reserved.length) : Reading r point := by
  cases point with
  | loadHead item retryTimes i t seen =>
      obtain ⟨low, least, same, near, there⟩ := reading
      exact ⟨low, by omega, same, by omega, by omega⟩
  | exchange item retryTimes i t h seen =>
      obtain ⟨low, high, least, tail, near, order, most, head, size⟩ := reading
      exact ⟨low, high, by omega, tail, by omega, order, by omega, head, by omega⟩
  | _ => trivial

theorem push_here (q : LockFreeQueue T) (k : Nat) (point : PushPoint T) : (q.setPush k point).pushes k = point :=
  Function.update_self _ _ _

theorem push_there (q : LockFreeQueue T) (k other : Nat) (point : PushPoint T) (differ : other ≠ k) :
    (q.setPush k point).pushes other = q.pushes other :=
  Function.update_of_ne differ _ _

-- A step that neither reserves nor fills a slot.
theorem inv_set (q : LockFreeQueue T) (inv : Inv q) (k : Nat) (point : PushPoint T)
    (before : ∀ item h, q.pushes k ≠ .swap item h) (after : ∀ item h, point ≠ .swap item h) (reading : Reading q point)
    (left : ∀ given left code, point = .returned given left code → left = if code = .ok then none else given)
    (failed : ∀ given left, point ≠ .returned given left .ok) : Inv (q.setPush k point) := by
  have others : ∀ other item h, (q.setPush k point).pushes other = .swap item h ↔ q.pushes other = .swap item h := by
    intro other item h
    by_cases same : other = k
    · subst same
      rw [push_here]
      exact ⟨fun now => absurd now (after item h), fun was => absurd was (before item h)⟩
    · rw [push_there _ _ _ _ same]
  exact {
    bound := inv.bound
    ordered := inv.ordered
    head := inv.head
    tail := inv.tail
    room := inv.room
    plain := inv.plain
    popper := inv.popper
    reading := by
      intro other
      by_cases same : other = k
      · subst same
        rw [push_here]
        exact reading
      · rw [push_there _ _ _ _ same]
        exact inv.reading other
    filled := inv.filled
    placed := by
      intro i item low there
      rcases inv.placed i item low there with slot | ⟨other, pending⟩
      · exact .inl slot
      · exact .inr ⟨other, (others other item (u64 i)).mpr pending⟩
    pending := fun other item h pending => inv.pending other item h ((others other item h).mp pending)
    apart := fun one other item another h first second =>
      inv.apart one other item another h ((others one item h).mp first) ((others other another h).mp second)
    left := by
      intro other given remains code returned
      by_cases same : other = k
      · subst same
        rw [push_here] at returned
        exact left given remains code returned
      · rw [push_there _ _ _ _ same] at returned
        exact inv.left other given remains code returned
    pushed := by
      intro other given remains returned
      by_cases same : other = k
      · subst same
        rw [push_here] at returned
        exact absurd returned (failed given remains)
      · rw [push_there _ _ _ _ same] at returned
        exact inv.pushed other given remains returned }

theorem inv_turn (q : LockFreeQueue T) (inv : Inv q) (k : Nat) (item : T) (retryTimes : Int) (i : Nat)
    (before : ∀ item h, q.pushes k ≠ .swap item h) : Inv (q.setPush k (turn item retryTimes i)) := by
  rw [turn]
  split
  · exact inv_set q inv k _ before nofun trivial nofun nofun
  · refine inv_set q inv k _ before nofun trivial ?_ nofun
    intro given left code returned
    cases returned
    rfl

theorem inv_first_turn (q : LockFreeQueue T) (inv : Inv q) (k : Nat) (item : Option T) (retryTimes : Int)
    (before : ∀ item h, q.pushes k ≠ .swap item h) : Inv (q.setPush k (firstTurn item retryTimes)) := by
  cases item with
  | none =>
      refine inv_set q inv k _ before nofun trivial ?_ nofun
      intro given left code returned
      cases returned
      rfl
  | some item => exact inv_turn q inv k item retryTimes 0 before

theorem inv_call_push (q r : LockFreeQueue T) (inv : Inv q) (k : Nat) (item : Option T) (retryTimes : Int)
    (done : q.callPush k item retryTimes = some r) : Inv r := by
  unfold callPush at done
  cases point : q.pushes k with
  | idle =>
      rw [point] at done
      cases done
      exact inv_first_turn q inv k item retryTimes (fun item h => by rw [point]; nofun)
  | returned given left code =>
      rw [point] at done
      cases done
      exact inv_first_turn q inv k item retryTimes (fun item h => by rw [point]; nofun)
  | _ =>
      rw [point] at done
      cases done

-- A compare-and-swap that succeeds reserves the next slot, and that slot is empty.
theorem exchange_reserves (q : LockFreeQueue T) (inv : Inv q) (k : Nat) (item : T) (retryTimes : Int) (i t h seen : Nat)
    (point : q.pushes k = .exchange item retryTimes i t h seen) (fits : Fits q (.push k)) (same : q.head = h) :
    h = u64 q.reserved.length ∧ q.reserved.length < q.released + q.capacity ∧
      (q.reserved.length < 2 ^ 64 ∨ q.capacity ∣ 2 ^ 64) := by
  have reading := inv.reading k
  rw [point] at reading
  obtain ⟨low, high, least, tail, near, order, most, head, size⟩ := reading
  have plain := fits item retryTimes i t h seen point same
  have number : u64 high = u64 q.reserved.length := by rw [← head, ← same, inv.head]
  have close : q.reserved.length - high < 2 ^ 64 := by omega
  have exact_ := u64_inj high q.reserved.length most close number
  have short : high - low < 2 ^ 64 := by omega
  have released := released_le q
  have popped := inv.ordered.length_le
  rw [head, tail, sub64_counts low high (by omega) short] at size
  refine ⟨by rw [← same, inv.head], by omega, ?_⟩
  rcases plain with below | ⟨divides, _⟩
  · exact .inl below
  · exact .inr divides

theorem inv_exchange (q : LockFreeQueue T) (inv : Inv q) (k : Nat) (item : T) (retryTimes : Int) (i t h seen : Nat)
    (point : q.pushes k = .exchange item retryTimes i t h seen) (fits : Fits q (.push k)) (same : q.head = h) :
    Inv { q.setPush k (.swap item h) with head := u64 (h + 1), reserved := q.reserved ++ [item] } := by
  obtain ⟨number, space, plain⟩ := exchange_reserves q inv k item retryTimes i t h seen point fits same
  have released := released_le q
  have popped := inv.ordered.length_le
  have kept : ∀ (i : Nat) (another : T), q.reserved[i]? = some another → (q.reserved ++ [item])[i]? = some another := by
    intro i another there
    rw [List.getElem?_append_left (index_below _ _ _ there)]
    exact there
  have others : ∀ other another h', q.pushes other = .swap another h' → other ≠ k := by
    intro other another h' pending same
    rw [same, point] at pending
    cases pending
  have unfilled : q.items (q.reserved.length % q.capacity) = none := by
    cases slot : q.items (q.reserved.length % q.capacity) with
    | none => rfl
    | some another =>
        obtain ⟨j, low, there, place⟩ := inv.filled _ another slot
        have below := index_below _ _ _ there
        have := mod_inj q.capacity j q.reserved.length (by omega) (by omega) place
        omega
  have fresh : ∀ other another, q.pushes other ≠ .swap another h := by
    intro other another pending
    obtain ⟨j, low, place, there, _⟩ := inv.pending other another h pending
    have below := index_below _ _ _ there
    have := window_number q inv j q.reserved.length low (by omega) (Nat.le_refl _) (by rw [← place, number])
    omega
  exact {
    bound := inv.bound
    ordered := inv.ordered.trans (List.prefix_append _ _)
    head := by
      dsimp only
      rw [number, u64_succ, List.length_append]
      rfl
    tail := inv.tail
    room := by
      show (q.reserved ++ [item]).length ≤ q.released + q.capacity
      rw [List.length_append, List.length_singleton]
      omega
    plain := by
      rcases plain with short | divides
      · left
        show (q.reserved ++ [item]).length ≤ 2 ^ 64
        rw [List.length_append, List.length_singleton]
        omega
      · exact .inr divides
    popper := by
      have popper := inv.popper
      show Popper _ q.pop
      cases where_ : q.pop with
      | look t =>
          rw [where_] at popper
          refine ⟨popper.1, ?_⟩
          have := popper.2
          dsimp only [setPush]
          rw [List.length_append]
          omega
      | take t =>
          rw [where_] at popper
          refine ⟨popper.1, ?_, popper.2.2⟩
          have := popper.2.1
          dsimp only [setPush]
          rw [List.length_append]
          omega
      | _ =>
          rw [where_] at popper
          exact popper
    reading := by
      intro other
      by_cases same : other = k
      · subst same
        dsimp only [setPush]
        rw [Function.update_self]
        trivial
      · dsimp only [setPush]
        rw [Function.update_of_ne same]
        refine reading_later q _ _ (inv.reading other) rfl (Nat.le_refl _) ?_
        dsimp only
        rw [List.length_append]
        exact Nat.le_add_right _ _
    filled := by
      intro j another slot
      obtain ⟨i, low, there, place⟩ := inv.filled j another slot
      exact ⟨i, low, kept i another there, place⟩
    placed := by
      intro i another low there
      by_cases last : i < q.reserved.length
      · rw [List.getElem?_append_left last] at there
        rcases inv.placed i another low there with slot | ⟨other, pending⟩
        · exact .inl slot
        · refine .inr ⟨other, ?_⟩
          dsimp only [setPush]
          rw [Function.update_of_ne (others other another _ pending)]
          exact pending
      · have below := index_below _ _ _ there
        rw [List.length_append, List.length_singleton] at below
        obtain rfl : i = q.reserved.length := by omega
        rw [List.getElem?_concat_length] at there
        cases there
        refine .inr ⟨k, ?_⟩
        dsimp only [setPush]
        rw [Function.update_self, number]
    pending := by
      intro other another h' pending
      dsimp only [setPush] at pending
      by_cases same : other = k
      · subst same
        rw [Function.update_self] at pending
        cases pending
        exact ⟨q.reserved.length, popped, number, List.getElem?_concat_length, unfilled⟩
      · rw [Function.update_of_ne same] at pending
        obtain ⟨i, low, place, there, slot⟩ := inv.pending other another h' pending
        exact ⟨i, low, place, kept i another there, slot⟩
    apart := by
      intro one other first second h' left right
      dsimp only [setPush] at left right
      by_cases same : one = k
      · by_cases also : other = k
        · rw [same, also]
        · subst same
          rw [Function.update_self] at left
          rw [Function.update_of_ne also] at right
          cases left
          exact absurd right (fresh other second)
      · rw [Function.update_of_ne same] at left
        by_cases also : other = k
        · subst also
          rw [Function.update_self] at right
          cases right
          exact absurd left (fresh one first)
        · rw [Function.update_of_ne also] at right
          exact inv.apart one other first second h' left right
    left := by
      intro other given left code returned
      dsimp only [setPush] at returned
      by_cases same : other = k
      · subst same
        rw [Function.update_self] at returned
        cases returned
      · rw [Function.update_of_ne same] at returned
        exact inv.left other given left code returned
    pushed := by
      intro other given left returned
      dsimp only [setPush] at returned
      by_cases same : other = k
      · subst same
        rw [Function.update_self] at returned
        cases returned
      · rw [Function.update_of_ne same] at returned
        obtain ⟨another, given, there⟩ := inv.pushed other given left returned
        exact ⟨another, given, List.mem_append_left _ there⟩ }

-- Two indices that wait to be taken are told apart by their number and by their slot.
theorem same_number (q : LockFreeQueue T) (inv : Inv q) (i j : Nat) (first : q.popped.length ≤ i) (second : q.popped.length ≤ j)
    (below : i < q.reserved.length) (above : j < q.reserved.length) (same : u64 i = u64 j) : i = j := by
  rcases Nat.le_total i j with le | le
  · exact window_number q inv i j first le (Nat.le_of_lt above) same
  · exact (window_number q inv j i second le (Nat.le_of_lt below) same.symm).symm

theorem same_slot (q : LockFreeQueue T) (inv : Inv q) (i j : Nat) (first : q.popped.length ≤ i) (second : q.popped.length ≤ j)
    (below : i < q.reserved.length) (above : j < q.reserved.length) (same : i % q.capacity = j % q.capacity) : i = j := by
  rcases Nat.le_total i j with le | le
  · exact window_slot q inv i j first le above same
  · exact (window_slot q inv j i second le below same.symm).symm

theorem inv_swap (q : LockFreeQueue T) (inv : Inv q) (k : Nat) (item : T) (h : Nat) (point : q.pushes k = .swap item h) :
    Inv { q.setPush k (.returned (some item) (q.items (h % q.capacity)) .ok) with
      items := Function.update q.items (h % q.capacity) (some item) } := by
  obtain ⟨i, low, number, there, unfilled⟩ := inv.pending k item h point
  have below := index_below _ _ _ there
  have slot : h % q.capacity = i % q.capacity := by rw [number, slot_plain q inv i below]
  have others : ∀ other another h', (q.setPush k (.returned (some item) (q.items (h % q.capacity)) .ok)).pushes other = .swap another h' →
      other ≠ k ∧ q.pushes other = .swap another h' := by
    intro other another h' pending
    by_cases same : other = k
    · subst same
      rw [push_here] at pending
      cases pending
    · rw [push_there _ _ _ _ same] at pending
      exact ⟨same, pending⟩
  exact {
    bound := inv.bound
    ordered := inv.ordered
    head := inv.head
    tail := inv.tail
    room := inv.room
    plain := inv.plain
    popper := by
      have popper := inv.popper
      show Popper _ q.pop
      cases where_ : q.pop with
      | take t =>
          rw [where_] at popper
          obtain ⟨tail, more, filled, full⟩ := popper
          refine ⟨tail, more, ?_⟩
          dsimp only
          by_cases same : t % q.capacity = h % q.capacity
          · exact ⟨item, by rw [show (q.setPush k _).capacity = q.capacity from rfl, same, Function.update_self]⟩
          · exact ⟨filled, by rw [show (q.setPush k _).capacity = q.capacity from rfl, Function.update_of_ne same]; exact full⟩
      | _ =>
          rw [where_] at popper
          exact popper
    reading := by
      intro other
      show Reading _ ((q.setPush k _).pushes other)
      by_cases same : other = k
      · subst same
        rw [push_here]
        trivial
      · rw [push_there _ _ _ _ same]
        exact reading_later q _ _ (inv.reading other) rfl (Nat.le_refl _) (Nat.le_refl _)
    filled := by
      intro j another full
      dsimp only at full
      by_cases same : j = h % q.capacity
      · rw [same, Function.update_self] at full
        cases full
        exact ⟨i, low, there, by rw [same, slot]; rfl⟩
      · rw [Function.update_of_ne same] at full
        exact inv.filled j another full
    placed := by
      intro j another first waits
      show Function.update _ _ _ (j % q.capacity) = _ ∨ _
      change q.reserved[j]? = some another at waits
      have above := index_below _ _ _ waits
      by_cases same : j = i
      · subst same
        rw [there] at waits
        cases waits
        exact .inl (by rw [slot, Function.update_self])
      · have apart : j % q.capacity ≠ h % q.capacity := by
          intro one
          exact same (same_slot q inv j i first low above below (by rw [one, slot]))
        rcases inv.placed j another first waits with full | ⟨other, pending⟩
        · exact .inl (by rw [Function.update_of_ne apart]; exact full)
        · refine .inr ⟨other, ?_⟩
          show (q.setPush k _).pushes other = _
          rw [push_there]
          · exact pending
          · intro one
            rw [one, point] at pending
            injection pending with _ numbers
            exact same (same_number q inv j i first low above below (by rw [← numbers, number]))
    pending := by
      intro other another h' pending
      obtain ⟨differ, was⟩ := others other another h' pending
      obtain ⟨j, first, place, waits, free⟩ := inv.pending other another h' was
      have above := index_below _ _ _ waits
      refine ⟨j, first, place, waits, ?_⟩
      show Function.update _ _ _ (j % q.capacity) = _
      rw [Function.update_of_ne]
      · exact free
      · intro one
        have same := same_slot q inv j i first low above below (by rw [one, slot])
        rw [same, ← number] at place
        rw [place] at was
        exact differ (inv.apart other k another item h was point)
    apart := by
      intro one other first second h' left right
      exact inv.apart one other first second h' (others one first h' left).2 (others other second h' right).2
    left := by
      intro other given remains code returned
      change (q.setPush k _).pushes other = _ at returned
      by_cases same : other = k
      · subst same
        rw [push_here] at returned
        cases returned
        rw [slot, unfilled]
        rfl
      · rw [push_there _ _ _ _ same] at returned
        exact inv.left other given remains code returned
    pushed := by
      intro other given remains returned
      change (q.setPush k _).pushes other = _ at returned
      by_cases same : other = k
      · subst same
        rw [push_here] at returned
        cases returned
        exact ⟨item, rfl, List.mem_of_getElem? there⟩
      · rw [push_there _ _ _ _ same] at returned
        exact inv.pushed other given remains returned }

theorem inv_push (q r : LockFreeQueue T) (inv : Inv q) (k : Nat) (fits : Fits q (.push k)) (done : q.pushStep k = some r) : Inv r := by
  unfold pushStep at done
  cases point : q.pushes k with
  | loadTail item retryTimes i =>
      rw [point] at done
      cases done
      refine inv_set q inv k _ (fun item h => by rw [point]; nofun) nofun ?_ nofun nofun
      exact ⟨q.released, Nat.le_refl _, inv.tail, inv.room, Nat.le_refl _⟩
  | loadHead item retryTimes i t seen =>
      have reading := inv.reading k
      rw [point] at reading
      obtain ⟨low, least, same, near, there⟩ := reading
      rw [point] at done
      dsimp only at done
      split at done
      · cases done
        refine inv_set q inv k _ (fun item h => by rw [point]; nofun) nofun trivial ?_ nofun
        intro given left code returned
        cases returned
        rfl
      · rename_i room
        cases done
        refine inv_set q inv k _ (fun item h => by rw [point]; nofun) nofun ?_ nofun nofun
        exact ⟨low, q.reserved.length, least, same, near, there, Nat.le_refl _, inv.head, Nat.lt_of_not_ge room⟩
  | exchange item retryTimes i t h seen =>
      rw [point] at done
      dsimp only at done
      split at done
      · rename_i same
        cases done
        exact inv_exchange q inv k item retryTimes i t h seen point fits same
      · cases done
        exact inv_turn q inv k item retryTimes (i + 1) (fun item h => by rw [point]; nofun)
  | swap item h =>
      rw [point] at done
      cases done
      exact inv_swap q inv k item h point
  | _ =>
      rw [point] at done
      cases done

-- A step of the consumer that only moves on.
theorem inv_pop_at (q : LockFreeQueue T) (inv : Inv q) (point : PopPoint T) (popper : Popper q point)
    (same : ({ q with pop := point } : LockFreeQueue T).released = q.released) : Inv { q with pop := point } where
  bound := inv.bound
  ordered := inv.ordered
  head := inv.head
  tail := inv.tail.trans (congrArg u64 same.symm)
  room := by
    rw [same]
    exact inv.room
  plain := inv.plain
  popper := by cases point <;> exact popper
  reading := fun k => reading_later q _ _ (inv.reading k) rfl (Nat.le_of_eq same.symm) (Nat.le_refl _)
  filled := inv.filled
  placed := inv.placed
  pending := inv.pending
  apart := inv.apart
  left := inv.left
  pushed := inv.pushed

theorem inv_call_pop (q r : LockFreeQueue T) (inv : Inv q) (done : q.callPop = some r) : Inv r := by
  unfold callPop at done
  cases point : q.pop with
  | idle =>
      rw [point] at done
      cases done
      exact inv_pop_at q inv .loadTail trivial (by rw [released, released, point])
  | returned item code =>
      rw [point] at done
      cases done
      exact inv_pop_at q inv .loadTail trivial (by rw [released, released, point])
  | _ =>
      rw [point] at done
      cases done

theorem prefix_grows (short long : List T) (item : T) (ordered : short <+: long) (there : long[short.length]? = some item) :
    short ++ [item] <+: long := by
  obtain ⟨rest, same⟩ := ordered
  subst same
  cases rest with
  | nil =>
      rw [List.append_nil, List.getElem?_eq_none (Nat.le_refl _)] at there
      cases there
  | cons first rest =>
      rw [List.getElem?_append_right (Nat.le_refl _), Nat.sub_self] at there
      cases there
      exact ⟨rest, by rw [List.append_assoc]; rfl⟩

theorem inv_take (q : LockFreeQueue T) (inv : Inv q) (t : Nat) (point : q.pop = .take t) :
    Inv { q with
      items := Function.update q.items (t % q.capacity) none
      pop := .addTail (q.items (t % q.capacity))
      popped := q.popped ++ (q.items (t % q.capacity)).toList } := by
  have popper := inv.popper
  rw [point] at popper
  obtain ⟨tail, more, item, full⟩ := popper
  have slot : t % q.capacity = q.popped.length % q.capacity := by rw [tail, slot_plain q inv _ more]
  obtain ⟨i, low, there, place⟩ := inv.filled _ item full
  have below := index_below _ _ _ there
  obtain rfl : i = q.popped.length :=
    same_slot q inv i q.popped.length low (Nat.le_refl _) below more (by rw [place, slot])
  have length : (q.popped ++ (q.items (t % q.capacity)).toList).length = q.popped.length + 1 := by
    rw [full, Option.toList_some, List.length_append, List.length_singleton]
  have same : ({ q with
      items := Function.update q.items (t % q.capacity) none
      pop := .addTail (q.items (t % q.capacity))
      popped := q.popped ++ (q.items (t % q.capacity)).toList } : LockFreeQueue T).released = q.released := by
    rw [released, released, point]
    dsimp only
    rw [length]
    rfl
  exact {
    bound := inv.bound
    ordered := by
      dsimp only
      rw [full]
      exact prefix_grows _ _ item inv.ordered there
    head := inv.head
    tail := inv.tail.trans (congrArg u64 same.symm)
    room := by
      rw [same]
      exact inv.room
    plain := inv.plain
    popper := by
      refine ⟨item, full, ?_⟩
      dsimp only
      rw [full, Option.toList_some, List.getLast?_concat]
    reading := fun k => reading_later q _ _ (inv.reading k) rfl (Nat.le_of_eq same.symm) (Nat.le_refl _)
    filled := by
      intro j another still
      dsimp only at still ⊢
      rw [length]
      by_cases same : j = t % q.capacity
      · rw [same, Function.update_self] at still
        cases still
      · rw [Function.update_of_ne same] at still
        obtain ⟨i, first, waits, where_⟩ := inv.filled j another still
        have differ : i ≠ q.popped.length := by
          intro one
          rw [one] at where_
          exact same (where_.symm.trans slot.symm)
        exact ⟨i, by omega, waits, where_⟩
    placed := by
      intro j another first waits
      dsimp only at first waits ⊢
      rw [length] at first
      rcases inv.placed j another (by omega) waits with still | pending
      · refine .inl ?_
        rw [Function.update_of_ne]
        · exact still
        · intro one
          have := same_slot q inv j q.popped.length (by omega) (Nat.le_refl _) (index_below _ _ _ waits) more (one.trans slot)
          omega
      · exact .inr pending
    pending := by
      intro other another h pending
      obtain ⟨j, first, number, waits, free⟩ := inv.pending other another h pending
      have differ : j ≠ q.popped.length := by
        intro one
        rw [one, ← slot, full] at free
        cases free
      refine ⟨j, ?_, number, waits, ?_⟩
      · dsimp only
        rw [length]
        omega
      · dsimp only
        by_cases same : j % q.capacity = t % q.capacity
        · rw [same, Function.update_self]
        · rw [Function.update_of_ne same]
          exact free
    apart := inv.apart
    left := inv.left
    pushed := inv.pushed }

theorem inv_add_tail (q : LockFreeQueue T) (inv : Inv q) (item : Option T) (point : q.pop = .addTail item) :
    Inv { q with tail := u64 (q.tail + 1), pop := .returned item .ok } := by
  have popper := inv.popper
  rw [point] at popper
  have some_ : 0 < q.popped.length := by
    obtain ⟨taken, _, last⟩ := popper
    exact List.length_pos_of_mem (List.mem_of_getLast? last)
  have before : q.released = q.popped.length - 1 := by rw [released, point]
  have after : ({ q with tail := u64 (q.tail + 1), pop := .returned item .ok } : LockFreeQueue T).released = q.released + 1 := by
    rw [before, released]
    dsimp only
    omega
  exact {
    bound := inv.bound
    ordered := inv.ordered
    head := inv.head
    tail := by
      rw [after]
      dsimp only
      rw [inv.tail, u64_succ]
    room := by
      have room := inv.room
      rw [after]
      show q.reserved.length ≤ _ + q.capacity
      omega
    plain := inv.plain
    popper := popper
    reading := fun k => reading_later q _ _ (inv.reading k) rfl (by rw [after]; exact Nat.le_succ _) (Nat.le_refl _)
    filled := inv.filled
    placed := inv.placed
    pending := inv.pending
    apart := inv.apart
    left := inv.left
    pushed := inv.pushed }

theorem inv_pop (q r : LockFreeQueue T) (inv : Inv q) (done : q.popStep = some r) : Inv r := by
  have popper := inv.popper
  have popped := inv.ordered.length_le
  unfold popStep at done
  cases point : q.pop with
  | loadTail =>
      have now : q.released = q.popped.length := by rw [released, point]
      rw [point] at done
      cases done
      refine inv_pop_at q inv (.loadHead q.tail) ?_ (by rw [released, released, point])
      show q.tail = u64 q.popped.length
      rw [inv.tail, now]
  | loadHead t =>
      rw [point] at done popper
      cases done
      split
      · exact inv_pop_at q inv _ rfl (by rw [released, released, point])
      · rename_i differ
        have more : q.popped.length ≠ q.reserved.length := by
          intro same
          rw [inv.head, ← same] at differ
          exact differ popper.symm
        exact inv_pop_at q inv (.look t) ⟨popper, by omega⟩ (by rw [released, released, point])
  | look t =>
      rw [point] at done popper
      cases done
      split
      · exact inv_pop_at q inv _ rfl (by rw [released, released, point])
      · rename_i full
        exact inv_pop_at q inv (.take t) ⟨popper.1, popper.2, Option.ne_none_iff_exists'.mp full⟩ (by rw [released, released, point])
  | take t =>
      rw [point] at done
      cases done
      exact inv_take q inv t point
  | addTail item =>
      rw [point] at done
      cases done
      exact inv_add_tail q inv item point
  | _ =>
      rw [point] at done
      cases done

theorem inv_act (q r : LockFreeQueue T) (inv : Inv q) (action : Action T) (fits : Fits q action) (done : q.act action = some r) : Inv r := by
  cases action with
  | callPush k item retryTimes => exact inv_call_push q r inv k item retryTimes done
  | push k => exact inv_push q r inv k fits done
  | callPop => exact inv_call_pop q r inv done
  | pop => exact inv_pop q r inv done

theorem reached_inv (capacity : Nat) (bound : capacity < 2 ^ 64) (q : LockFreeQueue T) (reached : Reached Fits capacity q) : Inv q := by
  induction reached with
  | start => exact inv_start capacity bound
  | step q r action before met done ih => exact inv_act q r ih action met done

end PaxosStore.Certain.LockFreeQueue
