import PaxosStore.DbComm.HashLock

set_option autoImplicit false

namespace PaxosStore.DbComm

open PaxosStore.Locks

theorem mem_unique (hashes : List Nat) (h : Nat) : h ∈ unique hashes ↔ h ∈ hashes := by
  induction hashes with
  | nil => exact Iff.rfl
  | cons first rest ih =>
      cases rest with
      | nil => exact Iff.rfl
      | cons second tail =>
          rw [unique]
          by_cases same : first = second
          · rw [if_pos same, ih, List.mem_cons, List.mem_cons, List.mem_cons, same]
            exact ⟨.inr, fun there => there.elim .inl id⟩
          · rw [if_neg same, List.mem_cons, ih]
            exact List.mem_cons.symm

theorem unique_ascending (hashes : List Nat) (sorted : hashes.Pairwise (· ≤ ·)) : (unique hashes).Pairwise (· < ·) := by
  induction hashes with
  | nil => exact List.Pairwise.nil
  | cons first rest ih =>
      cases rest with
      | nil => exact List.pairwise_singleton _ _
      | cons second tail =>
          obtain ⟨least, sorted⟩ := List.pairwise_cons.mp sorted
          rw [unique]
          by_cases same : first = second
          · rw [if_pos same]
            exact ih sorted
          · rw [if_neg same]
            refine List.pairwise_cons.mpr ⟨?_, ih sorted⟩
            intro h there
            have above := least second (List.mem_cons_self ..)
            rcases List.mem_cons.mp ((mem_unique _ h).mp there) with here | later
            · omega
            · have beyond := (List.pairwise_cons.mp sorted).1 h later
              omega

theorem take_gains (hashVec : List Nat) (i a : Nat) (here : hashVec[i]? = some a) (c : Nat) :
    c ∈ hashVec.take (i + 1) ↔ c ∈ hashVec.take i ∨ c = a := by
  rw [List.take_add_one, here, List.mem_append]
  exact or_congr_right List.mem_singleton

-- In an ascending vector what comes before an element is smaller.
theorem take_below (hashVec : List Nat) (ascending : hashVec.Pairwise (· < ·)) (i a c : Nat) (here : hashVec[i]? = some a)
    (before : c ∈ hashVec.take i) : c < a := by
  obtain ⟨inside, value⟩ := List.getElem?_eq_some_iff.mp here
  obtain ⟨j, short, same⟩ := List.mem_take_iff_getElem.mp before
  have order := List.pairwise_iff_getElem.mp ascending j i (by omega) inside (by omega)
  rw [value, same] at order
  exact order

theorem take_fresh (hashVec : List Nat) (ascending : hashVec.Pairwise (· < ·)) (i a : Nat) (here : hashVec[i]? = some a) :
    a ∉ hashVec.take i :=
  fun before => Nat.lt_irrefl a (take_below hashVec ascending i a a here before)

theorem take_all (hashVec : List Nat) (i : Nat) (past : hashVec[i]? = none) : hashVec.take i = hashVec :=
  List.take_of_length_le (List.getElem?_eq_none_iff.mp past)

namespace HashBaseLock

-- What is known of an object by where its thread is.
def Knows (o : HashLock) : LockPoint → Prop
  | .rest => o.lock = false ∧ o.batchLock = false
  | .readLock => o.lock = true ∧ o.batchLock = false ∧ o.mode = .read
  | .writeLock => o.lock = true ∧ o.batchLock = false ∧ o.mode = .write
  | .tryWriteLock => o.lock = false ∧ o.batchLock = false ∧ o.mode = .write
  | .batchReadLock _ => o.lock = true ∧ o.batchLock = true ∧ o.mode = .read
  | .batchWriteLock _ => o.lock = true ∧ o.batchLock = true ∧ o.mode = .write
  | .batchTryWriteLock i failSet =>
      o.lock = true ∧ o.batchLock = true ∧ o.mode = .write ∧ failSet.Nodup ∧ ∀ a, a ∈ failSet → a ∈ o.hashVec.take i
  | .returned .ok _ => o.lock = true
  | .returned .busy failSet => o.lock = false ∧ o.batchLock = false ∧ failSet = []
  | .batchUnLock i => i ≤ o.hashVec.length
  | .unLock => True
  | .aborted => False

-- The vector has every lock the set asked for, but for those the last call reported.
def Covers (lockCount : Nat) (o : HashLock) : LockPoint → Prop
  | .returned _ failSet => ∀ h, h ∈ o.asked → h % lockCount ∈ o.hashVec ∨ h % lockCount ∈ failSet
  | .unLock => True
  | .batchUnLock _ => True
  | _ => ∀ h, h ∈ o.asked → h % lockCount ∈ o.hashVec

structure Good (lockCount : Nat) (o : HashLock) (point : LockPoint) : Prop where
  ascending : o.hashVec.Pairwise (· < ·)
  below : ∀ a, a ∈ o.hashVec → a < lockCount
  covers : Covers lockCount o point
  knows : Knows o point

structure Inv (b : HashBaseLock) : Prop where
  count : 0 < b.lockCount
  agrees : Agrees b.locks b.Holds
  good : ∀ t o, b.objects t = some o → Good b.lockCount o (b.points t)
  gone : ∀ t, b.objects t = none → b.points t = .rest

theorem made_good (lockCount : Nat) (count : 0 < lockCount) (made : Made) : Good lockCount (made.create lockCount) .rest := by
  cases made with
  | single hash => exact ⟨.nil, nofun, nofun, rfl, rfl⟩
  | logID number => exact ⟨.nil, nofun, nofun, rfl, rfl⟩
  | batch hashSet memory =>
      have there : ∀ a, a ∈ unique ((hashSet.map (· % lockCount)).insertionSort (· ≤ ·)) ↔ ∃ h, h ∈ hashSet ∧ h % lockCount = a := by
        intro a
        rw [mem_unique, List.mem_insertionSort, List.mem_map]
      refine ⟨unique_ascending _ (List.pairwise_insertionSort _ _), ?_, ?_, rfl, rfl⟩
      · intro a listed
        obtain ⟨h, _, same⟩ := (there a).mp listed
        rw [← same]
        exact Nat.mod_lt _ count
      · intro h asked
        exact (there _).mpr ⟨h, asked, rfl⟩

theorem put_object (b : HashBaseLock) (t : Nat) (object : Option HashLock) (point : LockPoint) : (b.put t object point).objects t = object :=
  Function.update_self _ _ _

theorem put_point (b : HashBaseLock) (t : Nat) (object : Option HashLock) (point : LockPoint) : (b.put t object point).points t = point :=
  Function.update_self _ _ _

theorem put_other_object (b : HashBaseLock) (t u : Nat) (object : Option HashLock) (point : LockPoint) (differ : u ≠ t) :
    (b.put t object point).objects u = b.objects u :=
  Function.update_of_ne differ _ _

theorem put_other_point (b : HashBaseLock) (t u : Nat) (object : Option HashLock) (point : LockPoint) (differ : u ≠ t) :
    (b.put t object point).points u = b.points u :=
  Function.update_of_ne differ _ _

theorem holds_other (b : HashBaseLock) (t u a : Nat) (mode : Mode) (object : Option HashLock) (point : LockPoint) (differ : u ≠ t) :
    (b.put t object point).Holds u a mode ↔ b.Holds u a mode := by
  unfold Holds
  rw [put_other_object b t u object point differ, put_other_point b t u object point differ]
  exact Iff.rfl

theorem holds_here (b : HashBaseLock) (t a : Nat) (mode : Mode) (o : HashLock) (object : b.objects t = some o) :
    b.Holds t a mode ↔ a ∈ heldAt b.lockCount o (b.points t) ∧ o.mode = mode := by
  constructor
  · rintro ⟨same, there, held⟩
    rw [object] at there
    cases there
    exact held
  · intro held
    exact ⟨o, object, held⟩

theorem holds_put (b : HashBaseLock) (t a : Nat) (mode : Mode) (o : HashLock) (point : LockPoint) :
    (b.put t (some o) point).Holds t a mode ↔ a ∈ heldAt b.lockCount o point ∧ o.mode = mode := by
  rw [holds_here (b.put t (some o) point) t a mode o (put_object b t _ _), put_point]
  exact Iff.rfl

theorem holds_none (b : HashBaseLock) (t a : Nat) (mode : Mode) (none : b.objects t = none) : ¬ b.Holds t a mode := by
  rintro ⟨o, there, _⟩
  rw [none] at there
  cases there

-- Where a thread moves on, the invariant is left to show for it alone.
theorem inv_put (b : HashBaseLock) (inv : Inv b) (t : Nat) (o : HashLock) (point : LockPoint) (locks : Nat → RwLock Nat)
    (agrees : Agrees locks (b.put t (some o) point).Holds) (good : Good b.lockCount o point) :
    Inv { b.put t (some o) point with locks := locks } where
  count := inv.count
  agrees := agrees
  good := by
    intro u other there
    by_cases same : u = t
    · subst same
      rw [put_object] at there
      cases there
      rw [put_point]
      exact good
    · rw [put_other_object b t u _ _ same] at there
      rw [put_other_point b t u _ _ same]
      exact inv.good u other there
  gone := by
    intro u none
    by_cases same : u = t
    · subst same
      rw [put_object] at none
      cases none
    · rw [put_other_object b t u _ _ same] at none
      rw [put_other_point b t u _ _ same]
      exact inv.gone u none

theorem inv_drop (b : HashBaseLock) (inv : Inv b) (t : Nat) (locks : Nat → RwLock Nat)
    (agrees : Agrees locks (b.put t none .rest).Holds) : Inv { b.put t none .rest with locks := locks } where
  count := inv.count
  agrees := agrees
  good := by
    intro u other there
    by_cases same : u = t
    · subst same
      rw [put_object] at there
      cases there
    · rw [put_other_object b t u _ _ same] at there
      rw [put_other_point b t u _ _ same]
      exact inv.good u other there
  gone := by
    intro u none
    by_cases same : u = t
    · subst same
      exact put_point b u Option.none .rest
    · rw [put_other_object b t u _ _ same] at none
      rw [put_other_point b t u _ _ same]
      exact inv.gone u none

-- A thread that moves on with the locks it had.
theorem inv_same (b : HashBaseLock) (inv : Inv b) (t : Nat) (o : HashLock) (object : b.objects t = some o) (next : HashLock) (point : LockPoint)
    (held : ∀ a, a ∈ heldAt b.lockCount next point ↔ a ∈ heldAt b.lockCount o (b.points t))
    (mode : next.mode = o.mode ∨ ∀ a, a ∉ heldAt b.lockCount o (b.points t)) (good : Good b.lockCount next point) :
    Inv (b.put t (some next) point) := by
  refine inv_put b inv t next point b.locks ?_ good
  refine agrees_congr b.locks b.Holds _ inv.agrees ?_
  intro u a asked
  by_cases same : u = t
  · subst same
    rw [holds_put, holds_here b u a asked o object, held a]
    rcases mode with same | none
    · rw [same]
    · exact ⟨fun both => absurd both.1 (none a), fun both => absurd both.1 (none a)⟩
  · exact holds_other b t u a asked _ _ same

theorem gains_put (b : HashBaseLock) (t a : Nat) (o : HashLock) (object : b.objects t = some o) (next : HashLock) (point : LockPoint)
    (mode : next.mode = o.mode) (held : ∀ c, c ∈ heldAt b.lockCount next point ↔ c ∈ heldAt b.lockCount o (b.points t) ∨ c = a) :
    Gains b.Holds (b.put t (some next) point).Holds t a o.mode := by
  intro u c asked
  by_cases same : u = t
  · subst same
    rw [holds_put, holds_here b u c asked o object, held c, mode]
    constructor
    · rintro ⟨there | here, same⟩
      · exact .inl ⟨there, same⟩
      · exact .inr ⟨rfl, here, same.symm⟩
    · rintro (⟨there, same⟩ | ⟨_, here, same⟩)
      · exact ⟨.inl there, same⟩
      · exact ⟨.inr here, same.symm⟩
  · rw [holds_other b t u c asked _ _ same]
    exact ⟨.inl, fun gained => gained.elim id (fun here => absurd here.1 same)⟩

theorem loses_put (b : HashBaseLock) (t a : Nat) (o : HashLock) (object : b.objects t = some o) (next : HashLock) (point : LockPoint)
    (mode : next.mode = o.mode) (held : ∀ c, c ∈ heldAt b.lockCount next point ↔ c ∈ heldAt b.lockCount o (b.points t) ∧ c ≠ a) :
    Loses b.Holds (b.put t (some next) point).Holds t a := by
  intro u c asked
  by_cases same : u = t
  · subst same
    rw [holds_put, holds_here b u c asked o object, held c, mode]
    constructor
    · rintro ⟨⟨there, other⟩, same⟩
      exact ⟨⟨there, same⟩, fun here => other here.2⟩
    · rintro ⟨⟨there, same⟩, other⟩
      exact ⟨⟨there, fun here => other ⟨rfl, here⟩⟩, same⟩
  · rw [holds_other b t u c asked _ _ same]
    exact ⟨fun there => ⟨there, fun here => same here.1⟩, And.left⟩

theorem loses_drop (b : HashBaseLock) (t a : Nat) (o : HashLock) (object : b.objects t = some o)
    (held : heldAt b.lockCount o (b.points t) = [a]) : Loses b.Holds (b.put t none .rest).Holds t a := by
  intro u c asked
  by_cases same : u = t
  · subst same
    refine ⟨fun now => (holds_none _ u c asked (put_object b u _ _) now).elim, ?_⟩
    rintro ⟨there, other⟩
    rw [holds_here b u c asked o object, held] at there
    exact absurd ⟨rfl, List.mem_singleton.mp there.1⟩ other
  · rw [holds_other b t u c asked _ _ same]
    exact ⟨fun there => ⟨there, fun here => same here.1⟩, And.left⟩

-- A read lock or write lock that may have to wait.
theorem inv_waited (b c : HashBaseLock) (inv : Inv b) (t a : Nat) (o : HashLock) (object : b.objects t = some o) (next : LockPoint)
    (unheld : a ∉ heldAt b.lockCount o (b.points t))
    (held : ∀ c, c ∈ heldAt b.lockCount o next ↔ c ∈ heldAt b.lockCount o (b.points t) ∨ c = a)
    (good : Good b.lockCount o next) (attempt : Attempt Nat)
    (asked : attempt = (b.locks a).rdlock t ∧ o.mode = .read ∨ attempt = (b.locks a).wrlock t ∧ o.mode = .write)
    (done : b.waited t a o next attempt = some c) : Inv c := by
  have none : ∀ mode, ¬ b.Holds t a mode := fun mode has => unheld ((holds_here b t a mode o object).mp has).1
  have gains := gains_put b t a o object o next rfl held
  cases result : attempt with
  | busy =>
      rw [result, waited] at done
      cases done
  | deadlock =>
      rcases asked with ⟨reads, _⟩ | ⟨writes, _⟩
      · exact absurd (reads.symm.trans result) (rdlock_sound b.locks b.Holds inv.agrees t a (none .write)).1
      · exact absurd (writes.symm.trans result) (wrlock_sound b.locks b.Holds inv.agrees t a (none .write)).1
  | acquired lock =>
      rw [result, waited] at done
      cases done
      refine inv_put b inv t o next _ ?_ good
      rcases asked with ⟨reads, mode⟩ | ⟨writes, mode⟩
      · rw [mode] at gains
        exact agrees_rdlock b.locks b.Holds _ inv.agrees t a lock (none .read) gains (reads.symm.trans result)
      · rw [mode] at gains
        exact agrees_wrlock b.locks b.Holds _ inv.agrees t a lock gains (writes.symm.trans result)

theorem heldAt_rest (lockCount : Nat) (o : HashLock) : heldAt lockCount o .rest =
    if o.lock then (if o.batchLock then o.hashVec else [o.hash % lockCount]) else [] := rfl

theorem heldAt_returned (lockCount : Nat) (o : HashLock) (code : LockCode) (failSet : List Nat) : heldAt lockCount o (.returned code failSet) =
    if o.lock then (if o.batchLock then o.hashVec else [o.hash % lockCount]) else [] := rfl

-- Between two calls.
theorem heldAt_between (lockCount : Nat) (o : HashLock) (point : LockPoint) (rest : atRest point = true) : heldAt lockCount o point =
    if o.lock then (if o.batchLock then o.hashVec else [o.hash % lockCount]) else [] := by
  cases point with
  | rest => exact heldAt_rest lockCount o
  | returned code failSet => exact heldAt_returned lockCount o code failSet
  | _ => cases rest

-- An object that has not locked yet has its whole vector.
theorem good_unlocked (lockCount : Nat) (o : HashLock) (point : LockPoint) (good : Good lockCount o point) (rest : atRest point = true)
    (unlocked : o.lock = false) : o.batchLock = false ∧ ∀ h, h ∈ o.asked → h % lockCount ∈ o.hashVec := by
  cases point with
  | rest => exact ⟨good.knows.2, good.covers⟩
  | returned code failSet =>
      cases code with
      | ok => exact absurd (unlocked.symm.trans good.knows) Bool.false_ne_true
      | busy =>
          obtain ⟨_, single, empty⟩ := good.knows
          refine ⟨single, fun h asked => ?_⟩
          rcases good.covers h asked with there | failed
          · exact there
          · rw [empty] at failed
            exact (List.not_mem_nil failed).elim
  | _ => cases rest

theorem enter_good (lockCount : Nat) (o : HashLock) (point : LockPoint) (good : Good lockCount o point) (rest : atRest point = true)
    (unlocked : o.lock = false) (function : LockCall) (empty : ∀ failSet, function = .batchTryWriteLock failSet → failSet = []) :
    Good lockCount (enter o function).1 (enter o function).2 := by
  obtain ⟨single, covers⟩ := good_unlocked lockCount o point good rest unlocked
  cases function with
  | readLock => exact ⟨good.ascending, good.below, covers, rfl, single, rfl⟩
  | writeLock => exact ⟨good.ascending, good.below, covers, rfl, single, rfl⟩
  | tryWriteLock => exact ⟨good.ascending, good.below, covers, unlocked, single, rfl⟩
  | batchReadLock => exact ⟨good.ascending, good.below, covers, rfl, rfl, rfl⟩
  | batchWriteLock => exact ⟨good.ascending, good.below, covers, rfl, rfl, rfl⟩
  | batchTryWriteLock failSet =>
      rw [enter, if_pos (empty failSet rfl)]
      exact ⟨good.ascending, good.below, covers, rfl, rfl, rfl, List.nodup_nil, nofun⟩

theorem enter_held (lockCount : Nat) (o : HashLock) (function : LockCall) :
    heldAt lockCount (enter o function).1 (enter o function).2 = [] ∨ (enter o function).2 = .aborted := by
  cases function with
  | batchTryWriteLock failSet =>
      rw [enter]
      by_cases empty : failSet = []
      · rw [if_pos empty]
        exact .inl rfl
      · rw [if_neg empty]
        exact .inr rfl
  | _ => exact .inl rfl

theorem inv_construct (b c : HashBaseLock) (inv : Inv b) (t : Nat) (made : Made) (done : b.construct t made = some c) : Inv c := by
  rw [construct] at done
  split at done
  · rename_i blank
    cases done
    refine inv_put b inv t _ .rest b.locks ?_ (made_good b.lockCount inv.count made)
    refine agrees_congr b.locks b.Holds _ inv.agrees ?_
    intro u a mode
    by_cases same : u = t
    · subst same
      rw [holds_put]
      have nothing : heldAt b.lockCount (made.create b.lockCount) .rest = [] := by
        rw [heldAt_rest]
        cases made <;> rfl
      rw [nothing]
      exact ⟨fun held => (List.not_mem_nil held.1).elim, fun held => (holds_none b u a mode blank.2 held).elim⟩
    · exact holds_other b t u a mode _ _ same
  · cases done

theorem inv_call (b c : HashBaseLock) (inv : Inv b) (t : Nat) (function : LockCall) (fits : Fits b (.call t function))
    (done : b.call t function = some c) : Inv c := by
  rw [call] at done
  cases object : b.objects t with
  | none =>
      rw [object] at done
      cases done
  | some o =>
      rw [object] at done
      dsimp only at done
      have unlocked := fits.1 o object
      split at done
      · rename_i rest
        rw [if_neg (by rw [unlocked]; exact Bool.false_ne_true)] at done
        cases done
        have good := enter_good b.lockCount o _ (inv.good t o object) rest unlocked function fits.2
        have before : heldAt b.lockCount o (b.points t) = [] := by
          rw [heldAt_between b.lockCount o _ rest, unlocked]
          rfl
        have after : heldAt b.lockCount (enter o function).1 (enter o function).2 = [] := by
          rcases enter_held b.lockCount o function with nothing | aborted
          · exact nothing
          · have knows := good.knows
            rw [aborted] at knows
            exact knows.elim
        refine inv_same b inv t o object _ _ ?_ (.inr ?_) good
        · intro a
          rw [before, after]
        · intro a
          rw [before]
          exact List.not_mem_nil
      · cases done

theorem inv_destruct (b c : HashBaseLock) (inv : Inv b) (t : Nat) (done : b.destruct t = some c) : Inv c := by
  rw [destruct] at done
  cases object : b.objects t with
  | none =>
      rw [object] at done
      cases done
  | some o =>
      rw [object] at done
      dsimp only at done
      have good := inv.good t o object
      split at done
      · rename_i rest
        have before := heldAt_between b.lockCount o _ rest
        by_cases locked : o.lock = true
        · rw [if_pos locked] at done
          rw [if_pos locked] at before
          cases done
          refine inv_same b inv t o object _ _ ?_ (.inl rfl) ?_
          · intro a
            rw [before]
            by_cases batch : o.batchLock = true
            · rw [if_pos batch, if_pos batch, heldAt, List.take_length]
            · rw [if_neg batch, if_neg batch, heldAt]
          · by_cases batch : o.batchLock = true
            · rw [if_pos batch]
              exact ⟨good.ascending, good.below, trivial, Nat.le_refl _⟩
            · rw [if_neg batch]
              exact ⟨good.ascending, good.below, trivial, trivial⟩
        · rw [if_neg locked] at done before
          cases done
          refine inv_drop b inv t b.locks (agrees_congr b.locks b.Holds _ inv.agrees ?_)
          intro u a mode
          by_cases same : u = t
          · subst same
            rw [holds_here b u a mode o object, before]
            exact ⟨fun held => (holds_none _ u a mode (put_object b u _ _) held).elim, fun held => (List.not_mem_nil held.1).elim⟩
          · exact holds_other b t u a mode _ _ same
      · cases done

theorem kept_filter (hashVec failSet : List Nat) (distinct : failSet.Nodup) (part : ∀ a, a ∈ failSet → a ∈ hashVec) :
    kept hashVec failSet = hashVec.filter (fun a => decide (a ∉ failSet)) := by
  rw [kept]
  by_cases empty : failSet = []
  · rw [if_pos empty, empty]
    exact (List.filter_eq_self.mpr (fun a _ => decide_eq_true List.not_mem_nil)).symm
  · rw [if_neg empty]
    by_cases all : failSet.length = hashVec.length
    · rw [if_pos all]
      have same := (List.subperm_of_subset distinct part).perm_of_length_le (Nat.le_of_eq all.symm)
      refine (List.filter_eq_nil_iff.mpr ?_).symm
      intro a there
      rw [decide_eq_true_eq, not_not]
      exact same.mem_iff.mpr there
    · rw [if_neg all]

theorem inv_read_lock (b c : HashBaseLock) (inv : Inv b) (t : Nat) (o : HashLock) (object : b.objects t = some o)
    (point : b.points t = .readLock) (done : b.step t = some c) : Inv c := by
  have good := inv.good t o object
  rw [point] at good
  rw [step, object, point] at done
  have held : heldAt b.lockCount o (b.points t) = [] := by
    rw [point]
    rfl
  obtain ⟨locked, single, mode⟩ := good.knows
  refine inv_waited b c inv t _ o object _ (by rw [held]; exact List.not_mem_nil) ?_ ?_ _ (.inl ⟨rfl, mode⟩) done
  · intro a
    rw [held, heldAt_returned, if_pos locked, if_neg (by rw [single]; exact Bool.false_ne_true), List.mem_singleton]
    exact ⟨.inr, fun there => there.elim (fun nothing => (List.not_mem_nil nothing).elim) id⟩
  · exact ⟨good.ascending, good.below, fun h asked => .inl (good.covers h asked), locked⟩

theorem inv_write_lock (b c : HashBaseLock) (inv : Inv b) (t : Nat) (o : HashLock) (object : b.objects t = some o)
    (point : b.points t = .writeLock) (done : b.step t = some c) : Inv c := by
  have good := inv.good t o object
  rw [point] at good
  rw [step, object, point] at done
  have held : heldAt b.lockCount o (b.points t) = [] := by
    rw [point]
    rfl
  obtain ⟨locked, single, mode⟩ := good.knows
  refine inv_waited b c inv t _ o object _ (by rw [held]; exact List.not_mem_nil) ?_ ?_ _ (.inr ⟨rfl, mode⟩) done
  · intro a
    rw [held, heldAt_returned, if_pos locked, if_neg (by rw [single]; exact Bool.false_ne_true), List.mem_singleton]
    exact ⟨.inr, fun there => there.elim (fun nothing => (List.not_mem_nil nothing).elim) id⟩
  · exact ⟨good.ascending, good.below, fun h asked => .inl (good.covers h asked), locked⟩

theorem inv_try_write_lock (b c : HashBaseLock) (inv : Inv b) (t : Nat) (o : HashLock) (object : b.objects t = some o)
    (point : b.points t = .tryWriteLock) (done : b.step t = some c) : Inv c := by
  have good := inv.good t o object
  rw [point] at good
  rw [step, object, point] at done
  dsimp only at done
  have held : heldAt b.lockCount o (b.points t) = [] := by
    rw [point]
    rfl
  obtain ⟨unlocked, single, mode⟩ := good.knows
  have failed : Inv (b.put t (some o) (.returned .busy [])) := by
    refine inv_same b inv t o object o _ ?_ (.inl rfl) ⟨good.ascending, good.below, fun h asked => .inl (good.covers h asked), unlocked, single, rfl⟩
    intro a
    rw [held, heldAt_returned, if_neg (by rw [unlocked]; exact Bool.false_ne_true)]
  cases attempt : (b.locks (o.hash % b.lockCount)).wrlock t with
  | acquired lock =>
      rw [attempt] at done
      cases done
      refine inv_put b inv t _ _ _ ?_ ⟨good.ascending, good.below, fun h asked => .inl (good.covers h asked), rfl⟩
      have gains := gains_put b t (o.hash % b.lockCount) o object { o with lock := true } (.returned .ok []) rfl (by
        intro a
        rw [held, heldAt_returned, if_pos rfl, if_neg (by rw [single]; exact Bool.false_ne_true), List.mem_singleton]
        exact ⟨.inr, fun there => there.elim (fun nothing => (List.not_mem_nil nothing).elim) id⟩)
      exact agrees_wrlock b.locks b.Holds _ inv.agrees t _ lock (mode ▸ gains) attempt
  | busy =>
      rw [attempt] at done
      cases done
      exact failed
  | deadlock =>
      rw [attempt] at done
      cases done
      exact failed

theorem inv_batch_read_lock (b c : HashBaseLock) (inv : Inv b) (t i : Nat) (o : HashLock) (object : b.objects t = some o)
    (point : b.points t = .batchReadLock i) (done : b.step t = some c) : Inv c := by
  have good := inv.good t o object
  rw [point] at good
  rw [step, object, point] at done
  dsimp only at done
  have held : heldAt b.lockCount o (b.points t) = o.hashVec.take i := by
    rw [point]
    rfl
  obtain ⟨locked, batch, mode⟩ := good.knows
  cases here : o.hashVec[i]? with
  | none =>
      rw [here] at done
      cases done
      refine inv_same b inv t o object o _ ?_ (.inl rfl) ⟨good.ascending, good.below, fun h asked => .inl (good.covers h asked), locked⟩
      intro a
      rw [held, heldAt_returned, if_pos locked, if_pos batch, take_all _ i here]
  | some a =>
      rw [here] at done
      refine inv_waited b c inv t a o object (.batchReadLock (i + 1)) ?_ ?_ ⟨good.ascending, good.below, good.covers, locked, batch, mode⟩ _
        (.inl ⟨rfl, mode⟩) done
      · rw [held]
        exact take_fresh o.hashVec good.ascending i a here
      · intro c
        rw [held]
        exact take_gains o.hashVec i a here c

theorem inv_batch_write_lock (b c : HashBaseLock) (inv : Inv b) (t i : Nat) (o : HashLock) (object : b.objects t = some o)
    (point : b.points t = .batchWriteLock i) (done : b.step t = some c) : Inv c := by
  have good := inv.good t o object
  rw [point] at good
  rw [step, object, point] at done
  dsimp only at done
  have held : heldAt b.lockCount o (b.points t) = o.hashVec.take i := by
    rw [point]
    rfl
  obtain ⟨locked, batch, mode⟩ := good.knows
  cases here : o.hashVec[i]? with
  | none =>
      rw [here] at done
      cases done
      refine inv_same b inv t o object o _ ?_ (.inl rfl) ⟨good.ascending, good.below, fun h asked => .inl (good.covers h asked), locked⟩
      intro a
      rw [held, heldAt_returned, if_pos locked, if_pos batch, take_all _ i here]
  | some a =>
      rw [here] at done
      refine inv_waited b c inv t a o object (.batchWriteLock (i + 1)) ?_ ?_ ⟨good.ascending, good.below, good.covers, locked, batch, mode⟩ _
        (.inr ⟨rfl, mode⟩) done
      · rw [held]
        exact take_fresh o.hashVec good.ascending i a here
      · intro c
        rw [held]
        exact take_gains o.hashVec i a here c

theorem inv_batch_try_write_lock (b c : HashBaseLock) (inv : Inv b) (t i : Nat) (failSet : List Nat) (o : HashLock)
    (object : b.objects t = some o) (point : b.points t = .batchTryWriteLock i failSet) (done : b.step t = some c) : Inv c := by
  have good := inv.good t o object
  rw [point] at good
  rw [step, object, point] at done
  dsimp only at done
  have held : heldAt b.lockCount o (b.points t) = (o.hashVec.take i).filter (fun a => decide (a ∉ failSet)) := by
    rw [point]
    rfl
  obtain ⟨locked, batch, mode, distinct, part⟩ := good.knows
  cases here : o.hashVec[i]? with
  | none =>
      rw [here] at done
      cases done
      have all := take_all _ i here
      rw [all] at part held
      have filtered := kept_filter o.hashVec failSet distinct part
      refine inv_same b inv t o object _ _ ?_ (.inl rfl) ⟨?_, ?_, ?_, locked⟩
      · intro a
        rw [held, heldAt_returned, if_pos locked, if_pos batch, filtered]
      · rw [filtered]
        exact good.ascending.filter _
      · intro a
        rw [filtered]
        exact fun there => good.below a (List.mem_filter.mp there).1
      · intro h asked
        rw [filtered, List.mem_filter, decide_eq_true_eq]
        by_cases failed : h % b.lockCount ∈ failSet
        · exact .inr failed
        · exact .inl ⟨good.covers h asked, failed⟩
  | some a =>
      rw [here] at done
      dsimp only at done
      have fresh := take_fresh o.hashVec good.ascending i a here
      have gains := take_gains o.hashVec i a here
      have unfailed : a ∉ failSet := fun failed => fresh (part a failed)
      -- EBUSY and EDEADLK: the lock is left out.
      have failed : Inv (b.put t (some o) (.batchTryWriteLock (i + 1) (failSet.insert a))) := by
        refine inv_same b inv t o object o _ ?_ (.inl rfl) ⟨good.ascending, good.below, good.covers, locked, batch, mode, distinct.insert, ?_⟩
        · intro c
          rw [held, heldAt, List.mem_filter, List.mem_filter, decide_eq_true_eq, decide_eq_true_eq, gains c, List.mem_insert_iff]
          constructor
          · rintro ⟨there | same, other⟩
            · exact ⟨there, fun failed => other (.inr failed)⟩
            · exact absurd (.inl same) other
          · rintro ⟨there, other⟩
            refine ⟨.inl there, ?_⟩
            rintro (same | failed)
            · exact fresh (same ▸ there)
            · exact other failed
        · intro c there
          rw [gains c]
          rcases List.mem_insert_iff.mp there with same | failed
          · exact .inr same
          · exact .inl (part c failed)
      cases attempt : (b.locks a).wrlock t with
      | acquired lock =>
          rw [attempt] at done
          cases done
          refine inv_put b inv t o _ _ ?_ ⟨good.ascending, good.below, good.covers, locked, batch, mode, distinct, fun c failed => (gains c).mpr (.inl (part c failed))⟩
          have wins := gains_put b t a o object o (.batchTryWriteLock (i + 1) failSet) rfl (by
            intro c
            rw [held, heldAt, List.mem_filter, List.mem_filter, decide_eq_true_eq, gains c]
            constructor
            · rintro ⟨there | same, other⟩
              · exact .inl ⟨there, other⟩
              · exact .inr same
            · rintro (⟨there, other⟩ | same)
              · exact ⟨.inl there, other⟩
              · exact ⟨.inr same, same ▸ unfailed⟩)
          rw [mode] at wins
          exact agrees_wrlock b.locks b.Holds _ inv.agrees t a lock wins attempt
      | busy =>
          rw [attempt] at done
          cases done
          exact failed
      | deadlock =>
          rw [attempt] at done
          cases done
          exact failed

theorem inv_unlock (b c : HashBaseLock) (inv : Inv b) (t : Nat) (o : HashLock) (object : b.objects t = some o)
    (point : b.points t = .unLock) (done : b.step t = some c) : Inv c := by
  rw [step, object, point] at done
  dsimp only at done
  have held : heldAt b.lockCount o (b.points t) = [o.hash % b.lockCount] := by
    rw [point]
    rfl
  have has : b.Holds t (o.hash % b.lockCount) o.mode := by
    rw [holds_here b t _ _ o object, held]
    exact ⟨List.mem_singleton_self _, rfl⟩
  obtain ⟨lock, given⟩ := unlock_some b.locks b.Holds inv.agrees t _ _ has
  rw [given] at done
  cases done
  exact inv_drop b inv t _ (agrees_unlock b.locks b.Holds _ inv.agrees t _ lock (loses_drop b t _ o object held) given)

theorem inv_batch_unlock (b c : HashBaseLock) (inv : Inv b) (t i : Nat) (o : HashLock) (object : b.objects t = some o)
    (point : b.points t = .batchUnLock i) (done : b.step t = some c) : Inv c := by
  have good := inv.good t o object
  rw [point] at good
  have held : heldAt b.lockCount o (b.points t) = o.hashVec.take i := by
    rw [point]
    rfl
  rw [step, object, point] at done
  dsimp only at done
  cases i with
  | zero =>
      cases done
      refine inv_drop b inv t b.locks (agrees_congr b.locks b.Holds _ inv.agrees ?_)
      intro u a mode
      by_cases same : u = t
      · subst same
        rw [holds_here b u a mode o object, held, List.take_zero]
        exact ⟨fun now => (holds_none _ u a mode (put_object b u _ _) now).elim, fun now => (List.not_mem_nil now.1).elim⟩
      · exact holds_other b t u a mode _ _ same
  | succ i =>
      have inside : i < o.hashVec.length := good.knows
      have here : o.hashVec[i]? = some o.hashVec[i] := List.getElem?_eq_getElem inside
      have gains := take_gains o.hashVec i _ here
      have fresh := take_fresh o.hashVec good.ascending i _ here
      have has : b.Holds t o.hashVec[i] o.mode := by
        rw [holds_here b t _ _ o object, held, gains]
        exact ⟨.inr rfl, rfl⟩
      obtain ⟨lock, given⟩ := unlock_some b.locks b.Holds inv.agrees t _ _ has
      dsimp only at done
      rw [here] at done
      dsimp only at done
      rw [given] at done
      cases done
      have loses := loses_put b t o.hashVec[i] o object o (.batchUnLock i) rfl (by
        intro c
        rw [held, heldAt, gains c]
        constructor
        · intro there
          exact ⟨.inl there, fun same => fresh (same ▸ there)⟩
        · rintro ⟨there | same, other⟩
          · exact there
          · exact absurd same other)
      exact inv_put b inv t o _ _ (agrees_unlock b.locks b.Holds _ inv.agrees t _ lock loses given)
        ⟨good.ascending, good.below, trivial, Nat.le_of_lt inside⟩

theorem inv_step (b c : HashBaseLock) (inv : Inv b) (t : Nat) (done : b.step t = some c) : Inv c := by
  cases object : b.objects t with
  | none =>
      rw [step, object] at done
      cases done
  | some o =>
      cases point : b.points t with
      | readLock => exact inv_read_lock b c inv t o object point done
      | writeLock => exact inv_write_lock b c inv t o object point done
      | tryWriteLock => exact inv_try_write_lock b c inv t o object point done
      | batchReadLock i => exact inv_batch_read_lock b c inv t i o object point done
      | batchWriteLock i => exact inv_batch_write_lock b c inv t i o object point done
      | batchTryWriteLock i failSet => exact inv_batch_try_write_lock b c inv t i failSet o object point done
      | unLock => exact inv_unlock b c inv t o object point done
      | batchUnLock i => exact inv_batch_unlock b c inv t i o object point done
      | _ =>
          rw [step, object, point] at done
          cases done

theorem inv_init (lockCount : Nat) (count : 0 < lockCount) : Inv (init lockCount) where
  count := count
  agrees := agrees_congr _ _ _ agrees_free (fun t a mode => ⟨holds_none _ t a mode rfl, False.elim⟩)
  good := nofun
  gone := fun _ _ => rfl

theorem reached_inv (lockCount : Nat) (count : 0 < lockCount) (b : HashBaseLock) (reached : Reached lockCount b) : Inv b := by
  induction reached with
  | start => exact inv_init lockCount count
  | act b c action _ fits done ih =>
      cases action with
      | construct t made => exact inv_construct b c ih t made done
      | call t function => exact inv_call b c ih t function fits done
      | step t => exact inv_step b c ih t done
      | destruct t => exact inv_destruct b c ih t done

-- The keys a thread guards once its lock call has returned: those of its set that were not
-- reported as failed, or its one hash.
def Guards (b : HashBaseLock) (t h : Nat) (mode : Mode) : Prop :=
  ∃ o failSet, b.objects t = some o ∧ b.points t = .returned .ok failSet ∧ o.mode = mode ∧
    if o.batchLock then h ∈ o.asked ∧ h % b.lockCount ∉ failSet else h = o.hash

theorem guards_holds (b : HashBaseLock) (inv : Inv b) (t h : Nat) (mode : Mode) (guards : Guards b t h mode) :
    b.Holds t (h % b.lockCount) mode := by
  obtain ⟨o, failSet, object, point, asked, key⟩ := guards
  have good := inv.good t o object
  rw [point] at good
  have locked : o.lock = true := good.knows
  rw [holds_here b t _ mode o object, point, heldAt_returned, if_pos locked]
  refine ⟨?_, asked⟩
  by_cases batch : o.batchLock = true
  · rw [if_pos batch] at key
    rw [if_pos batch]
    exact (good.covers h key.1).resolve_right key.2
  · rw [if_neg batch] at key
    rw [if_neg batch, key]
    exact List.mem_singleton_self _

theorem held_at_below (lockCount : Nat) (count : 0 < lockCount) (o : HashLock) (below : ∀ a, a ∈ o.hashVec → a < lockCount)
    (point : LockPoint) (a : Nat) (there : a ∈ heldAt lockCount o point) : a < lockCount := by
  have one : o.hash % lockCount < lockCount := Nat.mod_lt _ count
  have between : a ∈ (if o.lock then (if o.batchLock then o.hashVec else [o.hash % lockCount]) else []) → a < lockCount := by
    intro listed
    split at listed
    · split at listed
      · exact below a listed
      · exact List.mem_singleton.mp listed ▸ one
    · exact (List.not_mem_nil listed).elim
  cases point with
  | readLock => exact (List.not_mem_nil there).elim
  | writeLock => exact (List.not_mem_nil there).elim
  | tryWriteLock => exact (List.not_mem_nil there).elim
  | batchReadLock i => exact below a (List.mem_of_mem_take there)
  | batchWriteLock i => exact below a (List.mem_of_mem_take there)
  | batchTryWriteLock i failSet => exact below a (List.mem_of_mem_take (List.mem_filter.mp there).1)
  | unLock => exact List.mem_singleton.mp there ▸ one
  | batchUnLock i => exact below a (List.mem_of_mem_take there)
  | rest => exact between there
  | returned code failSet => exact between there
  | aborted => exact between there

theorem held_below (b : HashBaseLock) (inv : Inv b) (t a : Nat) (mode : Mode) (held : b.Holds t a mode) : a < b.lockCount := by
  obtain ⟨o, object, there, _⟩ := held
  exact held_at_below b.lockCount inv.count o (inv.good t o object).below _ a there

-- Keys of one lock are guarded by one writer or by readers only, and nothing is left locked.
structure Sound (b : HashBaseLock) : Prop where
  asserted : ∀ t, b.points t ≠ .aborted
  apart : ∀ t u h k mode, Guards b t h .write → Guards b u k mode → h % b.lockCount = k % b.lockCount → u = t
  released : ∀ t, b.objects t = none → ∀ a, (b.locks a).writer ≠ some t ∧ t ∉ (b.locks a).readers
  inside : ∀ a, b.lockCount ≤ a → (b.locks a).writer = none ∧ (b.locks a).readers = []

theorem waited_busy (b : HashBaseLock) (t a : Nat) (o : HashLock) (next : LockPoint) (attempt : Attempt Nat)
    (stuck : b.waited t a o next attempt = none) : attempt = .busy := by
  cases attempt with
  | busy => rfl
  | _ => cases stuck

-- A thread that cannot go on waits for a lock that somebody has, and has smaller ones only.
theorem blocked_waits (b : HashBaseLock) (inv : Inv b) (t : Nat) (inside : atRest (b.points t) = false) (stuck : b.step t = none) :
    ∃ a, (∃ u mode, b.Holds u a mode) ∧ ∀ c mode, b.Holds t c mode → c < a := by
  cases object : b.objects t with
  | none =>
      rw [inv.gone t object] at inside
      cases inside
  | some o =>
      have good := inv.good t o object
      have held : ∀ c mode, b.Holds t c mode → c ∈ heldAt b.lockCount o (b.points t) :=
        fun c mode has => ((holds_here b t c mode o object).mp has).1
      have reads : ∀ a, (a ∉ heldAt b.lockCount o (b.points t)) → (b.locks a).rdlock t = .busy → ∃ u mode, b.Holds u a mode :=
        fun a unheld => (rdlock_sound b.locks b.Holds inv.agrees t a (fun has => unheld (held a .write has))).2
      have writes : ∀ a, (a ∉ heldAt b.lockCount o (b.points t)) → (b.locks a).wrlock t = .busy → ∃ u mode, b.Holds u a mode :=
        fun a unheld => (wrlock_sound b.locks b.Holds inv.agrees t a (fun has => unheld (held a .write has))).2
      rw [step, object] at stuck
      cases point : b.points t with
      | readLock =>
          rw [point] at stuck held reads
          exact ⟨_, reads _ List.not_mem_nil (waited_busy b t _ o _ _ stuck), fun c mode has => (List.not_mem_nil (held c mode has)).elim⟩
      | writeLock =>
          rw [point] at stuck held writes
          exact ⟨_, writes _ List.not_mem_nil (waited_busy b t _ o _ _ stuck), fun c mode has => (List.not_mem_nil (held c mode has)).elim⟩
      | batchReadLock i =>
          rw [point] at stuck held reads
          dsimp only at stuck
          cases here : o.hashVec[i]? with
          | none =>
              rw [here] at stuck
              cases stuck
          | some a =>
              rw [here] at stuck
              exact ⟨a, reads a (take_fresh o.hashVec good.ascending i a here) (waited_busy b t a o _ _ stuck),
                fun c mode has => take_below o.hashVec good.ascending i a c here (held c mode has)⟩
      | batchWriteLock i =>
          rw [point] at stuck held writes
          dsimp only at stuck
          cases here : o.hashVec[i]? with
          | none =>
              rw [here] at stuck
              cases stuck
          | some a =>
              rw [here] at stuck
              exact ⟨a, writes a (take_fresh o.hashVec good.ascending i a here) (waited_busy b t a o _ _ stuck),
                fun c mode has => take_below o.hashVec good.ascending i a c here (held c mode has)⟩
      | rest =>
          rw [point] at inside
          cases inside
      | returned code failSet =>
          rw [point] at inside
          cases inside
      | aborted =>
          have knows := good.knows
          rw [point] at knows
          exact knows.elim
      | tryWriteLock =>
          rw [point] at stuck
          dsimp only at stuck
          split at stuck <;> cases stuck
      | unLock =>
          rw [point] at stuck
          dsimp only at stuck
          split at stuck <;> cases stuck
      | batchTryWriteLock i failSet =>
          rw [point] at stuck
          dsimp only at stuck
          split at stuck
          · cases stuck
          · split at stuck <;> cases stuck
      | batchUnLock i =>
          rw [point] at stuck
          cases i with
          | zero => cases stuck
          | succ i =>
              dsimp only at stuck
              split at stuck
              · cases stuck
              · split at stuck <;> cases stuck

theorem destruct_ready (b : HashBaseLock) (t : Nat) (o : HashLock) (object : b.objects t = some o) (rest : atRest (b.points t) = true) :
    b.destruct t ≠ none := by
  rw [destruct, object]
  dsimp only
  rw [if_pos rest]
  split <;> exact Option.some_ne_none _

-- Where a thread cannot go on, another one has a lock and can: within its call, or by giving
-- up its object.
theorem no_deadlock (lockCount : Nat) (count : 0 < lockCount) (b : HashBaseLock) (reached : Reached lockCount b) (t : Nat)
    (inside : atRest (b.points t) = false) (stuck : b.step t = none) :
    ∃ u a mode, b.Holds u a mode ∧ (b.step u ≠ none ∨ b.destruct u ≠ none) := by
  have inv := reached_inv lockCount count b reached
  have waits : ∀ u, atRest (b.points u) = false → b.step u = none →
      ∃ a : Fin b.lockCount, (∃ v mode, b.Holds v a mode) ∧ ∀ c mode, b.Holds u c mode → c < a := by
    intro u within stays
    obtain ⟨a, ⟨v, mode, held⟩, above⟩ := blocked_waits b inv u within stays
    exact ⟨⟨a, held_below b inv v a mode held⟩, ⟨v, mode, held⟩, above⟩
  obtain ⟨a, taken, above⟩ := waits t inside stuck
  obtain ⟨u, c, _, ⟨mode, held⟩, runs⟩ := holder_runs
    (fun u (a : Fin b.lockCount) => (atRest (b.points u) = false ∧ b.step u = none) ∧
      (∃ v mode, b.Holds v a mode) ∧ ∀ c mode, b.Holds u c mode → c < a)
    (fun u a => ∃ mode, b.Holds u a mode) (fun u a waiting => waiting.2.1)
    (fun u a c waiting held => held.elim (fun mode held => waiting.2.2 c mode held)) t a ⟨⟨inside, stuck⟩, taken, above⟩
  refine ⟨u, c, mode, held, ?_⟩
  by_cases stays : b.step u = none
  · right
    cases rest : atRest (b.points u) with
    | false =>
        obtain ⟨a, taken, above⟩ := waits u rest stays
        exact absurd ⟨⟨rest, stays⟩, taken, above⟩ (runs a)
    | true =>
        obtain ⟨o, object, _⟩ := held
        exact destruct_ready b u o object rest
  · exact .inl stays

theorem no_deadlock_contended : ∃ b, Reached 4 b ∧ b.step 1 = none ∧ ∃ u a mode, b.Holds u a mode ∧ (b.step u ≠ none ∨ b.destruct u ≠ none) := by
  have made : Reached 4 _ := .act _ _ (.construct 0 (.batch [1, 2, 5] 9)) .start trivial rfl
  have called : Reached 4 _ := .act _ _ (.call 0 .batchWriteLock) made ⟨fun o there => by cases there; rfl, nofun⟩ rfl
  have first : Reached 4 _ := .act _ _ (.step 0) called trivial rfl
  have single : Reached 4 _ := .act _ _ (.construct 1 (.single 5)) first trivial rfl
  have waits : Reached 4 _ := .act _ _ (.call 1 .readLock) single ⟨fun o there => by cases there; rfl, nofun⟩ rfl
  exact ⟨_, waits, rfl, no_deadlock 4 (by decide) _ waits 1 rfl rfl⟩

end HashBaseLock

end PaxosStore.DbComm
