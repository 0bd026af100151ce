import Mathlib.Logic.Function.Basic
import Mathlib.Data.Fintype.Order
import Mathlib.Data.List.Nodup

set_option autoImplicit false

namespace PaxosStore.Locks

inductive Mode where
  | read
  | write
deriving DecidableEq, Repr

-- A lock of many readers or one writer that prefers readers, as POSIX describes it.
structure RwLock (Thread : Type) where
  writer : Option Thread
  readers : List Thread
deriving DecidableEq, Repr

inductive Attempt (Thread : Type) where
  | acquired (lock : RwLock Thread)
  | busy
  | deadlock
deriving DecidableEq, Repr

section Operations

variable {Thread : Type} [DecidableEq Thread]

def RwLock.free : RwLock Thread := ⟨none, []⟩

def RwLock.rdlock (lock : RwLock Thread) (t : Thread) : Attempt Thread :=
  match lock.writer with
  | none => .acquired ⟨none, t :: lock.readers⟩
  | some u => if u = t then .deadlock else .busy

def RwLock.wrlock (lock : RwLock Thread) (t : Thread) : Attempt Thread :=
  match lock.writer with
  | none => if lock.readers = [] then .acquired ⟨some t, []⟩ else .busy
  | some u => if u = t then .deadlock else .busy

def RwLock.unlock (lock : RwLock Thread) (t : Thread) : Option (RwLock Thread) :=
  if lock.writer = some t then some ⟨none, lock.readers⟩
  else if t ∈ lock.readers then some ⟨lock.writer, lock.readers.erase t⟩
  else none

end Operations

section Tables

variable {Thread Lock : Type}

-- A table of locks says who holds what.
structure Agrees (locks : Lock → RwLock Thread) (holds : Thread → Lock → Mode → Prop) : Prop where
  writer : ∀ a t, (locks a).writer = some t ↔ holds t a .write
  reader : ∀ a t, t ∈ (locks a).readers ↔ holds t a .read
  once : ∀ a, (locks a).readers.Nodup
  apart : ∀ a, (locks a).writer ≠ none → (locks a).readers = []

theorem agrees_free : Agrees (fun _ : Lock => (RwLock.free : RwLock Thread)) (fun _ _ _ => False) where
  writer := fun _ _ => ⟨fun same => (Option.some_ne_none _ same.symm).elim, False.elim⟩
  reader := fun _ _ => ⟨fun there => (List.not_mem_nil there).elim, False.elim⟩
  once := fun _ => List.nodup_nil
  apart := fun _ _ => rfl

theorem agrees_congr (locks : Lock → RwLock Thread) (holds new : Thread → Lock → Mode → Prop) (agrees : Agrees locks holds)
    (same : ∀ t a mode, new t a mode ↔ holds t a mode) : Agrees locks new where
  writer := fun a t => (agrees.writer a t).trans (same t a .write).symm
  reader := fun a t => (agrees.reader a t).trans (same t a .read).symm
  once := agrees.once
  apart := agrees.apart

-- A writer has the lock to itself.
theorem agrees_exclusive (locks : Lock → RwLock Thread) (holds : Thread → Lock → Mode → Prop) (agrees : Agrees locks holds)
    (t u : Thread) (a : Lock) (mode : Mode) (writes : holds t a .write) (other : holds u a mode) : u = t ∧ mode = .write := by
  have writer := (agrees.writer a t).mpr writes
  cases mode with
  | read =>
      have there := (agrees.reader a u).mpr other
      rw [agrees.apart a (by rw [writer]; exact Option.some_ne_none t)] at there
      exact (List.not_mem_nil there).elim
  | write =>
      have second := (agrees.writer a u).mpr other
      rw [writer] at second
      exact ⟨(Option.some.inj second).symm, rfl⟩

-- `new` is `holds` with one more lock for one thread.
def Gains (holds new : Thread → Lock → Mode → Prop) (t : Thread) (a : Lock) (gained : Mode) : Prop :=
  ∀ u b mode, new u b mode ↔ holds u b mode ∨ u = t ∧ b = a ∧ mode = gained

def Loses (holds new : Thread → Lock → Mode → Prop) (t : Thread) (a : Lock) : Prop :=
  ∀ u b mode, new u b mode ↔ holds u b mode ∧ ¬ (u = t ∧ b = a)

theorem gains_elsewhere (holds new : Thread → Lock → Mode → Prop) (t : Thread) (a : Lock) (gained : Mode)
    (gains : Gains holds new t a gained) (u : Thread) (b : Lock) (mode : Mode) (differ : b ≠ a) : new u b mode ↔ holds u b mode := by
  rw [gains u b mode]
  exact ⟨fun now => now.elim id (fun here => absurd here.2.1 differ), .inl⟩

theorem loses_elsewhere (holds new : Thread → Lock → Mode → Prop) (t : Thread) (a : Lock)
    (loses : Loses holds new t a) (u : Thread) (b : Lock) (mode : Mode) (differ : b ≠ a) : new u b mode ↔ holds u b mode := by
  rw [loses u b mode]
  exact ⟨And.left, fun held => ⟨held, fun here => differ here.2⟩⟩

section Attempts

variable [DecidableEq Thread]

-- A thread that has the lock can give it back.
theorem unlock_some (locks : Lock → RwLock Thread) (holds : Thread → Lock → Mode → Prop) (agrees : Agrees locks holds)
    (t : Thread) (a : Lock) (mode : Mode) (held : holds t a mode) : ∃ lock, (locks a).unlock t = some lock := by
  rw [RwLock.unlock]
  cases mode with
  | write => exact ⟨_, if_pos ((agrees.writer a t).mpr held)⟩
  | read =>
      by_cases writes : (locks a).writer = some t
      · exact ⟨_, if_pos writes⟩
      · rw [if_neg writes]
        exact ⟨_, if_pos ((agrees.reader a t).mpr held)⟩

theorem rdlock_sound (locks : Lock → RwLock Thread) (holds : Thread → Lock → Mode → Prop) (agrees : Agrees locks holds)
    (t : Thread) (a : Lock) (unheld : ¬ holds t a .write) :
    (locks a).rdlock t ≠ .deadlock ∧ ((locks a).rdlock t = .busy → ∃ u mode, holds u a mode) := by
  rw [RwLock.rdlock]
  cases held : (locks a).writer with
  | none => exact ⟨nofun, nofun⟩
  | some u =>
      have writes := (agrees.writer a u).mp held
      have differ : u ≠ t := fun same => unheld (same ▸ writes)
      dsimp only
      rw [if_neg differ]
      exact ⟨nofun, fun _ => ⟨u, .write, writes⟩⟩

theorem wrlock_sound (locks : Lock → RwLock Thread) (holds : Thread → Lock → Mode → Prop) (agrees : Agrees locks holds)
    (t : Thread) (a : Lock) (unheld : ¬ holds t a .write) :
    (locks a).wrlock t ≠ .deadlock ∧ ((locks a).wrlock t = .busy → ∃ u mode, holds u a mode) := by
  rw [RwLock.wrlock]
  cases held : (locks a).writer with
  | some u =>
      have writes := (agrees.writer a u).mp held
      have differ : u ≠ t := fun same => unheld (same ▸ writes)
      dsimp only
      rw [if_neg differ]
      exact ⟨nofun, fun _ => ⟨u, .write, writes⟩⟩
  | none =>
      dsimp only
      split
      · exact ⟨nofun, nofun⟩
      · rename_i some
        obtain ⟨u, there⟩ := List.exists_mem_of_ne_nil _ some
        exact ⟨nofun, fun _ => ⟨u, .read, (agrees.reader a u).mp there⟩⟩

end Attempts

section Updates

variable [DecidableEq Lock]

-- Replacing one lock by one that says the same of it as the new holders do.
theorem agrees_update (locks : Lock → RwLock Thread) (holds new : Thread → Lock → Mode → Prop) (agrees : Agrees locks holds)
    (a : Lock) (lock : RwLock Thread) (others : ∀ u b mode, b ≠ a → (new u b mode ↔ holds u b mode))
    (writer : ∀ u, lock.writer = some u ↔ new u a .write) (reader : ∀ u, u ∈ lock.readers ↔ new u a .read)
    (once : lock.readers.Nodup) (apart : lock.writer ≠ none → lock.readers = []) :
    Agrees (Function.update locks a lock) new where
  writer := by
    intro b u
    by_cases same : b = a
    · subst same
      rw [Function.update_self]
      exact writer u
    · rw [Function.update_of_ne same]
      exact (agrees.writer b u).trans (others u b .write same).symm
  reader := by
    intro b u
    by_cases same : b = a
    · subst same
      rw [Function.update_self]
      exact reader u
    · rw [Function.update_of_ne same]
      exact (agrees.reader b u).trans (others u b .read same).symm
  once := by
    intro b
    by_cases same : b = a
    · subst same
      rw [Function.update_self]
      exact once
    · rw [Function.update_of_ne same]
      exact agrees.once b
  apart := by
    intro b
    by_cases same : b = a
    · subst same
      rw [Function.update_self]
      exact apart
    · rw [Function.update_of_ne same]
      exact agrees.apart b

variable [DecidableEq Thread]

theorem agrees_rdlock (locks : Lock → RwLock Thread) (holds new : Thread → Lock → Mode → Prop) (agrees : Agrees locks holds)
    (t : Thread) (a : Lock) (lock : RwLock Thread) (unheld : ¬ holds t a .read) (gains : Gains holds new t a .read)
    (done : (locks a).rdlock t = .acquired lock) : Agrees (Function.update locks a lock) new := by
  rw [RwLock.rdlock] at done
  cases held : (locks a).writer with
  | some u =>
      rw [held] at done
      dsimp only at done
      split at done <;> cases done
  | none =>
      rw [held] at done
      cases done
      refine agrees_update locks holds new agrees a _ (fun u b mode differ => gains_elsewhere holds new t a .read gains u b mode differ) ?_ ?_ ?_ ?_
      · intro u
        have writer := agrees.writer a u
        rw [held] at writer
        rw [gains u a .write]
        refine writer.trans ⟨.inl, ?_⟩
        rintro (writes | ⟨_, _, mode⟩)
        · exact writes
        · cases mode
      · intro u
        rw [gains u a .read, List.mem_cons, agrees.reader a u]
        constructor
        · rintro (same | there)
          · exact .inr ⟨same, rfl, rfl⟩
          · exact .inl there
        · rintro (there | ⟨same, _, _⟩)
          · exact .inr there
          · exact .inl same
      · exact List.nodup_cons.mpr ⟨fun there => unheld ((agrees.reader a t).mp there), agrees.once a⟩
      · intro some
        exact absurd rfl some

theorem agrees_wrlock (locks : Lock → RwLock Thread) (holds new : Thread → Lock → Mode → Prop) (agrees : Agrees locks holds)
    (t : Thread) (a : Lock) (lock : RwLock Thread) (gains : Gains holds new t a .write)
    (done : (locks a).wrlock t = .acquired lock) : Agrees (Function.update locks a lock) new := by
  rw [RwLock.wrlock] at done
  cases held : (locks a).writer with
  | some u =>
      rw [held] at done
      dsimp only at done
      split at done <;> cases done
  | none =>
      rw [held] at done
      dsimp only at done
      by_cases empty : (locks a).readers = []
      · rw [if_pos empty] at done
        cases done
        refine agrees_update locks holds new agrees a _ (fun u b mode differ => gains_elsewhere holds new t a .write gains u b mode differ) ?_ ?_ ?_ ?_
        · intro u
          have none_writes : ¬ holds u a .write := by
            intro writes
            have writer := (agrees.writer a u).mpr writes
            rw [held] at writer
            cases writer
          rw [gains u a .write]
          constructor
          · intro same
            exact .inr ⟨(Option.some.inj same).symm, rfl, rfl⟩
          · rintro (writes | ⟨same, _, _⟩)
            · exact absurd writes none_writes
            · rw [same]
        · intro u
          have none_reads : ¬ holds u a .read := by
            intro reads
            have there := (agrees.reader a u).mpr reads
            rw [empty] at there
            exact List.not_mem_nil there
          rw [gains u a .read]
          constructor
          · intro there
            exact (List.not_mem_nil there).elim
          · rintro (reads | ⟨_, _, mode⟩)
            · exact absurd reads none_reads
            · cases mode
        · exact List.nodup_nil
        · intro _
          rfl
      · rw [if_neg empty] at done
        cases done

theorem agrees_unlock (locks : Lock → RwLock Thread) (holds new : Thread → Lock → Mode → Prop) (agrees : Agrees locks holds)
    (t : Thread) (a : Lock) (lock : RwLock Thread) (loses : Loses holds new t a)
    (done : (locks a).unlock t = some lock) : Agrees (Function.update locks a lock) new := by
  have others := fun u b mode differ => loses_elsewhere holds new t a loses u b mode differ
  rw [RwLock.unlock] at done
  by_cases writes : (locks a).writer = some t
  · rw [if_pos writes] at done
    cases done
    have empty := agrees.apart a (by rw [writes]; exact Option.some_ne_none t)
    refine agrees_update locks holds new agrees a _ others ?_ ?_ (agrees.once a) (fun some => absurd rfl some)
    · intro u
      rw [loses u a .write, ← agrees.writer a u, writes]
      constructor
      · intro same
        cases same
      · intro both
        exact absurd ⟨(Option.some.inj both.1).symm, rfl⟩ both.2
    · intro u
      rw [loses u a .read, ← agrees.reader a u]
      dsimp only
      rw [empty]
      exact ⟨fun there => (List.not_mem_nil there).elim, And.left⟩
  · rw [if_neg writes] at done
    by_cases reads : t ∈ (locks a).readers
    · rw [if_pos reads] at done
      cases done
      have alone : (locks a).writer = none := by
        by_contra some
        rw [agrees.apart a some] at reads
        exact List.not_mem_nil reads
      refine agrees_update locks holds new agrees a _ others ?_ ?_ ((agrees.once a).erase t) (fun some => absurd alone some)
      · intro u
        rw [loses u a .write, ← agrees.writer a u, alone]
        exact ⟨fun same => (Option.some_ne_none u same.symm).elim, And.left⟩
      · intro u
        rw [loses u a .read, ← agrees.reader a u, (agrees.once a).mem_erase_iff]
        constructor
        · intro both
          exact ⟨both.2, fun here => both.1 here.1⟩
        · intro both
          exact ⟨fun same => both.2 ⟨same, rfl⟩, both.1⟩
    · rw [if_neg reads] at done
      cases done

end Updates

end Tables

section Order

variable {Thread Lock : Type} [Preorder Lock] [WellFoundedGT Lock]

-- Where every thread takes its locks in ascending order, the wait for a lock ends in a
-- thread that holds one and waits for none.
theorem holder_runs (waits holds : Thread → Lock → Prop) (taken : ∀ t a, waits t a → ∃ u, holds u a)
    (ascending : ∀ t a b, waits t a → holds t b → b < a) (t : Thread) (a : Lock) (waiting : waits t a) :
    ∃ u b, a ≤ b ∧ holds u b ∧ ∀ c, ¬ waits u c := by
  induction a using WellFoundedGT.induction generalizing t with
  | _ a ih =>
      obtain ⟨u, held⟩ := taken t a waiting
      by_cases stuck : ∃ c, waits u c
      · obtain ⟨c, waits_too⟩ := stuck
        have above := ascending u c a waits_too held
        obtain ⟨v, b, least, holds_it, runs⟩ := ih c above u waits_too
        exact ⟨v, b, above.le.trans least, holds_it, runs⟩
      · exact ⟨u, a, le_refl a, held, fun c waits_too => stuck ⟨c, waits_too⟩⟩

end Order

end PaxosStore.Locks
