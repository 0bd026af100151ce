import PaxosStore.Codec.Bytes

set_option autoImplicit false

namespace PaxosStore.Codec

variable {M : Type}

-- What stands at the front of a buffer: not yet a whole frame, nothing that may stand
-- there, or a message of a frame of some bytes.
inductive Cut (M : Type) where
  | more
  | bad
  | one (msg : M) (size : Nat)

-- The bytes that follow a frame have no say in it.
structure Steady (cut : Bytes → Cut M) : Prop where
  one : ∀ buf later msg size, cut buf = .one msg size → 0 < size ∧ size ≤ buf.length ∧ cut (buf ++ later) = .one msg size
  bad : ∀ buf later, cut buf = .bad → cut (buf ++ later) = .bad

-- The messages at the front of a buffer, and the rest from which no further one is cut.
inductive Framed (cut : Bytes → Cut M) : Bytes → List M → Bytes → Prop where
  | stop (buf : Bytes) (no : ∀ msg size, cut buf ≠ .one msg size) : Framed cut buf [] buf
  | next (buf : Bytes) (msg : M) (size : Nat) (msgs : List M) (rest : Bytes) (first : cut buf = .one msg size)
      (later : Framed cut (buf.drop size) msgs rest) : Framed cut buf (msg :: msgs) rest

theorem framed_total (cut : Bytes → Cut M) (steady : Steady cut) (count : Nat) (buf : Bytes) (short : buf.length ≤ count) :
    ∃ msgs rest, Framed cut buf msgs rest := by
  induction count generalizing buf with
  | zero =>
      refine ⟨[], buf, .stop buf fun msg size first => ?_⟩
      obtain ⟨positive, inside, -⟩ := steady.one buf [] msg size first
      omega
  | succ count ih =>
      by_cases first : ∃ msg size, cut buf = .one msg size
      · obtain ⟨msg, size, first⟩ := first
        obtain ⟨positive, inside, -⟩ := steady.one buf [] msg size first
        obtain ⟨msgs, rest, later⟩ := ih (buf.drop size) (by rw [List.length_drop]; omega)
        exact ⟨msg :: msgs, rest, .next buf msg size msgs rest first later⟩
      · exact ⟨[], buf, .stop buf fun msg size found => first ⟨msg, size, found⟩⟩

theorem framed_unique (cut : Bytes → Cut M) (buf : Bytes) (msgs others : List M) (rest remains : Bytes)
    (framed : Framed cut buf msgs rest) (again : Framed cut buf others remains) : msgs = others ∧ rest = remains := by
  induction framed generalizing others with
  | stop buf no =>
      cases again with
      | stop _ _ => exact ⟨rfl, rfl⟩
      | next _ msg size _ _ first _ => exact absurd first (no msg size)
  | next buf msg size msgs rest first _ ih =>
      cases again with
      | stop _ no => exact absurd first (no msg size)
      | next _ other width later _ second after =>
          obtain ⟨rfl, rfl⟩ := Cut.one.inj (first.symm.trans second)
          obtain ⟨rfl, rfl⟩ := ih later after
          exact ⟨rfl, rfl⟩

theorem framed_rest (cut : Bytes → Cut M) (buf : Bytes) (msgs : List M) (rest : Bytes) (framed : Framed cut buf msgs rest) :
    (∀ msg size, cut rest ≠ .one msg size) ∧ ∃ front, buf = front ++ rest := by
  induction framed with
  | stop buf no => exact ⟨no, [], rfl⟩
  | next buf msg size msgs rest _ _ ih =>
      obtain ⟨no, front, whole⟩ := ih
      exact ⟨no, buf.take size ++ front, by rw [List.append_assoc, ← whole, List.take_append_drop]⟩

-- The frames do not depend on where a stream is cut into buffers.
theorem framed_append (cut : Bytes → Cut M) (steady : Steady cut) (buf more : Bytes) (msgs others : List M) (rest remains : Bytes)
    (framed : Framed cut buf msgs rest) (later : Framed cut (rest ++ more) others remains) :
    Framed cut (buf ++ more) (msgs ++ others) remains := by
  induction framed with
  | stop buf _ => exact later
  | next buf msg size msgs rest first _ ih =>
      obtain ⟨-, inside, same⟩ := steady.one buf more msg size first
      refine .next (buf ++ more) msg size (msgs ++ others) remains same ?_
      rw [List.drop_append_of_le_length inside]
      exact ih later

theorem framed_bad (cut : Bytes → Cut M) (steady : Steady cut) (buf more : Bytes) (msgs : List M) (rest : Bytes)
    (framed : Framed cut buf msgs rest) (bad : cut rest = .bad) : Framed cut (buf ++ more) msgs (rest ++ more) := by
  have stuck : Framed cut (rest ++ more) [] (rest ++ more) := .stop _ fun msg size first => by
    rw [steady.bad rest more bad] at first
    cases first
  have whole := framed_append cut steady buf more msgs [] rest (rest ++ more) framed stuck
  rwa [List.append_nil] at whole

theorem framed_early (cut : Bytes → Cut M) (steady : Steady cut) (buf more : Bytes) (msgs all : List M) (rest remains : Bytes)
    (framed : Framed cut buf msgs rest) (whole : Framed cut (buf ++ more) all remains) : ∃ later, all = msgs ++ later := by
  obtain ⟨later, other, goesOn⟩ := framed_total cut steady _ (rest ++ more) (Nat.le_refl _)
  have joined := framed_append cut steady buf more msgs later rest other framed goesOn
  exact ⟨later, (framed_unique cut _ _ _ _ _ whole joined).1⟩

theorem framed_written (cut : Bytes → Cut M) (write : M → Bytes) (msgs : List M)
    (back : ∀ msg ∈ msgs, ∀ later, cut (write msg ++ later) = .one msg (write msg).length) (empty : ∀ msg size, cut [] ≠ .one msg size) :
    Framed cut (msgs.flatMap write) msgs [] := by
  induction msgs with
  | nil => exact .stop [] empty
  | cons msg msgs ih =>
      rw [List.flatMap_cons]
      refine .next _ msg (write msg).length msgs [] (back msg List.mem_cons_self _) ?_
      rw [List.drop_left]
      exact ih fun other member => back other (List.mem_cons_of_mem _ member)

end PaxosStore.Codec
