import Mathlib.Algebra.Group.Int.Defs
import Mathlib.Algebra.Ring.Nat
import Mathlib.Data.List.Basic

set_option autoImplicit false

namespace PaxosStore.Codec

abbrev Bytes := List UInt8

-- What a program does wrong with a buffer.
inductive Fault where
  | failedAssert
  | readOutside
  | writeOutside
deriving DecidableEq, Repr

-- A 32-bit number in network order.
def net32 (n : Nat) : Bytes := [UInt8.ofNat (n / 2 ^ 24), UInt8.ofNat (n / 2 ^ 16), UInt8.ofNat (n / 2 ^ 8), UInt8.ofNat n]

def net16 (n : Nat) : Bytes := [UInt8.ofNat (n / 2 ^ 8), UInt8.ofNat n]

def fromNet16 (a b : UInt8) : Nat := a.toNat * 2 ^ 8 + b.toNat

def fromNet32 (a b c d : UInt8) : Nat := a.toNat * 2 ^ 24 + b.toNat * 2 ^ 16 + c.toNat * 2 ^ 8 + d.toNat

-- The value of a signed 32-bit integer that is assigned `n`.
def int32 (n : Nat) : Int := if n % 2 ^ 32 < 2 ^ 31 then ((n % 2 ^ 32 : Nat) : Int) else ((n % 2 ^ 32 : Nat) : Int) - 2 ^ 32

-- Sums and differences of unsigned 32-bit numbers.
def wrap32 (n : Nat) : Nat := n % 2 ^ 32

def sub32 (n m : Nat) : Nat := if n < m then n + 2 ^ 32 - m else n - m

section Reading

variable {R : Type}

-- A read moves the cursor; `next` goes on with what is left of the buffer.
def readByte (buf : Bytes) (next : UInt8 → Bytes → Except Fault R) : Except Fault R :=
  match buf with
  | [] => .error .readOutside
  | byte :: rest => next byte rest

def readNet32 (buf : Bytes) (next : Nat → Bytes → Except Fault R) : Except Fault R :=
  match buf with
  | a :: b :: c :: d :: rest => next (fromNet32 a b c d) rest
  | _ => .error .readOutside

def readBytes (count : Nat) (buf : Bytes) (next : Bytes → Bytes → Except Fault R) : Except Fault R :=
  if count ≤ buf.length then next (buf.take count) (buf.drop count) else .error .readOutside

end Reading

theorem net32_length (n : Nat) : (net32 n).length = 4 := rfl

theorem from_net32_lt (a b c d : UInt8) : fromNet32 a b c d < 2 ^ 32 := by
  have ha := a.toNat_lt
  have hb := b.toNat_lt
  have hc := c.toNat_lt
  have hd := d.toNat_lt
  unfold fromNet32
  omega

theorem net32_from (a b c d : UInt8) : net32 (fromNet32 a b c d) = [a, b, c, d] := by
  have ha := a.toNat_lt
  have hb := b.toNat_lt
  have hc := c.toNat_lt
  have hd := d.toNat_lt
  have first : UInt8.ofNat (fromNet32 a b c d / 2 ^ 24) = a := by
    apply UInt8.toNat_inj.mp
    rw [UInt8.toNat_ofNat']
    unfold fromNet32
    omega
  have second : UInt8.ofNat (fromNet32 a b c d / 2 ^ 16) = b := by
    apply UInt8.toNat_inj.mp
    rw [UInt8.toNat_ofNat']
    unfold fromNet32
    omega
  have third : UInt8.ofNat (fromNet32 a b c d / 2 ^ 8) = c := by
    apply UInt8.toNat_inj.mp
    rw [UInt8.toNat_ofNat']
    unfold fromNet32
    omega
  have fourth : UInt8.ofNat (fromNet32 a b c d) = d := by
    apply UInt8.toNat_inj.mp
    rw [UInt8.toNat_ofNat']
    unfold fromNet32
    omega
  rw [net32, first, second, third, fourth]

theorem from_net32_ofNat (n : Nat) (small : n < 2 ^ 32) :
    fromNet32 (UInt8.ofNat (n / 2 ^ 24)) (UInt8.ofNat (n / 2 ^ 16)) (UInt8.ofNat (n / 2 ^ 8)) (UInt8.ofNat n) = n := by
  simp only [fromNet32, UInt8.toNat_ofNat']
  omega

section Reading

variable {R : Type} (result : R)

theorem from_net16_ofNat (n : Nat) (small : n < 2 ^ 16) : fromNet16 (UInt8.ofNat (n / 2 ^ 8)) (UInt8.ofNat n) = n := by
  simp only [fromNet16, UInt8.toNat_ofNat']
  omega

theorem read_byte_cons (byte : UInt8) (rest : Bytes) (next : UInt8 → Bytes → Except Fault R) : readByte (byte :: rest) next = next byte rest := rfl

theorem read_net32_cons (a b c d : UInt8) (rest : Bytes) (next : Nat → Bytes → Except Fault R) :
    readNet32 (a :: b :: c :: d :: rest) next = next (fromNet32 a b c d) rest := rfl

theorem read_net32_append (n : Nat) (small : n < 2 ^ 32) (rest : Bytes) (next : Nat → Bytes → Except Fault R) :
    readNet32 (net32 n ++ rest) next = next n rest := by
  simp only [net32, List.cons_append, List.nil_append, read_net32_cons, from_net32_ofNat n small]

theorem read_bytes_append (bytes rest : Bytes) (next : Bytes → Bytes → Except Fault R) : readBytes bytes.length (bytes ++ rest) next = next bytes rest := by
  rw [readBytes, if_pos (by simp), List.take_left, List.drop_left]

theorem read_byte_ok (buf : Bytes) (next : UInt8 → Bytes → Except Fault R) (done : readByte buf next = .ok result) :
    ∃ byte rest, buf = byte :: rest ∧ next byte rest = .ok result := by
  cases buf with
  | nil => cases done
  | cons byte rest => exact ⟨byte, rest, rfl, done⟩

theorem read_net32_ok (buf : Bytes) (next : Nat → Bytes → Except Fault R) (done : readNet32 buf next = .ok result) :
    ∃ n rest, n < 2 ^ 32 ∧ buf = net32 n ++ rest ∧ next n rest = .ok result := by
  unfold readNet32 at done
  split at done
  · rename_i a b c d rest
    exact ⟨fromNet32 a b c d, rest, from_net32_lt a b c d, by rw [net32_from]; rfl, done⟩
  · cases done

theorem read_bytes_ok (count : Nat) (buf : Bytes) (next : Bytes → Bytes → Except Fault R) (done : readBytes count buf next = .ok result) :
    ∃ bytes rest, bytes.length = count ∧ buf = bytes ++ rest ∧ next bytes rest = .ok result := by
  unfold readBytes at done
  split at done
  · rename_i enough
    exact ⟨buf.take count, buf.drop count, List.length_take_of_le enough, (List.take_append_drop count buf).symm, done⟩
  · cases done

end Reading

theorem net32_shape (buf : Bytes) (long : 4 ≤ buf.length) : ∃ n rest, n < 2 ^ 32 ∧ buf = net32 n ++ rest := by
  match buf, long with
  | a :: b :: c :: d :: rest, _ => exact ⟨fromNet32 a b c d, rest, from_net32_lt a b c d, by rw [net32_from]; rfl⟩

theorem wrap32_lt (n : Nat) : wrap32 n < 2 ^ 32 := Nat.mod_lt n (Nat.two_pow_pos 32)

theorem wrap32_small (n : Nat) (small : n < 2 ^ 32) : wrap32 n = n := Nat.mod_eq_of_lt small

theorem wrap32_add (n m : Nat) : wrap32 (n + wrap32 m) = wrap32 (n + m) := Nat.add_mod_mod n m (2 ^ 32)

theorem wrap32_add_left (n m : Nat) : wrap32 (wrap32 n + m) = wrap32 (n + m) := Nat.mod_add_mod n (2 ^ 32) m

theorem sub32_le (n m : Nat) (le : m ≤ n) : sub32 n m = n - m := by
  rw [sub32, if_neg (by omega)]

theorem int32_small (n : Nat) (small : n < 2 ^ 31) : int32 n = n := by
  unfold int32
  rw [Nat.mod_eq_of_lt (by omega), if_pos small]

theorem int32_negative (n : Nat) (low : 2 ^ 31 ≤ n) (high : n < 2 ^ 32) : int32 n < 0 := by
  unfold int32
  rw [Nat.mod_eq_of_lt high, if_neg (by omega)]
  omega

end PaxosStore.Codec
