import PaxosStore.Codec.Bytes

set_option autoImplicit false

namespace PaxosStore.Codec

-- The last `width` bytes of a number, the highest first.
def bigEndian : Nat → Nat → Bytes
  | 0, _ => []
  | width + 1, n => UInt8.ofNat (n / 256 ^ width) :: bigEndian width n

def fromBigEndian (bytes : Bytes) : Nat := bytes.foldl (fun n byte => n * 256 + byte.toNat) 0

theorem big_endian_length (width n : Nat) : (bigEndian width n).length = width := by
  induction width with
  | zero => rfl
  | succ width ih => rw [bigEndian, List.length_cons, ih]

theorem big_endian_mod (width high n : Nat) : bigEndian width (high * 256 ^ width + n) = bigEndian width n := by
  induction width generalizing high with
  | zero => rfl
  | succ width ih =>
      have positive : 0 < 256 ^ width := Nat.pow_pos (by decide)
      have split : high * 256 ^ (width + 1) + n = high * 256 * 256 ^ width + n := by rw [Nat.pow_succ, Nat.mul_comm (256 ^ width), Nat.mul_assoc]
      have first : UInt8.ofNat ((high * 256 * 256 ^ width + n) / 256 ^ width) = UInt8.ofNat (n / 256 ^ width) := by
        apply UInt8.toNat_inj.mp
        rw [Nat.add_comm, Nat.add_mul_div_right _ _ positive, UInt8.toNat_ofNat', UInt8.toNat_ofNat']
        omega
      rw [bigEndian, bigEndian, split, first, ih]

theorem fold_from (bytes : Bytes) (start : Nat) :
    bytes.foldl (fun n byte => n * 256 + byte.toNat) start = start * 256 ^ bytes.length + fromBigEndian bytes := by
  induction bytes generalizing start with
  | nil => simp [fromBigEndian]
  | cons byte rest ih =>
      rw [fromBigEndian, List.foldl_cons, List.foldl_cons, ih, ih (0 * 256 + byte.toNat), List.length_cons, Nat.pow_succ]
      have distributed : (start * 256 + byte.toNat) * 256 ^ rest.length = start * (256 ^ rest.length * 256) + byte.toNat * 256 ^ rest.length := by
        rw [Nat.add_mul, Nat.mul_assoc, Nat.mul_comm 256]
      rw [distributed, Nat.zero_mul, Nat.zero_add, Nat.add_assoc]

theorem from_big_endian (width n : Nat) (small : n < 256 ^ width) : fromBigEndian (bigEndian width n) = n := by
  induction width generalizing n with
  | zero =>
      rw [Nat.pow_zero] at small
      obtain rfl := Nat.lt_one_iff.mp small
      rfl
  | succ width ih =>
      have positive : 0 < 256 ^ width := Nat.pow_pos (by decide)
      have high : n / 256 ^ width < 256 := Nat.div_lt_of_lt_mul (by rw [← Nat.pow_succ]; exact small)
      have parts := Nat.div_add_mod' n (256 ^ width)
      have rest : bigEndian width n = bigEndian width (n % 256 ^ width) := by
        conv => lhs; rw [← parts, big_endian_mod]
      rw [fromBigEndian, bigEndian, List.foldl_cons, fold_from, big_endian_length, rest, ih _ (Nat.mod_lt _ positive), UInt8.toNat_ofNat',
        Nat.mod_eq_of_lt high, Nat.zero_mul, Nat.zero_add, parts]

theorem big_endian_inj (width a b : Nat) (left : a < 256 ^ width) (right : b < 256 ^ width) (same : bigEndian width a = bigEndian width b) :
    a = b := by
  rw [← from_big_endian width a left, same, from_big_endian width b right]

-- Byte strings are compared byte by byte.
theorem append_lt (a b c d : Bytes) (same : a.length = c.length) : a ++ b < c ++ d ↔ a < c ∨ a = c ∧ b < d := by
  induction a generalizing c with
  | nil =>
      obtain rfl := List.eq_nil_of_length_eq_zero same.symm
      simp
  | cons byte rest ih =>
      cases c with
      | nil => cases same
      | cons other others =>
          rw [List.cons_append, List.cons_append, List.cons_lt_cons_iff, List.cons_lt_cons_iff, ih others (Nat.succ.inj same), List.cons.injEq]
          constructor
          · rintro (low | ⟨rfl, low | ⟨rfl, low⟩⟩)
            · exact .inl (.inl low)
            · exact .inl (.inr ⟨rfl, low⟩)
            · exact .inr ⟨⟨rfl, rfl⟩, low⟩
          · rintro ((low | ⟨rfl, low⟩) | ⟨⟨rfl, rfl⟩, low⟩)
            · exact .inl low
            · exact .inr ⟨rfl, .inl low⟩
            · exact .inr ⟨rfl, .inr ⟨rfl, low⟩⟩

-- The bytewise order of numbers of one width is their order.
theorem big_endian_lt (width a b : Nat) (left : a < 256 ^ width) (right : b < 256 ^ width) : bigEndian width a < bigEndian width b ↔ a < b := by
  induction width generalizing a b with
  | zero =>
      rw [Nat.pow_zero] at left right
      simp only [bigEndian]
      exact ⟨fun wrong => absurd wrong (List.not_lt_nil _), fun low => by omega⟩
  | succ width ih =>
      have positive : 0 < 256 ^ width := Nat.pow_pos (by decide)
      have highLeft : a / 256 ^ width < 256 := Nat.div_lt_of_lt_mul (by rw [← Nat.pow_succ]; exact left)
      have highRight : b / 256 ^ width < 256 := Nat.div_lt_of_lt_mul (by rw [← Nat.pow_succ]; exact right)
      have partsLeft := Nat.div_add_mod' a (256 ^ width)
      have partsRight := Nat.div_add_mod' b (256 ^ width)
      have lowLeft := Nat.mod_lt a positive
      have lowRight := Nat.mod_lt b positive
      have restLeft : bigEndian width a = bigEndian width (a % 256 ^ width) := by
        conv => lhs; rw [← partsLeft, big_endian_mod]
      have restRight : bigEndian width b = bigEndian width (b % 256 ^ width) := by
        conv => lhs; rw [← partsRight, big_endian_mod]
      rw [bigEndian, bigEndian, List.cons_lt_cons_iff, restLeft, restRight, ih _ _ lowLeft lowRight, UInt8.lt_iff_toNat_lt, ← UInt8.toNat_inj,
        UInt8.toNat_ofNat', UInt8.toNat_ofNat', Nat.mod_eq_of_lt highLeft, Nat.mod_eq_of_lt highRight]
      generalize a / 256 ^ width = x at *
      generalize b / 256 ^ width = y at *
      constructor
      · rintro (low | ⟨same, low⟩)
        · have step : (x + 1) * 256 ^ width ≤ y * 256 ^ width := Nat.mul_le_mul_right _ low
          rw [Nat.add_mul, Nat.one_mul] at step
          omega
        · rw [same] at partsLeft
          omega
      · intro low
        rcases Nat.lt_trichotomy x y with below | same | above
        · exact .inl below
        · rw [same] at partsLeft
          exact .inr ⟨same, by omega⟩
        · have step : (y + 1) * 256 ^ width ≤ x * 256 ^ width := Nat.mul_le_mul_right _ above
          rw [Nat.add_mul, Nat.one_mul] at step
          omega

end PaxosStore.Codec
