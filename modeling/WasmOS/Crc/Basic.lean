import Mathlib.Data.Nat.Bitwise

/-! # Reflected cyclic redundancy checks

The register moves down by one bit at a time. A table folds several moves into one lookup: a move is
linear in exclusive or, and clear low bits only move the register down.
-/

open Function

namespace Crc

variable (poly : ℕ)

def shift (c : ℕ) : ℕ := c >>> 1 ^^^ if c % 2 = 1 then poly else 0

/-- The checksum bit by bit: each byte goes into the low bits, which eight moves take out. -/
def update (c : ℕ) (bytes : List UInt8) : ℕ :=
  bytes.foldl (fun c b => (shift poly)^[8] (c ^^^ b.toNat)) c

variable {poly} {n : ℕ}

lemma shift_xor (a b : ℕ) : shift poly (a ^^^ b) = shift poly a ^^^ shift poly b := by
  have hlow : (if (a ^^^ b) % 2 = 1 then poly else 0) =
      (if a % 2 = 1 then poly else 0) ^^^ if b % 2 = 1 then poly else 0 := by
    rw [Nat.xor_mod_two_eq]
    split_ifs <;> first | omega | simp
  unfold shift
  rw [Nat.shiftRight_xor_distrib, hlow]
  ac_rfl

lemma iterate_shift_xor (a b : ℕ) :
    (shift poly)^[n] (a ^^^ b) = (shift poly)^[n] a ^^^ (shift poly)^[n] b := by
  induction n generalizing a b with
  | zero => rfl
  | succ n ih => rw [iterate_succ_apply, shift_xor, ih, iterate_succ_apply, iterate_succ_apply]

lemma iterate_shift_high (c : ℕ) : (shift poly)^[n] (2 ^ n * c) = c := by
  induction n with
  | zero => simp
  | succ n ih =>
    have hlow : shift poly (2 ^ (n + 1) * c) = 2 ^ n * c := by
      rw [shift, Nat.pow_succ', Nat.mul_assoc, if_neg (by omega), Nat.shiftRight_one]
      simp
    rw [iterate_succ_apply, hlow, ih]

/-- `n` moves look up the low `n` bits and shift the others. -/
lemma iterate_shift (c : ℕ) :
    (shift poly)^[n] c = (shift poly)^[n] (c &&& (2 ^ n - 1)) ^^^ c >>> n := by
  have hsplit : c = (c &&& (2 ^ n - 1)) ^^^ 2 ^ n * (c >>> n) := by
    refine Nat.eq_of_testBit_eq fun i => ?_
    by_cases hi : i < n
    · simp [Nat.testBit_two_pow_mul, hi, Nat.not_le.mpr hi]
    · simp [Nat.testBit_two_pow_mul, hi, Nat.not_lt.mp hi]
  conv_lhs => rw [hsplit, iterate_shift_xor, iterate_shift_high]

end Crc
