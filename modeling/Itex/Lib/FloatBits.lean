import Mathlib

/-!
Contract: bit patterns of binary floating-point numbers without their sign: an
exponent field above a mantissa field, with subnormals at exponent zero.

Owns: the value of a pattern and its order, and rounding a pattern to fewer mantissa
bits by adding a bias.
-/

namespace Itex.Lib.FloatBits

/-- The value of a pattern. -/
def decode (mantissaBits : Nat) (bias : Int) (bits : Nat) : Rat :=
  if bits / 2 ^ mantissaBits = 0 then
    (bits % 2 ^ mantissaBits : Nat) * 2 ^ (1 - bias - mantissaBits)
  else
    (2 ^ mantissaBits + (bits % 2 ^ mantissaBits : Nat)) *
      2 ^ ((bits / 2 ^ mantissaBits : Nat) - bias - mantissaBits)

section Decode

variable (mantissaBits : Nat) (bias : Int)

/-- The exponent of the last mantissa digit; subnormals share it with the lowest
normals. -/
def lastPlace (bits : Nat) : Int := (max (bits / 2 ^ mantissaBits) 1 : Nat) - bias - mantissaBits

theorem lastPlace_one {mantissaBits bits : Nat} (bias : Int) (low : bits / 2 ^ mantissaBits ≤ 1) :
    lastPlace mantissaBits bias bits = 1 - bias - mantissaBits := by
  unfold lastPlace
  rw [Nat.max_eq_right low, Nat.cast_one]

theorem two_zpow_succ (power : Int) : (2 : Rat) ^ (power + 1) = 2 * 2 ^ power := by
  rw [zpow_add_one₀ (by norm_num), mul_comm]

theorem decode_succ (bits : Nat) : decode mantissaBits bias (bits + 1) =
      decode mantissaBits bias bits + 2 ^ lastPlace mantissaBits bias bits := by
  have one := Nat.two_pow_pos mantissaBits
  have whole := Nat.div_add_mod bits (2 ^ mantissaBits)
  have small := Nat.mod_lt bits one
  have castOne : ((2 ^ mantissaBits : Nat) : Rat) = 2 ^ mantissaBits := by push_cast; rfl
  unfold decode lastPlace
  generalize bits / 2 ^ mantissaBits = q at whole
  generalize bits % 2 ^ mantissaBits = r at whole small
  rcases Nat.lt_or_ge (r + 1) (2 ^ mantissaBits) with inside | carry
  · have sameQuotient : (bits + 1) / 2 ^ mantissaBits = q := by
      rw [← whole, Nat.add_assoc, Nat.mul_add_div one, Nat.div_eq_of_lt inside, Nat.add_zero]
    have nextRemainder : (bits + 1) % 2 ^ mantissaBits = r + 1 := by
      rw [← whole, Nat.add_assoc, Nat.mul_add_mod, Nat.mod_eq_of_lt inside]
    rw [sameQuotient, nextRemainder, Nat.cast_succ]
    split
    next isZero =>
      rw [isZero, Nat.max_eq_right (Nat.zero_le 1), Nat.cast_one]
      ring
    next notZero =>
      rw [Nat.max_eq_left (Nat.pos_of_ne_zero notZero)]
      ring
  · -- The mantissa was full: the exponent goes up and the mantissa starts again.
    have full : r + 1 = 2 ^ mantissaBits := by omega
    have isNext : bits + 1 = 2 ^ mantissaBits * (q + 1) := by
      rw [← whole, Nat.add_assoc, full, Nat.mul_succ]
    have nextQuotient : (bits + 1) / 2 ^ mantissaBits = q + 1 := by
      rw [isNext, Nat.mul_div_cancel_left _ one]
    have nextRemainder : (bits + 1) % 2 ^ mantissaBits = 0 := by
      rw [isNext, Nat.mul_mod_right]
    have fullCast : (r : Rat) + 1 = 2 ^ mantissaBits := by
      rw [← castOne, ← full, Nat.cast_succ]
    rw [nextQuotient, nextRemainder, if_neg (Nat.succ_ne_zero q), Nat.cast_zero, add_zero, ← fullCast]
    split
    next isZero =>
      rw [isZero, Nat.max_eq_right (Nat.zero_le 1), Nat.zero_add, Nat.cast_one]
      ring
    next notZero =>
      rw [Nat.max_eq_left (Nat.pos_of_ne_zero notZero), Nat.cast_succ,
        show (q : Int) + 1 - bias - mantissaBits = q - bias - mantissaBits + 1 by ring,
        two_zpow_succ]
      ring

theorem decode_strictMono : StrictMono (decode mantissaBits bias) := by
  apply strictMono_nat_of_lt_succ
  intro bits
  rw [decode_succ]
  exact lt_add_of_pos_right _ (by positivity)

theorem decode_mono : Monotone (decode mantissaBits bias) :=
  (decode_strictMono mantissaBits bias).monotone

theorem decode_eq_zero {bits : Nat} : decode mantissaBits bias bits = 0 ↔ bits = 0 := by
  unfold decode
  have pos : ∀ power : Int, (0 : Rat) < 2 ^ power := fun power => by positivity
  split
  next isSubnormal =>
    rw [mul_eq_zero, or_iff_left (ne_of_gt (pos _)), Nat.cast_eq_zero]
    have whole := Nat.div_add_mod bits (2 ^ mantissaBits)
    rw [isSubnormal, Nat.mul_zero, Nat.zero_add] at whole
    rw [whole]
  next isNormal =>
    rw [mul_eq_zero, or_iff_left (ne_of_gt (pos _))]
    refine iff_of_false (ne_of_gt (by positivity)) ?_
    rintro rfl
    exact isNormal (Nat.zero_div _)

end Decode

/-- What is added before the tail is dropped. -/
def roundingBias (bits tail : Nat) : Nat :=
  if tail = 0 then 0 else bits / 2 ^ tail % 2 + 2 ^ (tail - 1) - 1

theorem roundingBias_lt (bits tail : Nat) : roundingBias bits tail < 2 ^ tail := by
  unfold roundingBias
  cases tail with
  | zero => simp
  | succ tail =>
    grind

/-- `bits` without their tail, rounded to nearest. -/
def roundedHead (bits tail : Nat) : Nat := (bits + roundingBias bits tail) / 2 ^ tail

/-- Rounding does not pass a bound that is a multiple of the last kept place. -/
theorem roundedHead_le {bits tail bound : Nat} (below : bits < bound * 2 ^ tail) : roundedHead bits tail ≤ bound := by
  have small := roundingBias_lt bits tail
  unfold roundedHead
  rw [← Nat.lt_succ_iff, Nat.div_lt_iff_lt_mul (Nat.two_pow_pos tail), Nat.succ_mul]
  omega

end Itex.Lib.FloatBits
