import Mathlib

/-!
Contract: rounding of integers to a fixed number of significant bits, and of
rationals to binary32, nearest with ties to even.

Owns: the two rounding functions and the upper error bound of the first.

An integer below the largest finite value of a binary format converts to that
format exactly as `roundSignificand` says, and so does an integer multiple of a
power of two, since scaling by a power of two moves only the exponent.
-/

namespace Itex.Lib.Binary32

/-- `value` rounded to `precision` significant bits, ties to even. -/
def roundSignificand (precision value : Nat) : Nat :=
  let ulp := 2 ^ (Nat.log2 value + 1 - precision)
  let kept := value / ulp
  let dropped := value % ulp
  if ulp < 2 * dropped ∨ (2 * dropped = ulp ∧ kept % 2 = 1) then (kept + 1) * ulp
  else kept * ulp

/-- Rounding up adds at most half a unit in the last place. -/
theorem roundSignificand_le_add_half (precision value : Nat) : 2 * roundSignificand precision value ≤
      2 * value + 2 ^ (Nat.log2 value + 1 - precision) := by
  have division := Nat.div_add_mod value (2 ^ (Nat.log2 value + 1 - precision))
  have below := Nat.mod_lt value (Nat.two_pow_pos (Nat.log2 value + 1 - precision))
  simp only [roundSignificand]
  generalize 2 ^ (Nat.log2 value + 1 - precision) = ulp at *
  have commuted : value / ulp * ulp = ulp * (value / ulp) := Nat.mul_comm _ _
  split
  · have expanded : (value / ulp + 1) * ulp = value / ulp * ulp + ulp := Nat.succ_mul _ _
    omega
  · omega

/-- The relative error of rounding up is at most `2 ^ -precision`. -/
theorem roundSignificand_mul_le (precision value : Nat) :
    roundSignificand precision value * 2 ^ precision ≤ value * 2 ^ precision + value := by
  rcases Nat.eq_zero_or_pos value with rfl | valuePos
  · simp [roundSignificand]
  · have half := roundSignificand_le_add_half precision value
    have leading : 2 ^ Nat.log2 value ≤ value := Nat.log2_self_le (by omega)
    by_cases exact : Nat.log2 value + 1 ≤ precision
    · -- No bit is dropped: one unit in the last place is one.
      have unit : Nat.log2 value + 1 - precision = 0 := by omega
      rw [unit] at half
      have bound : roundSignificand precision value ≤ value := by omega
      calc roundSignificand precision value * 2 ^ precision
          ≤ value * 2 ^ precision := Nat.mul_le_mul_right _ bound
        _ ≤ value * 2 ^ precision + value := Nat.le_add_right _ _
    · have scaled : 2 ^ (Nat.log2 value + 1 - precision) * 2 ^ precision ≤ 2 * value := by
        rw [← Nat.pow_add, Nat.sub_add_cancel (by omega), Nat.pow_succ]
        omega
      generalize 2 ^ (Nat.log2 value + 1 - precision) = ulp at *
      have product : 2 * roundSignificand precision value * 2 ^ precision ≤
          (2 * value + ulp) * 2 ^ precision := Nat.mul_le_mul_right _ half
      nlinarith

def roundHalfEven (value : Rat) : Int :=
  let below := value.floor
  let rest := value - below
  if rest < 1 / 2 ∨ (rest = 1 / 2 ∧ below % 2 = 0) then below else below + 1

/-- The exponent of the last place of a binary32 number near `value`. -/
def lastPlace (value : Rat) : Int := max (Int.log 2 |value| - 23) (-149)

/-- `value` on the grid of binary32, whose exponent is not bounded above. -/
def ofRat (value : Rat) : Rat :=
  roundHalfEven (value / 2 ^ lastPlace value) * 2 ^ lastPlace value

end Itex.Lib.Binary32
