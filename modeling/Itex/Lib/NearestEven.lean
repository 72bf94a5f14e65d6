import Itex.Lib.FloatBits

/-!
Contract: rounding to the nearest pattern, ties to even.

Owns: the evenly spaced patterns, the pattern halfway between two neighbours, and that
rounding bits rounds their value.
-/

namespace Itex.Lib.FloatBits

section Spacing

variable (mantissaBits : Nat) (bias : Int)

/-- Up to twice the lowest normal the values are evenly spaced. -/
theorem decode_of_le {bits : Nat} (low : bits ≤ 2 ^ (mantissaBits + 1)) :
    decode mantissaBits bias bits = bits * 2 ^ (1 - bias - mantissaBits) := by
  induction bits with
  | zero => rw [Nat.cast_zero, zero_mul, decode_eq_zero]
  | succ bits ih =>
    have lowest : bits / 2 ^ mantissaBits ≤ 1 := by
      rw [← Nat.lt_succ_iff, Nat.div_lt_iff_lt_mul (Nat.two_pow_pos _), Nat.mul_comm, ← Nat.pow_succ]
      exact low
    rw [decode_succ, ih (Nat.le_of_succ_le low), lastPlace_one bias lowest, Nat.cast_succ]
    ring

/-- A pattern keeps its value when a zero digit is appended. -/
theorem decode_double (bits : Nat) : decode (mantissaBits + 1) bias (2 * bits) = decode mantissaBits bias bits := by
  have quotient : 2 * bits / 2 ^ (mantissaBits + 1) = bits / 2 ^ mantissaBits := by
    rw [Nat.pow_succ, Nat.mul_comm (2 ^ mantissaBits), Nat.mul_div_mul_left _ _ (by decide)]
  have remainder : 2 * bits % 2 ^ (mantissaBits + 1) = 2 * (bits % 2 ^ mantissaBits) := by
    rw [Nat.pow_succ, Nat.mul_comm (2 ^ mantissaBits), Nat.mul_mod_mul_left]
  have halved (power : Int) : (2 : Rat) ^ (power - mantissaBits) = 2 * 2 ^ (power - (mantissaBits + 1 : Nat)) := by
    rw [← two_zpow_succ]
    congr 1
    push_cast
    ring
  unfold decode
  rw [quotient, remainder]
  split
  · rw [halved (1 - bias), Nat.cast_mul, Nat.cast_two]
    ring
  · rw [halved, Nat.cast_mul, Nat.cast_two, pow_succ]
    ring

theorem decode_pad (bits tail : Nat) :
    decode (mantissaBits + tail) bias (bits * 2 ^ tail) = decode mantissaBits bias bits := by
  induction tail with
  | zero => rw [Nat.pow_zero, Nat.mul_one, Nat.add_zero]
  | succ tail ih =>
    rw [Nat.pow_succ, ← Nat.mul_assoc, Nat.mul_comm, ← Nat.add_assoc, decode_double, ih]

/-- A pattern with a one appended lies halfway between its two neighbours. -/
theorem decode_middle (bits tail : Nat) : 2 * decode (mantissaBits + (tail + 1)) bias ((2 * bits + 1) * 2 ^ tail) =
      decode mantissaBits bias bits + decode mantissaBits bias (bits + 1) := by
  have quotient : 2 * bits / 2 ^ (mantissaBits + 1) = bits / 2 ^ mantissaBits := by
    rw [Nat.pow_succ, Nat.mul_comm (2 ^ mantissaBits), Nat.mul_div_mul_left _ _ (by decide)]
  have halfPlace : lastPlace mantissaBits bias bits = lastPlace (mantissaBits + 1) bias (2 * bits) + 1 := by
    unfold lastPlace
    rw [quotient]
    push_cast
    ring
  rw [show mantissaBits + (tail + 1) = mantissaBits + 1 + tail by omega, decode_pad, decode_succ,
    decode_double, decode_succ, halfPlace, two_zpow_succ]
  ring

/-- Where both patterns are normal a larger bias only moves the exponent. -/
theorem decode_rebias {mantissaBits bits : Nat} (bias : Int) (offset : Nat) (normal : 2 ^ mantissaBits ≤ bits) :
    decode mantissaBits (bias + offset) (bits + offset * 2 ^ mantissaBits) = decode mantissaBits bias bits := by
  have one := Nat.two_pow_pos mantissaBits
  have quotientPos : 0 < bits / 2 ^ mantissaBits := Nat.div_pos normal one
  unfold decode
  rw [Nat.add_mul_div_right _ _ one, Nat.add_mul_mod_self_right, if_neg (by omega), if_neg (by omega)]
  congr 2
  push_cast
  ring

/-- A subnormal has a value below that of the normal pattern with its mantissa. -/
theorem decode_le_rebias (mantissaBits bits : Nat) (bias : Int) {offset : Nat} (pos : 0 < offset) :
    decode mantissaBits bias bits ≤ decode mantissaBits (bias + offset) (bits + offset * 2 ^ mantissaBits) := by
  have one := Nat.two_pow_pos mantissaBits
  rcases Nat.lt_or_ge bits (2 ^ mantissaBits) with subnormal | normal
  · have quotient : (bits + offset * 2 ^ mantissaBits) / 2 ^ mantissaBits = offset := by
      rw [Nat.add_mul_div_right _ _ one, Nat.div_eq_of_lt subnormal, Nat.zero_add]
    have remainder : (bits + offset * 2 ^ mantissaBits) % 2 ^ mantissaBits = bits := by
      rw [Nat.add_mul_mod_self_right, Nat.mod_eq_of_lt subnormal]
    have atMost : (bits : Rat) ≤ 2 ^ mantissaBits := by exact_mod_cast Nat.le_of_lt subnormal
    rw [decode_of_le _ _ (Nat.le_trans (Nat.le_of_lt subnormal)
      (Nat.pow_le_pow_right (by decide) (Nat.le_succ _)))]
    unfold decode
    rw [quotient, remainder, if_neg (Nat.ne_of_gt pos), show (1 : Int) - bias - mantissaBits =
        (offset : Int) - (bias + offset) - mantissaBits + 1 by ring, two_zpow_succ]
    have unit : (0 : Rat) ≤ 2 ^ ((offset : Int) - (bias + offset) - mantissaBits) := by positivity
    nlinarith
  · exact le_of_eq (decode_rebias bias offset normal).symm

/-- A normal value in units of the spacing that the subnormals of another bias have. -/
theorem decode_scaled {mantissaBits digits offset bits : Nat} (bias : Int)
    (normal : 0 < bits / 2 ^ (mantissaBits + digits)) (low : bits / 2 ^ (mantissaBits + digits) ≤ offset) :
    decode (mantissaBits + digits) (bias + offset) bits *
        2 ^ (digits + (offset - bits / 2 ^ (mantissaBits + digits)) + 1) =
      (bits % 2 ^ (mantissaBits + digits) + 2 ^ (mantissaBits + digits) : Nat) * 2 ^ (1 - bias - mantissaBits) := by
  unfold decode
  rw [if_neg (Nat.ne_of_gt normal)]
  generalize bits / 2 ^ (mantissaBits + digits) = exponent at normal low
  generalize bits % 2 ^ (mantissaBits + digits) = fraction
  have power : (2 : Rat) ^ ((exponent : Int) - (bias + offset) - (mantissaBits + digits : Nat)) *
      2 ^ (digits + (offset - exponent) + 1) = 2 ^ (1 - bias - mantissaBits) := by
    rw [← zpow_natCast, ← zpow_add₀ (by norm_num)]
    congr 1
    push_cast [Nat.cast_sub low]
    ring
  rw [mul_assoc, power]
  push_cast
  ring

/-- A value whose exponent is too low by more than the digits of the mantissa. -/
theorem decode_tiny {mantissaBits digits offset bits : Nat} (bias : Int)
    (tiny : bits / 2 ^ (mantissaBits + digits) + mantissaBits < offset) :
    2 * decode (mantissaBits + digits) (bias + offset) bits ≤ 2 ^ (1 - bias - mantissaBits) := by
  have one := Nat.two_pow_pos (mantissaBits + digits)
  generalize exponentIs : bits / 2 ^ (mantissaBits + digits) = exponent at tiny
  have below : bits ≤ (exponent + 1) * 2 ^ (mantissaBits + digits) := by
    apply Nat.le_of_lt
    rw [← Nat.div_lt_iff_lt_mul one, exponentIs]
    exact Nat.lt_succ_self _
  have atNext : decode (mantissaBits + digits) (bias + offset)
      ((exponent + 1) * 2 ^ (mantissaBits + digits)) = 2 ^ ((exponent : Int) + 1 - (bias + offset)) := by
    unfold decode
    rw [Nat.mul_div_cancel _ one, Nat.mul_mod_left, if_neg (Nat.succ_ne_zero exponent),
      Nat.cast_zero, add_zero, ← zpow_natCast, ← zpow_add₀ (by norm_num)]
    congr 1
    push_cast
    ring
  calc 2 * decode (mantissaBits + digits) (bias + offset) bits
      ≤ 2 * 2 ^ ((exponent : Int) + 1 - (bias + offset)) := by
        rw [← atNext]
        exact mul_le_mul_of_nonneg_left (decode_mono _ _ below) (by norm_num)
    _ = 2 ^ ((exponent : Int) + 1 - (bias + offset) + 1) := (two_zpow_succ _).symm
    _ ≤ 2 ^ (1 - bias - mantissaBits) := by
        apply zpow_le_zpow_right₀ (by norm_num)
        omega

end Spacing

/-- Among the patterns up to `top` the value of `bits` is nearest to `value`; where
another one is as near, `bits` has an even mantissa. -/
structure Nearest (mantissaBits : Nat) (bias : Int) (top : Nat) (value : Rat) (bits : Nat) : Prop where
  inRange : bits ≤ top
  nearest : ∀ other ≤ top, |value - decode mantissaBits bias bits| ≤
    |value - decode mantissaBits bias other|
  tiesToEven : ∀ other ≤ top, other ≠ bits →
    |value - decode mantissaBits bias bits| = |value - decode mantissaBits bias other| → bits % 2 = 0

section Nearest

variable {mantissaBits : Nat} {bias : Int} {top bits : Nat} {value : Rat}

/-- A value between the midpoints to both neighbours, on a midpoint only next to an even
pattern. -/
structure BetweenMiddles (mantissaBits : Nat) (bias : Int) (value : Rat) (bits : Nat) : Prop where
  below : ∀ lower, lower + 1 = bits → decode mantissaBits bias lower + decode mantissaBits bias bits ≤ 2 * value
  above : 2 * value ≤ decode mantissaBits bias bits + decode mantissaBits bias (bits + 1)
  evenBelow : ∀ lower, lower + 1 = bits →
    decode mantissaBits bias lower + decode mantissaBits bias bits = 2 * value → bits % 2 = 0
  evenAbove : 2 * value = decode mantissaBits bias bits + decode mantissaBits bias (bits + 1) → bits % 2 = 0

theorem nearest_of_betweenMiddles (inRange : bits ≤ top) (between : BetweenMiddles mantissaBits bias value bits) :
    Nearest mantissaBits bias top value bits := by
  have mono := decode_mono mantissaBits bias
  have strict := decode_strictMono mantissaBits bias
  -- The two sides of `bits`, each bounded by its midpoint.
  have lowerSide : ∀ other < bits, decode mantissaBits bias other < decode mantissaBits bias bits ∧
      decode mantissaBits bias other + decode mantissaBits bias bits ≤ 2 * value ∧
      (decode mantissaBits bias other + decode mantissaBits bias bits = 2 * value → bits % 2 = 0) := by
    intro other isLower
    have isSucc : bits - 1 + 1 = bits := by omega
    have notAbove : decode mantissaBits bias other ≤ decode mantissaBits bias (bits - 1) :=
      mono (by omega)
    have middle := between.below (bits - 1) isSucc
    exact ⟨strict isLower, by linarith, fun equal =>
      between.evenBelow (bits - 1) isSucc (by linarith)⟩
  have upperSide : ∀ other > bits, decode mantissaBits bias bits < decode mantissaBits bias other ∧
      2 * value ≤ decode mantissaBits bias bits + decode mantissaBits bias other ∧
      (2 * value = decode mantissaBits bias bits + decode mantissaBits bias other → bits % 2 = 0) := by
    intro other isUpper
    have notBelow : decode mantissaBits bias (bits + 1) ≤ decode mantissaBits bias other :=
      mono isUpper
    have middle := between.above
    exact ⟨strict isUpper, by linarith, fun equal => between.evenAbove (by linarith)⟩
  refine ⟨inRange, ?_, ?_⟩
  · grind
  · grind

theorem nearest_top (beyond : decode mantissaBits bias top ≤ value) : Nearest mantissaBits bias top value top := by
  have distance : ∀ other ≤ top, |value - decode mantissaBits bias other| =
      value - decode mantissaBits bias other := by
    intro other isBelow
    have notAbove := decode_mono mantissaBits bias isBelow
    exact abs_of_nonneg (by linarith)
  refine ⟨Nat.le_refl _, ?_, ?_⟩
  · intro other isBelow
    have notAbove := decode_mono mantissaBits bias isBelow
    rw [distance other isBelow, distance top (Nat.le_refl _)]
    linarith
  · intro other isBelow isOther equal
    have strictly := decode_strictMono mantissaBits bias (Nat.lt_of_le_of_ne isBelow isOther)
    rw [distance other isBelow, distance top (Nat.le_refl _)] at equal
    linarith

theorem Nearest.eq_top (isNearest : Nearest mantissaBits bias top value bits)
    (beyond : decode mantissaBits bias top ≤ value) : bits = top := by
  by_contra isOther
  have strictly := decode_strictMono mantissaBits bias
    (Nat.lt_of_le_of_ne isNearest.inRange isOther)
  have closer := isNearest.nearest top (Nat.le_refl _)
  rw [abs_of_nonneg (by linarith), abs_of_nonneg (by linarith)] at closer
  linarith

end Nearest

/-- The rounded head is within half a last place, and even at exactly half of one. -/
theorem roundedHead_spec (bits tail : Nat) : let head := roundedHead bits (tail + 1)
    2 * head * 2 ^ tail ≤ bits + 2 ^ tail ∧ bits ≤ (2 * head + 1) * 2 ^ tail ∧
      (2 * head * 2 ^ tail = bits + 2 ^ tail → head % 2 = 0) ∧
      (bits = (2 * head + 1) * 2 ^ tail → head % 2 = 0) := by
  have half := Nat.two_pow_pos tail
  have whole := Nat.div_add_mod bits (2 ^ (tail + 1))
  have small := Nat.mod_lt bits (Nat.two_pow_pos (tail + 1))
  unfold roundedHead roundingBias
  simp only [Nat.add_eq_zero_iff, Nat.one_ne_zero, and_false, if_false, Nat.add_sub_cancel]
  generalize bits / 2 ^ (tail + 1) = q at whole
  generalize bits % 2 ^ (tail + 1) = r at whole small
  have parity := Nat.mod_two_eq_zero_or_one q
  rw [Nat.pow_succ] at whole small ⊢
  generalize 2 ^ tail = unit at half whole small
  have asProduct : unit * 2 * q = q * unit * 2 := by ring
  -- Past half of a last place the head goes up, as it does from an odd one at half.
  rcases Nat.lt_or_ge unit (r + q % 2) with goesUp | stays
  · have isHead : (bits + (q % 2 + unit - 1)) / (unit * 2) = q + 1 := by
      rw [show bits + (q % 2 + unit - 1) = unit * 2 * (q + 1) + (r + q % 2 - unit - 1) by
        rw [Nat.mul_succ]; omega]
      rw [Nat.mul_add_div (by omega), Nat.div_eq_of_lt (by omega), Nat.add_zero]
    rw [isHead]
    have doubled : 2 * (q + 1) * unit = q * unit * 2 + unit * 2 := by ring
    have beyond : (2 * (q + 1) + 1) * unit = q * unit * 2 + unit * 3 := by ring
    rw [doubled, beyond]
    omega
  · have isHead : (bits + (q % 2 + unit - 1)) / (unit * 2) = q := by
      rw [show bits + (q % 2 + unit - 1) = unit * 2 * q + (r + q % 2 + unit - 1) by omega]
      rw [Nat.mul_add_div (by omega), Nat.div_eq_of_lt (by omega), Nat.add_zero]
    rw [isHead]
    have doubled : 2 * q * unit = q * unit * 2 := by ring
    have beyond : (2 * q + 1) * unit = q * unit * 2 + unit := by ring
    rw [doubled, beyond]
    omega

theorem roundedHead_betweenMiddles (mantissaBits tail : Nat) (bias : Int) (bits : Nat) :
    BetweenMiddles mantissaBits bias (decode (mantissaBits + (tail + 1)) bias bits) (roundedHead bits (tail + 1)) := by
  have mono := decode_mono (mantissaBits + (tail + 1)) bias
  have injective := (decode_strictMono (mantissaBits + (tail + 1)) bias).injective
  have middle := decode_middle mantissaBits bias
  obtain ⟨notBelow, notAbove, evenBelow, evenAbove⟩ := roundedHead_spec bits tail
  generalize roundedHead bits (tail + 1) = head at *
  have lowerMiddle : ∀ lower, lower + 1 = head → 2 * head * 2 ^ tail = (2 * lower + 1) * 2 ^ tail + 2 ^ tail := by
    intro lower isLower
    rw [← isLower]
    ring
  refine ⟨?_, ?_, ?_, ?_⟩
  · intro lower isLower
    rw [← isLower, ← middle lower tail]
    have := mono (show (2 * lower + 1) * 2 ^ tail ≤ bits by
      have := lowerMiddle lower isLower
      omega)
    linarith
  · rw [← middle head tail]
    have := mono notAbove
    linarith
  · intro lower isLower equal
    rw [← isLower, ← middle lower tail] at equal
    have same := injective (mul_left_cancel₀ (by norm_num) equal)
    apply evenBelow
    rw [lowerMiddle lower isLower, same]
  · intro equal
    rw [← middle head tail] at equal
    exact evenAbove (injective (mul_left_cancel₀ (by norm_num) equal))

/-- On the evenly spaced patterns it is enough to round a multiple of a fraction of the
spacing. -/
theorem betweenMiddles_of_scaled {mantissaBits tail significand : Nat} {bias : Int} {value : Rat}
    (isScaled : value * 2 ^ (tail + 1) = significand * 2 ^ (1 - bias - mantissaBits))
    (low : roundedHead significand (tail + 1) < 2 ^ (mantissaBits + 1)) :
    BetweenMiddles mantissaBits bias value (roundedHead significand (tail + 1)) := by
  obtain ⟨notBelow, notAbove, evenBelow, evenAbove⟩ := roundedHead_spec significand tail
  generalize roundedHead significand (tail + 1) = head at *
  have spacing : (0 : Rat) < 2 ^ (1 - bias - mantissaBits) := by positivity
  have scale : (0 : Rat) < 2 ^ tail := by positivity
  rw [pow_succ] at isScaled
  have notBelowRat : (2 * head * 2 ^ tail : Rat) ≤ significand + 2 ^ tail := by
    exact_mod_cast notBelow
  have notAboveRat : (significand : Rat) ≤ (2 * head + 1) * 2 ^ tail := by
    exact_mod_cast notAbove
  have atHead := decode_of_le mantissaBits bias (Nat.le_of_lt low)
  have atNext := decode_of_le mantissaBits bias (Nat.succ_le_of_lt low)
  have atLower : ∀ lower, lower + 1 = head → decode mantissaBits bias lower =
      (head - 1) * 2 ^ (1 - bias - mantissaBits) := by
    intro lower isLower
    rw [decode_of_le mantissaBits bias (by omega), ← isLower, Nat.cast_succ, add_sub_cancel_right]
  rw [Nat.cast_succ] at atNext
  -- Twice the value, in units of the spacing.
  have twice : 2 * value * 2 ^ tail = significand * 2 ^ (1 - bias - mantissaBits) := by
    rw [← isScaled]
    ring
  refine ⟨?_, ?_, ?_, ?_⟩
  · intro lower isLower
    rw [atLower lower isLower, atHead]
    apply le_of_mul_le_mul_right _ scale
    rw [twice]
    nlinarith
  · rw [atHead, atNext]
    apply le_of_mul_le_mul_right _ scale
    rw [twice]
    nlinarith
  · intro lower isLower equal
    rw [atLower lower isLower, atHead] at equal
    apply evenBelow
    have same : (2 * head * 2 ^ tail : Rat) = significand + 2 ^ tail := by
      apply mul_right_cancel₀ (ne_of_gt spacing)
      linear_combination 2 ^ tail * equal + twice
    exact_mod_cast same
  · intro equal
    rw [atHead, atNext] at equal
    apply evenAbove
    have same : (significand : Rat) = (2 * head + 1) * 2 ^ tail := by
      apply mul_right_cancel₀ (ne_of_gt spacing)
      linear_combination 2 ^ tail * equal - twice
    exact_mod_cast same

theorem betweenMiddles_zero {mantissaBits : Nat} {bias : Int} {value : Rat}
    (tiny : 2 * value ≤ 2 ^ (1 - bias - mantissaBits)) : BetweenMiddles mantissaBits bias value 0 := by
  have atZero : decode mantissaBits bias 0 = 0 := (decode_eq_zero mantissaBits bias).2 rfl
  have atOne := decode_of_le mantissaBits bias (Nat.one_le_two_pow (n := mantissaBits + 1))
  refine ⟨?_, ?_, ?_, fun _ => rfl⟩
  · intro lower isLower
    omega
  · rw [atZero, zero_add, atOne, Nat.cast_one, one_mul]
    exact tiny
  · intro lower isLower
    omega

/-- Midpoints between normal patterns do not depend on the bias; next to the lowest normal
the subnormal neighbour is farther away. -/
theorem BetweenMiddles.rebias {mantissaBits bits offset : Nat} {bias : Int} {value : Rat}
    (digit : 0 < mantissaBits) (pos : 0 < offset) (normal : 2 ^ mantissaBits ≤ bits)
    (between : BetweenMiddles mantissaBits (bias + offset) value (bits + offset * 2 ^ mantissaBits)) :
    BetweenMiddles mantissaBits bias value bits := by
  have parity : (bits + offset * 2 ^ mantissaBits) % 2 = bits % 2 := by
    grind
  have atBits := decode_rebias bias offset normal
  have atNext := decode_rebias bias offset (Nat.le_succ_of_le normal)
  have isNext : bits.succ + offset * 2 ^ mantissaBits = bits + offset * 2 ^ mantissaBits + 1 := by
    omega
  rw [isNext] at atNext
  have atLower := fun lower => decode_le_rebias mantissaBits lower bias pos
  have below := fun lower (isLower : lower + 1 = bits) =>
    between.below (lower + offset * 2 ^ mantissaBits) (by omega)
  refine ⟨?_, ?_, ?_, ?_⟩
  · intro lower isLower
    have := below lower isLower
    have := atLower lower
    linarith
  · have := between.above
    rw [atBits, atNext] at this
    exact this
  · intro lower isLower equal
    rw [← parity]
    have := below lower isLower
    have := atLower lower
    exact between.evenBelow (lower + offset * 2 ^ mantissaBits) (by omega) (by linarith)
  · intro equal
    rw [← parity]
    apply between.evenAbove
    rw [atBits, atNext]
    exact equal

end Itex.Lib.FloatBits
