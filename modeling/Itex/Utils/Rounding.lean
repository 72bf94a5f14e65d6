import Itex.Lib.NearestEven
import Itex.Utils.Saturation

/-!
Contract: rounding of conversions from a wide floating-point type to an 8-bit one.

Owns: that `ConvertImpl::run` with its default arguments returns the nearest value, ties
to the even mantissa, wherever the exponent range is checked.
-/

namespace Itex.Utils

open Itex.Lib FloatType

/-- The value of a finite bit pattern. -/
def FloatType.value (type : FloatType) (x : Nat) : Rat :=
  if type.isNegative x then -type.magnitude x else type.magnitude x

/-- The result is the finite value nearest to that of `x`; of two that are as near, the one
with an even mantissa. The zero of `float8_e4m3b11` has no sign. -/
structure CorrectlyRounded (src dst : FloatType) (x result : Nat) : Prop where
  inRange : result < 2 ^ dst.kBits
  finite : dst.isFinite result = true
  nearest : ∀ other < 2 ^ dst.kBits, dst.isFinite other = true →
    |src.value x - dst.value result| ≤ |src.value x - dst.value other|
  tiesToEven : ∀ other < 2 ^ dst.kBits, dst.isFinite other = true → dst.value other ≠ dst.value result →
    |src.value x - dst.value result| = |src.value x - dst.value other| → result % 2 = 0
  saturates : dst.magnitude dst.highest ≤ src.magnitude x → dst.magnitudeBits result = dst.highest
  sign : dst.isNegative result = (src.isNegative x && !decide (dst = .float8E4m3b11 ∧ dst.magnitudeBits result = 0))

/-- A narrowing conversion whose exponents differ by more than the digits of `dst`. -/
structure DeepNarrowing (src dst : FloatType) : Prop extends Narrowing src dst where
  digit : 0 < dst.kMantissaBits
  depth : dst.kMantissaBits < src.kExponentBias - dst.kExponentBias

theorem deepNarrowing_of_wide {src dst : FloatType} (wide : src.isFloat8 = false)
    (narrow : dst.isFloat8 = true) (checked : ¬ (src = .half ∧ dst = .float8E5m2)) : DeepNarrowing src dst := by
  have isWide : src ∈ [FloatType.double, .float, .bfloat16, .half] := by
    revert wide
    cases src <;> decide
  have constants : ∀ src ∈ [FloatType.double, .float, .bfloat16, .half],
      ∀ dst ∈ [FloatType.float8E5m2, .float8E4m3fn, .float8E4m3b11],
      ¬ (src = .half ∧ dst = .float8E5m2) → 0 < dst.kMantissaBits ∧
        dst.kMantissaBits < src.kExponentBias - dst.kExponentBias := by
    decide +kernel
  have known := constants src isWide dst (mem_float8 narrow) checked
  exact { narrowing_of_wide wide narrow checked with digit := known.1, depth := known.2 }

namespace DeepNarrowing

variable {src dst : FloatType} (narrowing : DeepNarrowing src dst)
include narrowing

theorem decode_source (fromBits : Nat) : ∃ tail offset, src.kMantissaBits - dst.kMantissaBits = tail + 1 ∧
      src.kExponentBias - dst.kExponentBias = offset ∧
      src.kMantissaBits = dst.kMantissaBits + (tail + 1) ∧
      FloatBits.decode src.kMantissaBits src.kExponentBias fromBits =
        FloatBits.decode (dst.kMantissaBits + (tail + 1)) ((dst.kExponentBias : Int) + offset)
          fromBits := by
  have digits := narrowing.digits
  have bias := narrowing.bias
  refine ⟨src.kMantissaBits - dst.kMantissaBits - 1, src.kExponentBias - dst.kExponentBias,
    by omega, rfl, by omega, ?_⟩
  congr 1
  · omega
  · rw [Nat.cast_sub (Nat.le_of_lt bias)]
    ring

theorem roundToSubnormal_nearest {fromBits : Nat}
    (low : fromBits / 2 ^ src.kMantissaBits ≤ src.kExponentBias - dst.kExponentBias) :
    FloatBits.BetweenMiddles dst.kMantissaBits dst.kExponentBias
      (FloatBits.decode src.kMantissaBits src.kExponentBias fromBits) (roundToSubnormal src dst false fromBits) := by
  have depth := narrowing.depth
  have isShifted := @Narrowing.roundToSubnormal_eq _ false _ _ narrowing.toNarrowing low
  obtain ⟨tail, offset, isTail, isOffset, isDigits, isValue⟩ := narrowing.decode_source fromBits
  rw [isValue]
  have bounded := isShifted.2
  rw [isShifted.1] at bounded ⊢
  revert bounded
  unfold subnormalShift
  rw [isOffset] at low depth
  rw [isTail, isOffset]
  rw [isDigits] at low ⊢
  split
  next fits =>
    intro bounded
    apply FloatBits.betweenMiddles_of_scaled
    · exact FloatBits.decode_scaled dst.kExponentBias (by omega) low
    · refine Nat.lt_of_le_of_lt bounded ?_
      rw [Nat.pow_succ]
      have := Nat.two_pow_pos dst.kMantissaBits
      omega
  next tooLow =>
    intro _
    apply FloatBits.betweenMiddles_zero
    apply FloatBits.decode_tiny
    omega

theorem convertBits_nearest {fromBits : Nat} (finite : fromBits < src.kExponentMask) :
    FloatBits.Nearest dst.kMantissaBits dst.kExponentBias dst.highest
      (FloatBits.decode src.kMantissaBits src.kExponentBias fromBits) (convertBits src dst true false fromBits) := by
  have lowest := narrowing.lowest
  have depth := narrowing.depth
  have inRange := @Narrowing.convertBits_le _ false _ _ narrowing.toNarrowing finite
  have subnormal := @roundToSubnormal_nearest _ _ narrowing fromBits
  have isLowExponent := @Narrowing.exponent_le_of_low fromBits false _ _ narrowing.toNarrowing
  obtain ⟨tail, offset, isTail, isOffset, -, isValue⟩ := narrowing.decode_source fromBits
  rw [isValue] at subnormal ⊢
  have rounded := FloatBits.roundedHead_betweenMiddles dst.kMantissaBits tail
    ((dst.kExponentBias : Int) + offset) fromBits
  revert inRange
  rw [narrowing.convertBits_eq finite]
  unfold headBits at *
  simp only [Bool.false_eq_true, if_false, isTail, isOffset] at *
  generalize FloatBits.roundedHead fromBits (tail + 1) = kept at *
  split
  next isOver =>
    intro _
    apply FloatBits.nearest_top
    -- The pattern below the rounded one is still not below the highest value.
    have isSucc : kept - 1 + 1 = kept := by omega
    have middle := rounded.below (kept - 1) isSucc
    have atTop := FloatBits.decode_rebias (dst.kExponentBias : Int) offset lowest
    have mono := FloatBits.decode_mono dst.kMantissaBits ((dst.kExponentBias : Int) + offset)
    have below := mono (show dst.highest + offset * 2 ^ dst.kMantissaBits ≤ kept - 1 by omega)
    have above := mono (show kept - 1 ≤ kept by omega)
    linarith
  next =>
    split
    next isLow =>
      intro inRange
      exact FloatBits.nearest_of_betweenMiddles inRange (subnormal (isLowExponent isLow))
    next notLow =>
      intro inRange
      apply FloatBits.nearest_of_betweenMiddles inRange
      have pos : 0 < offset := by omega
      have lowestPos := Nat.two_pow_pos dst.kMantissaBits
      have normal : 2 ^ dst.kMantissaBits ≤ kept - offset * 2 ^ dst.kMantissaBits := by omega
      apply FloatBits.BetweenMiddles.rebias narrowing.digit pos normal
      rw [Nat.sub_add_cancel (by omega)]
      exact rounded

end DeepNarrowing

/-! ## Signed values -/

/-- Reading back the bits that were joined with a sign. -/
theorem construct_parts : ∀ dst ∈ [FloatType.float8E5m2, .float8E4m3fn, .float8E4m3b11],
    ∀ bits < 128, ∀ negative : Bool, bits ≤ dst.highest →
    let result := dst.constructFromSignAndBits (if negative then 128 else 0) bits
    result < 2 ^ dst.kBits ∧ dst.isFinite result = true ∧ dst.magnitudeBits result = bits ∧ result % 2 = bits % 2 ∧
      dst.isNegative result = (negative && !decide (dst = .float8E4m3b11 ∧ bits = 0)) := by
  decide +kernel

theorem value_eq_neg_or (type : FloatType) (x : Nat) :
    type.value x = type.magnitude x ∨ type.value x = -type.magnitude x := by
  unfold FloatType.value
  split
  · exact .inr rfl
  · exact .inl rfl

theorem abs_value (type : FloatType) (x : Nat) : |type.value x| = type.magnitude x := by
  have nonneg : 0 ≤ type.magnitude x := by
    have atZero := (FloatBits.decode_eq_zero type.kMantissaBits type.kExponentBias).2 rfl
    rw [← atZero]
    exact FloatBits.decode_mono _ _ (Nat.zero_le _)
  rcases value_eq_neg_or type x with same | opposite
  · rw [same, abs_of_nonneg nonneg]
  · rw [opposite, abs_neg, abs_of_nonneg nonneg]

theorem distance_eq {src dst : FloatType} {x result : Nat}
    (sign : dst.magnitude result = 0 ∨ dst.isNegative result = src.isNegative x) :
    |src.value x - dst.value result| = |src.magnitude x - dst.magnitude result| := by
  rcases sign with isZero | same
  · have atZero : dst.value result = 0 := by
      rw [← abs_eq_zero, abs_value, isZero]
    have nonneg : 0 ≤ src.magnitude x := abs_value src x ▸ abs_nonneg _
    rw [atZero, isZero, sub_zero, sub_zero, abs_value, abs_of_nonneg nonneg]
  · unfold FloatType.value
    rw [same]
    split
    · rw [← abs_neg]
      congr 1
      ring
    · rfl

/-- Any other value is at least as far as its magnitude. -/
theorem distance_ge (src dst : FloatType) (x other : Nat) :
    |src.magnitude x - dst.magnitude other| ≤ |src.value x - dst.value other| := by
  rw [← abs_value, ← abs_value]
  exact abs_abs_sub_abs_le_abs_sub _ _

/-- A conversion from a wide type to an 8-bit one is correctly rounded wherever it checks
the exponent range. -/
theorem run_correctlyRounded {src dst : FloatType} (wide : src.isFloat8 = false)
    (narrow : dst.isFloat8 = true) (checked : ¬ (src = .half ∧ dst = .float8E5m2)) {x : Nat}
    (inRange : x < 2 ^ src.kBits) (finite : src.isFinite x = true) :
    CorrectlyRounded src dst x (run src dst true false x) := by
  have top : dst.highest < 128 := by
    revert narrow
    cases dst <;> decide
  have topBits : dst.magnitudeBits dst.highest = dst.highest := by
    revert narrow
    cases dst <;> decide
  -- The bits of the result, zero included.
  have isNearest : FloatBits.Nearest dst.kMantissaBits dst.kExponentBias dst.highest
      (src.magnitude x) (if src.magnitudeBits x = 0 then 0
        else convertBits src dst true false (src.magnitudeBits x)) := by
    unfold FloatType.magnitude
    split
    next isZero =>
      rw [isZero, (FloatBits.decode_eq_zero _ _).2 rfl]
      apply FloatBits.nearest_of_betweenMiddles (Nat.zero_le _)
      apply FloatBits.betweenMiddles_zero
      rw [mul_zero]
      positivity
    next =>
      exact (deepNarrowing_of_wide wide narrow checked).convertBits_nearest
        (wide_isFinite wide finite)
  rw [run_of_wide wide narrow false inRange finite]
  generalize (if src.magnitudeBits x = 0 then 0
    else convertBits src dst true false (src.magnitudeBits x)) = bits at isNearest
  have parts := construct_parts dst (mem_float8 narrow) bits
    (Nat.lt_of_le_of_lt isNearest.inRange top) (src.isNegative x) isNearest.inRange
  generalize dst.constructFromSignAndBits (if src.isNegative x then 128 else 0) bits = result at *
  obtain ⟨resultInRange, resultFinite, isBits, parity, isSign⟩ := parts
  have isMagnitude : dst.magnitude result = FloatBits.decode dst.kMantissaBits dst.kExponentBias bits := by
    unfold FloatType.magnitude
    rw [isBits]
  have sign : dst.magnitude result = 0 ∨ dst.isNegative result = src.isNegative x := by
    rw [isMagnitude, FloatBits.decode_eq_zero, isSign]
    by_cases isZero : bits = 0
    · exact .inl isZero
    · right
      simp [isZero]
  have distance := distance_eq sign
  rw [isMagnitude] at distance
  have nearest : ∀ other, dst.isFinite other = true →
      |src.magnitude x - FloatBits.decode dst.kMantissaBits dst.kExponentBias bits| ≤
        |src.magnitude x - dst.magnitude other| :=
    fun other isFinite => isNearest.nearest _ (magnitudeBits_le_highest isFinite)
  refine ⟨resultInRange, resultFinite, ?_, ?_, ?_, ?_⟩
  · intro other _ isFinite
    rw [distance]
    exact le_trans (nearest other isFinite) (distance_ge src dst x other)
  · intro other _ isFinite isOther equal
    rw [distance] at equal
    have sameDistance : |src.magnitude x -
        FloatBits.decode dst.kMantissaBits dst.kExponentBias bits| =
        |src.magnitude x - dst.magnitude other| :=
      le_antisymm (nearest other isFinite) (by rw [equal]; exact distance_ge src dst x other)
    rw [parity]
    by_cases sameBits : dst.magnitudeBits other = bits
    swap
    · exact isNearest.tiesToEven _ (magnitudeBits_le_highest isFinite) sameBits sameDistance
    -- The same magnitude with another sign is as near only when it is zero.
    suffices isZero : FloatBits.decode dst.kMantissaBits dst.kExponentBias bits = 0 by
      rw [(FloatBits.decode_eq_zero _ _).1 isZero]
    have sameMagnitude : |dst.value other| = |dst.value result| := by
      rw [abs_value, abs_value]
      unfold FloatType.magnitude
      rw [sameBits, isBits]
    rcases abs_eq_abs.1 sameMagnitude with same | opposite
    · exact absurd same isOther
    rw [← distance, opposite] at equal
    rcases abs_eq_abs.1 equal with resultZero | sourceZero
    · rw [← isMagnitude, ← abs_value, abs_eq_zero]
      linarith
    · have atZero : src.magnitude x = 0 := by
        rw [← abs_value, abs_eq_zero]
        linarith
      have closest := isNearest.nearest 0 (Nat.zero_le _)
      rw [atZero, (FloatBits.decode_eq_zero _ _).2 rfl, sub_zero, zero_sub, abs_neg, abs_zero] at closest
      exact abs_nonpos_iff.1 closest
  · intro beyond
    rw [isBits]
    apply isNearest.eq_top
    unfold FloatType.magnitude at beyond
    rw [topBits] at beyond
    exact beyond
  · rw [isBits]
    exact isSign

/-- A float halfway between two subnormals of `float8_e5m2` goes to the even one. -/
theorem subnormal_tie_rounded :
    CorrectlyRounded .float .float8E5m2 0xB7C00000 (run .float .float8E5m2 true false 0xB7C00000) ∧
      run .float .float8E5m2 true false 0xB7C00000 = 0x82 :=
  ⟨run_correctlyRounded (by decide) (by decide) (by decide) (by decide) (by decide), by decide +kernel⟩

end Itex.Utils
