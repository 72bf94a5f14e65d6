import Itex.Utils.Float8

/-!
Contract: saturating conversions between 8-bit and other floating-point types.

Owns: when `ConvertImpl::run` with `kSaturate` keeps a finite value finite and keeps
its sign.
-/

namespace Itex.Utils

open Itex.Lib FloatType

variable {bits fromBits x : Nat} {kTruncate : Bool}

/-- What saturation promises for one finite value. -/
structure Saturated (src dst : FloatType) (x result : Nat) : Prop where
  finite : dst.isFinite result = true
  sign : dst.magnitude result = 0 ∨ dst.isNegative result = src.isNegative x
  bounded : dst.magnitude result ≤ dst.magnitude dst.highest

/-- The pairs that `ConvertFrom` and `ConvertTo` instantiate. -/
def Instantiated (src dst : FloatType) : Prop :=
  src ≠ dst ∧ (src.isFloat8 = true ∨ dst.isFloat8 = true)

/-- Values that a conversion without a range check does not hold: halves that round up
past the largest `float8_e5m2`, and values of `float8_e4m3fn` whose exponent does not
fit into `float8_e4m3b11`. -/
def Overflows (kTruncate : Bool) (src dst : FloatType) (x : Nat) : Prop :=
  (src = .half ∧ dst = .float8E5m2 ∧ kTruncate = false ∧ 0x7B80 ≤ src.magnitudeBits x) ∨
  (src = .float8E4m3fn ∧ dst = .float8E4m3b11 ∧ (0x60 ≤ x ∧ x < 0x80 ∨ x = 0xE0))

instance (kTruncate : Bool) (src dst : FloatType) (x : Nat) : Decidable (Overflows kTruncate src dst x) :=
  inferInstanceAs (Decidable (_ ∨ _))

theorem magnitudeBits_le_highest {type : FloatType} (finite : type.isFinite x = true) :
    type.magnitudeBits x ≤ type.highest := by
  cases type with
  | float8E4m3fn =>
    simp only [isFinite, isNan, isInf, Bool.and_eq_true, Bool.not_eq_true', decide_eq_false_iff_not] at finite
    simp only [magnitudeBits, kBits, highest]
    omega
  | float8E4m3b11 =>
    simp only [magnitudeBits, kBits, highest]
    omega
  | _ =>
    simp only [isFinite, isNan, isInf, Bool.and_eq_true, Bool.not_eq_true', decide_eq_false_iff_not] at finite
    simp only [highest, kExponentMask, kExponentBits, kBits, kMantissaBits] at finite ⊢
    omega

theorem magnitudeBits_highest (type : FloatType) : type.magnitudeBits type.highest = type.highest := by
  cases type <;> decide

theorem saturated_iff {src dst : FloatType} {result : Nat} : Saturated src dst x result ↔ dst.isFinite result = true ∧
      (dst.magnitudeBits result = 0 ∨ dst.isNegative result = src.isNegative x) := by
  have zero : dst.magnitude result = 0 ↔ dst.magnitudeBits result = 0 :=
    FloatBits.decode_eq_zero _ _
  constructor
  · intro saturated
    exact ⟨saturated.finite, saturated.sign.imp_left zero.1⟩
  · rintro ⟨finite, sign⟩
    refine ⟨finite, sign.imp_left zero.2, ?_⟩
    apply FloatBits.decode_mono
    rw [magnitudeBits_highest]
    exact magnitudeBits_le_highest finite

/-- All values of the 8-bit types. -/
theorem float8_saturated_iff : ∀ src ∈ [FloatType.float8E5m2, .float8E4m3fn, .float8E4m3b11],
    ∀ dst ∈ [FloatType.double, .float, .bfloat16, .half, .float8E5m2, .float8E4m3fn,
      .float8E4m3b11], src ≠ dst → ∀ kTruncate : Bool, ∀ x < 256, src.isFinite x = true →
    ((dst.isFinite (run src dst true kTruncate x) = true ∧ (dst.magnitudeBits (run src dst true kTruncate x) = 0 ∨
        dst.isNegative (run src dst true kTruncate x) = src.isNegative x)) ↔ ¬ Overflows kTruncate src dst x) := by
  decide +kernel

theorem add_two_pow_xor {n b : Nat} (below : b < 2 ^ n) : (2 ^ n + b) ^^^ b = 2 ^ n := by
  apply Nat.eq_of_testBit_eq
  intro i
  rw [Nat.testBit_xor, Nat.testBit_two_pow]
  rcases Nat.lt_trichotomy i n with before | isTop | after
  · rw [Nat.testBit_two_pow_add_gt before, Bool.xor_self, decide_eq_false (Nat.ne_of_gt before)]
  · rw [isTop, Nat.testBit_two_pow_add_eq, Nat.testBit_lt_two_pow below]
    simp
  · have bound : 2 ^ n * 2 ≤ 2 ^ i := by
      rw [← Nat.pow_succ]
      exact Nat.pow_le_pow_right (by decide) after
    rw [Nat.testBit_lt_two_pow (by omega), Nat.testBit_lt_two_pow (by omega), decide_eq_false (Nat.ne_of_lt after)]
    rfl

/-- The sign bit of a wide value, moved to eight bits. -/
theorem sign_of_wide {k : Nat} (wide : 8 ≤ k) (inRange : x < 2 ^ k) :
    (x ^^^ (x % 2 ^ (k - 1))) >>> (k - 8) = if 2 ^ (k - 1) ≤ x then 128 else 0 := by
  have half : 2 ^ k = 2 ^ (k - 1) * 2 := by
    rw [← Nat.pow_succ]
    congr 1
    omega
  by_cases negative : 2 ^ (k - 1) ≤ x
  · have isRest : x % 2 ^ (k - 1) = x - 2 ^ (k - 1) := by
      rw [Nat.mod_eq_sub_mod negative, Nat.mod_eq_of_lt (by omega)]
    have isSum : x = 2 ^ (k - 1) + (x - 2 ^ (k - 1)) := by omega
    have isSign : x ^^^ (x - 2 ^ (k - 1)) = 2 ^ (k - 1) := by
      conv_lhs => rw [isSum]
      rw [Nat.add_sub_cancel_left, add_two_pow_xor (by omega)]
    rw [isRest, isSign, if_pos negative, Nat.shiftRight_eq_div_pow, Nat.pow_div (by omega) (by decide)]
    rw [show k - 1 - (k - 8) = 7 by omega]
  · rw [Nat.mod_eq_of_lt (by omega), Nat.xor_self, Nat.zero_shiftRight, if_neg negative]

theorem construct_finite : ∀ dst ∈ [FloatType.float8E5m2, .float8E4m3fn, .float8E4m3b11],
    ∀ bits < 128, ∀ negative : Bool, bits ≤ dst.highest →
    dst.isFinite (dst.constructFromSignAndBits (if negative then 128 else 0) bits) = true ∧
      (dst.magnitudeBits (dst.constructFromSignAndBits (if negative then 128 else 0) bits) = 0 ∨
        dst.isNegative (dst.constructFromSignAndBits (if negative then 128 else 0) bits) = negative) := by
  decide +kernel

/-! ## Conversions to a smaller range -/

/-- A conversion that drops mantissa digits and has a smaller exponent bias. -/
structure Narrowing (src dst : FloatType) : Prop where
  digits : dst.kMantissaBits < src.kMantissaBits
  bias : dst.kExponentBias < src.kExponentBias
  source : src.kExponentMask + 2 ^ src.kMantissaBits ≤ 2 ^ src.kBits
  hidden : src.kMantissaBits + 2 ≤ src.kBits
  lowest : 2 ^ dst.kMantissaBits ≤ dst.highest
  highest : dst.highest < 2 ^ dst.kBits
  range : dst.highest * 2 ^ (src.kMantissaBits - dst.kMantissaBits) +
    (src.kExponentBias - dst.kExponentBias) * 2 ^ src.kMantissaBits < 2 ^ src.kBits

theorem wide_constants : ∀ src ∈ [FloatType.double, .float, .bfloat16, .half],
    ∀ dst ∈ [FloatType.float8E5m2, .float8E4m3fn, .float8E4m3b11], ¬ (src = .half ∧ dst = .float8E5m2) →
    dst.kMantissaBits < src.kMantissaBits ∧ dst.kExponentBias < src.kExponentBias ∧
    src.kExponentMask + 2 ^ src.kMantissaBits ≤ 2 ^ src.kBits ∧
    src.kMantissaBits + 2 ≤ src.kBits ∧ 2 ^ dst.kMantissaBits ≤ dst.highest ∧ dst.highest < 2 ^ dst.kBits ∧
    dst.highest * 2 ^ (src.kMantissaBits - dst.kMantissaBits) +
      (src.kExponentBias - dst.kExponentBias) * 2 ^ src.kMantissaBits < 2 ^ src.kBits := by
  decide +kernel

theorem mem_float8 {type : FloatType} (narrow : type.isFloat8 = true) :
    type ∈ [FloatType.float8E5m2, .float8E4m3fn, .float8E4m3b11] := by
  revert narrow
  cases type <;> decide

theorem narrowing_of_wide {src dst : FloatType} (wide : src.isFloat8 = false)
    (narrow : dst.isFloat8 = true) (checked : ¬ (src = .half ∧ dst = .float8E5m2)) : Narrowing src dst := by
  have isWide : src ∈ [FloatType.double, .float, .bfloat16, .half] := by
    revert wide
    cases src <;> decide
  obtain ⟨digits, bias, source, hidden, lowest, highest, range⟩ :=
    wide_constants src isWide dst (mem_float8 narrow) checked
  exact { digits, bias, source, hidden, lowest, highest, range }

theorem roundBitsToNearestEven_eq {width tail : Nat} (room : bits + 2 ^ tail ≤ 2 ^ width) :
    roundBitsToNearestEven width bits tail = bits + FloatBits.roundingBias bits tail := by
  have small := FloatBits.roundingBias_lt bits tail
  unfold roundBitsToNearestEven
  have sameBias : (if tail = 0 then 0 else bits >>> tail % 2 + 1 <<< (tail - 1) - 1) =
      FloatBits.roundingBias bits tail := by
    unfold FloatBits.roundingBias
    rw [Nat.shiftRight_eq_div_pow, Nat.shiftLeft_eq, Nat.one_mul]
  rw [sameBias, Nat.mod_eq_of_lt (by omega)]

/-- The kept digits of a mantissa whose tail is dropped. -/
def headBits (kTruncate : Bool) (bits tail : Nat) : Nat :=
  if kTruncate then bits / 2 ^ tail else FloatBits.roundedHead bits tail

theorem le_headBits (kTruncate : Bool) (bits tail : Nat) : bits / 2 ^ tail ≤ headBits kTruncate bits tail := by
  unfold headBits FloatBits.roundedHead
  split
  · exact Nat.le_refl _
  · exact Nat.div_le_div_right (Nat.le_add_right _ _)

theorem headBits_le (kTruncate : Bool) {tail bound : Nat} (below : bits < bound * 2 ^ tail) :
    headBits kTruncate bits tail ≤ bound := by
  unfold headBits
  split
  · exact Nat.le_of_lt (Nat.div_lt_of_lt_mul (by rw [Nat.mul_comm]; exact below))
  · exact FloatBits.roundedHead_le below

/-- The places by which a value below the normal range of `dst` is shifted. -/
def subnormalShift (src dst : FloatType) (fromBits : Nat) : Nat :=
  src.kMantissaBits - dst.kMantissaBits +
    (src.kExponentBias - dst.kExponentBias - fromBits / 2 ^ src.kMantissaBits) + 1

namespace Narrowing

variable {src dst : FloatType} (narrowing : Narrowing src dst)
include narrowing

theorem offset_neg : exponentOffset src dst < 0 := by
  have := narrowing.bias
  unfold exponentOffset
  omega

theorem toFromBits_eq (inRange : bits ≤ dst.highest) :
    toFromBits src dst bits = bits * 2 ^ (src.kMantissaBits - dst.kMantissaBits) +
      (src.kExponentBias - dst.kExponentBias) * 2 ^ src.kMantissaBits := by
  have bounded : bits * 2 ^ (src.kMantissaBits - dst.kMantissaBits) +
      (src.kExponentBias - dst.kExponentBias) * 2 ^ src.kMantissaBits < 2 ^ src.kBits :=
    Nat.lt_of_le_of_lt (Nat.add_le_add_right (Nat.mul_le_mul_right _ inRange) _) narrowing.range
  have isOffset : exponentOffset dst src = ((src.kExponentBias - dst.kExponentBias : Nat) : Int) := by
    unfold exponentOffset
    rw [Nat.cast_sub (Nat.le_of_lt narrowing.bias)]
  have bitsOfOffset : offsetBits src (exponentOffset dst src) =
      (src.kExponentBias - dst.kExponentBias) * 2 ^ src.kMantissaBits := by
    unfold offsetBits
    rw [isOffset]
    have cast : (((src.kExponentBias - dst.kExponentBias : Nat) : Int) * 2 ^ src.kMantissaBits) %
        2 ^ src.kBits = (((src.kExponentBias - dst.kExponentBias) * 2 ^ src.kMantissaBits %
          2 ^ src.kBits : Nat) : Int) := by
      push_cast
      rfl
    rw [cast, Int.toNat_natCast, Nat.mod_eq_of_lt (by omega)]
  have digits := narrowing.digits
  unfold toFromBits shiftDigits
  rw [bitsOfOffset, if_neg (by omega), Nat.shiftLeft_eq, Nat.mod_eq_of_lt bounded]

/-- The mantissa has a zero tail, and its kept part is not below that of the value. -/
theorem adjustMantissa_eq (kTruncate : Bool) (finite : fromBits < src.kExponentMask) :
    adjustMantissa src dst kTruncate fromBits = headBits kTruncate fromBits (src.kMantissaBits - dst.kMantissaBits) *
        2 ^ (src.kMantissaBits - dst.kMantissaBits) := by
  have source := narrowing.source
  have tailFits : 2 ^ (src.kMantissaBits - dst.kMantissaBits) ≤ 2 ^ src.kMantissaBits :=
    Nat.pow_le_pow_right (by decide) (by omega)
  unfold adjustMantissa
  rw [if_pos narrowing.digits]
  dsimp only
  rw [Nat.shiftRight_eq_div_pow, Nat.shiftLeft_eq]
  cases kTruncate with
  | true => rfl
  | false =>
    rw [if_neg Bool.false_ne_true, roundBitsToNearestEven_eq (by omega)]
    rfl

/-- A value below the normal range of `dst` keeps its mantissa, with the hidden bit, less
the digits that its exponent is too low by. -/
theorem roundToSubnormal_eq (low : fromBits / 2 ^ src.kMantissaBits ≤ src.kExponentBias - dst.kExponentBias) :
    (roundToSubnormal src dst kTruncate fromBits = if subnormalShift src dst fromBits ≤ src.kMantissaBits + 1 then
        headBits kTruncate (fromBits % 2 ^ src.kMantissaBits + 2 ^ src.kMantissaBits)
          (subnormalShift src dst fromBits)
      else 0) ∧
    roundToSubnormal src dst kTruncate fromBits ≤ 2 ^ dst.kMantissaBits := by
  have digits := narrowing.digits
  have bias := narrowing.bias
  have shiftIs : (src.kMantissaBits : Int) - dst.kMantissaBits -
      (((fromBits / 2 ^ src.kMantissaBits : Nat) : Int) - src.kExponentBias) - dst.kExponentBias +
        1 = (subnormalShift src dst fromBits : Int) := by
    unfold subnormalShift
    omega
  have pos : src.kMantissaBits - dst.kMantissaBits < subnormalShift src dst fromBits := by
    unfold subnormalShift
    omega
  unfold roundToSubnormal
  dsimp only
  rw [Nat.shiftRight_eq_div_pow, shiftIs, Int.toNat_natCast]
  generalize subnormalShift src dst fromBits = shift at pos
  by_cases fits : shift ≤ src.kMantissaBits + 1
  swap
  · rw [if_neg fits, if_neg (by omega)]
    exact ⟨rfl, Nat.zero_le _⟩
  rw [if_pos fits, if_pos (by omega), Nat.shiftRight_eq_div_pow]
  have fraction := Nat.mod_lt fromBits (Nat.two_pow_pos src.kMantissaBits)
  generalize fromBits % 2 ^ src.kMantissaBits = fractionBits at fraction
  have isHead : (if kTruncate = true then fractionBits + 2 ^ src.kMantissaBits
      else roundBitsToNearestEven src.kBits (fractionBits + 2 ^ src.kMantissaBits) shift) /
        2 ^ shift = headBits kTruncate (fractionBits + 2 ^ src.kMantissaBits) shift := by
    cases kTruncate with
    | true => rfl
    | false =>
      have shiftRoom : 2 ^ shift ≤ 2 ^ (src.kMantissaBits + 1) :=
        Nat.pow_le_pow_right (by decide) fits
      have whole : 2 ^ (src.kMantissaBits + 2) ≤ 2 ^ src.kBits :=
        Nat.pow_le_pow_right (by decide) narrowing.hidden
      rw [Nat.pow_succ] at shiftRoom
      rw [Nat.pow_succ, Nat.pow_succ] at whole
      rw [if_neg Bool.false_ne_true, roundBitsToNearestEven_eq (by omega)]
      rfl
  -- The mantissa with its hidden bit is below a multiple of the last kept place.
  have below : fractionBits + 2 ^ src.kMantissaBits < 2 ^ (src.kMantissaBits + 1 - shift) * 2 ^ shift := by
    rw [← Nat.pow_add, Nat.sub_add_cancel fits, Nat.pow_succ]
    omega
  have kept : 2 ^ (src.kMantissaBits + 1 - shift) ≤ 2 ^ dst.kMantissaBits :=
    Nat.pow_le_pow_right (by decide) (by omega)
  have bounded : headBits kTruncate (fractionBits + 2 ^ src.kMantissaBits) shift ≤
      2 ^ dst.kMantissaBits := Nat.le_trans (headBits_le kTruncate below) kept
  rw [isHead, Nat.mod_eq_of_lt
    (Nat.lt_of_le_of_lt bounded (Nat.lt_of_le_of_lt narrowing.lowest narrowing.highest))]
  exact ⟨rfl, bounded⟩

/-- Moving the exponent down undoes the difference of the biases. -/
theorem shiftBits_eq {kept : Nat} (above : (src.kExponentBias - dst.kExponentBias) * 2 ^ dst.kMantissaBits ≤ kept) :
    shiftBits src dst (kept * 2 ^ (src.kMantissaBits - dst.kMantissaBits)) =
      (kept - (src.kExponentBias - dst.kExponentBias) * 2 ^ dst.kMantissaBits) % 2 ^ dst.kBits := by
  have isOffset : exponentOffset src dst * 2 ^ dst.kMantissaBits =
      -(((src.kExponentBias - dst.kExponentBias) * 2 ^ dst.kMantissaBits : Nat) : Int) := by
    unfold exponentOffset
    rw [Nat.cast_mul, Nat.cast_sub (Nat.le_of_lt narrowing.bias)]
    push_cast
    ring
  unfold shiftBits shiftDigits offsetBits
  rw [if_pos narrowing.digits, Nat.shiftRight_eq_div_pow, Nat.mul_div_cancel _ (Nat.two_pow_pos _), isOffset]
  generalize (src.kExponentBias - dst.kExponentBias) * 2 ^ dst.kMantissaBits = low at above
  have one : (0 : Int) < 2 ^ dst.kBits := by positivity
  have asInt : ((kept + ((-(low : Int)) % 2 ^ dst.kBits).toNat : Nat) : Int) % 2 ^ dst.kBits =
      ((kept - low : Nat) : Int) % 2 ^ dst.kBits := by
    rw [Nat.cast_add, Int.toNat_of_nonneg (Int.emod_nonneg _ (ne_of_gt one)), Int.add_emod_emod, Nat.cast_sub above]
    rfl
  exact_mod_cast asInt

/-- The three ranges of a finite value: above the highest value of `dst`, below its lowest
normal one, and those whose exponent moves by the difference of the biases. -/
theorem convertBits_eq (finite : fromBits < src.kExponentMask) :
    let kept := headBits kTruncate fromBits (src.kMantissaBits - dst.kMantissaBits)
    let offset := (src.kExponentBias - dst.kExponentBias) * 2 ^ dst.kMantissaBits
    convertBits src dst true kTruncate fromBits = if dst.highest + offset < kept then dst.highest
      else if kept < 2 ^ dst.kMantissaBits + offset then
        roundToSubnormal src dst kTruncate fromBits
      else kept - offset := by
  have digits := narrowing.digits
  have tailPos := Nat.two_pow_pos (src.kMantissaBits - dst.kMantissaBits)
  have isMantissa : 2 ^ src.kMantissaBits = 2 ^ dst.kMantissaBits * 2 ^ (src.kMantissaBits - dst.kMantissaBits) := by
    rw [← Nat.pow_add]
    congr 1
    omega
  have lowestIs : toFromBits src dst dst.lowestNormal =
      (2 ^ dst.kMantissaBits + (src.kExponentBias - dst.kExponentBias) * 2 ^ dst.kMantissaBits) *
        2 ^ (src.kMantissaBits - dst.kMantissaBits) := by
    unfold lowestNormal
    rw [Nat.one_shiftLeft, narrowing.toFromBits_eq narrowing.lowest, isMantissa, Nat.add_mul, Nat.mul_assoc]
  have highestIs : dst.highest * 2 ^ (src.kMantissaBits - dst.kMantissaBits) +
      (src.kExponentBias - dst.kExponentBias) * 2 ^ src.kMantissaBits =
      (dst.highest + (src.kExponentBias - dst.kExponentBias) * 2 ^ dst.kMantissaBits) *
        2 ^ (src.kMantissaBits - dst.kMantissaBits) := by
    rw [isMantissa, Nat.add_mul, Nat.mul_assoc]
  unfold convertBits
  dsimp only
  rw [if_neg fun up => absurd up.1 (Int.not_lt.2 (Int.le_of_lt narrowing.offset_neg)),
    narrowing.adjustMantissa_eq kTruncate finite, narrowing.toFromBits_eq (Nat.le_refl _),
    lowestIs, highestIs]
  simp only [narrowing.offset_neg, true_and, Nat.mul_lt_mul_right tailPos, if_true]
  split
  · rfl
  next notOver =>
    split
    · rfl
    next notLow =>
      have highest := narrowing.highest
      rw [narrowing.shiftBits_eq (Nat.le_trans (Nat.le_add_left _ _) (Nat.not_lt.1 notLow)),
        Nat.mod_eq_of_lt (by omega)]

theorem exponent_le_of_low (isLow : headBits kTruncate fromBits (src.kMantissaBits - dst.kMantissaBits) <
      2 ^ dst.kMantissaBits + (src.kExponentBias - dst.kExponentBias) * 2 ^ dst.kMantissaBits) :
    fromBits / 2 ^ src.kMantissaBits ≤ src.kExponentBias - dst.kExponentBias := by
  have digits := narrowing.digits
  have notBelow := le_headBits kTruncate fromBits (src.kMantissaBits - dst.kMantissaBits)
  have isMantissa : 2 ^ src.kMantissaBits = 2 ^ (src.kMantissaBits - dst.kMantissaBits) * 2 ^ dst.kMantissaBits := by
    rw [← Nat.pow_add]
    congr 1
    omega
  rw [isMantissa, ← Nat.div_div_eq_div_mul, ← Nat.lt_succ_iff, Nat.div_lt_iff_lt_mul (Nat.two_pow_pos _), Nat.succ_mul]
  omega

theorem convertBits_le (finite : fromBits < src.kExponentMask) :
    convertBits src dst true kTruncate fromBits ≤ dst.highest := by
  rw [narrowing.convertBits_eq finite]
  split
  · exact Nat.le_refl _
  next notOver =>
    split
    next isLow =>
      exact Nat.le_trans (narrowing.roundToSubnormal_eq (narrowing.exponent_le_of_low isLow)).2
        narrowing.lowest
    next notLow => omega

end Narrowing

/-! ## All pairs -/

theorem wide_isFinite {src : FloatType} (wide : src.isFloat8 = false)
    (finite : src.isFinite x = true) : src.magnitudeBits x < src.kExponentMask := by
  cases src with
  | float8E5m2 => cases wide
  | float8E4m3fn => cases wide
  | float8E4m3b11 => cases wide
  | _ =>
    simp only [isFinite, isNan, isInf, Bool.and_eq_true, Bool.not_eq_true', decide_eq_false_iff_not] at finite
    omega

theorem run_of_wide {src dst : FloatType} (wide : src.isFloat8 = false)
    (narrow : dst.isFloat8 = true) (kTruncate : Bool) (inRange : x < 2 ^ src.kBits)
    (finite : src.isFinite x = true) : run src dst true kTruncate x = dst.constructFromSignAndBits
      (if src.isNegative x then 128 else 0) (if src.magnitudeBits x = 0 then 0
        else convertBits src dst true kTruncate (src.magnitudeBits x)) := by
  have isAbs : src.abs x = src.magnitudeBits x := by
    cases src with
    | float8E4m3b11 => cases wide
    | _ => rfl
  have widths : dst.kBits = 8 ∧ 8 < src.kBits := by
    revert wide narrow
    cases src <;> cases dst <;> decide
  have notNan : src.isNan x = false ∧ src.isInf x = false := by
    simpa [isFinite] using finite
  have isSign := sign_of_wide (Nat.le_of_lt widths.2) inRange
  have sameBits : x ^^^ (x ^^^ src.magnitudeBits x) = src.magnitudeBits x := by
    rw [← Nat.xor_assoc, Nat.xor_self, Nat.zero_xor]
  have sameSign : (if 2 ^ (src.kBits - 1) ≤ x then 128 else 0) = if src.isNegative x then 128 else 0 := by
    simp [isNegative]
  unfold run
  simp only [isAbs, sameBits, notNan.1, notNan.2, Bool.false_eq_true, if_false]
  rw [widths.1, if_neg (Nat.not_le.2 widths.2)]
  unfold magnitudeBits at isSign ⊢
  rw [isSign, sameSign]
  split <;> rfl

theorem half_convertBits (kTruncate : Bool) (finite : fromBits < 0x7C00) :
    convertBits .half .float8E5m2 true kTruncate fromBits =
      if kTruncate then fromBits / 256 else (fromBits + (fromBits / 256 % 2 + 127)) / 256 := by
  have noOffset : exponentOffset .half .float8E5m2 = 0 := by decide
  unfold convertBits shiftBits shiftDigits offsetBits adjustMantissa roundBitsToNearestEven
  simp only [noOffset, Int.lt_irrefl, false_and, if_false, kMantissaBits, kBits,
    Nat.shiftRight_eq_div_pow, Nat.shiftLeft_eq]
  cases kTruncate <;> simp <;> omega

theorem wide_saturated {src dst : FloatType} (wide : src.isFloat8 = false)
    (narrow : dst.isFloat8 = true) (inRange : x < 2 ^ src.kBits)
    (finite : src.isFinite x = true)
    (bounded : convertBits src dst true kTruncate (src.magnitudeBits x) ≤ dst.highest) :
    Saturated src dst x (run src dst true kTruncate x) := by
  rw [saturated_iff, run_of_wide wide narrow kTruncate inRange finite]
  have top : dst.highest < 128 := by
    revert narrow
    cases dst <;> decide
  have bits : (if src.magnitudeBits x = 0 then 0
      else convertBits src dst true kTruncate (src.magnitudeBits x)) ≤ dst.highest := by
    split
    · exact Nat.zero_le _
    · exact bounded
  exact construct_finite dst (mem_float8 narrow) _ (Nat.lt_of_le_of_lt bits top)
    (src.isNegative x) bits

/-- A half whose bits round up to the exponent of the infinities becomes infinite. -/
theorem half_saturated_iff (kTruncate : Bool) (inRange : x < 2 ^ half.kBits)
    (finite : half.isFinite x = true) : Saturated .half .float8E5m2 x (run .half .float8E5m2 true kTruncate x) ↔
      ¬ Overflows kTruncate .half .float8E5m2 x := by
  have below : half.magnitudeBits x < 0x7C00 := wide_isFinite rfl finite
  have isBits := half_convertBits kTruncate below
  constructor
  · rintro saturated (⟨-, -, rounds, high⟩ | ⟨isFn, -⟩)
    swap
    · cases isFn
    have atTop : convertBits .half .float8E5m2 true kTruncate (half.magnitudeBits x) = 0x7C := by
      rw [isBits, rounds, if_neg Bool.false_ne_true]
      omega
    have notZero : ¬ half.magnitudeBits x = 0 := by omega
    have stays := saturated.finite
    rw [run_of_wide rfl rfl kTruncate inRange finite, atTop, if_neg notZero] at stays
    revert stays
    cases half.isNegative x <;> decide
  · intro fits
    apply wide_saturated rfl rfl inRange finite
    rw [isBits]
    show _ ≤ 0x7B
    cases kTruncate with
    | true =>
      rw [if_pos rfl]
      omega
    | false =>
      have low : half.magnitudeBits x < 0x7B80 := by
        by_contra high
        exact fits (.inl ⟨rfl, rfl, rfl, Nat.not_lt.1 high⟩)
      rw [if_neg Bool.false_ne_true]
      omega

/-- A saturating conversion keeps a finite value finite, with its sign, exactly where the
exponent range of the target holds it or is checked. -/
theorem convert_saturated_iff {src dst : FloatType} (instantiated : Instantiated src dst)
    (kTruncate : Bool) {x : Nat} (inRange : x < 2 ^ src.kBits) (finite : src.isFinite x = true) :
    Saturated src dst x (convert src dst true kTruncate x) ↔ ¬ Overflows kTruncate src dst x := by
  have isRun : convert src dst true kTruncate x = run src dst true kTruncate x :=
    if_neg instantiated.1
  rw [isRun]
  cases wide : src.isFloat8 with
  | true =>
    have isByte : src.kBits = 8 := by
      revert wide
      cases src <;> decide
    have isTarget : dst ∈ [FloatType.double, .float, .bfloat16, .half, .float8E5m2,
        .float8E4m3fn, .float8E4m3b11] := by
      cases dst <;> decide
    rw [saturated_iff]
    rw [isByte] at inRange
    exact float8_saturated_iff src (mem_float8 wide) dst isTarget instantiated.1 kTruncate x
      inRange finite
  | false =>
    have narrow : dst.isFloat8 = true := by
      simpa [wide] using instantiated.2
    by_cases isHalf : src = .half ∧ dst = .float8E5m2
    · obtain ⟨rfl, rfl⟩ := isHalf
      exact half_saturated_iff kTruncate inRange finite
    · have narrowing := narrowing_of_wide wide narrow isHalf
      have fits : ¬ Overflows kTruncate src dst x := by
        rintro (⟨fromHalf, toE5m2, -⟩ | ⟨fromFn, -⟩)
        · exact isHalf ⟨fromHalf, toE5m2⟩
        · rw [fromFn] at wide
          cases wide
      refine iff_of_true ?_ fits
      exact wide_saturated wide narrow inRange finite
        (narrowing.convertBits_le (wide_isFinite wide finite))

/-- The largest float saturates to the largest `float8_e4m3fn`. -/
theorem largest_float_saturated :
    Saturated .float .float8E4m3fn 0x7F7FFFFF (convert .float .float8E4m3fn true false 0x7F7FFFFF) :=
  (convert_saturated_iff (by unfold Instantiated; decide) false (by decide) (by decide)).2
    (by decide)

/-- The largest half becomes an infinite `float8_e5m2`. -/
theorem largest_half_infinite : half.isFinite 0x7BFF = true ∧ convert .half .float8E5m2 true false 0x7BFF = 0x7C ∧
      float8E5m2.isFinite 0x7C = false ∧
      ¬ Saturated .half .float8E5m2 0x7BFF (convert .half .float8E5m2 true false 0x7BFF) := by
  refine ⟨by decide, by decide +kernel, by decide, ?_⟩
  intro saturated
  have stays := saturated.finite
  revert stays
  decide +kernel

end Itex.Utils
