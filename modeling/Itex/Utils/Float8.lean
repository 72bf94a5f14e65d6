import Itex.Lib.FloatBits

/-!
Contract: conversions between 8-bit and other floating-point types
(`itex/core/utils/float8.h`).

Owns: the formats, the value of a bit pattern, and `ConvertImpl::run`.

A value is its bit pattern, a natural number below `2 ^ kBits`. Arithmetic on bit
patterns wraps at the width of the type that holds it.
-/

namespace Itex.Utils

/-! ## Formats -/

inductive FloatType where
  | double
  | float
  | bfloat16
  | half
  | float8E5m2
  | float8E4m3fn
  | float8E4m3b11
deriving DecidableEq, Repr

namespace FloatType

def isFloat8 : FloatType → Bool
  | .float8E5m2 | .float8E4m3fn | .float8E4m3b11 => true
  | .double | .float | .bfloat16 | .half => false

def kBits : FloatType → Nat
  | .double => 64
  | .float => 32
  | .bfloat16 | .half => 16
  | .float8E5m2 | .float8E4m3fn | .float8E4m3b11 => 8

/-- `std::numeric_limits<Float>::digits - 1`. -/
def kMantissaBits : FloatType → Nat
  | .double => 52
  | .float => 23
  | .bfloat16 => 7
  | .half => 10
  | .float8E5m2 => 2
  | .float8E4m3fn | .float8E4m3b11 => 3

def kExponentBits (type : FloatType) : Nat := type.kBits - type.kMantissaBits - 1

def kExponentBias : FloatType → Nat
  | .float8E4m3b11 => 11
  | type => 2 ^ (type.kExponentBits - 1) - 1

def kExponentMask (type : FloatType) : Nat := (2 ^ type.kExponentBits - 1) <<< type.kMantissaBits

/-- `std::numeric_limits<Float>::infinity()`; a NaN where there is no infinity. -/
def infinity : FloatType → Nat
  | .float8E4m3fn => 0x7F
  | .float8E4m3b11 => 0x80
  | type => type.kExponentMask

def quietNaN : FloatType → Nat
  | .float8E5m2 | .float8E4m3fn => 0x7F
  | .float8E4m3b11 => 0x80
  | type => type.kExponentMask ||| (1 <<< (type.kMantissaBits - 1))

/-- `std::numeric_limits<Float>::max()`. -/
def highest : FloatType → Nat
  | .float8E5m2 => 0x7B
  | .float8E4m3fn => 0x7E
  | .float8E4m3b11 => 0x7F
  | type => type.kExponentMask - 1

/-- `std::numeric_limits<Float>::min()`, the lowest normal value. -/
def lowestNormal (type : FloatType) : Nat := 1 <<< type.kMantissaBits

def magnitudeBits (type : FloatType) (x : Nat) : Nat := x % 2 ^ (type.kBits - 1)

def isNegative (type : FloatType) (x : Nat) : Bool := decide (2 ^ (type.kBits - 1) ≤ x)

/-- `abs`; the NaN of `float8_e4m3b11` has no sign to clear. -/
def abs : FloatType → Nat → Nat
  | .float8E4m3b11, x => if x % 2 ^ 7 = 0 then x else x % 2 ^ 7
  | type, x => type.magnitudeBits x

/-- `operator-`. -/
def negate : FloatType → Nat → Nat
  | .float8E4m3b11, x => if x % 2 ^ 7 = 0 then x else x ^^^ 0x80
  | type, x => x ^^^ 2 ^ (type.kBits - 1)

def isNan : FloatType → Nat → Bool
  | .float8E4m3fn, x => x % 2 ^ 7 = 0x7F
  | .float8E4m3b11, x => x = 0x80
  | type, x => type.kExponentMask < type.magnitudeBits x

def isInf : FloatType → Nat → Bool
  | .float8E4m3fn, _ | .float8E4m3b11, _ => false
  | type, x => type.magnitudeBits x = type.kExponentMask

def isFinite (type : FloatType) (x : Nat) : Bool := !type.isNan x && !type.isInf x

/-- The absolute value of a finite bit pattern. -/
def magnitude (type : FloatType) (x : Nat) : Rat :=
  Lib.FloatBits.decode type.kMantissaBits type.kExponentBias (type.magnitudeBits x)

def constructFromSignAndBits : FloatType → Nat → Nat → Nat
  | .float8E4m3b11, sign, bits => (bits ||| if bits = 0 then 0 else sign) % 2 ^ 8
  | type, sign, bits => (bits ||| sign) % 2 ^ type.kBits

end FloatType

section Convert

variable (src dst : FloatType)

/-- `kExponentOffset`. -/
def exponentOffset : Int := (dst.kExponentBias : Int) - src.kExponentBias

/-- A shift by `kDigitShift` from a mantissa of `src` to one of `dst`. -/
def shiftDigits (bits : Nat) : Nat :=
  if dst.kMantissaBits < src.kMantissaBits then
    bits >>> (src.kMantissaBits - dst.kMantissaBits)
  else bits <<< (dst.kMantissaBits - src.kMantissaBits)

def offsetBits (type : FloatType) (offset : Int) : Nat :=
  ((offset * 2 ^ type.kMantissaBits) % 2 ^ type.kBits).toNat

def toFromBits (bits : Nat) : Nat :=
  (shiftDigits dst src bits + offsetBits src (exponentOffset dst src)) % 2 ^ src.kBits

def roundBitsToNearestEven (width bits roundoff : Nat) : Nat :=
  let bias :=
    if roundoff = 0 then 0 else ((bits >>> roundoff) % 2) + (1 <<< (roundoff - 1)) - 1
  (bits + bias) % 2 ^ width

/-- The mantissa, rounded to the digits of `dst` and with a zero tail. -/
def adjustMantissa (kTruncate : Bool) (fromBits : Nat) : Nat :=
  if dst.kMantissaBits < src.kMantissaBits then
    let digits := src.kMantissaBits - dst.kMantissaBits
    let rounded :=
      if kTruncate then fromBits else roundBitsToNearestEven src.kBits fromBits digits
    (rounded >>> digits) <<< digits
  else fromBits

/-- A subnormal of `src` that is normal in `dst`. -/
def normalizeSubnormal (fromBits : Nat) : Nat :=
  let countlZero : Int := src.kBits - (Nat.log2 fromBits + 1 : Nat)
  let factor : Int := countlZero - (src.kBits - src.kMantissaBits) + 1
  let digitShift : Int := (dst.kMantissaBits : Int) - src.kMantissaBits
  let shifted := (fromBits <<< (factor + digitShift).toNat) % 2 ^ dst.kBits
  let mantissa := shifted ^^^ (shifted &&& (1 <<< dst.kMantissaBits))
  mantissa ||| ((exponentOffset src dst - factor + 1).toNat <<< dst.kMantissaBits)

/-- A value of `src` that is subnormal in `dst`. -/
def roundToSubnormal (kTruncate : Bool) (fromBits : Nat) : Nat :=
  let exponent : Int := ((fromBits >>> src.kMantissaBits : Nat) : Int) - src.kExponentBias
  let exponentShift : Int :=
    (src.kMantissaBits : Int) - dst.kMantissaBits - exponent - dst.kExponentBias + 1
  let mantissa := fromBits % 2 ^ src.kMantissaBits + 2 ^ src.kMantissaBits
  if exponentShift ≤ src.kMantissaBits + 1 then
    let rounded :=
      if kTruncate then mantissa
      else roundBitsToNearestEven src.kBits mantissa exponentShift.toNat
    (rounded >>> exponentShift.toNat) % 2 ^ dst.kBits
  else 0

/-- Bits shifted to `dst`, with the exponent moved by the difference of the biases. -/
def shiftBits (rounded : Nat) : Nat :=
  (shiftDigits src dst rounded + offsetBits dst (exponentOffset src dst)) % 2 ^ dst.kBits

/-- The bits of the result for a finite value that is not zero. -/
def convertBits (kSaturate kTruncate : Bool) (fromBits : Nat) : Nat :=
  let rounded := adjustMantissa src dst kTruncate fromBits
  -- The mask leaves the sign out, so it may be read off the absolute value.
  if 0 < exponentOffset src dst ∧ fromBits &&& src.kExponentMask = 0 then
    normalizeSubnormal src dst fromBits
  else if exponentOffset src dst < 0 ∧ toFromBits src dst dst.highest < rounded then
    if kSaturate then dst.highest else dst.infinity
  else if exponentOffset src dst < 0 ∧ rounded < toFromBits src dst dst.lowestNormal then
    roundToSubnormal src dst kTruncate fromBits
  else shiftBits src dst rounded

/-- `ConvertImpl<From, To, kSaturate, kTruncate>::run`. -/
def run (kSaturate kTruncate : Bool) (x : Nat) : Nat :=
  let fromSign := x ^^^ src.abs x
  let sign :=
    if src.kBits ≤ dst.kBits then fromSign <<< (dst.kBits - src.kBits)
    else fromSign >>> (src.kBits - dst.kBits)
  let fromBits := x ^^^ fromSign
  if src.isInf x then if sign ≠ 0 then dst.negate dst.infinity else dst.infinity
  else if src.isNan x then if sign ≠ 0 then dst.negate dst.quietNaN else dst.quietNaN
  else if fromBits = 0 then dst.constructFromSignAndBits sign 0
  else dst.constructFromSignAndBits sign (convertBits src dst kSaturate kTruncate fromBits)

/-- `ConvertFrom` and `ConvertTo`: the identity between equal types. -/
def convert (kSaturate kTruncate : Bool) (x : Nat) : Nat :=
  if src = dst then x else run src dst kSaturate kTruncate x

end Convert

end Itex.Utils
