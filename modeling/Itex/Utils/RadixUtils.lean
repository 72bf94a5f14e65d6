import Mathlib

/-!
Contract: keys of radix sorts as unsigned words (`utils/radix_utils.h`).

Owns: the conversions of `NumericTraits`, that they can be undone, and the order they give.
-/

namespace Itex.Utils

/-- The three instances of `NumericTraits`. -/
inductive KeyKind where
  | unsigned
  | signed
  | floating
  deriving DecidableEq, Repr

namespace KeyKind

variable {w : Nat}

def mask1 (w : Nat) : BitVec w := 1#w <<< (w - 1)

def mask2 (w : Nat) : BitVec w := ~~~mask1 w

/-- `Convert`, in ascending or descending order. -/
def convert : KeyKind → Bool → BitVec w → BitVec w
  | unsigned, false, key => key
  | unsigned, true, key => ~~~key
  | signed, false, key => key ^^^ mask1 w
  | signed, true, key => key ^^^ mask2 w
  | floating, false, key => key ^^^ if key &&& mask1 w = 0 then mask1 w else BitVec.allOnes w
  | floating, true, key => key ^^^ if key &&& mask1 w = 0 then mask2 w else 0

def convertBack : KeyKind → Bool → BitVec w → BitVec w
  | unsigned, false, key => key
  | unsigned, true, key => ~~~key
  | signed, false, key => key ^^^ mask1 w
  | signed, true, key => key ^^^ mask2 w
  | floating, false, key => key ^^^ if key &&& mask1 w = 0 then BitVec.allOnes w else mask1 w
  | floating, true, key => key ^^^ if key &&& mask1 w = 0 then mask2 w else 0

theorem mask1_eq (w : Nat) : mask1 w = BitVec.intMin w := by
  apply BitVec.eq_of_toNat_eq
  unfold mask1
  cases w with
  | zero => rfl
  | succ k =>
    have one : 1 % 2 ^ (k + 1) = 1 := Nat.mod_eq_of_lt (Nat.one_lt_two_pow (Nat.succ_ne_zero k))
    rw [BitVec.toNat_shiftLeft, BitVec.toNat_intMin, BitVec.toNat_ofNat, Nat.add_sub_cancel,
      Nat.shiftLeft_eq, one, Nat.one_mul]

theorem and_mask1_eq_zero (key : BitVec w) : key &&& mask1 w = 0 ↔ key.msb = false := by
  rw [mask1_eq]
  constructor
  · intro isZero
    have topBit : (key &&& BitVec.intMin w).msb = (0#w).msb := by
      rw [isZero]
      rfl
    cases w with
    | zero => simp [BitVec.msb, BitVec.getMsbD]
    | succ k =>
      rw [BitVec.msb_and, BitVec.msb_intMin, BitVec.msb_zero] at topBit
      simpa using topBit
  · intro pos
    apply BitVec.eq_of_getLsbD_eq
    intro i bound
    rw [BitVec.getLsbD_and, BitVec.getLsbD_intMin]
    by_cases isTop : i + 1 = w
    · rw [BitVec.msb_eq_getLsbD_last] at pos
      have isLast : i = w - 1 := by omega
      rw [isLast, pos]
      simp
    · simp [isTop]

/-! ## Words -/

theorem msb_xor_mask1 (pos : 0 < w) (key : BitVec w) : (key ^^^ mask1 w).msb = !key.msb := by
  rw [mask1_eq, BitVec.msb_xor, BitVec.msb_intMin, decide_eq_true pos, Bool.xor_true]

theorem toNat_xor_of_msb_false {key : BitVec w} (pos : 0 < w) (isFalse : key.msb = false) :
    (key ^^^ mask1 w).toNat = key.toNat + 2 ^ (w - 1) := by
  have apart : key &&& mask1 w = 0 := (and_mask1_eq_zero key).2 isFalse
  have isSum : key ^^^ mask1 w = key + mask1 w := by
    rw [BitVec.add_eq_or_of_and_eq_zero _ _ apart]
    apply BitVec.eq_of_getLsbD_eq
    intro i bound
    have bit := congrArg (fun word => word.getLsbD i) apart
    simp only [BitVec.getLsbD_and, BitVec.getLsbD_xor, BitVec.getLsbD_or] at bit ⊢
    cases h : key.getLsbD i <;> cases h' : (mask1 w).getLsbD i <;> simp_all
  have small := BitVec.toNat_lt_of_msb_false isFalse
  rw [isSum, BitVec.toNat_add, mask1_eq, BitVec.toNat_intMin_of_pos pos]
  apply Nat.mod_eq_of_lt
  have double := Nat.two_pow_pred_add_two_pow_pred pos
  omega

theorem toNat_xor_of_msb_true {key : BitVec w} (pos : 0 < w) (isTrue : key.msb = true) :
    (key ^^^ mask1 w).toNat + 2 ^ (w - 1) = key.toNat := by
  have flipped : (key ^^^ mask1 w).msb = false := by
    rw [msb_xor_mask1 pos, isTrue]
    rfl
  rw [← toNat_xor_of_msb_false pos flipped, BitVec.xor_assoc, BitVec.xor_self, BitVec.xor_zero]

theorem toNat_convert_signed (pos : 0 < w) (key : BitVec w) :
    ((convert signed false key).toNat : Int) = key.toInt + 2 ^ (w - 1) := by
  have double := Nat.two_pow_pred_add_two_pow_pred pos
  unfold convert
  rw [BitVec.toInt_eq_msb_cond]
  cases sign : key.msb with
  | false =>
    rw [toNat_xor_of_msb_false pos sign]
    simp
  | true =>
    have sum : ((key ^^^ mask1 w).toNat : Int) + 2 ^ (w - 1) = key.toNat := by
      exact_mod_cast toNat_xor_of_msb_true pos sign
    have doubleInt : (2 : Int) ^ w = 2 ^ (w - 1) + 2 ^ (w - 1) := by exact_mod_cast double.symm
    rw [if_pos rfl]
    push_cast
    omega

theorem convertBack_convert (kind : KeyKind) (descending : Bool) (pos : 0 < w) (key : BitVec w) :
    convertBack kind descending (convert kind descending key) = key := by
  have cancel : ∀ mask : BitVec w, key ^^^ mask ^^^ mask = key := by
    intro mask
    rw [BitVec.xor_assoc, BitVec.xor_self, BitVec.xor_zero]
  have same : ∀ word : BitVec w, word &&& mask1 w = 0 ↔ word.msb = false := and_mask1_eq_zero
  cases kind <;> cases descending
  · rfl
  · exact BitVec.not_not
  · exact cancel _
  · exact cancel _
  · unfold convert convertBack
    dsimp only
    simp only [same]
    cases sign : key.msb with
    | false => simp [msb_xor_mask1 pos, sign, cancel]
    | true => simp [sign, pos]
  · unfold convert convertBack
    dsimp only
    simp only [same]
    cases sign : key.msb with
    | false =>
      have kept : (key ^^^ mask2 w).msb = false := by
        unfold mask2
        rw [BitVec.msb_xor, BitVec.msb_not, mask1_eq, BitVec.msb_intMin, sign]
        simp [pos]
      simp [kept, cancel]
    | true => simp [sign]

end KeyKind

/-- `RadixExtractor::Bucket`. -/
def bucket (beginBit numBits : Nat) {w : Nat} (key : BitVec w) : Nat :=
  (key.toNat >>> beginBit) &&& (2 ^ numBits - 1)

theorem bucket_eq (beginBit numBits : Nat) {w : Nat} (key : BitVec w) :
    bucket beginBit numBits key = key.toNat / 2 ^ beginBit % 2 ^ numBits := by
  unfold bucket
  rw [Nat.and_two_pow_sub_one_eq_mod, Nat.shiftRight_eq_div_pow]

end Itex.Utils
