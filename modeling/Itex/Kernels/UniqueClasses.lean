import Itex.Kernels.UniqueStages

/-!
Contract: the classes of equal keys.

Owns: a rank that is the same for equal keys and follows the radix order, and that the runs of
the sorted keys are the classes.
-/

namespace Itex.Kernels.Unique

open Itex.Lib Itex.Utils

/-! ## Ranks -/

def positiveZero : BitVec 32 := 0

def negativeZero : BitVec 32 := 0x80000000#32

/-- The radix key, where the two zeros of floats have one. -/
def rank (keyType : KeyType) (key : BitVec 32) : Nat :=
  if keyType = .float32 ∧ key = negativeZero then 2 ^ 31 else (keyType.kind.convert false key).toNat

theorem convert_injective (keyType : KeyType) {first second : BitVec 32}
    (same : (keyType.kind.convert false first).toNat = (keyType.kind.convert false second).toNat) : first = second := by
  have converted := BitVec.eq_of_toNat_eq same
  rw [← KeyKind.convertBack_convert keyType.kind false (by decide) first, converted,
    KeyKind.convertBack_convert keyType.kind false (by decide) second]

theorem convert_negativeZero : (KeyType.float32.kind.convert false negativeZero).toNat = 2 ^ 31 - 1 := by decide

theorem convert_positiveZero : (KeyType.float32.kind.convert false positiveZero).toNat = 2 ^ 31 := by decide

theorem rank_mono (keyType : KeyType) {first second : BitVec 32}
    (le : (keyType.kind.convert false first).toNat ≤ (keyType.kind.convert false second).toNat) :
    rank keyType first ≤ rank keyType second := by
  unfold rank
  split
  next isZero =>
    obtain ⟨isFloat, isNegative⟩ := isZero
    rw [isFloat, isNegative, convert_negativeZero] at le
    rw [isFloat]
    split
    · exact Nat.le_refl _
    next other =>
      have notSame : (KeyType.float32.kind.convert false second).toNat ≠ 2 ^ 31 - 1 := by
        intro same
        rw [← convert_negativeZero] at same
        exact other ⟨rfl, convert_injective .float32 same⟩
      omega
  · split
    next isZero =>
      obtain ⟨isFloat, isNegative⟩ := isZero
      rw [isFloat, isNegative, convert_negativeZero] at le
      rw [isFloat]
      omega
    · exact le

theorem and_mask_eq_zero_iff (key : BitVec 32) :
    key &&& 0x7FFFFFFF#32 = 0 ↔ key = positiveZero ∨ key = negativeZero := by
  have masked : (key &&& 0x7FFFFFFF#32).toNat = key.toNat % 2 ^ 31 := by
    rw [BitVec.toNat_and]
    exact Nat.and_two_pow_sub_one_eq_mod _ 31
  have bound := key.isLt
  unfold positiveZero negativeZero
  rw [← BitVec.toNat_inj, ← BitVec.toNat_inj, ← BitVec.toNat_inj, masked]
  show key.toNat % 2 ^ 31 = 0 ↔ key.toNat = 0 ∨ key.toNat = 2 ^ 31
  omega

theorem rank_float_eq_iff (first second : BitVec 32) : rank .float32 first = rank .float32 second ↔ first = second ∨
      ((first = positiveZero ∨ first = negativeZero) ∧ (second = positiveZero ∨ second = negativeZero)) := by
  have ofPositive : ∀ key, (KeyType.float32.kind.convert false key).toNat = 2 ^ 31 → key = positiveZero := by
    intro key isPositive
    rw [← convert_positiveZero] at isPositive
    exact convert_injective .float32 isPositive
  constructor
  · intro same
    unfold rank at same
    by_cases isFirst : first = negativeZero
    · grind
    · by_cases isSecond : second = negativeZero
      · rw [if_neg fun both => isFirst both.2, if_pos ⟨rfl, isSecond⟩] at same
        exact Or.inr ⟨Or.inl (ofPositive first same), Or.inr isSecond⟩
      · rw [if_neg fun both => isFirst both.2, if_neg fun both => isSecond both.2] at same
        exact Or.inl (convert_injective .float32 same)
  · intro related
    have ofZero : ∀ key, key = positiveZero ∨ key = negativeZero → rank .float32 key = 2 ^ 31 := by
      intro key isZero
      rcases isZero with isPositive | isNegative
      · rw [isPositive]
        decide
      · rw [isNegative]
        decide
    rcases related with same | ⟨firstZero, secondZero⟩
    · rw [same]
    · rw [ofZero first firstZero, ofZero second secondZero]

theorem equal_iff_rank {keyType : KeyType} {first second : BitVec 32}
    (firstNumber : keyType.isNaN first = false) (secondNumber : keyType.isNaN second = false) :
    keyType.equal first second = true ↔ rank keyType first = rank keyType second := by
  cases keyType with
  | int32 =>
    have same : KeyType.int32.equal first second = true ↔ first = second := beq_iff_eq
    rw [same]
    constructor
    · intro isSame
      rw [isSame]
    · intro ranks
      unfold rank at ranks
      rw [if_neg (fun both => nomatch both.1), if_neg (fun both => nomatch both.1)] at ranks
      exact convert_injective .int32 ranks
  | float32 =>
    rw [rank_float_eq_iff]
    unfold KeyType.equal
    dsimp only
    rw [firstNumber, secondNumber]
    simp only [Bool.not_false, Bool.true_and, Bool.or_eq_true, Bool.and_eq_true, beq_iff_eq]
    exact or_congr Iff.rfl (and_congr (and_mask_eq_zero_iff first) (and_mask_eq_zero_iff second))

def rankAt (keyType : KeyType) (input : List (BitVec 32)) (k : Nat) : Nat := rank keyType (keyAt input k)

section Runs

variable {keyType : KeyType} {input : List (BitVec 32)} {order : List Nat}
  (numbers : ∀ key ∈ input, keyType.isNaN key = false)
  (isOrder : StableSorted (radixAt keyType input) (List.range input.length) order)

include numbers

theorem equal_keyAt_iff {j k : Nat} (boundJ : j < input.length) (boundK : k < input.length) :
    keyType.equal (keyAt input j) (keyAt input k) = true ↔ rankAt keyType input j = rankAt keyType input k :=
  equal_iff_rank (numbers _ (List.mem_of_getElem? (getElem?_keyAt boundJ)))
    (numbers _ (List.mem_of_getElem? (getElem?_keyAt boundK)))

include isOrder

omit numbers in
theorem rankAt_order_mono {p q : Nat} (le : p ≤ q) (bound : q < input.length) :
    rankAt keyType input (order.getD p 0) ≤ rankAt keyType input (order.getD q 0) := by
  apply rank_mono
  rcases Nat.lt_or_eq_of_le le with before | same
  · rcases isOrder.order_lex before bound with less | ⟨isSame, _⟩
    · exact Nat.le_of_lt less
    · exact Nat.le_of_eq isSame
  · rw [same]

theorem runOf_headOf_eq_iff {p q : Nat} (boundP : p < input.length) (boundQ : q < input.length) :
    runOf (headOf keyType input order) p = runOf (headOf keyType input order) q ↔
      rankAt keyType input (order.getD p 0) = rankAt keyType input (order.getD q 0) := by
  have ordered : ∀ {p q : Nat}, p ≤ q → q < input.length →
      (runOf (headOf keyType input order) p = runOf (headOf keyType input order) q ↔
        rankAt keyType input (order.getD p 0) = rankAt keyType input (order.getD q 0)) := by
    intro p q le bound
    have isRuns := @runOf_eq_iff input.length p (headOf keyType input order) (fun p q =>
      rankAt keyType input (order.getD p 0) = rankAt keyType input (order.getD q 0)) headOf_zero
      (fun p _ => rfl) (fun p q r _ _ _ first second => first.trans second)
    apply isRuns _ _ le bound
    · intro p q r bound lePQ leQR same
      have first := rankAt_order_mono isOrder lePQ (Nat.lt_of_le_of_lt leQR bound)
      have second := rankAt_order_mono isOrder leQR bound
      omega
    · intro p bound
      have isEqual := equal_keyAt_iff numbers (isOrder.order_lt bound)
        (isOrder.order_lt (Nat.lt_of_succ_lt bound))
      have isHead : headOf keyType input order (p + 1) = !keyType.equal (keyAt input (order.getD (p + 1) 0))
          (keyAt input (order.getD p 0)) := rfl
      rw [isHead, Bool.not_eq_true', ← Bool.not_eq_true, isEqual]
      exact not_congr eq_comm
  rcases Nat.le_total p q with le | le
  · exact ordered le boundQ
  · rw [eq_comm, ordered le boundP, eq_comm]

end Runs

end Itex.Kernels.Unique
