import Itex.Kernels.UniqueResult

/-!
Contract: the inputs for which the unique op lists the distinct values in order of first
appearance.

Owns: when representatives are in order of first appearance, the inputs the first sort does not
sort, and the exact condition for both key types.
-/

namespace Itex.Kernels.Unique

open Itex.Lib Itex.Utils

def infinity : BitVec 32 := 0x7F800000#32

/-- No key appears first between a positive zero and the first negative zero behind it. -/
def ZerosTogether (input : List (BitVec 32)) : Prop :=
  ∀ m < input.length, keyAt input m = negativeZero → (∀ j < m, keyAt input j ≠ negativeZero) →
    ∀ k < m, ∀ p < k, keyAt input p = positiveZero →
      ∃ j < k, KeyType.float32.equal (keyAt input j) (keyAt input k) = true

set_option synthInstance.maxSize 1024 in
instance (input : List (BitVec 32)) : Decidable (ZerosTogether input) :=
  inferInstanceAs (Decidable (∀ m < input.length, keyAt input m = negativeZero →
    (∀ j < m, keyAt input j ≠ negativeZero) → ∀ k < m, ∀ p < k, keyAt input p = positiveZero →
        ∃ j < k, KeyType.float32.equal (keyAt input j) (keyAt input k) = true))

section Representatives

variable {keyType : KeyType} {input : List (BitVec 32)} {order perm : List Nat} {out : Outputs}
  (numbers : ∀ key ∈ input, keyType.isNaN key = false) (computed : Computed keyType input order perm out)

include numbers computed

theorem Computed.le_repAt {first : Nat} (isFirst : first ∈ firstAppearances keyType input) :
    first ≤ repAt keyType input order first := by
  obtain ⟨bound, isNew⟩ := (mem_firstAppearances numbers).1 isFirst
  by_contra behind
  exact isNew _ (Nat.lt_of_not_le behind) (computed.rankAt_repAt numbers bound)

theorem Computed.repAt_eq {first : Nat} (isFirst : first ∈ firstAppearances keyType input)
    (one : ∀ j < input.length, rankAt keyType input j = rankAt keyType input first →
      radixAt keyType input j = radixAt keyType input first) : repAt keyType input order first = first := by
  have bound := ((mem_firstAppearances numbers).1 isFirst).1
  have le := computed.le_repAt numbers isFirst
  have sameRank := computed.rankAt_repAt numbers bound
  have sameRadix := one _ (computed.repAt_lt bound) sameRank
  have least := computed.repAt_first numbers bound bound rfl
  omega

end Representatives

section Zeros

variable {input : List (BitVec 32)} {order perm : List Nat} {out : Outputs}
  (numbers : ∀ key ∈ input, KeyType.float32.isNaN key = false)
  (computed : Computed .float32 input order perm out)

/-- The key at an index is a zero. -/
def IsZero (input : List (BitVec 32)) (k : Nat) : Prop :=
  keyAt input k = positiveZero ∨ keyAt input k = negativeZero

theorem radixAt_of_rankAt {j k : Nat} (nonzero : ¬ IsZero input k)
    (same : rankAt .float32 input j = rankAt .float32 input k) :
    radixAt .float32 input j = radixAt .float32 input k := by
  rcases (rank_float_eq_iff _ _).1 same with sameKey | zeros
  · unfold radixAt
    rw [sameKey]
  · exact absurd zeros.2 nonzero

theorem rankAt_of_isZero {j k : Nat} (firstZero : IsZero input j) (secondZero : IsZero input k) :
    rankAt .float32 input j = rankAt .float32 input k :=
  (rank_float_eq_iff _ _).2 (Or.inr ⟨firstZero, secondZero⟩)

include numbers computed

theorem Computed.repAt_of_not_isZero {first : Nat} (isFirst : first ∈ firstAppearances .float32 input)
    (nonzero : ¬ IsZero input first) : repAt .float32 input order first = first :=
  computed.repAt_eq numbers isFirst fun _ _ same => radixAt_of_rankAt nonzero same

theorem Computed.repAt_eq_negativeZero {first m : Nat} (isFirst : first ∈ firstAppearances .float32 input)
    (isZero : IsZero input first) (bound : m < input.length) (isNegative : keyAt input m = negativeZero)
    (leastNegative : ∀ j < m, keyAt input j ≠ negativeZero) : repAt .float32 input order first = m := by
  have firstBound := ((mem_firstAppearances numbers).1 isFirst).1
  have least := computed.repAt_first numbers bound firstBound (rankAt_of_isZero (Or.inr isNegative) isZero)
  have radixOf : radixAt .float32 input m = 2 ^ 31 - 1 := by
    unfold radixAt
    rw [isNegative]
    exact convert_negativeZero
  have repZero : IsZero input (repAt .float32 input order first) := by
    rcases (rank_float_eq_iff _ _).1 (computed.rankAt_repAt numbers firstBound) with sameKey | zeros
    · unfold IsZero
      rw [sameKey]
      exact isZero
    · exact zeros.1
  have repNegative : keyAt input (repAt .float32 input order first) = negativeZero := by
    rcases repZero with isPositive | isNegative
    · have radixOfRep : radixAt .float32 input (repAt .float32 input order first) = 2 ^ 31 := by
        unfold radixAt
        rw [isPositive]
        exact convert_positiveZero
      omega
    · exact isNegative
  have notBefore : ¬ repAt .float32 input order first < m := fun before =>
    leastNegative _ before repNegative
  have radixOfRep : radixAt .float32 input (repAt .float32 input order first) = 2 ^ 31 - 1 := by
    unfold radixAt
    rw [repNegative]
    exact convert_negativeZero
  omega

theorem Computed.negativeZero_of_repAt_ne {first : Nat} (isFirst : first ∈ firstAppearances .float32 input)
    (moved : repAt .float32 input order first ≠ first) : keyAt input first = positiveZero ∧
      keyAt input (repAt .float32 input order first) = negativeZero ∧
      ∀ j < repAt .float32 input order first, keyAt input j ≠ negativeZero := by
  have firstBound := ((mem_firstAppearances numbers).1 isFirst).1
  have isZero : IsZero input first := by
    by_contra nonzero
    exact moved (computed.repAt_of_not_isZero numbers isFirst nonzero)
  have someNegative : ∃ m, m < input.length ∧ keyAt input m = negativeZero := by
    by_contra none
    apply moved
    apply computed.repAt_eq numbers isFirst
    intro j bound same
    have pos : ∀ k < input.length, IsZero input k → keyAt input k = positiveZero := by
      intro k inside zero
      rcases zero with isPositive | isNegative
      · exact isPositive
      · exact absurd ⟨k, inside, isNegative⟩ none
    rcases (rank_float_eq_iff _ _).1 same with sameKey | zeros
    · unfold radixAt
      rw [sameKey]
    · unfold radixAt
      rw [pos j bound zeros.1, pos first firstBound zeros.2]
  obtain ⟨bound, isNegative⟩ := Nat.find_spec someNegative
  have leastNegative : ∀ j < Nat.find someNegative, keyAt input j ≠ negativeZero := by
    intro j before negative
    exact Nat.find_min someNegative before ⟨Nat.lt_trans before bound, negative⟩
  have isRep := computed.repAt_eq_negativeZero numbers isFirst isZero bound isNegative leastNegative
  rw [isRep] at moved ⊢
  refine ⟨?_, isNegative, leastNegative⟩
  rcases isZero with isPositive | firstNegative
  · exact isPositive
  · have le := computed.le_repAt numbers isFirst
    rw [isRep] at le
    exact absurd firstNegative (leastNegative first (by omega))

theorem Computed.float_values_iff :
    List.Forall₂ (fun value k => KeyType.float32.equal value (keyAt input k) = true) out.output
      (firstAppearances .float32 input) ↔ ZerosTogether input := by
  rw [computed.values_iff numbers]
  constructor
  · intro inOrder m bound isNegative leastNegative k before p between isPositive
    by_contra none
    have boundK := Nat.lt_trans before bound
    have isNew : k ∈ firstAppearances .float32 input := by
      rw [mem_firstAppearances numbers]
      refine ⟨boundK, ?_⟩
      intro j beforeK same
      exact none ⟨j, beforeK, (equal_keyAt_iff numbers (Nat.lt_trans beforeK boundK) boundK).2 same⟩
    have boundP := Nat.lt_trans between boundK
    obtain ⟨first, isFirst, le, same⟩ := exists_firstAppearance numbers boundP
    have isZero : IsZero input first := by
      rcases (rank_float_eq_iff _ _).1 same with sameKey | zeros
      · exact Or.inl (sameKey.trans isPositive)
      · exact zeros.1
    have nonzero : ¬ IsZero input k := fun zero =>
      none ⟨p, between, (equal_keyAt_iff numbers boundP boundK).2
        (rankAt_of_isZero (Or.inl isPositive) zero)⟩
    have less := inOrder first isFirst k isNew (Nat.lt_of_le_of_lt le between)
    rw [computed.repAt_eq_negativeZero numbers isFirst isZero bound isNegative leastNegative,
      computed.repAt_of_not_isZero numbers isNew nonzero] at less
    exact Nat.lt_asymm before less
  · intro together first isFirst second isSecond less
    have secondLe := computed.le_repAt numbers isSecond
    by_cases moved : repAt .float32 input order first = first
    · omega
    · obtain ⟨isPositive, isNegative, leastNegative⟩ :=
        computed.negativeZero_of_repAt_ne numbers isFirst moved
      have firstBound := ((mem_firstAppearances numbers).1 isFirst).1
      obtain ⟨secondBound, isNew⟩ := (mem_firstAppearances numbers).1 isSecond
      by_contra notLess
      have notSame : second ≠ repAt .float32 input order first := by
        intro same
        apply isNew first less
        rw [same, computed.rankAt_repAt numbers firstBound]
      obtain ⟨j, before, equal⟩ := together _ (computed.repAt_lt firstBound) isNegative leastNegative second
        (by omega) first less isPositive
      exact isNew j before
        ((equal_keyAt_iff numbers (Nat.lt_trans before secondBound) secondBound).1 equal)

end Zeros

theorem Computed.int_values {input : List (BitVec 32)} {order perm : List Nat} {out : Outputs}
    (computed : Computed .int32 input order perm out) :
    List.Forall₂ (fun value k => KeyType.int32.equal value (keyAt input k) = true) out.output
      (firstAppearances .int32 input) := by
  have numbers : ∀ key ∈ input, KeyType.int32.isNaN key = false := fun _ _ => rfl
  have isRep : ∀ first ∈ firstAppearances .int32 input, repAt .int32 input order first = first := by
    intro first isFirst
    apply computed.repAt_eq numbers isFirst
    intro j _ same
    have noZeros : ∀ k, rankAt .int32 input k = radixAt .int32 input k := by
      intro k
      unfold rankAt rank
      rw [if_neg fun both => nomatch both.1]
      rfl
    rwa [noZeros, noZeros] at same
  rw [computed.values_iff numbers]
  intro first isFirst second isSecond less
  rwa [isRep first isFirst, isRep second isSecond]

/-! ## Inputs that are not sorted -/

theorem convert_infinity : (KeyType.float32.kind.convert false infinity).toNat = 0xFF800000 := by decide

theorem convert_maxValue :
    (KeyType.float32.kind.convert false KeyType.float32.maxValue).toNat = 0xFF7FFFFF := by decide

section Unsorted

variable {deviceSort : DeviceRadixSort} {keyType : KeyType} {uninit : Uninit} {input : List (BitVec 32)}

theorem inds_lt_of_lookup {inds ids inverse start idx : List (BitVec 32)} {n : Nat}
    (ran : (List.range n).foldlM (lookupAt inds ids inverse) start = .ok idx) {i : Nat} (bound : i < n)
    {ind : BitVec 32} (atI : inds[i]? = some ind) : ind.toNat < start.length := by
  have both := foldlM_invariant (fun seen (state : List (BitVec 32)) => state.length = start.length ∧
    ∀ j ∈ seen, ∀ ind, inds[j]? = some ind → ind.toNat < start.length) ?_ ?_ ran
  · exact both.2 i (List.mem_range.2 bound) ind atI
  · exact ⟨rfl, fun j listed => absurd listed List.not_mem_nil⟩
  · intro seen j rest state state' _ holds stepped
    unfold lookupAt at stepped
    obtain ⟨_, _, stepped⟩ := bind_ok.1 stepped
    obtain ⟨_, _, stepped⟩ := bind_ok.1 stepped
    obtain ⟨inputInd, loaded, stored⟩ := bind_ok.1 stepped
    unfold store at stored
    split at stored
    next inside =>
      injection stored with isSet
      refine ⟨by rw [← isSet, List.length_set, holds.1], ?_⟩
      intro k listed other atK
      rcases List.mem_append.1 listed with before | isLast
      · exact holds.2 k before other atK
      · rw [List.mem_singleton.1 isLast, load_eq_ok.1 loaded] at atK
        rw [← Option.some.inj atK, ← holds.1]
        exact inside
    next outside => cases stored

theorem inds_lt_of_compute {out : Outputs} (nonempty : input ≠ []) (small : input.length ≤ 2 ^ 30) {sorted : List Pair}
    (dispatched : dispatchRadixSort deviceSort keyType input (uninit .itemBoxIds)
      (allocate uninit .sortedInput input.length) (allocate uninit .sortedInputInds input.length) = .ok sorted)
    (ran : compute deviceSort keyType uninit [input.length] input = .ok out) {p : Nat}
    (bound : p < input.length) {pair : Pair} (atP : sorted[p]? = some pair) : pair.2.toNat < input.length := by
  have pos : 0 < input.length := List.length_pos_of_ne_nil nonempty
  unfold compute at ran
  rw [if_neg (by omega)] at ran
  simp only [List.length_singleton, ne_eq, not_true_eq_false, if_false, if_neg (Nat.ne_of_gt pos), dispatched] at ran
  obtain ⟨_, isSorted, ran⟩ := bind_ok.1 ran
  injection isSorted with isSame
  obtain ⟨_, _, ran⟩ := bind_ok.1 ran
  obtain ⟨_, _, ran⟩ := bind_ok.1 ran
  obtain ⟨_, _, ran⟩ := bind_ok.1 ran
  obtain ⟨_, _, ran⟩ := bind_ok.1 ran
  obtain ⟨_, _, ran⟩ := bind_ok.1 ran
  obtain ⟨_, isIdx, _⟩ := bind_ok.1 ran
  have below := @inds_lt_of_lookup _ _ _ _ _ _ isIdx p bound pair.2 (by rw [← isSame, List.getElem?_map, atP]; rfl)
  rwa [length_allocate] at below

/-- Memory whose words are no indices. -/
def ones : Uninit := fun _ _ => 0xFFFFFFFF#32

/-- More floats than the group has registers are not sorted, and the indices behind are not set. -/
theorem not_compute_of_many (nonempty : input ≠ []) (small : input.length ≤ 2 ^ 30)
    (isFloat : keyType = .float32) (many : keysPerGroup < input.length) (out : Outputs) :
    compute deviceSort keyType ones [input.length] input ≠ .ok out := by
  intro ran
  have inGroup : InGroup keyType input.length := by
    rw [isFloat]
    exact fun both => nomatch both.2
  obtain ⟨_, sorted, _, dispatched, places⟩ := @dispatch_group deviceSort keyType input
    (allocate ones .sortedInput input.length) (allocate ones .sortedInputInds input.length)
    (ones .itemBoxIds) nonempty inGroup
  have unset : sorted[keysPerGroup]? = some (0xFFFFFFFF#32, 0xFFFFFFFF#32) := by
    rw [places, if_neg fun all => Nat.lt_irrefl _ all.1, List.getElem?_zip_eq_some]
    constructor
    · unfold allocate
      rw [List.getElem?_map, List.getElem?_range many]
      rfl
    · unfold allocate
      rw [List.getElem?_map, List.getElem?_range many]
      rfl
  have below := inds_lt_of_compute nonempty small dispatched ran many unset
  have isIndex : (0xFFFFFFFF#32).toNat = 2 ^ 32 - 1 := rfl
  rw [isIndex] at below
  omega

theorem index_lt_of_mem_indexed {pair : Pair} (listed : pair ∈ indexed input) (small : input.length ≤ 2 ^ 30) :
    pair.2.toNat < input.length := by
  rw [indexed_eq_map] at listed
  obtain ⟨k, inRange, isPair⟩ := List.mem_map.1 listed
  have bound := List.mem_range.1 inRange
  rw [← isPair]
  show (BitVec.ofNat 32 k).toNat < input.length
  rwa [toNat_ofNat (by omega)]

/-- An infinity is sorted behind the pads, so that one of them stands among the items. -/
theorem not_compute_of_infinity (nonempty : input ≠ []) (isFloat : keyType = .float32)
    (few : input.length < keysPerGroup) (hasInfinity : infinity ∈ input) (out : Outputs) :
    compute deviceSort keyType ones [input.length] input ≠ .ok out := by
  intro ran
  have isGroup : keysPerGroup = 2048 := rfl
  have small : input.length ≤ 2 ^ 30 := by omega
  have inGroup : InGroup keyType input.length := fun both => absurd both.1 (Nat.lt_asymm few)
  obtain ⟨inRegisters, sorted, isSorted, dispatched, places⟩ := @dispatch_group deviceSort keyType input
    (allocate ones .sortedInput input.length) (allocate ones .sortedInputInds input.length)
    (ones .itemBoxIds) nonempty inGroup
  have lengthRegisters := isSorted.length_eq
  rw [length_padded] at lengthRegisters
  rw [padded_eq keyType _ (by rw [length_indexed]; omega), length_indexed] at isSorted
  have ofPad : ∀ pair ∈ pads keyType (ones .itemBoxIds) input.length, pair = (keyType.maxValue, 0xFFFFFFFF#32) := by
    intro pair listed
    obtain ⟨i, _, isPad⟩ := List.mem_map.1 listed
    exact isPad.symm
  have isIndex : (0xFFFFFFFF#32).toNat = 2 ^ 32 - 1 := rfl
  -- the first registers hold items, so they hold all of them
  have inFront : ∀ pair ∈ inRegisters.take input.length, pair.2.toNat < input.length := by
    intro pair listed
    obtain ⟨p, inside, atP⟩ := List.mem_iff_getElem.1 listed
    rw [List.length_take] at inside
    apply @inds_lt_of_compute _ _ _ _ _ nonempty small _ dispatched ran p (by omega)
    rw [places, if_pos ⟨by omega, by simp [length_allocate]; omega, by omega⟩, ← atP, List.getElem_take]
    exact List.getElem?_eq_getElem _
  have items : inRegisters.countP (fun pair => pair.2.toNat < input.length) = input.length := by
    rw [isSorted.perm.countP_eq, List.countP_append, List.countP_eq_length.2, List.countP_eq_zero.2,
      length_indexed, Nat.add_zero]
    · intro pair listed
      rw [ofPad pair listed, decide_eq_true_eq, isIndex]
      omega
    · intro pair listed
      exact decide_eq_true (index_lt_of_mem_indexed listed small)
  have behind : ∀ pair ∈ inRegisters.drop input.length, pair = (keyType.maxValue, 0xFFFFFFFF#32) := by
    intro pair listed
    rw [← List.take_append_drop input.length inRegisters, List.countP_append,
      List.countP_eq_length.2 fun other isFront => decide_eq_true (inFront other isFront),
      List.length_take] at items
    have none := List.countP_eq_zero.1 (show (inRegisters.drop input.length).countP
      (fun pair => decide (pair.2.toNat < input.length)) = 0 by omega) pair listed
    rcases List.mem_append.1 (isSorted.perm.mem_iff.1 (List.mem_of_mem_drop listed)) with isItem | isPad
    · exact absurd (decide_eq_true (index_lt_of_mem_indexed isItem small)) none
    · exact ofPad pair isPad
  obtain ⟨k, inside, isInfinity⟩ := List.mem_iff_getElem.1 hasInfinity
  have isEntry : (infinity, BitVec.ofNat 32 k) ∈ indexed input := by
    apply List.mem_of_getElem?
    exact getElem?_indexed (by rw [List.getElem?_eq_getElem inside, isInfinity])
  have inRegister := isSorted.perm.mem_iff.2 (List.mem_append_left _ isEntry)
  have notPad : (infinity, BitVec.ofNat 32 k) ≠ (keyType.maxValue, 0xFFFFFFFF#32) := by
    rw [isFloat]
    intro same
    exact absurd (congrArg Prod.fst same) (show ¬ infinity = KeyType.float32.maxValue by decide)
  rw [← List.take_append_drop input.length inRegisters, List.mem_append] at inRegister
  have ordered := isSorted.ordered
  rw [← List.take_append_drop input.length inRegisters, List.pairwise_append] at ordered
  rcases inRegister with front | back
  · have some : inRegisters.drop input.length ≠ [] := by
      apply List.ne_nil_of_length_pos
      rw [List.length_drop]
      omega
    have listed := List.head_mem some
    have le := ordered.2.2 _ front _ listed
    rw [behind _ listed, isFloat] at le
    change (KeyType.float32.kind.convert false infinity).toNat ≤
      (KeyType.float32.kind.convert false KeyType.float32.maxValue).toNat at le
    rw [convert_infinity, convert_maxValue] at le
    omega
  · exact notPad (behind _ back)

end Unsorted

theorem convert_float_le {key : BitVec 32} (number : KeyType.float32.isNaN key = false)
    (finite : key ≠ infinity) : (KeyType.float32.kind.convert false key).toNat ≤
      (KeyType.float32.kind.convert false KeyType.float32.maxValue).toNat := by
  have isConvert : KeyType.float32.kind.convert false key =
      key ^^^ if key &&& KeyKind.mask1 32 = 0 then KeyKind.mask1 32 else BitVec.allOnes 32 := rfl
  rw [convert_maxValue, isConvert]
  cases sign : key.msb with
  | false =>
    have small := BitVec.toNat_lt_of_msb_false sign
    have magnitude : (key &&& 0x7FFFFFFF#32).toNat = key.toNat := by
      rw [BitVec.toNat_and]
      exact (Nat.and_two_pow_sub_one_eq_mod _ 31).trans (Nat.mod_eq_of_lt small)
    have notNaN : key.toNat ≤ 0x7F800000 := by
      have isNumber := of_decide_eq_false number
      rw [BitVec.not_lt, BitVec.le_def, magnitude] at isNumber
      exact isNumber
    have notInfinity : key.toNat ≠ 0x7F800000 := fun same => finite (BitVec.eq_of_toNat_eq same)
    rw [if_pos ((KeyKind.and_mask1_eq_zero key).2 sign), KeyKind.toNat_xor_of_msb_false (by decide) sign]
    omega
  | true =>
    have large := BitVec.le_toNat_of_msb_true sign
    have masked : ¬ key &&& KeyKind.mask1 32 = 0 := by
      rw [KeyKind.and_mask1_eq_zero, sign]
      exact Bool.noConfusion
    rw [if_neg masked, BitVec.xor_allOnes, BitVec.toNat_not]
    omega

section Op

variable {deviceSort : DeviceRadixSort} {keyType : KeyType} {input : List (BitVec 32)}

theorem exists_computed (stable : IsStableSort deviceSort) (nonempty : input ≠ [])
    (small : input.length ≤ 2 ^ 30) (numbers : ∀ key ∈ input, keyType.isNaN key = false)
    (reached : keyType = .int32 ∨ input.length ≤ keysPerGroup)
    (below : keyType = .int32 ∨ input.length = keysPerGroup ∨ infinity ∉ input) (uninit : Uninit) :
    ∃ order perm out, compute deviceSort keyType uninit [input.length] input = .ok out ∧
      Computed keyType input order perm out := by
  obtain ⟨sorted, dispatched, isSorted⟩ := @dispatch_sorted deviceSort keyType input
    (allocate uninit .sortedInput input.length) (allocate uninit .sortedInputInds input.length)
    (uninit .itemBoxIds) stable nonempty (length_allocate ..) (length_allocate ..) reached (by
      rcases below with isInt | full | finite
      · right
        intro pair _
        rw [isInt]
        exact sortKey_le_max pair
      · exact Or.inl full
      · right
        intro pair listed
        have isKey : pair.1 ∈ input := (List.of_mem_zip listed).1
        cases keyType with
        | int32 => exact sortKey_le_max pair
        | float32 =>
          exact convert_float_le (numbers _ isKey) fun same => finite (same ▸ isKey))
  exact compute_spec stable uninit nonempty small dispatched isSorted

theorem Computed.isUnique_iff {order perm : List Nat} {out : Outputs}
    (numbers : ∀ key ∈ input, keyType.isNaN key = false) (small : input.length ≤ 2 ^ 30)
    (computed : Computed keyType input order perm out) :
    IsUnique keyType input out ↔ keyType = .int32 ∨ ZerosTogether input := by
  have rest : IsUnique keyType input out ↔
      List.Forall₂ (fun value k => keyType.equal value (keyAt input k) = true) out.output
        (firstAppearances keyType input) :=
    ⟨IsUnique.values, fun values =>
      { values
        lengthIdx := computed.lengthIdx
        idx := fun _ bound => computed.idx_spec numbers small bound
        lengthCount := by rw [computed.lengthCount, computed.output, List.length_map]
        count := fun _ bound => computed.count_spec small bound }⟩
  rw [rest]
  cases keyType with
  | int32 => exact ⟨fun _ => Or.inl rfl, fun _ => computed.int_values⟩
  | float32 =>
    rw [computed.float_values_iff numbers]
    exact ⟨Or.inr, fun holds => holds.resolve_left fun same => nomatch same⟩

/-- The op lists the distinct values in order of first appearance, whatever its memory held, for all
integers, and for at most 2048 floats without infinity among fewer, unless a key first appears
between the two zeros. -/
theorem compute_isUnique_iff (stable : IsStableSort deviceSort) (nonempty : input ≠ [])
    (small : input.length ≤ 2 ^ 30) (numbers : ∀ key ∈ input, keyType.isNaN key = false) :
    (∀ uninit, ∃ out, compute deviceSort keyType uninit [input.length] input = .ok out ∧ IsUnique keyType input out) ↔
      keyType = .int32 ∨ (input.length ≤ keysPerGroup ∧
        (input.length = keysPerGroup ∨ infinity ∉ input) ∧ ZerosTogether input) := by
  constructor
  · intro always
    by_cases isInt : keyType = .int32
    · exact Or.inl isInt
    · have isFloat : keyType = .float32 := by
        cases keyType with
        | int32 => exact absurd rfl isInt
        | float32 => rfl
      obtain ⟨out, returned, isUnique⟩ := always ones
      have few : input.length ≤ keysPerGroup := by
        by_contra many
        exact not_compute_of_many nonempty small isFloat (Nat.lt_of_not_le many) out returned
      have finite : input.length = keysPerGroup ∨ infinity ∉ input := by
        by_contra neither
        rw [not_or, not_not] at neither
        exact not_compute_of_infinity nonempty isFloat (Nat.lt_of_le_of_ne few neither.1) neither.2 out
          returned
      obtain ⟨order, perm, out', returned', computed⟩ :=
        exists_computed stable nonempty small numbers (Or.inr few) (Or.inr finite) ones
      rw [returned] at returned'
      injection returned' with sameOut
      rw [← sameOut] at computed
      exact Or.inr ⟨few, finite, ((computed.isUnique_iff numbers small).1 isUnique).resolve_left isInt⟩
  · intro condition uninit
    obtain ⟨order, perm, out, returned, computed⟩ := exists_computed stable nonempty small numbers
      (condition.imp_right fun all => all.1) (condition.imp_right fun all => all.2.1) uninit
    exact ⟨out, returned, (computed.isUnique_iff numbers small).2 (condition.imp_right fun all => all.2.2)⟩

end Op

/-! ## Examples -/

def bucketSort : DeviceRadixSort := distribute (sortKey .int32) (2 ^ 32)

theorem bucketSort_stable : IsStableSort bucketSort := by
  intro pairs
  have sorted : StableSorted (fun pair => sortKey .int32 pair % (1 * 2 ^ 32)) pairs (bucketSort pairs) := by
    apply (StableSorted.start pairs).distribute Nat.one_pos (by decide)
    intro pair
    rw [Nat.div_one, Nat.mod_eq_of_lt]
    exact (KeyType.int32.kind.convert false pair.1).isLt
  apply sorted.congr
  intro pair _
  rw [Nat.one_mul, Nat.mod_eq_of_lt]
  exact (KeyType.int32.kind.convert false pair.1).isLt

theorem compute_isUnique_of_repeated_int : IsStableSort bucketSort ∧
      ∀ uninit, ∃ out, compute bucketSort .int32 uninit [3] [5, 3, 5] = .ok out ∧ IsUnique .int32 [5, 3, 5] out :=
  ⟨bucketSort_stable, (@compute_isUnique_iff bucketSort .int32 [5, 3, 5] bucketSort_stable (by decide) (by decide)
    (fun _ _ => rfl)).2 (Or.inl rfl)⟩

/-- 0.0, 1.0, -0.0: the zero is represented by the last item, and so comes behind 1.0. -/
theorem not_isUnique_of_zeros_apart : IsStableSort bucketSort ∧
      (∀ key ∈ [0#32, 0x3F800000#32, 0x80000000#32], KeyType.float32.isNaN key = false) ∧
      ∀ uninit, ∃ out, compute bucketSort .float32 uninit [3] [0#32, 0x3F800000#32, 0x80000000#32] = .ok out ∧
        ¬ IsUnique .float32 [0#32, 0x3F800000#32, 0x80000000#32] out := by
  have numbers : ∀ key ∈ [0#32, 0x3F800000#32, 0x80000000#32], KeyType.float32.isNaN key = false := by
    simp [KeyType.isNaN]
  have apart : ¬ ZerosTogether [0#32, 0x3F800000#32, 0x80000000#32] := by decide
  refine ⟨bucketSort_stable, numbers, ?_⟩
  intro uninit
  obtain ⟨order, perm, out, returned, computed⟩ := @exists_computed bucketSort .float32
    [0#32, 0x3F800000#32, 0x80000000#32] bucketSort_stable (by decide) (by decide) numbers
    (Or.inr (by decide)) (Or.inr (Or.inr (by decide))) uninit
  refine ⟨out, returned, ?_⟩
  intro isUnique
  rcases (computed.isUnique_iff numbers (by decide)).1 isUnique with isInt | together
  · cases isInt
  · exact apart together

end Itex.Kernels.Unique
