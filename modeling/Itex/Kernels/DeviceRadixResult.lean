import Itex.Kernels.DeviceRadixPass

/-!
Contract: the passes of the device radix sort together.

Owns: the arrays between the passes, the order of converted keys, and for which keys the sort is
a stable sort.
-/

namespace Itex.Kernels.DeviceRadixSort

open Itex.Lib Itex.Utils

variable {w : Nat} {V : Type}

/-! ## Keys -/

namespace Integral

/-- The number a key stands for. -/
def value : Integral → BitVec w → Int
  | bool, key => key.toNat
  | unsigned, key => key.toNat
  | signed, key => key.toInt

/-- The objects of the type. -/
def IsKey : Integral → BitVec w → Prop
  | bool, key => key = 0 ∨ key = 1
  | unsigned, _ => True
  | signed, _ => True

def IsWidth (w : Nat) : Integral → Prop
  | bool => w = 8
  | unsigned => w = 8 ∨ w = 16 ∨ w = 32 ∨ w = 64
  | signed => w = 8 ∨ w = 16 ∨ w = 32 ∨ w = 64

/-- The sort loses the keys: `~` makes any `bool` true. -/
def Loses (integral : Integral) (descending : Bool) : Prop := integral = bool ∧ descending = true

instance (integral : Integral) (descending : Bool) : Decidable (integral.Loses descending) :=
  inferInstanceAs (Decidable (_ ∧ _))

variable {integral : Integral} {descending : Bool} {key : BitVec w}

theorem IsWidth.cases (isWidth : integral.IsWidth w) : w = 8 ∨ w = 16 ∨ w = 32 ∨ w = 64 := by
  cases integral with
  | bool => exact Or.inl isWidth
  | unsigned => exact isWidth
  | signed => exact isWidth

theorem boolNot_eq_one (isWidth : bool.IsWidth w) (isKey : bool.IsKey key) : boolNot key = 1 := by
  have isByte : w = 8 := isWidth
  subst isByte
  rcases isKey with isFalse | isTrue
  · rw [isFalse]
    rfl
  · rw [isTrue]
    rfl

theorem isKey_convert (isWidth : integral.IsWidth w) (isKey : integral.IsKey key) :
    integral.IsKey (integral.convert descending key) := by
  cases integral with
  | unsigned => trivial
  | signed => trivial
  | bool =>
    cases descending with
    | false => exact isKey
    | true => exact Or.inr (boolNot_eq_one isWidth isKey)

theorem isKey_convertBack (isWidth : integral.IsWidth w) (isKey : integral.IsKey key) :
    integral.IsKey (integral.convertBack descending key) := by
  cases integral with
  | unsigned => trivial
  | signed => trivial
  | bool =>
    cases descending with
    | false => exact isKey
    | true => exact Or.inr (boolNot_eq_one isWidth isKey)

theorem convertBack_convert (isWidth : integral.IsWidth w) (keeps : ¬ integral.Loses descending) :
    integral.convertBack descending (integral.convert descending key) = key := by
  have pos : 0 < w := by
    rcases isWidth.cases with isW | isW | isW | isW <;> omega
  cases integral with
  | unsigned => exact KeyKind.convertBack_convert _ _ pos key
  | signed => exact KeyKind.convertBack_convert _ _ pos key
  | bool =>
    cases descending with
    | false => rfl
    | true => exact absurd ⟨rfl, rfl⟩ keeps

theorem toNat_convert (isWidth : integral.IsWidth w) (keeps : ¬ integral.Loses descending) :
    ∃ bias : Int, ∀ key : BitVec w, ((integral.convert descending key).toNat : Int) =
      if descending = true then bias - integral.value key else bias + integral.value key := by
  have pos : 0 < w := by
    rcases isWidth.cases with isW | isW | isW | isW <;> omega
  have complement : ∀ word : BitVec w, ((~~~word).toNat : Int) = 2 ^ w - 1 - word.toNat := by
    intro word
    have below := word.isLt
    rw [BitVec.toNat_not]
    have some : 0 < 2 ^ w := Nat.two_pow_pos w
    push_cast [Nat.sub_sub, Nat.one_add, Nat.succ_le_of_lt below]
    omega
  cases integral with
  | bool =>
    cases descending with
    | true => exact absurd ⟨rfl, rfl⟩ keeps
    | false => exact ⟨0, fun key => (zero_add _).symm⟩
  | unsigned =>
    cases descending with
    | false => exact ⟨0, fun key => (zero_add _).symm⟩
    | true => exact ⟨2 ^ w - 1, fun key => complement key⟩
  | signed =>
    cases descending with
    | false =>
      refine ⟨2 ^ (w - 1), fun key => ?_⟩
      exact (KeyKind.toNat_convert_signed pos key).trans (add_comm _ _)
    | true =>
      refine ⟨2 ^ w - 1 - 2 ^ (w - 1), fun key => ?_⟩
      have isComplement : signed.convert true key = ~~~(KeyKind.signed.convert false key) := by
        show key ^^^ ~~~KeyKind.mask1 w = ~~~(key ^^^ KeyKind.mask1 w)
        rw [BitVec.not_xor_right]
      rw [isComplement, complement, KeyKind.toNat_convert_signed pos]
      show _ = 2 ^ w - 1 - 2 ^ (w - 1) - key.toInt
      omega

theorem bucket_allOnes {beginBit : Nat} (inside : beginBit + radixBits ≤ w) :
    bucket beginBit radixBits (BitVec.allOnes w) = 2 ^ radixBits - 1 := by
  obtain ⟨rest, isRest⟩ := Nat.exists_eq_add_of_le inside
  have low := Nat.two_pow_pos beginBit
  obtain ⟨high, isHigh⟩ := Nat.exists_eq_succ_of_ne_zero (Nat.ne_of_gt (Nat.two_pow_pos rest))
  have isBits : radixBits = 4 := rfl
  have word : (BitVec.allOnes w).toNat = (2 ^ beginBit - 1) + 2 ^ beginBit * (16 * high + 15) := by
    have parts : 2 ^ w = 2 ^ beginBit * (16 * high + 15) + 2 ^ beginBit := by
      rw [isRest, isBits, Nat.pow_add, Nat.pow_add, isHigh, ← Nat.mul_succ, Nat.mul_assoc]
      congr 1
    rw [BitVec.toNat_allOnes, parts]
    omega
  rw [bucket_eq, word, Nat.add_mul_div_left _ _ low, Nat.div_eq_of_lt (by omega), isBits]
  omega

theorem bucket_le_padding (isWidth : integral.IsWidth w) (isKey : integral.IsKey key) (beginBit : Nat)
    (inside : beginBit + radixBits ≤ w) :
    bucket beginBit radixBits key ≤ bucket beginBit radixBits (paddingKey integral : BitVec w) := by
  have allOnes : ∀ mask : BitVec w, mask = KeyKind.mask1 w → mask ^^^ (mask - 1) = BitVec.allOnes w := by
    intro mask isMask
    rw [isMask]
    rcases isWidth.cases with isW | isW | isW | isW <;> subst isW <;> decide
  have last : bucket beginBit radixBits (BitVec.allOnes w) = 2 ^ radixBits - 1 :=
    bucket_allOnes inside
  have below : bucket beginBit radixBits key ≤ 2 ^ radixBits - 1 := by
    rw [bucket_eq]
    exact Nat.le_sub_one_of_lt (Nat.mod_lt _ (Nat.two_pow_pos _))
  cases integral with
  | unsigned =>
    have isPad : (paddingKey unsigned : BitVec w) = BitVec.allOnes w := allOnes _ rfl
    rw [isPad, last]
    exact below
  | signed =>
    have isPad : (paddingKey signed : BitVec w) = BitVec.allOnes w := allOnes _ rfl
    rw [isPad, last]
    exact below
  | bool =>
    have isByte : w = 8 := isWidth
    subst isByte
    have isPad : (paddingKey bool : BitVec 8) = 1 := rfl
    rw [isPad]
    rcases isKey with isFalse | isTrue
    · rw [isFalse, bucket_eq]
      simp
    · rw [isTrue]

end Integral

/-! ## Arrays between the passes -/

namespace Dispatch

variable (dispatch : Dispatch w V) (pairs : List (Pair w V))

/-- The pairs after the first passes. -/
def after : Nat → List (Pair w V)
  | 0 => pairs
  | radixIter + 1 =>
    (distribute (dispatch.pass pairs.length radixIter).digitOf radixDigits (after radixIter)).map
      (dispatch.pass pairs.length radixIter).back

theorem length_after (radixIter : Nat) : (dispatch.after pairs radixIter).length = pairs.length := by
  induction radixIter with
  | zero => rfl
  | succ radixIter ih =>
    unfold after
    have inside : ∀ pair ∈ dispatch.after pairs radixIter,
        (dispatch.pass pairs.length radixIter).digitOf pair < radixDigits := fun pair _ => Pass.digit_lt _ _
    rw [List.length_map, length_distribute inside]
    exact ih

/-- What a device and the groups on it are promised. -/
structure Admits : Prop where
  resident : 0 < dispatch.device.maxWorkgroupNum
  exclusive : IsExclusiveScan dispatch.scanBins
  all : ∀ radixIter, (dispatch.schedule radixIter).Perm
    (List.range (dispatch.pass pairs.length radixIter).launch.workgroupNum)
  isWidth : dispatch.integral.IsWidth w
  keys : ∀ pair ∈ pairs, dispatch.integral.IsKey pair.1

variable {dispatch pairs} (admits : dispatch.Admits pairs)

include admits

theorem isKey_after (radixIter : Nat) : ∀ pair ∈ dispatch.after pairs radixIter, dispatch.integral.IsKey pair.1 := by
  induction radixIter with
  | zero => exact admits.keys
  | succ radixIter ih =>
    intro pair listed
    obtain ⟨before, inBefore, isPair⟩ := List.mem_map.1 listed
    obtain ⟨bin, _, inBin⟩ := List.mem_flatMap.1 inBefore
    have isKey := ih before (List.mem_filter.1 inBin).1
    rw [← isPair]
    exact Integral.isKey_convertBack admits.isWidth (Integral.isKey_convert admits.isWidth isKey)

theorem padsLast_after {radixIter : Nat} (inside : radixIter * radixBits + radixBits ≤ w) :
    (dispatch.pass pairs.length radixIter).PadsLast (dispatch.after pairs radixIter) := by
  intro pair listed
  have isKey := isKey_after admits radixIter pair listed
  exact Integral.bucket_le_padding admits.isWidth (Integral.isKey_convert admits.isWidth isKey) _ inside

theorem run_after (nonempty : pairs ≠ []) {radixIter : Nat} (inside : radixIter * radixBits + radixBits ≤ w)
    {counts : List Nat} {out : List (Pair w V)}
    (room : counts.length = dispatch.device.maxWorkgroupNum * radixDigits) (roomOut : out.length = pairs.length) :
    ∃ counts', (dispatch.pass pairs.length radixIter).run dispatch.scanBins (dispatch.schedule radixIter) counts
          (dispatch.after pairs radixIter) out = some (counts', dispatch.after pairs (radixIter + 1)) ∧
      counts'.length = dispatch.device.maxWorkgroupNum * radixDigits := by
  have length := dispatch.length_after pairs radixIter
  have some : dispatch.after pairs radixIter ≠ [] := by
    apply List.ne_nil_of_length_pos
    rw [length]
    exact List.length_pos_of_ne_nil nonempty
  rw [← room]
  apply Pass.run_eq _ dispatch.device.sizes_admitted some length.symm admits.resident (padsLast_after admits inside)
    admits.exclusive (admits.all radixIter)
  · rw [room]
    exact Nat.mul_le_mul_right _ (Nat.min_le_right _ _)
  · rw [roomOut, length]

/-- After a later pass: the output arrays hold the result of an odd pass, the others that of an
even one. -/
structure Holds (dispatch : Dispatch w V) (pairs : List (Pair w V)) (radixIter : Nat) (arrays : Arrays w V) :
    Prop where
  counts : arrays.counts.length = dispatch.device.maxWorkgroupNum * radixDigits
  tmp : arrays.tmp.length = pairs.length
  out : arrays.out.length = pairs.length
  result : (if radixIter % 2 = 0 then arrays.tmp else arrays.out) = dispatch.after pairs (radixIter + 1)

theorem Holds.nextPass (nonempty : pairs ≠ []) {radixIter : Nat} {arrays : Arrays w V}
    (holds : Holds dispatch pairs radixIter arrays) (inside : (radixIter + 1) * radixBits + radixBits ≤ w) :
    ∃ arrays', dispatch.nextPass pairs.length arrays (radixIter + 1) = some arrays' ∧
      Holds dispatch pairs (radixIter + 1) arrays' := by
  have isResult := holds.result
  have lengthAfter := dispatch.length_after pairs (radixIter + 1 + 1)
  unfold Dispatch.nextPass
  by_cases isEven : radixIter % 2 = 0
  · rw [if_pos isEven] at isResult
    obtain ⟨counts, ran, lengthCounts⟩ := run_after admits nonempty inside holds.counts holds.out
    rw [← isResult] at ran
    rw [if_neg (by omega), ran]
    refine ⟨_, rfl, lengthCounts, holds.tmp, lengthAfter, ?_⟩
    rw [if_neg (by omega)]
  · rw [if_neg isEven] at isResult
    obtain ⟨counts, ran, lengthCounts⟩ := run_after admits nonempty inside holds.counts holds.tmp
    rw [← isResult] at ran
    rw [if_pos (by omega), ran]
    refine ⟨_, rfl, lengthCounts, lengthAfter, holds.out, ?_⟩
    rw [if_pos (by omega)]

theorem Holds.passes (nonempty : pairs ≠ []) {arrays : Arrays w V} (holds : Holds dispatch pairs 1 arrays)
    {count : Nat} (inside : (count + 2) * radixBits ≤ w) :
    ∃ arrays', (List.range' 2 count).foldlM (dispatch.nextPass pairs.length) arrays = some arrays' ∧
      Holds dispatch pairs (count + 1) arrays' := by
  induction count with
  | zero => exact ⟨arrays, rfl, holds⟩
  | succ count ih =>
    unfold radixBits at inside ih
    obtain ⟨before, reached, holdsBefore⟩ := ih (by omega)
    obtain ⟨arrays', ran, holds'⟩ :=
      holdsBefore.nextPass admits nonempty (by unfold radixBits; omega)
    refine ⟨arrays', ?_, holds'⟩
    have order : 2 + count = count + 1 + 1 := by omega
    rw [List.range'_1_concat, List.foldlM_append, reached, order]
    simp only [List.foldlM_cons, List.foldlM_nil, Option.bind_eq_bind, Option.bind_some, ran]
    rfl

theorem deviceRadixSort_eq (nonempty : pairs ≠ []) {tmp out : List (Pair w V)}
    (roomTmp : tmp.length = pairs.length) (roomOut : out.length = pairs.length) :
    dispatch.deviceRadixSort pairs tmp out = some (dispatch.after pairs (w / radixBits)) := by
  obtain ⟨rounds, isRounds⟩ : ∃ rounds, w = (rounds + 2) * radixBits := by
    rcases admits.isWidth.cases with isW | isW | isW | isW <;> subst isW
    · exact ⟨0, rfl⟩
    · exact ⟨2, rfl⟩
    · exact ⟨6, rfl⟩
    · exact ⟨14, rfl⟩
  have odd : (rounds + 1) % 2 = 1 := by
    unfold radixBits at isRounds
    rcases admits.isWidth.cases with isW | isW | isW | isW <;> omega
  have radixIters : w / radixBits = rounds + 2 := by
    rw [isRounds]
    exact Nat.mul_div_cancel _ (by decide)
  have two : 2 * radixBits ≤ w := by
    rw [isRounds]
    exact Nat.mul_le_mul_right _ (Nat.le_add_left 2 rounds)
  obtain ⟨counts, first, lengthCounts⟩ := @run_after _ _ _ _ admits nonempty 0 (by omega)
    (List.replicate (dispatch.device.maxWorkgroupNum * radixDigits) 0) _ List.length_replicate roomTmp
  have start : Holds dispatch pairs 0 { counts, tmp := dispatch.after pairs 1, out } :=
    { counts := lengthCounts
      tmp := dispatch.length_after pairs 1
      out := roomOut
      result := rfl }
  obtain ⟨second, returnedSecond, holdsSecond⟩ := start.nextPass admits nonempty (by omega)
  obtain ⟨last, returnedLast, holdsLast⟩ :=
    holdsSecond.passes admits nonempty (le_of_eq isRounds.symm)
  have isResult := holdsLast.result
  rw [if_neg (by omega)] at isResult
  have more : w / radixBits - 2 = rounds := by
    rw [radixIters]
    rfl
  unfold deviceRadixSort
  have isStart : (dispatch.pass pairs.length 0).run dispatch.scanBins (dispatch.schedule 0)
      (List.replicate (dispatch.device.maxWorkgroupNum * radixDigits) 0) pairs tmp =
      some (counts, dispatch.after pairs (0 + 1)) := first
  simp_all

end Dispatch

/-! ## Sorted pairs -/

/-- By key in the order asked for, pairs of one key in the order they had. -/
structure Sorts (integral : Integral) (descending : Bool) (input output : List (Pair w V)) : Prop where
  ordered : output.Pairwise fun first second =>
    if descending = true then integral.value second.1 ≤ integral.value first.1
    else integral.value first.1 ≤ integral.value second.1
  stable : ∀ key : BitVec w, output.filter (fun pair => pair.1 = key) = input.filter (fun pair => pair.1 = key)

namespace Dispatch

variable {dispatch : Dispatch w V} {pairs : List (Pair w V)}

def sortKey (dispatch : Dispatch w V) (pair : Pair w V) : Nat :=
  (dispatch.integral.convert dispatch.descending pair.1).toNat

section

variable (isWidth : dispatch.integral.IsWidth w) (keeps : ¬ dispatch.integral.Loses dispatch.descending)

include isWidth keeps

theorem stableSorted_after (radixIter : Nat) :
    StableSorted (fun pair => dispatch.sortKey pair % 2 ^ (radixIter * radixBits)) pairs
      (dispatch.after pairs radixIter) := by
  induction radixIter with
  | zero =>
    rw [Nat.zero_mul]
    exact StableSorted.start pairs
  | succ radixIter ih =>
    have isBack : (dispatch.pass pairs.length radixIter).back = id := by
      funext pair
      exact Prod.ext (Integral.convertBack_convert isWidth keeps) rfl
    unfold after
    rw [isBack, List.map_id, Nat.succ_mul, Nat.pow_add]
    exact ih.distribute (Nat.two_pow_pos _) (Nat.two_pow_pos _)
      fun pair => bucket_eq _ _ _

theorem sorts_of_stableSorted {sorted : List (Pair w V)}
    (isSorted : StableSorted dispatch.sortKey pairs sorted) :
    Sorts dispatch.integral dispatch.descending pairs sorted where
  ordered := by
    obtain ⟨bias, isConverted⟩ := Integral.toNat_convert isWidth keeps
    apply isSorted.ordered.imp
    intro first second le
    have isFirst := isConverted first.1
    have isSecond := isConverted second.1
    have le' : (dispatch.sortKey first : Int) ≤ dispatch.sortKey second := Int.ofNat_le.2 le
    unfold sortKey at le'
    grind
  stable key := by
    have sameKey : ∀ pair : Pair w V, pair.1 = key ↔
        dispatch.sortKey pair = (dispatch.integral.convert dispatch.descending key).toNat := by
      intro pair
      constructor
      · intro isKey
        rw [← isKey]
        rfl
      · intro same
        have converted := BitVec.eq_of_toNat_eq same
        rw [← @Integral.convertBack_convert w _ _ pair.1 isWidth keeps, converted,
          Integral.convertBack_convert isWidth keeps]
    simp only [sameKey]
    exact isSorted.stable _

/-- Without a key lost, the last pass leaves the sorted pairs. -/
theorem sorts_after : Sorts dispatch.integral dispatch.descending pairs (dispatch.after pairs (w / radixBits)) := by
  have allBits : w / radixBits * radixBits = w := by
    rcases isWidth.cases with isW | isW | isW | isW <;> subst isW <;> rfl
  apply sorts_of_stableSorted isWidth keeps
  have isSorted := @stableSorted_after _ _ dispatch pairs isWidth keeps (w / radixBits)
  rw [allBits] at isSorted
  apply isSorted.congr
  intro pair _
  exact (Nat.mod_eq_of_lt (BitVec.isLt _)).symm

end

/-- Keys that are all made true stay where they are. -/
theorem after_of_loses (admits : dispatch.Admits pairs) (loses : dispatch.integral.Loses dispatch.descending)
    (radixIter : Nat) : dispatch.after pairs (radixIter + 1) = pairs.map fun pair => (1, pair.2) := by
  obtain ⟨isBool, isDescending⟩ := loses
  have isWidth := admits.isWidth
  rw [isBool] at isWidth
  have made : ∀ {key : BitVec w}, dispatch.integral.IsKey key →
      dispatch.integral.convert dispatch.descending key = 1 := by
    intro key isKey
    rw [isBool] at isKey ⊢
    rw [isDescending]
    exact Integral.boolNot_eq_one isWidth isKey
  have isBack : ∀ radixIter, ∀ pair ∈ dispatch.after pairs radixIter,
      (dispatch.pass pairs.length radixIter).back pair = (1, pair.2) := by
    intro radixIter pair listed
    refine Prod.ext ?_ rfl
    show dispatch.integral.convertBack dispatch.descending (dispatch.integral.convert dispatch.descending pair.1) = 1
    rw [made (isKey_after admits radixIter pair listed), isBool, isDescending]
    exact Integral.boolNot_eq_one isWidth (Or.inr rfl)
  have isDistributed : ∀ radixIter,
      distribute (dispatch.pass pairs.length radixIter).digitOf radixDigits (dispatch.after pairs radixIter) =
        dispatch.after pairs radixIter := by
    intro radixIter
    apply distribute_of_forall_eq (d := bucket (radixIter * radixBits) radixBits (1 : BitVec w))
    · exact (dispatch.pass pairs.length radixIter).digit_lt 1
    · intro pair listed
      show bucket _ _ (dispatch.integral.convert dispatch.descending pair.1) = _
      rw [made (isKey_after admits radixIter pair listed)]
      rfl
  induction radixIter with
  | zero =>
    show ((distribute _ _ (dispatch.after pairs 0)).map _) = _
    rw [isDistributed 0]
    exact List.map_congr_left (isBack 0)
  | succ radixIter ih =>
    show ((distribute _ _ (dispatch.after pairs (radixIter + 1))).map _) = _
    rw [isDistributed (radixIter + 1), List.map_congr_left (isBack (radixIter + 1)), ih, List.map_map]
    rfl

theorem sorts_true_iff (isBool : dispatch.integral = Integral.bool)
    (keys : ∀ pair ∈ pairs, dispatch.integral.IsKey pair.1) :
    Sorts dispatch.integral dispatch.descending pairs (pairs.map fun pair => (1, pair.2)) ↔
      ∀ pair ∈ pairs, pair.1 = 1 := by
  constructor
  · intro isSorted pair listed
    have isKey := keys pair listed
    rw [isBool] at isKey
    rcases isKey with isFalse | isTrue
    · have kept : pair ∈ pairs.filter fun other => other.1 = pair.1 := List.mem_filter.2 ⟨listed, by simp⟩
      rw [← isSorted.stable] at kept
      obtain ⟨fromMap, isPair⟩ := List.mem_filter.1 kept
      obtain ⟨before, _, isMade⟩ := List.mem_map.1 fromMap
      rw [← isMade]
    · exact isTrue
  · intro allTrue
    have isSame : (pairs.map fun pair => ((1 : BitVec w), pair.2)) = pairs := by
      calc (pairs.map fun pair => ((1 : BitVec w), pair.2)) = pairs.map id :=
            List.map_congr_left fun pair listed => Prod.ext (allTrue pair listed).symm rfl
        _ = pairs := List.map_id pairs
    rw [isSame]
    refine ⟨?_, fun _ => rfl⟩
    apply List.pairwise_of_forall_mem_list
    intro first inFirst second inSecond
    rw [allTrue first inFirst, allTrue second inSecond, ite_self]

/-- Where keys are lost, all of them come out true. -/
theorem deviceRadixSort_of_loses (admits : dispatch.Admits pairs) (nonempty : pairs ≠ [])
    (loses : dispatch.integral.Loses dispatch.descending) {tmp out : List (Pair w V)}
    (roomTmp : tmp.length = pairs.length) (roomOut : out.length = pairs.length) :
    dispatch.deviceRadixSort pairs tmp out = some (pairs.map fun pair => (1, pair.2)) := by
  have isByte : w = 8 := by
    have isWidth := admits.isWidth
    rwa [loses.1] at isWidth
  have passes : w / radixBits = 1 + 1 := by
    rw [isByte]
    rfl
  rw [deviceRadixSort_eq admits nonempty roomTmp roomOut, passes]
  exact congrArg some (after_of_loses admits loses 1)

/-- The sort is right unless keys are lost, and then only on keys that are all true. -/
theorem deviceRadixSort_sorts_iff (admits : dispatch.Admits pairs) (nonempty : pairs ≠ [])
    {tmp out : List (Pair w V)} (roomTmp : tmp.length = pairs.length) (roomOut : out.length = pairs.length) :
    (∃ sorted, dispatch.deviceRadixSort pairs tmp out = some sorted ∧
        Sorts dispatch.integral dispatch.descending pairs sorted) ↔
      ¬ (dispatch.integral.Loses dispatch.descending ∧ ∃ pair ∈ pairs, pair.1 ≠ 1) := by
  by_cases loses : dispatch.integral.Loses dispatch.descending
  · rw [deviceRadixSort_of_loses admits nonempty loses roomTmp roomOut]
    have isSort := @sorts_true_iff _ _ dispatch pairs loses.1 admits.keys
    simp only [Option.some.injEq, exists_eq_left', isSort]
    simp [loses]
  · rw [deviceRadixSort_eq admits nonempty roomTmp roomOut]
    constructor
    · intro _ both
      exact loses both.1
    · intro _
      exact ⟨_, rfl, sorts_after admits.isWidth loses⟩

/-- A device on which one group of 256 work items is resident. -/
def small (integral : Integral) (descending : Bool) : Dispatch 8 Nat where
  device := { maxWorkGroupSize := 256, maxSubGroupSize := 16, physicalWorkItems := 256 }
  integral := integral
  descending := descending
  scanBins counts := (List.range counts.length).map fun i => (counts.take i).sum
  schedule _ := [0]
  unset _ := 0

theorem small_workgroupNum (integral : Integral) (descending : Bool) (radixIter : Nat) :
    ((small integral descending).pass 2 radixIter).launch.workgroupNum = 1 := by
  simp [small, Dispatch.pass, Launch.workgroupNum, Launch.totalSlices, Device.maxWorkgroupNum, Device.sizes,
    Sizes.sliceSize, elemsPerItem]

theorem small_admits {integral : Integral} {descending : Bool} {first second : Pair 8 Nat}
    (isWidth : integral.IsWidth 8) (isKey : integral.IsKey first.1) (isKey' : integral.IsKey second.1) :
    (small integral descending).Admits [first, second] where
  resident := by simp [small, Device.maxWorkgroupNum, Device.sizes]
  exclusive _ := rfl
  all radixIter := by
    show [0].Perm (List.range ((small integral descending).pass 2 radixIter).launch.workgroupNum)
    rw [small_workgroupNum]
    exact List.Perm.refl _
  isWidth := isWidth
  keys := by
    intro pair listed
    rcases List.mem_cons.1 listed with isFirst | isSecond
    · rw [isFirst]
      exact isKey
    · rw [List.mem_singleton.1 isSecond]
      exact isKey'

theorem deviceRadixSort_sorts_two :
    ∃ sorted, (small Integral.signed true).deviceRadixSort [(255, 0), (1, 1)] [(0, 0), (0, 0)] [(0, 0), (0, 0)] =
        some sorted ∧ Sorts Integral.signed true [(255, 0), (1, 1)] sorted := by
  have isWidth : Integral.signed.IsWidth 8 := Or.inl rfl
  have admits : (small Integral.signed true).Admits [(255, 0), (1, 1)] := small_admits isWidth trivial trivial
  have keeps : ¬ (small Integral.signed true).integral.Loses (small Integral.signed true).descending :=
    fun loses => nomatch loses.1
  have room : [((0 : BitVec 8), 0), (0, 0)].length = [((255 : BitVec 8), 0), (1, 1)].length := rfl
  exact (deviceRadixSort_sorts_iff admits (List.cons_ne_nil _ _) room room).2 fun both => keeps both.1

/-- True before false, in descending order: both come out true. -/
theorem not_sorts_of_true_false : (small Integral.bool true).Admits [(1, 0), (0, 1)] ∧
      (small Integral.bool true).deviceRadixSort [(1, 0), (0, 1)] [(0, 0), (0, 0)] [(0, 0), (0, 0)] =
        some [(1, 0), (1, 1)] ∧ ¬ Sorts Integral.bool true [((1 : BitVec 8), 0), (0, 1)] [(1, 0), (1, 1)] := by
  have admits : (small Integral.bool true).Admits [(1, 0), (0, 1)] :=
    small_admits rfl (Or.inr rfl) (Or.inl rfl)
  refine ⟨admits, deviceRadixSort_of_loses admits (List.cons_ne_nil _ _) ⟨rfl, rfl⟩ rfl rfl, ?_⟩
  intro isSorted
  have stable := isSorted.stable 0
  exact absurd stable (by decide)

end Dispatch

end Itex.Kernels.DeviceRadixSort
