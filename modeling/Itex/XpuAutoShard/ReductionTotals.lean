import Itex.XpuAutoShard.ReductionExactness

/-!
Contract: when sharded reductions are exact.

Owns: the condition on the totals that are kept in an `int`, and that it is exact.
-/

namespace Itex.XpuAutoShard.Hsp

open Itex.Lib
open Itex.XpuAutoShard.Hsp.ShardingProperty

/-- Inference and lowering give every shard what it should have, whatever the tensor. -/
def ReducesExactly (reduction : Reduction) (props : OpProps) (heap : Heap) (dim : Nat) (sizes : List Int) : Prop :=
  ∃ changed heap' input constants outputRef result,
    infer (reductionInfer reduction props) props heap = .ok (changed, heap') ∧
    props.inputs.mapM (readAt heap') = .ok (input :: constants) ∧
    readAt props.outputs 0 = .ok outputRef ∧ readAt heap' outputRef = .ok result ∧
    ∀ (limits : Limits) (x : Tensor Rat), x.extents.length = input.rank.toNat →
      x.extents[dim]? = some sizes.sum.toNat →
      ∃ values, lowerReduction reduction limits (input :: constants) result (input.shards x) = .ok values ∧
        ExactValues reduction limits x dim result values

/-- Where a total is used, it fits in an `int`: for a mean over the split dim, and for a kept
dim whose size is known, unless the total wraps to a number that is not positive. -/
def TotalsFit (reduction : Reduction) (dim : Nat) (sizes : List Int) (input output : ShardingProperty) : Prop :=
  1 < sizes.length →
    ((reduction.reduced input.rank.toNat)[dim]? = some true → reduction.op = .mean → sizes.sum < 2 ^ 31) ∧
    ((reduction.reduced input.rank.toNat)[dim]? = some false →
      ∀ extent, output.shape[reduction.place input.rank.toNat dim]? = some extent → 0 < extent →
        sizes.sum < 2 ^ 31 ∨ sizes.sum.bmod (2 ^ 32) ≤ 0)

section Totals

variable {sizes : List Int}

theorem accumulateInt_eq (sizes : List Int) : accumulateInt sizes = sizes.sum.bmod (2 ^ 32) := by
  unfold accumulateInt
  rw [foldl_accumulate_eq _ _ (by decide), Int.zero_add]

theorem sum_toNat (nonneg : ∀ size ∈ sizes, 0 ≤ size) : ((sizes.map Int.toNat).sum : Int) = sizes.sum := by
  induction sizes with
  | nil => rfl
  | cons first rest ih =>
    simp_all

theorem sum_toNat_of_pos (positive : ∀ size ∈ sizes, 0 < size) : ((sizes.map Int.toNat).sum : Int) = sizes.sum :=
  sum_toNat fun size mem => Int.le_of_lt (positive size mem)

/-- A total that goes from `int` to `size_t` is right as long as it fits in an `int`. -/
theorem total_eq_iff {sum : Int} (positive : 0 < sum) (bounded : sum < 2 ^ 63) :
    sum.bmod (2 ^ 32) % 2 ^ 64 = sum ↔ sum < 2 ^ 31 := by
  generalize isTotal : sum.bmod (2 ^ 32) = total
  rw [Int.bmod_def] at isTotal
  split at isTotal <;> omega

theorem bmod_eq_iff {sum : Int} (positive : 0 < sum) : sum.bmod (2 ^ 32) = sum ↔ sum < 2 ^ 31 := by
  generalize isTotal : sum.bmod (2 ^ 32) = total
  rw [Int.bmod_def] at isTotal
  split at isTotal <;> omega

end Totals

theorem combine_ones (count : Nat) : combine (· + ·) 0 (List.replicate count (1 : Rat)) = count := by
  cases count with
  | zero => exact Nat.cast_zero.symm
  | succ count =>
    change (List.replicate count (1 : Rat)).foldl (· + ·) 1 = _
    rw [Nat.cast_succ]
    have folds : ∀ (count : Nat) (start : Rat), (List.replicate count (1 : Rat)).foldl (· + ·) start = count + start := by
      intro count
      induction count with
      | zero =>
        intro start
        rw [Nat.cast_zero, zero_add]
        rfl
      | succ count ih =>
        intro start
        rw [List.replicate_succ, List.foldl_cons, ih, Nat.cast_succ, add_comm start 1, add_assoc]
    exact folds count 1

def onesTensor (rank dim extent : Nat) : Tensor Rat := ⟨(List.replicate rank 1).set dim extent, fun _ => 1⟩

section Ones

variable {reduction : Reduction} {rank dim extent : Nat}

theorem mem_indices_ones (rank : Nat) : List.replicate rank 0 ∈ indices (List.replicate rank 1) := by
  induction rank with
  | zero => exact mem_indices_nil.2 rfl
  | succ rank ih => exact mem_indices_cons.2 ⟨0, _, rfl, Nat.one_pos, ih⟩

/-- Some entry of the reduction stands for at least one entry of the tensor. -/
theorem exists_fiber_ones (isReduced : (reduction.reduced rank)[dim]? = some true) :
    ∃ index ∈ indices (reduction.eval ⟨0, 0⟩ (onesTensor rank dim extent)).extents,
      0 < fiberWidth reduction (onesTensor rank dim extent) dim index := by
  have ranked : (onesTensor rank dim extent).extents.length = rank := by
    unfold onesTensor
    rw [List.length_set, List.length_replicate]
  have origin := mem_indices_ones rank
  have setOne : (onesTensor rank dim extent).extents.set dim 1 = List.replicate rank 1 := by
    unfold onesTensor
    rw [List.set_set, List.set_replicate_self]
  refine ⟨project (if reduction.keeps then some 0 else none) (reduction.reduced rank) (List.replicate rank 0), ?_, ?_⟩
  · have mem := @Tensor.project_mem_indices reduction.keeps (reduction.reduced rank) _ _ origin
    rw [← setOne, List.set_eq_modify, project_modify_of_reduced isReduced] at mem
    unfold Reduction.eval
    rw [ranked]
    exact mem
  · unfold fiberWidth
    rw [setOne, ranked]
    apply List.length_pos_of_mem (a := List.replicate rank 0)
    unfold Tensor.fiberIndices
    rw [List.mem_filter]
    exact ⟨origin, decide_eq_true rfl⟩

end Ones

section Conditions

variable {reduction : Reduction} {props : OpProps} {heap : Heap} {dim : Nat} {sizes : List Int}
  {inputRef outputRef : Nat} {others : List Nat} {input output result : ShardingProperty} {spec : SplitSpec}
  {constants : List ShardingProperty}

/-- The shards are right for every tensor. -/
def AllExact (reduction : Reduction) (dim : Nat) (sizes : List Int) (input result : ShardingProperty)
    (constants : List ShardingProperty) : Prop :=
  ∀ (limits : Limits) (x : Tensor Rat), x.extents.length = input.rank.toNat → x.extents[dim]? = some sizes.sum.toNat →
    ∃ values, lowerReduction reduction limits (input :: constants) result (input.shards x) = .ok values ∧
      ExactValues reduction limits x dim result values

variable (lowers : Lowers reduction props heap dim sizes inputRef outputRef others input output result spec constants)

include lowers

theorem Lowers.sum_pos : 0 < sizes.sum := List.sum_pos _ lowers.site.split.positive lowers.site.split.nonempty

theorem Lowers.atExtent {x : Tensor Rat} (atExtent : x.extents[dim]? = some sizes.sum.toNat) :
    x.extents[dim]? = some (sizes.map Int.toNat).sum := by
  rw [atExtent, ← sum_toNat_of_pos lowers.site.split.positive, Int.toNat_natCast]

theorem Lowers.ones_extents : (onesTensor input.rank.toNat dim sizes.sum.toNat).extents.length = input.rank.toNat ∧
      (onesTensor input.rank.toNat dim sizes.sum.toNat).extents[dim]? = some sizes.sum.toNat := by
  unfold onesTensor
  rw [List.length_set, List.length_replicate]
  refine ⟨rfl, List.getElem?_set_self ?_⟩
  rw [List.length_replicate]
  exact lowers.site.split.lt_rank

section

variable (several : 1 < sizes.length) (flag : (reduction.reduced input.rank.toNat)[dim]? = some true)
  (isMean : reduction.op = .mean)

include several flag isMean

theorem Lowers.mean_exact (fits : sizes.sum < 2 ^ 31) : AllExact reduction dim sizes input result constants := by
  intro limits x ranked atExtent
  have atDim := lowers.atExtent atExtent
  have isReduced := flag
  rw [← ranked] at isReduced
  obtain ⟨value, lowered, isExtents, isEntry⟩ := lowers.mean_values several ranked atDim flag limits isMean
  have isTotal : accumulateInt sizes % 2 ^ 64 = sizes.sum := by
    rw [accumulateInt_eq]
    exact (total_eq_iff lowers.sum_pos lowers.site.bounded).2 fits
  refine ⟨_, lowered, ?_, ?_, ?_⟩
  · rw [List.length_replicate, lowers.numShards]
  · intro _ other mem
    rw [List.eq_of_mem_replicate mem]
    refine ⟨isExtents, ?_⟩
    intro index _
    rw [isEntry, mean_entry limits isMean isReduced atDim, isTotal, ← sum_toNat_of_pos lowers.site.split.positive,
      Int.cast_natCast]
  · rw [isReduced]
    intro isFalse
    cases isFalse

/-- The mean of ones is one only if the total is right. -/
theorem Lowers.sum_lt_of_mean_exact (exact_ : AllExact reduction dim sizes input result constants) : sizes.sum < 2 ^ 31 := by
  obtain ⟨ranked, atExtent⟩ := lowers.ones_extents
  have atDim := lowers.atExtent atExtent
  obtain ⟨values, lowered, exactValues⟩ := exact_ ⟨0, 0⟩ _ ranked atExtent
  obtain ⟨value, isLowered, isExtents, isEntry⟩ := lowers.mean_values several ranked atDim flag ⟨0, 0⟩ isMean
  rw [isLowered] at lowered
  have isReduced := flag
  rw [← ranked] at isReduced
  have mem : value ∈ values := by
    rw [← Except.ok.inj lowered]
    exact List.mem_replicate.2 ⟨by omega, rfl⟩
  have same := exactValues.whole isReduced value mem
  obtain ⟨index, isIndex, width⟩ := @exists_fiber_ones reduction input.rank.toNat dim sizes.sum.toNat flag
  have entries := same.2 index (by rw [isExtents]; exact isIndex)
  have ones : combine (· + ·) 0 ((onesTensor input.rank.toNat dim sizes.sum.toNat).fiber reduction.keeps
      (reduction.reduced (onesTensor input.rank.toNat dim sizes.sum.toNat).extents.length) index) =
      ((sizes.map Int.toNat).sum * fiberWidth reduction (onesTensor input.rank.toNat dim sizes.sum.toNat) dim index : Nat) := by
    unfold fiberWidth
    rw [← @length_fiber _ reduction.keeps _ _ _ isReduced atDim index, ← combine_ones, ← List.map_const']
    unfold Tensor.fiber
    rw [List.map_map]
    rfl
  rw [isEntry, mean_entry ⟨0, 0⟩ isMean isReduced atDim, ones] at entries
  have sumNonzero : ((sizes.map Int.toNat).sum : Rat) ≠ 0 := by
    have isSum := sum_toNat_of_pos lowers.site.split.positive
    have positive := lowers.sum_pos
    exact_mod_cast (show (sizes.map Int.toNat).sum ≠ 0 by omega)
  have widthNonzero : (fiberWidth reduction (onesTensor input.rank.toNat dim sizes.sum.toNat) dim index : Rat) ≠ 0 := by
    exact_mod_cast Nat.pos_iff_ne_zero.1 width
  rw [Nat.cast_mul, mul_comm, mul_div_mul_left _ _ widthNonzero, mul_div_mul_left _ _ widthNonzero,
    div_self sumNonzero] at entries
  have totalNonzero : ((accumulateInt sizes % 2 ^ 64 : Int) : Rat) ≠ 0 := by
    intro isZero
    rw [isZero, div_zero] at entries
    exact zero_ne_one entries
  have isTotal := (div_eq_one_iff_eq totalNonzero).1 entries
  have isInt : sizes.sum = accumulateInt sizes % 2 ^ 64 := by
    rw [← sum_toNat_of_pos lowers.site.split.positive]
    apply Rat.intCast_injective
    rw [Int.cast_natCast]
    exact isTotal
  rw [accumulateInt_eq] at isInt
  exact (total_eq_iff lowers.sum_pos lowers.site.bounded).1 isInt.symm

end

/-- The sizes of the result are those of the operand exactly where the total is right. -/
theorem Lowers.sameSizes_iff (flag : (reduction.reduced input.rank.toNat)[dim]? = some false) :
    ((output.rescaled (reduction.place input.rank.toNat dim) spec).sizes.map Int.toNat = sizes.map Int.toNat ↔
      ∀ extent, output.shape[reduction.place input.rank.toNat dim]? = some extent → 0 < extent →
        sizes.sum < 2 ^ 31 ∨ sizes.sum.bmod (2 ^ 32) ≤ 0) ∧
      ((output.rescaled (reduction.place input.rank.toNat dim) spec).sizes.map Int.toNat = sizes.map Int.toNat →
        (output.rescaled (reduction.place input.rank.toNat dim) spec).sizes = sizes) := by
  have isSizes := lowers.size.2
  have isTotal : spec.getTotalSize = sizes.sum.bmod (2 ^ 32) := by rw [SplitSpec.getTotalSize_eq, isSizes]
  have sumPositive := lowers.sum_pos
  have positive := lowers.site.split.positive
  cases atPlace : output.shape[reduction.place input.rank.toNat dim]? with
  | none =>
    have same : output.rescaled (reduction.place input.rank.toNat dim) spec = spec := by
      unfold rescaled
      rw [atPlace]
    rw [same, isSizes]
    refine ⟨⟨fun _ extent isExtent => (by cases isExtent), fun _ => rfl⟩, fun _ => rfl⟩
  | some extent =>
    have isSum := lowers.site.outputShape extent atPlace flag
    by_cases unscaled : extent ≤ 0 ∨ spec.getTotalSize ≤ 0
    · have same : output.rescaled (reduction.place input.rank.toNat dim) spec = spec := by
        unfold rescaled
        rw [atPlace]
        exact if_pos unscaled
      grind
    · have scaled : (output.rescaled (reduction.place input.rank.toNat dim) spec).sizes =
          sizes.map fun size => (extent * size).tdiv (sizes.sum.bmod (2 ^ 32)) := by
        unfold rescaled
        rw [atPlace]
        dsimp only
        rw [if_neg unscaled, ← isTotal]
        unfold SplitSpec.buildFromSizes
        dsimp only
        rw [isSizes]
      rw [not_or, Int.not_le, Int.not_le, isTotal] at unscaled
      have isExtent : extent = sizes.sum := isSum unscaled.1
      have each : (output.rescaled (reduction.place input.rank.toNat dim) spec).sizes.map Int.toNat =
          sizes.map Int.toNat → ∀ size ∈ sizes, (extent * size).tdiv (sizes.sum.bmod (2 ^ 32)) = size := by
        intro same size mem
        rw [scaled, List.map_map] at same
        have atSize := List.map_inj_left.1 same size mem
        dsimp only [Function.comp] at atSize
        have isPositive := positive size mem
        have nonneg : 0 ≤ (extent * size).tdiv (sizes.sum.bmod (2 ^ 32)) :=
          Int.tdiv_nonneg (Int.mul_nonneg (Int.le_of_lt unscaled.1) (Int.le_of_lt isPositive))
            (Int.le_of_lt unscaled.2)
        omega
      have back : sizes.sum.bmod (2 ^ 32) = sizes.sum →
          (output.rescaled (reduction.place input.rank.toNat dim) spec).sizes = sizes := by
        intro isRight
        rw [scaled, isRight, isExtent]
        apply (List.map_congr_left _).trans (List.map_id' sizes)
        intro size _
        exact Int.mul_tdiv_cancel_left size (by omega)
      refine ⟨⟨?_, ?_⟩, ?_⟩
      · intro same other isOther _
        left
        obtain ⟨size, mem⟩ := List.exists_mem_of_ne_nil sizes lowers.site.split.nonempty
        have atSize := each same size mem
        have isPositive := positive size mem
        rw [isExtent, mul_comm] at atSize
        exact (bmod_eq_iff sumPositive).1 (total_eq_of_tdiv unscaled.2 (by omega) atSize)
      · grind
      · intro same
        rw [scaled]
        exact (List.map_congr_left (each same)).trans (List.map_id' sizes)

theorem Lowers.kept_exact_iff (several : 1 < sizes.length)
    (flag : (reduction.reduced input.rank.toNat)[dim]? = some false) :
    AllExact reduction dim sizes input result constants ↔
      ∀ extent, output.shape[reduction.place input.rank.toNat dim]? = some extent → 0 < extent →
        sizes.sum < 2 ^ 31 ∨ sizes.sum.bmod (2 ^ 32) ≤ 0 := by
  obtain ⟨sameIff, sameSizes⟩ := lowers.sameSizes_iff flag
  rw [← sameIff]
  constructor
  · intro exact_
    obtain ⟨ranked, atExtent⟩ := lowers.ones_extents
    obtain ⟨values, lowered, exactValues⟩ := exact_ ⟨0, 0⟩ _ ranked atExtent
    exact lowers.sameSizes_of_exact several ranked flag ⟨0, 0⟩ lowered exactValues
  · intro same limits x ranked atExtent
    exact lowers.exact_of_sameSizes several ranked (lowers.atExtent atExtent) flag (sameSizes same) limits

theorem Lowers.allExact_iff : AllExact reduction dim sizes input result constants ↔
    TotalsFit reduction dim sizes input output := by
  by_cases isOne : sizes.length = 1
  · constructor
    · intro _ several
      omega
    · intro _ limits x _ _
      refine ⟨[reduction.eval limits x], ?_, lowers.exact_of_one isOne limits x⟩
      rw [lowers.lowerReduction, if_pos isOne]
  have several : 1 < sizes.length := by
    have := List.length_pos_iff.2 lowers.site.split.nonempty
    omega
  unfold TotalsFit
  rw [imp_iff_right several]
  cases flag : (reduction.reduced input.rank.toNat)[dim]? with
  | none =>
    rw [List.getElem?_eq_none_iff, Reduction.length_reduced] at flag
    exact absurd lowers.site.split.lt_rank (Nat.not_lt.2 flag)
  | some isReduced =>
    cases isReduced with
    | true =>
      constructor
      · intro exact_
        exact ⟨fun _ isMean => lowers.sum_lt_of_mean_exact several flag isMean exact_, fun isFalse => (by cases isFalse)⟩
      · intro fits
        by_cases isMean : reduction.op = .mean
        · exact lowers.mean_exact several flag isMean (fits.1 rfl isMean)
        · intro limits x ranked atExtent
          exact lowers.exact_of_folds several ranked (lowers.atExtent atExtent) flag limits isMean
    | false =>
      rw [lowers.kept_exact_iff several flag]
      exact ⟨fun fits => ⟨fun isTrue => (by cases isTrue), fun _ => fits⟩, fun fits => fits.2 rfl⟩

end Conditions

section Claim

variable {reduction : Reduction} {props : OpProps} {heap : Heap} {dim : Nat} {sizes : List Int}
  {inputRef outputRef : Nat} {others : List Nat} {input output : ShardingProperty}

/-- After inference, what counts is the values of the shards. -/
theorem Site.reducesExactly_iff_allExact
    (site : Site reduction props heap dim sizes inputRef outputRef others input output) : ∃ result spec constants,
      Lowers reduction props heap dim sizes inputRef outputRef others input output result spec constants ∧
        (ReducesExactly reduction props heap dim sizes ↔ AllExact reduction dim sizes input result constants) := by
  obtain ⟨stageOffsets, atDim⟩ := site.split.atDim
  obtain ⟨changed, heap', result, inferred, atInput, atOutput, isInferred, stages, agree⟩ := site.infer atDim
  obtain ⟨constants, operands, same⟩ := exists_mapM_readAt atInput agree
  rw [← site.inputs] at operands
  have isOutput := site.isOutput
  refine ⟨result, _, constants, ⟨site, atDim, isInferred, stages, same⟩, ?_, ?_⟩
  · rintro ⟨changed', heap'', input', constants', outputRef', result', inferred', operands', isOutput', atOutput', exact_⟩
    rw [inferred] at inferred'
    cases inferred'
    rw [operands] at operands'
    cases operands'
    rw [isOutput] at isOutput'
    cases isOutput'
    rw [readAt_eq_ok.2 atOutput] at atOutput'
    cases atOutput'
    exact exact_
  · intro exact_
    exact ⟨changed, heap', input, constants, outputRef, result, inferred, operands, isOutput, readAt_eq_ok.2 atOutput, exact_⟩

/-- Sharded reductions are exact where, and only where, the totals that are kept in an `int`
fit. -/
theorem reducesExactly_iff_totalsFit
    (site : Site reduction props heap dim sizes inputRef outputRef others input output) :
    ReducesExactly reduction props heap dim sizes ↔ TotalsFit reduction dim sizes input output := by
  obtain ⟨result, spec, constants, lowers, isExact⟩ := site.reducesExactly_iff_allExact
  rw [isExact, lowers.allExact_iff]

end Claim

/-- The operand, the reduction dims and the result of a mean over the last dim. -/
def meanHeap (sizes : List Int) : Heap :=
  [{ rank := 1, deviceIds := [0, 1], splitSpecs := [.buildFromSizes sizes []], orderedSplitDims := [0],
      specsMatchRank := oneSpec },
    { rank := 1, deviceIds := [0, 1], splitSpecs := [.buildSingleSplit] },
    { rank := 0, deviceIds := [0, 1] }]

def lastDimMean : Reduction := { op := .mean, contractionDims := [-1] }

theorem meanHeap_site {first second : Int} (firstPositive : 0 < first) (secondPositive : 0 < second)
    (bounded : first + second < 2 ^ 63) :
    ∃ input constant output, meanHeap [first, second] = [input, constant, output] ∧ input.rank = 1 ∧
      Site lastDimMean ⟨[0, 1], [2]⟩ (meanHeap [first, second]) 0 [first, second] 0 2 [1] input output := by
  refine ⟨_, _, _, rfl, rfl, ?_⟩
  exact
    { inputs := rfl
      outputs := rfl
      atInput := rfl
      atOutput := rfl
      apart := by decide
      split :=
        { atDim := ⟨[], rfl⟩
          single := by
            intro other spec atOther ne
            cases other with
            | zero => exact absurd rfl ne
            | succ other => cases atOther
          ordered := rfl
          devices := show [0, 1].Nodup by decide
          perDevice := rfl
          staged := by
            intro count mem
            have isCounts : count ∈ [1, 1] := mem
            simp only [List.mem_cons, List.not_mem_nil, or_false, or_self] at isCounts
            omega
          counted := rfl
          positive := by
            intro size mem
            simp only [List.mem_cons, List.not_mem_nil, or_false] at mem
            omega
          nonempty := by simp }
      fresh := ⟨by decide, fun dim spec atDim => (by cases atDim), rfl, rfl, rfl⟩
      sameDevices := rfl
      constants := by
        intro other mem
        rw [List.mem_singleton.1 mem]
        exact ⟨by decide, _, rfl, rfl, rfl, rfl⟩
      someDims := show lastDimMean.dims 1 ≠ [] by decide
      inRange := show ∀ index ∈ lastDimMean.dims 1, -1 ≤ index ∧ index < 1 by decide
      outputRank := rfl
      bounded := by simpa using bounded
      outputShape := by
        intro extent atPlace
        cases atPlace }

theorem small_mean_exact : ReducesExactly lastDimMean ⟨[0, 1], [2]⟩ (meanHeap [3, 5]) 0 [3, 5] := by
  obtain ⟨input, constant, output, _, isRank, site⟩ := @meanHeap_site 3 5 (by decide) (by decide) (by decide)
  apply (reducesExactly_iff_totalsFit site).2
  intro _
  rw [isRank]
  exact ⟨fun _ _ => by decide, fun flag => absurd flag (by decide)⟩

/-- A mean of `2 ^ 31` numbers in two halves weighs each by a total that wrapped. -/
theorem wrapped_mean_wrong :
    ¬ ReducesExactly lastDimMean ⟨[0, 1], [2]⟩ (meanHeap [2 ^ 30, 2 ^ 30]) 0 [2 ^ 30, 2 ^ 30] := by
  obtain ⟨input, constant, output, _, isRank, site⟩ :=
    @meanHeap_site (2 ^ 30) (2 ^ 30) (by decide) (by decide) (by decide)
  obtain ⟨result, spec, constants, lowers, isExact⟩ := site.reducesExactly_iff_allExact
  intro exact_
  have small := lowers.sum_lt_of_mean_exact (by decide) (by rw [isRank]; decide) rfl (isExact.1 exact_)
  exact absurd small (by decide)

end Itex.XpuAutoShard.Hsp
