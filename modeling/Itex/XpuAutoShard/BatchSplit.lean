import Itex.XpuAutoShard.Splits

/-!
Contract: the batch split of the heuristics
(`common/mlir/passes/heuristics_initializer.cpp`).

Owns: the stages of devices, the shares of a batch, `tryBatchSplitValue`, and when the stored
split covers the batch.

Products of ratios are exact. The shape of a value is that of its property. A conversion of a
negative or infinite number to an integer is a crash.
-/

namespace Itex.XpuAutoShard.Hsp

open Itex.Lib

/-! ## Devices -/

/-- A device with the ratio that `getSplitRatios` gives it. -/
structure Device where
  score : Rat
  ratio : Rat
  /-- Zero without a recommendation. -/
  numStages : Nat := 0
deriving DecidableEq, Repr

structure HeuristicsConfig where
  multiStageEnabled : Bool := false
  batchGrainSize : Int := 1
deriving DecidableEq, Repr

/-- `std::round`: halves go away from zero. -/
def roundAway (value : Rat) : Int :=
  if value < 0 then -⌊-value + 1 / 2⌋ else ⌊value + 1 / 2⌋

/-- One device in the first loop of `numStagesByDevice`. -/
def scanMinScore (best : Option Rat × Nat) (device : Device) : Option Rat × Nat :=
  if best.1.all (device.score < ·) then (some device.score, device.numStages) else best

/-- The stages of one device: those configured, or as many as its score is worth. -/
def stagesOfDevice (minScore : Rat) (numStagesOfMinScore : Nat) (device : Device) : Except Failure Nat :=
  if 0 < device.numStages then .ok device.numStages
  else if minScore = 0 then .error (.crash "conversion of an infinite number")
  else if roundAway (device.score / minScore) < 0 then .error (.crash "conversion of a negative number")
  else .ok ((roundAway (device.score / minScore)).toNat * numStagesOfMinScore)

def numStagesByDevice (devices : List Device) : Except Failure (List Nat) :=
  let (minScore, numStages) := devices.foldl scanMinScore (none, 0)
  devices.mapM (stagesOfDevice (minScore.getD 0) (if numStages = 0 then 1 else numStages))

/-- `stage_offsets`. -/
def accumulateStages (numStagesAcc : Nat) : List Nat → List Nat
  | [] => []
  | numStages :: rest => (numStagesAcc + numStages) :: accumulateStages (numStagesAcc + numStages) rest

/-! ## Shares -/

def getLocalBatchSize (globalBs : Int) (ratio : Rat) (grainSize : Int) : Int :=
  (roundAway (globalBs * ratio)).tdiv grainSize * grainSize

/-- The loop over the devices without stages. -/
def deviceSizes (batchsize grainSize : Int) : List Rat → Int → Option (List Int)
  | [], _ => some []
  | ratio :: ratios, batchsizeLeft =>
    let myBatchsize := min (getLocalBatchSize batchsize ratio grainSize) batchsizeLeft
    if myBatchsize = 0 ∨ myBatchsize.tmod grainSize ≠ 0 then none
    else (myBatchsize :: ·) <$> deviceSizes batchsize grainSize ratios (batchsizeLeft - myBatchsize)

/-- The loop over the stages of one device; the last stage of the last one takes what is left. -/
def stageSizes (grainSize bsPerStage : Int) (isLastDevice : Bool) : Nat → Int → List Int → Option (Int × List Int)
  | 0, batchsizeLeft, splitSizes => some (batchsizeLeft, splitSizes)
  | stages + 1, batchsizeLeft, splitSizes =>
    let left := batchsizeLeft - min bsPerStage batchsizeLeft
    let myBatchsize := min bsPerStage batchsizeLeft + if isLastDevice ∧ stages = 0 then left else 0
    if myBatchsize = 0 ∨ myBatchsize.tmod grainSize ≠ 0 then none
    else stageSizes grainSize bsPerStage isLastDevice stages left (splitSizes ++ [myBatchsize])

/-- The loop over the devices with their stages. -/
def stagedSizes (batchsize grainSize : Int) : List (Nat × Rat) → Int → List Int → Except Failure (Option (List Int))
  | [], _, splitSizes => .ok (some splitSizes)
  | (numStages, ratio) :: rest, batchsizeLeft, splitSizes =>
    if numStages = 0 then .error (.crash "conversion of an infinite number")
    else
      match stageSizes grainSize (getLocalBatchSize batchsize (1 / numStages * ratio) grainSize)
        rest.isEmpty numStages batchsizeLeft splitSizes with
      | none => .ok none
      | some (left, sizes) => stagedSizes batchsize grainSize rest left sizes

/-- The split for a batch of unknown size. -/
def ratioSplit (config : HeuristicsConfig) (devices : List Device) : Except Failure SplitSpec :=
  if config.multiStageEnabled then do
    let numStages ← numStagesByDevice devices
    return {
      type := .ratio
      ratios := (numStages.zip devices).flatMap fun entry =>
        List.replicate entry.1 (entry.2.ratio / entry.1)
      stageOffsets := accumulateStages 0 numStages }
  else return .buildFromRatios (devices.map Device.ratio)

/-- The split for a batch of known size, if the shares are large enough. -/
def sizeSplit (config : HeuristicsConfig) (devices : List Device) (batchsize : Int) :
    Except Failure (Option SplitSpec) :=
  if config.multiStageEnabled then do
    let numStages ← numStagesByDevice devices
    let sizes ← stagedSizes batchsize config.batchGrainSize (numStages.zip (devices.map Device.ratio))
      batchsize []
    return sizes.map fun sizes => .buildFromSizes sizes (accumulateStages 0 numStages)
  else
    return (deviceSizes batchsize config.batchGrainSize (devices.map Device.ratio) batchsize).map
      fun sizes => .buildFromSizes sizes []

def tryBatchSplitValue (config : HeuristicsConfig) (devices : List Device) (prop : ShardingProperty) :
    Except Failure (Bool × ShardingProperty) := do
  let split ← prop.isSplitAt 0
  if split then return (false, prop)
  else do
    let batchsize ← readAt prop.shape 0
    if batchsize < 0 then do
      let spec ← ratioSplit config devices
      prop.splitAt 0 spec
    else do
      match ← sizeSplit config devices batchsize with
      | none => return (false, prop)
      | some spec => prop.splitAt 0 spec

theorem roundAway_of_nonneg {value : Rat} (nonneg : 0 ≤ value) :
    0 ≤ roundAway value ∧ value < roundAway value + 1 / 2 := by
  unfold roundAway
  rw [if_neg (not_lt.2 nonneg)]
  have above := Int.lt_floor_add_one (value + 1 / 2)
  refine ⟨Int.floor_nonneg.2 (by linarith), by linarith⟩

/-- A share is less than a grain below the exact one. -/
theorem getLocalBatchSize_spec {globalBs grainSize : Int} {ratio : Rat} (nonneg : 0 ≤ globalBs)
    (pos : 0 < ratio) (grain : 1 ≤ grainSize) :
    0 ≤ getLocalBatchSize globalBs ratio grainSize ∧ grainSize ∣ getLocalBatchSize globalBs ratio grainSize ∧
      globalBs * ratio < getLocalBatchSize globalBs ratio grainSize + grainSize - 1 / 2 := by
  have exact_ : (0 : Rat) ≤ globalBs * ratio := mul_nonneg (by exact_mod_cast nonneg) pos.le
  obtain ⟨roundedNonneg, close⟩ := roundAway_of_nonneg exact_
  unfold getLocalBatchSize
  generalize roundAway (globalBs * ratio) = rounded at roundedNonneg close
  have division := Int.mul_tdiv_add_tmod rounded grainSize
  have small := Int.tmod_lt_of_pos rounded (show 0 < grainSize by omega)
  have quotient := Int.tdiv_nonneg roundedNonneg (show 0 ≤ grainSize by omega)
  have below : rounded + 1 ≤ rounded.tdiv grainSize * grainSize + grainSize := by
    rw [Int.mul_comm] at division
    omega
  refine ⟨Int.mul_nonneg quotient (by omega), Int.dvd_mul_left _ _, ?_⟩
  have belowRat : (rounded : Rat) + 1 ≤ (rounded.tdiv grainSize * grainSize : Int) + grainSize := by
    exact_mod_cast below
  linarith

/-- Positive multiples of the grain. -/
def Grained (grainSize : Int) (sizes : List Int) : Prop := ∀ size ∈ sizes, 0 < size ∧ grainSize ∣ size

theorem grained_nil (grainSize : Int) : Grained grainSize [] := by
  intro size mem
  cases mem

theorem grained_of_checked {grainSize size : Int} (nonneg : 0 ≤ size)
    (checked : ¬ (size = 0 ∨ size.tmod grainSize ≠ 0)) : 0 < size ∧ grainSize ∣ size := by
  rw [not_or, not_not] at checked
  exact ⟨by omega, Int.dvd_of_tmod_eq_zero checked.2⟩

/-- Without stages, the shares add up to what there is, or to all that they ask for. -/
theorem deviceSizes_spec {batchsize grainSize left : Int} {ratios : List Rat} {sizes : List Int}
    (shares : ∀ ratio ∈ ratios, 0 ≤ getLocalBatchSize batchsize ratio grainSize) (leftNonneg : 0 ≤ left)
    (ran : deviceSizes batchsize grainSize ratios left = some sizes) :
    sizes.length = ratios.length ∧ Grained grainSize sizes ∧
      sizes.sum = min left (ratios.map fun ratio => getLocalBatchSize batchsize ratio grainSize).sum := by
  induction ratios generalizing left sizes with
  | nil =>
    cases ran
    refine ⟨rfl, grained_nil grainSize, ?_⟩
    exact (min_eq_right leftNonneg).symm
  | cons ratio ratios ih =>
    have share := shares ratio List.mem_cons_self
    have others : ∀ other ∈ ratios, 0 ≤ getLocalBatchSize batchsize other grainSize :=
      fun other mem => shares other (List.mem_cons_of_mem _ mem)
    have rest : 0 ≤ (ratios.map fun ratio => getLocalBatchSize batchsize ratio grainSize).sum := by
      apply List.sum_nonneg
      intro size mem
      obtain ⟨other, inRatios, isSize⟩ := List.mem_map.1 mem
      exact isSize ▸ others other inRatios
    unfold deviceSizes at ran
    dsimp only at ran
    split at ran
    · cases ran
    next checked =>
      obtain ⟨tail, ofTail, isSizes⟩ := Option.map_eq_some_iff.1 ran
      obtain ⟨isLength, grained, isSum⟩ := ih others (by omega) ofTail
      rw [← isSizes]
      refine ⟨by rw [List.length_cons, List.length_cons, isLength], ?_, ?_⟩
      · intro size mem
        rcases List.mem_cons.1 mem with isFirst | later
        · rw [isFirst]
          exact grained_of_checked (by omega) checked
        · exact grained size later
      · rw [List.sum_cons, isSum, List.map_cons, List.sum_cons]
        omega

theorem stageSizes_spec {grainSize bsPerStage left left' : Int} {isLastDevice : Bool} {stages : Nat}
    {sizes sizes' : List Int} (bsNonneg : 0 ≤ bsPerStage) (leftNonneg : 0 ≤ left)
    (ran : stageSizes grainSize bsPerStage isLastDevice stages left sizes = some (left', sizes')) :
    ∃ added, sizes' = sizes ++ added ∧ added.length = stages ∧ Grained grainSize added ∧ 0 ≤ left' ∧
      added.sum + left' = left + if isLastDevice ∧ 0 < stages then left' else 0 := by
  induction stages generalizing left sizes with
  | zero =>
    cases ran
    refine ⟨[], (List.append_nil _).symm, rfl, grained_nil grainSize, leftNonneg, ?_⟩
    rw [if_neg (fun both => Nat.lt_irrefl 0 both.2)]
    exact Int.add_comm _ _
  | succ stages ih =>
    unfold stageSizes at ran
    dsimp only at ran
    generalize isMine : min bsPerStage left +
      (if isLastDevice = true ∧ stages = 0 then left - min bsPerStage left else 0) = mine at ran
    split at ran
    · cases ran
    next checked =>
      have afterNonneg : 0 ≤ left - min bsPerStage left := by omega
      obtain ⟨added, isSizes, isLength, grained, lastNonneg, isSum⟩ :=
        ih afterNonneg ran
      refine ⟨mine :: added, by rw [isSizes, List.append_assoc]; rfl, by rw [List.length_cons, isLength], ?_,
        lastNonneg, ?_⟩
      · intro size mem
        rcases List.mem_cons.1 mem with isFirst | later
        · rw [isFirst]
          apply grained_of_checked _ checked
          rw [← isMine]
          split <;> omega
        · exact grained size later
      · grind

theorem stagedSizes_spec {batchsize grainSize left : Int} {entries : List (Nat × Rat)} {sizes sizes' : List Int}
    (shares : ∀ entry ∈ entries, 0 < entry.1 → 0 ≤ getLocalBatchSize batchsize (1 / entry.1 * entry.2) grainSize)
    (leftNonneg : 0 ≤ left) (some_ : entries ≠ [])
    (ran : stagedSizes batchsize grainSize entries left sizes = .ok (some sizes')) :
    ∃ added, sizes' = sizes ++ added ∧ added ≠ [] ∧ added.length = (entries.map Prod.fst).sum ∧
      Grained grainSize added ∧ added.sum = left := by
  induction entries generalizing left sizes with
  | nil => exact absurd rfl some_
  | cons entry rest ih =>
    obtain ⟨numStages, ratio⟩ := entry
    unfold stagedSizes at ran
    obtain ⟨staged, ran⟩ := of_guard ran
    have share := shares _ List.mem_cons_self (Nat.pos_of_ne_zero staged)
    split at ran
    · cases ran
    next after sizesAfter ofDevice =>
      obtain ⟨added, isSizes, isLength, grained, afterNonneg, isSum⟩ :=
        stageSizes_spec share leftNonneg ofDevice
      cases rest with
      | nil =>
        cases ran
        grind
      | cons second rest =>
        rw [if_neg (fun both => Bool.false_ne_true both.1)] at isSum
        obtain ⟨others, isAll, someOthers, othersLength, othersGrained, othersSum⟩ :=
          ih (fun other mem => shares other (List.mem_cons_of_mem _ mem))
            afterNonneg (List.cons_ne_nil _ _) ran
        refine ⟨added ++ others, by rw [isAll, isSizes, List.append_assoc],
          List.append_ne_nil_of_right_ne_nil _ someOthers, ?_, ?_, ?_⟩
        · rw [List.length_append, isLength, othersLength]
          rfl
        · intro size mem
          rcases List.mem_append.1 mem with ofFirst | ofOthers
          · exact grained size ofFirst
          · exact othersGrained size ofOthers
        · rw [List.sum_append, othersSum]
          omega

/-- Where one sum bounds the other term by term and is not below it, the terms agree. -/
theorem eq_of_sum_le {α : Type} {lower upper : α → Int} {entries : List α}
    (below : ∀ entry ∈ entries, lower entry ≤ upper entry) (sums : (entries.map upper).sum ≤ (entries.map lower).sum) :
    ∀ entry ∈ entries, lower entry = upper entry := by
  induction entries with
  | nil =>
    intro entry mem
    cases mem
  | cons head tail ih =>
    rw [List.map_cons, List.sum_cons, List.map_cons, List.sum_cons] at sums
    have tailBelow : ∀ entry ∈ tail, lower entry ≤ upper entry :=
      fun entry mem => below entry (List.mem_cons_of_mem _ mem)
    have tailSums : (tail.map lower).sum ≤ (tail.map upper).sum := List.sum_le_sum tailBelow
    grind

section Rescaled

variable {sizes : List Int} {grainSize batch total : Int}

/-- Sizes scaled by three or more add up to three times as much. -/
theorem three_mul_sum_le (nonneg : ∀ size ∈ sizes, 0 ≤ size) (pos : 0 < total) (large : 3 * total ≤ batch) :
    3 * sizes.sum ≤ (sizes.map fun size => (batch * size).tdiv total).sum := by
  have tripled : (sizes.map fun size => 3 * size).sum = 3 * sizes.sum := by
    rw [List.sum_map_mul_left, List.map_id']
  rw [← tripled]
  apply List.sum_le_sum
  intro size mem
  have sizeNonneg := nonneg size mem
  rw [Int.tdiv_eq_ediv_of_nonneg (Int.mul_nonneg (by omega) sizeNonneg)]
  apply Int.le_ediv_of_mul_le pos
  have scaled := Int.mul_le_mul_of_nonneg_right large sizeNonneg
  linarith

theorem scaled_exactly (nonneg : ∀ size ∈ sizes, 0 ≤ size) (batchNonneg : 0 ≤ batch)
    (sums : (sizes.map fun size => (batch * size).tdiv sizes.sum).sum = batch) :
    ∀ size ∈ sizes, sizes.sum * (batch * size).tdiv sizes.sum = batch * size := by
  apply eq_of_sum_le
  · intro size mem
    have division := Int.mul_tdiv_add_tmod (batch * size) sizes.sum
    have rest := Int.tmod_nonneg (a := batch * size) sizes.sum (Int.mul_nonneg batchNonneg (nonneg size mem))
    omega
  · rw [List.sum_map_mul_left, List.sum_map_mul_left, sums, List.map_id', Int.mul_comm]

/-- Positive multiples of a grain, the larger ones exactly in proportion to the smaller ones,
are larger by a grain each. -/
theorem sum_add_length_mul_le (grained : Grained grainSize sizes) (less : sizes.sum < batch)
    (scaledGrained : Grained grainSize (sizes.map fun size => (batch * size).tdiv sizes.sum))
    (sums : (sizes.map fun size => (batch * size).tdiv sizes.sum).sum = batch) :
    sizes.sum + sizes.length * grainSize ≤ batch := by
  have nonneg : ∀ size ∈ sizes, 0 ≤ size := fun size mem => (grained size mem).1.le
  have sumNonneg : 0 ≤ sizes.sum := List.sum_nonneg nonneg
  rcases sumNonneg.eq_or_lt with isZero | pos
  · -- Nothing is scaled by a total of zero.
    rw [← isZero] at sums less
    rw [List.map_congr_left (g := fun _ => (0 : Int)) fun size _ => Int.tdiv_zero _] at sums
    have none_ : (sizes.map fun _ => (0 : Int)).sum = 0 := List.sum_eq_zero (by simp)
    omega
  have exact_ := scaled_exactly nonneg (by omega) sums
  have grows : ∀ size ∈ sizes, size + grainSize ≤ (batch * size).tdiv sizes.sum := by
    intro size mem
    have isExact := exact_ size mem
    obtain ⟨sizePositive, divides⟩ := grained size mem
    obtain ⟨_, scaledDivides⟩ := scaledGrained _ (List.mem_map_of_mem mem)
    generalize (batch * size).tdiv sizes.sum = scaled at isExact scaledDivides ⊢
    have larger : size < scaled := by
      by_contra small
      have product := Int.mul_le_mul_of_nonneg_left (Int.not_lt.1 small) pos.le
      have grownProduct := Int.mul_lt_mul_of_pos_right less sizePositive
      linarith
    have apart := Int.le_of_dvd (by omega) (Int.dvd_sub scaledDivides divides)
    omega
  have total := List.sum_le_sum grows
  rw [List.sum_map_add, List.map_id', List.map_const', List.sum_replicate, nsmul_eq_mul, sums] at total
  exact total

end Rescaled

/-! ## Coverage -/

/-- One piece for each device or stage, of whole grains, that make up the batch. -/
structure CoversBatch (grainSize batchsize : Int) (pieces : Nat) (spec : SplitSpec) : Prop where
  isSize : spec.type = .size
  count : spec.sizes.length = pieces
  grained : Grained grainSize spec.sizes
  sums : spec.sizes.sum = batchsize

/-- As an `int`, the batch size is itself or not positive. -/
def TotalFits (batchsize : Int) : Prop := batchsize.bmod (2 ^ 32) = batchsize ∨ batchsize.bmod (2 ^ 32) ≤ 0

theorem rescaled_covers_iff {prop : ShardingProperty} {sizes : List Int} {grainSize batchsize : Int}
    {stageOffsets : List Nat} (isBatch : prop.shape[0]? = some batchsize) (grain : 1 ≤ grainSize)
    (some_ : sizes ≠ []) (grained : Grained grainSize sizes) (atMost : sizes.sum ≤ batchsize)
    (close : sizes.sum < batchsize → batchsize < sizes.sum + sizes.length * grainSize) :
    CoversBatch grainSize batchsize sizes.length (prop.rescaled 0 (.buildFromSizes sizes stageOffsets)) ↔
      sizes.sum = batchsize ∧ TotalFits batchsize := by
  have nonneg : ∀ size ∈ sizes, 0 ≤ size := fun size mem => (grained size mem).1.le
  have enough := List.card_nsmul_le_sum sizes grainSize fun size mem =>
    Int.le_of_dvd (grained size mem).1 (grained size mem).2
  rw [nsmul_eq_mul] at enough
  have counted : 0 < sizes.length := List.length_pos_iff.2 some_
  have pos : 0 < sizes.sum := by
    have product : (1 : Int) ≤ sizes.length * grainSize := by
      have lengthPositive : (1 : Int) ≤ sizes.length := by exact_mod_cast counted
      calc (1 : Int) = 1 * 1 := rfl
        _ ≤ sizes.length * grainSize := Int.mul_le_mul lengthPositive grain (by omega) (by omega)
    omega
  have isTotal : (SplitSpec.buildFromSizes sizes stageOffsets).getTotalSize = sizes.sum.bmod (2 ^ 32) :=
    SplitSpec.getTotalSize_eq _
  have isRescaled : prop.rescaled 0 (.buildFromSizes sizes stageOffsets) =
      if batchsize ≤ 0 ∨ sizes.sum.bmod (2 ^ 32) ≤ 0 then .buildFromSizes sizes stageOffsets
      else .buildFromSizes (sizes.map fun size => (batchsize * size).tdiv (sizes.sum.bmod (2 ^ 32)))
        stageOffsets := by
    unfold ShardingProperty.rescaled
    rw [isBatch]
    dsimp only
    rw [isTotal]
    rfl
  rw [isRescaled]
  by_cases copied : sizes.sum.bmod (2 ^ 32) ≤ 0
  · rw [if_pos (Or.inr copied)]
    constructor
    · intro covers
      have isSum : sizes.sum = batchsize := covers.sums
      exact ⟨isSum, Or.inr (isSum ▸ copied)⟩
    · intro fits
      exact ⟨rfl, rfl, grained, fits.1⟩
  · rw [if_neg (by omega)]
    constructor
    · intro covers
      have scaledSums : (sizes.map fun size =>
          (batchsize * size).tdiv (sizes.sum.bmod (2 ^ 32))).sum = batchsize := covers.sums
      by_cases sameTotal : sizes.sum.bmod (2 ^ 32) = sizes.sum
      · rw [sameTotal] at scaledSums
        have isSum : sizes.sum = batchsize := by
          by_contra ne
          have scaledGrained : Grained grainSize
              (sizes.map fun size => (batchsize * size).tdiv sizes.sum) := sameTotal ▸ covers.grained
          have far := sum_add_length_mul_le grained (by omega) scaledGrained scaledSums
          have near := close (by omega)
          omega
        exact ⟨isSum, Or.inl (isSum ▸ sameTotal)⟩
      · -- A total that wrapped around is less than a third of the sum.
        exfalso
        have small : sizes.sum.bmod (2 ^ 32) < 2 ^ 31 := Int.bmod_lt (by decide)
        have wraps := Int.bmod_add_bdiv sizes.sum (2 ^ 32)
        have tripled := @three_mul_sum_le _ batchsize _ nonneg (show 0 < sizes.sum.bmod (2 ^ 32) by omega)
          (by omega)
        rw [scaledSums] at tripled
        have near : batchsize ≤ sizes.sum + sizes.length * grainSize := by
          omega
        omega
    · intro fits
      obtain ⟨isSum, fits⟩ := fits
      have total : sizes.sum.bmod (2 ^ 32) = batchsize := by
        rw [isSum] at copied ⊢
        exact fits.resolve_right copied
      have same : (sizes.map fun size => (batchsize * size).tdiv (sizes.sum.bmod (2 ^ 32))) = sizes := by
        rw [total]
        refine (List.map_congr_left fun size _ => ?_).trans (List.map_id' sizes)
        exact Int.mul_tdiv_cancel_left size (by omega)
      rw [same]
      exact ⟨rfl, rfl, grained, isSum⟩

/-- The pieces of a split: the devices, or all their stages. -/
def numPieces (config : HeuristicsConfig) (devices : List Device) : Except Failure Nat :=
  if config.multiStageEnabled then List.sum <$> numStagesByDevice devices else .ok devices.length

theorem mapM_length {α β : Type} {visit : α → Except Failure β} {entries : List α} {results : List β}
    (ran : entries.mapM visit = .ok results) : results.length = entries.length := by
  induction entries generalizing results with
  | nil =>
    cases ran
    rfl
  | cons head tail ih =>
    rw [List.mapM_cons] at ran
    obtain ⟨first, _, ran⟩ := bind_ok.1 ran
    obtain ⟨rest, ofRest, ran⟩ := bind_ok.1 ran
    cases ran
    rw [List.length_cons, List.length_cons, ih ofRest]

section Returned

variable {config : HeuristicsConfig} {devices : List Device} {batchsize : Int}
  (concrete : 0 ≤ batchsize) (grain : 1 ≤ config.batchGrainSize)
  (ratiosPositive : ∀ device ∈ devices, 0 < device.ratio) (sumToOne : (devices.map Device.ratio).sum = 1)
include concrete grain ratiosPositive sumToOne

/-- Without stages, less than a grain is left for each device. -/
theorem shares_close : batchsize < (devices.map fun device =>
        getLocalBatchSize batchsize device.ratio config.batchGrainSize).sum +
      devices.length * config.batchGrainSize := by
  have some_ : devices ≠ [] := by
    intro none_
    rw [none_] at sumToOne
    exact absurd sumToOne (by norm_num)
  have closer : ((devices.map fun device => (batchsize : Rat) * device.ratio).sum) < ((devices.map fun device =>
        ((getLocalBatchSize batchsize device.ratio config.batchGrainSize + config.batchGrainSize : Int) : Rat)).sum) := by
    apply List.sum_lt_sum_of_ne_nil some_
    intro device mem
    have share := (getLocalBatchSize_spec concrete (ratiosPositive device mem) grain).2.2
    push_cast
    linarith
  have isBatch : (devices.map fun device => (batchsize : Rat) * device.ratio).sum = batchsize := by
    rw [List.sum_map_mul_left]
    exact (congrArg ((batchsize : Rat) * ·) sumToOne).trans (mul_one _)
  have isTotal : (devices.map fun device =>
      ((getLocalBatchSize batchsize device.ratio config.batchGrainSize + config.batchGrainSize : Int) : Rat)).sum =
      (((devices.map fun device => getLocalBatchSize batchsize device.ratio config.batchGrainSize).sum +
        devices.length * config.batchGrainSize : Int) : Rat) := by
    have inside : (devices.map fun device =>
        getLocalBatchSize batchsize device.ratio config.batchGrainSize + config.batchGrainSize).sum =
        (devices.map fun device => getLocalBatchSize batchsize device.ratio config.batchGrainSize).sum +
          devices.length * config.batchGrainSize := by
      rw [List.sum_map_add, List.map_const', List.sum_replicate, nsmul_eq_mul]
    rw [← inside]
    have casts := map_list_sum (Int.castRingHom Rat) (devices.map fun device =>
      getLocalBatchSize batchsize device.ratio config.batchGrainSize + config.batchGrainSize)
    rw [List.map_map] at casts
    exact casts.symm
  rw [isBatch, isTotal] at closer
  exact_mod_cast closer

/-- The sizes that `tryBatchSplitValue` finds. -/
structure FoundSizes (config : HeuristicsConfig) (devices : List Device) (batchsize : Int)
    (sizes : List Int) : Prop where
  count : numPieces config devices = .ok sizes.length
  some_ : sizes ≠ []
  grained : Grained config.batchGrainSize sizes
  atMost : sizes.sum ≤ batchsize
  close : sizes.sum < batchsize → batchsize < sizes.sum + sizes.length * config.batchGrainSize
  full : sizes.sum = batchsize ↔ (config.multiStageEnabled = false → batchsize ≤ (devices.map fun device =>
      getLocalBatchSize batchsize device.ratio config.batchGrainSize).sum)

theorem sizeSplit_found {spec : SplitSpec} (ran : sizeSplit config devices batchsize = .ok (some spec)) :
    ∃ sizes stageOffsets, spec = .buildFromSizes sizes stageOffsets ∧ FoundSizes config devices batchsize sizes := by
  have hasDevices : devices ≠ [] := by
    intro none_
    rw [none_] at sumToOne
    exact absurd sumToOne (by norm_num)
  unfold sizeSplit at ran
  cases staged : config.multiStageEnabled with
  | true =>
    rw [staged, if_pos rfl] at ran
    obtain ⟨numStages, ofStages, ran⟩ := bind_ok.1 ran
    obtain ⟨result, ofSizes, ran⟩ := bind_ok.1 ran
    cases result with
    | none => cases ran
    | some sizes =>
      cases ran
      have sameLength : numStages.length = (devices.map Device.ratio).length := by
        unfold numStagesByDevice at ofStages
        rw [List.length_map]
        exact mapM_length ofStages
      have entries : (numStages.zip (devices.map Device.ratio)) ≠ [] := by
        intro none_
        rcases List.zip_eq_nil_iff.1 none_ with noStages | noRatios
        · rw [noStages] at sameLength
          exact hasDevices (List.map_eq_nil_iff.1 (List.length_eq_zero_iff.1 sameLength.symm))
        · exact hasDevices (List.map_eq_nil_iff.1 noRatios)
      have shares : ∀ entry ∈ numStages.zip (devices.map Device.ratio), 0 < entry.1 →
          0 ≤ getLocalBatchSize batchsize (1 / entry.1 * entry.2) config.batchGrainSize := by
        intro entry mem stages
        obtain ⟨device, inDevices, isRatio⟩ := List.mem_map.1 (List.of_mem_zip mem).2
        have ratioPositive : (0 : Rat) < 1 / entry.1 * entry.2 := by
          rw [← isRatio]
          exact mul_pos (by positivity) (ratiosPositive device inDevices)
        exact (getLocalBatchSize_spec concrete ratioPositive grain).1
      obtain ⟨added, isSizes, someAdded, isLength, grained, isSum⟩ :=
        stagedSizes_spec shares concrete entries ofSizes
      rw [List.nil_append] at isSizes
      rw [← isSizes] at someAdded isLength grained isSum
      rw [List.map_fst_zip (Nat.le_of_eq sameLength)] at isLength
      refine ⟨sizes, accumulateStages 0 numStages, rfl, ?_, someAdded, grained, isSum.le, ?_, ?_⟩
      · unfold numPieces
        rw [staged, if_pos rfl, ofStages, isLength]
        rfl
      · intro less
        omega
      · exact iff_of_true isSum fun absurd_ => by rw [staged] at absurd_; cases absurd_
  | false =>
    rw [staged, if_neg Bool.false_ne_true] at ran
    obtain ⟨sizes, ofSizes, isSpec⟩ := Option.map_eq_some_iff.1 (Except.ok.inj ran)
    have shares : ∀ ratio ∈ devices.map Device.ratio,
        0 ≤ getLocalBatchSize batchsize ratio config.batchGrainSize := by
      intro ratio mem
      obtain ⟨device, inDevices, isRatio⟩ := List.mem_map.1 mem
      exact isRatio ▸ (getLocalBatchSize_spec concrete (ratiosPositive device inDevices) grain).1
    obtain ⟨isLength, grained, isSum⟩ := deviceSizes_spec shares concrete ofSizes
    rw [List.length_map] at isLength
    rw [List.map_map] at isSum
    have close := shares_close concrete grain ratiosPositive sumToOne
    change sizes.sum = min batchsize (devices.map fun device =>
      getLocalBatchSize batchsize device.ratio config.batchGrainSize).sum at isSum
    refine ⟨sizes, [], isSpec.symm, ?_, ?_, grained, by omega, ?_, ?_⟩
    · unfold numPieces
      rw [staged, if_neg Bool.false_ne_true, isLength]
    · intro none_
      rw [none_] at isLength
      exact hasDevices (List.length_eq_zero_iff.1 isLength.symm)
    · intro less
      rw [isLength]
      omega
    · rw [imp_iff_right staged]
      omega

end Returned

def StoresCover (config : HeuristicsConfig) (devices : List Device) (batchsize : Int)
    (prop : ShardingProperty) : Prop :=
  ∃ pieces spec, numPieces config devices = .ok pieces ∧ prop.splitSpecs[0]? = some spec ∧
    CoversBatch config.batchGrainSize batchsize pieces spec

/-- A batch split covers the batch exactly when its size is its own total and, without stages,
the shares make up the batch. -/
theorem tryBatchSplitValue_covers_iff {config : HeuristicsConfig} {devices : List Device}
    {prop split : ShardingProperty} {batchsize : Int}
    (returned : tryBatchSplitValue config devices prop = .ok (true, split))
    (isBatch : prop.shape[0]? = some batchsize) (concrete : 0 ≤ batchsize) (grain : 1 ≤ config.batchGrainSize)
    (ratiosPositive : ∀ device ∈ devices, 0 < device.ratio) (sumToOne : (devices.map Device.ratio).sum = 1) :
    StoresCover config devices batchsize split ↔ TotalFits batchsize ∧
      (config.multiStageEnabled = false → batchsize ≤ (devices.map fun device =>
        getLocalBatchSize batchsize device.ratio config.batchGrainSize).sum) := by
  unfold tryBatchSplitValue at returned
  obtain ⟨isSplit, _, returned⟩ := bind_ok.1 returned
  cases isSplit with
  | true => cases returned
  | false =>
    rw [if_neg Bool.false_ne_true] at returned
    obtain ⟨read, isRead, returned⟩ := bind_ok.1 returned
    rw [readAt_eq_ok, isBatch] at isRead
    cases isRead
    rw [if_neg (by omega)] at returned
    obtain ⟨result, ofSizes, returned⟩ := bind_ok.1 returned
    cases result with
    | none => cases returned
    | some spec =>
      obtain ⟨sizes, stageOffsets, isSpec, found⟩ :=
        sizeSplit_found concrete grain ratiosPositive sumToOne ofSizes
      rw [isSpec] at returned
      have stored := (splitAt_specs returned).1
      have covers := @rescaled_covers_iff _ _ _ _ stageOffsets isBatch grain found.some_
        found.grained found.atMost found.close
      rw [found.full] at covers
      rw [and_comm, ← covers]
      unfold StoresCover
      rw [stored, found.count]
      constructor
      · intro cover
        obtain ⟨pieces, stored, isPieces, isStored, covers⟩ := cover
        cases isPieces
        cases isStored
        exact covers
      · intro covers
        exact ⟨_, _, rfl, rfl, covers⟩

/-- A property of a batch that two devices share. -/
def batchProperty (batchsize : Int) : ShardingProperty :=
  { rank := 1, shape := [batchsize], deviceIds := [1, 2], splitSpecs := [{}], specsMatchRank := oneSpec }

def twoDevices : List Device := [⟨1, 1 / 2, 0⟩, ⟨1, 1 / 2, 0⟩]

theorem eight_covered : ∃ split, tryBatchSplitValue ⟨false, 2⟩ twoDevices (batchProperty 8) = .ok (true, split) ∧
      StoresCover ⟨false, 2⟩ twoDevices 8 split := by
  have returned : tryBatchSplitValue ⟨false, 2⟩ twoDevices (batchProperty 8) = .ok (true,
      { batchProperty 8 with splitSpecs := [.buildFromSizes [4, 4] []], orderedSplitDims := [0] }) := by
    decide +kernel
  refine ⟨_, returned, (tryBatchSplitValue_covers_iff returned rfl (by decide) (by decide) ?_ ?_).2
    ⟨Or.inl (by decide), fun _ => by decide +kernel⟩⟩
  · decide +kernel
  · decide +kernel

/-- A batch of twenty leaves four when it is split in grains of four, and the rescaled halves
are not whole grains. -/
theorem twenty_not_covered : ∃ split, tryBatchSplitValue ⟨false, 4⟩ twoDevices (batchProperty 20) = .ok (true, split) ∧
      ¬ StoresCover ⟨false, 4⟩ twoDevices 20 split := by
  have returned : tryBatchSplitValue ⟨false, 4⟩ twoDevices (batchProperty 20) = .ok (true,
      { batchProperty 20 with splitSpecs := [.buildFromSizes [10, 10] []], orderedSplitDims := [0] }) := by
    decide +kernel
  refine ⟨_, returned, ?_⟩
  intro cover
  obtain ⟨pieces, spec, _, isStored, covers⟩ := cover
  cases isStored
  exact absurd (covers.grained 10 List.mem_cons_self).2 (by decide)

end Itex.XpuAutoShard.Hsp
