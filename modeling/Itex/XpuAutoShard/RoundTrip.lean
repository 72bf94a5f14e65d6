import Itex.XpuAutoShard.Lowering

/-!
Contract: what sharding a tensor along one dim and unsharding it gives.

Owns: the shards that the lowered operations compute, when they are the slices of the
tensor that the sizes describe, and on which devices they are.
-/

namespace Itex.XpuAutoShard

open Itex.Lib

section SplitLengths

variable {α : Type}

theorem splitLengths_append (left right : List Nat) (x : List α) :
    (left ++ right).splitLengths x = left.splitLengths x ++ right.splitLengths (x.drop left.sum) := by
  induction left generalizing x with
  | nil => simp
  | cons head tail ih =>
    rw [List.cons_append, List.splitLengths_cons, ih, List.splitLengths_cons,
      List.cons_append, List.drop_drop, List.sum_cons]

theorem splitLengths_take (lengths : List Nat) {bound : Nat} (x : List α) (covered : lengths.sum ≤ bound) :
    lengths.splitLengths (x.take bound) = lengths.splitLengths x := by
  induction lengths generalizing x bound with
  | nil => rfl
  | cons head tail ih =>
    rw [List.sum_cons] at covered
    rw [List.splitLengths_cons, List.splitLengths_cons, List.take_take, Nat.min_eq_left (by omega), List.drop_take]
    rw [ih _ (by omega)]

theorem getElem?_splitLengths (lengths : List Nat) (x : List α) (k : Nat) : (lengths.splitLengths x)[k]? =
      lengths[k]?.map fun length => (x.drop (lengths.take k).sum).take length := by
  induction lengths generalizing x k with
  | nil => simp
  | cons head tail ih =>
    rw [List.splitLengths_cons]
    cases k with
    | zero => simp
    | succ k =>
      rw [List.getElem?_cons_succ, ih, List.getElem?_cons_succ, List.take_succ_cons, List.sum_cons]
      simp only [List.drop_drop]

end SplitLengths

theorem foldl_accumulate_bmod (values : List Int) (start : Int) :
    (values.foldl (fun sum value => (sum + value).bmod (2 ^ 32)) start).bmod (2 ^ 32) =
      (start + values.sum).bmod (2 ^ 32) := by
  induction values generalizing start with
  | nil => simp
  | cons head tail ih =>
    rw [List.foldl_cons, ih, List.sum_cons, Int.bmod_add_bmod, Int.add_assoc]

theorem toInt32_accumulateInt (values : List Int) : toInt32 (accumulateInt values) = toInt32 values.sum := by
  unfold toInt32 accumulateInt
  rw [foldl_accumulate_bmod, Int.zero_add]

/-! ## When the tree splits right -/

/-- The sizes that the lowering uses are those of the devices. For each device with
`count` shards: the first `count` sizes sum, in 32 bits, to the sizes of its own shards;
and if it has several, its sizes are those found by skipping only the stages of earlier
devices with several. -/
def Aligned (sizes : List Int) : Nat → Nat → List Nat → Prop
  | _, _, [] => True
  | start, skipped, count :: counts =>
    0 < count ∧
    toInt32 (sizes.take count).sum = ((sizes.drop start).take count).sum ∧
    (count ≠ 1 → ((sizes.drop skipped).take count).map toInt32 = (sizes.drop start).take count) ∧
    Aligned sizes (start + count) (if count = 1 then skipped else skipped + count) counts

instance decidableAligned (sizes : List Int) :
    ∀ (start skipped : Nat) (counts : List Nat), Decidable (Aligned sizes start skipped counts)
  | _, _, [] => inferInstanceAs (Decidable True)
  | start, skipped, count :: counts =>
    have := decidableAligned sizes (start + count) (if count = 1 then skipped else skipped + count)
      counts
    inferInstanceAs (Decidable (_ ∧ _ ∧ _ ∧ _))

def stageSplits (sizes : List Int) (dim : Nat) : Nat → List Nat → List (Option SplitOp)
  | _, [] => []
  | skipped, count :: counts =>
    if count = 1 then none :: stageSplits sizes dim skipped counts
    else some ⟨.splitV (((sizes.drop skipped).take count).map toInt32), dim⟩ ::
      stageSplits sizes dim (skipped + count) counts

theorem secondLevelSplits_eq {spec : SplitSpec} (bySize : spec.type = .size) (dim : Nat) :
    ∀ (counts : List Nat) (skipped : Nat), (∀ count ∈ counts, 0 < count) → skipped + counts.sum ≤ spec.sizes.length →
      secondLevelSplits spec dim skipped counts = .ok (stageSplits spec.sizes dim skipped counts) := by
  intro counts
  induction counts with
  | nil => exact fun _ _ _ => rfl
  | cons count counts ih =>
    intro skipped positive bound
    rw [List.sum_cons] at bound
    have isPositive := positive count List.mem_cons_self
    have others := fun other mem => positive other (List.mem_cons_of_mem count mem)
    unfold secondLevelSplits stageSplits
    simp only [tfAssert, if_pos isPositive, bySize]
    by_cases isOne : count = 1
    · rw [if_pos isOne, ih skipped others (by omega)]
      simp [isOne]
      rfl
    · have inside : skipped + count ≤ spec.sizes.length := by omega
      rw [if_neg isOne, ih (skipped + count) others (by omega)]
      simp [isOne, inside]
      rfl

theorem positive_of_secondLevelSplits {spec : SplitSpec} {dim : Nat} :
    ∀ {counts : List Nat} {skipped : Nat} {splits : List (Option SplitOp)},
      secondLevelSplits spec dim skipped counts = .ok splits → ∀ count ∈ counts, 0 < count := by
  intro counts
  induction counts with
  | nil => exact fun _ _ mem => absurd mem List.not_mem_nil
  | cons count counts ih =>
    intro skipped splits returned other mem
    unfold secondLevelSplits at returned
    obtain ⟨_, asserted, returned⟩ := bind_ok.1 returned
    have isPositive : 0 < count := by
      by_contra isZero
      rw [tfAssert, if_neg isZero] at asserted
      cases asserted
    rcases List.mem_cons.1 mem with isFirst | mem
    · rw [isFirst]
      exact isPositive
    · split at returned
      · obtain ⟨_, rest, -⟩ := bind_ok.1 returned
        exact ih rest other mem
      · split at returned
        · obtain ⟨_, -, returned⟩ := bind_ok.1 returned
          obtain ⟨_, rest, -⟩ := bind_ok.1 returned
          exact ih rest other mem
        · obtain ⟨_, rest, -⟩ := bind_ok.1 returned
          exact ih rest other mem

theorem positive_of_aligned {sizes : List Int} :
    ∀ {counts : List Nat} {start skipped : Nat}, Aligned sizes start skipped counts → ∀ count ∈ counts, 0 < count := by
  intro counts
  induction counts with
  | nil => exact fun _ _ mem => absurd mem List.not_mem_nil
  | cons count counts ih =>
    intro start skipped aligned other mem
    rcases List.mem_cons.1 mem with isFirst | mem
    · rw [isFirst]
      exact aligned.1
    · exact ih aligned.2.2.2 other mem

theorem firstLevelSizes_eq {shardDescs : List ShardDesc} {sizes : List Int}
    (bySizes : ∀ desc ∈ shardDescs, desc.getSplitSpec.sizes = sizes) :
    ∀ (counts : List Nat) (shardDescId : Nat), (∀ count ∈ counts, 0 < count) →
      shardDescId + counts.sum ≤ shardDescs.length → counts.sum ≤ sizes.length →
      firstLevelSizes shardDescs shardDescId counts =
        .ok (counts.map fun count => accumulateInt (sizes.take count)) := by
  intro counts
  induction counts with
  | nil => exact fun _ _ _ _ => rfl
  | cons count counts ih =>
    intro shardDescId positive bound covered
    rw [List.sum_cons] at bound covered
    have isPositive := positive count List.mem_cons_self
    have inside : shardDescId < shardDescs.length := by omega
    have atId := List.getElem?_eq_getElem inside
    have isSizes := bySizes _ (List.mem_of_getElem? atId)
    have inSizes : count ≤ sizes.length := by omega
    unfold firstLevelSizes
    rw [atId]
    simp only [isSizes, tfAssert, if_pos inSizes]
    rw [ih (shardDescId + count)
      (fun other mem => positive other (List.mem_cons_of_mem count mem)) (by omega) (by omega)]
    rfl

/-! ## Running the tree -/

/-- The sizes of the first level, as the constants hold them. -/
def deviceSizes (sizes : List Int) (counts : List Nat) : List Int :=
  counts.map fun count => toInt32 (sizes.take count).sum

section Run

variable {α : Type}

theorem runStage_of_aligned {own : List Nat} {given : List Int} {count dim : Nat} {x : List α}
    (counted : own.length = count) (covered : own.sum ≤ x.length)
    (sameSizes : count ≠ 1 → given = own.map (Nat.cast : Nat → Int)) :
    runStage dim (x.take own.sum, if count = 1 then none else some ⟨.splitV given, dim⟩) =
      some (own.splitLengths x) := by
  by_cases isOne : count = 1
  · obtain ⟨only, rfl⟩ := List.length_eq_one_iff.1 (counted.trans isOne)
    simp [runStage, isOne]
  · rw [if_neg isOne, sameSizes isOne]
    have nonneg : ∀ size ∈ own.map (Nat.cast : Nat → Int), 0 ≤ size := by
      intro size mem
      obtain ⟨value, -, rfl⟩ := List.mem_map.1 mem
      exact Int.natCast_nonneg value
    have total : (own.map (Nat.cast : Nat → Int)).sum = ((x.take own.sum).length : Int) := by
      rw [← Nat.cast_list_sum, List.length_take, Nat.min_eq_left covered]
    simp only [runStage, SplitOp.run, ne_eq, not_true_eq_false, if_false]
    rw [if_pos ⟨nonneg, total⟩, List.map_map, List.map_id'' (f := Int.toNat ∘ Nat.cast) fun _ => rfl,
      splitLengths_take own x (Nat.le_refl _)]

/-- A device whose splits give its slices has the sizes it should have. -/
theorem aligned_of_runStage {own : List Nat} {given : List Int} {piece count dim : Nat} {x : List α}
    (counted : own.length = count) (covered : own.sum ≤ x.length) (inside : piece ≤ x.length)
    (ran : runStage dim (x.take piece, if count = 1 then none else some ⟨.splitV given, dim⟩) =
      some (own.splitLengths x)) : piece = own.sum ∧ (count ≠ 1 → given = own.map (Nat.cast : Nat → Int)) := by
  have lengths : (own.splitLengths x).map List.length = own :=
    List.map_splitLengths_length x own covered
  by_cases isOne : count = 1
  · obtain ⟨only, rfl⟩ := List.length_eq_one_iff.1 (counted.trans isOne)
    rw [if_pos isOne] at ran
    have same := congrArg (List.map List.length) (Option.some.inj ran)
    rw [lengths] at same
    refine ⟨?_, fun several => absurd isOne several⟩
    simpa [Nat.min_eq_left inside] using same
  · rw [if_neg isOne] at ran
    simp only [runStage, SplitOp.run, ne_eq, not_true_eq_false, if_false] at ran
    split at ran
    next accepted =>
      obtain ⟨nonneg, total⟩ := accepted
      have natSizes : (given.map Int.toNat).map (Nat.cast : Nat → Int) = given := by
        rw [List.map_map]
        refine (List.map_congr_left fun size mem => ?_).trans (List.map_id' given)
        exact Int.toNat_of_nonneg (nonneg size mem)
      rw [List.length_take, Nat.min_eq_left inside] at total
      have natTotal : (given.map Int.toNat).sum = piece := by
        have : _ = ((given.map Int.toNat).sum : Int) := (Nat.cast_list_sum _).symm
        rw [natSizes, total] at this
        exact_mod_cast this.symm
      have same := congrArg (List.map List.length) (Option.some.inj ran)
      rw [lengths, List.map_splitLengths_length _ _
        (by rw [natTotal, List.length_take, Nat.min_eq_left inside])] at same
      refine ⟨?_, fun _ => ?_⟩
      · rw [← same, natTotal]
      · rw [← same, natSizes]
    · cases ran

/-- The pieces of the first level, each split into the stages of its device. -/
def runDevices (sizes : List Int) (dim skipped : Nat) (counts : List Nat) (x : List α) :
    Option (List (List (List α))) :=
  ((((deviceSizes sizes counts).map Int.toNat).splitLengths x).zip
    (stageSplits sizes dim skipped counts)).mapM (runStage dim)

theorem runDevices_cons (sizes : List Int) (dim skipped count : Nat) (counts : List Nat) (x : List α) :
    runDevices sizes dim skipped (count :: counts) x = (do
      let own ← runStage dim (x.take (toInt32 (sizes.take count).sum).toNat, if count = 1 then none
        else some ⟨.splitV (((sizes.drop skipped).take count).map toInt32), dim⟩)
      let others ← runDevices sizes dim (if count = 1 then skipped else skipped + count) counts
        (x.drop (toInt32 (sizes.take count).sum).toNat)
      return own :: others) := by
  by_cases isOne : count = 1 <;> simp [runDevices, deviceSizes, stageSplits, isOne]

theorem run_eq_some_iff (sizes : List Int) (dim : Nat) (counts : List Nat)
    (placements : List DeviceId) (x : List α) (shards : List (List α)) :
    SplitTree.run ⟨⟨.splitV (deviceSizes sizes counts), dim⟩, stageSplits sizes dim 0 counts,
        placements⟩ dim x = some shards ↔ ((∀ size ∈ deviceSizes sizes counts, 0 ≤ size) ∧
        (deviceSizes sizes counts).sum = x.length) ∧
      ∃ lists, runDevices sizes dim 0 counts x = some lists ∧ lists.flatten = shards := by
  simp only [SplitTree.run, SplitOp.run, ne_eq, not_true_eq_false, if_false]
  by_cases accepted : (∀ size ∈ deviceSizes sizes counts, 0 ≤ size) ∧ (deviceSizes sizes counts).sum = x.length
  · rw [if_pos accepted, and_iff_right accepted]
    show ((runDevices sizes dim 0 counts x).bind fun lists => some lists.flatten) = some shards ↔ _
    rw [Option.bind_eq_some_iff]
    simp only [Option.some.injEq]
  · rw [if_neg accepted]
    exact iff_of_false (fun ran => nomatch ran) fun right => accepted right.1

/-- Whether the first level accepts its sizes and the stages give the slices. -/
def SplitsRight (shardSizes : List Nat) (sizes : List Int) (dim start skipped : Nat)
    (counts : List Nat) (x : List α) : Prop :=
  ((∀ size ∈ deviceSizes sizes counts, 0 ≤ size) ∧ (deviceSizes sizes counts).sum = x.length) ∧
  ∃ shards, runDevices sizes dim skipped counts x = some shards ∧
    shards.flatten = (shardSizes.drop start).splitLengths x

section

variable {shardSizes : List Nat} {sizes : List Int} (dim : Nat)
  (sameSizes : sizes = shardSizes.map (Nat.cast : Nat → Int))

include sameSizes

/-- The sizes of the first device, and those of the others. -/
theorem exists_own {start count others : Nat} (counted : start + (count + others) = shardSizes.length) :
    ∃ own : List Nat, own.length = count ∧ shardSizes.drop start = own ++ shardSizes.drop (start + count) ∧
      (sizes.drop start).take count = own.map (Nat.cast : Nat → Int) := by
  refine ⟨(shardSizes.drop start).take count, ?_, (List.drop_take_append_drop ..).symm, ?_⟩
  · rw [List.length_take, List.length_drop]
    omega
  · rw [sameSizes, List.map_take, List.map_drop]

include dim

theorem splitsRight_of_aligned : ∀ (counts : List Nat) (start skipped : Nat) (x : List α),
      Aligned sizes start skipped counts → start + counts.sum = shardSizes.length →
      x.length = (shardSizes.drop start).sum → SplitsRight shardSizes sizes dim start skipped counts x := by
  intro counts
  induction counts with
  | nil =>
    intro start skipped x _ counted measured
    have isEnd : shardSizes.drop start = [] := List.drop_of_length_le (by simp at counted; omega)
    rw [isEnd] at measured
    have isEmpty : x = [] := List.eq_nil_of_length_eq_zero (by simpa using measured)
    refine ⟨⟨by simp [deviceSizes], by simp [deviceSizes, isEmpty]⟩, [], rfl, ?_⟩
    rw [isEnd]
    rfl
  | cons count counts ih =>
    intro start skipped x aligned counted measured
    obtain ⟨isPositive, isSum, isSizes, alignedRest⟩ := aligned
    rw [List.sum_cons] at counted
    obtain ⟨own, ownLength, split, ownSizes⟩ := exists_own sameSizes counted
    rw [ownSizes] at isSum isSizes
    rw [← Nat.cast_list_sum] at isSum
    rw [split, List.sum_append] at measured
    have right := ih (start + count) (if count = 1 then skipped else skipped + count)
      (x.drop own.sum) alignedRest (by omega) (by rw [List.length_drop]; omega)
    obtain ⟨⟨nonneg, total⟩, shards, ran, isSlices⟩ := right
    refine ⟨⟨?_, ?_⟩, own.splitLengths x :: shards, ?_, ?_⟩
    · intro size mem
      rcases List.mem_cons.1 mem with isFirst | mem
      · have isFirst : size = toInt32 (sizes.take count).sum := isFirst
        rw [isFirst, isSum]
        exact Int.natCast_nonneg _
      · exact nonneg size mem
    · show toInt32 (sizes.take count).sum + (deviceSizes sizes counts).sum = (x.length : Int)
      rw [isSum, total, List.length_drop]
      omega
    · rw [runDevices_cons, isSum, Int.toNat_natCast, ran, runStage_of_aligned ownLength (by omega) isSizes]
      rfl
    · rw [List.flatten_cons, isSlices, split, splitLengths_append]

theorem aligned_of_splitsRight :
    ∀ (counts : List Nat) (start skipped : Nat) (x : List α), (∀ count ∈ counts, 0 < count) →
      skipped ≤ start → start + counts.sum = shardSizes.length →
      x.length = (shardSizes.drop start).sum → SplitsRight shardSizes sizes dim start skipped counts x →
      Aligned sizes start skipped counts := by
  intro counts
  induction counts with
  | nil => exact fun _ _ _ _ _ _ _ _ => trivial
  | cons count counts ih =>
    intro start skipped x positive behind counted measured right
    obtain ⟨⟨nonneg, total⟩, shards, ran, isSlices⟩ := right
    rw [List.sum_cons] at counted
    obtain ⟨own, ownLength, split, ownSizes⟩ := exists_own sameSizes counted
    rw [split, List.sum_append] at measured
    -- The first size is not negative and at most the whole.
    have firstNonneg : 0 ≤ toInt32 (sizes.take count).sum := nonneg _ List.mem_cons_self
    have otherNonneg : 0 ≤ (deviceSizes sizes counts).sum :=
      List.sum_nonneg fun size mem => nonneg size (List.mem_cons_of_mem _ mem)
    have total : toInt32 (sizes.take count).sum + (deviceSizes sizes counts).sum = (x.length : Int) :=
      total
    obtain ⟨piece, isPiece⟩ := Int.eq_ofNat_of_zero_le firstNonneg
    rw [runDevices_cons, isPiece, Int.toNat_natCast] at ran
    obtain ⟨ownShards, ownRan, ran⟩ := Option.bind_eq_some_iff.1 ran
    obtain ⟨others, othersRan, isShards⟩ := Option.bind_eq_some_iff.1 ran
    rw [← Option.some.inj isShards, List.flatten_cons, split, splitLengths_append] at isSlices
    have ownCount : ownShards.length = count := by
      by_cases isOne : count = 1
      · rw [if_pos isOne] at ownRan
        rw [← Option.some.inj ownRan, isOne]
        rfl
      · rw [if_neg isOne] at ownRan
        simp only [runStage, SplitOp.run, ne_eq, not_true_eq_false, if_false] at ownRan
        split at ownRan
        · rw [← Option.some.inj ownRan]
          have bound : skipped + count ≤ sizes.length := by
            rw [sameSizes, List.length_map]
            omega
          rw [List.length_splitLengths, List.length_map, List.length_map, List.length_take, List.length_drop]
          omega
        · cases ownRan
    obtain ⟨isOwn, isOthers⟩ := List.append_inj isSlices (by simp [ownCount, ownLength])
    rw [isOwn] at ownRan
    obtain ⟨isTotal, isGiven⟩ := aligned_of_runStage ownLength (by omega) (by omega) ownRan
    refine ⟨positive count List.mem_cons_self, ?_, ?_, ?_⟩
    · rw [isPiece, ownSizes, ← Nat.cast_list_sum, isTotal]
    · rw [ownSizes]
      exact isGiven
    · have measured : (x.drop own.sum).length = (shardSizes.drop (start + count)).sum := by
        rw [List.length_drop]
        omega
      apply ih (start + count) _ (x.drop own.sum)
        (fun other mem => positive other (List.mem_cons_of_mem count mem))
        (by split <;> omega) (by omega) measured
      refine ⟨⟨fun size mem => nonneg size (List.mem_cons_of_mem _ mem), ?_⟩, others, ?_, isOthers⟩
      · rw [measured]
        omega
      · rw [← isTotal]
        exact othersRan

end

end Run

structure SplitAlong (prop : ShardingProperty) (dim : Nat) (sizes : List Int) : Prop where
  initialized : prop.isInitialized = true
  ranked : prop.isRanked = true
  dims : prop.orderedSplitDims = [dim]
  spec : ∃ spec, prop.splitSpecs[dim]? = some spec ∧ spec.type = .size ∧ spec.sizes = sizes
  several : 1 < sizes.length
  counted : sizes.length = prop.getNumLogicalShards
  positive : ∀ size ∈ sizes, 0 < size
  stages : prop.getStageOffsets = [] ∨ (prop.getStageOffsets.length = prop.deviceIds.length ∧
      prop.getStageOffsets.Pairwise (· < ·) ∧
      prop.getStageOffsets.getLast? = some prop.getNumLogicalShards)

namespace SplitAlong

open ShardingProperty

variable {prop : ShardingProperty} {dim : Nat} {sizes : List Int}

theorem notSingle (along : SplitAlong prop dim sizes) : prop.isSplitSingleOnly = false := by
  obtain ⟨spec, atDim, bySize, isSizes⟩ := along.spec
  by_contra single
  simp only [isSplitSingleOnly, along.initialized, along.ranked, Bool.not_eq_false, Bool.true_and,
    Bool.not_true, Bool.false_or, List.all_eq_true, Bool.and_eq_true, beq_iff_eq] at single
  have isOne := (single spec (List.mem_of_getElem? atDim)).2
  have isLength : spec.size = spec.sizes.length := by rw [SplitSpec.size, bySize]
  have several := along.several
  rw [← isSizes, ← isLength, isOne] at several
  omega

theorem desc (along : SplitAlong prop dim sizes) {desc : ShardDesc} (mem : desc ∈ prop.getShardDescriptors) :
    desc.getSplitDim = dim ∧ desc.getSplitSpec.type = .size ∧ desc.getSplitSpec.sizes = sizes := by
  obtain ⟨spec, atDim, bySize, isSizes⟩ := along.spec
  obtain ⟨shardNum, -, rfl⟩ := List.mem_map.1 mem
  simp [ShardDesc.getSplitDim, ShardDesc.getSplitSpec, along.dims, atDim, bySize, isSizes]

theorem length_stageCounts (previous : Nat) (offsets : List Nat) :
    (stageCounts previous offsets).length = offsets.length := by
  induction offsets generalizing previous with
  | nil => rfl
  | cons offset offsets ih => simp [stageCounts, ih]

theorem counts_length (along : SplitAlong prop dim sizes) :
    prop.getNumLogicalShardsPerdevice.length = prop.deviceIds.length := by
  unfold getNumLogicalShardsPerdevice
  rcases along.stages with noStages | ⟨perDevice, -, -⟩
  · rw [if_pos noStages, List.length_replicate]
  · by_cases noStages : prop.getStageOffsets = []
    · rw [if_pos noStages, List.length_replicate]
    · rw [if_neg noStages, length_stageCounts, perDevice]

def stageBegin (prop : ShardingProperty) (device : Nat) : Nat :=
  if prop.getStageOffsets = [] then device else (0 :: prop.getStageOffsets).getD device 0

theorem sum_take_stageCounts (previous : Nat) (offsets : List Nat)
    (sorted : (previous :: offsets).Pairwise (· ≤ ·)) (i : Nat) (inside : i ≤ offsets.length) :
    previous + ((stageCounts previous offsets).take i).sum = (previous :: offsets).getD i 0 := by
  induction offsets generalizing previous i with
  | nil =>
    have isZero : i = 0 := by simpa using inside
    simp [isZero, stageCounts]
  | cons offset offsets ih =>
    cases i with
    | zero => simp
    | succ i =>
      have ordered : previous ≤ offset := (List.pairwise_cons.1 sorted).1 offset List.mem_cons_self
      have rest := ih offset (List.pairwise_cons.1 sorted).2 i
        (by simpa using inside)
      rw [stageCounts, List.take_succ_cons, List.sum_cons, List.getD_cons_succ, ← rest]
      omega

theorem sum_take_counts (along : SplitAlong prop dim sizes) {device : Nat} (inside : device ≤ prop.deviceIds.length) :
    (prop.getNumLogicalShardsPerdevice.take device).sum = stageBegin prop device := by
  unfold stageBegin getNumLogicalShardsPerdevice
  by_cases noStages : prop.getStageOffsets = []
  · rw [if_pos noStages, if_pos noStages, List.take_replicate, Nat.min_eq_left inside]
    simp
  · rw [if_neg noStages, if_neg noStages]
    rcases along.stages with isEmpty | ⟨perDevice, increasing, -⟩
    · exact absurd isEmpty noStages
    · rw [← sum_take_stageCounts 0 _ _ device (perDevice ▸ inside), Nat.zero_add]
      exact List.pairwise_cons.2 ⟨fun _ _ => Nat.zero_le _, increasing.imp Nat.le_of_lt⟩

theorem getElem?_identityDevices (devices : List DeviceId) (counts : List Nat) (k : Nat)
    (perDevice : counts.length = devices.length) (inside : k < counts.sum) :
    ∃ i, i < devices.length ∧ (counts.take i).sum ≤ k ∧ k < (counts.take (i + 1)).sum ∧
      (identityDevices devices counts)[k]? = devices[i]? := by
  induction counts generalizing devices k with
  | nil => simp at inside
  | cons count counts ih =>
    cases devices with
    | nil => simp at perDevice
    | cons device devices =>
      rw [List.sum_cons] at inside
      rw [identityDevices]
      rcases Nat.lt_or_ge k count with here | later
      · refine ⟨0, by simp, by simp, by simpa using here, ?_⟩
        rw [List.getElem?_append_left (by simpa using here), List.getElem?_replicate_of_lt here]
        rfl
      · obtain ⟨i, bound, after, before, isDevice⟩ := ih devices (k - count)
          (by simpa using perDevice) (by omega)
        refine ⟨i + 1, by simpa using bound, ?_, ?_, ?_⟩
        · rw [List.take_succ_cons, List.sum_cons]
          omega
        · rw [List.take_succ_cons, List.sum_cons]
          omega
        · rw [List.getElem?_append_right (by simpa using later), List.length_replicate, isDevice]
          rfl

theorem shard_device (along : SplitAlong prop dim sizes) {k : Nat} (inside : k < prop.getNumLogicalShards) :
    ∃ i, i < prop.deviceIds.length ∧ stageBegin prop i ≤ k ∧ k < stageBegin prop (i + 1) ∧
      (identityDevices prop.deviceIds prop.getNumLogicalShardsPerdevice)[k]? = prop.deviceIds[i]? ∧
      some (prop.getDeviceIdPerShardNum k) = prop.deviceIds[i]? := by
  obtain ⟨i, bound, after, before, isDevice⟩ := getElem?_identityDevices prop.deviceIds
    prop.getNumLogicalShardsPerdevice k along.counts_length inside
  rw [along.sum_take_counts (Nat.le_of_lt bound)] at after
  rw [along.sum_take_counts bound] at before
  refine ⟨i, bound, after, before, isDevice, ?_⟩
  unfold getDeviceIdPerShardNum
  unfold stageBegin at after before
  by_cases noStages : prop.getStageOffsets = []
  · rw [if_pos noStages] at after before
    have isShard : i = k := by omega
    rw [noStages, isShard]
    rw [isShard] at bound
    simp [List.getElem?_eq_getElem bound]
  · rw [if_neg noStages] at after before
    rcases along.stages with isEmpty | ⟨perDevice, increasing, -⟩
    · exact absurd isEmpty noStages
    have inOffsets : i < prop.getStageOffsets.length := perDevice ▸ bound
    have isFirst : prop.getStageOffsets.findIdx? (fun offset => k < offset) = some i := by
      rw [List.findIdx?_eq_some_iff_getElem]
      refine ⟨inOffsets, ?_, fun j earlier => ?_⟩
      · simpa [List.getD_cons_succ, inOffsets] using before
      · have notLater : prop.getStageOffsets[j] ≤ (0 :: prop.getStageOffsets).getD i 0 := by
          cases i with
          | zero => omega
          | succ i =>
            have atI : prop.getStageOffsets.getD i 0 = prop.getStageOffsets[i] := by
              rw [List.getD_eq_getElem?_getD, List.getElem?_eq_getElem (by omega)]
              rfl
            rw [List.getD_cons_succ, atI]
            rcases Nat.lt_or_ge j i with before | same
            · exact Nat.le_of_lt (List.pairwise_iff_getElem.1 increasing j i (by omega) (by omega) before)
            · have isSame : j = i := by omega
              subst isSame
              exact Nat.le_refl _
        simp only [decide_eq_true_eq, Nat.not_lt]
        omega
    rw [isFirst]
    simp [List.getElem?_eq_getElem bound]

end SplitAlong

/-! ## Sharding and unsharding -/

/-- Sharding a tensor loses nothing: the tree is accepted, its shards are the slices
that the sizes describe, each on its device, and unsharding them gives the tensor. -/
def ShardsExactly {α : Type} (prop : ShardingProperty) (dim : Nat) (sizes : List Int)
    (x : List α) : Prop :=
  ∃ tree shards, lowerShardOp prop = .ok (.split tree) ∧ tree.run dim x = some shards ∧
    shards.length = prop.getNumLogicalShards ∧
    (∀ k < prop.getNumLogicalShards, shards[k]? =
      some ((x.drop (sizes.take k).sum.toNat).take (sizes.getD k 0).toNat)) ∧
    (∀ k < prop.getNumLogicalShards, ∃ i < prop.deviceIds.length,
      SplitAlong.stageBegin prop i ≤ k ∧ k < SplitAlong.stageBegin prop (i + 1) ∧
      tree.placements[k]? = prop.deviceIds[i]? ∧
      some (prop.getDeviceIdPerShardNum k) = prop.deviceIds[i]?) ∧
    ∀ used onResultDevice, ∃ value, lowerUnshardOp prop shards.length used onResultDevice = .ok value ∧
      value.run dim shards = some x

section Main

variable {prop : ShardingProperty} {dim : Nat} {sizes : List Int}
  (along : SplitAlong prop dim sizes)
include along

theorem SplitAlong.descriptors : ∃ desc others, prop.getShardDescriptors = desc :: others := by
  have several := along.several
  have isLength : prop.getShardDescriptors.length = sizes.length := by
    rw [along.counted]
    simp [ShardingProperty.getShardDescriptors]
  cases listed : prop.getShardDescriptors with
  | nil =>
    rw [listed, List.length_nil] at isLength
    omega
  | cons desc others => exact ⟨desc, others, rfl⟩

theorem SplitAlong.lowerShardOp_eq (positive : ∀ count ∈ prop.getNumLogicalShardsPerdevice, 0 < count) :
    lowerShardOp prop = .ok (.split ⟨⟨.splitV (deviceSizes sizes prop.getNumLogicalShardsPerdevice), dim⟩,
        stageSplits sizes dim 0 prop.getNumLogicalShardsPerdevice,
        identityDevices prop.deviceIds prop.getNumLogicalShardsPerdevice⟩) := by
  obtain ⟨desc, others, listed⟩ := along.descriptors
  obtain ⟨isDim, bySize, isSizes⟩ := along.desc (show desc ∈ prop.getShardDescriptors by simp [listed])
  have total : prop.getNumLogicalShardsPerdevice.sum = sizes.length := along.counted.symm
  have firstLevel := firstLevelSizes_eq
    (fun desc (mem : desc ∈ prop.getShardDescriptors) => (along.desc mem).2.2) prop.getNumLogicalShardsPerdevice 0 positive
    (by rw [total, along.counted]; simp [ShardingProperty.getShardDescriptors])
    (Nat.le_of_eq total)
  have secondLevel := secondLevelSplits_eq bySize dim prop.getNumLogicalShardsPerdevice 0 positive
    (by rw [isSizes]; omega)
  have constants : (prop.getNumLogicalShardsPerdevice.map fun count =>
      accumulateInt (sizes.take count)).map toInt32 = deviceSizes sizes prop.getNumLogicalShardsPerdevice := by
    rw [List.map_map]
    exact List.map_congr_left fun count _ => toInt32_accumulateInt _
  unfold lowerShardOp firstLevelSplit
  rw [listed] at firstLevel
  simp only [tfAssert, along.initialized, along.notSingle, along.dims, along.counts_length, listed,
    bySize, isDim, firstLevel, secondLevel, isSizes]
  simp [bind, Except.bind, pure, Except.pure, constants, along.counts_length]

theorem SplitAlong.positive_of_lowerShardOp {tree : SplitTree} (lowered : lowerShardOp prop = .ok (.split tree)) :
    ∀ count ∈ prop.getNumLogicalShardsPerdevice, 0 < count := by
  obtain ⟨desc, others, listed⟩ := along.descriptors
  unfold lowerShardOp at lowered
  obtain ⟨_, -, lowered⟩ := bind_ok.1 lowered
  rw [along.notSingle] at lowered
  obtain ⟨_, -, lowered⟩ := bind_ok.1 lowered
  obtain ⟨_, -, lowered⟩ := bind_ok.1 lowered
  rw [listed] at lowered
  obtain ⟨_, -, lowered⟩ := bind_ok.1 lowered
  obtain ⟨_, secondLevel, -⟩ := bind_ok.1 lowered
  exact positive_of_secondLevelSplits secondLevel

theorem SplitAlong.unshard {α : Type} {shards : List (List α)} {x : List α}
    (counted : shards.length = prop.getNumLogicalShards) (joined : shards.flatten = x)
    (used : Bool) (onResultDevice : DeviceId → Bool) :
    ∃ value, lowerUnshardOp prop shards.length used onResultDevice = .ok value ∧ value.run dim shards = some x := by
  obtain ⟨desc, others, listed⟩ := along.descriptors
  obtain ⟨isDim, -, -⟩ := along.desc (show desc ∈ prop.getShardDescriptors by simp [listed])
  refine ⟨.concat dim, ?_, ?_⟩
  · unfold lowerUnshardOp
    simp only [along.notSingle, Bool.false_eq_true, if_false, tfAssert, counted, along.dims, listed, isDim]
    rfl
  · simp [UnshardedValue.run, joined]

/-- Sharding a tensor loses nothing exactly when the sizes that the lowering reads are
those of the devices. -/
theorem shards_exactly_iff_aligned {α : Type} (x : List α) (measured : (x.length : Int) = sizes.sum) :
    ShardsExactly prop dim sizes x ↔ Aligned sizes 0 0 prop.getNumLogicalShardsPerdevice := by
  have total : prop.getNumLogicalShardsPerdevice.sum = sizes.length := along.counted.symm
  -- The sizes are natural numbers.
  obtain ⟨shardSizes, sameSizes⟩ : ∃ shardSizes : List Nat, sizes = shardSizes.map (Nat.cast : Nat → Int) := by
    refine ⟨sizes.map Int.toNat, ?_⟩
    rw [List.map_map]
    refine (List.map_id' sizes).symm.trans (List.map_congr_left fun size member => ?_)
    exact (Int.toNat_of_nonneg (Int.le_of_lt (along.positive size member))).symm
  have sameLength : shardSizes.length = sizes.length := by rw [sameSizes, List.length_map]
  have natMeasured : x.length = shardSizes.sum := by
    rw [sameSizes, ← Nat.cast_list_sum] at measured
    exact_mod_cast measured
  have slice : ∀ k < prop.getNumLogicalShards, (shardSizes.splitLengths x)[k]? =
      some ((x.drop (sizes.take k).sum.toNat).take (sizes.getD k 0).toNat) := by
    intro k inside
    have bound : k < shardSizes.length := by rw [sameLength, along.counted]; exact inside
    have atK : (sizes.getD k 0).toNat = shardSizes[k] := by
      rw [sameSizes, List.getD_eq_getElem?_getD, List.getElem?_map, List.getElem?_eq_getElem bound]
      rfl
    have before : (sizes.take k).sum.toNat = (shardSizes.take k).sum := by
      rw [sameSizes, ← List.map_take, ← Nat.cast_list_sum, Int.toNat_natCast]
    rw [getElem?_splitLengths, List.getElem?_eq_getElem bound, Option.map_some, atK, before]
  constructor
  · rintro ⟨tree, shards, lowered, ran, counted, slices, -, -⟩
    have positive := along.positive_of_lowerShardOp lowered
    rw [along.lowerShardOp_eq positive] at lowered
    cases lowered
    obtain ⟨accepted, lists, listsRan, joined⟩ := (run_eq_some_iff _ _ _ _ _ _).1 ran
    have isSlices : lists.flatten = (shardSizes.drop 0).splitLengths x := by
      rw [joined, List.drop_zero]
      refine List.ext_getElem? fun k => ?_
      rcases Nat.lt_or_ge k prop.getNumLogicalShards with inside | beyond
      · rw [slices k inside, slice k inside]
      · rw [List.getElem?_eq_none (counted ▸ beyond), List.getElem?_eq_none]
        rw [List.length_splitLengths, sameLength, along.counted]
        exact beyond
    exact aligned_of_splitsRight dim sameSizes _ 0 0 x positive (Nat.le_refl _) (by omega)
      natMeasured ⟨accepted, lists, listsRan, isSlices⟩
  · intro aligned
    have positive := positive_of_aligned aligned
    obtain ⟨accepted, shards, ran, isSlices⟩ := splitsRight_of_aligned dim sameSizes
      prop.getNumLogicalShardsPerdevice 0 0 x aligned (by omega) natMeasured
    refine ⟨_, shards.flatten, along.lowerShardOp_eq positive, ?_, ?_, ?_, ?_, ?_⟩
    · exact (run_eq_some_iff _ _ _ _ _ _).2 ⟨accepted, shards, ran, rfl⟩
    · rw [isSlices, List.length_splitLengths, List.drop_zero, sameLength, along.counted]
    · rw [isSlices, List.drop_zero]
      exact slice
    · intro k inside
      obtain ⟨i, bound, rest⟩ := along.shard_device inside
      exact ⟨i, bound, rest⟩
    · intro used onResultDevice
      apply along.unshard
      · rw [isSlices, List.length_splitLengths, List.drop_zero, sameLength, along.counted]
      · rw [isSlices, List.drop_zero, List.flatten_splitLengths _ _ (Nat.le_of_eq natMeasured)]

end Main

/-- A batch split by sizes over two devices. -/
def batchProperty (sizes : List Int) (stageOffsets : List Nat) : ShardingProperty where
  rank := 1
  deviceIds := [0, 1]
  splitSpecs := [{ type := .size, sizes := sizes, stageOffsets := stageOffsets }]
  orderedSplitDims := [0]

/-- Two stages on each device, of equal sizes on both. -/
theorem equal_stages_shard : ShardsExactly (batchProperty [3, 2, 3, 2] [2, 4]) 0 [3, 2, 3, 2] (List.range 10) := by
  have along : SplitAlong (batchProperty [3, 2, 3, 2] [2, 4]) 0 [3, 2, 3, 2] :=
    ⟨by decide, by decide, rfl, ⟨_, rfl, rfl, rfl⟩, by decide, by decide, by decide,
      .inr ⟨by decide, by decide, by decide⟩⟩
  exact (shards_exactly_iff_aligned along (List.range 10) (by decide)).2 (by decide)

/-- The example of the documentation: the first level takes 40 and 60 of 75 rows. -/
theorem documented_stages_lose_rows : lowerShardOp (batchProperty [20, 20, 10, 10, 10, 5] [2, 6]) = .ok (.split
      ⟨⟨.splitV [40, 60], 0⟩, [some ⟨.splitV [20, 20], 0⟩, some ⟨.splitV [10, 10, 10, 5], 0⟩], [0, 0, 1, 1, 1, 1]⟩) ∧
    ¬ ShardsExactly (batchProperty [20, 20, 10, 10, 10, 5] [2, 6]) 0 [20, 20, 10, 10, 10, 5] (List.range 75) := by
  have lowered : lowerShardOp (batchProperty [20, 20, 10, 10, 10, 5] [2, 6]) = .ok (.split
      ⟨⟨.splitV [40, 60], 0⟩, [some ⟨.splitV [20, 20], 0⟩, some ⟨.splitV [10, 10, 10, 5], 0⟩],
        [0, 0, 1, 1, 1, 1]⟩) := by
    decide +kernel
  refine ⟨lowered, ?_⟩
  rintro ⟨tree, shards, isTree, ran, -⟩
  rw [lowered] at isTree
  cases isTree
  exact absurd ran (by simp [SplitTree.run, SplitOp.run])

end Itex.XpuAutoShard
