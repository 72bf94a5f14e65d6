import Itex.XpuAutoShard.AllReduce
import Itex.XpuAutoShard.ReductionResult

/-!
Contract: sharded reductions give what the reduction of the whole tensor gives.

Owns: the values that the lowered reduction has on each shard, and when they are right.

A mean weighs shards by a total that is kept in an `int`, and so is the total by which the
sizes of a kept dim are scaled.
-/

namespace Itex.XpuAutoShard.Hsp

open Itex.Lib
open Itex.XpuAutoShard.Hsp.ShardingProperty

section Operand

variable {input : ShardingProperty} {dim : Nat} {sizes : List Int}

section

variable (split : SizeSplit input dim sizes)

include split

theorem SizeSplit.shards_of_several (several : 1 < sizes.length) (x : Tensor Rat) :
    input.shards x = (parts 0 (sizes.map Int.toNat)).map fun part => x.slice dim part.1 part.2 := by
  obtain ⟨stageOffsets, atDim⟩ := split.atDim
  have notSingle : input.isSplitSingleOnly = false := by
    rw [← Bool.not_eq_true, split.isSplitSingleOnly_iff]
    omega
  unfold ShardingProperty.shards
  rw [notSingle, if_neg Bool.false_ne_true, split.ordered, if_pos several]
  dsimp only
  rw [List.getD_eq_getElem?_getD, atDim]
  rfl

theorem SizeSplit.shards_of_one (isOne : sizes.length = 1) (x : Tensor Rat) : input.shards x = [x] := by
  unfold ShardingProperty.shards
  rw [split.isSplitSingleOnly_iff.2 isOne, if_pos rfl, split.counted, isOne]
  rfl

theorem SizeSplit.length_shards (x : Tensor Rat) : (input.shards x).length = sizes.length := by
  by_cases isOne : sizes.length = 1
  · rw [split.shards_of_one isOne, isOne]
    rfl
  · have several : 1 < sizes.length := by
      have := List.length_pos_iff.2 split.nonempty
      omega
    rw [split.shards_of_several several, List.length_map, Tensor.length_parts, List.length_map]

theorem SizeSplit.placed : Placed input input.deviceIds input.lowered.getNumLogicalShardsPerdevice :=
  ⟨rfl, rfl, split.devices, split.perDevice, split.staged⟩

end

theorem Placed.of_same {leader prop : ShardingProperty} {devices : List DeviceId} {counts : List Nat}
    (placed : Placed leader devices counts) (sameDevices : prop.deviceIds = leader.deviceIds)
    (sameStages : prop.getStageOffsets = leader.getStageOffsets) : Placed prop devices counts :=
  ⟨sameDevices.trans placed.onDevices, (getNumLogicalShardsPerdevice_congr sameDevices sameStages).trans placed.numShards,
    placed.different, placed.perDevice, placed.staged⟩

theorem SizeSplit.groupShards (split : SizeSplit input dim sizes) {rest : List ShardingProperty}
    (same : ∀ prop ∈ rest, prop.deviceIds = input.deviceIds ∧ prop.getStageOffsets = input.getStageOffsets) :
    Hsp.groupShards (input :: rest) =
      .ok (identityDevices input.deviceIds input.lowered.getNumLogicalShardsPerdevice) := by
  have devices := shardDevices_eq split.perDevice split.staged
  unfold Hsp.groupShards
  dsimp only
  rw [if_pos]
  · exact congrArg Except.ok devices
  · rw [List.all_eq_true]
    intro prop mem
    obtain ⟨sameDevices, sameStages⟩ := same prop mem
    rw [Bool.and_eq_true, beq_iff_eq, beq_iff_eq]
    exact ⟨sameDevices, getNumLogicalShards_congr sameDevices sameStages⟩

/-- The weights of the shards: the parts that the 32-bit total makes of the sizes. -/
theorem SizeSplit.shardRatios (split : SizeSplit input dim sizes) (several : 1 < sizes.length) :
    input.shardRatios = sizes.map fun size : Int => (size : Rat) / (accumulateInt sizes % 2 ^ 64 : Int) := by
  obtain ⟨stageOffsets, atDim⟩ := split.atDim
  have isSpec : input.splitSpecs.getD dim {} = .buildFromSizes sizes stageOffsets := by
    rw [List.getD_eq_getElem?_getD, atDim]
    rfl
  unfold ShardingProperty.shardRatios
  rw [split.counted, split.ordered, if_pos several]
  apply List.ext_getElem?
  intro shardNum
  rw [List.getElem?_map, List.getElem?_map]
  by_cases inside : shardNum < sizes.length
  · have isMod : shardNum % (SplitSpec.buildFromSizes sizes stageOffsets).size = shardNum := Nat.mod_eq_of_lt inside
    rw [List.getElem?_range inside, List.getElem?_eq_getElem inside, Option.map_some, Option.map_some]
    change some (input.shardRatio shardNum [dim]) = _
    unfold shardRatio
    rw [isSpec]
    dsimp only
    rw [isMod]
    change some ((sizes.getD shardNum 0 : Rat) / _ * 1) = _
    rw [mul_one, List.getD_eq_getElem?_getD, List.getElem?_eq_getElem inside]
    rfl
  · rw [List.getElem?_eq_none (by rw [List.length_range]; omega), List.getElem?_eq_none (by omega)]
    rfl

end Operand

/-! ## Reductions of the parts -/

/-- Reductions that combine numbers, each changed by a function of its own. -/
structure Folds (limits : Limits) (reductionOp : ReductionOp) (op : Rat → Rat → Rat) (empty : Rat) (f : Rat → Rat) :
    Prop where
  associative : Std.Associative op
  commutative : Std.Commutative op
  idempotent : op empty empty = empty
  reduces : ∀ values, reductionOp.reduceList limits values = combine op empty (values.map f)

/-- All reductions but a mean combine numbers, with the operation of their post-operation. -/
theorem folds_of_ne_mean (limits : Limits) {reductionOp : ReductionOp} (notMean : reductionOp ≠ .mean)
    (weights : List Rat) : ∃ op empty f intra inter postOp, Folds limits reductionOp op empty f ∧
      contractionPostOps reductionOp.contractionType weights = [postOp] ∧ TfgOp.apply intra = op ∧
      TfgOp.apply inter = op ∧ ∀ prop devices values, handlePostOp prop devices values postOp =
        buildAllReducePostOp intra inter values prop devices := by
  cases reductionOp with
  | mean => exact absurd rfl notMean
  | sum =>
    refine ⟨(· + ·), 0, id, .addN, .addN, .allReduceSum, ⟨inferInstance, inferInstance, add_zero 0, ?_⟩, rfl, rfl, rfl,
      fun _ _ _ => rfl⟩
    intro values
    rw [List.map_id]
    rfl
  | max =>
    refine ⟨Max.max, limits.lowest, id, .maximum, .maximum, .allReduceMax,
      ⟨inferInstance, inferInstance, max_self _, ?_⟩, rfl, rfl, rfl, fun _ _ _ => rfl⟩
    intro values
    rw [List.map_id]
    rfl
  | min =>
    refine ⟨Min.min, limits.highest, id, .minimum, .minimum, .allReduceMin,
      ⟨inferInstance, inferInstance, min_self _, ?_⟩, rfl, rfl, rfl, fun _ _ _ => rfl⟩
    intro values
    rw [List.map_id]
    rfl
  | prod =>
    refine ⟨(· * ·), 1, id, .mul, .mul, .allReduceProd, ⟨inferInstance, inferInstance, one_mul 1, ?_⟩, rfl, rfl, rfl,
      fun _ _ _ => rfl⟩
    intro values
    rw [List.map_id]
    rfl
  | l2Loss =>
    exact ⟨(· + ·), 0, fun value => value * value / 2, .addV2, .addN, .allReduceL2,
      ⟨inferInstance, inferInstance, add_zero 0, fun _ => rfl⟩, rfl, rfl, rfl, fun _ _ _ => rfl⟩

theorem reduceList_perm (limits : Limits) (reductionOp : ReductionOp) {values values' : List Rat}
    (perm : values.Perm values') : reductionOp.reduceList limits values = reductionOp.reduceList limits values' := by
  by_cases isMean : reductionOp = .mean
  · rw [isMean]
    change combine (· + ·) 0 values / (values.length : Rat) = combine (· + ·) 0 values' / (values'.length : Rat)
    rw [combine_perm (α := Rat) (· + ·) 0 perm, perm.length_eq]
  · obtain ⟨op, empty, f, _, _, _, folds, _⟩ := folds_of_ne_mean limits isMean []
    have associative := folds.associative
    have commutative := folds.commutative
    rw [folds.reduces, folds.reduces, combine_perm op empty (perm.map f)]

section Parts

variable {x : Tensor Rat} {keepDims : Bool} {reduced : List Bool} {dim : Nat} {sizes : List Nat}

theorem map_snd_parts (offset : Nat) (sizes : List Nat) : (parts offset sizes).map Prod.snd = sizes := by
  induction sizes generalizing offset with
  | nil => rfl
  | cons size sizes ih => rw [parts, List.map_cons, ih]

theorem within_parts {offset : Nat} {part : Nat × Nat} (mem : part ∈ parts offset sizes) :
    part.1 + part.2 ≤ offset + sizes.sum := by
  induction sizes generalizing offset with
  | nil => cases mem
  | cons size sizes ih =>
    rw [List.sum_cons]
    rcases List.mem_cons.1 mem with isFirst | later
    · rw [isFirst]
      omega
    · have rest := ih later
      omega

theorem mem_parts_snd {offset : Nat} {part : Nat × Nat} (mem : part ∈ parts offset sizes) : part.2 ∈ sizes := by
  rw [← map_snd_parts offset sizes]
  exact List.mem_map_of_mem mem

theorem combine_fibers {op : Rat → Rat → Rat} [Std.Associative op] [Std.Commutative op] {empty : Rat}
    (idempotent : op empty empty = empty) (f : Rat → Rat) (isReduced : reduced[dim]? = some true)
    (atDim : x.extents[dim]? = some sizes.sum) (pos : ∀ size ∈ sizes, 0 < size) (index : List Nat) :
    combine op empty ((parts 0 sizes).map fun part =>
      combine op empty (((x.slice dim part.1 part.2).fiber keepDims reduced index).map f)) =
      combine op empty ((x.fiber keepDims reduced index).map f) := by
  have inside := read_lt atDim
  generalize isGroups : ((parts 0 sizes).map fun part =>
    ((x.slice dim part.1 part.2).fiber keepDims reduced index).map f) = groups
  have combined : ((parts 0 sizes).map fun part =>
      combine op empty (((x.slice dim part.1 part.2).fiber keepDims reduced index).map f)) =
      groups.map (combine op empty) := by
    rw [← isGroups, List.map_map]
    rfl
  have joined : ((x.fiber keepDims reduced index).map f).Perm groups.flatten := by
    refine ((Tensor.fiber_parts isReduced atDim index).map f).trans (List.Perm.of_eq ?_)
    rw [← isGroups, List.map_flatMap, List.flatMap_def]
  have lengths : ∀ group ∈ groups, ∃ size, 0 < size ∧
      group.length = size * (Tensor.fiberIndices keepDims reduced (x.extents.set dim 1) index).length := by
    intro group mem
    rw [← isGroups] at mem
    obtain ⟨part, isPart, isGroup⟩ := List.mem_map.1 mem
    refine ⟨part.2, pos _ (mem_parts_snd isPart), ?_⟩
    rw [← isGroup, List.length_map, Tensor.length_fiber_slice isReduced inside]
  rw [combined, combine_perm op empty joined]
  apply combine_flatten_of_alike op idempotent
  cases count : (Tensor.fiberIndices keepDims reduced (x.extents.set dim 1) index).length with
  | zero =>
    right
    intro group mem
    obtain ⟨size, _, isLength⟩ := lengths group mem
    rw [count, Nat.mul_zero] at isLength
    exact List.length_eq_zero_iff.1 isLength
  | succ count' =>
    left
    intro group mem isEmpty
    obtain ⟨size, isPositive, isLength⟩ := lengths group mem
    rw [count, isEmpty] at isLength
    exact absurd isLength.symm (Nat.pos_iff_ne_zero.1 (Nat.mul_pos isPositive (Nat.succ_pos count')))

theorem length_fiber (isReduced : reduced[dim]? = some true) (atDim : x.extents[dim]? = some sizes.sum)
    (index : List Nat) : (x.fiber keepDims reduced index).length =
      sizes.sum * (Tensor.fiberIndices keepDims reduced (x.extents.set dim 1) index).length := by
  have inside := read_lt atDim
  have whole : x.slice dim 0 sizes.sum = x := by
    obtain ⟨bound, isExtent⟩ := List.getElem?_eq_some_iff.1 atDim
    have sameExtents : x.extents.set dim sizes.sum = x.extents := by
      rw [← isExtent]
      exact List.set_getElem_self bound
    have sameEntry : (fun index => x.entry (shiftAt dim 0 index)) = x.entry := by
      funext index
      have same : shiftAt dim 0 index = index := by
        unfold shiftAt
        exact List.modify_id dim index
      rw [same]
    unfold Tensor.slice
    rw [sameExtents, sameEntry]
  have counted := @Tensor.length_fiber_slice _ keepDims reduced dim x isReduced inside 0 sizes.sum index
  rwa [whole] at counted

end Parts

/-! ## The values of the shards -/

theorem eval_slice (reduction : Reduction) (limits : Limits) (x : Tensor Rat) (dim offset size : Nat) :
    reduction.eval limits (x.slice dim offset size) = (x.slice dim offset size).reduce
      (reduction.op.reduceList limits) reduction.keeps (reduction.reduced x.extents.length) := by
  have sameLength : (x.slice dim offset size).extents.length = x.extents.length := List.length_set
  unfold Reduction.eval
  rw [sameLength]

theorem eval_slice_extents {reduction : Reduction} {x : Tensor Rat} {dim : Nat} (limits : Limits)
    (isReduced : (reduction.reduced x.extents.length)[dim]? = some true) (offset size : Nat) :
    (reduction.eval limits (x.slice dim offset size)).extents = (reduction.eval limits x).extents := by
  rw [eval_slice]
  change project _ _ (x.extents.set dim size) = project _ _ x.extents
  rw [List.set_eq_modify, project_modify_of_reduced isReduced]

theorem combine_add_div (values : List Rat) (divisor : Rat) :
    combine (· + ·) 0 (values.map (· / divisor)) = combine (· + ·) 0 values / divisor := by
  have folds : ∀ (rest : List Rat) (first : Rat),
      (rest.map (· / divisor)).foldl (· + ·) (first / divisor) = rest.foldl (· + ·) first / divisor := by
    intro rest
    induction rest with
    | nil => exact fun _ => rfl
    | cons value rest ih =>
      intro first
      rw [List.map_cons, List.foldl_cons, List.foldl_cons, ← add_div, ih]
  cases values with
  | nil => exact (zero_div divisor).symm
  | cons first rest => exact folds rest first

section Values

variable {reduction : Reduction} {x : Tensor Rat} {dim : Nat} {sizes : List Nat}

/-- The results of the op on the shards. -/
def partResults (reduction : Reduction) (limits : Limits) (x : Tensor Rat) (dim : Nat) (sizes : List Nat) :
    List (Tensor Rat) :=
  (parts 0 sizes).map fun part => reduction.eval limits (x.slice dim part.1 part.2)

/-- All entries of a fiber with one coordinate in a dim. -/
def fiberWidth (reduction : Reduction) (x : Tensor Rat) (dim : Nat) (index : List Nat) : Nat :=
  (Tensor.fiberIndices reduction.keeps (reduction.reduced x.extents.length) (x.extents.set dim 1) index).length

theorem partResults_alike (limits : Limits) (isReduced : (reduction.reduced x.extents.length)[dim]? = some true) :
    ∀ value ∈ partResults reduction limits x dim sizes, value.extents = (reduction.eval limits x).extents := by
  intro value mem
  obtain ⟨part, _, isValue⟩ := List.mem_map.1 mem
  rw [← isValue]
  exact eval_slice_extents limits isReduced part.1 part.2

theorem combine_partResults {limits : Limits} {op : Rat → Rat → Rat} {empty : Rat} {f : Rat → Rat}
    (folds : Folds limits reduction.op op empty f)
    (isReduced : (reduction.reduced x.extents.length)[dim]? = some true) (atDim : x.extents[dim]? = some sizes.sum)
    (pos : ∀ size ∈ sizes, 0 < size) (index : List Nat) :
    combine op empty (entriesAt (partResults reduction limits x dim sizes) index) =
      (reduction.eval limits x).entry index := by
  have associative := folds.associative
  have commutative := folds.commutative
  have entries : entriesAt (partResults reduction limits x dim sizes) index = (parts 0 sizes).map fun part =>
      combine op empty (((x.slice dim part.1 part.2).fiber reduction.keeps (reduction.reduced x.extents.length)
        index).map f) := by
    unfold entriesAt partResults
    rw [List.map_map]
    apply List.map_congr_left
    intro part _
    dsimp only [Function.comp]
    rw [eval_slice]
    exact folds.reduces _
  rw [entries, combine_fibers folds.idempotent f isReduced atDim pos]
  exact (folds.reduces _).symm

section

variable (limits : Limits) (isMean : reduction.op = .mean)
  (isReduced : (reduction.reduced x.extents.length)[dim]? = some true) (atDim : x.extents[dim]? = some sizes.sum)

include limits isMean isReduced atDim

theorem combine_scaled (pos : ∀ size ∈ sizes, 0 < size) (total : Rat) (index : List Nat) :
    combine (· + ·) 0 (((partResults reduction limits x dim sizes).zip
        (sizes.map fun size : Nat => (size : Rat) / total)).map fun shard => shard.1.entry index * shard.2) =
      combine (· + ·) 0 (x.fiber reduction.keeps (reduction.reduced x.extents.length) index) /
        (fiberWidth reduction x dim index * total) := by
  have inside := read_lt atDim
  have weights : sizes.map (fun size : Nat => (size : Rat) / total) =
      (parts 0 sizes).map fun part => (part.2 : Rat) / total := by
    conv_lhs => rw [← map_snd_parts 0 sizes, List.map_map]
    rfl
  unfold partResults
  rw [weights, List.zip_map', List.map_map]
  -- The number of entries of a part cancels its size.
  have cancelled : ∀ part ∈ parts 0 sizes,
      ((fun shard : Tensor Rat × Rat => shard.1.entry index * shard.2) ∘ fun part : Nat × Nat =>
        (reduction.eval limits (x.slice dim part.1 part.2), (part.2 : Rat) / total)) part =
      combine (· + ·) 0 (((x.slice dim part.1 part.2).fiber reduction.keeps (reduction.reduced x.extents.length)
        index).map id) / (fiberWidth reduction x dim index * total) := by
    intro part mem
    have nonzero : (part.2 : Rat) ≠ 0 := by
      exact_mod_cast Nat.pos_iff_ne_zero.1 (pos _ (mem_parts_snd mem))
    have counted := @Tensor.length_fiber_slice _ reduction.keeps (reduction.reduced x.extents.length) dim x isReduced
      inside part.1 part.2 index
    dsimp only [Function.comp]
    rw [eval_slice, List.map_id]
    change reduction.op.reduceList limits _ * _ = _
    rw [isMean]
    change combine (· + ·) 0 _ / ((List.length _ : Nat) : Rat) * _ = _
    rw [counted]
    change combine (· + ·) 0 _ / ((part.2 * fiberWidth reduction x dim index : Nat) : Rat) * _ = _
    rw [Nat.cast_mul, div_mul_div_comm, mul_comm (part.2 : Rat) (fiberWidth reduction x dim index : Rat),
      mul_assoc, mul_comm (part.2 : Rat) total, ← mul_assoc, mul_div_mul_right _ _ nonzero]
  have divided : (parts 0 sizes).map (fun part =>
      combine (· + ·) 0 (((x.slice dim part.1 part.2).fiber reduction.keeps (reduction.reduced x.extents.length)
        index).map id) / (fiberWidth reduction x dim index * total)) =
      ((parts 0 sizes).map fun part =>
        combine (· + ·) 0 (((x.slice dim part.1 part.2).fiber reduction.keeps (reduction.reduced x.extents.length)
          index).map id)).map (· / (fiberWidth reduction x dim index * total)) := by
    rw [List.map_map]
    rfl
  rw [List.map_congr_left cancelled, divided, combine_add_div,
    combine_fibers (add_zero 0) id isReduced atDim pos, List.map_id]

theorem mean_entry (index : List Nat) : (reduction.eval limits x).entry index =
      combine (· + ·) 0 (x.fiber reduction.keeps (reduction.reduced x.extents.length) index) /
        (fiberWidth reduction x dim index * (sizes.sum : Rat)) := by
  change reduction.op.reduceList limits _ = _
  rw [isMean]
  change combine (· + ·) 0 _ / ((List.length _ : Nat) : Rat) = _
  rw [length_fiber isReduced atDim index, mul_comm, Nat.cast_mul]
  rfl

end

end Values

/-! ## Lowering -/

/-- Each shard has the reduction of the whole tensor if the split dim is reduced, and else the
slice of it that the result's property describes. -/
structure ExactValues (reduction : Reduction) (limits : Limits) (x : Tensor Rat) (dim : Nat)
    (result : ShardingProperty) (values : List (Tensor Rat)) : Prop where
  counted : values.length = result.getNumLogicalShards
  whole : (reduction.reduced x.extents.length)[dim]? = some true →
    ∀ value ∈ values, value.Same (reduction.eval limits x)
  slices : (reduction.reduced x.extents.length)[dim]? = some false →
    List.Forall₂ Tensor.Same values (result.shards (reduction.eval limits x))

theorem Tensor.Same.refl (x : Tensor Rat) : x.Same x := ⟨rfl, fun _ _ => rfl⟩

section Lowering

variable {reduction : Reduction} {props : OpProps} {heap : Heap} {dim : Nat} {sizes : List Int}
  {inputRef outputRef : Nat} {others : List Nat} {input output result : ShardingProperty} {spec : SplitSpec}
  {constants : List ShardingProperty} {x : Tensor Rat}

/-- What the lowering sees once inference has returned. -/
structure Lowers (reduction : Reduction) (props : OpProps) (heap : Heap) (dim : Nat) (sizes : List Int)
    (inputRef outputRef : Nat) (others : List Nat) (input output result : ShardingProperty) (spec : SplitSpec)
    (constants : List ShardingProperty) : Prop where
  site : Site reduction props heap dim sizes inputRef outputRef others input output
  atDim : input.splitSpecs[dim]? = some spec
  inferred : Inferred reduction dim spec input output result
  stages : result.getStageOffsets = input.getStageOffsets
  agree : ∀ prop ∈ constants, prop.deviceIds = input.deviceIds ∧ prop.getStageOffsets = input.getStageOffsets

variable (lowers : Lowers reduction props heap dim sizes inputRef outputRef others input output result spec constants)

include lowers

theorem Lowers.size : spec.size = sizes.length ∧ spec.sizes = sizes := by
  obtain ⟨stageOffsets, isSpec⟩ := lowers.site.split.atDim
  rw [lowers.atDim] at isSpec
  rw [Option.some.inj isSpec]
  exact ⟨rfl, rfl⟩

theorem Lowers.devices : result.deviceIds = input.deviceIds := lowers.inferred.devices.trans lowers.site.sameDevices

theorem Lowers.placed : Placed result input.deviceIds input.lowered.getNumLogicalShardsPerdevice :=
  lowers.site.split.placed.of_same lowers.devices lowers.stages

theorem Lowers.numShards : result.getNumLogicalShards = sizes.length :=
  (getNumLogicalShards_congr lowers.devices lowers.stages).trans lowers.site.split.counted

omit lowers in
theorem SizeSplit.lowerReduction (split : SizeSplit input dim sizes)
    (agree : ∀ prop ∈ constants ++ [result], prop.deviceIds = input.deviceIds ∧ prop.getStageOffsets = input.getStageOffsets)
    (limits : Limits) (x : Tensor Rat) :
    Hsp.lowerReduction reduction limits (input :: constants) result (input.shards x) =
      if sizes.length = 1 then .ok [reduction.eval limits x]
      else handlePostOps result (identityDevices input.deviceIds input.lowered.getNumLogicalShardsPerdevice)
        ((input.shards x).map (reduction.eval limits)) := by
  have counted : input.lowered.getNumLogicalShardsPerdevice.sum = sizes.length := split.counted
  have numDevices : (identityDevices input.deviceIds input.lowered.getNumLogicalShardsPerdevice).length =
      sizes.length := by rw [length_identityDevices split.perDevice, counted]
  have grouped : Hsp.groupShards ((input :: constants) ++ [result]) =
      .ok (identityDevices input.deviceIds input.lowered.getNumLogicalShardsPerdevice) := split.groupShards agree
  unfold Hsp.lowerReduction
  rw [grouped]
  change (tfAssert _ _ >>= fun _ => _) = _
  have isCounted : (input.shards x).length =
      (identityDevices input.deviceIds input.lowered.getNumLogicalShardsPerdevice).length := by
    rw [split.length_shards, numDevices]
  unfold tfAssert
  rw [if_pos isCounted]
  change (if _ then _ else _) = _
  rw [numDevices]
  by_cases isOne : sizes.length = 1
  · rw [if_pos isOne, if_pos isOne, split.shards_of_one isOne]
    rfl
  · rw [if_neg isOne, if_neg isOne]

omit lowers in
theorem exact_of_single (single : result.isSplitSingleOnly = true) (isOne : result.getNumLogicalShards = 1)
    (limits : Limits) (x : Tensor Rat) : ExactValues reduction limits x dim result [reduction.eval limits x] := by
  refine ⟨by rw [isOne]; rfl, ?_, ?_⟩
  · intro _ value mem
    rw [List.mem_singleton.1 mem]
    exact Tensor.Same.refl _
  · intro _
    unfold ShardingProperty.shards
    rw [single, if_pos rfl, isOne]
    exact .cons (Tensor.Same.refl _) .nil

theorem Lowers.lowerReduction (limits : Limits) (x : Tensor Rat) :
    Hsp.lowerReduction reduction limits (input :: constants) result (input.shards x) =
      if sizes.length = 1 then .ok [reduction.eval limits x]
      else handlePostOps result (identityDevices input.deviceIds input.lowered.getNumLogicalShardsPerdevice)
        ((input.shards x).map (reduction.eval limits)) := by
  apply lowers.site.split.lowerReduction
  intro prop mem
  rcases List.mem_append.1 mem with isConstant | isResult
  · exact lowers.agree prop isConstant
  · rw [List.mem_singleton.1 isResult]
    exact ⟨lowers.devices, lowers.stages⟩

theorem Lowers.exact_of_one (isOne : sizes.length = 1) (limits : Limits) (x : Tensor Rat) :
    ExactValues reduction limits x dim result [reduction.eval limits x] := by
  apply exact_of_single
  · apply lowers.inferred.isSplitSingleOnly lowers.site
    rw [lowers.size.1, isOne]
    exact fun split => absurd split.1 (Nat.lt_irrefl 1)
  · rw [lowers.numShards, isOne]

section Reduced

variable (several : 1 < sizes.length) (ranked : x.extents.length = input.rank.toNat)
  (atExtent : x.extents[dim]? = some (sizes.map Int.toNat).sum)
  (flag : (reduction.reduced input.rank.toNat)[dim]? = some true)

include several

omit lowers in
theorem results_eq (split : SizeSplit input dim sizes) (limits : Limits) (x : Tensor Rat) :
    (input.shards x).map (reduction.eval limits) = partResults reduction limits x dim (sizes.map Int.toNat) := by
  rw [split.shards_of_several several, List.map_map]
  rfl

omit several in
theorem Lowers.positive : ∀ size ∈ sizes.map Int.toNat, 0 < size := by
  intro size mem
  obtain ⟨int, isInt, isSize⟩ := List.mem_map.1 mem
  have := lowers.site.split.positive int isInt
  omega

include ranked atExtent flag

theorem Lowers.exact_of_folds (limits : Limits) (notMean : reduction.op ≠ .mean) :
    ∃ values, Hsp.lowerReduction reduction limits (input :: constants) result (input.shards x) = .ok values ∧
      ExactValues reduction limits x dim result values := by
  obtain ⟨op, empty, f, intra, inter, postOp, folds, isPostOp, isIntra, isInter, handles⟩ :=
    folds_of_ne_mean limits notMean input.shardRatios
  have associative := folds.associative
  have isReduced := flag
  rw [← ranked] at isReduced
  have counted : (partResults reduction limits x dim (sizes.map Int.toNat)).length =
      input.lowered.getNumLogicalShardsPerdevice.sum := by
    unfold partResults
    rw [List.length_map, Tensor.length_parts, List.length_map]
    exact lowers.site.split.counted.symm
  have someResult : partResults reduction limits x dim (sizes.map Int.toNat) ≠ [] := by
    rw [← List.length_pos_iff, counted]
    change 0 < input.getNumLogicalShards
    rw [lowers.site.split.counted]
    omega
  obtain ⟨value, reduced, isExtents, isEntry⟩ := buildAllReducePostOp_combines isIntra isInter lowers.placed counted
    someResult (partResults_alike limits isReduced) empty
  have postOps : result.postOps = [postOp] := by
    rw [lowers.inferred.postOps, if_pos flag, isPostOp]
  refine ⟨List.replicate input.lowered.getNumLogicalShardsPerdevice.sum value, ?_, ?_, ?_, ?_⟩
  · rw [lowers.lowerReduction, if_neg (by omega), results_eq several lowers.site.split]
    unfold handlePostOps
    rw [postOps, List.foldlM_cons, handles, reduced]
    rfl
  · rw [List.length_replicate, lowers.numShards]
    exact lowers.site.split.counted
  · intro _ other mem
    rw [List.eq_of_mem_replicate mem]
    refine ⟨isExtents, ?_⟩
    intro index _
    rw [isEntry, combine_partResults folds isReduced atExtent lowers.positive]
  · rw [isReduced]
    intro isFalse
    cases isFalse

theorem Lowers.mean_values (limits : Limits) (isMean : reduction.op = .mean) :
    ∃ value : Tensor Rat, Hsp.lowerReduction reduction limits (input :: constants) result (input.shards x) =
        .ok (List.replicate sizes.length value) ∧ value.extents = (reduction.eval limits x).extents ∧
      ∀ index, value.entry index =
        combine (· + ·) 0 (x.fiber reduction.keeps (reduction.reduced x.extents.length) index) /
          (fiberWidth reduction x dim index * (accumulateInt sizes % 2 ^ 64 : Int)) := by
  have isReduced := flag
  rw [← ranked] at isReduced
  have sizesCast : sizes.map (fun size : Int => (size : Rat) / (accumulateInt sizes % 2 ^ 64 : Int)) =
      (sizes.map Int.toNat).map fun size : Nat => (size : Rat) / (accumulateInt sizes % 2 ^ 64 : Int) := by
    rw [List.map_map]
    apply List.map_congr_left
    intro size mem
    have isCast : ((size.toNat : Int) : Rat) = (size : Rat) := by
      rw [Int.toNat_of_nonneg (Int.le_of_lt (lowers.site.split.positive size mem))]
    dsimp only [Function.comp]
    rw [← isCast, Int.cast_natCast]
  have countedResults : (partResults reduction limits x dim (sizes.map Int.toNat)).length = sizes.length := by
    unfold partResults
    rw [List.length_map, Tensor.length_parts, List.length_map]
  have totalShards : input.lowered.getNumLogicalShardsPerdevice.sum = sizes.length := lowers.site.split.counted
  generalize isScaled : ((partResults reduction limits x dim (sizes.map Int.toNat)).zip
    (sizes.map fun size : Int => (size : Rat) / (accumulateInt sizes % 2 ^ 64 : Int))).map
      (fun shard : Tensor Rat × Rat => (⟨shard.1.extents, fun index => shard.1.entry index * shard.2⟩ : Tensor Rat)) =
      scaled
  have counted : scaled.length = input.lowered.getNumLogicalShardsPerdevice.sum := by
    rw [← isScaled, List.length_map, List.length_zip, countedResults, List.length_map, Nat.min_self, totalShards]
  have someResult : scaled ≠ [] := by
    rw [← List.length_pos_iff, counted, totalShards]
    omega
  have alike : ∀ value ∈ scaled, value.extents = (reduction.eval limits x).extents := by
    intro value mem
    rw [← isScaled] at mem
    obtain ⟨shard, isShard, isValue⟩ := List.mem_map.1 mem
    rw [← isValue]
    exact partResults_alike limits isReduced shard.1 (List.of_mem_zip isShard).1
  have adds : TfgOp.apply .addN = fun a b : Rat => a + b := rfl
  obtain ⟨value, reduced, isExtents, isEntry⟩ := buildAllReducePostOp_combines adds adds lowers.placed counted someResult
    alike 0
  have postOps : result.postOps = [.weightedScale input.shardRatios, .allReduceSum] := by
    rw [lowers.inferred.postOps, if_pos flag, isMean]
    rfl
  have scales : addWeightedScaleToPostOp (partResults reduction limits x dim (sizes.map Int.toNat))
      (identityDevices input.deviceIds input.lowered.getNumLogicalShardsPerdevice) input.shardRatios = .ok scaled := by
    unfold addWeightedScaleToPostOp
    refine bind_ok.2 ⟨(), if_pos ?_, ?_⟩
    · constructor
      · rw [countedResults, length_identityDevices lowers.site.split.perDevice, totalShards]
      · rw [countedResults, lowers.site.split.shardRatios several, List.length_map]
    · rw [← isScaled, lowers.site.split.shardRatios several]
      rfl
  refine ⟨value, ?_, isExtents, ?_⟩
  · rw [lowers.lowerReduction, if_neg (by omega), results_eq several lowers.site.split]
    unfold handlePostOps
    rw [totalShards] at reduced
    rw [postOps, List.foldlM_cons]
    refine bind_ok.2 ⟨scaled, scales, ?_⟩
    rw [List.foldlM_cons]
    exact bind_ok.2 ⟨_, reduced, rfl⟩
  · intro index
    have entries : entriesAt scaled index = ((partResults reduction limits x dim (sizes.map Int.toNat)).zip
        ((sizes.map Int.toNat).map fun size : Nat => (size : Rat) / (accumulateInt sizes % 2 ^ 64 : Int))).map
          fun shard => shard.1.entry index * shard.2 := by
      unfold entriesAt
      rw [← isScaled, sizesCast, List.map_map]
      rfl
    rw [isEntry, entries]
    exact combine_scaled limits isMean isReduced atExtent lowers.positive _ index

end Reduced

theorem Lowers.shards_of_kept (several : 1 < sizes.length)
    (flag : (reduction.reduced input.rank.toNat)[dim]? = some false) (y : Tensor Rat) :
    result.shards y = (parts 0 ((output.rescaled (reduction.place input.rank.toNat dim) spec).sizes.map Int.toNat)).map
      fun part => y.slice (reduction.place input.rank.toNat dim) part.1 part.2 := by
  have isSplit : 1 < spec.size ∧ (reduction.reduced input.rank.toNat)[dim]? = some false := by
    rw [lowers.size.1]
    exact ⟨several, flag⟩
  have inside := (lowers.site.place_of_kept (mem_keptDims.2 flag)).1
  have atPlace := lowers.inferred.specs _ inside
  rw [if_pos ⟨isSplit.1, isSplit.2, rfl⟩] at atPlace
  have notSingle : result.isSplitSingleOnly = false := by
    by_contra single
    rw [Bool.not_eq_false] at single
    have all := (Bool.and_eq_true_iff.1 single).2
    change (!result.isRanked || _) = true at all
    rw [(isRanked_of_spec atPlace).1, Bool.not_true, Bool.false_or, List.all_eq_true] at all
    have isOne := (Bool.and_eq_true_iff.1 (all _ (List.mem_map_of_mem (List.mem_of_getElem? atPlace)))).2
    rw [beq_iff_eq] at isOne
    change (output.rescaled _ spec).size = 1 at isOne
    rw [rescaled_size] at isOne
    omega
  unfold ShardingProperty.shards
  rw [notSingle, if_neg Bool.false_ne_true, lowers.inferred.ordered, if_pos isSplit]
  dsimp only
  rw [List.getD_eq_getElem?_getD, atPlace]
  rfl

theorem Lowers.exact_of_sameSizes (several : 1 < sizes.length) (ranked : x.extents.length = input.rank.toNat)
    (atExtent : x.extents[dim]? = some (sizes.map Int.toNat).sum)
    (flag : (reduction.reduced input.rank.toNat)[dim]? = some false)
    (sameSizes : (output.rescaled (reduction.place input.rank.toNat dim) spec).sizes = sizes) (limits : Limits) :
    ∃ values, Hsp.lowerReduction reduction limits (input :: constants) result (input.shards x) = .ok values ∧
      ExactValues reduction limits x dim result values := by
  have isKept := flag
  rw [← ranked] at isKept
  have noPostOps : result.postOps = [] := by
    rw [lowers.inferred.postOps, if_neg (by rw [flag]; simp)]
  refine ⟨partResults reduction limits x dim (sizes.map Int.toNat), ?_, ?_, ?_, ?_⟩
  · rw [lowers.lowerReduction, if_neg (by omega), results_eq several lowers.site.split]
    unfold handlePostOps
    rw [noPostOps]
    rfl
  · unfold partResults
    rw [List.length_map, Tensor.length_parts, List.length_map, lowers.numShards]
  · rw [isKept]
    intro isTrue
    cases isTrue
  · intro _
    rw [lowers.shards_of_kept several flag, sameSizes]
    unfold partResults
    rw [List.forall₂_map_left_iff, List.forall₂_map_right_iff, List.forall₂_same]
    intro part mem
    rw [eval_slice]
    have place : reduction.place input.rank.toNat dim =
        projectDim (if reduction.keeps then some 0 else none) (reduction.reduced x.extents.length) dim := by
      rw [ranked]
      rfl
    rw [place]
    exact Tensor.reduce_slice_of_kept (fun _ _ perm => reduceList_perm limits reduction.op perm) isKept
      (Reduction.length_reduced _ _).symm atExtent (by
        have within := within_parts mem
        omega)

theorem Lowers.sameSizes_of_exact (several : 1 < sizes.length) (ranked : x.extents.length = input.rank.toNat)
    (flag : (reduction.reduced input.rank.toNat)[dim]? = some false) (limits : Limits) {values : List (Tensor Rat)}
    (lowered : Hsp.lowerReduction reduction limits (input :: constants) result (input.shards x) = .ok values)
    (exact_ : ExactValues reduction limits x dim result values) :
    (output.rescaled (reduction.place input.rank.toNat dim) spec).sizes.map Int.toNat = sizes.map Int.toNat := by
  have isKept := flag
  rw [← ranked] at isKept
  have noPostOps : result.postOps = [] := by
    rw [lowers.inferred.postOps, if_neg (by rw [flag]; simp)]
  rw [lowers.lowerReduction, if_neg (by omega), results_eq several lowers.site.split] at lowered
  unfold handlePostOps at lowered
  rw [noPostOps] at lowered
  have same := exact_.slices isKept
  rw [← Except.ok.inj lowered, lowers.shards_of_kept several flag] at same
  unfold partResults at same
  rw [List.forall₂_map_left_iff, List.forall₂_map_right_iff] at same
  have place : projectDim (if reduction.keeps then some 1 else none) (reduction.reduced x.extents.length) dim =
      reduction.place input.rank.toNat dim := by
    rw [projectDim_filler, ranked]
    rfl
  have inside : dim < x.extents.length := by
    rw [ranked]
    exact lowers.site.split.lt_rank
  -- Both sides have their size at the place of the split dim.
  have sizesOf : List.Forall₂ (fun part part' : Nat × Nat => part.2 = part'.2) (parts 0 (sizes.map Int.toNat))
      (parts 0 ((output.rescaled (reduction.place input.rank.toNat dim) spec).sizes.map Int.toNat)) := by
    apply same.imp
    intro part part' isSame
    have extents := isSame.1
    rw [eval_slice] at extents
    change project _ _ (x.extents.set dim part.2) = (project _ _ x.extents).set _ part'.2 at extents
    have left : (project (if reduction.keeps then some 1 else none) (reduction.reduced x.extents.length)
        (x.extents.set dim part.2))[reduction.place input.rank.toNat dim]? = some part.2 := by
      rw [← place, getElem?_project isKept (by rw [List.length_set, Reduction.length_reduced]),
        List.getElem?_set_self inside]
    have bound : reduction.place input.rank.toNat dim <
        (project (if reduction.keeps then some 1 else none) (reduction.reduced x.extents.length) x.extents).length := by
      have atPlace := @getElem?_project (if reduction.keeps then some 1 else none) _ _ isKept x.extents
        (Reduction.length_reduced _ _).symm
      rw [place, List.getElem?_eq_getElem inside] at atPlace
      exact read_lt atPlace
    rw [extents, List.getElem?_set_self bound] at left
    exact (Option.some.inj left).symm
  have mapped : (parts 0 (sizes.map Int.toNat)).map Prod.snd =
      (parts 0 ((output.rescaled (reduction.place input.rank.toNat dim) spec).sizes.map Int.toNat)).map Prod.snd := by
    rw [← List.forall₂_eq_eq_eq, List.forall₂_map_left_iff, List.forall₂_map_right_iff]
    exact sizesOf
  rw [map_snd_parts, map_snd_parts] at mapped
  exact mapped.symm

end Lowering

end Itex.XpuAutoShard.Hsp
