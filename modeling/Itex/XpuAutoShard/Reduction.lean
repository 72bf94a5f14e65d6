import Itex.Lib.Tensor
import Itex.XpuAutoShard.Inference

/-!
Contract: reductions of sharded tensors
(`common/hsp_inference/tfg_ops.cpp`,
`ReductionInfer`; `hsp_inference_utils.cpp`, `contractionInfer`;
`.../tensorflow/passes/hs_to_tfg.cpp`, `lowerFrameworkOp`, `handlePostOps`).

Owns: which rules a reduction applies, and the operations that its post-operations become,
by what they compute.

Does not own: `ArgMax`, shape slices, and control edges.

Numbers are exact. A maximum or minimum of no number is some number that the kernels
choose.
-/

namespace Itex.XpuAutoShard.Hsp

open Itex.Lib

/-! ## Inference -/

def isContractionDim (rank : Int) (contractionDims : List Int) (dim : Nat) : Bool :=
  contractionDims.any fun contractionDim => (dim : Int) == (contractionDim + rank).tmod rank

/-- Rules one after the other, all counted. -/
def applyAll : List Rule → (Heap → DoInfer) → Heap → DoInfer
  | [], next, heap => next heap
  | rule :: rules, next, _ => .apply rule true fun _ heap => applyAll rules next heap

/-- One dim of `identical_input_dims` with its partner. -/
def identicalGroup (identicalOutputDims : List Nat) (entry : Nat × Nat) : Except Failure DimGroup := do
  let outputDim ← readAt identicalOutputDims entry.2
  return { items := [⟨true, 0, entry.1⟩, ⟨false, 0, outputDim⟩] }

/-- The dim that a reduction index names. -/
def contractionDimOf (rank contractionDim : Int) : Except Failure Nat :=
  if rank = 0 then .error (.crash "division by zero")
  else if (contractionDim + rank).tmod rank < 0 then .error (.crash "vector index out of range")
  else .ok ((contractionDim + rank).tmod rank).toNat

def contractionSplitDims (input : ShardingProperty) : List Int → Except Failure (List Nat)
  | [] => .ok []
  | contractionDim :: contractionDims => do
    let dim ← contractionDimOf input.rank contractionDim
    let spec ← input.getSplitSpec dim
    let others ← contractionSplitDims input contractionDims
    return if spec.type ≠ .single then dim :: others else others

def contractionGroups (input output : ShardingProperty) (contractionDims : List Int)
    (type : ContractionType) (keepDims : Bool) : Except Failure (List DimGroup) := do
  let isReduced := isContractionDim input.rank contractionDims
  let identicalInputDims := (List.range input.rank.toNat).filter fun dim => !isReduced dim
  let identicalOutputDims := (List.range output.rank.toNat).filter fun dim => !(keepDims && isReduced dim)
  let identical ← identicalInputDims.zipIdx.mapM (identicalGroup identicalOutputDims)
  if input.isInitialized then do
    let splitDims ← contractionSplitDims input contractionDims
    if splitDims = [] then return identical
    else
      return identical ++ [{ items := splitDims.map (⟨true, 0, ·⟩), contractionType := type }]
  else return identical

/-- The first operand and the first result, with the reference of the result. -/
def readFirst (props : OpProps) (heap : Heap) : Except Failure (ShardingProperty × ShardingProperty × Nat) := do
  let inputRef ← readAt props.inputs 0
  let input ← readAt heap inputRef
  let outputRef ← readAt props.outputs 0
  let output ← readAt heap outputRef
  return (input, output, outputRef)

def inferWithDimGroups (props : OpProps) (groups : Except Failure (List DimGroup)) (heap : Heap) : DoInfer :=
  match groups with
  | .error failure => .fail failure
  | .ok groups => applyAll (groups.map (Rule.dimGroup props)) (fun _ => .done) heap

/-- What `contractionInfer` does once single splits are propagated. -/
def contractionRules (props : OpProps) (contractionDims : List Int) (type : ContractionType)
    (keepDims : Bool) (heap : Heap) : DoInfer :=
  match readFirst props heap with
  | .error failure => .fail failure
  | .ok (input, output, outputRef) =>
    let singleDims := (List.range output.rank.toNat).filter fun dim =>
      keepDims && isContractionDim input.rank contractionDims dim
    applyAll (singleDims.map fun dim => .trySplitSingleOnly outputRef (some dim))
      (inferWithDimGroups props (contractionGroups input output contractionDims type keepDims)) heap

def contractionInfer (props : OpProps) (contractionDims : List Int) (type : ContractionType)
    (keepDims : Bool) : DoInfer :=
  .apply (.allInputsSingleSplitOnly props) true fun _ heap =>
    -- The reduction dims could not be inferred.
    if contractionDims = [] then .done
    else contractionRules props contractionDims type keepDims heap

inductive ReductionOp where
  | mean
  | sum
  | max
  | min
  | prod
  | l2Loss
deriving DecidableEq, Repr

def ReductionOp.contractionType : ReductionOp → ContractionType
  | .mean => .mean
  | .sum => .sum
  | .max => .max
  | .min => .min
  | .prod => .prod
  | .l2Loss => .l2

/-- A reduction with its constant operand and its attribute. -/
structure Reduction where
  op : ReductionOp
  contractionDims : List Int
  keepDims : Bool := false
deriving DecidableEq, Repr

/-- The dims of a reduction of a tensor; `L2Loss` has all of them. -/
def Reduction.dims (reduction : Reduction) (rank : Int) : List Int :=
  if reduction.op = .l2Loss then (List.range rank.toNat).map Int.ofNat else reduction.contractionDims

def Reduction.keeps (reduction : Reduction) : Bool := reduction.op ≠ .l2Loss && reduction.keepDims

def reductionInfer (reduction : Reduction) (props : OpProps) (heap : Heap) : DoInfer :=
  match readFirst props heap with
  | .error failure => .fail failure
  | .ok (input, _, _) =>
    contractionInfer props (reduction.dims input.rank) reduction.op.contractionType reduction.keeps

/-! ## What the operations compute -/

/-- The numbers that kernels give for a maximum and a minimum of no number. -/
structure Limits where
  lowest : Rat
  highest : Rat

def ReductionOp.reduceList (limits : Limits) : ReductionOp → List Rat → Rat
  | .sum, values => combine (· + ·) 0 values
  | .mean, values => combine (· + ·) 0 values / values.length
  | .max, values => combine Max.max limits.lowest values
  | .min, values => combine Min.min limits.highest values
  | .prod, values => combine (· * ·) 1 values
  | .l2Loss, values => combine (· + ·) 0 (values.map fun value => value * value / 2)

/-- The dims that are reduced: a negative index counts from the end. -/
def Reduction.reduced (reduction : Reduction) (rank : Nat) : List Bool :=
  (List.range rank).map fun dim : Nat => (reduction.dims rank).any fun index =>
    (dim : Int) == if index < 0 then index + rank else index

def Reduction.eval (reduction : Reduction) (limits : Limits) (x : Tensor Rat) : Tensor Rat :=
  x.reduce (reduction.op.reduceList limits) reduction.keeps (reduction.reduced x.extents.length)

inductive TfgOp where
  | addN
  | addV2
  | maximum
  | minimum
  | mul
deriving DecidableEq, Repr

def TfgOp.apply : TfgOp → Rat → Rat → Rat
  | .addN, a, b | .addV2, a, b => a + b
  | .maximum, a, b => max a b
  | .minimum, a, b => min a b
  | .mul, a, b => a * b

/-- `AddN` of all, or the operation two by two. -/
def TfgOp.run (op : TfgOp) (first : Tensor Rat) (others : List (Tensor Rat)) : Tensor Rat :=
  ⟨first.extents, fun index =>
    others.foldl (fun value other => op.apply value (other.entry index)) (first.entry index)⟩

/-! ## Post-operations -/

def reduceRun (op : TfgOp) : List (DeviceId × Tensor Rat) → Except String (Tensor Rat)
  | [] => .error "read past the end of the shards"
  | (_, first) :: others => .ok (op.run first (others.map Prod.snd))

def addIntraDeviceReducePostOp (op : TfgOp) (shardedValue : List (Tensor Rat))
    (devPlacements : List DeviceId) : Except String (List (Tensor Rat)) := do
  tfAssert (shardedValue.length = devPlacements.length)
    "Expect number of shards match for Value and Input Desc"
  ((devPlacements.zip shardedValue).splitBy fun shard next => shard.1 == next.1).mapM (reduceRun op)

/-- `addInterDeviceReducePostOp`: the result is passed to each stage on each device. -/
def addInterDeviceReducePostOp (op : TfgOp) (shardedValue : List (Tensor Rat)) (prop : ShardingProperty) :
    Except String (List (Tensor Rat)) := do
  tfAssert (shardedValue.length = prop.deviceIds.length)
    "Expect number of shards matches the number of devices"
  let counts := prop.lowered.getNumLogicalShardsPerdevice
  tfAssert (shardedValue.length ≤ counts.length) "read past the end of the shards per device"
  match shardedValue with
  | [] => .error "read past the end of the shards"
  | first :: others => return List.replicate (counts.take shardedValue.length).sum (op.run first others)

/-- `buildAllReduceSumPostOp` and its siblings. -/
def buildAllReducePostOp (intra inter : TfgOp) (shardedValue : List (Tensor Rat)) (prop : ShardingProperty)
    (devPlacements : List DeviceId) : Except String (List (Tensor Rat)) := do
  let perDevice ← addIntraDeviceReducePostOp intra shardedValue devPlacements
  addInterDeviceReducePostOp inter perDevice prop

def buildAllReduceSumPostOp := buildAllReducePostOp .addN .addN

def buildAllReduceMaxPostOp := buildAllReducePostOp .maximum .maximum

def buildAllReduceMinPostOp := buildAllReducePostOp .minimum .minimum

def buildAllReduceProdPostOp := buildAllReducePostOp .mul .mul

def buildAllReduceL2PostOp := buildAllReducePostOp .addV2 .addN

def addWeightedScaleToPostOp (shardedValue : List (Tensor Rat)) (devPlacements : List DeviceId)
    (weights : List Rat) : Except String (List (Tensor Rat)) := do
  tfAssert (shardedValue.length = devPlacements.length ∧ shardedValue.length = weights.length)
    "Expect number of shards match for Value, weights and dev_placements"
  return (shardedValue.zip weights).map fun (value, weight) =>
    ⟨value.extents, fun index => value.entry index * weight⟩

def handlePostOp (prop : ShardingProperty) (devPlacements : List DeviceId) (shardedValue : List (Tensor Rat)) :
    PostOp → Except String (List (Tensor Rat))
  | .allReduceSum => buildAllReduceSumPostOp shardedValue prop devPlacements
  | .allReduceMax => buildAllReduceMaxPostOp shardedValue prop devPlacements
  | .allReduceMin => buildAllReduceMinPostOp shardedValue prop devPlacements
  | .allReduceProd => buildAllReduceProdPostOp shardedValue prop devPlacements
  | .allReduceL2 => buildAllReduceL2PostOp shardedValue prop devPlacements
  | .weightedScale weights => addWeightedScaleToPostOp shardedValue devPlacements weights
  | .shapeSlice _ _ => .error "Expect a shape tensor"

def handlePostOps (prop : ShardingProperty) (devPlacements : List DeviceId)
    (shardedResult : List (Tensor Rat)) : Except String (List (Tensor Rat)) :=
  prop.postOps.foldlM (handlePostOp prop devPlacements) shardedResult

/-- The devices of the shard groups. The properties of an op have the same devices and
numbers of shards. -/
def groupShards (props : List ShardingProperty) : Except String (List DeviceId) :=
  match props with
  | [] => .ok []
  | first :: others =>
    if others.all fun prop => prop.deviceIds == first.deviceIds &&
        prop.getNumLogicalShards == first.getNumLogicalShards then
      .ok ((List.range first.getNumLogicalShards).map first.lowered.getDeviceIdPerShardNum)
    else .error "HspGroupingConflict"

/-- `lowerFrameworkOp` for a reduction: the op on each shard, and then the post-operations. -/
def lowerReduction (reduction : Reduction) (limits : Limits) (operands : List ShardingProperty)
    (result : ShardingProperty) (shards : List (Tensor Rat)) : Except String (List (Tensor Rat)) := do
  let devPlacements ← groupShards (operands ++ [result])
  tfAssert (shards.length = devPlacements.length) "read past the end of the shards"
  let results := shards.map (reduction.eval limits)
  if devPlacements.length = 1 then return results
  else handlePostOps result devPlacements results

end Itex.XpuAutoShard.Hsp
