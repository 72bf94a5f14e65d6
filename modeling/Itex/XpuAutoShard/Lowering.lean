import Itex.Lib.Fallible

/-!
Contract: sharding properties
(`itex/core/experimental/XPUAutoShard/src/xpuautoshard/common/sharding_property.cpp`)
and the lowering of shard and unshard operations
(`.../tensorflow/passes/hs_to_tfg.cpp`, `lowerShardOp` and `lowerUnshardOp`).

Owns: the property, its shard descriptors, the operations that the lowering builds
and what these operations compute.

A tensor is seen along one dim, as the list of its sections. Ratios are counted only:
the lowering reads them for declared result types alone. Offsets into the sizes are
natural numbers.
-/

namespace Itex.XpuAutoShard

open Itex.Lib

/-! ## Sharding properties -/

abbrev DeviceId := Nat

inductive SplitType where
  | uninit
  | single
  | ratio
  | size
deriving DecidableEq, Repr

structure SplitSpec where
  type : SplitType := .uninit
  sizes : List Int := []
  /-- The number of `ratios_`. -/
  numRatios : Nat := 0
  stageOffsets : List Nat := []
deriving DecidableEq, Repr

namespace SplitSpec

def isInitialized (spec : SplitSpec) : Bool := spec.type ≠ .uninit

def size (spec : SplitSpec) : Nat :=
  match spec.type with
  | .single => 1
  | .ratio => spec.numRatios
  | .size => spec.sizes.length
  | .uninit => 0

end SplitSpec

structure ShardingProperty where
  rank : Int
  deviceIds : List DeviceId
  splitSpecs : List SplitSpec
  orderedSplitDims : List Nat
  singleSplitOnlyStageOffsets : List Nat := []
deriving DecidableEq, Repr

/-- What a shard descriptor tells the lowering. -/
structure ShardDesc where
  num : Nat
  deviceId : DeviceId
  orderedSplitDims : List Nat
  splitSpecs : List SplitSpec

def ShardDesc.getSplitDim (desc : ShardDesc) : Nat := desc.orderedSplitDims.getLastD 0

def ShardDesc.getSplitSpec (desc : ShardDesc) : SplitSpec := desc.splitSpecs.getLastD {}

namespace ShardingProperty

def isRanked (prop : ShardingProperty) : Bool := decide (0 ≤ prop.rank)

def isInitialized (prop : ShardingProperty) : Bool :=
  !prop.deviceIds.isEmpty &&
    (!prop.isRanked || prop.splitSpecs.all SplitSpec.isInitialized)

def isSplitSingleOnly (prop : ShardingProperty) : Bool :=
  prop.isInitialized && (!prop.isRanked ||
    prop.splitSpecs.all fun spec => spec.isInitialized && spec.size == 1)

def getStageOffsets (prop : ShardingProperty) : List Nat :=
  if prop.isSplitSingleOnly then prop.singleSplitOnlyStageOffsets
  else
    match prop.splitSpecs.find? fun spec =>
      spec.isInitialized && !spec.stageOffsets.isEmpty with
    | none => []
    | some spec => spec.stageOffsets

/-- The differences of offsets, from the previous offset on. -/
def stageCounts : Nat → List Nat → List Nat
  | _, [] => []
  | prevOffset, offset :: offsets => (offset - prevOffset) :: stageCounts offset offsets

def getNumLogicalShardsPerdevice (prop : ShardingProperty) : List Nat :=
  if prop.getStageOffsets = [] then List.replicate prop.deviceIds.length 1
  else stageCounts 0 prop.getStageOffsets

def getNumLogicalShards (prop : ShardingProperty) : Nat :=
  prop.getNumLogicalShardsPerdevice.sum

/-- `getDeviceIdPerShardNum`: the first device whose offset is beyond the shard. -/
def getDeviceIdPerShardNum (prop : ShardingProperty) (shardNum : Nat) : DeviceId :=
  match prop.getStageOffsets.findIdx? fun offset => shardNum < offset with
  | some device => prop.deviceIds.getD device 0
  | none =>
    prop.deviceIds.getD
      (if prop.getStageOffsets = [] then shardNum else prop.deviceIds.length - 1) 0

def getShardDescriptors (prop : ShardingProperty) : List ShardDesc :=
  (List.range prop.getNumLogicalShards).map fun shardNum =>
    ⟨shardNum, prop.getDeviceIdPerShardNum shardNum, prop.orderedSplitDims,
      prop.orderedSplitDims.map fun dim => prop.splitSpecs.getD dim {}⟩

end ShardingProperty

/-! ## The operations that the lowering builds -/

/-- `tfg.SplitV` with its constant sizes, or `tfg.Split` into equal parts. -/
inductive SplitKind where
  | splitV (sizes : List Int)
  | split (numSplit : Nat)
deriving DecidableEq, Repr

structure SplitOp where
  kind : SplitKind
  dim : Nat
deriving DecidableEq, Repr

/-- `SplitV` requires sizes that sum to the dim it splits, `Split` a dim that the
number of parts divides. -/
def SplitOp.run {α : Type} (op : SplitOp) (dim : Nat) (x : List α) : Option (List (List α)) :=
  if op.dim ≠ dim then none
  else
    match op.kind with
    | .splitV sizes =>
      if (∀ size ∈ sizes, 0 ≤ size) ∧ sizes.sum = x.length then
        some ((sizes.map Int.toNat).splitLengths x)
      else none
    | .split numSplit =>
      if numSplit ∣ x.length then
        some ((List.replicate numSplit (x.length / numSplit)).splitLengths x)
      else none

/-- The splits of a shard operation: one over the devices, then one over the stages of
each device that has several. An `Identity` puts each shard on its device. -/
structure SplitTree where
  firstLevel : SplitOp
  secondLevel : List (Option SplitOp)
  placements : List DeviceId
deriving DecidableEq, Repr

def runStage {α : Type} (dim : Nat) (piece : List α × Option SplitOp) : Option (List (List α)) :=
  match piece.2 with
  | none => some [piece.1]
  | some op => op.run dim piece.1

def SplitTree.run {α : Type} (tree : SplitTree) (dim : Nat) (x : List α) : Option (List (List α)) := do
  let pieces ← tree.firstLevel.run dim x
  let shards ← (pieces.zip tree.secondLevel).mapM (runStage dim)
  return shards.flatten

/-- The value of a shard operation: the operand for every shard, or a split tree. -/
inductive ShardedValue where
  | replicated (count : Nat)
  | split (tree : SplitTree)
deriving DecidableEq, Repr

/-! ## `lowerShardOp` -/

/-- `TF_ASSERT`, or a read that has to stay inside a vector. -/
def tfAssert (condition : Prop) [Decidable condition] (message : String) : Except String Unit :=
  if condition then .ok () else .error message

/-- `std::accumulate(first, last, 0)`: the sum is kept in an `int`. -/
def accumulateInt (values : List Int) : Int :=
  values.foldl (fun sum value => (sum + value).bmod (2 ^ 32)) 0

/-- `buildConstantTensor` stores 32-bit values. -/
def toInt32 (value : Int) : Int := value.bmod (2 ^ 32)

/-- The sizes of the first level, one per turn of its loop over the devices. -/
def firstLevelSizes (shardDescs : List ShardDesc) : Nat → List Nat → Except String (List Int)
  | _, [] => .ok []
  | shardDescId, count :: counts =>
    match shardDescs[shardDescId]? with
    | none => .ok []
    | some desc => do
      -- The range starts at the first size for every device.
      let sizes := desc.getSplitSpec.sizes
      tfAssert (count ≤ sizes.length) "read past the end of the sizes"
      let others ← firstLevelSizes shardDescs (shardDescId + count) counts
      return accumulateInt (sizes.take count) :: others

/-- The splits of the second level. The first argument is
`current_device_stage_begin_id`. -/
def secondLevelSplits (spec : SplitSpec) (dim : Nat) : Nat → List Nat → Except String (List (Option SplitOp))
  | _, [] => .ok []
  | beginId, stageSum :: counts => do
    tfAssert (0 < stageSum) "Expect stage number in every device gather than 0"
    if stageSum = 1 then do
      -- `continue`: the begin is not advanced.
      let others ← secondLevelSplits spec dim beginId counts
      return none :: others
    else if spec.type = .size then do
      tfAssert (beginId + stageSum ≤ spec.sizes.length) "read past the end of the sizes"
      let others ← secondLevelSplits spec dim (beginId + stageSum) counts
      return some ⟨.splitV (((spec.sizes.drop beginId).take stageSum).map toInt32), dim⟩ :: others
    else do
      let others ← secondLevelSplits spec dim (beginId + stageSum) counts
      return some ⟨.split stageSum, dim⟩ :: others

/-- The device of the `Identity` of each shard. -/
def identityDevices : List DeviceId → List Nat → List DeviceId
  | device :: devices, count :: counts =>
    List.replicate count device ++ identityDevices devices counts
  | _, _ => []

def firstLevelSplit (prop : ShardingProperty) (spec : SplitSpec) (dim : Nat) : Except String SplitOp := do
  let counts := prop.getNumLogicalShardsPerdevice
  match spec.type with
  | .size => do
    let sizes ← firstLevelSizes prop.getShardDescriptors 0 counts
    tfAssert (sizes.length = prop.deviceIds.length) "Expect split number is device number"
    return ⟨.splitV (sizes.map toInt32), dim⟩
  | .ratio => return ⟨.split prop.deviceIds.length, dim⟩
  | .uninit | .single =>
    .error "only support `SplitType::SIZE` and `SplitType::RATIO` for now"

def lowerShardOp (prop : ShardingProperty) : Except String ShardedValue := do
  tfAssert (prop.isInitialized = true) "Expect sharding property to be initialized but not!"
  if prop.isSplitSingleOnly then return .replicated prop.getNumLogicalShards
  else do
    tfAssert (prop.orderedSplitDims.length = 1) "Support maximum 1 split dim for now"
    let counts := prop.getNumLogicalShardsPerdevice
    tfAssert (counts.length = prop.deviceIds.length) "read past the end of the devices"
    match prop.getShardDescriptors with
    | [] => .error "read past the end of the shard descriptors"
    | desc :: _ => do
      let spec := desc.getSplitSpec
      let dim := desc.getSplitDim
      let firstLevel ← firstLevelSplit prop spec dim
      let secondLevel ← secondLevelSplits spec dim 0 counts
      return .split ⟨firstLevel, secondLevel, identityDevices prop.deviceIds counts⟩

/-- The value of an unshard operation: one of its operands, or their concatenation. -/
inductive UnshardedValue where
  | operand (index : Nat)
  | concat (dim : Nat)
deriving DecidableEq, Repr

/-- `ConcatV2`, or the operand that is taken. -/
def UnshardedValue.run {α : Type} (value : UnshardedValue) (dim : Nat) (operands : List (List α)) : Option (List α) :=
  match value with
  | .operand index => operands[index]?
  | .concat axis => if axis = dim then some operands.flatten else none

/-- `lowerUnshardOp` for tensor operands. `onResultDevice` says which devices have the
name of the result's device. -/
def lowerUnshardOp (prop : ShardingProperty) (numOperands : Nat) (used : Bool)
    (onResultDevice : DeviceId → Bool) : Except String UnshardedValue :=
  let shardDescs := prop.getShardDescriptors
  if prop.isSplitSingleOnly then
    if 1 < numOperands ∧ used = true then do
      tfAssert (shardDescs.length = numOperands)
        "Expect number of shard descriptors matches number of operand shard"
      return .operand ((shardDescs.findIdx? fun desc => onResultDevice desc.deviceId).getD 0)
    else .ok (.operand 0)
  else do
    tfAssert (numOperands = prop.getNumLogicalShards)
      "Unshard expects the same number of operands as the number of shards"
    tfAssert (prop.orderedSplitDims.length = 1) "Support maximum 1 split dim for now"
    match shardDescs with
    | [] => .error "read past the end of the shard descriptors"
    | desc :: _ => return .concat desc.getSplitDim

end Itex.XpuAutoShard
