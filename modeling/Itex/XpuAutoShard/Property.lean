import Itex.XpuAutoShard.Lowering

/-!
Contract: sharding properties as inference changes them
(`common/sharding_property.h`,
`sharding_property.cpp`).

Owns: split specs with their ratios, post-operations, the property and all its setters.

`lowered` is what the lowering sees of a property. Ratios are exact numbers. `assert` is
compiled out. A read outside a vector is a crash. Sizes do not overflow 64 bits; a total
is kept in an `int`.
-/

namespace Itex.XpuAutoShard.Hsp

open Itex.Lib

inductive DataType where
  | unknown
  | float64
  | float32
  | float16
  | bfloat16
  | integer
deriving DecidableEq, Repr

/-- What ends an inference: an exception, or a crash. -/
inductive Failure where
  | splitSpecMismatch
  | splitAt
  | crash (message : String)
deriving DecidableEq, Repr

def readAt {α : Type} (vector : List α) (index : Nat) : Except Failure α :=
  match vector[index]? with
  | some element => .ok element
  | none => .error (.crash "vector index out of range")

def itexCheck (condition : Bool) : Except Failure Unit :=
  if condition then .ok () else .error (.crash "Check failed")

/-! ## Split specs -/

theorem noSizes {type : SplitType} : type ≠ .size → ([] : List Int) = [] := fun _ => rfl

structure SplitSpec where
  type : SplitType := .uninit
  sizes : List Int := []
  ratios : List Rat := []
  stageOffsets : List Nat := []
  /-- No builder gives sizes to another kind of spec. -/
  sizesOnlyForSize : type ≠ .size → sizes = [] := by first | exact noSizes | simp
deriving DecidableEq, Repr

namespace SplitSpec

def lowered (spec : SplitSpec) : XpuAutoShard.SplitSpec :=
  ⟨spec.type, spec.sizes, spec.ratios.length, spec.stageOffsets⟩

def buildFromSizes (sizes : List Int) (stageOffsets : List Nat) : SplitSpec :=
  { type := .size, sizes := sizes, stageOffsets := stageOffsets }

def buildFromRatios (ratios : List Rat) : SplitSpec := { type := .ratio, ratios := ratios }

def buildSingleSplit : SplitSpec := { type := .single }

def isInitialized (spec : SplitSpec) : Bool := spec.lowered.isInitialized

def size (spec : SplitSpec) : Nat := spec.lowered.size

def getTotalSize (spec : SplitSpec) : Int := accumulateInt spec.sizes

end SplitSpec

inductive PostOp where
  | allReduceSum
  | allReduceMax
  | allReduceMin
  | allReduceProd
  | allReduceL2
  | weightedScale (weights : List Rat)
  | shapeSlice (splitDims : List Nat) (splitSpecs : List SplitSpec)
deriving DecidableEq, Repr

/-! ## The property -/

structure ShardingProperty where
  elementType : DataType := .unknown
  rank : Int
  shape : List Int := []
  deviceIds : List DeviceId
  splitSpecs : List SplitSpec := []
  orderedSplitDims : List Nat := []
  postOps : List PostOp := []
  singleSplitOnlyStageOffsets : List Nat := []
  isShapeOrSizeTensor : Bool := false
  shapeSplitSpecs : List SplitSpec := []
  sizeSplitSpec : SplitSpec := {}
  /-- The constructor makes one spec for each dim, and none when the rank is unknown. -/
  specsMatchRank : splitSpecs.length = rank.toNat := by decide
deriving DecidableEq, Repr

theorem oneSpec : 1 = (1 : Int).toNat := rfl

namespace ShardingProperty

variable (prop : ShardingProperty)

def lowered : XpuAutoShard.ShardingProperty :=
  ⟨prop.rank, prop.deviceIds, prop.splitSpecs.map SplitSpec.lowered, prop.orderedSplitDims,
    prop.singleSplitOnlyStageOffsets⟩

def isRanked : Bool := prop.lowered.isRanked

def isScalar : Bool := prop.isRanked && prop.rank == 0

def isDevicesAssigned : Bool := !prop.deviceIds.isEmpty

def isInitialized : Bool := prop.lowered.isInitialized

def isSplitSingleOnly : Bool := prop.lowered.isSplitSingleOnly

def getStageOffsets : List Nat := prop.lowered.getStageOffsets

def getNumLogicalShards : Nat := prop.lowered.getNumLogicalShards

def isSplitAt (dim : Nat) : Except Failure Bool :=
  if !prop.isRanked || prop.isScalar then .ok false
  else do
    let spec ← readAt prop.splitSpecs dim
    return spec.isInitialized

def isCompleteSplitAt (dim : Nat) : Except Failure Bool := do
  let split ← prop.isSplitAt dim
  if !split then return false
  else do
    let spec ← readAt prop.splitSpecs dim
    return decide (prop.getNumLogicalShards ≤ spec.size)

def getSplitSpec (dim : Nat) : Except Failure SplitSpec := readAt prop.splitSpecs dim

/-- The part of the tensor that a shard has: the loop of `getShardDescriptors` over the
split dims, from the last one. -/
def shardRatio (splitIndexing : Nat) : List Nat → Rat
  | [] => 1
  | dim :: dims =>
    let spec := prop.splitSpecs.getD dim {}
    let splitNum := splitIndexing % spec.size
    let ratio : Rat :=
      match spec.type with
      -- The total goes from `int` to `size_t`.
      | .size => spec.sizes.getD splitNum 0 / (spec.getTotalSize % 2 ^ 64 : Int)
      | .ratio => spec.ratios.getD splitNum 0
      | .uninit | .single => 1
    ratio * shardRatio (splitIndexing / spec.size) dims

/-- `getRatio` of each of the shard descriptors. -/
def shardRatios : List Rat :=
  (List.range prop.getNumLogicalShards).map fun shardNum =>
    prop.shardRatio shardNum prop.orderedSplitDims.reverse

def getNumSplits : Nat := prop.splitSpecs.foldl (fun numSplits spec => numSplits * spec.size) 1

/-! ## Splitting -/

/-- The spec that `splitAt` stores: in the proportions of `spec`, for the size of the dim. -/
def rescaled (dim : Nat) (spec : SplitSpec) : SplitSpec :=
  match prop.shape[dim]? with
  | none => spec
  | some extent =>
    if extent ≤ 0 ∨ spec.getTotalSize ≤ 0 then spec
    else .buildFromSizes (spec.sizes.map fun size => (extent * size).tdiv spec.getTotalSize)
      spec.stageOffsets

/-- For a complete split on `dim`, the other dims are single split. -/
def singleElsewhere (dim : Nat) : ShardingProperty :=
  { prop with
    splitSpecs := prop.splitSpecs.mapIdx fun i spec =>
      if i ≠ dim ∧ spec.isInitialized = false then .buildSingleSplit else spec
    specsMatchRank := List.length_mapIdx.trans prop.specsMatchRank }

/-- The spec at `dim` is set. -/
def placeAt (dim : Nat) (spec : SplitSpec) : ShardingProperty :=
  { prop with
    splitSpecs := prop.splitSpecs.set dim spec
    specsMatchRank := List.length_set.trans prop.specsMatchRank }

def splitAt (dim : Nat) (spec : SplitSpec) : Except Failure (Bool × ShardingProperty) := do
  let split ← prop.isSplitAt dim
  if !prop.isRanked || split || !prop.isDevicesAssigned then return (false, prop)
  else do
    let _ ← readAt prop.splitSpecs dim
    let placed := prop.placeAt dim (prop.rescaled dim spec)
    if spec.size ≤ 1 then return (true, placed)
    else do
      let ordered := { placed with orderedSplitDims := placed.orderedSplitDims ++ [dim] }
      let complete ← ordered.isCompleteSplitAt dim
      return (true, if complete then ordered.singleElsewhere dim else ordered)

def splitSingleAt (dim : Nat) : Except Failure (Bool × ShardingProperty) :=
  prop.splitAt dim .buildSingleSplit

def splitSingleStep (state : Bool × ShardingProperty) (dim : Nat) : Except Failure (Bool × ShardingProperty) := do
  let (changed, split) ← state.2.splitSingleAt dim
  return (state.1 || changed, split)

def splitSingleOnly (stageOffsets : List Nat) : Except Failure (Bool × ShardingProperty) := do
  let (changed, split) ← (List.range prop.rank.toNat).foldlM splitSingleStep (false, prop)
  if split.singleSplitOnlyStageOffsets = [] ∧ stageOffsets ≠ [] then
    return (true, { split with singleSplitOnlyStageOffsets := stageOffsets })
  else return (changed, split)

/-! ## Shape and size tensors -/

def isElementIntegerType : Bool := prop.elementType == .integer

def isShapeTensor : Bool := prop.isShapeOrSizeTensor && prop.rank == 1

def isSizeTensor : Bool := prop.isShapeOrSizeTensor && prop.rank == 0

/-- `getShape()[0]`. -/
def firstExtent : Except Failure Int := readAt prop.shape 0

def maybeShapeTensor : Except Failure Bool :=
  if prop.rank = 1 then do
    let extent ← prop.firstExtent
    return decide (0 ≤ extent) && prop.isElementIntegerType && prop.isSplitSingleOnly
  else .ok false

def maybeSizeTensor : Bool := prop.rank == 0 && prop.isElementIntegerType

def setShapeTensor (splitSpecs : List SplitSpec) : Except Failure (Bool × ShardingProperty) := do
  if prop.isShapeTensor then return (false, prop)
  else do
    let maybe ← prop.maybeShapeTensor
    if !maybe then return (false, prop)
    else do
      let extent ← prop.firstExtent
      if extent ≠ splitSpecs.length then return (false, prop)
      else return (true, { prop with shapeSplitSpecs := splitSpecs, isShapeOrSizeTensor := true })

def setSizeTensorSpec (splitSpec : SplitSpec) : Bool × ShardingProperty :=
  if prop.isSizeTensor || !prop.maybeSizeTensor then (false, prop)
  else (true, { prop with sizeSplitSpec := splitSpec, isShapeOrSizeTensor := true })

def setSizeTensor (rhs : ShardingProperty) : Bool × ShardingProperty :=
  if prop.isSizeTensor || !prop.maybeSizeTensor || !rhs.isInitialized then (false, prop)
  else
    (true, { prop with
      sizeSplitSpec :=
        if 1 < rhs.getNumSplits then .buildFromRatios rhs.shardRatios else .buildSingleSplit
      isShapeOrSizeTensor := true })

def setShapeOrSizeTensorWith (rhs : ShardingProperty) : Except Failure (Bool × ShardingProperty) :=
  if rhs.isShapeTensor then prop.setShapeTensor rhs.shapeSplitSpecs
  else if rhs.isSizeTensor then .ok (prop.setSizeTensorSpec rhs.sizeSplitSpec)
  else .ok (false, prop)

def setShapeTensorSingleSplitOnly : Except Failure (Bool × ShardingProperty) := do
  if prop.isShapeTensor then return (false, prop)
  else do
    let maybe ← prop.maybeShapeTensor
    if !maybe then return (false, prop)
    else do
      let extent ← prop.firstExtent
      prop.setShapeTensor (List.replicate extent.toNat .buildSingleSplit)

def isShapeTensorSingleSplitOnly : Bool :=
  prop.isShapeTensor && prop.shapeSplitSpecs.all fun spec => spec.type == .single

def appendPostOps (ops : List PostOp) : ShardingProperty := { prop with postOps := prop.postOps ++ ops }

def getNumPostOps : Nat := prop.postOps.length

end ShardingProperty

end Itex.XpuAutoShard.Hsp
