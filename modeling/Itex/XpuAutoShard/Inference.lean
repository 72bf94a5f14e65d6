import Itex.XpuAutoShard.Property

/-!
Contract: the inference of sharding properties
(`common/hsp_inference/dim_group.h`,
`hsp_inference_utils.cpp`, `hsp_inference.cpp`).

Owns: dim groups, the built-in rules, what an op makes of them, and `HspInference::infer`.

Properties are shared: a reference is a position in the list of all of them. `doInfer` is
any program of built-in rules that reads the properties between them and or-s the results
of some of the rules.
-/

namespace Itex.XpuAutoShard.Hsp

open Itex.Lib

structure DimItem where
  isInput : Bool
  num : Nat
  dim : Nat
deriving DecidableEq, Repr

inductive DimGroupType where
  | identical
  | contracting
  | broadcasting
deriving DecidableEq, Repr

inductive ContractionType where
  | sum
  | mean
  | argMax
  | l2
  | max
  | min
  | prod
deriving DecidableEq, Repr

structure DimGroup where
  items : List DimItem
  contractionOutputNum : Nat := 0
  contractionType : ContractionType := .sum
deriving DecidableEq, Repr

/-- `getType`. -/
def DimGroup.type (group : DimGroup) : DimGroupType :=
  let hasInput := group.items.any DimItem.isInput
  let hasOutput := group.items.any fun item => !item.isInput
  if hasInput && hasOutput then .identical else if hasInput then .contracting else .broadcasting

abbrev Heap := List ShardingProperty

structure OpProps where
  inputs : List Nat
  outputs : List Nat
deriving DecidableEq, Repr

namespace OpProps

def refOf (props : OpProps) (item : DimItem) : Except Failure Nat :=
  readAt (if item.isInput then props.inputs else props.outputs) item.num

end OpProps

def onProp (heap : Heap) (ref : Nat)
    (setter : ShardingProperty → Except Failure (Bool × ShardingProperty)) :
    Except Failure (Bool × Heap) := do
  let prop ← readAt heap ref
  let (changed, set) ← setter prop
  return (changed, heap.set ref set)

/-- `is_equivalent`. A division by a total of zero is a crash. -/
def isEquivalent (first second : SplitSpec) : Except Failure Bool :=
  if first.type ≠ second.type then .ok false
  else if first.sizes.length ≠ second.sizes.length then .ok false
  else if first.sizes ≠ [] ∧ (first.getTotalSize = 0 ∨ second.getTotalSize = 0) then
    .error (.crash "division by zero")
  else .ok ((first.sizes.zip second.sizes).all fun (size, other) =>
    size.tdiv first.getTotalSize == other.tdiv second.getTotalSize)

/-- What the first loop of `inferWithIdenticalDimGroup` finds: the split spec to align
with, once a dim is split, and how many dims are split. -/
structure IdenticalScan where
  splitSpec : Option SplitSpec := none
  numInitialized : Nat := 0
deriving DecidableEq, Repr

def scanIdenticalItem (props : OpProps) (heap : Heap) (scan : IdenticalScan) (item : DimItem) :
    Except Failure IdenticalScan := do
  let ref ← props.refOf item
  let prop ← readAt heap ref
  let split ← prop.isSplitAt item.dim
  if !split then return scan
  else do
    let spec ← prop.getSplitSpec item.dim
    match scan.splitSpec with
    | none => return ⟨some spec, scan.numInitialized + 1⟩
    | some splitSpec =>
      if splitSpec.type = .single then
        if spec.type ≠ .single then return ⟨some spec, scan.numInitialized + 1⟩
        else return { scan with numInitialized := scan.numInitialized + 1 }
      else if spec.type = .single then return { scan with numInitialized := scan.numInitialized + 1 }
      else do
        let equivalent ← isEquivalent splitSpec spec
        if equivalent then return { scan with numInitialized := scan.numInitialized + 1 }
        else .error .splitSpecMismatch

/-- The second loop, for one dim. -/
def alignIdenticalItem (props : OpProps) (splitSpec : SplitSpec) (state : Bool × Heap)
    (item : DimItem) : Except Failure (Bool × Heap) := do
  let ref ← props.refOf item
  let prop ← readAt state.2 ref
  let split ← prop.isSplitAt item.dim
  if split then return state
  else do
    let (success, set) ← prop.splitAt item.dim splitSpec
    if !success then .error .splitAt
    else return (true, state.2.set ref set)

def inferWithIdenticalDimGroup (props : OpProps) (group : DimGroup) (heap : Heap) : Except Failure (Bool × Heap) := do
  let scan ← group.items.foldlM (scanIdenticalItem props heap) {}
  match scan.splitSpec with
  | none => return (false, heap)
  | some splitSpec =>
    if scan.numInitialized < group.items.length ∧
        (splitSpec.type ≠ .single ∨ group.items.length - scan.numInitialized = 1) then
      group.items.foldlM (alignIdenticalItem props splitSpec) (false, heap)
    else return (false, heap)

/-- The post-operations of a contraction; `weights` are those of a mean. `ARGMAX` has the
code of a mean once its assertion is compiled out. -/
def contractionPostOps (type : ContractionType) (weights : List Rat) : List PostOp :=
  match type with
  | .sum => [.allReduceSum]
  | .max => [.allReduceMax]
  | .min => [.allReduceMin]
  | .prod => [.allReduceProd]
  | .l2 => [.allReduceL2]
  | .mean | .argMax => [.weightedScale weights, .allReduceSum]

def inferWithContractingDimGroup (props : OpProps) (group : DimGroup) (heap : Heap) :
    Except Failure (Bool × Heap) := do
  let item ← readAt group.items 0
  let inputRef ← readAt props.inputs item.num
  let input ← readAt heap inputRef
  if !input.isInitialized then return (false, heap)
  else do
    let split ← input.isSplitAt item.dim
    if !split then return (false, heap)
    else do
      let spec ← input.getSplitSpec item.dim
      if spec.type = .single then return (false, heap)
      else do
        let outputRef ← readAt props.outputs group.contractionOutputNum
        let output ← readAt heap outputRef
        if output.getNumPostOps ≠ 0 then return (false, heap)
        -- Only one dim may be split.
        else if (input.splitSpecs.zipIdx.any fun (other, dim) =>
            dim != item.dim && other.type != .single) then return (false, heap)
        else
          return (true, heap.set outputRef
            (output.appendPostOps (contractionPostOps group.contractionType input.shardRatios)))

def inferWithDimGroup (props : OpProps) (group : DimGroup) (heap : Heap) : Except Failure (Bool × Heap) :=
  match group.type with
  | .identical => inferWithIdenticalDimGroup props group heap
  | .contracting => inferWithContractingDimGroup props group heap
  | .broadcasting => .ok (false, heap)

def trySplitSingleOnly (ref : Nat) (dim : Option Nat) (heap : Heap) : Except Failure (Bool × Heap) :=
  onProp heap ref fun prop =>
    if prop.isInitialized then .ok (false, prop)
    else
      match dim with
      | none => prop.splitSingleOnly []
      | some dim => do
        let split ← prop.isSplitAt dim
        if split then return (false, prop)
        else do
          let (success, set) ← prop.splitSingleAt dim
          itexCheck success
          return (true, set)

/-- One output in `inferWithAllInputsSingleSplitOnly`. -/
def splitOutputSingleOnly (state : Bool × Heap) (ref : Nat) : Except Failure (Bool × Heap) := do
  let prop ← readAt state.2 ref
  if prop.isInitialized then return state
  else do
    let (success, set) ← prop.splitSingleOnly []
    itexCheck success
    return (true, state.2.set ref set)

def inferWithAllInputsSingleSplitOnly (props : OpProps) (heap : Heap) : Except Failure (Bool × Heap) := do
  let inputs ← props.inputs.mapM (readAt heap)
  match inputs with
  | [] => return (false, heap)
  | first :: rest =>
    if inputs.all ShardingProperty.isSplitSingleOnly &&
        rest.all fun prop => first.deviceIds == prop.deviceIds then
      props.outputs.foldlM splitOutputSingleOnly (false, heap)
    else return (false, heap)

/-- Each size of a split of the shape is a whole number. -/
def dividesShape (shape : List Int) : List (SplitSpec × Nat) → Except Failure Bool
  | [] => .ok true
  | (spec, dim) :: rest =>
    if spec.sizes = [] then dividesShape shape rest
    else do
      let extent ← readAt shape dim
      if spec.getTotalSize = 0 then .error (.crash "division by zero")
      else if spec.sizes.any fun size => (extent * size).tmod spec.getTotalSize != 0 then return false
      else dividesShape shape rest

def trySliceShape (ref : Nat) (shape : List Int) (splitSpecs : List SplitSpec) (splitDims : List Nat)
    (heap : Heap) : Except Failure (Bool × Heap) :=
  onProp heap ref fun prop => do
    if !prop.isShapeTensor || !prop.isShapeTensorSingleSplitOnly then return (false, prop)
    else if prop.getNumPostOps ≠ 0 then return (false, prop)
    else if (shape ≠ [] ∧ ∀ extent ∈ shape, 0 ≤ extent) ∧ ∃ spec ∈ splitSpecs, spec.type = .size then do
      let extent ← prop.firstExtent
      if extent ≠ shape.length then return (false, prop)
      else do
        let divides ← dividesShape shape (splitSpecs.zip splitDims)
        if !divides then return (false, prop)
        else return (true, prop.appendPostOps [.shapeSlice splitDims splitSpecs])
    else if ∃ spec ∈ splitSpecs, spec.type = .ratio then
      return (true, prop.appendPostOps [.shapeSlice splitDims splitSpecs])
    else return (false, prop)

def initStageOffsets (best : Nat × List Nat) (prop : ShardingProperty) : Nat × List Nat :=
  if prop.isInitialized ∧ best.1 < prop.getNumLogicalShards then
    (prop.getNumLogicalShards, prop.getStageOffsets)
  else best

/-- `update_stage_offsets_for_single_split`. -/
def updateStageOffsets (stageOffsets : List Nat) (state : Bool × Heap) (ref : Nat) :
    Except Failure (Bool × Heap) := do
  let prop ← readAt state.2 ref
  if prop.isSplitSingleOnly then do
    let (changed, set) ← prop.splitSingleOnly stageOffsets
    return (state.1 || changed, state.2.set ref set)
  else return state

def alignSingleSplitStageOffsets (props : OpProps) (heap : Heap) : Except Failure (Bool × Heap) := do
  let all ← (props.inputs ++ props.outputs).mapM (readAt heap)
  let stageOffsets := (all.foldl initStageOffsets (0, [])).2
  if stageOffsets = [] then return (false, heap)
  else (props.inputs ++ props.outputs).foldlM (updateStageOffsets stageOffsets) (false, heap)

/-- The built-in rules and the setters that ops call. -/
inductive Rule where
  | dimGroup (props : OpProps) (group : DimGroup)
  | trySplitSingleOnly (ref : Nat) (dim : Option Nat)
  | allInputsSingleSplitOnly (props : OpProps)
  | splitAt (ref dim : Nat) (spec : SplitSpec) (isSet : spec.isInitialized = true)
  | splitSingleAt (ref dim : Nat)
  | trySliceShape (ref : Nat) (shape : List Int) (splitSpecs : List SplitSpec) (splitDims : List Nat)
  | setShapeTensor (ref : Nat) (splitSpecs : List SplitSpec)
  | setShapeTensorSingleSplitOnly (ref : Nat)
  | setShapeOrSizeTensorWith (ref rhs : Nat)
  | setSizeTensor (ref rhs : Nat)
  | setSizeTensorSpec (ref : Nat) (splitSpec : SplitSpec)

/-- The result of a rule: whether it changed a property, and all properties. -/
def Rule.run (rule : Rule) (heap : Heap) : Except Failure (Bool × Heap) :=
  match rule with
  | .dimGroup props group => inferWithDimGroup props group heap
  | .trySplitSingleOnly ref dim => Hsp.trySplitSingleOnly ref dim heap
  | .allInputsSingleSplitOnly props => inferWithAllInputsSingleSplitOnly props heap
  | .splitAt ref dim spec _ => onProp heap ref fun prop => prop.splitAt dim spec
  | .splitSingleAt ref dim => onProp heap ref fun prop => prop.splitSingleAt dim
  | .trySliceShape ref shape splitSpecs splitDims =>
    Hsp.trySliceShape ref shape splitSpecs splitDims heap
  | .setShapeTensor ref splitSpecs => onProp heap ref fun prop => prop.setShapeTensor splitSpecs
  | .setShapeTensorSingleSplitOnly ref =>
    onProp heap ref ShardingProperty.setShapeTensorSingleSplitOnly
  | .setShapeOrSizeTensorWith ref rhs => do
    let other ← readAt heap rhs
    onProp heap ref fun prop => prop.setShapeOrSizeTensorWith other
  | .setSizeTensor ref rhs => do
    let other ← readAt heap rhs
    onProp heap ref fun prop => .ok (prop.setSizeTensor other)
  | .setSizeTensorSpec ref splitSpec => onProp heap ref fun prop => .ok (prop.setSizeTensorSpec splitSpec)

/-- `doInfer`: rules one after the other. After each, the program may read its result and
all properties; `counted` says whether the result is or-ed into `changed`. -/
inductive DoInfer where
  | done
  | fail (failure : Failure)
  | apply (rule : Rule) (counted : Bool) (next : Bool → Heap → DoInfer)

def DoInfer.run : DoInfer → Heap → Except Failure (Bool × Heap)
  | .done, heap => .ok (false, heap)
  | .fail failure, _ => .error failure
  | .apply rule counted next, heap => do
    let (changed, heap) ← rule.run heap
    let (others, heap) ← (next changed heap).run heap
    return ((counted && changed) || others, heap)

/-- `HspInference::infer`. -/
def infer (doInfer : Heap → DoInfer) (props : OpProps) (heap : Heap) : Except Failure (Bool × Heap) := do
  let (changed, inferred) ← (doInfer heap).run heap
  let (aligned, heap) ← alignSingleSplitStageOffsets props inferred
  return (changed || aligned, heap)

end Itex.XpuAutoShard.Hsp
