import Itex.Graph.Types
import Itex.Lib.Fallible
import Itex.Lib.Gather

/-!
Contract: convolutions of images, and the exchange of blocks of space with the batch
(`itex/core/kernels/common/conv_ops.h`, `itex/core/utils/common_shape_fns.cc`, `padding.cc`,
`itex/core/kernels/gpu/spacetobatch_op.cc`, `batchtospace_op.cc`, `spacetobatch_functor_gpu.cc`).

Owns: when `Conv2D`, `SpaceToBatchND` and `BatchToSpaceND` of data in `NHWC` are defined, the
shapes of their outputs, and the positions that each output is gathered from.

Sizes do not overflow 64 bits, and the numbers of an attribute are in the range of its type.
-/

namespace Itex.Kernels

open Itex.Graph (Failure AttrValue NodeDef TensorProto require require_eq_ok)
open Itex.Lib

/-! ## Tensors -/

structure ImageShape where
  batch : Nat
  rows : Nat
  cols : Nat
  depth : Nat
deriving DecidableEq, Repr

structure Place where
  n : Nat
  row : Nat
  col : Nat
  channel : Nat
deriving DecidableEq, Repr

structure ImageShape.Has (shape : ImageShape) (place : Place) : Prop where
  n : place.n < shape.batch
  row : place.row < shape.rows
  col : place.col < shape.cols
  channel : place.channel < shape.depth

structure Images where
  shape : ImageShape
  entry : Place → Int

/-- The same tensor: entries outside the shape do not count. -/
def Images.Same (x y : Images) : Prop := x.shape = y.shape ∧ ∀ place, x.shape.Has place → x.entry place = y.entry place

structure FilterShape where
  rows : Nat
  cols : Nat
  inDepth : Nat
  outDepth : Nat
deriving DecidableEq, Repr

/-- A position in a filter, for one output channel. -/
structure Tap where
  row : Nat
  col : Nat
  channel : Nat
deriving DecidableEq, Repr

structure Filter where
  shape : FilterShape
  entry : Tap → Nat → Int

def FilterShape.taps (shape : FilterShape) : List Tap :=
  (List.range shape.rows).flatMap fun row => (List.range shape.cols).flatMap fun col =>
    (List.range shape.inDepth).map fun channel => ⟨row, col, channel⟩

theorem FilterShape.mem_taps {shape : FilterShape} {tap : Tap} :
    tap ∈ shape.taps ↔ tap.row < shape.rows ∧ tap.col < shape.cols ∧ tap.channel < shape.inDepth := by
  unfold taps
  simp only [List.mem_flatMap, List.mem_map, List.mem_range]
  grind

theorem FilterShape.nodup_taps (shape : FilterShape) : shape.taps.Nodup := by
  unfold taps
  rw [List.nodup_flatMap]
  constructor
  · intro row _
    rw [List.nodup_flatMap]
    constructor
    · intro col _
      exact List.nodup_range.map fun first second same => (Tap.mk.inj same).2.2
    · apply List.nodup_range.imp
      intro first second ne tap isFirst isSecond
      obtain ⟨_, _, rfl⟩ := List.mem_map.1 isFirst
      obtain ⟨_, _, same⟩ := List.mem_map.1 isSecond
      exact ne (Tap.mk.inj same).2.1.symm
  · apply List.nodup_range.imp
    intro first second ne tap isFirst isSecond
    grind

/-! ## Windows -/

inductive Padding where
  | valid
  | same
  | explicit
deriving DecidableEq, Repr

def getPaddingFromString (strValue : String) : Except Failure Padding :=
  if strValue = "SAME" then .ok .same
  else if strValue = "VALID" then .ok .valid
  else if strValue = "EXPLICIT" then .ok .explicit
  else .error (.status .other s!"{strValue} is not an allowed padding type")

/-- For four dims in the order `NHWC`. -/
def checkValidPadding (paddingType : Padding) (explicitPaddings : List Int) : Except Failure Unit :=
  if paddingType = .explicit then do
    require (explicitPaddings.length = 8) <| .status .invalidArgument <|
      s!"explicit_paddings attribute must contain 8 values, but got: {explicitPaddings.length}"
    require (∀ paddingValue ∈ explicitPaddings, 0 ≤ paddingValue) <|
      .status .invalidArgument "All elements of explicit_paddings must be nonnegative"
    require (explicitPaddings.take 2 = [0, 0] ∧ explicitPaddings.drop 6 = [0, 0]) <| .status .invalidArgument
      "Nonzero explicit padding in the batch or depth dimensions is not supported"
  else
    require (explicitPaddings = []) <| .status .invalidArgument
      "explicit_paddings attribute must be empty if the padding attribute is not EXPLICIT"

def getWindowedOutputSizeVerboseV2 (inputSize filterSize dilationRate stride : Int) (paddingType : Padding)
    (paddingBefore paddingAfter : Int) : Except Failure (Int × Int × Int) := do
  require (0 < stride) <| .status .invalidArgument s!"Stride must be > 0, but got {stride}"
  require (1 ≤ dilationRate) <| .status .invalidArgument s!"Dilation rate must be >= 1, but got {dilationRate}"
  let effectiveFilterSize := (filterSize - 1) * dilationRate + 1
  let result :=
    match paddingType with
    | .valid => ((inputSize - effectiveFilterSize + stride).tdiv stride, 0, 0)
    | .explicit =>
      ((inputSize + paddingBefore + paddingAfter - effectiveFilterSize + stride).tdiv stride, paddingBefore, paddingAfter)
    | .same =>
      let outputSize := (inputSize + stride - 1).tdiv stride
      let paddingNeeded := max 0 ((outputSize - 1) * stride + effectiveFilterSize - inputSize)
      -- For odd values of total padding, add more padding at the right side.
      (outputSize, paddingNeeded.tdiv 2, paddingNeeded - paddingNeeded.tdiv 2)
  require (0 ≤ result.1) <| .status .invalidArgument <|
    s!"Computed output size would be negative: {result.1} [input_size: {inputSize}, effective_filter_size: {effectiveFilterSize}, stride: {stride}]"
  return result

theorem getWindowedOutputSize_valid (inputSize filterSize dilationRate stride before after : Int) :
    getWindowedOutputSizeVerboseV2 inputSize filterSize dilationRate stride .valid before after =
      getWindowedOutputSizeVerboseV2 inputSize filterSize dilationRate stride .explicit 0 0 := by
  unfold getWindowedOutputSizeVerboseV2
  simp only [Int.add_zero]

def outputSize (inputSize filterSize dilationRate stride before after : Int) : Int :=
  (inputSize + before + after - ((filterSize - 1) * dilationRate + 1) + stride).tdiv stride

theorem getWindowedOutputSize_explicit {inputSize filterSize dilationRate stride before after : Int}
    {result : Int × Int × Int} :
    getWindowedOutputSizeVerboseV2 inputSize filterSize dilationRate stride .explicit before after = .ok result ↔
      0 < stride ∧ 1 ≤ dilationRate ∧ 0 ≤ outputSize inputSize filterSize dilationRate stride before after ∧
        result = (outputSize inputSize filterSize dilationRate stride before after, before, after) := by
  unfold getWindowedOutputSizeVerboseV2 outputSize
  simp only [bind_ok, require_eq_ok, exists_const]
  constructor
  · rintro ⟨strided, dilated, nonneg, isResult⟩
    exact ⟨strided, dilated, nonneg, (Except.ok.inj isResult).symm⟩
  · rintro ⟨strided, dilated, nonneg, isResult⟩
    exact ⟨strided, dilated, nonneg, by rw [isResult]; rfl⟩

/-! ## Convolutions -/

structure Conv2DAttrs where
  strideRows : Int
  strideCols : Int
  dilationRows : Int
  dilationCols : Int
  padding : Padding
  explicitPaddings : List Int
deriving DecidableEq, Repr

def getIntsAttr (node : NodeDef) (name : String) : Except Failure (List Int) :=
  match node.attr.lookup name with
  | some (.ints values) => .ok values
  | some (.list [] "") => .ok []
  | _ => .error (.crash "no list of integers")

def getStringAttr (node : NodeDef) (name : String) : Except Failure String :=
  match node.attr.lookup name with
  | some (.s value) => .ok value
  | _ => .error (.crash "no string")

def attrOr {α : Type} (read : NodeDef → String → Except Failure α) (node : NodeDef) (name : String) (default : α) :
    Except Failure α :=
  if name ∈ node.attr then read node name else .ok default

/-- The rows and columns of a list of four numbers, of which those for the batch and the channels are one. -/
def spatialAttr (values : List Int) (notSupported notFour notPositive : Failure) : Except Failure (Int × Int) := do
  match values with
  | [n, rows, cols, c] =>
    require (n = 1 ∧ c = 1) notSupported
    require (0 < rows ∧ 0 < cols) notPositive
    return (rows, cols)
  | _ => .error notFour

/-- The attributes, as the constructor of the kernel reads them. -/
def conv2DAttrs (node : NodeDef) : Except Failure Conv2DAttrs := do
  let strides ← getIntsAttr node "strides"
  let dilations ← getIntsAttr node "dilations"
  let dataFormat ← attrOr getStringAttr node "data_format" "NHWC"
  require (dataFormat = "NHWC") <| .status .other "Other formats are not modelled"
  let (strideRows, strideCols) ← spatialAttr strides
    (.status .other "Current implementation does not yet support strides in the batch and depth dimensions.")
    (.status .invalidArgument "Sliding window strides field must specify 4 dimensions")
    (.status .invalidArgument "Row and column strides should be larger than 0.")
  let (dilationRows, dilationCols) ← spatialAttr dilations
    (.status .invalidArgument "Current implementation does not yet support dilations in the batch and depth dimensions.")
    (.status .invalidArgument "Sliding window dilations field must specify 4 dimensions")
    (.status .invalidArgument "Dilated rates should be larger than 0.")
  let strValue ← getStringAttr node "padding"
  let padding ← getPaddingFromString strValue
  let explicitPaddings ← attrOr getIntsAttr node "explicit_paddings" []
  -- A debug check of the kernel: neither the op nor oneDNN is defined without it.
  checkValidPadding padding explicitPaddings
  return ⟨strideRows, strideCols, dilationRows, dilationCols, padding, explicitPaddings⟩

/-- One spatial dim of a convolution. -/
structure Window where
  stride : Nat
  dilation : Nat
  before : Nat
  outputSize : Nat
deriving DecidableEq, Repr

/-- What a tap of an output reads, in a dim of some extent. -/
def Window.position (window : Window) (extent output tap : Nat) : Option Nat :=
  unpadded window.before extent (output * window.stride + tap * window.dilation)

def windowOf (inputSize filterSize : Nat) (dilation stride : Int) (paddingType : Padding) (before after : Int) :
    Except Failure Window := do
  let (outputSize, before, _) ←
    getWindowedOutputSizeVerboseV2 inputSize filterSize dilation stride paddingType before after
  return ⟨stride.toNat, dilation.toNat, before.toNat, outputSize.toNat⟩

theorem windowOf_explicit {inputSize filterSize : Nat} {dilation stride before after : Int} {window : Window} :
    windowOf inputSize filterSize dilation stride .explicit before after = .ok window ↔
      0 < stride ∧ 1 ≤ dilation ∧ 0 ≤ outputSize inputSize filterSize dilation stride before after ∧
        window = ⟨stride.toNat, dilation.toNat, before.toNat,
          (outputSize inputSize filterSize dilation stride before after).toNat⟩ := by
  unfold windowOf
  rw [bind_ok]
  constructor
  · intro ⟨_, isSize, isWindow⟩
    obtain ⟨strided, dilated, nonneg, rfl⟩ := getWindowedOutputSize_explicit.1 isSize
    exact ⟨strided, dilated, nonneg, (Except.ok.inj isWindow).symm⟩
  · intro ⟨strided, dilated, nonneg, isWindow⟩
    exact ⟨_, getWindowedOutputSize_explicit.2 ⟨strided, dilated, nonneg, rfl⟩, by rw [isWindow]; rfl⟩

theorem windowOf_valid (inputSize filterSize : Nat) (dilation stride before after : Int) :
    windowOf inputSize filterSize dilation stride .valid before after =
      windowOf inputSize filterSize dilation stride .explicit 0 0 := by
  unfold windowOf
  rw [getWindowedOutputSize_valid]

structure Conv2DPlan where
  rows : Window
  cols : Window
  groups : Nat
deriving DecidableEq, Repr

/-- `InitFwdDimensions`. -/
def conv2DPlan (attrs : Conv2DAttrs) (x : ImageShape) (w : FilterShape) : Except Failure Conv2DPlan := do
  require (w.rows * w.cols * w.inDepth * w.outDepth ≠ 0) <| .status .invalidArgument
    "filter must not have zero elements (i.e. all dimensions must be non-zero)"
  require (x.depth % w.inDepth = 0) <| .status .invalidArgument
    s!"input depth must be evenly divisible by filter depth: {x.depth} vs {w.inDepth}"
  let groups := x.depth / w.inDepth
  -- Without input channels there is no group to divide by.
  require (0 < groups) <| .crash "division by zero"
  let paddingType := if attrs.explicitPaddings ≠ [] then .explicit else attrs.padding
  let rows ← windowOf x.rows w.rows attrs.dilationRows attrs.strideRows paddingType
    (attrs.explicitPaddings.getD 2 0) (attrs.explicitPaddings.getD 3 0)
  let cols ← windowOf x.cols w.cols attrs.dilationCols attrs.strideCols paddingType
    (attrs.explicitPaddings.getD 4 0) (attrs.explicitPaddings.getD 5 0)
  require (w.outDepth % groups = 0 ∧ groups ≤ w.outDepth) <| .status .invalidArgument
    s!"output depth must be evenly divisible by number of groups: {w.outDepth} vs {groups}"
  return ⟨rows, cols, groups⟩

structure Conv2DPlan.Of (plan : Conv2DPlan) (attrs : Conv2DAttrs) (x : ImageShape) (w : FilterShape) : Prop where
  filter : w.rows * w.cols * w.inDepth * w.outDepth ≠ 0
  divides : x.depth % w.inDepth = 0
  groups : plan.groups = x.depth / w.inDepth
  hasGroup : 0 < plan.groups
  rows : windowOf x.rows w.rows attrs.dilationRows attrs.strideRows
    (if attrs.explicitPaddings ≠ [] then .explicit else attrs.padding)
    (attrs.explicitPaddings.getD 2 0) (attrs.explicitPaddings.getD 3 0) = .ok plan.rows
  cols : windowOf x.cols w.cols attrs.dilationCols attrs.strideCols
    (if attrs.explicitPaddings ≠ [] then .explicit else attrs.padding)
    (attrs.explicitPaddings.getD 4 0) (attrs.explicitPaddings.getD 5 0) = .ok plan.cols
  outDepth : w.outDepth % plan.groups = 0 ∧ plan.groups ≤ w.outDepth

theorem conv2DPlan_eq_ok {attrs : Conv2DAttrs} {x : ImageShape} {w : FilterShape} {plan : Conv2DPlan} :
    conv2DPlan attrs x w = .ok plan ↔ plan.Of attrs x w := by
  unfold conv2DPlan
  simp only [bind_ok, require_eq_ok, exists_const]
  constructor
  · rintro ⟨filter, divides, hasGroup, rows, isRows, cols, isCols, outDepth, isPlan⟩
    cases isPlan
    exact ⟨filter, divides, rfl, hasGroup, isRows, isCols, outDepth⟩
  · intro of
    have outDepth := of.outDepth
    have hasGroup := of.hasGroup
    rw [of.groups] at outDepth hasGroup
    refine ⟨of.filter, of.divides, hasGroup, plan.rows, of.rows, plan.cols, of.cols, outDepth, ?_⟩
    rw [← of.groups]
    rfl

namespace Conv2DPlan

variable (plan : Conv2DPlan) (x : ImageShape) (w : FilterShape)

def outputShape : ImageShape := ⟨x.batch, plan.rows.outputSize, plan.cols.outputSize, w.outDepth⟩

/-- The input channel of a tap, in the group of an output channel. -/
def channel (output tap : Nat) : Nat := output / (w.outDepth / plan.groups) * w.inDepth + tap

/-- What a tap of an output reads. -/
def position (output : Place) (tap : Tap) : Option Place := do
  let row ← plan.rows.position x.rows output.row tap.row
  let col ← plan.cols.position x.cols output.col tap.col
  return ⟨output.n, row, col, plan.channel w output.channel tap.channel⟩

end Conv2DPlan

def conv2D (attrs : Conv2DAttrs) (x : Images) (w : Filter) : Except Failure Images := do
  let plan ← conv2DPlan attrs x.shape w.shape
  return {
    shape := plan.outputShape x.shape w.shape
    entry := fun output => gatherSum w.shape.taps (fun tap => w.entry tap output.channel)
      (plan.position x.shape w.shape output) x.entry }

/-! ## Blocks -/

/-- One dim of a block shape, with its paddings or crops. -/
structure BlockDim where
  block : Nat
  before : Nat
  after : Nat
deriving DecidableEq, Repr

structure Blocks where
  rows : BlockDim
  cols : BlockDim
  depth : BlockDim
deriving DecidableEq, Repr

def Blocks.product (blocks : Blocks) : Nat := blocks.rows.block * blocks.cols.block * blocks.depth.block

def blockDim (blockShape sides : TensorProto) (dim : Nat) : BlockDim :=
  if dim < blockShape.shape.headD 0 then
    ⟨(blockShape.ints.getD dim 0).toNat, (sides.ints.getD (2 * dim) 0).toNat, (sides.ints.getD (2 * dim + 1) 0).toNat⟩
  else ⟨1, 0, 0⟩

/-- The checks that both ops share, for an input of four dims. A size that is negative is a crash. -/
def blocksOf (blockShape sides : TensorProto) (notMatrix notPositive negative : Failure) : Except Failure Blocks := do
  require (blockShape.shape.length = 1) <| .status .invalidArgument
    s!"block_shape rank should be 1 instead of {blockShape.shape.length}"
  let blockDims := blockShape.shape.headD 0
  require (1 + blockDims ≤ 4) <| .status .invalidArgument s!"input rank should be >= {1 + blockDims} instead of 4"
  require (sides.shape = [blockDims, 2]) notMatrix
  require (0 < blockShape.ints.prod) notPositive
  require (∀ side ∈ sides.ints, 0 ≤ side) negative
  require (∀ block ∈ blockShape.ints, 0 < block) <| .crash "negative size"
  return ⟨blockDim blockShape sides 0, blockDim blockShape sides 1, blockDim blockShape sides 2⟩

structure Blocks.Of (blocks : Blocks) (blockShape sides : TensorProto) : Prop where
  dims : ∃ blockDims, blockDims ≤ 3 ∧ blockShape.shape = [blockDims] ∧ sides.shape = [blockDims, 2]
  nonneg : ∀ side ∈ sides.ints, 0 ≤ side
  positive : ∀ block ∈ blockShape.ints, 0 < block
  product : 0 < blockShape.ints.prod
  blocks : blocks = ⟨blockDim blockShape sides 0, blockDim blockShape sides 1, blockDim blockShape sides 2⟩

theorem blocksOf_eq_ok {blockShape sides : TensorProto} {notMatrix notPositive negative : Failure} {blocks : Blocks} :
    blocksOf blockShape sides notMatrix notPositive negative = .ok blocks ↔ blocks.Of blockShape sides := by
  unfold blocksOf
  simp only [bind_ok, require_eq_ok, exists_const]
  constructor
  · rintro ⟨isVector, rank, isMatrix, product, nonneg, positive, isBlocks⟩
    cases isBlocks
    obtain ⟨blockDims, isShape⟩ := List.length_eq_one_iff.1 isVector
    rw [isShape, List.headD_cons] at rank isMatrix
    exact ⟨⟨blockDims, by omega, isShape, isMatrix⟩, nonneg, positive, product, rfl⟩
  · intro of
    obtain ⟨blockDims, few, isShape, isMatrix⟩ := of.dims
    rw [of.blocks, isShape, List.headD_cons]
    exact ⟨rfl, by omega, isMatrix, of.product, of.nonneg, of.positive, rfl⟩

def BlockDim.blockedSize (dim : BlockDim) (inputSize : Nat) : Nat := (inputSize + dim.before + dim.after) / dim.block

def blockedSize (number : Nat) (dim : BlockDim) (inputSize : Nat) : Except Failure Nat := do
  let paddedSize := inputSize + dim.before + dim.after
  require (paddedSize % dim.block = 0) <| .status .invalidArgument
    s!"padded_shape[{number}]={paddedSize} is not divisible by block_shape[{number}]={dim.block}"
  return dim.blockedSize inputSize

def BlockDim.croppedSize (dim : BlockDim) (inputSize : Nat) : Nat := inputSize * dim.block - dim.before - dim.after

def croppedSize (number : Nat) (dim : BlockDim) (inputSize : Nat) : Except Failure Nat := do
  let croppedSize : Int := inputSize * dim.block - dim.before - dim.after
  require (0 ≤ croppedSize) <| .status .invalidArgument
    s!"cropped_shape[{number}]={croppedSize} must be non-negative"
  return dim.croppedSize inputSize

namespace Blocks

variable (blocks : Blocks)

/-- What an output of `SpaceToBatchND` reads: the offsets in the blocks are those of the batch, the
last dim first. -/
def spacePosition (x : ImageShape) (output : Place) : Option Place := do
  let remaining := output.n / x.batch
  let channel ← unpadded blocks.depth.before x.depth
    (output.channel * blocks.depth.block + remaining % blocks.depth.block)
  let remaining := remaining / blocks.depth.block
  let col ← unpadded blocks.cols.before x.cols (output.col * blocks.cols.block + remaining % blocks.cols.block)
  let remaining := remaining / blocks.cols.block
  let row ← unpadded blocks.rows.before x.rows (output.row * blocks.rows.block + remaining)
  return ⟨output.n % x.batch, row, col, channel⟩

/-- What an output of `BatchToSpaceND` reads. -/
def batchPlace (batch : Nat) (output : Place) : Place :=
  let row := output.row + blocks.rows.before
  let col := output.col + blocks.cols.before
  let channel := output.channel + blocks.depth.before
  let offset := (row % blocks.rows.block * blocks.cols.block + col % blocks.cols.block) * blocks.depth.block +
    channel % blocks.depth.block
  ⟨offset * batch + output.n, row / blocks.rows.block, col / blocks.cols.block, channel / blocks.depth.block⟩

end Blocks

def spaceToBatchShape (blockShape paddings : TensorProto) (x : ImageShape) : Except Failure (Blocks × ImageShape) := do
  let blocks ← blocksOf blockShape paddings
    (.status .invalidArgument s!"paddings should have shape [{blockShape.shape.headD 0}, 2] instead of {paddings.shape}")
    (.status .invalidArgument s!"Product of block sizes must be positive, got {blockShape.ints.prod}")
    (.status .invalidArgument "Paddings must be non-negative")
  let rows ← blockedSize 0 blocks.rows x.rows
  let cols ← blockedSize 1 blocks.cols x.cols
  let depth ← blockedSize 2 blocks.depth x.depth
  return (blocks, ⟨x.batch * blocks.product, rows, cols, depth⟩)

def spaceToBatchND (x : Images) (blockShape paddings : TensorProto) : Except Failure Images := do
  let (blocks, shape) ← spaceToBatchShape blockShape paddings x.shape
  return { shape := shape, entry := fun output => gathered x.entry (blocks.spacePosition x.shape output) }

def batchToSpaceShape (blockShape crops : TensorProto) (x : ImageShape) : Except Failure (Blocks × ImageShape) := do
  let blocks ← blocksOf blockShape crops
    (.status .invalidArgument s!"crops should have shape [{blockShape.shape.headD 0}, 2] instead of {crops.shape}")
    (.status .invalidArgument s!"Product of block sizes must be positive, got {blockShape.ints.prod}")
    (.status .invalidArgument "Crops must be non-negative")
  require (x.batch % blocks.product = 0) <| .status .invalidArgument
    s!"Input batch dimension ({x.batch}) is not divisible by product of block sizes ({blocks.product})"
  let rows ← croppedSize 0 blocks.rows x.rows
  let cols ← croppedSize 1 blocks.cols x.cols
  let depth ← croppedSize 2 blocks.depth x.depth
  return (blocks, ⟨x.batch / blocks.product, rows, cols, depth⟩)

def batchToSpaceND (x : Images) (blockShape crops : TensorProto) : Except Failure Images := do
  let (blocks, shape) ← batchToSpaceShape blockShape crops x.shape
  return { shape := shape, entry := fun output => x.entry (blocks.batchPlace shape.batch output) }

structure SpaceToBatch (blockShape paddings : TensorProto) (x : ImageShape) (blocks : Blocks) (shape : ImageShape) :
    Prop where
  of : blocks.Of blockShape paddings
  rows : (x.rows + blocks.rows.before + blocks.rows.after) % blocks.rows.block = 0
  cols : (x.cols + blocks.cols.before + blocks.cols.after) % blocks.cols.block = 0
  depth : (x.depth + blocks.depth.before + blocks.depth.after) % blocks.depth.block = 0
  shape : shape = ⟨x.batch * blocks.product, blocks.rows.blockedSize x.rows, blocks.cols.blockedSize x.cols,
    blocks.depth.blockedSize x.depth⟩

theorem spaceToBatchShape_eq_ok {blockShape paddings : TensorProto} {x shape : ImageShape} {blocks : Blocks} :
    spaceToBatchShape blockShape paddings x = .ok (blocks, shape) ↔ SpaceToBatch blockShape paddings x blocks shape := by
  unfold spaceToBatchShape blockedSize
  simp only [bind_ok, require_eq_ok, exists_const, blocksOf_eq_ok]
  constructor
  · rintro ⟨_, of, _, ⟨rows, isRows⟩, _, ⟨cols, isCols⟩, _, ⟨depth, isDepth⟩, isResult⟩
    cases isRows
    cases isCols
    cases isDepth
    cases isResult
    exact ⟨of, rows, cols, depth, rfl⟩
  · rintro ⟨of, rows, cols, depth, isShape⟩
    exact ⟨blocks, of, _, ⟨rows, rfl⟩, _, ⟨cols, rfl⟩, _, ⟨depth, rfl⟩, by rw [isShape]; rfl⟩

structure BatchToSpace (blockShape crops : TensorProto) (x : ImageShape) (blocks : Blocks) (shape : ImageShape) :
    Prop where
  of : blocks.Of blockShape crops
  batch : x.batch % blocks.product = 0
  rows : blocks.rows.before + blocks.rows.after ≤ x.rows * blocks.rows.block
  cols : blocks.cols.before + blocks.cols.after ≤ x.cols * blocks.cols.block
  depth : blocks.depth.before + blocks.depth.after ≤ x.depth * blocks.depth.block
  shape : shape = ⟨x.batch / blocks.product, blocks.rows.croppedSize x.rows, blocks.cols.croppedSize x.cols,
    blocks.depth.croppedSize x.depth⟩

theorem batchToSpaceShape_eq_ok {blockShape crops : TensorProto} {x shape : ImageShape} {blocks : Blocks} :
    batchToSpaceShape blockShape crops x = .ok (blocks, shape) ↔ BatchToSpace blockShape crops x blocks shape := by
  have nonneg : ∀ (dim : BlockDim) (size : Nat),
      (0 ≤ (size : Int) * dim.block - dim.before - dim.after) ↔ dim.before + dim.after ≤ size * dim.block := by
    intro dim size
    rw [← Int.natCast_mul]
    omega
  unfold batchToSpaceShape croppedSize
  simp only [bind_ok, require_eq_ok, exists_const, blocksOf_eq_ok, nonneg]
  constructor
  · rintro ⟨_, of, batch, _, ⟨rows, isRows⟩, _, ⟨cols, isCols⟩, _, ⟨depth, isDepth⟩, isResult⟩
    cases isRows
    cases isCols
    cases isDepth
    cases isResult
    exact ⟨of, batch, rows, cols, depth, rfl⟩
  · rintro ⟨of, batch, rows, cols, depth, isShape⟩
    exact ⟨blocks, of, batch, _, ⟨rows, rfl⟩, _, ⟨cols, rfl⟩, _, ⟨depth, rfl⟩, by rw [isShape]; rfl⟩

theorem Blocks.Of.blocks_pos {blocks : Blocks} {blockShape sides : TensorProto} (of : blocks.Of blockShape sides)
    (counted : blockShape.ints.length = blockShape.shape.prod) :
    0 < blocks.rows.block ∧ 0 < blocks.cols.block ∧ 0 < blocks.depth.block := by
  obtain ⟨blockDims, -, isShape, -⟩ := of.dims
  have each : ∀ dim, 0 < (blockDim blockShape sides dim).block := by
    intro dim
    unfold blockDim
    split
    next inside =>
      have isEntry : dim < blockShape.ints.length := by
        rw [isShape, List.headD_cons] at inside
        rw [counted, isShape, List.prod_singleton]
        exact inside
      rw [List.getD_eq_getElem _ _ isEntry]
      exact Int.pos_iff_toNat_pos.1 (of.positive _ (List.getElem_mem isEntry))
    next => exact Nat.one_pos
  rw [of.blocks]
  exact ⟨each 0, each 1, each 2⟩

theorem digits_of_lt {size head tail : Nat} (small : tail < size) :
    (head * size + tail) / size = head ∧ (head * size + tail) % size = tail :=
  (Nat.div_mod_unique (Nat.zero_lt_of_lt small)).2 ⟨by rw [Nat.mul_comm, Nat.add_comm], small⟩

theorem digits_lt {size head tail n : Nat} (below : head < n) (small : tail < size) : head * size + tail < n * size := by
  rw [← Nat.div_lt_iff_lt_mul (Nat.zero_lt_of_lt small), (digits_of_lt small).1]
  exact below

namespace Blocks

theorem spacePosition_batchPlace {space batch : Blocks} (rows : space.rows.block = batch.rows.block)
    (cols : space.cols.block = batch.cols.block) (depth : space.depth.block = batch.depth.block)
    (colsPositive : 0 < batch.cols.block) (depthPositive : 0 < batch.depth.block) {x : ImageShape} {output : Place}
    (inBatch : output.n < x.batch) (row col channel : Nat) :
    space.spacePosition x ⟨(batch.batchPlace x.batch output).n, (batch.batchPlace x.batch output).row + row,
        (batch.batchPlace x.batch output).col + col, (batch.batchPlace x.batch output).channel + channel⟩ = do
      let channel ← unpadded space.depth.before x.depth
        (output.channel + batch.depth.before + channel * batch.depth.block)
      let col ← unpadded space.cols.before x.cols (output.col + batch.cols.before + col * batch.cols.block)
      let row ← unpadded space.rows.before x.rows (output.row + batch.rows.before + row * batch.rows.block)
      return ⟨output.n, row, col, channel⟩ := by
  unfold spacePosition batchPlace
  dsimp only
  rw [(digits_of_lt inBatch).1, (digits_of_lt inBatch).2, rows, cols, depth,
    (digits_of_lt (Nat.mod_lt _ depthPositive)).1, (digits_of_lt (Nat.mod_lt _ depthPositive)).2,
    (digits_of_lt (Nat.mod_lt _ colsPositive)).1, (digits_of_lt (Nat.mod_lt _ colsPositive)).2, div_add_mul_add_mod,
    div_add_mul_add_mod, div_add_mul_add_mod]

variable {blocks : Blocks}

theorem spacePosition_of_has (colsPos : 0 < blocks.cols.block) (depthPos : 0 < blocks.depth.block) {x : ImageShape}
    {place : Place} (inside : x.Has place) : blocks.spacePosition x (blocks.batchPlace x.batch place) = some place := by
  refine (spacePosition_batchPlace rfl rfl rfl colsPos depthPos inside.n 0 0 0).trans ?_
  have own : ∀ {before extent p : Nat}, p < extent → unpadded before extent (p + before) = some p :=
    fun inside => unpadded_eq_some.2 ⟨inside, rfl⟩
  simp only [Nat.zero_mul, Nat.add_zero, own inside.row, own inside.col, own inside.channel]
  rfl

/-- No position of the batch tensor but that one goes to a place. -/
theorem batchPlace_of_spacePosition (colsPos : 0 < blocks.cols.block) (depthPos : 0 < blocks.depth.block)
    {x : ImageShape} {batched place : Place} (inBatch : batched.n < x.batch * blocks.product)
    (isPosition : blocks.spacePosition x batched = some place) :
    x.Has place ∧ blocks.batchPlace x.batch place = batched := by
  obtain ⟨channel, isChannel, isPosition⟩ := Option.bind_eq_some_iff.1 isPosition
  obtain ⟨col, isCol, isPosition⟩ := Option.bind_eq_some_iff.1 isPosition
  obtain ⟨row, isRow, isPosition⟩ := Option.bind_eq_some_iff.1 isPosition
  cases isPosition
  obtain ⟨channelInside, channelIs⟩ := unpadded_eq_some.1 isChannel
  obtain ⟨colInside, colIs⟩ := unpadded_eq_some.1 isCol
  obtain ⟨rowInside, rowIs⟩ := unpadded_eq_some.1 isRow
  have batchPos : 0 < x.batch := Nat.pos_of_mul_pos_right (Nat.zero_lt_of_lt inBatch)
  refine ⟨⟨Nat.mod_lt _ batchPos, rowInside, colInside, channelInside⟩, ?_⟩
  have rowSmall : batched.n / x.batch / blocks.depth.block / blocks.cols.block < blocks.rows.block := by
    rw [Nat.div_lt_iff_lt_mul colsPos, Nat.div_lt_iff_lt_mul depthPos, Nat.div_lt_iff_lt_mul batchPos, Nat.mul_comm]
    exact inBatch
  unfold batchPlace
  dsimp only
  rw [← rowIs, ← colIs, ← channelIs, (digits_of_lt rowSmall).1, (digits_of_lt rowSmall).2,
    (digits_of_lt (Nat.mod_lt _ colsPos)).1, (digits_of_lt (Nat.mod_lt _ colsPos)).2,
    (digits_of_lt (Nat.mod_lt _ depthPos)).1, (digits_of_lt (Nat.mod_lt _ depthPos)).2, Nat.div_add_mod',
    Nat.div_add_mod', Nat.div_add_mod']

end Blocks

/-- To each place of its output `BatchToSpaceND` writes the entry of exactly one position, and nothing elsewhere. -/
theorem batchToSpaceND_writes_once {x space : Images} {blockShape crops : TensorProto}
    (counted : blockShape.ints.length = blockShape.shape.prod) (ran : batchToSpaceND x blockShape crops = .ok space) :
    ∃ blocks : Blocks, blocks.Of blockShape crops ∧
      (∀ place, space.shape.Has place → ∃ batched, x.shape.Has batched ∧ space.entry place = x.entry batched ∧
        ∀ other, x.shape.Has other → (blocks.spacePosition space.shape other = some place ↔ other = batched)) ∧
      ∀ other place, x.shape.Has other → blocks.spacePosition space.shape other = some place → space.shape.Has place := by
  obtain ⟨⟨blocks, shape⟩, isShape, isSpace⟩ := bind_ok.1 ran
  cases isSpace
  have there := batchToSpaceShape_eq_ok.1 isShape
  obtain ⟨rowsPos, colsPos, depthPos⟩ := there.of.blocks_pos counted
  have whole : shape.batch * blocks.product = x.shape.batch := by
    rw [there.shape]
    exact Nat.div_mul_cancel (Nat.dvd_of_mod_eq_zero there.batch)
  have goes : ∀ other place, x.shape.Has other → blocks.spacePosition shape other = some place →
      shape.Has place ∧ blocks.batchPlace shape.batch place = other :=
    fun other place isOther => Blocks.batchPlace_of_spacePosition colsPos depthPos (whole ▸ isOther.n)
  refine ⟨blocks, there.of, ?_, fun other place isOther isPlace => (goes other place isOther isPlace).1⟩
  intro place inside
  have sizes : shape.Has place := inside
  rw [there.shape] at sizes
  have cropped : ∀ (dim : BlockDim) {size p : Nat}, 0 < dim.block → p < dim.croppedSize size →
      (p + dim.before) / dim.block < size := by
    intro dim size p pos below
    unfold BlockDim.croppedSize at below
    rw [Nat.div_lt_iff_lt_mul pos]
    omega
  refine ⟨blocks.batchPlace shape.batch place, ⟨?_, cropped _ rowsPos sizes.row, cropped _ colsPos sizes.col,
    cropped _ depthPos sizes.channel⟩, rfl, ?_⟩
  · rw [← whole, Nat.mul_comm]
    exact digits_lt (digits_lt (digits_lt (Nat.mod_lt _ rowsPos) (Nat.mod_lt _ colsPos)) (Nat.mod_lt _ depthPos)) inside.n
  · intro other isOther
    constructor
    · intro isPlace
      exact (goes other place isOther isPlace).2.symm
    · rintro rfl
      exact Blocks.spacePosition_of_has colsPos depthPos inside

/-- Blocks of two rows and two columns, and a column before the others. -/
def squareBlocks : TensorProto := ⟨.int32, [2], [], [2, 2]⟩

def columnBefore : TensorProto := ⟨.int32, [2, 2], [], [0, 0, 1, 0]⟩

theorem four_images_written_once : ∃ space blocks,
    batchToSpaceND ⟨⟨4, 1, 2, 1⟩, fun place => place.n⟩ squareBlocks columnBefore = .ok space ∧
    ∀ place, space.shape.Has place → ∃ batched, ∀ other : Place, ImageShape.Has ⟨4, 1, 2, 1⟩ other →
      (Blocks.spacePosition blocks space.shape other = some place ↔ other = batched) := by
  have ran : batchToSpaceND ⟨⟨4, 1, 2, 1⟩, fun place => place.n⟩ squareBlocks columnBefore = .ok _ := rfl
  obtain ⟨blocks, -, once, -⟩ := batchToSpaceND_writes_once (by decide) ran
  exact ⟨_, blocks, ran, fun place inside => (once place inside).imp fun _ only => only.2.2⟩

/-- `BatchToSpaceND` undoes `SpaceToBatchND`. -/
theorem batchToSpaceND_spaceToBatchND {x batched : Images} {blockShape paddings : TensorProto}
    (counted : blockShape.ints.length = blockShape.shape.prod)
    (ran : spaceToBatchND x blockShape paddings = .ok batched) :
    ∃ space, batchToSpaceND batched blockShape paddings = .ok space ∧ space.Same x := by
  obtain ⟨⟨blocks, shape⟩, isShape, isBatched⟩ := bind_ok.1 ran
  cases isBatched
  have there := spaceToBatchShape_eq_ok.1 isShape
  obtain ⟨rowsPos, colsPos, depthPos⟩ := there.of.blocks_pos counted
  have padded : ∀ (dim : BlockDim) (size : Nat), (size + dim.before + dim.after) % dim.block = 0 →
      dim.blockedSize size * dim.block = size + dim.before + dim.after :=
    fun dim size divides => Nat.div_mul_cancel (Nat.dvd_of_mod_eq_zero divides)
  have rows := padded _ _ there.rows
  have cols := padded _ _ there.cols
  have depth := padded _ _ there.depth
  have back : BatchToSpace blockShape paddings shape blocks x.shape := by
    rw [there.shape]
    refine ⟨there.of, Nat.mul_mod_left .., by dsimp only; omega, by dsimp only; omega, by dsimp only; omega, ?_⟩
    have product : 0 < blocks.product := Nat.mul_pos (Nat.mul_pos rowsPos colsPos) depthPos
    simp only [BlockDim.croppedSize, rows, cols, depth, Nat.mul_div_cancel _ product, Nat.add_assoc, Nat.sub_sub,
      Nat.add_sub_cancel]
  refine ⟨_, bind_ok.2 ⟨(blocks, x.shape), batchToSpaceShape_eq_ok.2 back, rfl⟩, rfl, ?_⟩
  intro place inside
  show gathered x.entry _ = x.entry place
  rw [Blocks.spacePosition_of_has colsPos depthPos inside]
  rfl

theorem three_columns_restored : ∃ batched space,
    spaceToBatchND ⟨⟨1, 2, 3, 1⟩, fun place => place.col⟩ squareBlocks columnBefore = .ok batched ∧
    batchToSpaceND batched squareBlocks columnBefore = .ok space ∧ space.Same ⟨⟨1, 2, 3, 1⟩, fun place => place.col⟩ := by
  have ran : spaceToBatchND ⟨⟨1, 2, 3, 1⟩, fun place => place.col⟩ squareBlocks columnBefore = .ok _ := rfl
  obtain ⟨space, done, same⟩ := batchToSpaceND_spaceToBatchND (by decide) ran
  exact ⟨_, space, ran, done, same⟩

end Itex.Kernels
