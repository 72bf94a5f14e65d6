import Itex.GraphUtils.Construction
import Itex.GraphUtils.Renumbering
import Itex.Kernels.StridedSlice
import Itex.Lib.Padding
import Itex.Remapper.Constants

/-!
Contract: the remap of the gradient of a strided slice to a padding
(`itex/core/graph/remapper/remapper.cc`).

Owns: `FindStridedSliceGrad`, the nodes that `AddStridedSliceGrad` builds, and that these give
the gradient.
-/

namespace Itex.Remapper

open Itex.Graph (DataType Failure AttrValue PortId TensorId AttrMap NodeDef GraphDef TensorProto)
open Itex.Kernels (StridedSliceSpec DimSpec SlicedDim validateStridedSliceOp intervalSize_one)
open Itex.Lib (bind_ok indices project padExtents padIndex of_guard)
open Itex.GraphUtils Itex.GraphUtils.MutableGraphView

structure StridedSliceGrad where
  stridedslicegrad : Nat
  dy : Nat
  dims : List Int
  beginValues : List Int
  endValues : List Int
  shrinks : List Nat
deriving DecidableEq, Repr

def isStridedSliceGrad (node : NodeDef) : Bool := node.op == "StridedSliceGrad"

/-- `GetNodeAttr` of an `int32`, which must not fail. -/
def getInt32Attr (node : NodeDef) (name : String) : Except Failure Int :=
  match node.attr.lookup name with
  | some (.i value) =>
    if -2 ^ 31 ≤ value ∧ value < 2 ^ 31 then .ok value else .error (.crash "out of range for an int32")
  | _ => .error (.crash "missing attribute")

def shapeIsWrong (lt rt : TensorProto) : Bool := !(isVector lt && numElements lt == numElements rt)

def initStridedSliceGradData (dtype : DataType) (inputShapeTensor beginTensor endTensor stridesTensor : TensorProto) :
    Except Failure (Option (List Int × List Int × List Int)) := do
  let inputShape ← flatInts inputShapeTensor dtype
  let beginValues ← flatInts beginTensor dtype
  let endValues ← flatInts endTensor dtype
  let strides ← flatInts stridesTensor dtype
  if strides.all (· == 1) && (inputShape.all fun size => decide (0 ≤ size)) then return some (inputShape, beginValues, endValues)
  else return none

/-- The bounds of one dim: none for a number that is out of range. -/
def canonicalBounds (shrinkI beginMasked endMasked : Bool) (dimI beginI endI : Int) : Option (Int × Int) :=
  let beginFwd := if beginI < 0 then dimI + beginI else beginI
  let endFwd := if endI < 0 then dimI + endI else endI
  -- When the slice index is just a number, the end is invalid.
  if shrinkI then
    if beginFwd < 0 ∨ dimI ≤ beginFwd then none else some (beginFwd, beginFwd + 1)
  else
    some (if beginMasked then 0 else if beginFwd < 0 then 0 else if dimI < beginFwd then dimI else beginFwd,
      if endMasked then dimI else if endFwd < 0 then 0 else if dimI < endFwd then dimI else endFwd)

def sliceBounds (shrinkI beginMasked endMasked : Bool) (dimI beginI endI : Int) : Option (Int × Int) := do
  let bounds ← canonicalBounds shrinkI beginMasked endMasked dimI beginI endI
  if bounds.2 ≤ bounds.1 then none else some bounds

def StridedSliceGrad.bounds (beginMask endMask shrinkAxisMask : Int) (dims beginValues endValues : List Int) :
    Option (List (Int × Int)) :=
  (List.range dims.length).mapM fun i =>
    sliceBounds (shrinkAxisMask.testBit i) (beginMask.testBit i) (endMask.testBit i) (dims.getD i 0)
      (beginValues.getD i 0) (endValues.getD i 0)

/-- An element written to a tensor of an index type. -/
def asIndexType (dtype : DataType) (value : Int) : Int := if dtype = .int32 then value.bmod (2 ^ 32) else value

/-- `dim_t`: a tensor of an index type, which has no other. -/
def indexTensor (dtype : DataType) (shape : List Nat) (values : List Int) : Except Failure TensorProto :=
  if dtype = .int32 ∨ dtype = .int64 then
    .ok { dtype := dtype, shape := shape, ints := values.map (asIndexType dtype) }
  else .error (.crash "unexpected dtype")

def asControlDependency (node : NodeDef) : TensorId := ⟨node.name, .controlSlot⟩

/-- A new constant that waits for `dy`. -/
def indexConst (name device : String) (dy : NodeDef) (dtype : DataType) (value : TensorProto) : NodeDef where
  name := name
  op := "Const"
  device := device
  input := [asControlDependency dy]
  attr := ((∅ : AttrMap).insert "dtype" (.type dtype)).insert "value" (.tensor value)

/-- The nodes that `AddStridedSliceGrad` adds: two for the reshape, if any dim is shrunk. -/
structure PadNodes where
  reshape : Option (NodeDef × NodeDef)
  paddings : NodeDef
  pad : NodeDef

namespace RemapperContext

variable (ctx : RemapperContext)

def findStridedSliceGrad (nodeIndex : Nat) : Except Failure (Option StridedSliceGrad) := do
  let nodeView ← fetch ctx.view.nodes nodeIndex
  let nodeDef ← ctx.nodeDef nodeView
  if !isStridedSliceGrad nodeDef || hasControlFanin nodeView then return none
  else if !hasDataType nodeDef .float && !hasDataType nodeDef .bfloat16 && !hasDataType nodeDef .half then return none
  else if nodeView.regularFanins.length != 5 then return none
  else
    let dy ← fetch nodeView.regularFanins 4
    let beginMask ← getInt32Attr nodeDef "begin_mask"
    let endMask ← getInt32Attr nodeDef "end_mask"
    let ellipsisMask ← getInt32Attr nodeDef "ellipsis_mask"
    let newAxisMask ← getInt32Attr nodeDef "new_axis_mask"
    let shrinkAxisMask ← getInt32Attr nodeDef "shrink_axis_mask"
    -- We do not consider the ellipsis axis and new axis case.
    if ellipsisMask ≠ 0 ∨ newAxisMask ≠ 0 then return none
    else
      let inputShapeDef ← ctx.faninDef nodeView 0
      let beginDef ← ctx.faninDef nodeView 1
      let endDef ← ctx.faninDef nodeView 2
      let stridesDef ← ctx.faninDef nodeView 3
      if !(isConstant inputShapeDef && isConstant beginDef && isConstant endDef && isConstant stridesDef) then return none
      else
        let inputShapeTensor ← getTensorFromConstant inputShapeDef
        let beginTensor ← getTensorFromConstant beginDef
        let endTensor ← getTensorFromConstant endDef
        let stridesTensor ← getTensorFromConstant stridesDef
        -- Using 32 bit masks.
        if !(isVector stridesTensor && decide (numElements stridesTensor < 32)) then return none
        else if shapeIsWrong inputShapeTensor stridesTensor || shapeIsWrong beginTensor stridesTensor ||
            shapeIsWrong endTensor stridesTensor then return none
        else if inputShapeTensor.dtype = .int32 ∨ inputShapeTensor.dtype = .int64 then
          let data ← initStridedSliceGradData inputShapeTensor.dtype inputShapeTensor beginTensor endTensor stridesTensor
          match data with
          | none => return none
          | some (dims, beginValues, endValues) =>
            match StridedSliceGrad.bounds beginMask endMask shrinkAxisMask dims beginValues endValues with
            | none => return none
            | some bounds =>
              if (dims.zip bounds).all fun (dimI, beginI, endI) => beginI == 0 && endI == dimI then return none
              else return some {
                stridedslicegrad := nodeIndex
                dy := dy.nodeIndex
                dims := dims
                beginValues := bounds.map Prod.fst
                endValues := bounds.map Prod.snd
                shrinks := (List.range dims.length).filter fun i => shrinkAxisMask.testBit i }
        else return none

/-- The nodes that `AddStridedSliceGrad` adds. -/
def padNodes (matched : StridedSliceGrad) : Except Failure PadNodes := do
  let stored ← fetch ctx.view.graph matched.stridedslicegrad
  let stridedslicegrad := stored.nodeDef
  let storedDy ← fetch ctx.view.graph matched.dy
  let dy := storedDy.nodeDef
  let index ← attrAt stridedslicegrad "Index"
  let shapeType := index.typeValue
  let gradient ← fetch stridedslicegrad.input 4
  let dtype ← attrAt stridedslicegrad "T"
  let dims := matched.dims.length
  let name := stridedslicegrad.name
  let device := stridedslicegrad.device
  let paddings ← indexTensor shapeType [dims, 2] <|
    (matched.beginValues.zip (matched.dims.zip matched.endValues)).flatMap fun (beginI, dimI, endI) =>
      [beginI, dimI - endI]
  let paddingsConst := indexConst (name ++ "/paddings") device dy shapeType paddings
  let pad (fanin : TensorId) : NodeDef := {
    name := name
    op := "Pad"
    device := device
    input := [fanin, ⟨paddingsConst.name, .port 0⟩]
    attr := ((∅ : AttrMap).insert "T" dtype).insert "Tpaddings" (.type shapeType) }
  if matched.shrinks.isEmpty then return ⟨none, paddingsConst, pad gradient⟩
  else
    -- If some dims are shrunk, we should reshape first to get dims of size one back.
    let sizes ← indexTensor shapeType [dims] <|
      (matched.beginValues.zip matched.endValues).map fun (beginI, endI) => endI - beginI
    let shape := indexConst (name ++ "/reshape/shape") device dy shapeType sizes
    let reshape : NodeDef := {
      name := name ++ "/reshape"
      op := "Reshape"
      device := device
      input := [gradient, ⟨shape.name, .port 0⟩]
      attr := ((∅ : AttrMap).insert "T" dtype).insert "Tshape" (.type shapeType) }
    return ⟨some (shape, reshape), paddingsConst, pad ⟨reshape.name, .port 0⟩⟩

end RemapperContext

section Values

variable {α : Type} [Zero α]

/-- `Reshape`, with all dims given. -/
def evalReshape (x : Lib.Tensor α) (shape : List Int) : Option (Lib.Tensor α) :=
  if (∀ size ∈ shape, 0 ≤ size) ∧ (shape.map Int.toNat).prod = x.extents.prod then
    some (x.reshape (shape.map Int.toNat))
  else none

def rowsOfTwo : List Int → List (Int × Int)
  | first :: second :: rest => (first, second) :: rowsOfTwo rest
  | _ => []

def evalPad (x : Lib.Tensor α) (paddings : List (Int × Int)) : Option (Lib.Tensor α) :=
  if paddings.length = x.extents.length ∧ ∀ padding ∈ paddings, 0 ≤ padding.1 ∧ 0 ≤ padding.2 then
    some (x.pad (paddings.map fun padding => (padding.1.toNat, padding.2.toNat)))
  else none

/-- The elements of a constant of an index type. -/
def constantInts (node : NodeDef) : List Int :=
  match getTensorFromConstant node with
  | .ok tensor => tensor.ints
  | .error _ => []

/-- What the padding reads. -/
def PadNodes.operand (nodes : PadNodes) (value : TensorId → Lib.Tensor α) (tensor : TensorId) :
    Option (Lib.Tensor α) :=
  match nodes.reshape with
  | none => some (value tensor)
  | some (shape, reshape) =>
    if tensor = ⟨reshape.name, .port 0⟩ then
      match reshape.input with
      | [x, sizes] => if sizes = ⟨shape.name, .port 0⟩ then evalReshape (value x) (constantInts shape) else none
      | _ => none
    else some (value tensor)

/-- What the readers of the gradient get from the new nodes. -/
def PadNodes.eval (nodes : PadNodes) (value : TensorId → Lib.Tensor α) : Option (Lib.Tensor α) :=
  match nodes.pad.input with
  | [x, paddings] =>
    if paddings = ⟨nodes.paddings.name, .port 0⟩ then do
      let operand ← nodes.operand value x
      evalPad operand (rowsOfTwo (constantInts nodes.paddings))
    else none
  | _ => none

def outputExtents (sliced : List SlicedDim) : List Nat :=
  (sliced.filter fun dim => !dim.shrinkI).map SlicedDim.sizeI

/-- The index that a slice takes to a position. -/
def selected : List SlicedDim → List Nat → List Int
  | [], _ => []
  | dim :: dims, position =>
    if dim.shrinkI then dim.beginI :: selected dims position
    else
      match position with
      | [] => []
      | k :: rest => (dim.beginI + k * dim.strideI) :: selected dims rest

/-- `dy` at the selected indices and zero elsewhere. -/
structure IsSliceGradient (extents : List Nat) (sliced : List SlicedDim) (dy result : Lib.Tensor α) : Prop where
  shape : result.extents = extents
  inside : ∀ position ∈ indices dy.extents, ∃ index ∈ indices extents,
    index.map Int.ofNat = selected sliced position ∧ result.entry index = dy.entry position
  outside : ∀ index ∈ indices extents,
    (∀ position ∈ indices dy.extents, selected sliced position ≠ index.map Int.ofNat) → result.entry index = 0

end Values

/-! ## One dim after the other -/

structure GradDim where
  dimI : Int
  beginI : Int
  endI : Int
  shrinkI : Bool

namespace GradDim

def sliced (dim : GradDim) : SlicedDim := ⟨dim.beginI, 1, (dim.endI - dim.beginI).toNat, dim.shrinkI⟩

def size (dim : GradDim) : Nat := (dim.endI - dim.beginI).toNat

def padding (dim : GradDim) : Nat × Nat := (dim.beginI.toNat, (dim.dimI - dim.endI).toNat)

structure Valid (dim : GradDim) : Prop where
  lower : 0 ≤ dim.beginI
  nonempty : dim.beginI < dim.endI
  upper : dim.endI ≤ dim.dimI
  single : dim.shrinkI = true → dim.endI = dim.beginI + 1

end GradDim

section Geometry

variable {dims : List GradDim}

theorem flagsOnes_of_valid (valid : ∀ dim ∈ dims, dim.Valid) :
    Lib.FlagsOnes (dims.map GradDim.shrinkI) (dims.map GradDim.size) := by
  unfold Lib.FlagsOnes
  rw [List.forall₂_map_left_iff, List.forall₂_map_right_iff, List.forall₂_same]
  intro dim mem shrunk
  have single := (valid dim mem).single shrunk
  unfold GradDim.size
  omega

theorem outputExtents_eq (dims : List GradDim) :
    outputExtents (dims.map GradDim.sliced) = project none (dims.map GradDim.shrinkI) (dims.map GradDim.size) := by
  induction dims with
  | nil => rfl
  | cons dim dims ih =>
    unfold outputExtents at ih ⊢
    rw [List.map_cons, List.map_cons, List.map_cons, List.filter_cons]
    change (List.map _ (if !dim.shrinkI then _ else _)) = _
    cases dim.shrinkI with
    | true => exact ih
    | false => exact congrArg (dim.size :: ·) ih

theorem padExtents_eq (valid : ∀ dim ∈ dims, dim.Valid) :
    padExtents (dims.map GradDim.padding) (dims.map GradDim.size) = dims.map fun dim => dim.dimI.toNat := by
  induction dims with
  | nil => rfl
  | cons dim dims ih =>
    have later := ih fun dim mem => valid dim (List.mem_cons_of_mem _ mem)
    have ofDim := valid dim List.mem_cons_self
    have atDim : dim.beginI.toNat + dim.size + (dim.dimI - dim.endI).toNat = dim.dimI.toNat := by
      have lower := ofDim.lower
      have nonempty := ofDim.nonempty
      have upper := ofDim.upper
      unfold GradDim.size
      omega
    rw [List.map_cons, List.map_cons, List.map_cons, ← later, ← atDim]
    rfl

/-- The padding puts an entry where the slice took it from. -/
theorem selected_project (valid : ∀ dim ∈ dims, dim.Valid) {index : List Nat}
    (mem : index ∈ indices (dims.map GradDim.size)) :
    selected (dims.map GradDim.sliced) (project none (dims.map GradDim.shrinkI) index) =
      (padIndex (dims.map GradDim.padding) index).map Int.ofNat := by
  induction dims generalizing index with
  | nil => rfl
  | cons dim dims ih =>
    obtain ⟨k, rest, rfl, bound, isRest⟩ := Lib.mem_indices_cons.1 mem
    have later := ih (fun dim mem => valid dim (List.mem_cons_of_mem _ mem)) isRest
    have ofDim := valid dim List.mem_cons_self
    have lower := ofDim.lower
    rw [List.map_cons, List.map_cons, List.map_cons, padIndex, List.map_cons, ← later]
    change (if dim.shrinkI then _ else _) = _
    cases shrunk : dim.shrinkI with
    | true =>
      have single := ofDim.single shrunk
      have isZero : dim.beginI = Int.ofNat (dim.beginI.toNat + k) := by
        unfold GradDim.size at bound
        rw [Int.ofNat_eq_natCast]
        omega
      rw [if_pos rfl]
      exact congrArg (· :: _) isZero
    | false =>
      have atDim : dim.beginI + k * 1 = Int.ofNat (dim.beginI.toNat + k) := by
        rw [Int.ofNat_eq_natCast]
        omega
      rw [if_neg Bool.false_ne_true]
      exact congrArg (· :: _) atDim

variable {α : Type} [Zero α]

theorem isSliceGradient_pad (valid : ∀ dim ∈ dims, dim.Valid) {x dy : Lib.Tensor α}
    (xExtents : x.extents = dims.map GradDim.size)
    (dyExtents : dy.extents = project none (dims.map GradDim.shrinkI) (dims.map GradDim.size))
    (sameEntries : ∀ index ∈ indices x.extents, x.entry index = dy.entry (project none (dims.map GradDim.shrinkI) index)) :
    IsSliceGradient (dims.map fun dim => dim.dimI.toNat) (dims.map GradDim.sliced) dy
      (x.pad (dims.map GradDim.padding)) := by
  have sameLength : (dims.map GradDim.padding).length = x.extents.length := by
    rw [xExtents, List.length_map, List.length_map]
  have isShape : padExtents (dims.map GradDim.padding) x.extents = dims.map fun dim => dim.dimI.toNat := by
    rw [xExtents, padExtents_eq valid]
  constructor
  · exact isShape
  · intro position isPosition
    rw [dyExtents] at isPosition
    obtain ⟨index, mem, rfl⟩ := (flagsOnes_of_valid valid).exists_project isPosition
    have isSelected := selected_project valid mem
    rw [← xExtents] at mem
    refine ⟨_, ?_, isSelected.symm, ?_⟩
    · rw [← isShape]
      exact Lib.padIndex_mem sameLength mem
    · rw [Lib.Tensor.pad_entry_inside sameLength mem, sameEntries index mem]
  · intro index isIndex outside
    have sameRank := Lib.length_of_mem_indices isIndex
    rw [← isShape, Lib.length_padExtents sameLength] at sameRank
    apply Lib.Tensor.pad_entry_outside sameLength sameRank
    intro inner mem same
    have isInner := mem
    rw [xExtents] at isInner
    apply outside _ _ ((selected_project valid isInner).trans (congrArg (List.map Int.ofNat) same))
    rw [dyExtents]
    exact Lib.Tensor.project_mem_indices false isInner

end Geometry

/-! ## Bounds -/

theorem sliceBounds_eq_some {shrinkI beginMasked endMasked : Bool} {dimI beginI endI : Int} {bounds : Int × Int}
    (known : 0 ≤ dimI) (found : sliceBounds shrinkI beginMasked endMasked dimI beginI endI = some bounds) :
    (⟨dimI, bounds.1, bounds.2, shrinkI⟩ : GradDim).Valid ∧
      ∀ i, DimSpec.validate ⟨beginI, endI, 1, beginMasked, endMasked, shrinkI⟩ i dimI =
        .ok (GradDim.sliced ⟨dimI, bounds.1, bounds.2, shrinkI⟩) := by
  obtain ⟨bounds', isBounds, found⟩ := Option.bind_eq_some_iff.1 found
  split at found
  · cases found
  next nonempty =>
    cases found
    rw [not_le] at nonempty
    unfold canonicalBounds at isBounds
    dsimp only at isBounds
    cases shrinkI with
    | true =>
      simp only [DimSpec.validate, one_ne_zero, if_false, Bool.true_and, decide_eq_true_eq, if_true, intervalSize_one]
      rw [if_pos rfl] at isBounds
      generalize (if beginI < 0 then dimI + beginI else beginI) = beginFwd at isBounds ⊢
      by_cases outside : beginFwd < 0 ∨ dimI ≤ beginFwd
      · rw [if_pos outside] at isBounds
        cases isBounds
      · rw [if_neg outside] at isBounds
        cases isBounds
        rw [not_or, not_lt, not_le] at outside
        refine ⟨⟨outside.1, nonempty, by dsimp only; omega, fun _ => rfl⟩, ?_⟩
        intro i
        rw [if_neg (by omega), if_neg (by omega)]
        rfl
    | false =>
      rw [if_neg Bool.false_ne_true, Option.some.injEq] at isBounds
      have isBegin : DimSpec.canonicalBegin ⟨beginI, endI, 1, beginMasked, endMasked, false⟩ dimI = bounds.1 :=
        congrArg Prod.fst isBounds
      have isEnd : DimSpec.canonicalEnd ⟨beginI, endI, 1, beginMasked, endMasked, false⟩ dimI = bounds.2 :=
        congrArg Prod.snd isBounds
      have inside : 0 ≤ bounds.1 ∧ bounds.2 ≤ dimI := by
        rw [← isBounds]
        constructor <;> grind
      refine ⟨⟨inside.1, nonempty, inside.2, fun shrunk => by cases shrunk⟩, ?_⟩
      intro i
      simp only [DimSpec.validate, one_ne_zero, if_false, Bool.false_and, Bool.false_eq_true]
      rw [isBegin, isEnd, intervalSize_one]
      rfl

def gradDims (shrinkAxisMask : Int) (dims : List Int) (bounds : List (Int × Int)) : List GradDim :=
  (List.range dims.length).map fun i =>
    ⟨dims.getD i 0, (bounds.getD i (0, 0)).1, (bounds.getD i (0, 0)).2, shrinkAxisMask.testBit i⟩

section Bounds

variable {beginMask endMask shrinkAxisMask : Int} {dims beginValues endValues strides : List Int}
  {bounds : List (Int × Int)}

theorem map_gradDims {β γ : Type} {default : β} {l : List β} (sameLength : l.length = dims.length) {f : GradDim → γ}
    {g : β → γ} (same : ∀ i, i < dims.length → f ⟨dims.getD i 0, (bounds.getD i (0, 0)).1, (bounds.getD i (0, 0)).2,
      shrinkAxisMask.testBit i⟩ = g (l.getD i default)) : (gradDims shrinkAxisMask dims bounds).map f = l.map g := by
  apply List.ext_getElem
  · rw [List.length_map, List.length_map, gradDims, List.length_map, List.length_range, sameLength]
  · intro i _ inside
    rw [List.length_map] at inside
    simp only [gradDims, List.getElem_map, List.getElem_range]
    rw [same i (by omega), List.getD_eq_getElem l default inside]

variable (found : StridedSliceGrad.bounds beginMask endMask shrinkAxisMask dims beginValues endValues = some bounds)

include found

theorem length_bounds : bounds.length = dims.length := by
  have sameLength := (Lib.mapM_eq_some.1 found).length_eq
  rw [List.length_range] at sameLength
  exact sameLength.symm

theorem bounds_at {i : Nat} (inside : i < dims.length) :
    sliceBounds (shrinkAxisMask.testBit i) (beginMask.testBit i) (endMask.testBit i) (dims.getD i 0)
      (beginValues.getD i 0) (endValues.getD i 0) = some (bounds.getD i (0, 0)) := by
  have inBounds : i < bounds.length := by rwa [length_bounds found]
  have atI := (Lib.mapM_eq_some.1 found).get (by rwa [List.length_range]) inBounds
  rw [List.get_eq_getElem, List.get_eq_getElem, List.getElem_range] at atI
  rw [atI, List.getD_eq_getElem bounds (0, 0) inBounds]

theorem gradDims_valid (known : ∀ size ∈ dims, 0 ≤ size) : ∀ dim ∈ gradDims shrinkAxisMask dims bounds, dim.Valid := by
  intro dim mem
  obtain ⟨i, inRange, rfl⟩ := List.mem_map.1 mem
  rw [List.mem_range] at inRange
  have known := known _ (List.getElem_mem inRange)
  rw [← List.getD_eq_getElem dims 0 inRange] at known
  exact (sliceBounds_eq_some known (bounds_at found inRange)).1

/-- What the slice takes, by its own rules. -/
theorem validate_gradDims (known : ∀ size ∈ dims, 0 ≤ size) (ones : ∀ stride ∈ strides, stride = 1)
    (lengths : beginValues.length = strides.length ∧ endValues.length = strides.length ∧
      dims.length = strides.length ∧ strides.length < 32) :
    validateStridedSliceOp ⟨beginValues, endValues, strides, beginMask, endMask, shrinkAxisMask⟩ dims =
      .ok ((gradDims shrinkAxisMask dims bounds).map GradDim.sliced) := by
  unfold validateStridedSliceOp
  dsimp only
  rw [if_neg (by omega)]
  unfold Kernels.buildDenseSpec
  dsimp only
  rw [if_neg (by omega)]
  change Kernels.validateDims _ dims = _
  unfold Kernels.validateDims
  rw [Lib.mapM_eq_ok, List.forall₂_iff_get]
  constructor
  · simp [gradDims]
    omega
  · intro i _ inside
    rw [List.length_map, gradDims, List.length_map, List.length_range] at inside
    have known := known _ (List.getElem_mem inside)
    have isOne := ones _ (List.getElem_mem (show i < strides.length by omega))
    have atDim := List.getD_eq_getElem dims 0 inside
    rw [← atDim] at known
    have validates := (sliceBounds_eq_some known (bounds_at found inside)).2 i
    have isSpec : StridedSliceSpec.dimSpec ⟨beginValues, endValues, strides, beginMask, endMask, shrinkAxisMask⟩ i =
        ⟨beginValues.getD i 0, endValues.getD i 0, 1, beginMask.testBit i, endMask.testBit i,
          shrinkAxisMask.testBit i⟩ := by
      unfold StridedSliceSpec.dimSpec
      rw [List.getD_eq_getElem strides 0 (by omega), isOne]
    rw [← isSpec, atDim] at validates
    rw [List.get_eq_getElem, List.get_eq_getElem, List.getElem_zipIdx, List.getElem_zip,
      List.getElem_append_left (by rw [List.length_map, List.length_range]; dsimp only; omega),
      List.getElem_map, List.getElem_range, List.getElem_map]
    simp only [gradDims, List.getElem_map, List.getElem_range, Nat.zero_add]
    rw [atDim]
    exact validates

end Bounds

/-! ## The match -/

def maskOf (node : NodeDef) (name : String) : Int :=
  match node.attr.lookup name with
  | some (.i value) => value
  | _ => 0

theorem getInt32Attr_eq_ok {node : NodeDef} {name : String} {value : Int}
    (ran : getInt32Attr node name = .ok value) : maskOf node name = value := by
  unfold getInt32Attr at ran
  unfold maskOf
  split at ran
  next isInt =>
    split at ran
    · exact Except.ok.inj ran
    · cases ran
  next => cases ran

/-- The numbers of a type: those of an `int32` have 32 bits. -/
def Representable (dtype : DataType) (value : Int) : Prop :=
  dtype = .int32 → -2 ^ 31 ≤ value ∧ value < 2 ^ 31

/-- A tensor that is the output of a constant of an index type. -/
def ReadsInts (view : MutableGraphView) (dtype : DataType) (tensor : TensorId) (values : List Int) : Prop :=
  ∃ p def_ proto, view.nodeDef? p = some def_ ∧ tensor = ⟨def_.name, .port 0⟩ ∧
    getTensorFromConstant def_ = .ok proto ∧ proto.dtype = dtype ∧ proto.ints = values ∧
    numElements proto = values.length ∧ ∀ value ∈ values, Representable dtype value

/-- A gradient of a slice by constants. -/
structure GradientOf (ctx : RemapperContext) (i : Nat) (node : NodeDef) (dtype : DataType)
    (inputShape beginValues endValues strides : List Int) (dy : TensorId) : Prop where
  atNode : ctx.view.nodeDef? i = some node
  /-- `StridedSliceGrad` declares an index type. -/
  index : node.attr.lookup "Index" = some (.type dtype)
  inputs : ∃ shape begins ends steps others, node.input = shape :: begins :: ends :: steps :: dy :: others ∧
    ReadsInts ctx.view dtype shape inputShape ∧ ReadsInts ctx.view dtype begins beginValues ∧
    ReadsInts ctx.view dtype ends endValues ∧ ReadsInts ctx.view dtype steps strides

def sliceSpec (node : NodeDef) (beginValues endValues strides : List Int) : StridedSliceSpec :=
  ⟨beginValues, endValues, strides, maskOf node "begin_mask", maskOf node "end_mask", maskOf node "shrink_axis_mask"⟩

structure GradientTest (ctx : RemapperContext) (i : Nat) (node : NodeDef) (dtype : DataType)
    (inputShape beginValues endValues strides : List Int) (matched : StridedSliceGrad)
    (bounds : List (Int × Int)) : Prop where
  isMatch : matched = {
    stridedslicegrad := i
    dy := matched.dy
    dims := inputShape
    beginValues := bounds.map Prod.fst
    endValues := bounds.map Prod.snd
    shrinks := (List.range inputShape.length).filter fun k => (maskOf node "shrink_axis_mask").testBit k }
  dy : ∃ dyDef, ctx.view.nodeDef? matched.dy = some dyDef
  typed : ∃ value, node.attr.lookup "T" = some value
  indexType : dtype = .int32 ∨ dtype = .int64
  masks : maskOf node "ellipsis_mask" = 0 ∧ maskOf node "new_axis_mask" = 0
  lengths : beginValues.length = strides.length ∧ endValues.length = strides.length ∧
    inputShape.length = strides.length ∧ strides.length < 32
  known : ∀ size ∈ inputShape, 0 ≤ size
  ones : ∀ stride ∈ strides, stride = 1
  isBounds : StridedSliceGrad.bounds (maskOf node "begin_mask") (maskOf node "end_mask")
    (maskOf node "shrink_axis_mask") inputShape beginValues endValues = some bounds

section Match

open RemapperContext

variable {ctx : RemapperContext} {i : Nat} {node : NodeDef} {dtype : DataType}
  {inputShape beginValues endValues strides : List Int} {dy : TensorId}

theorem typed_of_hasType
    (hasType : ¬ (!hasDataType node .float && !hasDataType node .bfloat16 && !hasDataType node .half) = true) :
    ∃ value, node.attr.lookup "T" = some value := by
  cases isType : node.attr.lookup "T" with
  | some value => exact ⟨value, rfl⟩
  | none =>
    unfold hasDataType at hasType
    rw [isType] at hasType
    exact absurd rfl hasType

theorem shapeIsWrong_eq_false {lt rt : TensorProto} (right : ¬ shapeIsWrong lt rt = true) :
    numElements lt = numElements rt := by
  unfold shapeIsWrong at right
  simp only [Bool.not_eq_true', Bool.not_eq_false, Bool.and_eq_true, beq_iff_eq] at right
  exact right.2

theorem initStridedSliceGradData_eq_some {inputShapeTensor beginTensor endTensor stridesTensor : TensorProto}
    {dims begins ends : List Int}
    (found : initStridedSliceGradData dtype inputShapeTensor beginTensor endTensor stridesTensor =
      .ok (some (dims, begins, ends))) :
    (∀ stride ∈ stridesTensor.ints, stride = 1) ∧ (∀ size ∈ inputShapeTensor.ints, 0 ≤ size) ∧
      inputShapeTensor.ints = dims ∧ beginTensor.ints = begins ∧ endTensor.ints = ends := by
  have read : ∀ {tensor : TensorProto} {ints : List Int}, flatInts tensor dtype = .ok ints → tensor.ints = ints := by
    intro tensor ints isInts
    unfold flatInts at isInts
    obtain ⟨-, isInts⟩ := of_guard isInts
    exact Except.ok.inj isInts
  obtain ⟨inputShape, isShape, found⟩ := bind_ok.1 found
  obtain ⟨beginValues, isBegin, found⟩ := bind_ok.1 found
  obtain ⟨endValues, isEnd, found⟩ := bind_ok.1 found
  obtain ⟨strides, isStrides, found⟩ := bind_ok.1 found
  split at found
  next tested =>
    cases found
    grind
  next => cases found

theorem faninDef_reads (navigable : ctx.view.Navigable) {nodeView : MutableNodeView} {constDef : NodeDef} {k : Nat}
    {tensor : TensorId} {values : List Int} {proto : TensorProto} (atView : ctx.view.nodes[i]? = some nodeView)
    (atNode : ctx.view.nodeDef? i = some node) (isInput : node.input[k]? = some tensor)
    (reads : ReadsInts ctx.view dtype tensor values) (ran : ctx.faninDef nodeView k = .ok constDef)
    (isTensor : getTensorFromConstant constDef = .ok proto) :
    proto.dtype = dtype ∧ proto.ints = values ∧ numElements proto = values.length := by
  obtain ⟨p, def_, proto', atP, isOutput, isProto, isType, isInts, isCount, -⟩ := reads
  rw [isOutput] at isInput
  rw [faninDef_eq navigable atView atNode isInput atP ran, isProto] at isTensor
  cases isTensor
  exact ⟨isType, isInts, isCount⟩

theorem findStridedSliceGrad_eq_some (navigable : ctx.view.Navigable)
    (of : GradientOf ctx i node dtype inputShape beginValues endValues strides dy) {matched : StridedSliceGrad}
    (found : ctx.findStridedSliceGrad i = .ok (some matched)) :
    ∃ bounds, GradientTest ctx i node dtype inputShape beginValues endValues strides matched bounds := by
  unfold findStridedSliceGrad at found
  obtain ⟨nodeView, atView, found⟩ := bind_ok.1 found
  obtain ⟨def_, atDef, found⟩ := bind_ok.1 found
  obtain ⟨atView, atDef⟩ := nodeDef?_of_fetch navigable.indexed atView atDef
  rw [of.atNode] at atDef
  cases atDef
  split at found
  · cases found
  obtain ⟨hasType, found⟩ := of_guard found
  split at found
  · cases found
  obtain ⟨dyFanin, atDy, found⟩ := bind_ok.1 found
  obtain ⟨beginMask, isBeginMask, found⟩ := bind_ok.1 found
  obtain ⟨endMask, isEndMask, found⟩ := bind_ok.1 found
  obtain ⟨ellipsisMask, isEllipsisMask, found⟩ := bind_ok.1 found
  obtain ⟨newAxisMask, isNewAxisMask, found⟩ := bind_ok.1 found
  obtain ⟨shrinkAxisMask, isShrinkAxisMask, found⟩ := bind_ok.1 found
  rw [← getInt32Attr_eq_ok isBeginMask, ← getInt32Attr_eq_ok isEndMask, ← getInt32Attr_eq_ok isEllipsisMask,
    ← getInt32Attr_eq_ok isNewAxisMask, ← getInt32Attr_eq_ok isShrinkAxisMask] at found
  obtain ⟨noMask, found⟩ := of_guard found
  obtain ⟨inputShapeDef, atShape, found⟩ := bind_ok.1 found
  obtain ⟨beginDef, atBegin, found⟩ := bind_ok.1 found
  obtain ⟨endDef, atEnd, found⟩ := bind_ok.1 found
  obtain ⟨stridesDef, atStrides, found⟩ := bind_ok.1 found
  split at found
  · cases found
  obtain ⟨inputShapeTensor, isShape, found⟩ := bind_ok.1 found
  obtain ⟨beginTensor, isBegin, found⟩ := bind_ok.1 found
  obtain ⟨endTensor, isEnd, found⟩ := bind_ok.1 found
  obtain ⟨stridesTensor, isStrides, found⟩ := bind_ok.1 found
  obtain ⟨shape, begins, ends, steps, others, isInput, readsShape, readsBegin, readsEnd, readsStrides⟩ := of.inputs
  have atInput : ∀ k : Nat, node.input[k]? = (shape :: begins :: ends :: steps :: dy :: others)[k]? := fun k => by rw [isInput]
  obtain ⟨shapeType, shapeInts, shapeCount⟩ := faninDef_reads navigable atView of.atNode (atInput 0) readsShape atShape isShape
  obtain ⟨_, beginInts, beginCount⟩ := faninDef_reads navigable atView of.atNode (atInput 1) readsBegin atBegin isBegin
  obtain ⟨_, endInts, endCount⟩ := faninDef_reads navigable atView of.atNode (atInput 2) readsEnd atEnd isEnd
  obtain ⟨_, stridesInts, stridesCount⟩ :=
    faninDef_reads navigable atView of.atNode (atInput 3) readsStrides atStrides isStrides
  obtain ⟨fewDims, found⟩ := of_guard found
  obtain ⟨sameCounts, found⟩ := of_guard found
  split at found
  next indexType =>
    obtain ⟨data, isData, found⟩ := bind_ok.1 found
    cases data with
    | none => cases found
    | some data =>
      obtain ⟨dims, begins, ends⟩ := data
      obtain ⟨ones, known, rfl, rfl, rfl⟩ := initStridedSliceGradData_eq_some isData
      dsimp only at found
      split at found
      · cases found
      next bounds isBounds =>
      split at found
      · cases found
      cases found
      rw [shapeInts] at known isBounds ⊢
      rw [beginInts, endInts] at isBounds
      rw [stridesInts] at ones
      simp only [Bool.not_eq_true', Bool.not_eq_false, Bool.and_eq_true, decide_eq_true_eq] at fewDims
      rw [Bool.or_eq_true, Bool.or_eq_true, not_or, not_or] at sameCounts
      have sameShape := shapeIsWrong_eq_false sameCounts.1.1
      have sameBegin := shapeIsWrong_eq_false sameCounts.1.2
      have sameEnd := shapeIsWrong_eq_false sameCounts.2
      rw [not_or, not_not, not_not] at noMask
      exact ⟨bounds,
        { isMatch := rfl
          dy := navigable.nodeDef_of_fanin (fanin_of_getElem? atView (fetch_eq_ok.1 atDy))
          typed := typed_of_hasType hasType
          indexType := by rwa [← shapeType]
          masks := noMask
          lengths := by omega
          known := known
          ones := ones
          isBounds := isBounds }⟩
  next => cases found

theorem constantInts_indexConst (name device : String) (dyDef : NodeDef) (value : TensorProto) :
    constantInts (indexConst name device dyDef dtype value) = value.ints := by
  have isValue : getTensorFromConstant (indexConst name device dyDef dtype value) = .ok value := by
    unfold getTensorFromConstant attrAt indexConst
    dsimp only
    rw [AList.lookup_insert]
    rfl
  unfold constantInts
  rw [isValue]

/-- A number between zero and one that is representable. -/
theorem asIndexType_eq {value bound : Int} (representable : Representable dtype bound) (lower : 0 ≤ value)
    (upper : value ≤ bound) : asIndexType dtype value = value := by
  unfold asIndexType
  split
  next is32 =>
    have below := (representable is32).2
    exact Int.bmod_eq_of_le (by omega) (by omega)
  next => rfl

theorem gradDims_lists {shrinkAxisMask : Int} {dims : List Int} {bounds : List (Int × Int)}
    (sameLength : bounds.length = dims.length) : (gradDims shrinkAxisMask dims bounds).map GradDim.dimI = dims ∧
      (gradDims shrinkAxisMask dims bounds).map GradDim.beginI = bounds.map Prod.fst ∧
      (gradDims shrinkAxisMask dims bounds).map GradDim.endI = bounds.map Prod.snd := by
  refine ⟨?_, ?_, ?_⟩
  · have same := @map_gradDims shrinkAxisMask dims bounds Int Int 0 dims rfl GradDim.dimI id fun _ _ => rfl
    rwa [List.map_id] at same
  · exact map_gradDims sameLength fun i _ => rfl
  · exact map_gradDims sameLength fun i _ => rfl

theorem rowsOfTwo_flatMap {β : Type} (l : List β) (f g : β → Int) :
    rowsOfTwo (l.flatMap fun b => [f b, g b]) = l.map fun b => (f b, g b) := by
  induction l with
  | nil => rfl
  | cons b l ih =>
    rw [List.flatMap_cons, List.map_cons, ← ih]
    rfl

/-- What the new nodes read: the paddings of all dims, and `dy` or its reshape to their sizes. -/
structure PadNodes.Of (nodes : PadNodes) (dims : List GradDim) (dy : TensorId) : Prop where
  paddings : rowsOfTwo (constantInts nodes.paddings) = dims.map fun dim => (dim.beginI, dim.dimI - dim.endI)
  reads : (nodes.reshape = none ∧ (∀ dim ∈ dims, dim.shrinkI = false) ∧
      nodes.pad.input = [dy, ⟨nodes.paddings.name, .port 0⟩]) ∨
    ∃ shape reshape, nodes.reshape = some (shape, reshape) ∧ reshape.input = [dy, ⟨shape.name, .port 0⟩] ∧
      constantInts shape = dims.map (fun dim => dim.endI - dim.beginI) ∧
      nodes.pad.input = [⟨reshape.name, .port 0⟩, ⟨nodes.paddings.name, .port 0⟩]

theorem padNodes_eq_ok (of : GradientOf ctx i node dtype inputShape beginValues endValues strides dy)
    {matched : StridedSliceGrad} {bounds : List (Int × Int)}
    (test : GradientTest ctx i node dtype inputShape beginValues endValues strides matched bounds) :
    ∃ nodes, ctx.padNodes matched = .ok nodes ∧
      nodes.Of (gradDims (maskOf node "shrink_axis_mask") inputShape bounds) dy := by
  obtain ⟨dyDef, atDy⟩ := test.dy
  obtain ⟨storedDy, isStoredDy, isDy⟩ := Option.map_eq_some_iff.1 atDy
  obtain ⟨stored, isStored, rfl⟩ := Option.map_eq_some_iff.1 of.atNode
  obtain ⟨value, isType⟩ := test.typed
  obtain ⟨shape, begins, ends, steps, others, isInput, readsShape, -⟩ := of.inputs
  have isGradient : fetch stored.nodeDef.input 4 = .ok dy := by
    rw [fetch_eq_ok, isInput]
    rfl
  have isTensor : ∀ shape values, indexTensor dtype shape values =
      .ok { dtype := dtype, shape := shape, ints := values.map (asIndexType dtype) } := by
    intro shape values
    unfold indexTensor
    rw [if_pos test.indexType]
  have sameLength := length_bounds test.isBounds
  obtain ⟨isDims, isBegins, isEnds⟩ := @gradDims_lists (maskOf stored.nodeDef "shrink_axis_mask") _ _ sameLength
  have valid := gradDims_valid test.isBounds test.known
  have shrunk : ((List.range inputShape.length).filter fun k =>
      (maskOf stored.nodeDef "shrink_axis_mask").testBit k).isEmpty = true →
      ∀ dim ∈ gradDims (maskOf stored.nodeDef "shrink_axis_mask") inputShape bounds, dim.shrinkI = false := by
    intro none dim mem
    obtain ⟨k, inRange, rfl⟩ := List.mem_map.1 mem
    rw [List.isEmpty_iff, List.filter_eq_nil_iff] at none
    exact Bool.eq_false_iff.2 (none k inRange)
  have representable : ∀ dim ∈ gradDims (maskOf stored.nodeDef "shrink_axis_mask") inputShape bounds,
      Representable dtype dim.dimI := by
    obtain ⟨-, -, proto, -, -, -, -, -, -, representable⟩ := readsShape
    intro dim mem
    apply representable
    rw [← isDims]
    exact List.mem_map_of_mem mem
  rw [test.isMatch]
  generalize gradDims (maskOf stored.nodeDef "shrink_axis_mask") inputShape bounds = dims at *
  have isPaddings : ((((bounds.map Prod.fst).zip (inputShape.zip (bounds.map Prod.snd))).flatMap
      fun (beginI, dimI, endI) => [beginI, dimI - endI]).map (asIndexType dtype)) =
      dims.flatMap fun dim => [dim.beginI, dim.dimI - dim.endI] := by
    rw [← isDims, ← isBegins, ← isEnds, List.zip_map', List.zip_map', List.flatMap_map, List.map_flatMap]
    apply List.flatMap_congr
    intro dim mem
    have ofDim := valid dim mem
    have lower := ofDim.lower
    have nonempty := ofDim.nonempty
    have upper := ofDim.upper
    rw [List.map_cons, List.map_singleton, asIndexType_eq (representable dim mem) lower (by omega),
      asIndexType_eq (representable dim mem) (by omega) (by omega)]
  have isSizes : (((bounds.map Prod.fst).zip (bounds.map Prod.snd)).map
      fun (beginI, endI) => endI - beginI).map (asIndexType dtype) = dims.map fun dim => dim.endI - dim.beginI := by
    rw [← isBegins, ← isEnds, List.zip_map', List.map_map, List.map_map]
    apply List.map_congr_left
    intro dim mem
    have ofDim := valid dim mem
    have lower := ofDim.lower
    have nonempty := ofDim.nonempty
    have upper := ofDim.upper
    exact asIndexType_eq (representable dim mem) (by omega) (by omega)
  unfold padNodes
  simp only [fetch_eq_ok.2 isStored, fetch_eq_ok.2 isStoredDy, attrAt, of.index, isType, isGradient, bind, Except.bind,
    AttrValue.typeValue, isTensor, isPaddings, isSizes]
  split
  next noShrink =>
    refine ⟨_, rfl, ?_, .inl ⟨rfl, shrunk noShrink, rfl⟩⟩
    rw [constantInts_indexConst, rowsOfTwo_flatMap]
  next =>
    refine ⟨_, rfl, ?_, .inr ⟨_, _, rfl, rfl, ?_, rfl⟩⟩
    · rw [constantInts_indexConst, rowsOfTwo_flatMap]
    · rw [constantInts_indexConst]

section Result

variable {α : Type} {dims : List GradDim}

theorem PadNodes.Of.operand {nodes : PadNodes} (of : nodes.Of dims dy) (valid : ∀ dim ∈ dims, dim.Valid)
    (value : TensorId → Lib.Tensor α) (isOutput : (value dy).extents = outputExtents (dims.map GradDim.sliced)) :
    ∃ read x, nodes.pad.input = [read, ⟨nodes.paddings.name, .port 0⟩] ∧ nodes.operand value read = some x ∧
      x.extents = dims.map GradDim.size ∧ ∀ index ∈ indices x.extents,
        x.entry index = (value dy).entry (project none (dims.map GradDim.shrinkI) index) := by
  have ones := flagsOnes_of_valid valid
  rw [outputExtents_eq] at isOutput
  rcases of.reads with ⟨isNone, noShrink, isInput⟩ | ⟨shape, reshape, isReshape, isInput, isSizes, isPadInput⟩
  · have whole : ∀ l : List Nat, l.length = dims.length → project none (dims.map GradDim.shrinkI) l = l := by
      intro l sameLength
      apply Lib.project_eq_self
      rw [List.forall₂_map_left_iff, List.forall₂_iff_zip]
      refine ⟨sameLength.symm, ?_⟩
      intro dim k mem shrunk
      rw [noShrink dim (List.of_mem_zip mem).1] at shrunk
      cases shrunk
    rw [whole _ (List.length_map _)] at isOutput
    refine ⟨dy, value dy, isInput, ?_, isOutput, ?_⟩
    · unfold PadNodes.operand
      rw [isNone]
    · intro index mem
      have sameRank := Lib.length_of_mem_indices mem
      rw [isOutput, List.length_map] at sameRank
      rw [whole index sameRank]
  · have sizes : (dims.map fun dim => dim.endI - dim.beginI).map Int.toNat = dims.map GradDim.size := by
      rw [List.map_map]
      rfl
    refine ⟨_, (value dy).reshape (dims.map GradDim.size), isPadInput, ?_, rfl, ?_⟩
    · unfold PadNodes.operand
      rw [isReshape]
      dsimp only
      rw [if_pos rfl, isInput]
      dsimp only
      rw [if_pos rfl, isSizes, evalReshape, sizes, if_pos]
      refine ⟨?_, by rw [isOutput, ones.prod_project]⟩
      intro size mem
      obtain ⟨dim, isDim, rfl⟩ := List.mem_map.1 mem
      have nonempty := (valid dim isDim).nonempty
      omega
    · intro index mem
      change (value dy).entry (Lib.ofRowMajor (value dy).extents (Lib.rowMajor (dims.map GradDim.size) index)) = _
      rw [isOutput, ones.ofRowMajor mem]

theorem PadNodes.Of.eval [Zero α] {nodes : PadNodes} (of : nodes.Of dims dy) (valid : ∀ dim ∈ dims, dim.Valid)
    (value : TensorId → Lib.Tensor α) (isOutput : (value dy).extents = outputExtents (dims.map GradDim.sliced)) :
    ∃ result, nodes.eval value = some result ∧
      IsSliceGradient (dims.map fun dim => dim.dimI.toNat) (dims.map GradDim.sliced) (value dy) result := by
  obtain ⟨read, x, isInput, isOperand, xExtents, sameEntries⟩ := of.operand valid value isOutput
  refine ⟨x.pad (dims.map GradDim.padding), ?_, ?_⟩
  · unfold PadNodes.eval
    rw [isInput]
    dsimp only
    rw [if_pos rfl, isOperand, of.paddings]
    change evalPad x _ = _
    unfold evalPad
    rw [if_pos, List.map_map]
    · rfl
    · refine ⟨by rw [xExtents, List.length_map, List.length_map], ?_⟩
      intro padding mem
      obtain ⟨dim, isDim, rfl⟩ := List.mem_map.1 mem
      have upper := (valid dim isDim).upper
      exact ⟨(valid dim isDim).lower, by dsimp only; omega⟩
  · rw [outputExtents_eq] at isOutput
    exact isSliceGradient_pad valid xExtents isOutput sameEntries

/-- A match is of a slice without new axes that is in range, and the new nodes, whose paddings
are not negative, give its gradient. -/
theorem findStridedSliceGrad_exact [Zero α] (navigable : ctx.view.Navigable)
    (of : GradientOf ctx i node dtype inputShape beginValues endValues strides dy) {matched : StridedSliceGrad}
    (found : ctx.findStridedSliceGrad i = .ok (some matched)) :
    (maskOf node "ellipsis_mask" = 0 ∧ maskOf node "new_axis_mask" = 0) ∧
      ∃ extents sliced nodes, inputShape = extents.map Int.ofNat ∧
        validateStridedSliceOp (sliceSpec node beginValues endValues strides) inputShape = .ok sliced ∧
        ctx.padNodes matched = .ok nodes ∧
        (∀ padding ∈ rowsOfTwo (constantInts nodes.paddings), 0 ≤ padding.1 ∧ 0 ≤ padding.2) ∧
        ∀ value : TensorId → Lib.Tensor α, (value dy).extents = outputExtents sliced →
          ∃ result, nodes.eval value = some result ∧ IsSliceGradient extents sliced (value dy) result := by
  obtain ⟨bounds, test⟩ := findStridedSliceGrad_eq_some navigable of found
  obtain ⟨nodes, isNodes, ofNodes⟩ := padNodes_eq_ok of test
  have valid := gradDims_valid test.isBounds test.known
  have isDims := (@gradDims_lists (maskOf node "shrink_axis_mask") _ _ (length_bounds test.isBounds)).1
  refine ⟨test.masks, _, _, nodes, ?_, validate_gradDims test.isBounds test.known test.ones test.lengths, isNodes, ?_,
    fun value isOutput => ofNodes.eval valid value isOutput⟩
  · rw [List.map_map]
    refine isDims.symm.trans (List.map_congr_left ?_)
    intro dim member
    have lower := (valid dim member).lower
    have nonempty := (valid dim member).nonempty
    have upper := (valid dim member).upper
    change dim.dimI = Int.ofNat dim.dimI.toNat
    rw [Int.ofNat_eq_natCast]
    omega
  · intro padding member
    rw [ofNodes.paddings] at member
    obtain ⟨dim, isDim, rfl⟩ := List.mem_map.1 member
    have upper := (valid dim isDim).upper
    exact ⟨(valid dim isDim).lower, by dsimp only; omega⟩

end Result

end Match

def indexAttr (values : List Int) : AttrMap :=
  ((∅ : AttrMap).insert "dtype" (.type .int32)).insert "value" (.tensor ⟨.int32, [values.length], [], values⟩)

/-- The gradient of `x[-3:-1, 1]`, for `x` of four rows and three columns. -/
def sliceGraph : GraphDef :=
  [⟨"shape", "Const", "", [], indexAttr [4, 3]⟩, ⟨"begin", "Const", "", [], indexAttr [-3, 1]⟩,
    ⟨"end", "Const", "", [], indexAttr [-1, 0]⟩, ⟨"strides", "Const", "", [], indexAttr [1, 1]⟩,
    ⟨"dy", "Placeholder", "", [], ∅⟩,
    ⟨"grad", "StridedSliceGrad", "",
      [⟨"shape", .port 0⟩, ⟨"begin", .port 0⟩, ⟨"end", .port 0⟩, ⟨"strides", .port 0⟩, ⟨"dy", .port 0⟩],
      (((((((∅ : AttrMap).insert "T" (.type .float)).insert "Index" (.type .int32)).insert "begin_mask" (.i 0)).insert
        "end_mask" (.i 0)).insert "ellipsis_mask" (.i 0)).insert "new_axis_mask" (.i 0)).insert
        "shrink_axis_mask" (.i 2)⟩]

def sliceContext (view : MutableGraphView) : RemapperContext :=
  ⟨view, [], fun _ => .ok [], fun _ => .ok [], fun _ => false, fun _ => false⟩

theorem sliceGraph_reads {view : MutableGraphView} (isGraph : view.graph.map StoredNode.nodeDef = sliceGraph)
    {p : Nat} {name : String} {values : List Int}
    (isConst : sliceGraph[p]? = some ⟨name, "Const", "", [], indexAttr values⟩)
    (small : values.all (fun value => decide (-2 ^ 31 ≤ value ∧ value < 2 ^ 31)) = true) :
    ReadsInts view .int32 ⟨name, .port 0⟩ values := by
  refine ⟨p, _, _, (nodeDef?_of_graph isGraph p).trans isConst, rfl, rfl, rfl, rfl, List.prod_singleton, ?_⟩
  intro value mem _
  exact of_decide_eq_true (List.all_eq_true.1 small value mem)

/-- Two rows of zeros around the one column, and zeros in the other columns. -/
theorem sliceGraph_padded : ∃ view, construct sliceGraph = .ok view ∧
    (sliceContext view).findStridedSliceGrad 5 = .ok (some ⟨5, 4, [4, 3], [1, 1], [3, 2], [1]⟩) ∧
    ∃ extents sliced nodes, [4, 3] = extents.map Int.ofNat ∧
      validateStridedSliceOp ⟨[-3, 1], [-1, 0], [1, 1], 0, 0, 2⟩ [4, 3] = .ok sliced ∧
      (sliceContext view).padNodes ⟨5, 4, [4, 3], [1, 1], [3, 2], [1]⟩ = .ok nodes ∧
      (∀ padding ∈ rowsOfTwo (constantInts nodes.paddings), 0 ≤ padding.1 ∧ 0 ≤ padding.2) ∧
      ∀ value : TensorId → Lib.Tensor Int, (value ⟨"dy", .port 0⟩).extents = outputExtents sliced →
        ∃ result, nodes.eval value = some result ∧ IsSliceGradient extents sliced (value ⟨"dy", .port 0⟩) result := by
  obtain ⟨view, built, isGraph, found⟩ : ∃ view, construct sliceGraph = .ok view ∧
      view.graph.map StoredNode.nodeDef = sliceGraph ∧
      (sliceContext view).findStridedSliceGrad 5 = .ok (some ⟨5, 4, [4, 3], [1, 1], [3, 2], [1]⟩) :=
    ⟨_, rfl, rfl, by decide +kernel⟩
  obtain ⟨grad, atGrad, isGrad⟩ : ∃ grad, view.nodeDef? 5 = some grad ∧ sliceGraph[5]? = some grad :=
    ⟨_, nodeDef?_of_graph isGraph 5, rfl⟩
  cases isGrad
  have of : GradientOf (sliceContext view) 5 _ .int32 [4, 3] [-3, 1] [-1, 0] [1, 1] ⟨"dy", .port 0⟩ :=
    ⟨atGrad, rfl, _, _, _, _, [], rfl, @sliceGraph_reads view isGraph 0 _ _ rfl rfl,
      @sliceGraph_reads view isGraph 1 _ _ rfl rfl, @sliceGraph_reads view isGraph 2 _ _ rfl rfl,
      @sliceGraph_reads view isGraph 3 _ _ rfl rfl⟩
  exact ⟨view, built, found, (@findStridedSliceGrad_exact (sliceContext view) 5 _ .int32 [4, 3] [-3, 1] [-1, 0] [1, 1]
    ⟨"dy", .port 0⟩ Int _ (construct_inv built).1.navigable of _ found).2⟩

end Itex.Remapper
