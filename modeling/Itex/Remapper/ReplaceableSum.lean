import Itex.GraphUtils.Construction
import Itex.GraphUtils.Renumbering
import Itex.Remapper.Constants
import Itex.Remapper.GradFusion
import Itex.Utils.BCast

/-!
Contract: the removal of sums over broadcast dims
(`itex/core/graph/remapper/remapper.cc`, `itex/core/graph/utils/symbolic_shapes.cc`).

Owns: `FindSum`, what `AddSum` puts in the place of the sum, and when that is the sum over the
output of a `BroadcastGradientArgs`.

Does not own: shape inference. What it says of a tensor is assumed to describe it.
-/

namespace Itex.Remapper

open Itex.Graph (DataType Failure AttrValue PortId TensorId AttrMap NodeDef GraphDef TensorProto require)
open Itex.Lib (bind_ok read_lt indices project of_guard)
open Itex.GraphUtils Itex.GraphUtils.MutableGraphView
open Itex.Utils (BCast)

variable {extents reductionIndices : List Nat} {i : Nat} {keepDims : Bool}

inductive SumKind where
  | remove
  | biasAddGrad
deriving DecidableEq, Repr

structure ReplaceableSum where
  sum : Nat
  successor : Option Nat := none
  kind : SumKind
deriving DecidableEq, Repr

def isSum (node : NodeDef) : Bool := node.op == "Sum"

def isBroadcastGradientArgs (node : NodeDef) : Bool := node.op == "BroadcastGradientArgs"

def shapesSymbolicallyEqualExceptBatch (left right : TensorShapeProto) : Bool :=
  if left.unknownRank || right.unknownRank || left.dim.length != right.dim.length then false
  else ((left.dim.zip right.dim).drop 1).all fun (ldim, rdim) =>
    !(isUnknown ldim || isUnknown rdim || ldim != rdim)

/-- The port of the `BroadcastGradientArgs` that the loops end with: the last one that the sum reads. -/
def broadcastPort (broadcastView : MutableNodeView) (nodeIndex : Nat) : Option Nat :=
  ((broadcastView.regularFanoutsByPort.zipIdx.filter fun fanouts =>
    fanouts.1.any fun fanout => fanout.nodeIndex == nodeIndex).getLast?).map Prod.snd

/-- What the shape that is broadcast says of the reduction: the kind, and the last dim of the
input or its whole shape. -/
inductive SumReduction where
  | lastDim (size : Int)
  | noDim (shape : TensorShapeProto) (successor : Nat)

/-- What `AddSum` does: the successor gets another fanin 0, or the sum another node. -/
inductive SumRewrite where
  | updateFanin (successor : Nat) (fanin : TensorId)
  | addNode (node : NodeDef)

namespace RemapperContext

variable (ctx : RemapperContext)

/-- The position of the one node that reads output 0. -/
def soleSuccessor (nodeView : MutableNodeView) : Except Failure (Option Nat) :=
  if nodeView.numRegularFanouts ≠ 1 then .ok none
  else do
    let fanout ← fetch (regularFanout nodeView 0) 0
    return some fanout.nodeIndex

/-- A const reduction indices directly passed to the sum. -/
def findSumOverConst (nodeIndex : Nat) (nodeView : MutableNodeView) (sum broadcast : NodeDef) :
    Except Failure (Option ReplaceableSum) := do
  let successor ← soleSuccessor nodeView
  match successor with
  | none => return none
  | some successor =>
    let successorDef ← ctx.nodeDefAt successor
    if !isReshape successorDef then return none
    else
      let sumIndexTensor ← getTensorFromConstant broadcast
      let inputProps ← ctx.inputProperties sum.name
      match inputProps with
      | [inputShape, _] =>
        let rank := inputShape.dim.length
        let indicesNums := sumIndexTensor.shape.prod
        -- BiasAddGrad doesn't support 1-D.
        if rank ≤ 1 then return none
        else if indicesNums ≠ rank - 1 then return none
        else
          let dtype ← attrAt broadcast "dtype"
          let indexType := dtype.typeValue
          if indexType = .int32 ∨ indexType = .int64 then
            let ints ← flatInts sumIndexTensor indexType
            if (List.range indicesNums).all fun i => ints[i]? == some (Int.ofNat i) then
              return some { sum := nodeIndex, kind := .biasAddGrad }
            else return none
          else return none
      | _ => return none

def reductionOf (nodeIndex : Nat) (nodeView : MutableNodeView) (shape : NodeDef) :
    Except Failure (Option SumReduction) := do
  if isAnyConst shape then
    let biasShapeTensor ← getTensorFromConstant shape
    if biasShapeTensor.shape.prod ≠ 1 then return none
    else
      let ints ← flatInts biasShapeTensor .int32
      let size ← fetch ints 0
      return some (.lastDim size)
  else if isShape shape then
    let props ← ctx.inputProperties shape.name
    match props with
    | [] => return none
    | reductionShape :: _ =>
      match reductionShape.dim with
      | [] => return none
      | [dim] => if isUnknown dim then return none else return some (.lastDim dim)
      | _ :: _ :: _ =>
        -- Remove this Sum iff it has 1 fanout and is the 1st fanin of successor.
        let successor ← soleSuccessor nodeView
        match successor with
        | none => return none
        | some successor =>
          let successorView ← fetch ctx.view.nodes successor
          let fanin ← fetch successorView.regularFanins 0
          if fanin.nodeIndex ≠ nodeIndex then return none
          else return some (.noDim reductionShape successor)
  else return none

def findSum (nodeIndex : Nat) : Except Failure (Option ReplaceableSum) := do
  let nodeView ← fetch ctx.view.nodes nodeIndex
  let sum ← ctx.nodeDef nodeView
  if !isSum sum || hasControlFaninOrFanout nodeView then return none
  else
    let fanin1 ← fetch nodeView.regularFanins 1
    let broadcastView ← fetch ctx.view.nodes fanin1.nodeIndex
    let broadcast ← ctx.nodeDef broadcastView
    if !(isBroadcastGradientArgs broadcast || isAnyConst broadcast) then return none
    else if isAnyConst broadcast then ctx.findSumOverConst nodeIndex nodeView sum broadcast
    else
      match broadcastPort broadcastView nodeIndex with
      | none => .error (.crash "ITEX_CHECK failed")
      | some port =>
        let shapeFanin ← fetch broadcastView.regularFanins port
        let shape ← ctx.nodeDefAt shapeFanin.nodeIndex
        let reduction ← ctx.reductionOf nodeIndex nodeView shape
        match reduction with
        | none => return none
        | some reduction =>
          let inputProps ← ctx.inputProperties sum.name
          match inputProps with
          | inputShape :: _ :: _ =>
            -- BiasAddGrad doesn't support 1-D.
            if inputShape.dim.length ≤ 1 then return none
            else
              match reduction with
              | .lastDim size =>
                if inputShape.dim.getLast? ≠ some size then return none
                else return some { sum := nodeIndex, kind := .biasAddGrad }
              | .noDim shape successor =>
                if !shapesSymbolicallyEqualExceptBatch inputShape shape then return none
                else return some { sum := nodeIndex, successor := some successor, kind := .remove }
          | _ => return none

def addSum (matched : ReplaceableSum) : Except Failure SumRewrite := do
  let stored ← fetch ctx.view.graph matched.sum
  let sum := stored.nodeDef
  match matched.kind, matched.successor with
  | .remove, some successor =>
    let input ← fetch sum.input 0
    return .updateFanin successor input
  | .remove, none => .error (.crash "null node view")
  | .biasAddGrad, _ =>
    let input ← fetch sum.input 0
    let dtype ← attrAt sum "T"
    return .addNode {
      name := sum.name
      op := kBiasAddGrad
      device := sum.device
      input := [input]
      -- Hard coded format `NHWC` here since only matched `reduction_indices` = last dim.
      attr := addNodeAttr (addNodeAttr ∅ "T" dtype) "data_format" (.s "NHWC") }

end RemapperContext

section Values

variable {α : Type} [AddCommMonoid α]

def evalSum (keepDims : Bool) (reductionIndices : List Nat) (x : Lib.Tensor α) : Lib.Tensor α :=
  x.reduce List.sum keepDims ((List.range x.extents.length).map fun dim => decide (dim ∈ reductionIndices))

/-- `BiasAddGrad` of format `NHWC`. -/
def evalBiasAddGrad (x : Lib.Tensor α) : Lib.Tensor α :=
  x.reduce List.sum false (List.replicate (x.extents.length - 1) true ++ [false])

/-- What the readers of the sum get after the rewrite. -/
def SumRewrite.eval (rewrite : SumRewrite) (value : TensorId → Lib.Tensor α) : Option (Lib.Tensor α) :=
  match rewrite with
  | .updateFanin _ fanin => some (value fanin)
  | .addNode node =>
    match node.input, node.attr.lookup "data_format" with
    | [input], some (.s "NHWC") => some (evalBiasAddGrad (value input))
    | _, _ => none

def keepDimsOf (sum : NodeDef) : Bool := ((sum.attr.lookup "keep_dims").map AttrValue.boolValue).getD false

variable (α) in
/-- The readers of the sum get the tensor that the sum was. -/
def KeepsSum (ctx : RemapperContext) (matched : ReplaceableSum) (sum : NodeDef) (input : TensorId)
    (reductionIndices extents : List Nat) : Prop :=
  ∃ rewrite, ctx.addSum matched = .ok rewrite ∧ ∀ value : TensorId → Lib.Tensor α, (value input).extents = extents →
      ∃ result, rewrite.eval value = some result ∧
        result.Same (evalSum (keepDimsOf sum) reductionIndices (value input))

end Values

def shapeAt (x y : List Nat) (k : Nat) : List Nat := if k = 0 then x else y

/-- A sum over output `port` of a `BroadcastGradientArgs`, whose input has the shape that the two
shapes broadcast to. -/
structure SumOfBroadcast (ctx : RemapperContext) (matched : ReplaceableSum) (sum broadcast : NodeDef)
    (input : TensorId) (p port : Nat) (x y : List Nat) (bcast : BCast) : Prop where
  atSum : ctx.view.nodeDef? matched.sum = some sum
  /-- `Sum` declares a type. -/
  typed : ∃ dtype, sum.attr.lookup "T" = some dtype
  atBroadcast : ctx.view.nodeDef? p = some broadcast
  isBroadcast : isBroadcastGradientArgs broadcast = true
  isInput : sum.input = [input, ⟨broadcast.name, .port port⟩]
  isBCast : BCast.ofShapes x y = some bcast
  /-- Outputs of a `BroadcastGradientArgs` are vectors. -/
  vector : input.node = broadcast.name → bcast.outputShape.length = 1
  describesInput : ∀ {prop : TensorShapeProto} {props : List TensorShapeProto},
    ctx.inputProperties sum.name = .ok (prop :: props) → Described prop bcast.outputShape
  /-- A constant that gives a shape has its rank as its number of elements. -/
  constShape : ∀ {k : Nat} {fanin : RegularFanin} {def_ : NodeDef} {tensor : TensorProto},
    ctx.view.fanin p k = some fanin → ctx.view.nodeDef? fanin.nodeIndex = some def_ → isAnyConst def_ = true →
    getTensorFromConstant def_ = .ok tensor → tensor.shape = [(shapeAt x y k).length]
  describesShape : ∀ {k : Nat} {fanin : RegularFanin} {def_ : NodeDef} {prop : TensorShapeProto}
    {props : List TensorShapeProto}, ctx.view.fanin p k = some fanin →
    ctx.view.nodeDef? fanin.nodeIndex = some def_ → isShape def_ = true →
    ctx.inputProperties def_.name = .ok (prop :: props) → Described prop (shapeAt x y k)

section Match

open RemapperContext

variable {ctx : RemapperContext} {sum broadcast : NodeDef} {input : TensorId} {p port : Nat} {x y : List Nat}
  {bcast : BCast} {matched : ReplaceableSum}

theorem broadcastPort_eq_some (navigable : ctx.view.Navigable)
    (of : SumOfBroadcast ctx matched sum broadcast input p port x y bcast) {broadcastView : MutableNodeView}
    (atView : ctx.view.nodes[p]? = some broadcastView) (manyDims : bcast.outputShape.length ≠ 1) {port' : Nat}
    (found : broadcastPort broadcastView matched.sum = some port') : port' = port := by
  obtain ⟨fanouts, isLast, rfl⟩ := Option.map_eq_some_iff.1 found
  obtain ⟨mem, reads⟩ := List.mem_filter.1 (List.mem_of_getLast? isLast)
  obtain ⟨fanout, isFanout, isSum⟩ := List.any_eq_true.1 reads
  have atPort := List.mem_zipIdx_iff_getElem?.1 mem
  have isMember : fanout ∈ regularFanout broadcastView fanouts.2 := by
    rw [regularFanout, List.getD_eq_getElem?_getD, atPort]
    exact isFanout
  have atSum := of.atSum
  rw [← beq_iff_eq.1 isSum] at atSum
  have isInput := input_of_fanout navigable atView of.atBroadcast isMember atSum
  rw [of.isInput] at isInput
  match fanout.faninIndex, isInput with
  | 0, isInput =>
    have isVector := of.vector (congrArg TensorId.node (Option.some.inj isInput))
    exact absurd isVector manyDims
  | 1, isInput =>
    cases Option.some.inj isInput
    rfl

theorem reductionOf_eq_some
    (of : SumOfBroadcast ctx matched sum broadcast input p port x y bcast) {k : Nat} {nodeView : MutableNodeView}
    {fanin : RegularFanin} {shape : NodeDef} {reduction : SumReduction} (atFanin : ctx.view.fanin p k = some fanin)
    (atShape : ctx.view.nodeDef? fanin.nodeIndex = some shape)
    (found : ctx.reductionOf i nodeView shape = .ok (some reduction)) :
    match reduction with
    | .lastDim _ => (shapeAt x y k).length = 1
    | .noDim prop _ => Described prop (shapeAt x y k) := by
  unfold reductionOf at found
  split at found
  next isConst =>
    obtain ⟨tensor, isTensor, found⟩ := bind_ok.1 found
    obtain ⟨single, found⟩ := of_guard found
    obtain ⟨ints, -, found⟩ := bind_ok.1 found
    obtain ⟨size, -, found⟩ := bind_ok.1 found
    cases found
    have isShape := of.constShape atFanin atShape isConst isTensor
    rw [isShape, not_not, List.prod_singleton] at single
    exact single
  next =>
    split at found
    next isShape_ =>
      obtain ⟨props, isProps, found⟩ := bind_ok.1 found
      split at found
      · cases found
      next prop rest =>
        have described := of.describesShape atFanin atShape isShape_ isProps
        split at found
        · cases found
        next dim isDims =>
          obtain ⟨-, found⟩ := of_guard found
          cases found
          rw [← described.length_eq (by rw [isDims]; exact Nat.one_pos), isDims]
          rfl
        next first second dims isDims =>
          obtain ⟨successor, -, found⟩ := bind_ok.1 found
          cases successor with
          | none => cases found
          | some successor =>
            obtain ⟨successorView, -, found⟩ := bind_ok.1 found
            obtain ⟨fanin, -, found⟩ := bind_ok.1 found
            obtain ⟨-, found⟩ := of_guard found
            cases found
            exact described
    next => cases found

theorem length_of_equalExceptBatch {left right : TensorShapeProto}
    (same : shapesSymbolicallyEqualExceptBatch left right = true) : left.dim.length = right.dim.length := by
  unfold shapesSymbolicallyEqualExceptBatch at same
  split at same
  · cases same
  next tested =>
    simp only [Bool.or_eq_true, bne_iff_ne, ne_eq, not_or, not_not] at tested
    exact tested.2

theorem findSumOverConst_sum {nodeView : MutableNodeView} {sumDef broadcastDef : NodeDef}
    (found : ctx.findSumOverConst i nodeView sumDef broadcastDef = .ok (some matched)) : matched.sum = i := by
  unfold findSumOverConst at found
  obtain ⟨successor, -, found⟩ := bind_ok.1 found
  cases successor with
  | none => cases found
  | some successor =>
    obtain ⟨successorDef, -, found⟩ := bind_ok.1 found
    obtain ⟨-, found⟩ := of_guard found
    obtain ⟨sumIndexTensor, -, found⟩ := bind_ok.1 found
    obtain ⟨inputProps, -, found⟩ := bind_ok.1 found
    split at found
    · dsimp only at found
      obtain ⟨-, found⟩ := of_guard found
      obtain ⟨-, found⟩ := of_guard found
      obtain ⟨dtype, -, found⟩ := bind_ok.1 found
      split at found
      · obtain ⟨ints, -, found⟩ := bind_ok.1 found
        split at found
        · cases found
          rfl
        · cases found
      · cases found
    · cases found

theorem findSum_sum (found : ctx.findSum i = .ok (some matched)) : matched.sum = i := by
  unfold findSum at found
  obtain ⟨nodeView, -, found⟩ := bind_ok.1 found
  obtain ⟨sumDef, -, found⟩ := bind_ok.1 found
  obtain ⟨-, found⟩ := of_guard found
  obtain ⟨fanin1, -, found⟩ := bind_ok.1 found
  obtain ⟨broadcastView, -, found⟩ := bind_ok.1 found
  obtain ⟨broadcastDef, -, found⟩ := bind_ok.1 found
  obtain ⟨-, found⟩ := of_guard found
  split at found
  · exact findSumOverConst_sum found
  · split at found
    · cases found
    · obtain ⟨shapeFanin, -, found⟩ := bind_ok.1 found
      obtain ⟨shape, -, found⟩ := bind_ok.1 found
      obtain ⟨reduction, -, found⟩ := bind_ok.1 found
      cases reduction with
      | none => cases found
      | some reduction =>
        obtain ⟨inputProps, -, found⟩ := bind_ok.1 found
        split at found
        · obtain ⟨-, found⟩ := of_guard found
          split at found
          · obtain ⟨-, found⟩ := of_guard found
            cases found
            rfl
          · obtain ⟨-, found⟩ := of_guard found
            cases found
            rfl
        · cases found

/-- What the matcher tested: the input has more than one dim, and the shape one, or as many. -/
structure SumMatch (matched : ReplaceableSum) (own extents : List Nat) : Prop where
  manyDims : 1 < extents.length
  oneDim : matched.kind = .biasAddGrad → own.length = 1
  noDim : matched.kind = .remove → own.length = extents.length ∧ ∃ successor, matched.successor = some successor

theorem findSum_eq_some (navigable : ctx.view.Navigable) {i : Nat}
    (of : SumOfBroadcast ctx matched sum broadcast input p port x y bcast)
    (found : ctx.findSum i = .ok (some matched)) : SumMatch matched (shapeAt x y port) bcast.outputShape := by
  have isIndex := findSum_sum found
  unfold findSum at found
  obtain ⟨nodeView, isView, found⟩ := bind_ok.1 found
  obtain ⟨sumDef, isDef, found⟩ := bind_ok.1 found
  obtain ⟨atView, atDef⟩ := nodeDef?_of_fetch navigable.indexed isView isDef
  have atSum := of.atSum
  rw [isIndex, atDef] at atSum
  cases atSum
  obtain ⟨-, found⟩ := of_guard found
  obtain ⟨fanin1, isFanin1, found⟩ := bind_ok.1 found
  obtain ⟨broadcastView, isBroadcastView, found⟩ := bind_ok.1 found
  obtain ⟨broadcastDef, isBroadcastDef, found⟩ := bind_ok.1 found
  obtain ⟨atBroadcastView, atBroadcastDef⟩ := nodeDef?_of_fetch navigable.indexed isBroadcastView isBroadcastDef
  have isInput := input_of_fanin navigable atView atDef (fetch_eq_ok.1 isFanin1)
  rw [of.isInput, nameAt_of_nodeDef? atBroadcastDef] at isInput
  have isNode := navigable.indexed.eq_of_name atBroadcastDef of.atBroadcast
    (congrArg TensorId.node (Option.some.inj isInput)).symm
  rw [isNode] at atBroadcastView atBroadcastDef
  rw [of.atBroadcast] at atBroadcastDef
  cases atBroadcastDef
  obtain ⟨-, found⟩ := of_guard found
  split at found
  next isConst =>
    -- The node that the sum reads is no constant.
    have isOp := beq_iff_eq.1 of.isBroadcast
    simp [isAnyConst, isOp] at isConst
  next =>
    split at found
    · cases found
    next port' isPort =>
      obtain ⟨shapeFanin, isShapeFanin, found⟩ := bind_ok.1 found
      obtain ⟨shape, isShape_, found⟩ := bind_ok.1 found
      obtain ⟨reduction, isReduction, found⟩ := bind_ok.1 found
      cases reduction with
      | none => cases found
      | some reduction =>
        obtain ⟨inputProps, isProps, found⟩ := bind_ok.1 found
        split at found
        next inputShape second rest =>
          obtain ⟨manyDims, found⟩ := of_guard found
          have sameLength := (of.describesInput isProps).length_eq (by omega)
          have atShapeFanin := fanin_of_getElem? atBroadcastView (fetch_eq_ok.1 isShapeFanin)
          rw [← isIndex] at isPort
          have samePort := broadcastPort_eq_some navigable of atBroadcastView (by omega) isPort
          have ofShape := reductionOf_eq_some of atShapeFanin
            (nodeDefAt_eq_ok navigable.indexed isShape_) isReduction
          rw [samePort] at ofShape
          split at found
          next size =>
            obtain ⟨-, found⟩ := of_guard found
            cases found
            exact ⟨by omega, fun _ => ofShape, fun isRemove => (by cases isRemove)⟩
          next =>
            obtain ⟨same, found⟩ := of_guard found
            cases found
            simp only [Bool.not_eq_true', Bool.not_eq_false] at same
            have sameDims := length_of_equalExceptBatch same
            have ownLength := ofShape.length_eq (by omega)
            exact ⟨by omega, fun isBias => (by cases isBias), fun _ => ⟨by omega, _, rfl⟩⟩
        next => cases found

end Match

section Result

variable {α : Type} [AddCommMonoid α]

/-- The dims that are summed over. -/
def sumFlags (reductionIndices extents : List Nat) : List Bool :=
  (List.range extents.length).map fun dim => decide (dim ∈ reductionIndices)

theorem length_sumFlags (reductionIndices extents : List Nat) :
    (sumFlags reductionIndices extents).length = extents.length := by
  rw [sumFlags, List.length_map, List.length_range]

theorem getElem?_sumFlags {reductionIndices extents : List Nat} {dim : Nat} (inside : dim < extents.length) :
    (sumFlags reductionIndices extents)[dim]? = some (decide (dim ∈ reductionIndices)) := by
  rw [sumFlags, List.getElem?_map, List.getElem?_range inside, Option.map_some]

theorem same_evalSum_iff :
    (∀ x : Lib.Tensor α, x.extents = extents → x.Same (evalSum keepDims reductionIndices x)) ↔
      ∀ dim ∈ reductionIndices, ∀ extent, extents[dim]? = some extent → keepDims = true ∧ extent = 1 := by
  constructor
  · intro same dim mem extent atDim
    have inside := read_lt atDim
    have sameExtents : extents = project (if keepDims then some 1 else none) (sumFlags reductionIndices extents) extents :=
      (same ⟨extents, fun _ => 0⟩ rfl).1
    have isFlag := @getElem?_sumFlags reductionIndices _ _ inside
    rw [decide_eq_true mem] at isFlag
    cases keepDims with
    | true =>
      rw [if_pos rfl] at sameExtents
      exact ⟨rfl, Lib.eq_of_project_some sameExtents.symm isFlag atDim⟩
    | false =>
      -- A dim is lost.
      rw [if_neg Bool.false_ne_true] at sameExtents
      have sameLength := congrArg List.length sameExtents
      rw [Lib.length_project_none (length_sumFlags _ _), ← length_sumFlags reductionIndices extents] at sameLength
      have allFalse := List.count_eq_length.1 sameLength.symm
      exact absurd (allFalse true (List.mem_of_getElem? isFlag)) (by decide)
  · intro small x isExtents
    apply Lib.Tensor.Trivial.reduce
    rw [isExtents]
    change Lib.Tensor.Trivial keepDims (sumFlags reductionIndices extents) extents
    unfold Lib.Tensor.Trivial
    rw [List.forall₂_iff_get]
    refine ⟨length_sumFlags _ _, ?_⟩
    intro dim inFlags inside isReduced
    have isFlag := @getElem?_sumFlags reductionIndices _ _ inside
    rw [List.getElem?_eq_getElem inFlags] at isFlag
    have mem : dim ∈ reductionIndices := by
      rw [List.get_eq_getElem] at isReduced
      rw [isReduced] at isFlag
      exact of_decide_eq_true (Option.some.inj isFlag).symm
    exact small dim mem _ (List.getElem?_eq_getElem inside)

theorem sumFlags_lastDim {size : Nat} (manyDims : 1 < extents.length)
    (isReduced : ∀ dim, dim ∈ reductionIndices ↔ (BCast.aligned extents.length [size])[dim]? = some 1) :
    sumFlags reductionIndices extents = List.replicate (extents.length - 1) true ++ [decide (size = 1)] := by
  apply List.ext_getElem?
  intro dim
  by_cases inside : dim < extents.length
  · have ofDim := isReduced dim
    unfold BCast.aligned at ofDim
    rw [List.length_singleton] at ofDim
    rw [getElem?_sumFlags inside]
    grind
  · rw [List.getElem?_eq_none (by rw [length_sumFlags]; omega), List.getElem?_eq_none]
    rw [List.length_append, List.length_replicate, List.length_singleton]
    omega

/-- The sum over all dims but the last, of which only the last may be kept. -/
theorem same_evalBiasAddGrad_iff {size : Nat} (manyDims : 1 < extents.length)
    (isReduced : ∀ dim, dim ∈ reductionIndices ↔ (BCast.aligned extents.length [size])[dim]? = some 1) :
    (∀ x : Lib.Tensor α, x.extents = extents → (evalBiasAddGrad x).Same (evalSum keepDims reductionIndices x)) ↔
      keepDims = false ∧ size ≠ 1 := by
  have flags := sumFlags_lastDim manyDims isReduced
  constructor
  · intro same
    have sameExtents : project none (List.replicate (extents.length - 1) true ++ [false]) extents =
        project (if keepDims then some 1 else none) (sumFlags reductionIndices extents) extents :=
      (same ⟨extents, fun _ => 0⟩ rfl).1
    have sameLength := congrArg List.length sameExtents
    rw [Lib.length_project_none (by rw [List.length_append, List.length_replicate, List.length_singleton]; omega),
      List.count_append, List.count_replicate, List.count_singleton] at sameLength
    cases keepDims with
    | true =>
      rw [if_pos rfl, Lib.length_project_some (length_sumFlags _ _)] at sameLength
      simp at sameLength
      omega
    | false =>
      refine ⟨rfl, ?_⟩
      intro isOne
      rw [if_neg Bool.false_ne_true, Lib.length_project_none (length_sumFlags _ _), flags, isOne] at sameLength
      simp [List.count_replicate] at sameLength
  · intro ⟨noKeep, notOne⟩ x isExtents
    have sameFlags : List.replicate (x.extents.length - 1) true ++ [false] = sumFlags reductionIndices x.extents := by
      rw [isExtents, flags, decide_eq_false notOne]
    unfold evalBiasAddGrad evalSum
    rw [sameFlags, noKeep]
    exact ⟨rfl, fun index _ => rfl⟩

open RemapperContext

variable {ctx : RemapperContext} {sum broadcast : NodeDef} {input : TensorId} {p port : Nat} {x y : List Nat}
  {bcast : BCast} {matched : ReplaceableSum}

/-- The tensor that the readers get. -/
def replacement (kind : SumKind) (tensor : Lib.Tensor α) : Lib.Tensor α :=
  match kind with
  | .remove => tensor
  | .biasAddGrad => evalBiasAddGrad tensor

theorem keepsSum_iff_same (of : SumOfBroadcast ctx matched sum broadcast input p port x y bcast)
    (tested : SumMatch matched (shapeAt x y port) bcast.outputShape) :
    KeepsSum α ctx matched sum input (bcast.gradReduceIdx port) bcast.outputShape ↔
      ∀ tensor : Lib.Tensor α, tensor.extents = bcast.outputShape →
        (replacement matched.kind tensor).Same (evalSum (keepDimsOf sum) (bcast.gradReduceIdx port) tensor) := by
  obtain ⟨rewrite, isRewrite, evaluates⟩ : ∃ rewrite, ctx.addSum matched = .ok rewrite ∧
      ∀ value : TensorId → Lib.Tensor α, rewrite.eval value = some (replacement matched.kind (value input)) := by
    obtain ⟨stored, isStored, rfl⟩ := Option.map_eq_some_iff.1 of.atSum
    obtain ⟨dtype, isType⟩ := of.typed
    have isInput : fetch stored.nodeDef.input 0 = .ok input := by
      rw [fetch_eq_ok, of.isInput]
      rfl
    unfold addSum
    rw [fetch_eq_ok.2 isStored]
    cases isKind : matched.kind with
    | remove =>
      obtain ⟨-, successor, isSuccessor⟩ := tested.noDim isKind
      simp only [bind, Except.bind, isSuccessor, isInput]
      exact ⟨_, rfl, fun value => rfl⟩
    | biasAddGrad =>
      cases matched.successor <;>
        simp only [bind, Except.bind, isInput, attrAt, isType] <;>
        exact ⟨_, rfl, fun value => rfl⟩
  constructor
  · intro ⟨rewrite', isRewrite', keeps⟩ tensor isExtents
    rw [isRewrite] at isRewrite'
    cases isRewrite'
    obtain ⟨result, isResult, same⟩ := keeps (fun _ => tensor) isExtents
    rw [evaluates] at isResult
    cases isResult
    exact same
  · intro same
    refine ⟨rewrite, isRewrite, ?_⟩
    intro value isExtents
    exact ⟨_, evaluates value, same (value input) isExtents⟩

/-- Two shapes of which the one summed for has the rank of the result. -/
theorem aligned_of_length {own : List Nat} {rank : Nat} (sameRank : own.length = rank) :
    BCast.aligned rank own = own := by
  rw [BCast.aligned, sameRank, Nat.sub_self, List.replicate_zero, List.nil_append]

theorem broadcasts_shapeAt (isBCast : BCast.ofShapes x y = some bcast) (ne : x ≠ y) (port : Nat) :
    (∀ dim, dim ∈ bcast.gradReduceIdx port ↔
        (BCast.aligned bcast.outputShape.length (shapeAt x y port))[dim]? = some 1) ∧
      List.Forall₂ (fun own extent => own ≠ 1 → extent = own)
        (BCast.aligned bcast.outputShape.length (shapeAt x y port)) bcast.outputShape := by
  have broadcasts := BCast.broadcasts_of_ne isBCast ne
  unfold BCast.gradReduceIdx shapeAt
  rw [broadcasts.length]
  split
  · exact ⟨broadcasts.xReduce, broadcasts.xOutput⟩
  · exact ⟨broadcasts.yReduce, broadcasts.yOutput⟩

theorem keepsAll_iff {own : List Nat} (sameRank : own.length = extents.length)
    (isReduced : ∀ dim, dim ∈ reductionIndices ↔ own[dim]? = some 1)
    (isOutput : List.Forall₂ (fun own extent => own ≠ 1 → extent = own) own extents) :
    (∀ dim ∈ reductionIndices, ∀ extent, extents[dim]? = some extent → keepDims = true ∧ extent = 1) ↔
      if keepDims then own = extents else 1 ∉ own := by
  constructor
  · intro small
    cases keepDims with
    | true =>
      rw [if_pos rfl, ← List.forall₂_eq_eq_eq, List.forall₂_iff_get]
      refine ⟨sameRank, ?_⟩
      intro dim inOwn inside
      by_cases isOne : own.get ⟨dim, inOwn⟩ = 1
      · have mem : dim ∈ reductionIndices := by
          rw [isReduced, List.getElem?_eq_getElem inOwn]
          exact congrArg some isOne
        rw [isOne]
        exact (small dim mem _ (List.getElem?_eq_getElem inside)).2.symm
      · exact ((List.forall₂_iff_get.1 isOutput).2 dim inOwn inside isOne).symm
    | false =>
      rw [if_neg Bool.false_ne_true]
      intro mem
      obtain ⟨dim, atDim⟩ := List.mem_iff_getElem?.1 mem
      grind
  · grind

/-- The sum may go exactly if it keeps its dims and their extents are those of the shape it is for,
or keeps none and the shape has no dim of extent one; for two equal shapes it has nothing to do. A
`BiasAddGrad` does the same exactly if no dim is kept and the last one is not summed over. -/
theorem findSum_keeps_iff (navigable : ctx.view.Navigable) {i : Nat}
    (found : ctx.findSum i = .ok (some matched))
    (of : SumOfBroadcast ctx matched sum broadcast input p port x y bcast) :
    KeepsSum α ctx matched sum input (bcast.gradReduceIdx port) bcast.outputShape ↔ match matched.kind with
      | .biasAddGrad => keepDimsOf sum = false ∧ shapeAt x y port ≠ [1]
      | .remove =>
        x = y ∨ if keepDimsOf sum then shapeAt x y port = bcast.outputShape else 1 ∉ shapeAt x y port := by
  have tested := findSum_eq_some navigable of found
  rw [keepsSum_iff_same of tested]
  cases isKind : matched.kind with
  | biasAddGrad =>
    obtain ⟨size, isOwn⟩ := List.length_eq_one_iff.1 (tested.oneDim isKind)
    have different : x ≠ y := by
      intro same
      have isBCast := of.isBCast
      rw [same, BCast.ofShapes_self] at isBCast
      cases isBCast
      have manyDims := tested.manyDims
      have oneDim := tested.oneDim isKind
      rw [shapeAt, same, ite_self] at oneDim
      dsimp only at manyDims
      omega
    obtain ⟨isReduced, -⟩ := broadcasts_shapeAt of.isBCast different port
    rw [isOwn] at isReduced ⊢
    unfold replacement
    dsimp only
    rw [same_evalBiasAddGrad_iff tested.manyDims isReduced]
    simp
  | remove =>
    unfold replacement
    dsimp only
    rw [same_evalSum_iff]
    by_cases same : x = y
    · have isBCast := of.isBCast
      rw [same, BCast.ofShapes_self] at isBCast
      cases isBCast
      simp [BCast.gradReduceIdx, same]
    · obtain ⟨isReduced, isOutput⟩ := broadcasts_shapeAt of.isBCast same port
      have sameRank := (tested.noDim isKind).1
      rw [aligned_of_length sameRank] at isReduced isOutput
      rw [keepsAll_iff sameRank isReduced isOutput, or_iff_right same]

end Result

/-! ## Two graphs -/

/-- The gradient for `a`, of three columns, of an addition to `b` whose result has five rows. -/
def gradientGraph : GraphDef :=
  [⟨"a", "Placeholder", "", [], ∅⟩, ⟨"b", "Placeholder", "", [], ∅⟩,
    ⟨"shapeA", "Shape", "", [⟨"a", .port 0⟩], ∅⟩, ⟨"shapeB", "Shape", "", [⟨"b", .port 0⟩], ∅⟩,
    ⟨"args", "BroadcastGradientArgs", "", [⟨"shapeA", .port 0⟩, ⟨"shapeB", .port 0⟩], ∅⟩,
    ⟨"dy", "Placeholder", "", [], ∅⟩,
    ⟨"sum", "Sum", "", [⟨"dy", .port 0⟩, ⟨"args", .port 0⟩], (∅ : AttrMap).insert "T" (.type .float)⟩,
    ⟨"grad", "Reshape", "", [⟨"sum", .port 0⟩, ⟨"shapeA", .port 0⟩], ∅⟩]

def gradientShapes (rowsA rowsB : Nat) (name : String) : Except Failure (List TensorShapeProto) :=
  if name = "shapeA" then .ok [⟨false, [rowsA, 3]⟩]
  else if name = "shapeB" then .ok [⟨false, [rowsB, 3]⟩]
  else if name = "sum" then .ok [⟨false, [5, 3]⟩, ⟨false, [-1]⟩]
  else .ok []

def gradientContext (rowsA rowsB : Nat) (view : MutableGraphView) : RemapperContext :=
  ⟨view, [], gradientShapes rowsA rowsB, gradientShapes rowsA rowsB, fun _ => false, fun _ => false⟩

def gradientMatch : ReplaceableSum := { sum := 6, successor := some 7, kind := .remove }

theorem described_of_nat (extents : List Nat) : Described ⟨false, extents.map Int.ofNat⟩ extents := by
  refine ⟨fun _ => ?_, fun isUnknown => (by cases isUnknown)⟩
  rw [List.forall₂_map_left_iff, List.forall₂_same]
  exact fun extent _ _ => rfl

theorem gradientGraph_sum {view : MutableGraphView} {rowsA rowsB : Nat} {bcast : BCast}
    (isGraph : view.graph.map StoredNode.nodeDef = gradientGraph)
    (reads : view.allFanins (fun i k fanin =>
      i != 4 || k == 0 && fanin.nodeIndex == 2 || k == 1 && fanin.nodeIndex == 3) = true)
    (isBCast : BCast.ofShapes [rowsA, 3] [rowsB, 3] = some bcast) (isOutput : bcast.outputShape = [5, 3]) :
    ∃ sum, view.nodeDef? 6 = some sum ∧ keepDimsOf sum = false ∧ ∃ broadcast,
      SumOfBroadcast (gradientContext rowsA rowsB view) gradientMatch sum broadcast ⟨"dy", .port 0⟩ 4 0
        [rowsA, 3] [rowsB, 3] bcast := by
  obtain ⟨sum, atSum, isSum⟩ : ∃ sum, view.nodeDef? 6 = some sum ∧ gradientGraph[6]? = some sum :=
    ⟨_, nodeDef?_of_graph isGraph 6, rfl⟩
  obtain ⟨broadcast, atBroadcast, isBroadcast⟩ :
      ∃ broadcast, view.nodeDef? 4 = some broadcast ∧ gradientGraph[4]? = some broadcast :=
    ⟨_, nodeDef?_of_graph isGraph 4, rfl⟩
  cases isSum
  refine ⟨_, atSum, rfl, broadcast, ?_⟩
  cases isBroadcast
  have shapes : ∀ {k : Nat} {fanin : RegularFanin}, view.fanin 4 k = some fanin →
      (k = 0 ∧ fanin.nodeIndex = 2) ∨ (k = 1 ∧ fanin.nodeIndex = 3) := by
    intro k fanin atFanin
    have ofFanin := of_all_fanins reads atFanin
    simpa using ofFanin
  exact
    { atSum := atSum
      typed := ⟨_, rfl⟩
      atBroadcast := atBroadcast
      isBroadcast := rfl
      isInput := rfl
      isBCast := isBCast
      vector := fun isVector => absurd isVector (by decide)
      describesInput := by
        intro prop props isProps
        cases isProps
        rw [isOutput]
        exact described_of_nat [5, 3]
      constShape := by
        intro k fanin def_ tensor atFanin atDef isConst _
        change view.nodeDef? fanin.nodeIndex = some def_ at atDef
        rcases shapes atFanin with ⟨-, isNode⟩ | ⟨-, isNode⟩
        · rw [isNode, nodeDef?_of_graph isGraph] at atDef
          cases atDef
          cases isConst
        · rw [isNode, nodeDef?_of_graph isGraph] at atDef
          cases atDef
          cases isConst
      describesShape := by
        intro k fanin def_ prop props atFanin atDef _ isProps
        change view.nodeDef? fanin.nodeIndex = some def_ at atDef
        rcases shapes atFanin with ⟨rfl, isNode⟩ | ⟨rfl, isNode⟩
        · rw [isNode, nodeDef?_of_graph isGraph] at atDef
          cases atDef
          cases isProps
          exact described_of_nat [rowsA, 3]
        · rw [isNode, nodeDef?_of_graph isGraph] at atDef
          cases atDef
          cases isProps
          exact described_of_nat [rowsB, 3] }

structure GradientView (view : MutableGraphView) (rowsA rowsB : Nat) : Prop where
  built : construct gradientGraph = .ok view
  isGraph : view.graph.map StoredNode.nodeDef = gradientGraph
  reads : view.allFanins (fun i k fanin => i != 4 || k == 0 && fanin.nodeIndex == 2 || k == 1 && fanin.nodeIndex == 3) = true
  found : (gradientContext rowsA rowsB view).findSum 6 = .ok (some gradientMatch)

/-- `b` has one row: nothing is summed up for `a`. -/
theorem gradient_of_whole : ∃ view, construct gradientGraph = .ok view ∧
    (gradientContext 5 1 view).findSum 6 = .ok (some gradientMatch) ∧
    ∃ sum bcast, view.nodeDef? 6 = some sum ∧ BCast.ofShapes [5, 3] [1, 3] = some bcast ∧
      KeepsSum Int (gradientContext 5 1 view) gradientMatch sum ⟨"dy", .port 0⟩ (bcast.gradReduceIdx 0)
        bcast.outputShape := by
  obtain ⟨view, built, isGraph, reads, found⟩ : ∃ view, GradientView view 5 1 := ⟨_, rfl, rfl, rfl, rfl⟩
  obtain ⟨sum, atSum, noKeep, broadcast, of⟩ :=
    @gradientGraph_sum view 5 1 ⟨[5, 3], [], [0]⟩ isGraph reads rfl rfl
  refine ⟨view, built, found, sum, (⟨[5, 3], [], [0]⟩ : BCast), atSum, rfl, ?_⟩
  rw [@findSum_keeps_iff Int _ _ _ _ _ _ _ _ _ _ _ (construct_inv built).1.navigable _ found of, noKeep]
  exact .inr (by decide)

/-- `a` has one row, for which five are summed up. -/
theorem summed_rows_lost : ∃ view, construct gradientGraph = .ok view ∧ view.Navigable ∧
    (gradientContext 1 5 view).findSum 6 = .ok (some gradientMatch) ∧
    ∃ sum broadcast bcast, BCast.ofShapes [1, 3] [5, 3] = some bcast ∧
      SumOfBroadcast (gradientContext 1 5 view) gradientMatch sum broadcast ⟨"dy", .port 0⟩ 4 0 [1, 3] [5, 3] bcast ∧
      ¬ KeepsSum Int (gradientContext 1 5 view) gradientMatch sum ⟨"dy", .port 0⟩ (bcast.gradReduceIdx 0)
        bcast.outputShape := by
  obtain ⟨view, built, isGraph, reads, found⟩ : ∃ view, GradientView view 1 5 := ⟨_, rfl, rfl, rfl, rfl⟩
  have navigable := (construct_inv built).1.navigable
  obtain ⟨sum, atSum, noKeep, broadcast, of⟩ :=
    @gradientGraph_sum view 1 5 ⟨[5, 3], [0], []⟩ isGraph reads rfl rfl
  refine ⟨view, built, navigable, found, sum, broadcast, (⟨[5, 3], [0], []⟩ : BCast), rfl, of, ?_⟩
  rw [keepsSum_iff_same of (@findSum_eq_some (gradientContext 1 5 view) _ _ _ _ _ _ _ _ _ navigable _ of found)]
  change ¬ ∀ tensor : Lib.Tensor Int, tensor.extents = [5, 3] → tensor.Same (evalSum (keepDimsOf sum) [0] tensor)
  rw [same_evalSum_iff, noKeep]
  intro small
  exact absurd (small 0 (by decide) 5 rfl).1 (by decide)

end Itex.Remapper
