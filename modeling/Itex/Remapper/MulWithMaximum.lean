import Itex.GraphUtils.Construction
import Itex.GraphUtils.Renumbering
import Itex.Lib.Broadcast
import Itex.Remapper.Constants

/-!
Contract: the fusion of `Maximum(x, alpha * x)` into `LeakyRelu`
(`itex/core/graph/remapper/remapper.cc`).

Owns: `FindMulWithMaximum`, the node that `AddMulWithMaximumNode` builds, and when that node
has the value of the one it replaces.

Does not own: shape inference. What it says of a constant is assumed to describe it.
-/

namespace Itex.Remapper

open Itex.Graph (DataType Failure AttrValue PortId TensorId AttrMap NodeDef GraphDef Number TensorProto)
open Itex.Lib (bind_ok broadcastExtents alignIndex indices rowMajor of_guard)
open Itex.GraphUtils Itex.GraphUtils.MutableGraphView

variable {alpha : Number} {constDef inputDef maximumDef mulDef : NodeDef} {extents : TensorId → List Nat}
  {i place : Nat} {matched : MulWithMaximum} {operands : MaximumOperands}

structure MulWithMaximum where
  maximum : Nat
  mul : Nat
  input : Nat
  alpha : Number
deriving DecidableEq

def isMaximum (node : NodeDef) : Bool := node.op == "Maximum"

def isMulNoNan (node : NodeDef) : Bool := node.op == "MulNoNan"

def isAnyMul (node : NodeDef) : Bool := isMul node || isMulNoNan node

/-- The value of a constant factor, of the types that the fusion takes. -/
def alphaValue (constNode : NodeDef) : Except Failure (Option Number) := do
  let constDtype := getDataTypeFromAttr constNode "dtype"
  let constTensor ← getTensorFromConstant constNode
  if constDtype ∈ [DataType.bfloat16, .half, .double, .float] then
    let number ← firstNumber constTensor constDtype
    return some (toFloat constDtype number)
  else return none

namespace RemapperContext

variable (ctx : RemapperContext)

def getMulScalarInputIndex (node : NodeDef) : Except Failure (Option Nat) := do
  let props ← ctx.inputProperties node.name
  match props with
  | [left, right] =>
    if isScalar left then return some 0
    else if isScalar right then return some 1
    else return none
  | _ => return none

/-- One pass of the loop over the operands of the `Maximum`. -/
def attemptMulFanin (nodeIndex : Nat) (maximumView : MutableNodeView) (attempt : Nat) :
    Except Failure (Option MulWithMaximum) := do
  let mulFanin ← fetch maximumView.regularFanins attempt
  let mulView ← fetch ctx.view.nodes mulFanin.nodeIndex
  let mulNode ← ctx.nodeDef mulView
  if !isAnyMul mulNode || mulView.regularFanins.length != 2 || mulView.numRegularFanouts != 1 ||
      hasControlFaninOrFanout mulView then return none
  else
    let scalar ← ctx.getMulScalarInputIndex mulNode
    match scalar with
    | none => return none
    | some attemptScalar =>
      let constFanin ← fetch mulView.regularFanins attemptScalar
      let constView ← fetch ctx.view.nodes constFanin.nodeIndex
      let constNode ← ctx.nodeDef constView
      if !isAnyConst constNode || hasControlFaninOrFanout constView then return none
      else
        let value ← alphaValue constNode
        match value with
        | none => return none
        | some alpha =>
          if isAbove alpha 1 then return none
          else
            let common ← fetch maximumView.regularFanins (1 - attempt)
            let scaled ← fetch mulView.regularFanins (1 - attemptScalar)
            if common.nodeIndex ≠ scaled.nodeIndex then return none
            else if !hasAtMostOneFanoutAtPort0 mulView || ctx.isInPreserveSet mulNode then return none
            else return some ⟨nodeIndex, mulView.nodeIndex, common.nodeIndex, alpha⟩

def findMulWithMaximum (nodeIndex : Nat) : Except Failure (Option MulWithMaximum) := do
  let maximumView ← fetch ctx.view.nodes nodeIndex
  let maximumNode ← ctx.nodeDef maximumView
  if !isMaximum maximumNode || hasControlFaninOrFanout maximumView ||
      maximumView.regularFanins.length != 2 then return none
  else
    let first ← ctx.attemptMulFanin nodeIndex maximumView 0
    match first with
    | some matched => return some matched
    | none => ctx.attemptMulFanin nodeIndex maximumView 1

def kLeakyRelu : String := "LeakyRelu"

/-- The node that `AddMulWithMaximumNode` adds: its input is the name of a node. -/
def leakyReluNode (matched : MulWithMaximum) : Except Failure NodeDef := do
  let maximum ← fetch ctx.view.graph matched.maximum
  let input ← fetch ctx.view.graph matched.input
  let dstDtype := getDataTypeFromAttr maximum.nodeDef "T"
  return {
    name := maximum.nodeDef.name
    op := kLeakyRelu
    device := maximum.nodeDef.device
    input := [⟨input.nodeDef.name, .port 0⟩]
    attr := ((∅ : AttrMap).insert "alpha" (.f matched.alpha)).insert "T" (.type dstDtype) }

end RemapperContext

open RemapperContext

structure MaximumOperands where
  /-- The place of the `Mul` among the operands of the `Maximum`. -/
  mulPlace : Nat
  scalarPlace : Nat
  other : TensorId
  scaled : TensorId
  constant : TensorProto

/-- Two operands, with the place of the first. -/
def placed {α : Type} (place : Nat) (first second : α) : List α :=
  if place = 0 then [first, second] else [second, first]

structure MaximumOperands.Of (operands : MaximumOperands) (ctx : RemapperContext) (matched : MulWithMaximum)
    (maximumDef mulDef constDef inputDef : NodeDef) : Prop where
  atMaximum : ctx.view.nodeDef? matched.maximum = some maximumDef
  atMul : ctx.view.nodeDef? matched.mul = some mulDef
  atInput : ctx.view.nodeDef? matched.input = some inputDef
  isMaximum : isMaximum maximumDef = true
  isMul : isAnyMul mulDef = true
  atConst : ∃ i, ctx.view.nodeDef? i = some constDef
  isConst : isAnyConst constDef = true
  maximumInput : maximumDef.input = placed operands.mulPlace ⟨mulDef.name, .port 0⟩ operands.other
  mulInput : mulDef.input = placed operands.scalarPlace ⟨constDef.name, .port 0⟩ operands.scaled
  isConstant : getTensorFromConstant constDef = .ok operands.constant
  otherNode : operands.other.node = inputDef.name
  scaledNode : operands.scaled.node = inputDef.name

/-! ## What is assumed of a graph -/

def isMulOrConst (node : NodeDef) : Bool := isAnyMul node || isAnyConst node

section Match

variable {ctx : RemapperContext}

theorem getMulScalarInputIndex_eq_some {node : NodeDef}
    (found : ctx.getMulScalarInputIndex node = .ok (some place)) :
    place ≤ 1 ∧ ∃ props prop, ctx.inputProperties node.name = .ok props ∧ props[place]? = some prop ∧
      isScalar prop = true := by
  unfold getMulScalarInputIndex at found
  obtain ⟨props, isProps, found⟩ := bind_ok.1 found
  split at found
  next left right =>
    by_cases leftScalar : isScalar left = true
    · rw [if_pos leftScalar] at found
      cases found
      exact ⟨by decide, _, left, isProps, rfl, leftScalar⟩
    · rw [if_neg leftScalar] at found
      by_cases rightScalar : isScalar right = true
      · rw [if_pos rightScalar] at found
        cases found
        exact ⟨by decide, _, right, isProps, rfl, rightScalar⟩
      · rw [if_neg rightScalar] at found
        cases found
  next => cases found

theorem map_placed {α β : Type} {fanins : List α} {first second : α} (f : α → β)
    (two : fanins.length = 2) (small : place ≤ 1) (atPlace : fanins[place]? = some first)
    (atOther : fanins[1 - place]? = some second) : fanins.map f = placed place (f first) (f second) := by
  obtain ⟨fanin0, fanin1, rfl⟩ := List.length_eq_two.1 two
  match place, small with
  | 0, _ =>
    cases atPlace
    cases atOther
    rfl
  | 1, _ =>
    cases atPlace
    cases atOther
    rfl

theorem input_eq_placed (navigable : ctx.view.Navigable) {node : MutableNodeView}
    {def_ : NodeDef} {first second : RegularFanin} (atNode : ctx.view.nodes[i]? = some node)
    (atDef : ctx.view.nodeDef? i = some def_) (free : hasControlFaninOrFanout node = false)
    (two : node.regularFanins.length = 2) (small : place ≤ 1) (atPlace : node.regularFanins[place]? = some first)
    (atOther : node.regularFanins[1 - place]? = some second) :
    def_.input = placed place ⟨ctx.view.nameAt first.nodeIndex, .port first.index⟩
      ⟨ctx.view.nameAt second.nodeIndex, .port second.index⟩ := by
  have noControl : node.controllingFanins = [] := by
    unfold hasControlFaninOrFanout at free
    simp only [Bool.or_eq_false_iff, decide_eq_false_iff_not, Nat.not_lt, Nat.le_zero] at free
    exact List.eq_nil_of_length_eq_zero free.1
  rw [navigable.inputs atNode atDef, inputsOf, noControl, List.map_nil, List.append_nil]
  exact map_placed _ two small atPlace atOther

/-- The constant factor of a match, and what the matcher tested of it. -/
structure ScalesBy (operands : MaximumOperands) (constDef : NodeDef) (alpha : Number) : Prop where
  single : operands.constant.shape.prod = 1
  isAlpha : ∃ number rest, operands.constant.numbers = number :: rest ∧ alpha = toFloat operands.constant.dtype number
  bounded : isAbove alpha 1 = false

theorem alphaValue_eq_some (found : alphaValue constDef = .ok (some alpha)) :
    ∃ tensor number rest, getTensorFromConstant constDef = .ok tensor ∧ tensor.numbers = number :: rest ∧
      alpha = toFloat tensor.dtype number := by
  unfold alphaValue at found
  obtain ⟨tensor, isTensor, found⟩ := bind_ok.1 found
  split at found
  next =>
    obtain ⟨number, isNumber, found⟩ := bind_ok.1 found
    unfold firstNumber at isNumber
    split at isNumber
    next => cases isNumber
    next sameDtype =>
      split at isNumber
      next => cases isNumber
      next rest isNumbers =>
        cases isNumber
        cases found
        rw [ne_eq, not_not] at sameDtype
        exact ⟨tensor, number, rest, isTensor, isNumbers, by rw [sameDtype]⟩
  next => cases found

theorem attemptMulFanin_eq_some (navigable : ctx.view.Navigable) (oneOutput : OneOutput isMulOrConst ctx.view)
    (describes : DescribesConstants ctx) {maximumView : MutableNodeView}
    (atView : ctx.view.nodes[i]? = some maximumView)
    (atMaximum : ctx.view.nodeDef? i = some maximumDef) (isMaximum_ : isMaximum maximumDef = true)
    (free : hasControlFaninOrFanout maximumView = false) (two : maximumView.regularFanins.length = 2)
    (small : place ≤ 1) (found : ctx.attemptMulFanin i maximumView place = .ok (some matched)) :
    ∃ operands mulDef constDef inputDef, operands.mulPlace = place ∧
      MaximumOperands.Of operands ctx matched maximumDef mulDef constDef inputDef ∧
      ScalesBy operands constDef matched.alpha := by
  unfold attemptMulFanin at found
  obtain ⟨mulFanin, atMulFanin, found⟩ := bind_ok.1 found
  obtain ⟨mulView, atMulView, found⟩ := bind_ok.1 found
  obtain ⟨mulDef, atMulDef, found⟩ := bind_ok.1 found
  obtain ⟨isProduct, found⟩ := of_guard found
  obtain ⟨scalar, isScalar_, found⟩ := bind_ok.1 found
  cases scalar with
  | none => cases found
  | some scalarPlace =>
    obtain ⟨constFanin, atConstFanin, found⟩ := bind_ok.1 found
    obtain ⟨constView, atConstView, found⟩ := bind_ok.1 found
    obtain ⟨constDef, atConstDef, found⟩ := bind_ok.1 found
    obtain ⟨isConst, found⟩ := of_guard found
    obtain ⟨value, isValue, found⟩ := bind_ok.1 found
    cases value with
    | none => cases found
    | some alpha =>
      dsimp only at found
      obtain ⟨bounded, found⟩ := of_guard found
      obtain ⟨common, atCommon, found⟩ := bind_ok.1 found
      obtain ⟨scaled, atScaled, found⟩ := bind_ok.1 found
      obtain ⟨sameNode, found⟩ := of_guard found
      obtain ⟨-, found⟩ := of_guard found
      cases found
      rw [fetch_eq_ok] at atMulFanin atMulView atConstFanin atConstView atCommon atScaled
      have mulIndex := navigable.indexed.nodeIndex atMulView
      have constIndex := navigable.indexed.nodeIndex atConstView
      rw [nodeDef_eq_ok, mulIndex] at atMulDef
      rw [nodeDef_eq_ok, constIndex] at atConstDef
      simp only [Bool.or_eq_true, Bool.not_eq_true', bne_iff_ne, ne_eq, not_or,
        Bool.not_eq_false, not_not, Bool.not_eq_true] at isProduct isConst
      rw [ne_eq, not_not] at sameNode
      obtain ⟨⟨⟨isProduct, twoFactors⟩, -⟩, mulFree⟩ := isProduct
      obtain ⟨smallScalar, props, prop, isProps, atProp, scalarProp⟩ :=
        getMulScalarInputIndex_eq_some isScalar_
      obtain ⟨tensor, number, rest, isTensor, isNumbers, isAlpha⟩ := alphaValue_eq_some isValue
      obtain ⟨inputDef, atInputDef⟩ := navigable.nodeDef_of_fanin (fanin_of_getElem? atView atCommon)
      have mulOutput : mulFanin.index = 0 :=
        oneOutput (fanin_of_getElem? atView atMulFanin) atMulDef (by rw [isMulOrConst, isProduct, Bool.true_or])
      have atConst := fanin_of_getElem? atMulView atConstFanin
      have constOutput : constFanin.index = 0 :=
        oneOutput atConst atConstDef (by rw [isMulOrConst, isConst.1, Bool.or_true])
      have maximumInput := input_eq_placed navigable atView atMaximum free two small atMulFanin
        atCommon
      have mulInput := input_eq_placed navigable atMulView atMulDef mulFree twoFactors
        smallScalar atConstFanin atScaled
      rw [mulOutput, nameAt_of_nodeDef? atMulDef] at maximumInput
      rw [constOutput, nameAt_of_nodeDef? atConstDef] at mulInput
      refine ⟨⟨place, scalarPlace, ⟨ctx.view.nameAt common.nodeIndex, .port common.index⟩,
        ⟨ctx.view.nameAt scaled.nodeIndex, .port scaled.index⟩, tensor⟩, mulDef, constDef,
        inputDef, rfl, ?_, ?_⟩
      · exact
          { atMaximum := atMaximum
            atMul := by rw [mulIndex]; exact atMulDef
            atInput := atInputDef
            isMaximum := isMaximum_
            isMul := isProduct
            atConst := ⟨_, atConstDef⟩
            isConst := isConst.1
            maximumInput := maximumInput
            mulInput := mulInput
            isConstant := isTensor
            otherNode := nameAt_of_nodeDef? atInputDef
            scaledNode := by rw [← sameNode]; exact nameAt_of_nodeDef? atInputDef }
      · exact
          { single := (describes atMulDef atConst atConstDef isConst.1 isTensor isProps
              atProp).prod_eq_one scalarProp
            isAlpha := ⟨number, rest, isNumbers, isAlpha⟩
            bounded := by rw [← Bool.not_eq_true]; exact bounded }

theorem findMulWithMaximum_eq_some (navigable : ctx.view.Navigable) (oneOutput : OneOutput isMulOrConst ctx.view)
    (describes : DescribesConstants ctx) {i : Nat} {matched : MulWithMaximum}
    (found : ctx.findMulWithMaximum i = .ok (some matched)) : ∃ operands maximumDef mulDef constDef inputDef,
      MaximumOperands.Of operands ctx matched maximumDef mulDef constDef inputDef ∧
      ScalesBy operands constDef matched.alpha := by
  unfold findMulWithMaximum at found
  obtain ⟨maximumView, atView, found⟩ := bind_ok.1 found
  obtain ⟨maximumDef, atMaximum, found⟩ := bind_ok.1 found
  rw [fetch_eq_ok] at atView
  rw [nodeDef_eq_ok, navigable.indexed.nodeIndex atView] at atMaximum
  obtain ⟨tested, found⟩ := of_guard found
  simp only [Bool.or_eq_true, Bool.not_eq_true', bne_iff_ne, ne_eq, not_or, Bool.not_eq_false, not_not,
    Bool.not_eq_true] at tested
  obtain ⟨⟨isMaximum_, free⟩, two⟩ := tested
  obtain ⟨first, isFirst, found⟩ := bind_ok.1 found
  cases first with
  | some first =>
    cases found
    obtain ⟨operands, mulDef, constDef, inputDef, -, of, scales⟩ := attemptMulFanin_eq_some navigable
      oneOutput describes atView atMaximum isMaximum_ free two (by decide) isFirst
    exact ⟨operands, maximumDef, mulDef, constDef, inputDef, of, scales⟩
  | none =>
    obtain ⟨operands, mulDef, constDef, inputDef, -, of, scales⟩ := attemptMulFanin_eq_some navigable
      oneOutput describes atView atMaximum isMaximum_ free two (by decide) found
    exact ⟨operands, maximumDef, mulDef, constDef, inputDef, of, scales⟩

end Match

section Meaning

variable {A R : Type} [Field R] [LinearOrder R]

/-- `Mul`, and `MulNoNan` on real numbers. -/
def evalMul (x y : Lib.Tensor (Option R)) : Option (Lib.Tensor (Option R)) :=
  Lib.Tensor.elementwise (Option.map₂ (· * ·)) x y

def evalMaximum (x y : Lib.Tensor (Option R)) : Option (Lib.Tensor (Option R)) :=
  Lib.Tensor.elementwise (Option.map₂ max) x y

/-- An operation with a place for the first operand. -/
def evalPlaced (op : Lib.Tensor A → Lib.Tensor A → Option (Lib.Tensor A)) (place : Nat)
    (first second : Lib.Tensor A) : Option (Lib.Tensor A) :=
  if place = 0 then op first second else op second first

/-- The value of the `Maximum`, from the tensors that it and the `Mul` read. -/
def MaximumOperands.eval (operands : MaximumOperands) (value : TensorId → Lib.Tensor R) :
    Option (Lib.Tensor (Option R)) := do
  let product ← evalPlaced evalMul operands.scalarPlace (constantTensor R operands.constant)
    (realTensor (value operands.scaled))
  evalPlaced evalMaximum operands.mulPlace product (realTensor (value operands.other))

def leakyRelu (alpha : Option R) (x : Lib.Tensor R) : Lib.Tensor (Option R) :=
  ⟨x.extents, fun index =>
    if 0 < x.entry index then some (x.entry index) else alpha.map fun alpha => alpha * x.entry index⟩

def evalLeakyRelu (node : NodeDef) (value : TensorId → Lib.Tensor R) : Option (Lib.Tensor (Option R)) :=
  match node.input, node.attr.lookup "alpha" with
  | [input], some (.f alpha) => some (leakyRelu (realOf R alpha) (value input))
  | _, _ => none

def MaximumOperands.shape (operands : MaximumOperands) (extents : TensorId → List Nat) : Option (List Nat) := do
  let product ← broadcastExtents operands.constant.shape (extents operands.scaled)
  broadcastExtents product (extents operands.other)

variable (R) in
/-- The new node has the value of the one it replaces, whatever real tensors of these extents
are read. -/
def KeepsMaximum (ctx : RemapperContext)
    (matched : MulWithMaximum) (operands : MaximumOperands) (extents : TensorId → List Nat) : Prop :=
  ∃ node, ctx.leakyReluNode matched = .ok node ∧
    ∀ value : TensorId → Lib.Tensor R, (∀ tensor, (value tensor).extents = extents tensor) →
      ∃ replaced result, operands.eval value = some replaced ∧ evalLeakyRelu node value = some result ∧
        replaced.Same result

theorem evalPlaced_comm {f : A → A → A} (commutes : ∀ a b, f a b = f b a) (place : Nat) (x y : Lib.Tensor (Option A)) :
    evalPlaced (Lib.Tensor.elementwise (Option.map₂ f)) place x y = Lib.Tensor.elementwise (Option.map₂ f) x y := by
  unfold evalPlaced
  split
  · rfl
  · exact Lib.Tensor.elementwise_comm (fun a b => Option.map₂_comm commutes) y x

theorem map₂_scaled (f g : A → A → A) (factor : Option A) (x y : A) :
    Option.map₂ f (Option.map₂ g factor (some x)) (some y) = factor.map fun c => f (g c x) y := by
  cases factor <;> rfl

theorem MaximumOperands.eval_eq_some
    {value : TensorId → Lib.Tensor R} (sized : ∀ tensor, (value tensor).extents = extents tensor)
    {shape : List Nat} (isShape : operands.shape extents = some shape) :
    ∃ product replaced, broadcastExtents operands.constant.shape (extents operands.scaled) = some product ∧
      broadcastExtents product (extents operands.other) = some shape ∧
      operands.eval value = some replaced ∧ replaced.extents = shape ∧ ∀ index, replaced.entry index =
        ((constantTensor R operands.constant).entry
          (alignIndex operands.constant.shape (alignIndex product index))).map fun c =>
            max (c * (value operands.scaled).entry (alignIndex (extents operands.scaled) (alignIndex product index)))
              ((value operands.other).entry (alignIndex (extents operands.other) index)) := by
  obtain ⟨product, isProduct, isShape⟩ := Option.bind_eq_some_iff.1 isShape
  unfold MaximumOperands.eval evalMul evalMaximum
  simp only [evalPlaced_comm mul_comm, evalPlaced_comm max_comm]
  unfold Lib.Tensor.elementwise constantTensor realTensor
  simp only [sized, isProduct, isShape, Option.map_some, Option.bind_eq_bind, Option.bind_some]
  refine ⟨product, _, rfl, isShape, rfl, rfl, ?_⟩
  intro index
  exact map₂_scaled max (· * ·) _ _ _

/-- The node that the matcher's result stands for reads output 0 of the common producer. -/
theorem evalLeakyRelu_leakyReluNode {ctx : RemapperContext}
    (atMaximum : ctx.view.nodeDef? matched.maximum = some maximumDef)
    (atInput : ctx.view.nodeDef? matched.input = some inputDef) :
    ∃ node, ctx.leakyReluNode matched = .ok node ∧ ∀ value : TensorId → Lib.Tensor R, evalLeakyRelu node value =
        some (leakyRelu (realOf R matched.alpha) (value ⟨inputDef.name, .port 0⟩)) := by
  obtain ⟨maximum, atStored, rfl⟩ := Option.map_eq_some_iff.1 atMaximum
  obtain ⟨input, atStoredInput, rfl⟩ := Option.map_eq_some_iff.1 atInput
  unfold leakyReluNode
  rw [fetch_eq_ok.2 atStored, fetch_eq_ok.2 atStoredInput]
  exact ⟨_, rfl, fun value => rfl⟩

theorem keepsMaximum_iff_entries {ctx : RemapperContext}
    (of : MaximumOperands.Of operands ctx matched maximumDef mulDef constDef inputDef)
    {number : Number} {rest : List Number}
    (single : operands.constant.shape.prod = 1) (isNumbers : operands.constant.numbers = number :: rest)
    {shape product : List Nat} (isProduct : broadcastExtents operands.constant.shape (extents operands.scaled) = some product)
    (isShape : broadcastExtents product (extents operands.other) = some shape) :
    KeepsMaximum R ctx matched operands extents ↔ shape = extents ⟨inputDef.name, .port 0⟩ ∧
        ∀ value : TensorId → Lib.Tensor R, (∀ tensor, (value tensor).extents = extents tensor) →
          ∀ index ∈ indices shape, ((realOf R number).map fun c => max (c * (value operands.scaled).entry
                  (alignIndex (extents operands.scaled) (alignIndex product index)))
                ((value operands.other).entry (alignIndex (extents operands.other) index))) =
              (leakyRelu (realOf R matched.alpha) (value ⟨inputDef.name, .port 0⟩)).entry index := by
  obtain ⟨node, isNode, isLeaky⟩ := evalLeakyRelu_leakyReluNode (R := R) of.atMaximum of.atInput
  have isWhole : operands.shape extents = some shape := by
    unfold MaximumOperands.shape
    rw [isProduct]
    exact isShape
  have entries : ∀ value : TensorId → Lib.Tensor R, (∀ tensor, (value tensor).extents = extents tensor) →
      ∃ replaced, operands.eval value = some replaced ∧ replaced.extents = shape ∧
        ∀ index ∈ indices shape, replaced.entry index = (realOf R number).map fun c =>
          max (c * (value operands.scaled).entry
              (alignIndex (extents operands.scaled) (alignIndex product index)))
            ((value operands.other).entry (alignIndex (extents operands.other) index)) := by
    intro value sized
    obtain ⟨product', replaced, isProduct', -, isReplaced, isExtents, isEntry⟩ :=
      operands.eval_eq_some sized isWhole
    rw [isProduct] at isProduct'
    cases isProduct'
    refine ⟨replaced, isReplaced, isExtents, ?_⟩
    intro index mem
    rw [isEntry, constantTensor_entry single isNumbers]
    exact Lib.alignIndex_mem isProduct (Lib.alignIndex_mem isShape mem)
  constructor
  · intro ⟨node', isNode', keeps⟩
    rw [isNode] at isNode'
    cases isNode'
    constructor
    · obtain ⟨replaced, result, isReplaced, isResult, same⟩ :=
        keeps (fun tensor => ⟨extents tensor, fun _ => 0⟩) (fun tensor => rfl)
      obtain ⟨replaced', isReplaced', isExtents, -⟩ :=
        entries (fun tensor => ⟨extents tensor, fun _ => 0⟩) (fun tensor => rfl)
      rw [isReplaced'] at isReplaced
      rw [isLeaky] at isResult
      cases isReplaced
      cases isResult
      rw [← isExtents]
      exact same.1
    · intro value sized index mem
      obtain ⟨replaced, result, isReplaced, isResult, same⟩ := keeps value sized
      obtain ⟨replaced', isReplaced', isExtents, isEntry⟩ := entries value sized
      rw [isReplaced'] at isReplaced
      rw [isLeaky] at isResult
      cases isReplaced
      cases isResult
      rw [← isEntry index mem]
      exact same.2 index (by rw [isExtents]; exact mem)
  · intro ⟨sameExtents, sameEntries⟩
    refine ⟨node, isNode, ?_⟩
    intro value sized
    obtain ⟨replaced, isReplaced, isExtents, isEntry⟩ := entries value sized
    refine ⟨replaced, _, isReplaced, isLeaky value, ?_, ?_⟩
    · rw [isExtents, sameExtents]
      exact (sized _).symm
    · intro index mem
      rw [isExtents] at mem
      rw [isEntry index mem]
      exact sameEntries value sized index mem

variable [IsStrictOrderedRing R]

theorem max_eq_leaky {alpha x : R} (bounded : alpha ≤ 1) : max (alpha * x) x = if 0 < x then x else alpha * x := by
  split
  next pos => exact max_eq_right (by nlinarith)
  next notPositive => exact max_eq_left (by nlinarith [not_lt.1 notPositive])

/-- The constants for which tensors of one entry each tell the two nodes apart. -/
theorem scaled_of_constants {number alpha : Number} {first second read : TensorId}
    (isFirst : first.node = read.node) (isSecond : second.node = read.node) (same : ∀ value : TensorId → R,
      ((realOf R number).map fun c => max (c * value second) (value first)) =
        if 0 < value read then some (value read) else (realOf R alpha).map fun alpha => alpha * value read) :
    ∃ c : Rat, number = .finite c ∧ alpha = .finite c ∧ first.index = read.index ∧
      (second.index = read.index ∨ c = 0) := by
  have atOne := same fun _ => 1
  have atMinusOne := same fun _ => -1
  rw [if_pos one_pos] at atOne
  rw [if_neg (by norm_num)] at atMinusOne
  cases number with
  | infinite negative => cases atOne
  | nan => cases atOne
  | finite c =>
    cases alpha with
    | infinite negative => cases atMinusOne
    | nan => cases atMinusOne
    | finite alpha =>
      have atOne : max ((c : R) * 1) 1 = 1 := Option.some.inj atOne
      have atMinusOne : max ((c : R) * -1) (-1) = alpha * -1 := Option.some.inj atMinusOne
      have below : (c : R) ≤ 1 := by
        rw [max_eq_right_iff, mul_one] at atOne
        exact atOne
      rw [max_eq_left (by linarith)] at atMinusOne
      have sameFactor : c = alpha := by
        have cast : (c : R) = alpha := by linarith
        exact_mod_cast cast
      have ofNode : ∀ {tensor : TensorId}, tensor.node = read.node → tensor.index ≠ read.index → tensor ≠ read := by
        intro tensor _ ne isRead
        exact ne (congrArg TensorId.index isRead)
      have firstIndex : first.index = read.index := by
        by_contra ne
        -- Output 0 is zero, the others are one.
        have atOther := same fun tensor => if tensor = read then 0 else 1
        simp only [if_pos, lt_irrefl, if_false, if_neg (ofNode isFirst ne)] at atOther
        have atOther : max ((c : R) * if second = read then 0 else 1) 1 = alpha * 0 :=
          Option.some.inj atOther
        have atLeast := le_max_right ((c : R) * if second = read then 0 else 1) 1
        rw [atOther, mul_zero] at atLeast
        exact absurd atLeast (not_le.2 one_pos)
      refine ⟨c, rfl, by rw [sameFactor], firstIndex, ?_⟩
      by_contra neither
      rw [not_or] at neither
      have isRead : first = read := by
        cases first
        cases read
        cases isFirst
        cases firstIndex
        rfl
      -- The product reads a tensor of the sign of the factor, or of the other sign.
      have scaled : ∀ entry : R, max ((c : R) * entry) 0 = 0 := by
        intro entry
        have atOther := same fun tensor => if tensor = read then 0 else entry
        simp only [isRead, if_pos, lt_irrefl, if_false, if_neg (ofNode isSecond neither.1)] at atOther
        have atOther : max ((c : R) * entry) 0 = alpha * 0 := Option.some.inj atOther
        rw [atOther, mul_zero]
      have notPositive := max_eq_right_iff.1 (scaled 1)
      have notNegative := max_eq_right_iff.1 (scaled (-1))
      have isZero : (c : R) = 0 := by linarith
      exact neither.2 (by exact_mod_cast isZero)

theorem product_eq_shape {constant product shape : List Nat} (single : constant.prod = 1)
    (isProduct : broadcastExtents constant shape = some product)
    (isShape : broadcastExtents product shape = some shape) : product = shape := by
  have ones : ∀ extent ∈ constant, extent = 1 := by
    intro extent mem
    rw [← Nat.dvd_one, ← single]
    exact List.dvd_prod mem
  have shorter : constant.length ≤ shape.length := by
    have productLength := Lib.length_broadcastExtents isProduct
    have shapeLength := Lib.length_broadcastExtents isShape
    omega
  rw [Lib.broadcastExtents_ones ones shorter] at isProduct
  exact (Option.some.inj isProduct).symm

theorem keepsMaximum_iff {ctx : RemapperContext}
    (of : MaximumOperands.Of operands ctx matched maximumDef mulDef constDef inputDef)
    (scales : ScalesBy operands constDef matched.alpha) {shape : List Nat}
    (isWhole : operands.shape extents = some shape) : KeepsMaximum R ctx matched operands extents ↔
      shape = extents ⟨inputDef.name, .port 0⟩ ∧
      (0 ∈ shape ∨ ∃ c : Rat, operands.constant.numbers.head? = some (.finite c) ∧
        toFloat operands.constant.dtype (.finite c) = .finite c ∧ operands.other.index = .port 0 ∧
        (operands.scaled.index = .port 0 ∨ c = 0)) := by
  obtain ⟨product, isProduct, isShape⟩ := Option.bind_eq_some_iff.1 isWhole
  obtain ⟨number, rest, isNumbers, isAlpha⟩ := scales.isAlpha
  rw [keepsMaximum_iff_entries of scales.single isNumbers isProduct isShape, isNumbers, List.head?_cons]
  apply and_congr_right
  intro sameExtents
  constructor
  · intro same
    by_cases isEmpty : 0 ∈ shape
    · exact .inl isEmpty
    · obtain ⟨index, mem⟩ := Lib.exists_mem_indices isEmpty
      obtain ⟨c, isFinite, isFactor, otherIndex, scaledIndex⟩ :=
        @scaled_of_constants R _ _ _ number matched.alpha operands.other operands.scaled
          ⟨inputDef.name, .port 0⟩ of.otherNode of.scaledNode
          (fun value => same (fun tensor => ⟨extents tensor, fun _ => value tensor⟩) (fun tensor => rfl) index mem)
      rw [isFactor, isFinite] at isAlpha
      exact .inr ⟨c, by rw [isFinite], isAlpha.symm, otherIndex, scaledIndex⟩
  · intro right value sized index mem
    rcases right with isEmpty | ⟨c, isFinite, isFloat, otherIndex, scaledIndex⟩
    · exact absurd mem (Lib.not_mem_indices isEmpty)
    · have isNumber : number = .finite c := Option.some.inj isFinite
      rw [isNumber] at isAlpha ⊢
      rw [isFloat] at isAlpha
      have isRead : ∀ {tensor : TensorId}, tensor.node = inputDef.name → tensor.index = .port 0 →
          tensor = ⟨inputDef.name, .port 0⟩ := by
        intro tensor isNode isIndex
        cases tensor
        cases isNode
        cases isIndex
        rfl
      have bounded := scales.bounded
      rw [isAlpha] at bounded ⊢
      have below : (c : R) ≤ 1 := by
        have notAbove : ¬ (1 : Rat) < c := of_decide_eq_false bounded
        exact_mod_cast not_lt.1 notAbove
      rw [isRead of.otherNode otherIndex, ← sameExtents, Lib.alignIndex_self mem]
      change some (max ((c : R) * _) _) = if _ then _ else some ((c : R) * _)
      rw [← apply_ite some]
      congr 1
      rcases scaledIndex with scaledIndex | isZero
      · rw [isRead of.otherNode otherIndex, ← sameExtents] at isShape
        rw [isRead of.scaledNode scaledIndex, ← sameExtents] at isProduct
        have isWhole := product_eq_shape scales.single isProduct isShape
        rw [isRead of.scaledNode scaledIndex, ← sameExtents, isWhole, Lib.alignIndex_self mem,
          Lib.alignIndex_self mem]
        exact max_eq_leaky below
      · rw [isZero, Rat.cast_zero, zero_mul, zero_mul]
        have atZero := max_eq_leaky (x := (value ⟨inputDef.name, .port 0⟩).entry index)
          (zero_le_one : (0 : R) ≤ 1)
        rwa [zero_mul] at atZero

/-- The fusion keeps the value exactly if the new node reads a tensor of the extents of the
replaced one and, unless that is empty, the constant is a real number that is a float, and
both nodes read output 0 of the common producer. -/
theorem findMulWithMaximum_keeps_iff {ctx : RemapperContext} (navigable : ctx.view.Navigable)
    (oneOutput : OneOutput isMulOrConst ctx.view) (describes : DescribesConstants ctx) {i : Nat} {matched : MulWithMaximum}
    (found : ctx.findMulWithMaximum i = .ok (some matched)) : ∃ operands maximumDef mulDef constDef inputDef,
      MaximumOperands.Of operands ctx matched maximumDef mulDef constDef inputDef ∧
      ∀ extents shape, operands.shape extents = some shape → (KeepsMaximum R ctx matched operands extents ↔
          shape = extents ⟨inputDef.name, .port 0⟩ ∧
          (0 ∈ shape ∨ ∃ c : Rat, operands.constant.numbers.head? = some (.finite c) ∧
            toFloat operands.constant.dtype (.finite c) = .finite c ∧ operands.other.index = .port 0 ∧
            (operands.scaled.index = .port 0 ∨ c = 0))) := by
  obtain ⟨operands, maximumDef, mulDef, constDef, inputDef, of, scales⟩ :=
    findMulWithMaximum_eq_some navigable oneOutput describes found
  refine ⟨operands, maximumDef, mulDef, constDef, inputDef, of, ?_⟩
  intro extents shape isWhole
  exact keepsMaximum_iff of scales isWhole

end Meaning

/-! ## Two graphs -/

def halfAttr : AttrMap :=
  ((∅ : AttrMap).insert "dtype" (.type .float)).insert "value" (.tensor ⟨.float, [], [.finite (1 / 2)], []⟩)

/-- `max(x, 1/2 * x)`, with `x` an output of an op with two. -/
def scaledGraph (port : Nat) : GraphDef :=
  [⟨"p", "Placeholder", "", [], ∅⟩, ⟨"x", "Unpack", "", [⟨"p", .port 0⟩], ∅⟩, ⟨"c", "Const", "", [], halfAttr⟩,
    ⟨"mul", "Mul", "", [⟨"c", .port 0⟩, ⟨"x", .port port⟩], (∅ : AttrMap).insert "T" (.type .float)⟩,
    ⟨"maximum", "Maximum", "", [⟨"x", .port port⟩, ⟨"mul", .port 0⟩], (∅ : AttrMap).insert "T" (.type .float)⟩]

def scaledShapes (name : String) : Except Failure (List TensorShapeProto) :=
  if name = "mul" then .ok [⟨false, []⟩, ⟨false, [2]⟩]
  else if name = "maximum" then .ok [⟨false, [2]⟩, ⟨false, [2]⟩]
  else .ok []

def scaledContext (view : MutableGraphView) : RemapperContext :=
  ⟨view, [], scaledShapes, scaledShapes, fun _ => false, fun _ => false⟩

section Example

variable {view : MutableGraphView} {port : Nat}

section

variable (isGraph : view.graph.map StoredNode.nodeDef = scaledGraph port)

include isGraph

theorem scaledGraph_cases {def_ : NodeDef} (atDef : view.nodeDef? i = some def_) :
    (i = 2 ∧ def_ = ⟨"c", "Const", "", [], halfAttr⟩) ∨ (i = 3 ∧ isAnyConst def_ = false) ∨
      isMulOrConst def_ = false := by
  rw [nodeDef?_of_graph isGraph] at atDef
  match i, atDef with
  | 0, atDef =>
    cases atDef
    exact .inr (.inr rfl)
  | 1, atDef =>
    cases atDef
    exact .inr (.inr rfl)
  | 2, atDef =>
    cases atDef
    exact .inl ⟨rfl, rfl⟩
  | 3, atDef =>
    cases atDef
    exact .inr (.inl ⟨rfl, rfl⟩)
  | 4, atDef =>
    cases atDef
    exact .inr (.inr rfl)

theorem scaledGraph_oneOutput (ports : view.allFanins (fun _ _ fanin => fanin.index == 0 || fanin.nodeIndex == 1) = true) :
    OneOutput isMulOrConst view := by
  intro i k fanin def_ atFanin atDef single
  have ofFanin := of_all_fanins ports atFanin
  rw [Bool.or_eq_true, beq_iff_eq, beq_iff_eq] at ofFanin
  rcases ofFanin with isFirst | isProducer
  · exact isFirst
  · rw [isProducer] at atDef
    rcases scaledGraph_cases isGraph atDef with ⟨absurd_, -⟩ | ⟨absurd_, -⟩ | other
    · cases absurd_
    · cases absurd_
    · rw [other] at single
      cases single

theorem scaledGraph_describes (reads : view.allFanins (fun i k fanin => fanin.nodeIndex != 2 || i == 3 && k == 0) = true) :
    DescribesConstants (scaledContext view) := by
  intro i k fanin def_ constDef props prop tensor atDef atFanin atConst isConst isTensor isProps atProp
  rcases scaledGraph_cases isGraph atConst with ⟨isIndex, rfl⟩ | ⟨-, other⟩ | other
  · have ofFanin := of_all_fanins reads atFanin
    simp only [isIndex, bne_self_eq_false, Bool.false_or, Bool.and_eq_true, beq_iff_eq] at ofFanin
    change view.nodeDef? i = some def_ at atDef
    rw [nodeDef?_of_graph isGraph, ofFanin.1] at atDef
    rw [ofFanin.2] at atProp
    cases atDef
    cases isProps
    cases atProp
    cases isTensor
    exact ⟨fun _ => List.Forall₂.nil, fun isUnknown => by cases isUnknown⟩
  · rw [other] at isConst
    cases isConst
  · rw [isMulOrConst, isConst, Bool.or_true] at other
    cases other

theorem scaledGraph_constant
    (of : MaximumOperands.Of operands (scaledContext view) ⟨4, 3, 1, alpha⟩ maximumDef mulDef constDef inputDef) :
    operands.constant = ⟨.float, [], [.finite (1 / 2)], []⟩ := by
  obtain ⟨i, atConst⟩ := of.atConst
  have isConst := of.isConst
  have isConstant := of.isConstant
  rcases scaledGraph_cases isGraph atConst with ⟨-, rfl⟩ | ⟨-, other⟩ | other
  · exact (Except.ok.inj isConstant).symm
  · rw [isConst] at other
    cases other
  · rw [isMulOrConst, isConst, Bool.or_true] at other
    cases other

theorem scaledGraph_operands
    (of : MaximumOperands.Of operands (scaledContext view) ⟨4, 3, 1, alpha⟩ maximumDef mulDef constDef inputDef) :
    operands.other = ⟨"x", .port port⟩ ∧ operands.scaled = ⟨"x", .port port⟩ ∧ inputDef.name = "x" := by
  have isMaximum := (nodeDef?_of_graph isGraph 4).symm.trans of.atMaximum
  have isMul := (nodeDef?_of_graph isGraph 3).symm.trans of.atMul
  have isInput := (nodeDef?_of_graph isGraph 1).symm.trans of.atInput
  cases isMaximum
  cases isMul
  cases isInput
  have maximumInput := of.maximumInput
  have mulInput := of.mulInput
  have scaledNode := of.scaledNode
  unfold placed at maximumInput mulInput
  refine ⟨?_, ?_, rfl⟩
  · grind
  · grind

end

structure ScaledView (view : MutableGraphView) (port : Nat) : Prop where
  built : construct (scaledGraph port) = .ok view
  isGraph : view.graph.map StoredNode.nodeDef = scaledGraph port
  ports : view.allFanins (fun _ _ fanin => fanin.index == 0 || fanin.nodeIndex == 1) = true
  reads : view.allFanins (fun i k fanin => fanin.nodeIndex != 2 || i == 3 && k == 0) = true
  found : (scaledContext view).findMulWithMaximum 4 = .ok (some ⟨4, 3, 1, .finite (1 / 2)⟩)

end Example

/-- One output read throughout. -/
theorem scaledGraph_matched : ∃ view, construct (scaledGraph 0) = .ok view ∧
    (scaledContext view).findMulWithMaximum 4 = .ok (some ⟨4, 3, 1, .finite (1 / 2)⟩) ∧
    ∃ operands maximumDef mulDef constDef inputDef,
      MaximumOperands.Of operands (scaledContext view) ⟨4, 3, 1, .finite (1 / 2)⟩ maximumDef mulDef constDef inputDef ∧
      ∀ extents shape, operands.shape extents = some shape →
        (KeepsMaximum Rat (scaledContext view) ⟨4, 3, 1, .finite (1 / 2)⟩ operands extents ↔
          shape = extents ⟨inputDef.name, .port 0⟩ ∧
          (0 ∈ shape ∨ ∃ c : Rat, operands.constant.numbers.head? = some (.finite c) ∧
            toFloat operands.constant.dtype (.finite c) = .finite c ∧ operands.other.index = .port 0 ∧
            (operands.scaled.index = .port 0 ∨ c = 0))) := by
  obtain ⟨view, built, isGraph, ports, reads, found⟩ : ∃ view, ScaledView view 0 := ⟨_, rfl, rfl, rfl, rfl, by decide +kernel⟩
  exact ⟨view, built, found, @findMulWithMaximum_keeps_iff Rat _ _ _ _ (construct_inv built).1.navigable
    (scaledGraph_oneOutput isGraph ports) (scaledGraph_describes isGraph reads) _ _ found⟩

/-- Both nodes read output 1, and the new node output 0. -/
theorem second_output_lost : ∃ view, construct (scaledGraph 1) = .ok view ∧ view.Navigable ∧
    OneOutput isMulOrConst view ∧ DescribesConstants (scaledContext view) ∧
    (scaledContext view).findMulWithMaximum 4 = .ok (some ⟨4, 3, 1, .finite (1 / 2)⟩) ∧
    ∃ operands maximumDef mulDef constDef inputDef,
      MaximumOperands.Of operands (scaledContext view) ⟨4, 3, 1, .finite (1 / 2)⟩ maximumDef mulDef constDef inputDef ∧
      operands.shape (fun _ => [2]) = some [2] ∧
      ¬ KeepsMaximum Rat (scaledContext view) ⟨4, 3, 1, .finite (1 / 2)⟩ operands (fun _ => [2]) := by
  obtain ⟨view, built, isGraph, ports, reads, found⟩ : ∃ view, ScaledView view 1 := ⟨_, rfl, rfl, rfl, rfl, by decide +kernel⟩
  have navigable := (construct_inv built).1.navigable
  have oneOutput : OneOutput isMulOrConst view := scaledGraph_oneOutput isGraph ports
  have describes : DescribesConstants (scaledContext view) := scaledGraph_describes isGraph reads
  refine ⟨view, built, navigable, oneOutput, describes, found, ?_⟩
  obtain ⟨operands, maximumDef, mulDef, constDef, inputDef, of, scales⟩ :=
    @findMulWithMaximum_eq_some (scaledContext view) navigable oneOutput describes _ _ found
  obtain ⟨isOther, isScaled, -⟩ := scaledGraph_operands isGraph of
  have isConstant := scaledGraph_constant isGraph of
  have isWhole : operands.shape (fun _ => [2]) = some [2] := by
    unfold MaximumOperands.shape
    rw [isConstant]
    rfl
  refine ⟨operands, maximumDef, mulDef, constDef, inputDef, of, isWhole, ?_⟩
  rw [keepsMaximum_iff of scales isWhole]
  intro ⟨_, right⟩
  rcases right with isEmpty | ⟨c, -, -, otherIndex, -⟩
  · exact absurd isEmpty (by decide)
  · rw [isOther] at otherIndex
    cases otherIndex

end Itex.Remapper
