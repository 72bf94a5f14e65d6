import Itex.GraphUtils.Construction
import Itex.GraphUtils.Renumbering
import Itex.Kernels.Convolution
import Itex.Remapper.Constants

/-!
Contract: the fusion of a contraction between `SpaceToBatchND` and `BatchToSpaceND` to a dilated
contraction (`itex/core/graph/remapper/remapper.cc`).

Owns: `FindDilatedContraction`, the node that `AddDilatedContractionNode` adds, and when this node
gives the result of the chain of a `Conv2D`.
-/

namespace Itex.Remapper

open Itex.Graph (DataType Failure AttrValue PortId TensorId AttrMap NodeDef GraphDef TensorProto)
open Itex.Lib (bind_ok gathered gatherSum unpadded of_guard)
open Itex.Kernels (Images ImageShape Filter FilterShape Place Tap Blocks Conv2DAttrs Conv2DPlan conv2DAttrs conv2D
  spaceToBatchND batchToSpaceND SpaceToBatch BatchToSpace getStringAttr getIntsAttr)
open Itex.GraphUtils Itex.GraphUtils.MutableGraphView

variable {blockShape sides : TensorProto} {blocks : Blocks} {contractionView : MutableNodeView}
  {device name op : String} {input : List TensorId} {view : MutableGraphView} {w : Filter} {x y : Images}

structure DilatedContraction where
  stob : Nat
  contraction : Nat
  btos : Nat
deriving DecidableEq, Repr

def isBatchToSpaceND (node : NodeDef) : Bool := node.op == "BatchToSpaceND"

def isSpaceToBatchND (node : NodeDef) : Bool := node.op == "SpaceToBatchND"

def isConv2D (node : NodeDef) : Bool := node.op == "Conv2D"

def isDepthwiseConv2dNative (node : NodeDef) : Bool := node.op == "DepthwiseConv2dNative"

def hasTypeAttr (node : NodeDef) (expected : DataType) (typeAttr : String) : Bool :=
  getDataTypeFromAttr node typeAttr == expected

def haveSameDataType (lhs rhs : NodeDef) : Bool := getDataTypeFromAttr lhs "T" == getDataTypeFromAttr rhs "T"

/-- The attributes that `Conv2D` declares. -/
def contractionAttrs : List String :=
  ["T", "strides", "use_cudnn_on_gpu", "padding", "explicit_paddings", "data_format", "dilations"]

namespace RemapperContext

variable (ctx : RemapperContext)

def isDilatable (contractionView : MutableNodeView) (btos contraction : NodeDef) : Except Failure Bool := do
  if contractionView.numRegularFanouts ≠ 1 then return false
  else if !(isConv2D contraction || isDepthwiseConv2dNative contraction) || !haveSameDataType btos contraction ||
      hasControlFaninOrFanout contractionView || !hasAtMostOneFanoutAtPort0 contractionView ||
      ctx.isInPreserveSet contraction then return false
  else
    let dataFormat ← getStringAttr contraction "data_format"
    if dataFormat ≠ "NHWC" then return false
    else
      -- In dilated convolutions from the API, the padding is VALID and the dilations are 1.
      let paddingStr ← getStringAttr contraction "padding"
      if paddingStr ≠ "VALID" then return false
      else
        let dilations ← getIntsAttr contraction "dilations"
        return dilations.all (· == 1)

/-- The position of the `SpaceToBatchND` before the contraction. -/
def findStob (contractionView : MutableNodeView) : Except Failure (Option Nat) := do
  let stobFanin ← fetch contractionView.regularFanins 0
  let stobView ← fetch ctx.view.nodes stobFanin.nodeIndex
  let stob ← ctx.nodeDef stobView
  if hasControlFaninOrFanout stobView then return none
  else if !isSpaceToBatchND stob then return none
  else if stobView.regularFanins.length < 3 then return none
  else if stobView.numRegularFanouts ≠ 1 then return none
  else if !hasTypeAttr stob .int32 "Tpaddings" then return none
  else
    let paddingsDef ← ctx.faninDef stobView 2
    if !isConstant paddingsDef then return none
    else return some stobView.nodeIndex

def findDilatedContraction (nodeIndex : Nat) : Except Failure (Option DilatedContraction) := do
  let btosView ← fetch ctx.view.nodes nodeIndex
  let btos ← ctx.nodeDef btosView
  if !isBatchToSpaceND btos || hasControlFanin btosView then return none
  else if btosView.regularFanins.length < 3 then return none
  else if btosView.numRegularFanouts ≠ 1 then return none
  else if !hasTypeAttr btos .int32 "Tblock_shape" || !hasTypeAttr btos .int32 "Tcrops" then return none
  else
    let blockShapeDef ← ctx.faninDef btosView 1
    let cropsDef ← ctx.faninDef btosView 2
    if !isConstant blockShapeDef || !isConstant cropsDef then return none
    else
      let blockShape ← getTensorFromConstant blockShapeDef
      if numElements blockShape ≠ 2 then return none
      else
        let contractionFanin ← fetch btosView.regularFanins 0
        let contractionView ← fetch ctx.view.nodes contractionFanin.nodeIndex
        let contraction ← ctx.nodeDef contractionView
        let dilatable ← ctx.isDilatable contractionView btos contraction
        if !dilatable then return none
        else
          let stob ← ctx.findStob contractionView
          return stob.map fun stob => ⟨stob, contractionView.nodeIndex, nodeIndex⟩

/-- The paddings of the new node: those of the dims less the crops. -/
def realPaddings (paddingsData cropsData : List Int) : Except Failure (List Int) :=
  (List.range 4).mapM fun i => do
    let padding ← fetch paddingsData i
    let crop ← fetch cropsData i
    return padding - crop

def dilatedAttrs (contraction : NodeDef) (blockRows blockCols : Int) (realPaddings : List Int) : AttrMap :=
  let dilated := (copyAllAttrs contractionAttrs contraction).insert "dilations" (.ints [1, blockRows, blockCols, 1])
  if realPaddings.all (· == 0) then dilated
  else (dilated.insert "padding" (.s "EXPLICIT")).insert "explicit_paddings" (.ints ([0, 0] ++ realPaddings ++ [0, 0]))

/-- The node that `AddDilatedContractionNode` adds. -/
def dilatedNode (matched : DilatedContraction) : Except Failure NodeDef := do
  let stob ← fetch ctx.view.graph matched.stob
  let contraction ← fetch ctx.view.graph matched.contraction
  let btos ← fetch ctx.view.graph matched.btos
  let input ← fetch stob.nodeDef.input 0
  let filter ← fetch contraction.nodeDef.input 1
  let btosView ← fetch ctx.view.nodes matched.btos
  let blockShapeDef ← ctx.faninDef btosView 1
  let cropsDef ← ctx.faninDef btosView 2
  let stobView ← fetch ctx.view.nodes matched.stob
  let paddingsDef ← ctx.faninDef stobView 2
  let blockShape ← getTensorFromConstant blockShapeDef
  let blockShapeData ← flatInts blockShape .int32
  let blockRows ← fetch blockShapeData 0
  let blockCols ← fetch blockShapeData 1
  let paddings ← getTensorFromConstant paddingsDef
  let crops ← getTensorFromConstant cropsDef
  let paddingsData ← flatInts paddings .int32
  let cropsData ← flatInts crops .int32
  let real ← realPaddings paddingsData cropsData
  return {
    name := btos.nodeDef.name
    op := contraction.nodeDef.op
    device := contraction.nodeDef.device
    input := [input, filter]
    attr := dilatedAttrs contraction.nodeDef blockRows blockCols real }

end RemapperContext

def chainOutput (contraction : NodeDef) (stobBlockShape paddings btosBlockShape crops : TensorProto) (x : Images)
    (w : Filter) : Except Failure Images := do
  let blocked ← spaceToBatchND x stobBlockShape paddings
  let attrs ← conv2DAttrs contraction
  let convolved ← conv2D attrs blocked w
  batchToSpaceND convolved btosBlockShape crops

/-- The value of one `Conv2D`. -/
def conv2DOutput (node : NodeDef) (x : Images) (w : Filter) : Except Failure Images := do
  let attrs ← conv2DAttrs node
  conv2D attrs x w

structure ChainPlan where
  space : Blocks
  blocked : ImageShape
  attrs : Conv2DAttrs
  conv : Conv2DPlan
  batch : Blocks
  shape : ImageShape

/-- What the shapes of a defined chain are. -/
structure ChainPlan.Of (plan : ChainPlan) (contraction : NodeDef)
    (stobBlockShape paddings btosBlockShape crops : TensorProto) (xs : ImageShape) (ws : FilterShape) : Prop where
  space : SpaceToBatch stobBlockShape paddings xs plan.space plan.blocked
  attrs : conv2DAttrs contraction = .ok plan.attrs
  conv : plan.conv.Of plan.attrs plan.blocked ws
  batch : BatchToSpace btosBlockShape crops (plan.conv.outputShape plan.blocked ws) plan.batch plan.shape

namespace ChainPlan

variable (plan : ChainPlan)

/-- What a tap of an output of the chain reads. -/
def position (xs : ImageShape) (ws : FilterShape) (output : Place) (tap : Tap) : Option Place :=
  (plan.conv.position plan.blocked ws (plan.batch.batchPlace plan.shape.batch output) tap).bind
    (plan.space.spacePosition xs)

/-- The convolution of the new node, for an output of this shape. -/
def dilated (xs : ImageShape) (ws : FilterShape) : Conv2DPlan where
  rows := ⟨plan.attrs.strideRows.toNat, plan.batch.rows.block, plan.space.rows.before - plan.batch.rows.before,
    plan.shape.rows⟩
  cols := ⟨plan.attrs.strideCols.toNat, plan.batch.cols.block, plan.space.cols.before - plan.batch.cols.before,
    plan.shape.cols⟩
  groups := xs.depth / ws.inDepth

end ChainPlan

theorem chainOutput_eq_ok {contraction : NodeDef} {stobBlockShape paddings btosBlockShape crops : TensorProto}
    : chainOutput contraction stobBlockShape paddings btosBlockShape crops x w = .ok y ↔
      ∃ plan : ChainPlan, plan.Of contraction stobBlockShape paddings btosBlockShape crops x.shape w.shape ∧
        y = ⟨plan.shape, fun output => gatherSum w.shape.taps
          (fun tap => w.entry tap (plan.batch.batchPlace plan.shape.batch output).channel)
          (plan.position x.shape w.shape output) x.entry⟩ := by
  unfold chainOutput spaceToBatchND conv2D batchToSpaceND
  simp only [bind_ok]
  constructor
  · rintro ⟨blocked, ⟨⟨space, blockedShape⟩, isSpace, isBlocked⟩, attrs, isAttrs, convolved,
      ⟨conv, isConv, isConvolved⟩, ⟨batch, shape⟩, isBatch, isOutput⟩
    cases isBlocked
    cases isConvolved
    cases isOutput
    refine ⟨⟨space, blockedShape, attrs, conv, batch, shape⟩, ⟨Kernels.spaceToBatchShape_eq_ok.1 isSpace, isAttrs,
      Kernels.conv2DPlan_eq_ok.1 isConv, Kernels.batchToSpaceShape_eq_ok.1 isBatch⟩, ?_⟩
    dsimp only
    congr 1
    funext output
    exact Lib.gatherSum_gathered _ _ _ _ _
  · rintro ⟨plan, of, rfl⟩
    refine ⟨_, ⟨_, Kernels.spaceToBatchShape_eq_ok.2 of.space, rfl⟩, _, of.attrs, _,
      ⟨_, Kernels.conv2DPlan_eq_ok.2 of.conv, rfl⟩, _, Kernels.batchToSpaceShape_eq_ok.2 of.batch, ?_⟩
    dsimp only
    refine congrArg Except.ok (congrArg (Images.mk plan.shape) (funext fun output => ?_))
    exact Lib.gatherSum_gathered _ _ _ _ _

theorem conv2DOutput_eq_ok {node : NodeDef} : conv2DOutput node x w = .ok y ↔
    ∃ attrs, conv2DAttrs node = .ok attrs ∧ ∃ plan : Conv2DPlan, plan.Of attrs x.shape w.shape ∧
      y = ⟨plan.outputShape x.shape w.shape, fun output => gatherSum w.shape.taps
        (fun tap => w.entry tap output.channel) (plan.position x.shape w.shape output) x.entry⟩ := by
  unfold conv2DOutput conv2D
  simp only [bind_ok, Kernels.conv2DPlan_eq_ok]
  constructor
  · rintro ⟨attrs, isAttrs, plan, of, isOutput⟩
    exact ⟨attrs, isAttrs, plan, of, (Except.ok.inj isOutput).symm⟩
  · rintro ⟨attrs, isAttrs, plan, of, rfl⟩
    exact ⟨attrs, isAttrs, plan, of, rfl⟩

section Match

variable {ctx : RemapperContext} {i : Nat}

structure Dilatable (contraction : NodeDef) : Prop where
  kind : isConv2D contraction = true ∨ isDepthwiseConv2dNative contraction = true
  dataFormat : getStringAttr contraction "data_format" = .ok "NHWC"
  padding : getStringAttr contraction "padding" = .ok "VALID"
  dilations : ∃ dilations, getIntsAttr contraction "dilations" = .ok dilations ∧ ∀ dilation ∈ dilations, dilation = 1

theorem isDilatable_eq_true {btos contraction : NodeDef}
    (dilatable : ctx.isDilatable contractionView btos contraction = .ok true) : Dilatable contraction := by
  unfold RemapperContext.isDilatable at dilatable
  split at dilatable
  · cases dilatable
  obtain ⟨tests, dilatable⟩ := of_guard dilatable
  obtain ⟨dataFormat, isFormat, dilatable⟩ := bind_ok.1 dilatable
  obtain ⟨isNhwc, dilatable⟩ := of_guard dilatable
  obtain ⟨padding, isPadding, dilatable⟩ := bind_ok.1 dilatable
  obtain ⟨isValid, dilatable⟩ := of_guard dilatable
  obtain ⟨dilations, isDilations, dilatable⟩ := bind_ok.1 dilatable
  simp only [Bool.or_eq_true, Bool.not_eq_true', not_or, Bool.not_eq_false] at tests
  rw [not_not.1 isNhwc] at isFormat
  rw [not_not.1 isValid] at isPadding
  refine ⟨tests.1.1.1.1, isFormat, isPadding, dilations, isDilations, ?_⟩
  intro dilation mem
  exact beq_iff_eq.1 (List.all_eq_true.1 (Except.ok.inj dilatable) dilation mem)

/-- A tensor that is the output of a constant of `int32`. -/
def ReadsInt32 (view : MutableGraphView) (tensor : TensorId) (proto : TensorProto) : Prop :=
  ∃ p def_, view.nodeDef? p = some def_ ∧ tensor = ⟨def_.name, .port 0⟩ ∧ getTensorFromConstant def_ = .ok proto ∧
    proto.dtype = .int32 ∧ proto.ints.length = proto.shape.prod

/-- The nodes of a chain, with the inputs of the first and of the contraction. -/
structure DilatedChain where
  stob : NodeDef
  contraction : NodeDef
  btos : NodeDef
  x : TensorId
  filter : TensorId
  paddings : TensorProto
  blockShape : TensorProto
  crops : TensorProto

structure DilatedChain.Of (chain : DilatedChain) (ctx : RemapperContext) (matched : DilatedContraction) : Prop where
  stob : ctx.view.nodeDef? matched.stob = some chain.stob
  contraction : ctx.view.nodeDef? matched.contraction = some chain.contraction
  btos : ctx.view.nodeDef? matched.btos = some chain.btos
  stobInput : ∃ blockShape paddings others, chain.stob.input = chain.x :: blockShape :: paddings :: others ∧
    ReadsInt32 ctx.view paddings chain.paddings
  contractionInput : ∃ source others, chain.contraction.input = source :: chain.filter :: others
  btosInput : ∃ source blockShape crops others, chain.btos.input = source :: blockShape :: crops :: others ∧
    ReadsInt32 ctx.view blockShape chain.blockShape ∧ ReadsInt32 ctx.view crops chain.crops

def isChainOp (node : NodeDef) : Bool := isConv2D node || isDepthwiseConv2dNative node || isSpaceToBatchND node

structure DilatedChain.Test (chain : DilatedChain) : Prop where
  stob : isSpaceToBatchND chain.stob = true
  btos : isBatchToSpaceND chain.btos = true
  dilatable : Dilatable chain.contraction
  fromStob : chain.contraction.input[0]? = some ⟨chain.stob.name, .port 0⟩
  fromContraction : chain.btos.input[0]? = some ⟨chain.contraction.name, .port 0⟩
  twoBlocks : numElements chain.blockShape = 2

theorem findStob_eq_some (navigable : ctx.view.Navigable) {position : Nat}
    (found : ctx.findStob contractionView = .ok (some position)) :
    ∃ fanin stobView stob paddingsDef, contractionView.regularFanins[0]? = some fanin ∧ fanin.nodeIndex = position ∧
      ctx.view.nodes[position]? = some stobView ∧ ctx.view.nodeDef? position = some stob ∧
      isSpaceToBatchND stob = true ∧ ctx.faninDef stobView 2 = .ok paddingsDef := by
  unfold RemapperContext.findStob at found
  obtain ⟨fanin, atFanin, found⟩ := bind_ok.1 found
  obtain ⟨stobView, atStobView, found⟩ := bind_ok.1 found
  obtain ⟨stob, atStob, found⟩ := bind_ok.1 found
  obtain ⟨atStobView, atStob⟩ := RemapperContext.nodeDef?_of_fetch navigable.indexed atStobView atStob
  split at found
  · cases found
  obtain ⟨kind, found⟩ := of_guard found
  split at found
  · cases found
  split at found
  · cases found
  split at found
  · cases found
  obtain ⟨paddingsDef, atPaddings, found⟩ := bind_ok.1 found
  split at found
  · cases found
  rw [navigable.indexed.nodeIndex atStobView] at found
  cases found
  rw [Bool.not_eq_true', Bool.not_eq_false] at kind
  exact ⟨fanin, stobView, stob, paddingsDef, fetch_eq_ok.1 atFanin, rfl, atStobView, atStob, kind, atPaddings⟩

theorem findDilatedContraction_eq_some (navigable : ctx.view.Navigable) (oneOutput : OneOutput isChainOp ctx.view)
    {matched : DilatedContraction} (found : ctx.findDilatedContraction i = .ok (some matched)) {chain : DilatedChain}
    (of : chain.Of ctx matched) : chain.Test ∧ ∀ node, ctx.dilatedNode matched = .ok node ↔
      ∃ blockRows blockCols real, chain.blockShape.ints = [blockRows, blockCols] ∧
        RemapperContext.realPaddings chain.paddings.ints chain.crops.ints = .ok real ∧
        node = ⟨chain.btos.name, chain.contraction.op, chain.contraction.device, [chain.x, chain.filter],
          RemapperContext.dilatedAttrs chain.contraction blockRows blockCols real⟩ := by
  unfold RemapperContext.findDilatedContraction at found
  obtain ⟨btosView, atBtosView, found⟩ := bind_ok.1 found
  obtain ⟨btos, atBtos, found⟩ := bind_ok.1 found
  obtain ⟨atBtosView, atBtos⟩ := RemapperContext.nodeDef?_of_fetch navigable.indexed atBtosView atBtos
  obtain ⟨kind, found⟩ := of_guard found
  split at found
  · cases found
  split at found
  · cases found
  split at found
  · cases found
  obtain ⟨blockShapeDef, atBlockShape, found⟩ := bind_ok.1 found
  obtain ⟨cropsDef, atCrops, found⟩ := bind_ok.1 found
  split at found
  · cases found
  obtain ⟨blockShape, isBlockShape, found⟩ := bind_ok.1 found
  obtain ⟨twoBlocks, found⟩ := of_guard found
  obtain ⟨contractionFanin, atContractionFanin, found⟩ := bind_ok.1 found
  obtain ⟨contractionView, atContractionView, found⟩ := bind_ok.1 found
  obtain ⟨contraction, atContraction, found⟩ := bind_ok.1 found
  obtain ⟨atContractionView, atContraction⟩ :=
    RemapperContext.nodeDef?_of_fetch navigable.indexed atContractionView atContraction
  obtain ⟨dilatable, isDilatable, found⟩ := bind_ok.1 found
  obtain ⟨isTrue, found⟩ := of_guard found
  obtain ⟨position, isStob, found⟩ := bind_ok.1 found
  cases position with
  | none => cases found
  | some position =>
    rw [navigable.indexed.nodeIndex atContractionView] at found
    cases found
    obtain ⟨stobFanin, stobView, stob, paddingsDef, atStobFanin, isPosition, atStobView, atStob, stobKind, atPaddings⟩ :=
      findStob_eq_some navigable isStob
    cases Option.some.inj (atBtos.symm.trans of.btos)
    cases Option.some.inj (atContraction.symm.trans of.contraction)
    cases Option.some.inj (atStob.symm.trans of.stob)
    rw [Bool.not_eq_true', Bool.not_eq_false] at isTrue
    rw [isTrue] at isDilatable
    have dilatable := isDilatable_eq_true isDilatable
    obtain ⟨blockShapeId, paddingsId, others, isStobInput, p, paddingsConst, atP, rfl, isPaddings, paddingsType, -⟩ :=
      of.stobInput
    obtain ⟨source, _, isContractionInput⟩ := of.contractionInput
    obtain ⟨source', _, _, _, isBtosInput, ⟨b, blockConst, atB, rfl, isBlock, blockType, blockCount⟩,
      ⟨c, cropsConst, atC, rfl, isCrops, cropsType, -⟩⟩ := of.btosInput
    have isPaddingsDef := faninDef_eq navigable atStobView atStob (by rw [isStobInput]; rfl) atP atPaddings
    have isBlockDef := faninDef_eq navigable atBtosView atBtos (by rw [isBtosInput]; rfl) atB atBlockShape
    have isCropsDef := faninDef_eq navigable atBtosView atBtos (by rw [isBtosInput]; rfl) atC atCrops
    rw [isPaddingsDef] at atPaddings
    rw [isBlockDef] at atBlockShape isBlockShape
    rw [isCropsDef] at atCrops
    cases Except.ok.inj (isBlockShape.symm.trans isBlock)
    have ofContraction := fanin_of_getElem? atContractionView atStobFanin
    have ofBtos := fanin_of_getElem? atBtosView (fetch_eq_ok.1 atContractionFanin)
    have stobPort : stobFanin.index = 0 :=
      oneOutput ofContraction (isPosition ▸ atStob) (by rw [isChainOp, stobKind, Bool.or_true])
    have contractionPort : contractionFanin.index = 0 := by
      apply oneOutput ofBtos atContraction
      unfold isChainOp
      rcases dilatable.kind with isKind | isKind
      · rw [isKind, Bool.true_or, Bool.true_or]
      · rw [isKind, Bool.or_true, Bool.true_or]
    have fromStob := input_of_fanin navigable atContractionView atContraction atStobFanin
    have fromContraction := input_of_fanin navigable atBtosView atBtos (fetch_eq_ok.1 atContractionFanin)
    rw [stobPort, isPosition, nameAt_of_nodeDef? atStob] at fromStob
    rw [contractionPort, nameAt_of_nodeDef? atContraction] at fromContraction
    rw [Bool.or_eq_true, not_or, Bool.not_eq_true', Bool.not_eq_false] at kind
    rw [not_not] at twoBlocks
    refine ⟨⟨stobKind, kind.1, dilatable, fromStob, fromContraction, twoBlocks⟩, ?_⟩
    obtain ⟨first, second, isInts⟩ : ∃ first second, chain.blockShape.ints = [first, second] :=
      List.length_eq_two.1 (blockCount.trans twoBlocks)
    obtain ⟨storedStob, isStoredStob, isStobDef⟩ := Option.map_eq_some_iff.1 of.stob
    obtain ⟨storedContraction, isStoredContraction, isContractionDef⟩ := Option.map_eq_some_iff.1 of.contraction
    obtain ⟨storedBtos, isStoredBtos, isBtosDef⟩ := Option.map_eq_some_iff.1 of.btos
    have reads : ∀ node, ctx.dilatedNode ⟨position, contractionFanin.nodeIndex, i⟩ = .ok node ↔
        ∃ real, RemapperContext.realPaddings chain.paddings.ints chain.crops.ints = .ok real ∧
          node = ⟨chain.btos.name, chain.contraction.op, chain.contraction.device, [chain.x, chain.filter],
            RemapperContext.dilatedAttrs chain.contraction first second real⟩ := by
      intro node
      have isX : fetch chain.stob.input 0 = .ok chain.x := by rw [isStobInput]; rfl
      have isFilter : fetch chain.contraction.input 1 = .ok chain.filter := by rw [isContractionInput]; rfl
      have isFirst : fetch chain.blockShape.ints 0 = .ok first := by rw [isInts]; rfl
      have isSecond : fetch chain.blockShape.ints 1 = .ok second := by rw [isInts]; rfl
      have ints : ∀ proto : TensorProto, proto.dtype = .int32 → flatInts proto .int32 = .ok proto.ints := by
        intro proto isType
        unfold flatInts
        rw [if_neg fun ne => ne isType]
      unfold RemapperContext.dilatedNode
      simp only [fetch_eq_ok.2 isStoredStob, fetch_eq_ok.2 isStoredContraction, fetch_eq_ok.2 isStoredBtos,
        fetch_eq_ok.2 atBtosView, fetch_eq_ok.2 atStobView, isStobDef, isContractionDef, isBtosDef, isX, isFilter,
        atBlockShape, atCrops, atPaddings, isBlock, isPaddings, isCrops, ints _ blockType, ints _ paddingsType,
        ints _ cropsType, isFirst, isSecond, bind, Except.bind]
      cases RemapperContext.realPaddings chain.paddings.ints chain.crops.ints with
      | error failure => simp
      | ok real =>
        simp only [Except.ok.injEq, exists_eq_left']
        exact ⟨fun isNode => (Except.ok.inj isNode).symm, fun isNode => by rw [isNode]; rfl⟩
    intro node
    rw [reads, isInts]
    constructor
    · intro ⟨real, isReal, isNode⟩
      exact ⟨first, second, real, rfl, isReal, isNode⟩
    · intro ⟨_, _, real, isBlocks, isReal, isNode⟩
      cases isBlocks
      exact ⟨real, isReal, isNode⟩

end Match

section Attributes

variable {contraction : NodeDef} {attrs : Conv2DAttrs} {blockRows blockCols : Int} {real : List Int}

structure ChainAttrs (contraction : NodeDef) (attrs : Conv2DAttrs) : Prop where
  strides : ∃ strides, getIntsAttr contraction "strides" = .ok strides ∧
    strides = [1, attrs.strideRows, attrs.strideCols, 1]
  positive : 0 < attrs.strideRows ∧ 0 < attrs.strideCols
  dataFormat : getStringAttr contraction "data_format" = .ok "NHWC"
  padding : getStringAttr contraction "padding" = .ok "VALID"
  explicitPaddings : Kernels.attrOr getIntsAttr contraction "explicit_paddings" [] = .ok []
  attrs : attrs = ⟨attrs.strideRows, attrs.strideCols, 1, 1, .valid, []⟩

theorem spatialAttr_eq_ok {values : List Int} {notSupported notFour notPositive : Failure} {rows cols : Int} :
    Kernels.spatialAttr values notSupported notFour notPositive = .ok (rows, cols) ↔
      values = [1, rows, cols, 1] ∧ 0 < rows ∧ 0 < cols := by
  unfold Kernels.spatialAttr
  split
  next n rows' cols' c =>
    simp only [bind_ok, Itex.Graph.require_eq_ok, exists_const]
    constructor
    · rintro ⟨⟨rfl, rfl⟩, positive, isResult⟩
      cases isResult
      exact ⟨rfl, positive⟩
    · rintro ⟨isValues, positive⟩
      cases isValues
      exact ⟨⟨rfl, rfl⟩, positive, rfl⟩
  next notFour =>
    constructor
    · intro isResult
      cases isResult
    · rintro ⟨rfl, -⟩
      exact absurd rfl (notFour 1 rows cols 1)

theorem chainAttrs_of (dilatable : Dilatable contraction) (isAttrs : conv2DAttrs contraction = .ok attrs) :
    ChainAttrs contraction attrs := by
  obtain ⟨dilations, isDilations, ones⟩ := dilatable.dilations
  unfold Kernels.conv2DAttrs at isAttrs
  rw [dilatable.padding, isDilations] at isAttrs
  obtain ⟨strides, isStrides, isAttrs⟩ := bind_ok.1 isAttrs
  obtain ⟨_, isSame, isAttrs⟩ := bind_ok.1 isAttrs
  cases isSame
  obtain ⟨_, _, isAttrs⟩ := bind_ok.1 isAttrs
  obtain ⟨_, _, isAttrs⟩ := bind_ok.1 isAttrs
  obtain ⟨⟨strideRows, strideCols⟩, isSpatial, isAttrs⟩ := bind_ok.1 isAttrs
  obtain ⟨⟨dilationRows, dilationCols⟩, isDilated, isAttrs⟩ := bind_ok.1 isAttrs
  obtain ⟨_, isPadding, isAttrs⟩ := bind_ok.1 isAttrs
  cases isPadding
  obtain ⟨padding, isPadding, isAttrs⟩ := bind_ok.1 isAttrs
  cases isPadding
  obtain ⟨explicitPaddings, isExplicit, isAttrs⟩ := bind_ok.1 isAttrs
  obtain ⟨_, isValid, isAttrs⟩ := bind_ok.1 isAttrs
  cases isAttrs
  obtain ⟨isStrideList, positive⟩ := spatialAttr_eq_ok.1 isSpatial
  obtain ⟨rfl, -⟩ := spatialAttr_eq_ok.1 isDilated
  have isNone : explicitPaddings = [] := Itex.Graph.require_eq_ok.1 isValid
  rw [isNone] at isExplicit ⊢
  have oneRows := ones dilationRows (by simp)
  have oneCols := ones dilationCols (by simp)
  refine ⟨⟨strides, isStrides, isStrideList⟩, positive, dilatable.dataFormat, dilatable.padding, isExplicit, ?_⟩
  rw [oneRows, oneCols]

/-- The attributes of the convolution that the new node is. -/
def fusedAttrs (attrs : Conv2DAttrs) (blockRows blockCols : Int) (real : List Int) : Conv2DAttrs :=
  if real.all (· == 0) then ⟨attrs.strideRows, attrs.strideCols, blockRows, blockCols, .valid, []⟩
  else ⟨attrs.strideRows, attrs.strideCols, blockRows, blockCols, .explicit, [0, 0] ++ real ++ [0, 0]⟩

theorem conv2DAttrs_eq_ok {node : NodeDef} {strideRows strideCols dilationRows dilationCols : Int} {strValue : String}
    {explicitPaddings : List Int} (strides : getIntsAttr node "strides" = .ok [1, strideRows, strideCols, 1])
    (stridesPositive : 0 < strideRows ∧ 0 < strideCols)
    (dilations : getIntsAttr node "dilations" = .ok [1, dilationRows, dilationCols, 1])
    (dilationsPositive : 0 < dilationRows ∧ 0 < dilationCols)
    (dataFormat : Kernels.attrOr getStringAttr node "data_format" "NHWC" = .ok "NHWC")
    (padding : getStringAttr node "padding" = .ok strValue)
    (isExplicit : Kernels.attrOr getIntsAttr node "explicit_paddings" [] = .ok explicitPaddings) {attrs : Conv2DAttrs} :
    conv2DAttrs node = .ok attrs ↔ ∃ padding, Kernels.getPaddingFromString strValue = .ok padding ∧
      Kernels.checkValidPadding padding explicitPaddings = .ok () ∧
      attrs = ⟨strideRows, strideCols, dilationRows, dilationCols, padding, explicitPaddings⟩ := by
  have strided : ∀ notSupported notFour notPositive, Kernels.spatialAttr [1, strideRows, strideCols, 1] notSupported
      notFour notPositive = .ok (strideRows, strideCols) :=
    fun _ _ _ => spatialAttr_eq_ok.2 ⟨rfl, stridesPositive⟩
  have dilated : ∀ notSupported notFour notPositive, Kernels.spatialAttr [1, dilationRows, dilationCols, 1] notSupported
      notFour notPositive = .ok (dilationRows, dilationCols) :=
    fun _ _ _ => spatialAttr_eq_ok.2 ⟨rfl, dilationsPositive⟩
  unfold Kernels.conv2DAttrs
  simp only [strides, dilations, dataFormat, padding, isExplicit, strided, dilated, bind_ok, Except.ok.injEq,
    exists_eq_left', Itex.Graph.require_eq_ok, exists_const, true_and]
  constructor
  · intro ⟨padding, isPadding, _, isValid, isAttrs⟩
    cases isAttrs
    exact ⟨padding, isPadding, isValid, rfl⟩
  · intro ⟨padding, isPadding, isValid, isAttrs⟩
    exact ⟨padding, isPadding, (), isValid, by rw [isAttrs]; rfl⟩

theorem reads_congr {node node' : NodeDef} (same : node.attr.lookup name = node'.attr.lookup name) :
    getIntsAttr node name = getIntsAttr node' name ∧ getStringAttr node name = getStringAttr node' name ∧
      (∀ default, Kernels.attrOr getIntsAttr node name default = Kernels.attrOr getIntsAttr node' name default) ∧
      ∀ default, Kernels.attrOr getStringAttr node name default = Kernels.attrOr getStringAttr node' name default := by
  have ints : getIntsAttr node name = getIntsAttr node' name := by
    unfold Kernels.getIntsAttr
    rw [same]
  have strings : getStringAttr node name = getStringAttr node' name := by
    unfold Kernels.getStringAttr
    rw [same]
  unfold Kernels.attrOr
  rw [ints, strings]
  simp only [← AList.lookup_isSome, same, implies_true, and_self]

theorem checkValidPadding_explicit {real : List Int} (four : real.length = 4) :
    Kernels.checkValidPadding .explicit ([0, 0] ++ real ++ [0, 0]) = .ok () ↔ ∀ padding ∈ real, 0 ≤ padding := by
  obtain ⟨first, second, third, fourth, rfl⟩ : ∃ first second third fourth, real = [first, second, third, fourth] := by
    match real, four with
    | [first, second, third, fourth], _ => exact ⟨_, _, _, _, rfl⟩
  unfold Kernels.checkValidPadding
  rw [if_pos rfl]
  simp only [bind_ok, Itex.Graph.require_eq_ok, exists_const]
  simp

theorem conv2DAttrs_dilated (of : ChainAttrs contraction attrs) (positive : 0 < blockRows ∧ 0 < blockCols)
    (four : real.length = 4) {fused : Conv2DAttrs} :
    conv2DAttrs ⟨name, op, device, input, RemapperContext.dilatedAttrs contraction blockRows blockCols real⟩ = .ok fused ↔
      (∀ padding ∈ real, 0 ≤ padding) ∧ fused = fusedAttrs attrs blockRows blockCols real := by
  obtain ⟨_, isStrides, rfl⟩ := of.strides
  have format : Kernels.attrOr getStringAttr contraction "data_format" "NHWC" = .ok "NHWC" := by
    unfold Kernels.attrOr
    rw [of.dataFormat, ite_self]
  unfold RemapperContext.dilatedAttrs fusedAttrs
  by_cases isZero : real.all (· == 0) = true
  · have nonneg : ∀ padding ∈ real, 0 ≤ padding := by
      intro padding mem
      exact (beq_iff_eq.1 (List.all_eq_true.1 isZero padding mem)).ge
    rw [if_pos isZero, if_pos isZero]
    generalize isNode : NodeDef.mk name op device input ((copyAllAttrs contractionAttrs contraction).insert "dilations"
      (.ints [1, blockRows, blockCols, 1])) = node
    have isAttr : node.attr = (copyAllAttrs contractionAttrs contraction).insert "dilations"
      (.ints [1, blockRows, blockCols, 1]) := by rw [← isNode]
    have kept : ∀ name ∈ contractionAttrs, name ≠ "dilations" → node.attr.lookup name = contraction.attr.lookup name := by
      intro name isDeclared ne
      rw [isAttr, AList.lookup_insert_ne ne, lookup_copyAllAttrs contraction isDeclared]
    have isDilations : getIntsAttr node "dilations" = .ok [1, blockRows, blockCols, 1] := by
      unfold Kernels.getIntsAttr
      rw [isAttr, AList.lookup_insert]
    rw [conv2DAttrs_eq_ok (((reads_congr (kept "strides" (by decide) (by decide))).1).trans isStrides) of.positive
      isDilations positive ((reads_congr (kept "data_format" (by decide) (by decide))).2.2.2 _ |>.trans format)
      ((reads_congr (kept "padding" (by decide) (by decide))).2.1.trans of.padding)
      ((reads_congr (kept "explicit_paddings" (by decide) (by decide))).2.2.1 _ |>.trans of.explicitPaddings)]
    constructor
    · rintro ⟨padding, isPadding, -, isFused⟩
      cases isPadding
      exact ⟨nonneg, isFused⟩
    · intro ⟨_, isFused⟩
      exact ⟨.valid, rfl, rfl, isFused⟩
  · rw [if_neg isZero, if_neg isZero]
    generalize isNode : NodeDef.mk name op device input (((((copyAllAttrs contractionAttrs contraction).insert "dilations"
      (.ints [1, blockRows, blockCols, 1])).insert "padding" (.s "EXPLICIT")).insert "explicit_paddings"
      (.ints ([0, 0] ++ real ++ [0, 0])))) = node
    have isAttr : node.attr = (((copyAllAttrs contractionAttrs contraction).insert "dilations"
      (.ints [1, blockRows, blockCols, 1])).insert "padding" (.s "EXPLICIT")).insert "explicit_paddings"
      (.ints ([0, 0] ++ real ++ [0, 0])) := by rw [← isNode]
    have kept : ∀ name ∈ contractionAttrs, name ≠ "dilations" → name ≠ "padding" → name ≠ "explicit_paddings" →
        node.attr.lookup name = contraction.attr.lookup name := by
      intro name isDeclared notDilations notPadding notExplicit
      rw [isAttr, AList.lookup_insert_ne notExplicit, AList.lookup_insert_ne notPadding,
        AList.lookup_insert_ne notDilations, lookup_copyAllAttrs contraction isDeclared]
    have isDilations : getIntsAttr node "dilations" = .ok [1, blockRows, blockCols, 1] := by
      unfold Kernels.getIntsAttr
      rw [isAttr, AList.lookup_insert_ne (by decide), AList.lookup_insert_ne (by decide), AList.lookup_insert]
    have isPadding : getStringAttr node "padding" = .ok "EXPLICIT" := by
      unfold Kernels.getStringAttr
      rw [isAttr, AList.lookup_insert_ne (by decide), AList.lookup_insert]
    have isExplicit : Kernels.attrOr getIntsAttr node "explicit_paddings" [] = .ok ([0, 0] ++ real ++ [0, 0]) := by
      unfold Kernels.attrOr Kernels.getIntsAttr
      rw [isAttr, AList.lookup_insert, if_pos ((AList.mem_insert _).2 (.inl rfl))]
    rw [conv2DAttrs_eq_ok (((reads_congr (kept "strides" (by decide) (by decide) (by decide) (by decide))).1).trans
      isStrides) of.positive isDilations positive
      ((reads_congr (kept "data_format" (by decide) (by decide) (by decide) (by decide))).2.2.2 _ |>.trans format)
      isPadding isExplicit]
    constructor
    · rintro ⟨padding, isExplicitPadding, isValid, isFused⟩
      cases isExplicitPadding
      exact ⟨(checkValidPadding_explicit four).1 isValid, isFused⟩
    · intro ⟨nonneg, isFused⟩
      exact ⟨.explicit, rfl, (checkValidPadding_explicit four).2 nonneg, isFused⟩

theorem fusedAttrs_of {first second third fourth : Int} {xs : ImageShape} {ws : FilterShape} {conv : Conv2DPlan} :
    conv.Of (fusedAttrs attrs blockRows blockCols [first, second, third, fourth]) xs ws ↔
      ws.rows * ws.cols * ws.inDepth * ws.outDepth ≠ 0 ∧ xs.depth % ws.inDepth = 0 ∧
      conv.groups = xs.depth / ws.inDepth ∧ 0 < conv.groups ∧
      (ws.outDepth % conv.groups = 0 ∧ conv.groups ≤ ws.outDepth) ∧
      Kernels.windowOf xs.rows ws.rows blockRows attrs.strideRows .explicit first second = .ok conv.rows ∧
      Kernels.windowOf xs.cols ws.cols blockCols attrs.strideCols .explicit third fourth = .ok conv.cols := by
  have windows : ∀ (inputSize filterSize : Nat) (dilation stride : Int),
      let fused := fusedAttrs attrs blockRows blockCols [first, second, third, fourth]
      let paddingType := if fused.explicitPaddings ≠ [] then .explicit else fused.padding
      Kernels.windowOf inputSize filterSize dilation stride paddingType (fused.explicitPaddings.getD 2 0)
          (fused.explicitPaddings.getD 3 0) = Kernels.windowOf inputSize filterSize dilation stride .explicit first second ∧
        Kernels.windowOf inputSize filterSize dilation stride paddingType (fused.explicitPaddings.getD 4 0)
          (fused.explicitPaddings.getD 5 0) =
          Kernels.windowOf inputSize filterSize dilation stride .explicit third fourth := by
    intro inputSize filterSize dilation stride
    unfold fusedAttrs
    by_cases isZero : [first, second, third, fourth].all (· == 0) = true
    · simp only [if_pos isZero]
      simp only [List.all_cons, List.all_nil, Bool.and_eq_true, beq_iff_eq] at isZero
      obtain ⟨rfl, rfl, rfl, rfl, -⟩ := isZero
      exact ⟨Kernels.windowOf_valid _ _ _ _ _ _, Kernels.windowOf_valid _ _ _ _ _ _⟩
    · simp only [if_neg isZero]
      exact ⟨rfl, rfl⟩
  have strided : (fusedAttrs attrs blockRows blockCols [first, second, third, fourth]).strideRows = attrs.strideRows ∧
      (fusedAttrs attrs blockRows blockCols [first, second, third, fourth]).strideCols = attrs.strideCols ∧
      (fusedAttrs attrs blockRows blockCols [first, second, third, fourth]).dilationRows = blockRows ∧
      (fusedAttrs attrs blockRows blockCols [first, second, third, fourth]).dilationCols = blockCols := by
    unfold fusedAttrs
    split <;> exact ⟨rfl, rfl, rfl, rfl⟩
  constructor
  · intro of
    have rows := of.rows
    have cols := of.cols
    rw [strided.1, strided.2.2.1, (windows _ _ _ _).1] at rows
    rw [strided.2.1, strided.2.2.2, (windows _ _ _ _).2] at cols
    exact ⟨of.filter, of.divides, of.groups, of.hasGroup, of.outDepth, rows, cols⟩
  · intro ⟨filter, divides, groups, hasGroup, outDepth, rows, cols⟩
    refine ⟨filter, divides, groups, hasGroup, ?_, ?_, outDepth⟩
    · rw [strided.1, strided.2.2.1, (windows _ _ _ _).1]
      exact rows
    · rw [strided.2.1, strided.2.2.2, (windows _ _ _ _).2]
      exact cols

end Attributes

/-! ## The fused convolution -/

/-- The new node reads what the chain reads. -/
structure ChainPlan.Keeps (plan : ChainPlan) (paddings : TensorProto) (xs : ImageShape) (ws : FilterShape) : Prop where
  /-- The block shape before the contraction has two dims, or three. -/
  twoDims : 4 ≤ paddings.ints.length
  rowCrops : plan.batch.rows.before ≤ plan.space.rows.before ∧ plan.batch.rows.after ≤ plan.space.rows.after
  colCrops : plan.batch.cols.before ≤ plan.space.cols.before ∧ plan.batch.cols.after ≤ plan.space.cols.after
  divides : xs.depth % ws.inDepth = 0
  hasGroup : 0 < xs.depth / ws.inDepth
  outDepth : ws.outDepth % (xs.depth / ws.inDepth) = 0 ∧ xs.depth / ws.inDepth ≤ ws.outDepth
  batch : plan.shape.batch = xs.batch
  rows : Kernels.outputSize xs.rows ws.rows plan.batch.rows.block plan.attrs.strideRows
    (plan.space.rows.before - plan.batch.rows.before) (plan.space.rows.after - plan.batch.rows.after) = plan.shape.rows
  cols : Kernels.outputSize xs.cols ws.cols plan.batch.cols.block plan.attrs.strideCols
    (plan.space.cols.before - plan.batch.cols.before) (plan.space.cols.after - plan.batch.cols.after) = plan.shape.cols
  positions : ∀ output, plan.shape.Has output → ∀ tap ∈ ws.taps,
    plan.position xs ws output tap = (plan.dilated xs ws).position xs ws output tap

/-- The new node gives what the chain gives, whatever the entries are. -/
def SameOutput (contraction node : NodeDef) (stobBlockShape paddings btosBlockShape crops : TensorProto)
    (xs : ImageShape) (ws : FilterShape) : Prop :=
  ∀ (x : Images) (w : Filter), x.shape = xs → w.shape = ws → ∃ y z,
    chainOutput contraction stobBlockShape paddings btosBlockShape crops x w = .ok y ∧ conv2DOutput node x w = .ok z ∧
      y.Same z

section Exact

variable {plan : ChainPlan} {contraction node : NodeDef} {stobBlockShape paddings btosBlockShape crops : TensorProto}
  {xs : ImageShape} {ws : FilterShape}

theorem sameOutput_iff (of : plan.Of contraction stobBlockShape paddings btosBlockShape crops xs ws)
    (depth : plan.batch.depth = ⟨1, 0, 0⟩) :
    SameOutput contraction node stobBlockShape paddings btosBlockShape crops xs ws ↔
      ∃ attrs conv, conv2DAttrs node = .ok attrs ∧ Conv2DPlan.Of conv attrs xs ws ∧
        plan.shape = conv.outputShape xs ws ∧ ∀ output, plan.shape.Has output → ∀ tap ∈ ws.taps,
          plan.position xs ws output tap = conv.position xs ws output tap := by
  have channel : ∀ output : Place, (plan.batch.batchPlace plan.shape.batch output).channel = output.channel := by
    intro output
    unfold Kernels.Blocks.batchPlace
    rw [depth]
    exact Nat.div_one _
  have isChain : ∀ (x : Images) (w : Filter), x.shape = xs → w.shape = ws →
      chainOutput contraction stobBlockShape paddings btosBlockShape crops x w = .ok ⟨plan.shape, fun output =>
        gatherSum ws.taps (fun tap => w.entry tap output.channel) (plan.position xs ws output) x.entry⟩ := by
    rintro x w rfl rfl
    refine chainOutput_eq_ok.2 ⟨plan, of, ?_⟩
    simp only [channel]
  constructor
  · intro same
    obtain ⟨_, _, _, isNode, _⟩ := same ⟨xs, fun _ => 0⟩ ⟨ws, fun _ _ => 0⟩ rfl rfl
    obtain ⟨attrs, isAttrs, conv, ofConv, -⟩ := conv2DOutput_eq_ok.1 isNode
    have isNode : ∀ (x : Images) (w : Filter), x.shape = xs → w.shape = ws →
        conv2DOutput node x w = .ok ⟨conv.outputShape xs ws, fun output =>
          gatherSum ws.taps (fun tap => w.entry tap output.channel) (conv.position xs ws output) x.entry⟩ := by
      rintro x w rfl rfl
      exact conv2DOutput_eq_ok.2 ⟨attrs, isAttrs, conv, ofConv, rfl⟩
    have entries : ∀ (x : Images) (w : Filter), x.shape = xs → w.shape = ws → plan.shape = conv.outputShape xs ws ∧
        ∀ output, plan.shape.Has output →
          gatherSum ws.taps (fun tap => w.entry tap output.channel) (plan.position xs ws output) x.entry =
            gatherSum ws.taps (fun tap => w.entry tap output.channel) (conv.position xs ws output) x.entry := by
      intro x w isX isW
      obtain ⟨_, _, isY, isZ, sameYZ⟩ := same x w isX isW
      cases isY.symm.trans (isChain x w isX isW)
      cases isZ.symm.trans (isNode x w isX isW)
      exact sameYZ
    refine ⟨attrs, conv, isAttrs, ofConv, (entries ⟨xs, fun _ => 0⟩ ⟨ws, fun _ _ => 0⟩ rfl rfl).1, ?_⟩
    intro output has
    apply (@Lib.gatherSum_eq_iff Tap Place Int _ _ _ _ _ ws.nodup_taps _ _).1
    intro weight entry
    exact (entries ⟨xs, entry⟩ ⟨ws, fun tap _ => weight tap⟩ rfl rfl).2 output has
  · rintro ⟨attrs, conv, isAttrs, ofConv, sameShape, positions⟩ x w rfl rfl
    refine ⟨_, _, isChain x w rfl rfl, conv2DOutput_eq_ok.2 ⟨attrs, isAttrs, conv, ofConv, rfl⟩, sameShape, ?_⟩
    intro output has
    exact Lib.gatherSum_congr (positions output has)

theorem twoBlocks_of (of : blocks.Of blockShape sides)
    {blockRows blockCols : Int} (isBlocks : blockShape.ints = [blockRows, blockCols]) (two : numElements blockShape = 2)
    (count : sides.ints.length = sides.shape.prod) :
    (0 < blockRows ∧ 0 < blockCols) ∧ ∃ top bottom left right, sides.ints = [top, bottom, left, right] ∧
      (0 ≤ top ∧ 0 ≤ bottom ∧ 0 ≤ left ∧ 0 ≤ right) ∧
      blocks = ⟨⟨blockRows.toNat, top.toNat, bottom.toNat⟩, ⟨blockCols.toNat, left.toNat, right.toNat⟩, ⟨1, 0, 0⟩⟩ := by
  obtain ⟨blockDims, _, isShape, isSides⟩ := of.dims
  unfold numElements at two
  rw [isShape, List.prod_singleton] at two
  rw [isSides, two] at count
  have positive := of.positive
  have nonneg := of.nonneg
  have isResult := of.blocks
  match atSides : sides.ints, count with
  | [top, bottom, left, right], _ =>
    rw [isBlocks] at positive
    rw [atSides] at nonneg
    refine ⟨⟨positive _ (by simp), positive _ (by simp)⟩, top, bottom, left, right, rfl,
      ⟨nonneg _ (by simp), nonneg _ (by simp), nonneg _ (by simp), nonneg _ (by simp)⟩, ?_⟩
    rw [isResult]
    unfold Kernels.blockDim
    rw [isShape, List.headD_cons, two, isBlocks, atSides]
    rfl

theorem blocks_of_sides (of : blocks.Of blockShape sides)
    (count : sides.ints.length = sides.shape.prod) {top bottom left right : Int} {others : List Int}
    (isSides : sides.ints = top :: bottom :: left :: right :: others) :
    (0 ≤ top ∧ 0 ≤ bottom ∧ 0 ≤ left ∧ 0 ≤ right) ∧ blocks.rows.before = top.toNat ∧ blocks.rows.after = bottom.toNat ∧
      blocks.cols.before = left.toNat ∧ blocks.cols.after = right.toNat := by
  obtain ⟨blockDims, _, isShape, isMatrix⟩ := of.dims
  have nonneg := of.nonneg
  rw [isSides] at nonneg
  have two : 2 ≤ blockDims := by
    rw [isMatrix, isSides] at count
    simp only [List.length_cons, List.prod_cons, List.prod_nil] at count
    omega
  refine ⟨⟨nonneg _ (by simp), nonneg _ (by simp), nonneg _ (by simp), nonneg _ (by simp)⟩, ?_⟩
  rw [of.blocks]
  unfold Kernels.blockDim
  rw [isShape, List.headD_cons, if_pos (by omega), if_pos (by omega), isSides]
  exact ⟨rfl, rfl, rfl, rfl⟩

theorem realPaddings_eq_ok {paddings crops real : List Int} {cropTop cropBottom cropLeft cropRight : Int}
    (isCrops : crops = [cropTop, cropBottom, cropLeft, cropRight]) :
    RemapperContext.realPaddings paddings crops = .ok real ↔ ∃ top bottom left right others,
      paddings = top :: bottom :: left :: right :: others ∧
      real = [top - cropTop, bottom - cropBottom, left - cropLeft, right - cropRight] := by
  have failed : ∀ paddings : List Int, paddings.length < 4 → RemapperContext.realPaddings paddings crops ≠ .ok real := by
    intro paddings short isReal
    have each := Lib.mapM_eq_ok.1 isReal
    obtain ⟨_, -, isPadding⟩ := Lib.exists_of_forall₂_of_mem_left each (List.mem_range.2 (show 3 < 4 by decide))
    obtain ⟨_, atPadding, -⟩ := bind_ok.1 isPadding
    rw [fetch_eq_ok, List.getElem?_eq_none (by omega)] at atPadding
    cases atPadding
  constructor
  · intro isReal
    match paddings with
    | [] => exact absurd isReal (failed _ (by simp))
    | [_] => exact absurd isReal (failed _ (by simp))
    | [_, _] => exact absurd isReal (failed _ (by simp))
    | [_, _, _] => exact absurd isReal (failed _ (by simp))
    | top :: bottom :: left :: right :: others =>
      rw [isCrops] at isReal
      exact ⟨_, _, _, _, _, rfl, (Except.ok.inj isReal).symm⟩
  · rintro ⟨top, bottom, left, right, others, rfl, rfl⟩
    rw [isCrops]
    rfl

theorem sameOutput_dilated_iff (of : plan.Of contraction stobBlockShape paddings btosBlockShape crops xs ws)
    (dilatable : Dilatable contraction) (two : numElements btosBlockShape = 2)
    (paddingsCount : paddings.ints.length = paddings.shape.prod) (cropsCount : crops.ints.length = crops.shape.prod)
    {blockRows blockCols : Int} (isBlocks : btosBlockShape.ints = [blockRows, blockCols]) {real : List Int}
    (isReal : RemapperContext.realPaddings paddings.ints crops.ints = .ok real)
    : SameOutput contraction
        ⟨name, op, device, input, RemapperContext.dilatedAttrs contraction blockRows blockCols real⟩ stobBlockShape
        paddings btosBlockShape crops xs ws ↔ plan.Keeps paddings xs ws := by
  have chainAttrs := chainAttrs_of dilatable of.attrs
  obtain ⟨positive, cropTop, cropBottom, cropLeft, cropRight, isCrops, cropsNonneg, isBatch⟩ :=
    twoBlocks_of of.batch.of isBlocks two cropsCount
  obtain ⟨top, bottom, left, right, others, isPaddings, rfl⟩ := (realPaddings_eq_ok isCrops).1 isReal
  obtain ⟨paddingsNonneg, isTop, isBottom, isLeft, isRight⟩ := blocks_of_sides of.space.of paddingsCount isPaddings
  have depth : plan.batch.depth = ⟨1, 0, 0⟩ := by rw [isBatch]
  have shapeDepth : plan.shape.depth = ws.outDepth := by
    rw [of.batch.shape]
    dsimp only
    rw [depth]
    exact Nat.mul_one _
  have crop : plan.batch.rows = ⟨blockRows.toNat, cropTop.toNat, cropBottom.toNat⟩ ∧
      plan.batch.cols = ⟨blockCols.toNat, cropLeft.toNat, cropRight.toNat⟩ := by
    rw [isBatch]
    exact ⟨rfl, rfl⟩
  have casts : ((blockRows.toNat : Int) = blockRows ∧ (blockCols.toNat : Int) = blockCols) ∧
      ((top.toNat : Int) = top ∧ (bottom.toNat : Int) = bottom ∧ (left.toNat : Int) = left ∧
        (right.toNat : Int) = right) ∧ (cropTop.toNat : Int) = cropTop ∧ (cropBottom.toNat : Int) = cropBottom ∧
        (cropLeft.toNat : Int) = cropLeft ∧ (cropRight.toNat : Int) = cropRight := by omega
  have sizes : Kernels.outputSize xs.rows ws.rows plan.batch.rows.block plan.attrs.strideRows
        (plan.space.rows.before - plan.batch.rows.before) (plan.space.rows.after - plan.batch.rows.after) =
        Kernels.outputSize xs.rows ws.rows blockRows plan.attrs.strideRows (top - cropTop) (bottom - cropBottom) ∧
      Kernels.outputSize xs.cols ws.cols plan.batch.cols.block plan.attrs.strideCols
        (plan.space.cols.before - plan.batch.cols.before) (plan.space.cols.after - plan.batch.cols.after) =
        Kernels.outputSize xs.cols ws.cols blockCols plan.attrs.strideCols (left - cropLeft) (right - cropRight) := by
    rw [crop.1, crop.2, isTop, isBottom, isLeft, isRight, casts.1.1, casts.1.2, casts.2.1.1, casts.2.1.2.1,
      casts.2.1.2.2.1, casts.2.1.2.2.2, casts.2.2.1, casts.2.2.2.1, casts.2.2.2.2.1, casts.2.2.2.2.2]
    exact ⟨rfl, rfl⟩
  have befores : (top - cropTop).toNat = plan.space.rows.before - plan.batch.rows.before ∧
      (left - cropLeft).toNat = plan.space.cols.before - plan.batch.cols.before := by
    rw [isTop, isLeft, crop.1, crop.2]
    dsimp only
    omega
  have enough : (∀ padding ∈ [top - cropTop, bottom - cropBottom, left - cropLeft, right - cropRight], 0 ≤ padding) ↔
      (plan.batch.rows.before ≤ plan.space.rows.before ∧ plan.batch.rows.after ≤ plan.space.rows.after) ∧
        (plan.batch.cols.before ≤ plan.space.cols.before ∧ plan.batch.cols.after ≤ plan.space.cols.after) := by
    rw [isTop, isLeft, isBottom, isRight, crop.1, crop.2]
    simp only [List.forall_mem_cons, List.not_mem_nil, false_implies, implies_true, and_true]
    omega
  rw [sameOutput_iff of depth]
  constructor
  · intro ⟨attrs, conv, isAttrs, ofConv, sameShape, positions⟩
    obtain ⟨nonneg, rfl⟩ := (conv2DAttrs_dilated chainAttrs positive rfl).1 isAttrs
    obtain ⟨_, divides, groups, hasGroup, outDepth, isRows, isCols⟩ := fusedAttrs_of.1 ofConv
    obtain ⟨_, _, rowsNonneg, isRows⟩ := Kernels.windowOf_explicit.1 isRows
    obtain ⟨_, _, colsNonneg, isCols⟩ := Kernels.windowOf_explicit.1 isCols
    have shapeRows : plan.shape.rows = conv.rows.outputSize := by rw [sameShape]; rfl
    have shapeCols : plan.shape.cols = conv.cols.outputSize := by rw [sameShape]; rfl
    have isDilated : conv = plan.dilated xs ws := by
      unfold ChainPlan.dilated
      rw [shapeRows, shapeCols, ← befores.1, ← befores.2, crop.1, crop.2, ← groups, isRows, isCols, ← isRows, ← isCols]
    rw [groups] at hasGroup outDepth
    refine ⟨?_, (enough.1 nonneg).1, (enough.1 nonneg).2, divides, hasGroup, outDepth, ?_, ?_, ?_, ?_⟩
    · rw [isPaddings]
      simp
    · rw [sameShape]
      rfl
    · rw [sizes.1, shapeRows, isRows]
      exact (Int.toNat_of_nonneg rowsNonneg).symm
    · rw [sizes.2, shapeCols, isCols]
      exact (Int.toNat_of_nonneg colsNonneg).symm
    · rw [← isDilated]
      exact positions
  · intro keeps
    have rows := keeps.rows
    have cols := keeps.cols
    rw [sizes.1] at rows
    rw [sizes.2] at cols
    refine ⟨_, plan.dilated xs ws, (conv2DAttrs_dilated chainAttrs positive rfl).2
      ⟨enough.2 ⟨keeps.rowCrops, keeps.colCrops⟩, rfl⟩, fusedAttrs_of.2 ⟨of.conv.filter, keeps.divides, rfl,
        keeps.hasGroup, keeps.outDepth, ?_, ?_⟩, ?_, keeps.positions⟩
    · refine Kernels.windowOf_explicit.2 ⟨chainAttrs.positive.1, positive.1, by omega, ?_⟩
      unfold ChainPlan.dilated
      rw [rows, befores.1, crop.1]
      rfl
    · refine Kernels.windowOf_explicit.2 ⟨chainAttrs.positive.2, positive.2, by omega, ?_⟩
      unfold ChainPlan.dilated
      rw [cols, befores.2, crop.2]
      rfl
    · unfold Kernels.Conv2DPlan.outputShape
      rw [← keeps.batch, ← shapeDepth]
      rfl

end Exact

/-! ## Equal blocks -/

/-- Blocks of one size, with enough paddings for the crops, and a stride of one unless the dim has neither
blocks nor crops. -/
structure DimKept (space batch : Kernels.BlockDim) (stride : Int) : Prop where
  block : space.block = batch.block
  before : batch.before ≤ space.before
  after : batch.after ≤ space.after
  stride : stride = 1 ∨ batch = ⟨1, 0, 0⟩

section Dim

variable {space batch : Kernels.BlockDim} {stride : Int} {extent blocked filterSize : Nat} {window : Kernels.Window}

theorem DimKept.outputSize (kept : DimKept space batch stride) (positive : 0 < batch.block)
    (isBlocked : blocked * batch.block = extent + space.before + space.after)
    (isWindow : Kernels.windowOf blocked filterSize 1 stride .explicit 0 0 = .ok window)
    (cropped : batch.before + batch.after ≤ window.outputSize * batch.block) :
    Kernels.outputSize extent filterSize batch.block stride (space.before - batch.before) (space.after - batch.after) =
      batch.croppedSize window.outputSize := by
  obtain ⟨_, _, nonneg, rfl⟩ := Kernels.windowOf_explicit.1 isWindow
  have whole : (blocked : Int) * batch.block = extent + space.before + space.after := by exact_mod_cast isBlocked
  dsimp only at cropped ⊢
  have isCropped : (batch.croppedSize (Kernels.outputSize blocked filterSize 1 stride 0 0).toNat : Int) =
      Kernels.outputSize blocked filterSize 1 stride 0 0 * batch.block - batch.before - batch.after := by
    unfold Kernels.BlockDim.croppedSize
    rw [Nat.sub_sub, Nat.cast_sub cropped, Nat.cast_mul, Int.toNat_of_nonneg nonneg, Nat.cast_add]
    omega
  rw [isCropped]
  unfold Kernels.outputSize
  rcases kept.stride with isOne | isPlain
  · rw [isOne, Int.tdiv_one, Int.tdiv_one]
    linear_combination -whole
  · subst isPlain
    simp only [Nat.cast_one, Nat.cast_zero, mul_one, Int.sub_zero, Int.add_zero] at whole ⊢
    rw [whole]

theorem DimKept.position (kept : DimKept space batch stride)
    (isWindow : Kernels.windowOf blocked filterSize 1 stride .explicit 0 0 = .ok window) {output tap : Nat}
    (inside : output < batch.croppedSize window.outputSize) (isTap : tap < filterSize) :
    ∃ away, window.position blocked ((output + batch.before) / batch.block) tap =
        some ((output + batch.before) / batch.block + away) ∧
      unpadded space.before extent (output + batch.before + away * batch.block) =
        unpadded (space.before - batch.before) extent (output * stride.toNat + tap * batch.block) := by
  obtain ⟨strided, _, nonneg, rfl⟩ := Kernels.windowOf_explicit.1 isWindow
  obtain ⟨step, rfl⟩ : ∃ step : Nat, stride = step + 1 := ⟨(stride - 1).toNat, by omega⟩
  dsimp only at inside ⊢
  generalize atRow : (output + batch.before) / batch.block = row
  have isNat : ((step : Int) + 1).toNat = step + 1 := by omega
  rw [isNat]
  have rowInside : row < (Kernels.outputSize blocked filterSize 1 (step + 1) 0 0).toNat := by
    rw [← atRow]
    apply Nat.div_lt_of_lt_mul
    unfold Kernels.BlockDim.croppedSize at inside
    rw [Nat.mul_comm]
    omega
  have tapInside : row * (step + 1) + tap < blocked := by
    have bound : (row + 1 : Int) ≤ Kernels.outputSize blocked filterSize 1 (step + 1) 0 0 := by omega
    unfold Kernels.outputSize at bound
    have product := Int.mul_le_mul_of_nonneg_right bound (show (0 : Int) ≤ step + 1 by omega)
    have quotient := Int.tdiv_mul_le ((blocked : Int) + 0 + 0 - ((filterSize - 1) * 1 + 1) + (step + 1))
      (show (step + 1 : Int) ≠ 0 by omega)
    grind
  refine ⟨row * step + tap, ?_, ?_⟩
  · unfold Kernels.Window.position
    dsimp only
    rw [Int.toNat_zero, Int.toNat_one, Nat.mul_one, Lib.unpadded_zero tapInside]
    congr 1
    rw [Nat.mul_succ]
    omega
  · rcases kept.stride with isOne | isPlain
    · have noStep : step = 0 := by omega
      rw [noStep, Nat.mul_zero, Nat.zero_add, Nat.zero_add, Nat.mul_one]
      have shifted := Lib.unpadded_add batch.before (space.before - batch.before) extent (output + tap * batch.block)
      rw [Nat.add_sub_cancel' kept.before] at shifted
      rw [← shifted]
      congr 1
      omega
    · subst isPlain
      dsimp only at atRow ⊢
      rw [Nat.add_zero, Nat.div_one] at atRow
      rw [← atRow, Nat.sub_zero, Nat.mul_succ output step]
      congr 1
      omega

end Dim

/-- Both dims are kept, and the depth has no blocks. -/
structure ChainPlan.Plain (plan : ChainPlan) (paddings : TensorProto) : Prop where
  twoDims : 4 ≤ paddings.ints.length
  rows : DimKept plan.space.rows plan.batch.rows plan.attrs.strideRows
  cols : DimKept plan.space.cols plan.batch.cols plan.attrs.strideCols
  depth : plan.space.depth = ⟨1, 0, 0⟩

theorem div_mul_div_add_lt {depth inDepth outDepth output tap : Nat} (divides : depth % inDepth = 0)
    (whole : outDepth % (depth / inDepth) = 0) (isOutput : output < outDepth) (isTap : tap < inDepth) :
    output / (outDepth / (depth / inDepth)) * inDepth + tap < depth := by
  have isDepth := Nat.div_mul_cancel (Nat.dvd_of_mod_eq_zero divides)
  have isOut := Nat.div_mul_cancel (Nat.dvd_of_mod_eq_zero whole)
  have isGroup : output / (outDepth / (depth / inDepth)) < depth / inDepth := by
    apply Nat.div_lt_of_lt_mul
    rwa [isOut]
  have below := Nat.mul_le_mul_right inDepth isGroup
  rw [isDepth, Nat.succ_mul] at below
  omega

theorem ChainPlan.Plain.keeps {plan : ChainPlan} {contraction : NodeDef}
    {stobBlockShape paddings btosBlockShape crops : TensorProto} {xs : ImageShape} {ws : FilterShape}
    (plain : plan.Plain paddings) (of : plan.Of contraction stobBlockShape paddings btosBlockShape crops xs ws)
    (dilatable : Dilatable contraction) (two : numElements btosBlockShape = 2)
    (blockCount : btosBlockShape.ints.length = btosBlockShape.shape.prod)
    (cropsCount : crops.ints.length = crops.shape.prod) : plan.Keeps paddings xs ws := by
  have chainAttrs := chainAttrs_of dilatable of.attrs
  obtain ⟨blockRows, blockCols, isBlocks⟩ : ∃ first second, btosBlockShape.ints = [first, second] :=
    List.length_eq_two.1 (blockCount.trans two)
  obtain ⟨positive, _, _, _, _, -, -, isBatch⟩ := twoBlocks_of of.batch.of isBlocks two cropsCount
  have depth : plan.batch.depth = ⟨1, 0, 0⟩ := by rw [isBatch]
  have rowsPositive : 0 < plan.batch.rows.block := by
    rw [isBatch]
    dsimp only
    omega
  have colsPositive : 0 < plan.batch.cols.block := by
    rw [isBatch]
    dsimp only
    omega
  have plainAttrs : plan.attrs.dilationRows = 1 ∧ plan.attrs.dilationCols = 1 ∧ plan.attrs.padding = .valid ∧
      plan.attrs.explicitPaddings = [] := by
    rw [chainAttrs.attrs]
    exact ⟨rfl, rfl, rfl, rfl⟩
  have isRows := of.conv.rows
  have isCols := of.conv.cols
  rw [plainAttrs.1, plainAttrs.2.2.1, plainAttrs.2.2.2, if_neg (fun ne => ne rfl), Kernels.windowOf_valid]
    at isRows
  rw [plainAttrs.2.1, plainAttrs.2.2.1, plainAttrs.2.2.2, if_neg (fun ne => ne rfl), Kernels.windowOf_valid]
    at isCols
  have sameProduct : plan.space.product = plan.batch.product := by
    unfold Kernels.Blocks.product
    rw [plain.rows.block, plain.cols.block, plain.depth, depth]
  have productPositive : 0 < plan.batch.product := by
    unfold Kernels.Blocks.product
    rw [depth]
    exact Nat.mul_pos (Nat.mul_pos rowsPositive colsPositive) Nat.one_pos
  have blocked : plan.blocked.batch = xs.batch * plan.batch.product ∧
      plan.blocked.rows * plan.batch.rows.block = xs.rows + plan.space.rows.before + plan.space.rows.after ∧
      plan.blocked.cols * plan.batch.cols.block = xs.cols + plan.space.cols.before + plan.space.cols.after ∧
      plan.blocked.depth = xs.depth := by
    rw [of.space.shape, ← sameProduct, ← plain.rows.block, ← plain.cols.block]
    refine ⟨rfl, Nat.div_mul_cancel (Nat.dvd_of_mod_eq_zero of.space.rows),
      Nat.div_mul_cancel (Nat.dvd_of_mod_eq_zero of.space.cols), ?_⟩
    dsimp only
    rw [plain.depth]
    exact Nat.div_one _
  have shape : plan.shape.batch = xs.batch ∧ plan.shape.rows = plan.batch.rows.croppedSize plan.conv.rows.outputSize ∧
      plan.shape.cols = plan.batch.cols.croppedSize plan.conv.cols.outputSize ∧ plan.shape.depth = ws.outDepth := by
    rw [of.batch.shape]
    refine ⟨?_, rfl, rfl, ?_⟩
    · change plan.blocked.batch / plan.batch.product = xs.batch
      rw [blocked.1, Nat.mul_div_cancel _ productPositive]
    · dsimp only
      rw [depth]
      exact Nat.mul_one _
  have divides := of.conv.divides
  have groups := of.conv.groups
  have hasGroup := of.conv.hasGroup
  have outDepth := of.conv.outDepth
  rw [blocked.2.2.2] at divides groups
  rw [groups] at hasGroup outDepth
  refine ⟨plain.twoDims, ⟨plain.rows.before, plain.rows.after⟩, ⟨plain.cols.before, plain.cols.after⟩, divides, hasGroup,
    outDepth, shape.1, ?_, ?_, ?_⟩
  · rw [shape.2.1]
    exact plain.rows.outputSize rowsPositive blocked.2.1 isRows of.batch.rows
  · rw [shape.2.2.1]
    exact plain.cols.outputSize colsPositive blocked.2.2.1 isCols of.batch.cols
  · intro output has tap mem
    obtain ⟨isTapRow, isTapCol, isTapChannel⟩ := FilterShape.mem_taps.1 mem
    have inRows := has.row
    have inCols := has.col
    have inDepth := has.channel
    have inBatch := has.n
    rw [shape.1] at inBatch
    rw [shape.2.1] at inRows
    rw [shape.2.2.1] at inCols
    rw [shape.2.2.2] at inDepth
    obtain ⟨rowsAway, rowPosition, readsRow⟩ := @DimKept.position _ _ _ xs.rows _ _ _ plain.rows isRows _ _ inRows isTapRow
    obtain ⟨colsAway, colPosition, readsCol⟩ := @DimKept.position _ _ _ xs.cols _ _ _ plain.cols isCols _ _ inCols isTapCol
    have channelInside : (plan.dilated xs ws).channel ws output.channel tap.channel < xs.depth :=
      div_mul_div_add_lt divides outDepth.1 inDepth isTapChannel
    -- The channel is that of the convolution, so the output stands for one with channel zero.
    have reads := @Kernels.Blocks.spacePosition_batchPlace plan.space plan.batch plain.rows.block plain.cols.block
      (by rw [plain.depth, depth]) colsPositive (by rw [depth]; exact Nat.one_pos) xs ⟨output.n, output.row, output.col, 0⟩
      inBatch rowsAway colsAway (plan.conv.channel ws output.channel tap.channel)
    have isPlace : ∀ channel, plan.batch.batchPlace xs.batch ⟨output.n, output.row, output.col, channel⟩ =
        ⟨(plan.batch.batchPlace xs.batch ⟨output.n, output.row, output.col, 0⟩).n,
          (output.row + plan.batch.rows.before) / plan.batch.rows.block,
          (output.col + plan.batch.cols.before) / plan.batch.cols.block, channel⟩ := by
      intro channel
      unfold Kernels.Blocks.batchPlace
      rw [depth]
      simp only [Nat.add_zero, Nat.mod_one, Nat.div_one]
    unfold ChainPlan.position Kernels.Conv2DPlan.position
    rw [shape.1, isPlace output.channel]
    dsimp only
    rw [rowPosition, colPosition]
    have sameChannel : plan.conv.channel ws output.channel tap.channel =
        (plan.dilated xs ws).channel ws output.channel tap.channel := by
      unfold Kernels.Conv2DPlan.channel ChainPlan.dilated
      rw [groups]
    rw [isPlace 0, plain.depth, depth] at reads
    dsimp only at reads
    rw [Nat.zero_add, Nat.zero_add, Nat.mul_one, sameChannel, Lib.unpadded_zero channelInside, readsRow,
      readsCol] at reads
    rw [sameChannel]
    refine reads.trans ?_
    -- The two reads of the dims are in another order.
    exact @Option.bind_comm _ _ _
      (fun col row => some (Place.mk output.n row col ((plan.dilated xs ws).channel ws output.channel tap.channel))) _ _

section Match

variable {ctx : RemapperContext} {i : Nat}

/-- The new node is defined and gives the output of the chain exactly if it reads what the chain
reads. It does where both ops have the same blocks, the paddings are not less than the crops, and
the stride of each dim with blocks or crops is one. -/
theorem findDilatedContraction_keeps_iff (navigable : ctx.view.Navigable) (oneOutput : OneOutput isChainOp ctx.view)
    {matched : DilatedContraction} (found : ctx.findDilatedContraction i = .ok (some matched)) {chain : DilatedChain}
    (of : chain.Of ctx matched) :
    chain.Test ∧ (isConv2D chain.contraction = true → ∀ {stobBlockShape : TensorProto} {xs : ImageShape}
      {ws : FilterShape} {plan : ChainPlan},
      plan.Of chain.contraction stobBlockShape chain.paddings chain.blockShape chain.crops xs ws →
        ((∃ node, ctx.dilatedNode matched = .ok node ∧ isConv2D node = true ∧ node.input = [chain.x, chain.filter] ∧
            SameOutput chain.contraction node stobBlockShape chain.paddings chain.blockShape chain.crops xs ws) ↔
          plan.Keeps chain.paddings xs ws) ∧ (plan.Plain chain.paddings → plan.Keeps chain.paddings xs ws)) := by
  obtain ⟨test, isNode⟩ := findDilatedContraction_eq_some navigable oneOutput found of
  obtain ⟨_, _, _, -, _, _, _, -, -, -, paddingsCount⟩ := of.stobInput
  obtain ⟨_, _, _, _, -, ⟨_, _, -, -, -, -, blockCount⟩, ⟨_, _, -, -, -, -, cropsCount⟩⟩ := of.btosInput
  refine ⟨test, ?_⟩
  intro isConv stobBlockShape xs ws plan planOf
  refine ⟨?_, fun plain => plain.keeps planOf test.dilatable test.twoBlocks blockCount cropsCount⟩
  constructor
  · rintro ⟨node, isDilated, -, -, same⟩
    obtain ⟨blockRows, blockCols, real, isBlocks, isReal, rfl⟩ := (isNode node).1 isDilated
    exact (sameOutput_dilated_iff planOf test.dilatable test.twoBlocks paddingsCount cropsCount isBlocks isReal).1 same
  · intro keeps
    obtain ⟨blockRows, blockCols, isBlocks⟩ : ∃ first second, chain.blockShape.ints = [first, second] :=
      List.length_eq_two.1 (blockCount.trans test.twoBlocks)
    obtain ⟨-, cropTop, cropBottom, cropLeft, cropRight, isCrops, -⟩ :=
      twoBlocks_of planOf.batch.of isBlocks test.twoBlocks cropsCount
    obtain ⟨real, isReal⟩ : ∃ real, RemapperContext.realPaddings chain.paddings.ints chain.crops.ints = .ok real := by
      have four := keeps.twoDims
      match isPaddings : chain.paddings.ints, four with
      | top :: bottom :: left :: right :: others, _ =>
        exact ⟨_, (realPaddings_eq_ok isCrops).2 ⟨_, _, _, _, _, rfl, rfl⟩⟩
    refine ⟨_, (isNode _).2 ⟨blockRows, blockCols, real, isBlocks, isReal, rfl⟩, isConv, rfl, ?_⟩
    exact (sameOutput_dilated_iff planOf test.dilatable test.twoBlocks paddingsCount cropsCount isBlocks isReal).2 keeps

end Match

/-! ## A chain in a graph -/

def blockTensor : TensorProto := ⟨.int32, [2], [], [2, 1]⟩

def noSides : TensorProto := ⟨.int32, [2, 2], [], [0, 0, 0, 0]⟩

def stobDef : NodeDef :=
  ⟨"stob", "SpaceToBatchND", "", [⟨"x", .port 0⟩, ⟨"block", .port 0⟩, ⟨"sides", .port 0⟩],
    (∅ : AttrMap).insert "Tpaddings" (.type .int32)⟩

/-- With a stride for the rows. -/
def convDef (stride : Int) : NodeDef :=
  ⟨"conv", "Conv2D", "", [⟨"stob", .port 0⟩, ⟨"filter", .port 0⟩],
    (((((∅ : AttrMap).insert "T" (.type .float)).insert "strides" (.ints [1, stride, 1, 1])).insert "dilations"
      (.ints [1, 1, 1, 1])).insert "padding" (.s "VALID")).insert "data_format" (.s "NHWC")⟩

def btosDef : NodeDef :=
  ⟨"btos", "BatchToSpaceND", "", [⟨"conv", .port 0⟩, ⟨"block", .port 0⟩, ⟨"sides", .port 0⟩],
    (((∅ : AttrMap).insert "T" (.type .float)).insert "Tblock_shape" (.type .int32)).insert "Tcrops" (.type .int32)⟩

def dilationGraph (stride : Int) : GraphDef :=
  [⟨"x", "Placeholder", "", [], ∅⟩, ⟨"filter", "Placeholder", "", [], ∅⟩,
    ⟨"block", "Const", "", [], (∅ : AttrMap).insert "value" (.tensor blockTensor)⟩,
    ⟨"sides", "Const", "", [], (∅ : AttrMap).insert "value" (.tensor noSides)⟩, stobDef, convDef stride, btosDef,
    ⟨"y", "Identity", "", [⟨"btos", .port 0⟩], ∅⟩]

def dilationContext (view : MutableGraphView) : RemapperContext :=
  ⟨view, [], fun _ => .ok [], fun _ => .ok [], fun _ => false, fun _ => false⟩

def dilationChain (stride : Int) : DilatedChain :=
  ⟨stobDef, convDef stride, btosDef, ⟨"x", .port 0⟩, ⟨"filter", .port 0⟩, noSides, blockTensor, noSides⟩

theorem dilationChain_of {stride : Int} (isGraph : view.graph.map StoredNode.nodeDef = dilationGraph stride) :
    (dilationChain stride).Of (dilationContext view) ⟨4, 5, 6⟩ where
  stob := nodeDef?_of_graph isGraph 4
  contraction := nodeDef?_of_graph isGraph 5
  btos := nodeDef?_of_graph isGraph 6
  stobInput := ⟨_, _, _, rfl, 3, _, nodeDef?_of_graph isGraph 3, rfl, rfl, rfl, rfl⟩
  contractionInput := ⟨_, _, rfl⟩
  btosInput := ⟨_, _, _, _, rfl, ⟨2, _, nodeDef?_of_graph isGraph 2, rfl, rfl, rfl, rfl⟩,
    ⟨3, _, nodeDef?_of_graph isGraph 3, rfl, rfl, rfl, rfl⟩⟩

theorem dilationGraph_oneOutput
    (ports : view.allFanins (fun _ _ fanin => fanin.index == 0) = true) : OneOutput isChainOp view := by
  intro i k fanin def_ atFanin _ _
  exact beq_iff_eq.1 (of_all_fanins ports atFanin)

/-- A filter of two rows on six rows in two blocks. -/
def sixRows : ChainPlan where
  space := ⟨⟨2, 0, 0⟩, ⟨1, 0, 0⟩, ⟨1, 0, 0⟩⟩
  blocked := ⟨2, 3, 1, 1⟩
  attrs := ⟨1, 1, 1, 1, .valid, []⟩
  conv := ⟨⟨1, 1, 0, 2⟩, ⟨1, 1, 0, 1⟩, 1⟩
  batch := ⟨⟨2, 0, 0⟩, ⟨1, 0, 0⟩, ⟨1, 0, 0⟩⟩
  shape := ⟨1, 4, 1, 1⟩

/-- With a stride of one. -/
theorem dilationGraph_fused : ∃ view, construct (dilationGraph 1) = .ok view ∧
    (dilationContext view).findDilatedContraction 6 = .ok (some ⟨4, 5, 6⟩) ∧
    ∃ node, (dilationContext view).dilatedNode ⟨4, 5, 6⟩ = .ok node ∧ isConv2D node = true ∧
      node.input = [⟨"x", .port 0⟩, ⟨"filter", .port 0⟩] ∧
      SameOutput (convDef 1) node blockTensor noSides blockTensor noSides ⟨1, 6, 1, 1⟩ ⟨2, 1, 1, 1⟩ := by
  obtain ⟨view, built, isGraph, ports, found⟩ : ∃ view, construct (dilationGraph 1) = .ok view ∧
      view.graph.map StoredNode.nodeDef = dilationGraph 1 ∧ view.allFanins (fun _ _ fanin => fanin.index == 0) = true ∧
      (dilationContext view).findDilatedContraction 6 = .ok (some ⟨4, 5, 6⟩) := ⟨_, rfl, rfl, rfl, by decide +kernel⟩
  have of : sixRows.Of (convDef 1) blockTensor noSides blockTensor noSides ⟨1, 6, 1, 1⟩ ⟨2, 1, 1, 1⟩ :=
    ⟨Kernels.spaceToBatchShape_eq_ok.1 rfl, rfl, Kernels.conv2DPlan_eq_ok.1 rfl,
      Kernels.batchToSpaceShape_eq_ok.1 rfl⟩
  have kept := (@findDilatedContraction_keeps_iff (dilationContext view) 6 (construct_inv built).1.navigable
    (dilationGraph_oneOutput ports) _ found (dilationChain 1) (dilationChain_of isGraph)).2 rfl of
  exact ⟨view, built, found,
    kept.1.2 (kept.2 ⟨by decide, ⟨rfl, by decide, by decide, .inl rfl⟩, ⟨rfl, by decide, by decide, .inl rfl⟩, rfl⟩)⟩

/-- With a stride of two, the second row of the chain is the second of four, and that of the new
node the third. -/
theorem dilationGraph_skips : ∃ view node y z, construct (dilationGraph 2) = .ok view ∧
    (dilationContext view).findDilatedContraction 6 = .ok (some ⟨4, 5, 6⟩) ∧
    (dilationContext view).dilatedNode ⟨4, 5, 6⟩ = .ok node ∧
    chainOutput (convDef 2) blockTensor noSides blockTensor noSides ⟨⟨1, 4, 1, 1⟩, fun place => place.row⟩
      ⟨⟨1, 1, 1, 1⟩, fun _ _ => 1⟩ = .ok y ∧
    conv2DOutput node ⟨⟨1, 4, 1, 1⟩, fun place => place.row⟩ ⟨⟨1, 1, 1, 1⟩, fun _ _ => 1⟩ = .ok z ∧
    y.shape = ⟨1, 2, 1, 1⟩ ∧ z.shape = ⟨1, 2, 1, 1⟩ ∧ y.entry ⟨0, 1, 0, 0⟩ = 1 ∧ z.entry ⟨0, 1, 0, 0⟩ = 2 :=
  ⟨_, _, _, _, rfl, by decide +kernel, rfl, rfl, rfl, rfl, rfl, by decide, by decide⟩

end Itex.Remapper
