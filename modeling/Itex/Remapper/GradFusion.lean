import Itex.Remapper.Context
import Itex.GraphUtils.Apply

/-!
Contract: the fusions of a `BiasAddGrad` with a gradient contraction
(`itex/core/graph/remapper/remapper.cc`).

Owns: the three matchers, and the two rewrites with the mutation they apply.

The attributes that an op declares are a parameter: they come from the op registry. An
input is kept parsed, so that `name` and `name:0` are one input.
-/

namespace Itex.Remapper

open Itex.Graph (Failure require TensorId AttrMap NodeDef)
open Itex.GraphUtils

structure ContractionWithBiasAddGrad where
  contraction : Nat
  biasAddGrad : Nat
  biasAddGradOuts : List Nat
deriving DecidableEq

structure ContractionWithReshapeAndBiasAddGrad where
  root : Nat
  reshape : Nat
  biasaddgrad : Nat
deriving DecidableEq

def isBiasAddGrad (node : NodeDef) : Bool := node.op == "BiasAddGrad"

def isMatMul (node : NodeDef) : Bool := node.op == "MatMul"

def isAnyBatchMatMul (node : NodeDef) : Bool := node.op == "BatchMatMul" || node.op == "BatchMatMulV2"

def isConv2DBackpropFilter (node : NodeDef) : Bool := node.op == "Conv2DBackpropFilter"

def isConv3DBackpropFilterV2 (node : NodeDef) : Bool := node.op == "Conv3DBackpropFilterV2"

def isConvBackpropFilter (node : NodeDef) : Bool :=
  isConv2DBackpropFilter node || isConv3DBackpropFilterV2 node

def isReshape (node : NodeDef) : Bool := node.op == "Reshape"

def isShape (node : NodeDef) : Bool := node.op == "Shape"

namespace RemapperContext

variable (ctx : RemapperContext)

/-! ## Matching -/

def isLegalMatMulGrad (nodeIndex nodeDz : Nat) : Except Failure Bool := do
  let nodeView ← fetch ctx.view.nodes nodeIndex
  let node ← ctx.nodeDef nodeView
  match nodeView.regularFanins[1]? with
  | none => return false
  | some gradInput =>
    if gradInput.nodeIndex ≠ nodeDz then return false
    else
      match node.attr.lookup "transpose_b" with
      | some (.b transposeB) => return !transposeB
      | _ => return false

/-- The positions of the fanouts of a node for which a test holds. -/
def fanoutsWith (test : NodeDef → Bool) : List Fanout → Except Failure (List Nat)
  | [] => .ok []
  | fanout :: rest => do
    let node ← ctx.nodeDefAt fanout.nodeIndex
    let others ← fanoutsWith test rest
    return if test node then fanout.nodeIndex :: others else others

def biasAddGradOuts (nodeView : MutableNodeView) : List Nat :=
  nodeView.regularFanoutsByPort.flatten.foldl
    (fun outs fanout => if fanout.nodeIndex ∈ outs then outs else outs ++ [fanout.nodeIndex]) []

/-- The first of the matmuls that is legal. -/
def legalMatMulGrad (nodeDz : Nat) : List Nat → Except Failure (Option Nat)
  | [] => .ok none
  | matmul :: rest => do
    let legal ← ctx.isLegalMatMulGrad matmul nodeDz
    if legal then return some matmul else legalMatMulGrad nodeDz rest

/-- The matmul that shares `dz` with the `BiasAddGrad`. -/
def matMulGradFilter (dz : MutableNodeView) : Except Failure (Option Nat) := do
  if dz.numRegularFanouts ≠ 3 ∧ dz.numRegularFanouts ≠ 2 then return none
  else
    let matmuls ← ctx.fanoutsWith isMatMul dz.regularFanoutsByPort.flatten
    if dz.numRegularFanouts = 3 then
      if matmuls.length ≠ 2 then return none
      else ctx.legalMatMulGrad dz.nodeIndex matmuls
    else
      let dzDef ← ctx.nodeDef dz
      if !isReshape dzDef then return none
      else
        match dz.regularFanins[0]? with
        | none => return none
        | some rootFanin =>
          let root ← fetch ctx.view.nodes rootFanin.nodeIndex
          if root.numRegularFanouts ≠ 3 then return none
          else
            let batchMatMuls ← ctx.fanoutsWith isAnyBatchMatMul root.regularFanoutsByPort.flatten
            let shapes ← ctx.fanoutsWith isShape root.regularFanoutsByPort.flatten
            if batchMatMuls = [] ∨ shapes = [] then return none
            else if matmuls.length ≠ 1 then return none
            else ctx.legalMatMulGrad dz.nodeIndex matmuls

def findContractionWithBiasAddGrad (nodeIndex : Nat) : Except Failure (Option ContractionWithBiasAddGrad) := do
  let nodeView ← fetch ctx.view.nodes nodeIndex
  if hasControlFaninOrFanout nodeView then return none
  else
    let node ← ctx.nodeDef nodeView
    if !isBiasAddGrad node then return none
    else if !(hasDataType node .float || hasDataType node .bfloat16) then return none
    else if ctx.nodeIsOnGpu node then return none
    else if ctx.nodeIsOnCpu node && hasDataType node .float then return none
    else
      match nodeView.regularFanins[0]? with
      | none => return none
      | some dzFanin =>
        let dz ← fetch ctx.view.nodes dzFanin.nodeIndex
        let found ← ctx.matMulGradFilter dz
        return found.map fun contraction => ⟨contraction, nodeView.nodeIndex, biasAddGradOuts nodeView⟩

/-- The last port of `dz` that the `BiasAddGrad` reads. -/
def outPort (dz : MutableNodeView) (nodeIndex : Nat) : Option Nat :=
  dz.regularFanoutsByPort.zipIdx.foldl (fun port entry =>
    if entry.1.any fun fanout => fanout.nodeIndex == nodeIndex then some entry.2 else port) none

/-- The first `ConvBackpropFilter` that reads node `dz` as its third input. -/
def convGradFilter (dz : Nat) : List Fanout → Except Failure (Option Nat)
  | [] => .ok none
  | fanout :: rest => do
    let nodeView ← fetch ctx.view.nodes fanout.nodeIndex
    let node ← ctx.nodeDef nodeView
    if !isConvBackpropFilter node then convGradFilter dz rest
    else
      let grad ← fetch nodeView.regularFanins 2
      if grad.nodeIndex ≠ dz then convGradFilter dz rest
      else return some nodeView.nodeIndex

def findConvContractionWithBiasAddGrad (nodeIndex : Nat) : Except Failure (Option ContractionWithBiasAddGrad) := do
  let nodeView ← fetch ctx.view.nodes nodeIndex
  if hasControlFaninOrFanout nodeView then return none
  else
    let node ← ctx.nodeDef nodeView
    if !isBiasAddGrad node then return none
    else if !(hasDataType node .float || hasDataType node .bfloat16) then return none
    else
      match nodeView.regularFanins[0]? with
      | none => return none
      | some dzFanin =>
        let dz ← fetch ctx.view.nodes dzFanin.nodeIndex
        match outPort dz nodeView.nodeIndex with
        | none => return none
        | some port =>
          let found ← ctx.convGradFilter dz.nodeIndex (regularFanout dz port)
          return found.map fun contraction => ⟨contraction, nodeView.nodeIndex, biasAddGradOuts nodeView⟩

def findContractionBwdPatterns (reshape : MutableNodeView) : Except Failure Bool := do
  let conv ← ctx.convGradFilter reshape.nodeIndex (regularFanout reshape 0)
  if reshape.numRegularFanouts = 2 then
    let first ← fetch (regularFanout reshape 0) 0
    let firstDef ← ctx.nodeDefAt first.nodeIndex
    if !isMatMul firstDef then return conv.isSome
    else
      let second ← fetch (regularFanout reshape 0) 1
      let secondDef ← ctx.nodeDefAt second.nodeIndex
      return conv.isSome || isMatMul secondDef
  else return conv.isSome

/-- The last dimensions of two shapes are known and equal. -/
def sameLastDim (biasInput reshapeOutput : TensorShapeProto) : Except Failure Bool := do
  if biasInput.unknownRank || reshapeOutput.unknownRank then return false
  else
    let biasDim ← fetch biasInput.dim (biasInput.dim.length - 1)
    let reshapeDim ← fetch reshapeOutput.dim (reshapeOutput.dim.length - 1)
    return !(isUnknown biasDim || isUnknown reshapeDim) && biasDim == reshapeDim

def findContractionWithReshapeAndBiasAddGrad (nodeIndex : Nat) :
    Except Failure (Option ContractionWithReshapeAndBiasAddGrad) := do
  let nodeView ← fetch ctx.view.nodes nodeIndex
  let biasAddGrad ← ctx.nodeDef nodeView
  if !isBiasAddGrad biasAddGrad || hasControlFaninOrFanout nodeView ||
      ctx.isInPreserveSet biasAddGrad || nodeView.regularFanins.length != 1 then return none
  else
    let rootFanin ← fetch nodeView.regularFanins 0
    let rootView ← fetch ctx.view.nodes rootFanin.nodeIndex
    let root ← ctx.nodeDef rootView
    if hasControlFaninOrFanout rootView || ctx.isInPreserveSet root then return none
    else if rootView.numRegularFanouts ≠ 2 then return none
    else if (regularFanout rootView 0).length ≠ 2 then return none
    else
      let first ← fetch (regularFanout rootView 0) 0
      let firstDef ← ctx.nodeDefAt first.nodeIndex
      let reshapeFanout ← fetch (regularFanout rootView 0) (if isBiasAddGrad firstDef then 1 else 0)
      let reshapeView ← fetch ctx.view.nodes reshapeFanout.nodeIndex
      let reshape ← ctx.nodeDef reshapeView
      if !isReshape reshape then return none
      else
        let patterns ← ctx.findContractionBwdPatterns reshapeView
        if !patterns then return none
        else
          let dataFormat ← attrAt biasAddGrad "data_format"
          if dataFormat.stringValue != "NHWC" then return none
          else
            let biasProps ← ctx.inputProperties biasAddGrad.name
            let reshapeProps ← ctx.outputProperties reshape.name
            let biasInput ← fetch biasProps 0
            let reshapeOutput ← fetch reshapeProps 0
            let same ← sameLastDim biasInput reshapeOutput
            return if same then
              some ⟨rootView.nodeIndex, reshapeView.nodeIndex, nodeView.nodeIndex⟩ else none

/-! ## Rewriting -/

def kBiasAddGrad : String := "BiasAddGrad"

def kConv2DBackpropFilterWithBias : String := "_ITEXConv2DBackpropFilterWithBias"

def kConv3DBackpropFilterWithBias : String := "_ITEXConv3DBackpropFilterWithBias"

def kFusedMatMulGrad : String := "_ITEXFusedMatMulGrad"

/-- The op and the inputs of the fused node, and its attributes but for `fused_ops`. -/
def fusedContractionGrad (declared : String → List String) (contraction biasAddGrad : NodeDef) :
    Except Failure NodeDef := do
  let first ← fetch contraction.input 0
  let second ← fetch contraction.input 1
  let dz ← fetch biasAddGrad.input 0
  let base : NodeDef := ⟨contraction.name, "", contraction.device, [], ∅⟩
  if isMatMul contraction then
    let transposeA ← attrAt contraction "transpose_a"
    let transposeB ← attrAt contraction "transpose_b"
    let type ← attrAt contraction "T"
    if first = dz then
      return { base with
        op := kFusedMatMulGrad
        input := [second, dz]
        attr := (((∅ : AttrMap).insert "transpose_a" transposeB).insert "transpose_b" transposeA).insert
          "T" type }
    else
      return { base with
        op := kFusedMatMulGrad
        input := [first, dz]
        attr := (((∅ : AttrMap).insert "transpose_a" (.b !transposeA.boolValue)).insert
          "transpose_b" transposeB).insert "T" type }
  else
    require (isConvBackpropFilter contraction = true) (.crash "Check failed: false")
    let op := if isConv2DBackpropFilter contraction then kConv2DBackpropFilterWithBias
      else kConv3DBackpropFilterWithBias
    return { base with
      op := op
      input := [first, second, dz]
      attr := copyAllAttrs (declared op) contraction }

/-- Output 0 of the `BiasAddGrad` is output 1 of the fused node. -/
def redirectInput (contraction biasAddGrad : String) (input : TensorId) : TensorId :=
  if input = ⟨biasAddGrad, .port 0⟩ then ⟨contraction, .port 1⟩ else input

def redirectedConsumer (declared : String → List String) (contraction biasAddGrad : String)
    (out : NodeDef) : NodeDef :=
  { out with
    input := out.input.map (redirectInput contraction biasAddGrad)
    attr := copyAllAttrs (declared out.op) out }

/-- `AddNode` into a status that the next call overwrites. -/
def addNodeStatus (state : Session × Except Failure Unit) (node : NodeDef) : Session × Except Failure Unit :=
  match state.1.addNode node with
  | .ok added => (added, .ok ())
  | .error failure => (state.1, .error failure)

/-- The view after a rewrite, and the nodes it marks. -/
structure Rewritten where
  view : MutableGraphView
  invalidatedNodes : List Nat
  nodesToDelete : List Nat

/-- The nodes in a mutation of their own, applied. -/
def applyNodes (order : HashOrder) (nodes : List NodeDef) : Except Failure MutableGraphView := do
  let added := nodes.foldl addNodeStatus (({ view := ctx.view } : Session), .ok ())
  added.2
  let applied ← added.1.apply order
  return applied.view

def addFusedContractionGradNode (declared : String → List String) (order : HashOrder)
    (matched : ContractionWithBiasAddGrad) : Except Failure Rewritten := do
  let contraction ← fetch ctx.view.graph matched.contraction
  let biasAddGrad ← fetch ctx.view.graph matched.biasAddGrad
  let fused ← fusedContractionGrad declared contraction.nodeDef biasAddGrad.nodeDef
  let outs ← matched.biasAddGradOuts.mapM fun index => do
    let out ← fetch ctx.view.graph index
    return redirectedConsumer declared contraction.nodeDef.name biasAddGrad.nodeDef.name out.nodeDef
  let fused := { fused with attr := addNodeAttr fused.attr "fused_ops" (.strings ["BiasAddGrad"]) }
  let view ← ctx.applyNodes order (fused :: outs)
  return ⟨view, matched.contraction :: matched.biasAddGradOuts, [matched.biasAddGrad]⟩

def addContractionWithReshapeAndBiasAddGrad (declared : String → List String) (order : HashOrder)
    (matched : ContractionWithReshapeAndBiasAddGrad) : Except Failure Rewritten := do
  let reshape ← fetch ctx.view.graph matched.reshape
  let biasaddgrad ← fetch ctx.view.graph matched.biasaddgrad
  let view ← ctx.applyNodes order [{
    name := biasaddgrad.nodeDef.name
    op := kBiasAddGrad
    device := biasaddgrad.nodeDef.device
    input := [⟨reshape.nodeDef.name, .port 0⟩]
    attr := copyAllAttrs (declared kBiasAddGrad) biasaddgrad.nodeDef }]
  return ⟨view, [matched.biasaddgrad], []⟩

end RemapperContext

end Itex.Remapper
