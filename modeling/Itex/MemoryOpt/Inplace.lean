import Itex.GraphUtils.View

/-!
Contract: `StaticInplaceOpt` (`itex/core/graph/memory_opt_pass/memory_opt_pass.cc`).

Owns: which inputs a node may be marked to overwrite, and the traversal that marks nodes.

`sinfo` has an entry for every node. A missing attribute, a missing fanin and an index out
of range are crashes. `intelCpuOnly` is the macro `INTEL_CPU_ONLY`.
-/

namespace Itex.MemoryOpt

open Itex.Graph (DataType Failure require AttrValue NodeDef)
open Itex.GraphUtils

/-! ## Rules -/

def regularInplaceRule : List String :=
  ["_ITEXSoftmax", "_ITEXInstanceNorm", "_ITEXFusedInstanceNorm", "_ITEXMklLayerNorm",
    "ITEXLayerNorm", "_ITEXFusedBatchNorm", "_ITEXFusedBatchNormV2", "_ITEXFusedBatchNormV3",
    "_ITEXFusedBatchNormEx"]

def addInplaceRule : List String :=
  ["_ITEXFusedConv2DWithSum", "_ITEXFusedAccMatMulWithSum", "_ITEXFusedMatMulWithSum",
    "_OneDnnFusedConv2D", "_OneDnnFusedMatMul"]

def onednngraphInplaceRule (intelCpuOnly : Bool) : List String :=
  if intelCpuOnly then ["_OneDnnGraphCPU", "OneDnnGraphCPU"] else ["_OneDnnGraph", "OneDnnGraph"]

def maxLlgaSearchNodes : Nat := 50

def contractionNodes : List String :=
  ["Conv2D", "Conv3D", "DepthwiseConv2dNative", "Conv2DBackpropFilter", "Conv2DBackpropInput",
    "Conv3DBackpropFilterV2", "Conv3DBackpropInputV2", "DepthwiseConv2dNativeBackpropFilter",
    "DepthwiseConv2dNativeBackpropInput", "MatMul", "BatchMatMulV2"]

def isAnyConst (node : NodeDef) : Bool := node.op == "Const" || node.op == "HostConst"

def isAnyOneDnnGraph (intelCpuOnly : Bool) (node : NodeDef) : Bool :=
  if intelCpuOnly then node.op == "_OneDnnGraphCPU" || node.op == "OneDnnGraph"
  else node.op == "_OneDnnGraph" || node.op == "OneDnnGraphCPU"

def partialDependentOp : List String :=
  ["_OneDnnFusedDequantizeWithReshape", "_OneDnnQuantizedReshape", "_OneDnnQuantizedTranspose",
    "_OneDnnReshape", "_OneDnnShape", "_OneDnnToTf", "_OneDnnTranspose"]

def isOneDnnLayoutDependentOp (opName : String) : Bool :=
  "_OneDnn".toList.isPrefixOf opName.toList && !partialDependentOp.contains opName

def nodeIsOnDevice (deviceName : String) (node : NodeDef) : Bool :=
  node.device != "" && decide (deviceName.toList <:+: node.device.toList)

def getDataTypeFromAttr (node : NodeDef) (typeAttr : String) : DataType :=
  match node.attr.lookup typeAttr with
  | some value => value.typeValue
  | none => .invalid

def attrAt (node : NodeDef) (name : String) : Except Failure AttrValue :=
  match node.attr.lookup name with
  | some value => .ok value
  | none => .error (.crash "missing attribute")

/-- The loop over `fused_ops`. -/
def addTensorPort : List String → Nat → Option Nat
  | [], _ => none
  | fusedOp :: rest, port =>
    let port := if fusedOp == "BiasAdd" then port + 1 else port
    if fusedOp == "Add" then some port else addTensorPort rest port

/-- The end of `GetCandidateForwardPort`. -/
def onednnGraphForwardPort (intelCpuOnly : Bool) (nodeView : MutableNodeView) (node : NodeDef) : List Nat :=
  if node.op ∈ onednngraphInplaceRule intelCpuOnly then
    let inputSize := nodeView.regularFanins.length
    List.range (if isOneDnnLayoutDependentOp node.op then inputSize / 2 else inputSize)
  else []

def getCandidateForwardPort (intelCpuOnly : Bool) (nodeView : MutableNodeView) (node : NodeDef) :
    Except Failure (List Nat) :=
  if node.op ∈ regularInplaceRule then .ok [0]
  else if node.op ∈ addInplaceRule then
    if node.op == "_ITEXFusedAccMatMulWithSum" &&
        getDataTypeFromAttr node "Tout" != getDataTypeFromAttr node "Tpost" then .ok []
    else do
      let fusedOps ← attrAt node "fused_ops"
      match addTensorPort fusedOps.listStrings 2 with
      | some port => return [port]
      | none => return onednnGraphForwardPort intelCpuOnly nodeView node
  else .ok (onednnGraphForwardPort intelCpuOnly nodeView node)

/-- `GetOutPort`: the first output of the target that the node reads. -/
def getOutPort (curIndex : Nat) (target : MutableNodeView) : Option Nat :=
  target.regularFanoutsByPort.findIdx? fun fanouts =>
    fanouts.any fun fanout => fanout.nodeIndex == curIndex

def targetOf (view : MutableGraphView) (nodeView : MutableNodeView) (forwardPort : Nat) :
    Except Failure (Nat × MutableNodeView) := do
  let fanin ← fetch nodeView.regularFanins forwardPort
  let target ← fetch view.nodes fanin.nodeIndex
  return (fanin.nodeIndex, target)

/-- `GetRegularFanout(GetOutPort(..))`. -/
def outPortFanouts (curIndex : Nat) (target : MutableNodeView) : List Fanout :=
  match getOutPort curIndex target with
  | some port => target.regularFanoutsByPort.getD port []
  | none => []

def getStaticRefCount (view : MutableGraphView) (nodeView : MutableNodeView) (forwardPort : Nat) :
    Except Failure Nat := do
  let (_, target) ← targetOf view nodeView forwardPort
  require ((getOutPort nodeView.nodeIndex target).isSome = true) (.crash "ITEX_CHECK failed")
  return (outPortFanouts nodeView.nodeIndex target).length

/-- The loop of the bounded breadth-first search. -/
def searchBackward (view : MutableGraphView) (refIndex : Nat) : Nat → List Nat → Except Failure Bool
  | 0, _ => .ok false
  | _ + 1, [] => .ok false
  | remain + 1, index :: queue =>
    if index = refIndex then .ok true
    else do
      let node ← fetch view.nodes index
      searchBackward view refIndex remain (queue ++ node.regularFanins.map RegularFanin.nodeIndex)

def isSafeForwarding (intelCpuOnly : Bool) (view : MutableGraphView) (nodeView : MutableNodeView)
    (node : NodeDef) (forwardPort : Nat) : Except Failure Bool := do
  let (_, target) ← targetOf view nodeView forwardPort
  match outPortFanouts nodeView.nodeIndex target with
  | [_] => return true
  | [first, second] =>
    let refIndex := if first.nodeIndex ≠ nodeView.nodeIndex then first.nodeIndex else second.nodeIndex
    if refIndex = nodeView.nodeIndex then return false
    else if nodeView.nodeIndex < refIndex then return false
    else if isAnyOneDnnGraph intelCpuOnly node then
      searchBackward view refIndex maxLlgaSearchNodes
        (nodeView.regularFanins.map RegularFanin.nodeIndex)
    else do
      let (inputIndex, _) ← targetOf view nodeView 0
      searchBackward view refIndex 10 [inputIndex]
  | _ :: _ :: _ :: _ => return false
  -- `out_port_node_vec[0]` of an empty vector.
  | [] => .error (.crash "vector index out of range")

/-! ## The traversal -/

structure SearchInfo where
  isInplace : Bool := false
  isInstack : Bool := false
  isVisited : Bool := false

/-- The view, which the pass writes attributes of, `sinfo`, and the inputs that nodes were
marked to overwrite, in the order of the marks. -/
structure Search where
  view : MutableGraphView
  sinfo : List SearchInfo
  marked : List (Nat × Nat) := []

namespace Search

def setAttrValue (search : Search) (index : Nat) (name : String) (value : AttrValue) : Search :=
  { search with
    view := search.view.modifyNodeDef index fun node => { node with attr := node.attr.insert name value } }

def setInfo (search : Search) (index : Nat) (change : SearchInfo → SearchInfo) : Search :=
  { search with sinfo := search.sinfo.modify index change }

/-- `is_inplace`, with the attribute that says so. -/
def mark (search : Search) (index forwardPort : Nat) (name : String) (value : AttrValue) : Search :=
  { (search.setAttrValue index name value).setInfo index fun info => { info with isInplace := true } with
    marked := search.marked ++ [(index, forwardPort)] }

def checkDependence (intelCpuOnly : Bool) (search : Search) (nodeView : MutableNodeView)
    (forwardPort : Nat) : Except Failure Search := do
  let nodeIndex := nodeView.nodeIndex
  let stored ← fetch search.view.graph nodeIndex
  let node := stored.nodeDef
  if node.op ∈ addInplaceRule then
    let safe ← isSafeForwarding intelCpuOnly search.view nodeView node forwardPort
    if safe then return search.mark nodeIndex forwardPort "inplace_sum" (.b true)
    else return search
  else if node.op ∈ onednngraphInplaceRule intelCpuOnly then
    let safe ← isSafeForwarding intelCpuOnly search.view nodeView node forwardPort
    if safe then
      let frameworkOps ← attrAt node "framework_ops"
      if frameworkOps.listStrings.any fun op => contractionNodes.contains op then
        let edges ← attrAt node "candidate_inplace_input_edge"
        let _ ← fetch edges.listBools forwardPort
        return search.mark nodeIndex forwardPort "candidate_inplace_input_edge"
          (.bools (edges.listBools.set forwardPort true))
      else return search
    else return search
  else
    let refCount ← getStaticRefCount search.view nodeView forwardPort
    if refCount < 1 then return search
    else if refCount = 1 then return search.mark nodeIndex forwardPort "is_inplace" (.b true)
    else if nodeView.regularFanins.length ≤ 1 then
      return search.setInfo nodeIndex fun info => { info with isInplace := false }
    else return search

/-- One candidate in `DetectUnvisitedNode`. -/
def checkCandidate (intelCpuOnly : Bool) (nodesToPreserve : List String) (nodeView : MutableNodeView)
    (search : Search) (forwardPort : Nat) : Except Failure Search := do
  let stored ← fetch search.view.graph nodeView.nodeIndex
  let (targetIndex, _) ← targetOf search.view nodeView forwardPort
  let target ← fetch search.view.graph targetIndex
  if nodesToPreserve.contains target.nodeDef.name || isAnyConst target.nodeDef then return search
  else if stored.nodeDef.device != target.nodeDef.device then return search
  else search.checkDependence intelCpuOnly nodeView forwardPort

def detectUnvisitedNode (intelCpuOnly : Bool) (nodesToPreserve : List String) (search : Search)
    (nodeView : MutableNodeView) : Except Failure Search := do
  let info ← fetch search.sinfo nodeView.nodeIndex
  if info.isVisited then return search
  else
    let stored ← fetch search.view.graph nodeView.nodeIndex
    let forwardPorts ← getCandidateForwardPort intelCpuOnly nodeView stored.nodeDef
    forwardPorts.foldlM (checkCandidate intelCpuOnly nodesToPreserve nodeView) search

/-- `InplaceInference`; a call in a call is for a node that was not visited. -/
def inplaceInference (intelCpuOnly : Bool) (nodesToPreserve : List String) :
    Nat → Search → Nat → Except Failure Search
  | 0, _, _ => .error (.crash "out of turns")
  | turns + 1, search, index => do
    let nodeView ← fetch search.view.nodes index
    let nodeIndex := nodeView.nodeIndex
    let info ← fetch search.sinfo nodeIndex
    if info.isVisited then return search
    else if 0 < nodeView.controlledFanouts.length then return search
    else do
      let detected ← search.detectUnvisitedNode intelCpuOnly nodesToPreserve nodeView
      let visited := detected.setInfo nodeIndex fun info =>
        { info with isVisited := true, isInstack := true }
      let done ← nodeView.regularFanins.foldlM
        (fun search fanin => inplaceInference intelCpuOnly nodesToPreserve turns search fanin.nodeIndex)
        visited
      return done.setInfo nodeIndex fun info => { info with isInstack := false }

/-- One start node in `StaticInplaceOpt`. -/
def startAt (intelCpuOnly : Bool) (nodesToPreserve : List String) (deviceName : String)
    (search : Search) (index : Nat) : Except Failure Search := do
  let info ← fetch search.sinfo index
  let stored ← fetch search.view.graph index
  if info.isVisited then return search
  else if !nodeIsOnDevice deviceName stored.nodeDef then return search
  else inplaceInference intelCpuOnly nodesToPreserve (search.view.nodes.length + 1) search index

end Search

def staticInplaceOpt (intelCpuOnly : Bool) (view : MutableGraphView) (nodesToPreserve : List String)
    (deviceName : String) : Except Failure Search :=
  (List.range view.graph.length).reverse.foldlM
    (Search.startAt intelCpuOnly nodesToPreserve deviceName)
    { view := view, sinfo := List.replicate view.graph.length {} }

end Itex.MemoryOpt
