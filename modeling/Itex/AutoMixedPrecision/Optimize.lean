import Itex.AutoMixedPrecision.Painting

/-!
Contract: `AutoMixedPrecisionImpl::Optimize`, `ChangeTypeAttrsAndAddCasts` and
`RunAutoMixedPrecision`
(`itex/core/graph/auto_mixed_precision/auto_mixed_precision.cc`).

Owns: building the optimizer's members from a graph, the order of the passes, the
points between them, and the rewriting of the graph.

The debug logs and the counters of the final message are not modelled.
-/

namespace Itex.AutoMixedPrecision

open Itex.Lib Itex.Graph

/-! ## Before the passes -/

/-- `absl::StrContains`. -/
def strContains (text part : String) : Bool := decide (part.toList <:+: text.toList)

def Config.mustPreserve (config : Config) (node : NodeDef) : Bool :=
  node.name ∈ config.nodesToPreserve

def Config.isOnDevice (config : Config) (node : NodeDef) (deviceType : String) : Bool :=
  match config.splitDeviceName node.device with
  | none => false
  | some device => strContains device.toLower deviceType.toLower

/-- Whether a node is put into `should_process_nodes_`. -/
def Config.wantsNode (config : Config) (node : NodeDef) : Bool :=
  !config.mustPreserve node && config.isOnDevice node config.mode.deviceType

def Config.shouldProcessNodes (config : Config) (graph : GraphDef) : Finset Nat :=
  (Finset.range graph.length).filter fun node =>
    config.wantsNode (graph.getD node default) = true

/-- The loop body of `ConvertBatchNormOpsToV2`. -/
def convertBatchNorm (node : NodeDef) : NodeDef :=
  if node.op = "FusedBatchNorm" then
    { node with op := "FusedBatchNormV2", attr := node.attr.insert "U" (.type .float) }
  else if node.op = "FusedBatchNormGrad" then
    { node with op := "FusedBatchNormGradV2", attr := node.attr.insert "U" (.type .float) }
  else node

def convertBatchNormOpsToV2 (shouldProcess : Finset Nat) (graph : GraphDef) : GraphDef :=
  graph.mapIdx fun index node => if index ∈ shouldProcess then convertBatchNorm node else node

/-- The members, once the graph view is there and the lists are checked. -/
def assemble (config : Config) (graphView : MutableGraphView) : Except Failure Impl := do
  let shouldProcessNodes := config.shouldProcessNodes graphView.graph
  let converted := convertBatchNormOpsToV2 shouldProcessNodes graphView.graph
  let nodeTypeMap ← NodeTypeAttrMap.init config.registry converted
  let graphTypeView ← GraphTypeTopologyView.initializeFromGraph
    (config.orders.typeAttrs .numbering) converted nodeTypeMap
  return ⟨config, mixedPrecisionLists config.mode config.listUpdates,
    { graphView with graph := converted }, shouldProcessNodes, nodeTypeMap, graphTypeView⟩

/-- The constructor and `Optimize` up to the type attribute view of the graph. -/
def buildImpl (config : Config) (graph : GraphDef) : Except Failure Impl := do
  let graphView ← MutableGraphView.construct graph
  require (config.unsafeForceAll = false)
    (.status .invalidArgument
      "Currently Auto Mixed Precision unsafe_force_all cannot be set to true.")
  validateLists (mixedPrecisionLists config.mode config.listUpdates)
  assemble config graphView

/-- The optimizer when the passes begin: its members, the tensor-list clusters and
the types denied because of them. -/
structure Prepared where
  impl : Impl
  clusters : List (List Nat)
  denySeed : Finset Nat

/-- The tensor-list clusters of the graph and their ephemeral edges. -/
def Impl.findTensorLists (impl : Impl) : Except Failure Prepared := do
  let found := impl.findFloat32TensorListOpClustersAndDenylistUnsafe
  let ephemeral ← found.1.mapM impl.findTensorListImplicitFloat32Edges
  let graphTypeView ← impl.graphTypeView.addEphemeralEdges ephemeral.flatten
  return ⟨{ impl with graphTypeView := graphTypeView }, found.1, found.2⟩

/-- `Optimize` up to pass 1. -/
def prepare (config : Config) (graph : GraphDef) : Except Failure Prepared := do
  let impl ← buildImpl config graph
  impl.findTensorLists

/-! ## The passes -/

namespace Prepared

open Impl (Paint)

def forceClusters (prepared : Prepared) (clusters : List (List Nat)) (paint : Paint) : Paint :=
  clusters.foldl prepared.impl.forceColorMatchBetweenTensorListOps paint

def afterPass2 (prepared : Prepared) : Paint :=
  ⟨prepared.impl.addAllowlistOps, prepared.impl.propagateDenyFwdThroughClearAndInfer prepared.denySeed⟩

def afterPass3 (prepared : Prepared) : Paint :=
  let paint := prepared.forceClusters prepared.clusters prepared.afterPass2
  { paint with
    allow := prepared.impl.addClearAndInferToAllowIfBetweenAllow paint.deny paint.allow }

def afterPass4 (prepared : Prepared) : Paint :=
  let paint := prepared.afterPass3
  { paint with
    allow := prepared.impl.addInferToAllowIfFollowAllow paint.deny paint.allow }

def afterPass5 (prepared : Prepared) : Paint :=
  let paint := prepared.afterPass4
  { paint with
    allow := prepared.impl.propagateAllowThroughClear paint.deny paint.allow }

def afterPass6 (prepared : Prepared) : Paint :=
  let paint := prepared.afterPass5
  { paint with allow := prepared.impl.removeAllowsetWithFp32 paint.allow }

/-- After the second forcing of the clusters. -/
def afterLists (prepared : Prepared) : Paint :=
  prepared.forceClusters prepared.clusters prepared.afterPass6

/-- A point of `Optimize` between two changes of the paint; a number says how many
clusters or nodes a loop has handled. -/
inductive Point where
  | pass2
  | forced (clusters : Nat)
  | pass3
  | pass4
  | pass5
  | pass6
  | forcedAgain (clusters : Nat)
  | recurrent (nodes : Nat)
  | casts (nodes : Nat)

/-- The paint at a point, if the run gets there. -/
def paintAt (prepared : Prepared) : Point → Except Failure Paint
  | .pass2 => .ok prepared.afterPass2
  | .forced clusters =>
    .ok (prepared.forceClusters (prepared.clusters.take clusters) prepared.afterPass2)
  | .pass3 => .ok prepared.afterPass3
  | .pass4 => .ok prepared.afterPass4
  | .pass5 => .ok prepared.afterPass5
  | .pass6 => .ok prepared.afterPass6
  | .forcedAgain clusters =>
    .ok (prepared.forceClusters (prepared.clusters.take clusters) prepared.afterPass6)
  | .recurrent nodes => do
    let allow ← ((List.range prepared.impl.graph.length).take nodes).foldlM
      prepared.impl.recurrentStep prepared.afterLists.allow
    return ⟨allow, prepared.afterLists.deny⟩
  | .casts nodes => do
    let looped ← prepared.impl.forceColorMatchOnRecurrentEdges prepared.afterLists.allow
    let allow ← ((List.range prepared.impl.graph.length).take nodes).foldlM
      prepared.impl.castStep looped
    return ⟨allow, prepared.afterLists.deny⟩

/-- The set handed to `ChangeTypeAttrsAndAddCasts`. -/
def finalAllow (prepared : Prepared) : Except Failure (Finset Nat) := do
  let looped ← prepared.impl.forceColorMatchOnRecurrentEdges prepared.afterLists.allow
  prepared.impl.makeCastsAllowIfAllOutputsAllow looped

end Prepared

/-! ## The final pass -/

/-- `strings::StrCat(name, "-", port, "-", cast_string, "-", kSuffix)`. -/
def castName (dtype : DataType) (toF16 : Bool) (node : String) (port : Nat) : String :=
  let castString :=
    if toF16 = false then "CastToFp32" else if dtype = .half then "CastToFp16" else "CastToBf16"
  node ++ "-" ++ toString port ++ "-" ++ castString ++ "-" ++ "AutoMixedPrecision"

/-- `BuildCastNode`, with the device of the source node. -/
def buildCastNode (dtype : DataType) (toF16 : Bool) (src : NodeDef) (port : Nat) : NodeDef :=
  let srcType := if toF16 then .float else dtype
  let dstType := if toF16 then dtype else .float
  { name := castName dtype toF16 src.name port
    op := "Cast"
    device := src.device
    input := [⟨src.name, .port port⟩]
    attr := ((∅ : AttrMap).insert "SrcT" (.type srcType)).insert "DstT" (.type dstType)
      |>.insert "Truncate" (.b false) }

namespace Impl

/-- `GetNodeIndex(node->name(), type_attr)`, or the error of the final pass. -/
def typeIndex (impl : Impl) (node : NodeDef) (typeAttr : TypeAttrId) : Except Failure Nat :=
  match impl.graphTypeView.getNodeIndex node.name typeAttr with
  | none => .error (.status .internal ("Type attribute " ++ typeAttr.debugString ++ " of " ++
      node.op ++ " node " ++ node.name ++ " not found in graph view"))
  | some index => .ok index

/-- The cast of a port, added to the graph unless it already was. -/
def ensureCast (impl : Impl) (view : MutableGraphView) (added : Option String) (node port : Nat)
    (toF16 : Bool) : Except Failure (MutableGraphView × String) :=
  match added with
  | some name => .ok (view, name)
  | none => do
    let cast := buildCastNode impl.targetDtype toF16 (view.graph.getD node default) port
    let grown ← view.addNode cast
    return (grown, cast.name)

/-- One consumer of an output port; the state is the graph and `added_cast_node`. -/
def rewriteEdge (impl : Impl) (allow : Finset Nat) (srcIsAllow : Bool) (node port : Nat)
    (state : MutableGraphView × Option String) (dst : InputPort) :
    Except Failure (MutableGraphView × Option String) := do
  let dstDef := state.1.graph.getD dst.node default
  let dstTypeAttr ← impl.nodeTypeMap.getInputTypeAttr dst.node dst.portId
  let dstTypeIdx ← impl.typeIndex dstDef dstTypeAttr
  let dstIsAllow := decide (dstTypeIdx ∈ allow)
  if srcIsAllow = dstIsAllow then .ok state
  else do
    let (view, cast) ← impl.ensureCast state.1 state.2 node port dstIsAllow
    let rerouted ← view.updateRegularFaninByPort dstDef.name dst.portId ⟨cast, .port 0⟩
    return (rerouted, some cast)

/-- One output port. The fan-out is copied before it is edited. -/
def rewritePort (impl : Impl) (allow : Finset Nat) (srcIsAllow : Bool) (node : Nat)
    (view : MutableGraphView) (port : Nat) : Except Failure MutableGraphView := do
  let src : OutputPort := ⟨some node, .port port⟩
  let fanout := impl.config.orders.fanout src (view.getFanout src)
  let state ← fanout.foldlM (impl.rewriteEdge allow srcIsAllow node port) (view, none)
  return state.1

/-- `SetDataType` on a node of the graph, when its type is painted. -/
def repaint (impl : Impl) (view : MutableGraphView) (srcIsAllow : Bool) (node : Nat)
    (typeAttr : TypeAttrId) : Except Failure MutableGraphView :=
  if srcIsAllow = false then .ok view
  else
    match setDataType (view.graph.getD node default) typeAttr impl.targetDtype with
    | none => .error (.status .internal "Failed to set type attribute")
    | some changed => .ok { view with graph := view.graph.set node changed }

def rewriteType (impl : Impl) (allow : Finset Nat) (node : Nat) (view : MutableGraphView)
    (typeAttr : TypeAttrId) : Except Failure MutableGraphView := do
  let def_ := view.graph.getD node default
  let index ← impl.typeIndex def_ typeAttr
  let item := impl.item index
  if getDataType (view.graph.getD item.node default) item.typeAttr ≠ .float then .ok view
  else do
    let srcIsAllow := decide (index ∈ allow)
    let painted ← impl.repaint view srcIsAllow node typeAttr
    let ports := impl.config.orders.outputPorts node typeAttr
      (impl.nodeTypeMap.getOutputPorts node typeAttr)
    ports.foldlM (impl.rewritePort allow srcIsAllow node) painted

def rewriteNode (impl : Impl) (allow : Finset Nat) (view : MutableGraphView) (node : Nat) :
    Except Failure MutableGraphView :=
  (impl.config.orders.typeAttrs .rewriting node (impl.nodeTypeMap.getTypeAttrs node)).foldlM
    (impl.rewriteType allow node) view

def changeTypeAttrsAndAddCasts (impl : Impl) (allow : Finset Nat) : Except Failure MutableGraphView :=
  (List.range impl.graph.length).foldlM (impl.rewriteNode allow) impl.graphView

end Impl

/-- `Optimize`: the graph it leaves when it returns OK. -/
def optimize (config : Config) (graph : GraphDef) : Except Failure GraphDef := do
  let prepared ← prepare config graph
  if prepared.impl.addAllowlistOps = ∅ then .ok prepared.impl.graph
  else do
    let allow ← prepared.finalAllow
    let view ← prepared.impl.changeTypeAttrsAndAddCasts allow
    return view.graph

/-- `RunAutoMixedPrecision` for a mode: the status, and the output graph, which is
the input graph again when the optimizer fails. -/
def runAutoMixedPrecision (config : Config) (graph : GraphDef) : Except Failure Unit × GraphDef :=
  match optimize config graph with
  | .ok output => (.ok (), output)
  | .error failure => (.error failure, graph)

end Itex.AutoMixedPrecision
