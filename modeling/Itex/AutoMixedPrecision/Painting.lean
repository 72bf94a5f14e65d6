import Itex.Graph.MutableGraphView
import Itex.AutoMixedPrecision.TypeView
import Itex.AutoMixedPrecision.Lists

/-!
Contract: the painting passes of `AutoMixedPrecisionImpl`
(`itex/core/graph/auto_mixed_precision/auto_mixed_precision.cc`): which types of
which nodes are to become 16-bit.

Owns: the members of the optimizer that the passes read, the predicates on nodes
and types, the tensor-list clusters, passes 1 to 6 and the colour-forcing passes.

Sets of type indices are finite sets. Where the order of a hash set can matter, it is
an argument (`HashOrders`). `force_all_f16_` is false in every pass: `Optimize` refuses
to run when it is set.
-/

namespace Itex.AutoMixedPrecision

open Itex.Lib Itex.Graph

/-- The loops over the hash set that `GetTypeAttrs` returns. -/
inductive TypeAttrLoop where
  | numbering
  | tensorList
  | rewriting
deriving DecidableEq, Repr

structure HashOrders where
  typeAttrs : TypeAttrLoop → Nat → List TypeAttrId → List TypeAttrId
  typeAttrs_perm : ∀ loop node list, (typeAttrs loop node list).Perm list
  outputPorts : Nat → TypeAttrId → List Nat → List Nat
  outputPorts_perm : ∀ node typeAttr list, (outputPorts node typeAttr list).Perm list
  fanout : OutputPort → List InputPort → List InputPort
  fanout_perm : ∀ port list, (fanout port list).Perm list

/-- What the optimizer is given beside the graph. -/
structure Config where
  mode : Mode
  nodesToPreserve : List String
  registry : Registry
  /-- `IsKernelRegisteredForNode(node).ok()`. -/
  isKernelRegisteredForNode : NodeDef → Bool
  /-- The device part that `DeviceNameUtils::SplitDeviceName` returns. -/
  splitDeviceName : String → Option String
  listUpdates : ListUpdates
  unsafeForceAll : Bool
  orders : HashOrders

/-- The members of `AutoMixedPrecisionImpl` while it paints. -/
structure Impl where
  config : Config
  lists : OpLists
  graphView : MutableGraphView
  shouldProcessNodes : Finset Nat
  nodeTypeMap : NodeTypeAttrMap
  graphTypeView : GraphTypeTopologyView

instance : Inhabited NodeDef := ⟨⟨"", "", "", [], ∅⟩⟩

def isTensorListOp (op : String) : Bool := decide ("TensorList".toList <:+: op.toList)

def isTensorListReaderOp (op : String) : Bool :=
  op ∈ ["TensorListConcat", "TensorListConcatV2", "TensorListGather", "TensorListGetItem",
    "TensorListPopBack", "TensorListStack"]

def isTensorListWriterOp (op : String) : Bool :=
  op ∈ ["TensorListFromTensor", "TensorListPushBack", "TensorListPushBackBatch",
    "TensorListScatter", "TensorListScatterV2", "TensorListScatterIntoExistingList",
    "TensorListSetItem", "TensorListSplit"]

/-- `AllowedDataTypes(op_def, type_attr).Contains(dtype)`. A registered operator
declares the type attributes that its arguments name, so the `ITEX_CHECK` on
`FindAttr` holds. -/
def allowsDataType (opDef : OpDef) (typeAttr : TypeAttrId) (dtype : DataType) : Bool :=
  if typeAttr.attrName = "" then typeAttr.fixedType = dtype
  else
    match findAttr typeAttr.attrName opDef with
    | none => false
    | some attrDef => attrDef.allowedTypes.isEmpty || decide (dtype ∈ attrDef.allowedTypes)

namespace Impl

def graph (impl : Impl) : GraphDef := impl.graphView.graph

def targetDtype (impl : Impl) : DataType := impl.config.mode.targetDtype

def nodeDef (impl : Impl) (node : Nat) : NodeDef := impl.graph.getD node default

def opOf (impl : Impl) (node : Nat) : String := (impl.nodeDef node).op

/-- `graph_type_view_.GetNode(index)`. -/
def item (impl : Impl) (index : Nat) : NodeTypeId :=
  impl.graphTypeView.nodeTypeAttrs.getD index ⟨0, .fixed .invalid⟩

def itemOp (impl : Impl) (index : Nat) : String := impl.opOf (impl.item index).node

def shouldProcess (impl : Impl) (node : Nat) : Bool := node ∈ impl.shouldProcessNodes

def isFloat32 (impl : Impl) (item : NodeTypeId) : Bool :=
  getDataType (impl.nodeDef item.node) item.typeAttr = .float

def nodeHasF16KernelForTypeAttr (impl : Impl) (item : NodeTypeId) : Bool :=
  match setDataType (impl.nodeDef item.node) item.typeAttr impl.targetDtype with
  | none => false
  | some node => impl.config.isKernelRegisteredForNode node

def supportsF16 (impl : Impl) (item : NodeTypeId) : Bool :=
  match impl.config.registry.lookUpOpDef (impl.opOf item.node) with
  | .error _ => false
  | .ok opDef =>
    allowsDataType opDef item.typeAttr impl.targetDtype &&
      impl.nodeHasF16KernelForTypeAttr item

def isQuantized (impl : Impl) (item : NodeTypeId) : Bool :=
  (impl.nodeTypeMap.getTypeAttrs item.node).any fun typeAttr =>
    (getDataType (impl.nodeDef item.node) typeAttr).isQuantized

def getTensorListFloat32NodeTypeId (impl : Impl) (node : Nat) : Option NodeTypeId :=
  if isTensorListOp (impl.opOf node) then
    ((impl.config.orders.typeAttrs .tensorList node
        (impl.nodeTypeMap.getTypeAttrs node)).find? fun typeAttr =>
      (impl.graphTypeView.indexOf ⟨node, typeAttr⟩).isSome &&
        decide (typeAttr.fixedType = .invalid) &&
        decide (typeAttr.typeIndex = TypeAttrId.kSingleType) &&
        impl.isFloat32 ⟨node, typeAttr⟩).map fun typeAttr => ⟨node, typeAttr⟩
  else none

def tensorListFloat32Index (impl : Impl) (node : Nat) : Option Nat :=
  (impl.getTensorListFloat32NodeTypeId node).bind impl.graphTypeView.indexOf

def isSourceOrSinkOp (impl : Impl) (op : String) : Bool :=
  decide (op ∈ ["_Arg", "_Retval", "OptionalFromValue", "OptionalGetValue", "PartitionedCall",
    "Placeholder", "StatefulPartitionedCall"]) || impl.config.registry.isFunction op

/-- `NodeImplicitlyReadsNonResourceVariable`. A chain of `Enter` nodes longer than
the graph is a cycle, on which the source does not return. -/
def readsVariable (impl : Impl) : Nat → Nat → Bool
  | 0, _ => false
  | fuel + 1, node =>
    match (impl.graphView.getRegularFanin ⟨node, .port 0⟩).node with
    | none => false
    | some input =>
      (impl.opOf node == "Identity" &&
        (impl.opOf input == "Variable" || impl.opOf input == "VariableV2")) ||
      (impl.opOf node == "Enter" && impl.readsVariable fuel input)

def nodeImplicitlyReadsNonResourceVariable (impl : Impl) (node : Nat) : Bool :=
  impl.readsVariable (impl.graph.length + 1) node

/-- `DfsTypeTraversal` from one type with an entry test and a pre-order callback. -/
def dfs {σ : Type} (impl : Impl) (root : NodeTypeId) (direction : TypeTraversalDirection)
    (enter : σ → Nat → Bool) (preOrder : σ → Nat → σ) (state : σ) : σ :=
  impl.graphTypeView.dfsTypeTraversal [root] direction (.preOrderOnly enter preOrder) state

def indices (impl : Impl) : List Nat := List.range impl.graphTypeView.numNodes

/-- The clusters of float32 tensor-list nodes, each as the list of its nodes, and
the types denied because their cluster is unsafe. `tensor_list_prop_set` is never
filled, so the traversal enters every type. -/
def clusterStep (impl : Impl) (found : List (List Nat) × Finset Nat) (rootIdx : Nat) : List (List Nat) × Finset Nat :=
  let root := impl.item rootIdx
  if impl.shouldProcess root.node ∧ root.typeAttr.fixedType = .variant then
    match impl.tensorListFloat32Index root.node with
    | none => found
    | some rootFp32Idx =>
      let collected : List Nat × Finset Nat :=
        impl.dfs root .followInputsAndOutputs (fun _ _ => true)
          (fun state idx =>
            let node := (impl.item idx).node
            if (impl.getTensorListFloat32NodeTypeId node).isSome then
              (state.1.insert node, if impl.shouldProcess node then state.2 else insert rootFp32Idx state.2)
            else if impl.isSourceOrSinkOp (impl.opOf node) then
              (state.1, insert rootFp32Idx state.2)
            else state)
          ([root.node], found.2)
      (found.1 ++ [collected.1], collected.2)
  else found

def findFloat32TensorListOpClustersAndDenylistUnsafe (impl : Impl) : List (List Nat) × Finset Nat :=
  impl.indices.foldl impl.clusterStep ([], ∅)

def missingFloat32 (impl : Impl) (node : Nat) : Failure :=
  .crash ("No float32 type attribute found for " ++ impl.opOf node ++ " node " ++ (impl.nodeDef node).name)

def readerEdges (impl : Impl) (rootNode : Nat) : Except Failure (List NodeTypeIdEdge) :=
  if isTensorListReaderOp (impl.opOf rootNode) then
    match impl.getTensorListFloat32NodeTypeId rootNode with
    | none => .error (impl.missingFloat32 rootNode)
    | some rootFp32 =>
      impl.dfs ⟨rootNode, .fixed .variant⟩ .followInputs
        (fun _ idx => impl.shouldProcess (impl.item idx).node)
        (fun state idx =>
          let node := (impl.item idx).node
          if isTensorListWriterOp (impl.opOf node) then do
            let edges ← state
            match impl.getTensorListFloat32NodeTypeId node with
            | none => .error (impl.missingFloat32 node)
            | some itemFp32 => .ok (edges ++ [⟨itemFp32, rootFp32⟩])
          else state)
        (.ok [])
  else .ok []

def findTensorListImplicitFloat32Edges (impl : Impl) (tensorListNodes : List Nat) :
    Except Failure (List NodeTypeIdEdge) := do
  let edges ← tensorListNodes.mapM impl.readerEdges
  return edges.flatten

def addAllowlistOps (impl : Impl) : Finset Nat :=
  (Finset.range impl.graphTypeView.numNodes).filter fun rootIdx =>
    impl.shouldProcess (impl.item rootIdx).node = true ∧ impl.itemOp rootIdx ∈ impl.lists.allow

/-- One root of the first loop of `PropagateDenyFwdThroughClearAndInfer`. -/
def upstreamStep (impl : Impl) (upstream : Finset Nat) (rootIdx : Nat) : Finset Nat :=
  if impl.itemOp rootIdx ∈ impl.lists.deny ∨ impl.itemOp rootIdx ∈ impl.lists.infer then
    impl.dfs (impl.item rootIdx) .followInputs
      (fun upstream idx => decide (idx = rootIdx ∨ (idx ∉ upstream ∧ impl.itemOp idx ∈ impl.lists.clear)))
      (fun upstream idx => insert idx upstream) upstream
  else upstream

def upstreamOfDenyOrInfer (impl : Impl) : Finset Nat :=
  impl.indices.foldl impl.upstreamStep ∅

/-- One root of its second loop. -/
def denyStep (impl : Impl) (upstream deny : Finset Nat) (rootIdx : Nat) : Finset Nat :=
  if rootIdx ∈ deny ∨ impl.itemOp rootIdx ∉ impl.lists.deny then deny
  else
    impl.dfs (impl.item rootIdx) .followOutputs
      (fun deny idx => decide (idx = rootIdx ∨ (idx ∉ deny ∧ idx ∈ upstream)))
      (fun deny idx => insert idx deny) deny

def propagateDenyFwdThroughClearAndInfer (impl : Impl) (deny : Finset Nat) : Finset Nat :=
  impl.indices.foldl (impl.denyStep impl.upstreamOfDenyOrInfer) deny

structure Paint where
  allow : Finset Nat
  deny : Finset Nat
deriving DecidableEq

def forceColorMatchBetweenTensorListOps (impl : Impl) (paint : Paint)
    (tensorListNodes : List Nat) : Paint :=
  let nodeTypeIdxs := tensorListNodes.filterMap impl.tensorListFloat32Index
  if nodeTypeIdxs.any (· ∈ paint.deny) then
    ⟨paint.allow \ nodeTypeIdxs.toFinset, paint.deny ∪ nodeTypeIdxs.toFinset⟩
  else if nodeTypeIdxs.any (· ∈ paint.allow) then
    ⟨paint.allow ∪ nodeTypeIdxs.toFinset, paint.deny⟩
  else paint

/-- What may be painted between allow nodes. -/
def betweenable (impl : Impl) (deny : Finset Nat) (idx : Nat) : Bool :=
  decide (impl.itemOp idx ∉ impl.lists.allow ∧ idx ∉ deny) &&
    impl.shouldProcess (impl.item idx).node && impl.isFloat32 (impl.item idx) &&
    impl.supportsF16 (impl.item idx) &&
    decide (impl.itemOp idx ∈ impl.lists.clear ∨ impl.itemOp idx ∈ impl.lists.infer)

def isAllowRoot (impl : Impl) (rootIdx : Nat) : Bool :=
  impl.shouldProcess (impl.item rootIdx).node && decide (impl.itemOp rootIdx ∈ impl.lists.allow)

def downstreamStep (impl : Impl) (deny downstream : Finset Nat) (rootIdx : Nat) : Finset Nat :=
  if impl.isAllowRoot rootIdx then
    impl.dfs (impl.item rootIdx) .followOutputs
      (fun downstream idx => decide (idx = rootIdx ∨ (idx ∉ downstream ∧ impl.betweenable deny idx = true)))
      (fun downstream idx => insert idx downstream) downstream
  else downstream

def downstreamOfAllow (impl : Impl) (deny : Finset Nat) : Finset Nat :=
  impl.indices.foldl (impl.downstreamStep deny) ∅

/-- One root of the second loop; the state is `upstream_of_allow_set` and
`allow_set`. -/
def betweenStep (impl : Impl) (downstream : Finset Nat) (state : Finset Nat × Finset Nat)
    (rootIdx : Nat) : Finset Nat × Finset Nat :=
  if impl.isAllowRoot rootIdx ∧ rootIdx ∉ state.1 then
    impl.dfs (impl.item rootIdx) .followInputs
      (fun state idx => decide (idx = rootIdx ∨ (idx ∉ state.1 ∧ idx ∈ downstream)))
      (fun state idx => (insert idx state.1, insert idx state.2)) state
  else state

def addClearAndInferToAllowIfBetweenAllow (impl : Impl) (deny allow : Finset Nat) : Finset Nat :=
  (impl.indices.foldl (impl.betweenStep (impl.downstreamOfAllow deny)) (∅, allow)).2

/-- The scan of the fan-in in pass 4: a denied input ends it without an allow. -/
def hasAllowFanin (deny allow : Finset Nat) : Bool → List Nat → Bool
  | seen, [] => seen
  | seen, fanin :: rest =>
    if fanin ∈ deny then false
    else hasAllowFanin deny allow (seen || decide (fanin ∈ allow)) rest

def followable (impl : Impl) (deny : Finset Nat) (idx : Nat) : Bool :=
  impl.shouldProcess (impl.item idx).node && decide (idx ∉ deny) &&
    decide (impl.itemOp idx ∈ impl.lists.infer) && impl.isFloat32 (impl.item idx) &&
    impl.supportsF16 (impl.item idx)

def followStep (impl : Impl) (deny allow : Finset Nat) (itemIdx : Nat) : Finset Nat :=
  if impl.followable deny itemIdx ∧ itemIdx ∉ allow ∧
      hasAllowFanin deny allow false (impl.graphTypeView.getFanin itemIdx) then
    insert itemIdx allow
  else allow

def addInferToAllowIfFollowAllow (impl : Impl) (deny allow : Finset Nat) : Finset Nat :=
  impl.indices.foldl (impl.followStep deny) allow

/-- What may be painted through clear nodes. -/
def clearable (impl : Impl) (deny : Finset Nat) (idx : Nat) : Bool :=
  decide (idx ∉ deny) && impl.shouldProcess (impl.item idx).node &&
    impl.isFloat32 (impl.item idx) && impl.supportsF16 (impl.item idx) &&
    decide (impl.itemOp idx ∈ impl.lists.clear) &&
    !impl.nodeImplicitlyReadsNonResourceVariable (impl.item idx).node

/-- One root of pass 5; the state is `clear_prop_set` and `allow_set`. -/
def clearStep (impl : Impl) (deny : Finset Nat) (state : Finset Nat × Finset Nat)
    (rootIdx : Nat) : Finset Nat × Finset Nat :=
  if impl.shouldProcess (impl.item rootIdx).node = true ∧ rootIdx ∉ state.1 ∧ rootIdx ∈ state.2 then
    impl.dfs (impl.item rootIdx) .followInputsAndOutputs
      (fun state idx => decide (idx = rootIdx ∨ (idx ∉ state.2 ∧ impl.clearable deny idx = true)))
      (fun state idx => (insert idx state.1, insert idx state.2)) state
  else state

def propagateAllowThroughClear (impl : Impl) (deny allow : Finset Nat) : Finset Nat :=
  (impl.indices.foldl (impl.clearStep deny) (∅, allow)).2

def removeAllowsetWithFp32 (impl : Impl) (allow : Finset Nat) : Finset Nat :=
  allow.filter fun rootIdx =>
    ¬ (impl.itemOp rootIdx ∈ impl.lists.allow ∧ (impl.supportsF16 (impl.item rootIdx) = false ∨
        impl.isQuantized (impl.item rootIdx) = true))

def typeTIndex (impl : Impl) (kind : String) (node : Nat) : Except Failure Nat :=
  match impl.graphTypeView.getNodeIndex (impl.nodeDef node).name (.single "T") with
  | none => .error (.status .internal ("Type attribute T of " ++ kind ++ " node " ++
      (impl.nodeDef node).name ++ " not found in graph view"))
  | some index => .ok index

/-- A consumer of a `NextIteration` node. -/
def mergeIndex (impl : Impl) (output : InputPort) : Except Failure Nat :=
  if impl.opOf output.node = "Merge" then impl.typeTIndex "Merge" output.node
  else .error (.status .failedPrecondition
    ("Expected Merge node after NextIteration, got " ++ impl.opOf output.node))

/-- The loop body of `ForceColorMatchOnRecurrentEdges`. -/
def recurrentStep (impl : Impl) (allow : Finset Nat) (node : Nat) : Except Failure (Finset Nat) :=
  if impl.opOf node = "NextIteration" then do
    let mergeIdxs ← (impl.graphView.getFanout ⟨some node, .port 0⟩).mapM impl.mergeIndex
    let nextIterIdx ← impl.typeTIndex "NextIteration" node
    if mergeIdxs.any (· ∉ allow) then .ok ((allow \ mergeIdxs.toFinset).erase nextIterIdx)
    else .ok (insert nextIterIdx allow)
  else .ok allow

def forceColorMatchOnRecurrentEdges (impl : Impl) (allow : Finset Nat) : Except Failure (Finset Nat) :=
  (List.range impl.graph.length).foldlM impl.recurrentStep allow

def inputTypeIndex (impl : Impl) (input : InputPort) : Except Failure Nat := do
  let typeAttr ← impl.nodeTypeMap.getInputTypeAttr input.node input.portId
  match impl.graphTypeView.getNodeIndex (impl.nodeDef input.node).name typeAttr with
  | none => .error (.crash "bad optional access")
  | some index => .ok index

/-- Whether all consumers are painted; the scan ends at the first that is not. -/
def allFanoutsAllow (impl : Impl) (allow : Finset Nat) : List InputPort → Except Failure Bool
  | [] => .ok true
  | input :: rest => do
    let index ← impl.inputTypeIndex input
    if index ∈ allow then impl.allFanoutsAllow allow rest else .ok false

/-- The loop body of `MakeCastsAllowIfAllOutputsAllow`. -/
def castStep (impl : Impl) (allow : Finset Nat) (node : Nat) : Except Failure (Finset Nat) :=
  if impl.opOf node = "Cast" ∧ impl.isFloat32 ⟨node, .single "DstT"⟩ then do
    let fanout := impl.graphView.getFanout ⟨some node, .port 0⟩
    let allAllow ← impl.allFanoutsAllow allow fanout
    if fanout ≠ [] ∧ allAllow = true then
      match impl.graphTypeView.indexOf ⟨node, .single "DstT"⟩ with
      | none => .error (.crash "bad optional access")
      | some index => .ok (insert index allow)
    else .ok allow
  else .ok allow

def makeCastsAllowIfAllOutputsAllow (impl : Impl) (allow : Finset Nat) : Except Failure (Finset Nat) :=
  (List.range impl.graph.length).foldlM impl.castStep allow

end Impl

end Itex.AutoMixedPrecision
