import Itex.Lib.DepthFirst
import Itex.Graph.NodeTypeAttrMap

/-!
Contract: `GraphTypeTopologyView` and `DfsTypeTraversal`
(`itex/core/graph/auto_mixed_precision/auto_mixed_precision.cc`), the graph whose
vertices are the types of nodes.

Owns: the view of a graph, its lookups and adjacency, ephemeral edges, and the
traversal over it.

Entries of `fanins_` and `fanouts_` are made together, so the view keeps one list of
edges. It is always built with `skip_invalid_edges_ == false`. `ITEX_DCHECK` is
compiled out.
-/

namespace Itex.AutoMixedPrecision

open Itex.Lib Itex.Graph

/-- A type of a node; the node pointer is the index of the node in the graph. -/
structure NodeTypeId where
  node : Nat
  typeAttr : TypeAttrId
deriving DecidableEq, Repr

structure NodeTypeIdEdge where
  src : NodeTypeId
  dst : NodeTypeId
deriving DecidableEq, Repr

def sortAndRemoveDuplicates (indexes : List Nat) : List Nat :=
  (indexes.insertionSort (· ≤ ·)).dedup

structure GraphTypeTopologyView where
  /-- The names of the graph's nodes. -/
  names : List String
  nodeTypeAttrs : List NodeTypeId
  edges : List (Nat × Nat)

namespace GraphTypeTopologyView

def numNodes (view : GraphTypeTopologyView) : Nat := view.nodeTypeAttrs.length

def nodeNameToIndex (view : GraphTypeTopologyView) (name : String) : Option Nat :=
  view.names.findIdx? fun other => other = name

def getNodeIndex (view : GraphTypeTopologyView) (name : String) (typeAttr : TypeAttrId) : Option Nat :=
  view.nodeTypeAttrs.findIdx? fun item =>
    view.names[item.node]? = some name ∧ item.typeAttr = typeAttr

def indexOf (view : GraphTypeTopologyView) (item : NodeTypeId) : Option Nat :=
  (view.names[item.node]?).bind fun name => view.getNodeIndex name item.typeAttr

def getFanin (view : GraphTypeTopologyView) (index : Nat) : List Nat :=
  sortAndRemoveDuplicates ((view.edges.filter fun edge => edge.2 = index).map Prod.fst)

def getFanout (view : GraphTypeTopologyView) (index : Nat) : List Nat :=
  sortAndRemoveDuplicates ((view.edges.filter fun edge => edge.1 = index).map Prod.snd)

def inputEdge (view : GraphTypeTopologyView) (graph : GraphDef) (map : NodeTypeAttrMap)
    (index : Nat) (item : NodeTypeId) (port : Nat) : Except Failure (Nat × Nat) :=
  match (graph[item.node]?).bind fun node => (node.input[port]?).map fun input => (node, input)
  with
  | none => .error (.crash "input index out of range")
  | some (node, tensor) =>
    match view.nodeNameToIndex tensor.node with
    | none => .error (.status .invalidArgument
        ("Non-existent input " ++ tensor.text ++ " in node " ++ node.name))
    | some inputIndex => do
      let inputTypeAttr ← map.getOutputTypeAttr inputIndex tensor.index
      match view.getNodeIndex tensor.node inputTypeAttr with
      | none => .error (.status .invalidArgument
          ("Did not find type attr " ++ inputTypeAttr.debugString ++ " in node " ++ tensor.node))
      | some inputTypeIndex => .ok (inputTypeIndex, index)

/-- `InitializeFromGraph`. `order` is the order in which the type attributes of a
node are iterated. -/
def initializeFromGraph (order : Nat → List TypeAttrId → List TypeAttrId)
    (graph : GraphDef) (map : NodeTypeAttrMap) : Except Failure GraphTypeTopologyView := do
  let numbered : GraphTypeTopologyView :=
    { names := graph.map NodeDef.name
      nodeTypeAttrs := (List.range graph.length).flatMap fun node =>
        (order node (map.getTypeAttrs node)).map fun typeAttr => ⟨node, typeAttr⟩
      edges := [] }
  let edges ← numbered.nodeTypeAttrs.zipIdx.mapM fun entry =>
    (map.getInputPorts entry.1.node entry.1.typeAttr).mapM fun port =>
      numbered.inputEdge graph map entry.2 entry.1 port
  return { numbered with edges := edges.flatten }

def addEphemeralEdges (view : GraphTypeTopologyView) (ephemeral : List NodeTypeIdEdge) :
    Except Failure GraphTypeTopologyView := do
  let added ← ephemeral.mapM fun edge =>
    match view.indexOf edge.src, view.indexOf edge.dst with
    | some src, some dst => .ok (src, dst)
    | _, _ => .error (.crash "node_type_name_to_index_.at")
  return { view with edges := view.edges ++ added }

end GraphTypeTopologyView

inductive TypeTraversalDirection where
  | followInputs
  | followOutputs
  | followInputsAndOutputs
deriving DecidableEq, Repr

namespace GraphTypeTopologyView

/-- What a traversal pushes after it visited `index`. -/
def neighbours (view : GraphTypeTopologyView) (direction : TypeTraversalDirection)
    (index : Nat) : List Nat :=
  match direction with
  | .followInputs => view.getFanin index
  | .followOutputs => view.getFanout index
  | .followInputsAndOutputs => view.getFanin index ++ view.getFanout index

def dfsTypeTraversal {σ : Type} (view : GraphTypeTopologyView) (start : List NodeTypeId)
    (direction : TypeTraversalDirection) (visitor : DepthFirst.Visitor Nat σ) (state : σ) : σ :=
  DepthFirst.traverse visitor (List.range view.numNodes) (view.neighbours direction)
    (start.filterMap view.indexOf) state

@[simp] theorem mem_sortAndRemoveDuplicates {indexes : List Nat} {i : Nat} :
    i ∈ sortAndRemoveDuplicates indexes ↔ i ∈ indexes := by
  rw [sortAndRemoveDuplicates, List.mem_dedup, List.mem_insertionSort]

@[simp] theorem mem_getFanin {view : GraphTypeTopologyView} {i j : Nat} :
    j ∈ view.getFanin i ↔ (j, i) ∈ view.edges := by
  simp [getFanin]

@[simp] theorem mem_getFanout {view : GraphTypeTopologyView} {i j : Nat} :
    j ∈ view.getFanout i ↔ (i, j) ∈ view.edges := by
  simp [getFanout]

end GraphTypeTopologyView

end Itex.AutoMixedPrecision
