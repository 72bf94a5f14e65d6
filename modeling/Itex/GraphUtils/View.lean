import Itex.Lib.Fallible
import Itex.Graph.Types

/-!
Contract: `utils::MutableGraphView` (`itex/core/graph/utils/graph_view.h`,
`graph_view.cc`, `graph_view_internal.h`).

Owns: node views, the view of a graph, its constructor, and the two steps that add an
edge.

Reading a vector out of range is a crash. A `NodeDef` has an address that stays with it
when the graph swaps its nodes: `fanins_count_` is keyed by it. The `port_index_` of a
regular fanout is its `fanin_index_`, other ones are -1, so these are left out.
-/

namespace Itex.GraphUtils

open Itex.Graph (Failure require PortId TensorId NodeDef GraphDef)

def fetch {α : Type} (vector : List α) (index : Nat) : Except Failure α :=
  match vector[index]? with
  | some element => .ok element
  | none => .error (.crash "vector index out of range")

/-- `MutableFanoutView` in `regular_fanins_`. A missing index is `kMissingIndex`. -/
structure RegularFanin where
  nodeIndex : Nat
  index : Nat
  fanoutIndex : Option Nat
deriving DecidableEq, Repr

/-- `MutableFanoutView` in `controlling_fanins_`. -/
structure ControllingFanin where
  nodeIndex : Nat
  fanoutIndex : Option Nat
deriving DecidableEq, Repr

/-- `MutableFaninView`. -/
structure Fanout where
  nodeIndex : Nat
  faninIndex : Nat
deriving DecidableEq, Repr

structure NodeDefAndPortIndex where
  nodeDef : Nat
  portIndex : PortId
deriving DecidableEq, Repr

abbrev FaninsCount := AList fun _ : NodeDefAndPortIndex => Nat

structure MutableNodeView where
  nodeIndex : Nat
  regularFanins : List RegularFanin := []
  controllingFanins : List ControllingFanin := []
  regularFanoutsByPort : List (List Fanout) := []
  numRegularFanouts : Int := 0
  controlledFanouts : List Fanout := []
  faninsCount : FaninsCount := ∅
  controllingFaninsIndex : AList (fun _ : String => Nat) := ∅
  /-- `update_index_`; `none` is `kMissingIndex`. -/
  updateIndex : Option Nat := none

structure StoredNode where
  address : Nat
  nodeDef : NodeDef

structure MutableGraphView where
  graph : List StoredNode
  /-- No node of the graph has this address or a greater one. -/
  nextAddress : Nat
  nodes : List MutableNodeView
  nodeIndexByName : AList (fun _ : String => Nat)

def incrementFaninCount (faninsCount : FaninsCount) (fanin : NodeDefAndPortIndex) : FaninsCount :=
  faninsCount.insert fanin ((faninsCount.lookup fanin).getD 0 + 1)

def decrementFaninCount (faninsCount : FaninsCount) (fanin : NodeDefAndPortIndex) : FaninsCount :=
  match faninsCount.lookup fanin with
  | none => faninsCount
  | some count =>
    if count ≤ 1 then faninsCount.erase fanin else faninsCount.insert fanin (count - 1)

namespace MutableGraphView

def numNodes (view : MutableGraphView) : Nat := view.nodes.length

def modifyNode (view : MutableGraphView) (index : Nat) (change : MutableNodeView → MutableNodeView) :
    MutableGraphView :=
  { view with nodes := view.nodes.modify index change }

def modifyNodeDef (view : MutableGraphView) (index : Nat) (change : NodeDef → NodeDef) : MutableGraphView :=
  { view with
    graph := view.graph.modify index fun stored => { stored with nodeDef := change stored.nodeDef } }

/-- `resize(port + 1)` where the vector is shorter. -/
def resizePorts (fanoutsByPort : List (List Fanout)) (port : Nat) : List (List Fanout) :=
  fanoutsByPort ++ List.replicate (port + 1 - fanoutsByPort.length) []

def linkRegularFanin (view : MutableGraphView) (nodeIndex faninIndex port : Nat) :
    Except Failure MutableGraphView := do
  let node ← fetch view.nodes nodeIndex
  let faninNode ← fetch view.nodes faninIndex
  let faninDef ← fetch view.graph faninIndex
  let fanoutsByPort := resizePorts faninNode.regularFanoutsByPort port
  let position := node.regularFanins.length
  let fanoutIndex := (fanoutsByPort.getD port []).length
  let linked := view.modifyNode faninIndex fun faninNode =>
    { faninNode with
      regularFanoutsByPort := fanoutsByPort.modify port (· ++ [⟨nodeIndex, position⟩])
      numRegularFanouts := faninNode.numRegularFanouts + 1 }
  return linked.modifyNode nodeIndex fun node =>
    { node with
      regularFanins := node.regularFanins ++ [⟨faninIndex, port, some fanoutIndex⟩]
      faninsCount := incrementFaninCount node.faninsCount ⟨faninDef.address, .port port⟩ }

def linkControllingFanin (view : MutableGraphView) (nodeIndex faninIndex : Nat)
    (faninName : String) : Except Failure MutableGraphView := do
  let node ← fetch view.nodes nodeIndex
  let faninNode ← fetch view.nodes faninIndex
  let faninDef ← fetch view.graph faninIndex
  let position := node.controllingFanins.length
  let fanoutIndex := faninNode.controlledFanouts.length
  let linked := view.modifyNode faninIndex fun faninNode =>
    { faninNode with
      controlledFanouts := faninNode.controlledFanouts ++ [⟨nodeIndex, position⟩] }
  return linked.modifyNode nodeIndex fun node =>
    { node with
      controllingFanins := node.controllingFanins ++ [⟨faninIndex, some fanoutIndex⟩]
      faninsCount := incrementFaninCount node.faninsCount ⟨faninDef.address, .controlSlot⟩
      -- `emplace` keeps an entry that is there.
      controllingFaninsIndex :=
        if faninName ∈ node.controllingFaninsIndex then node.controllingFaninsIndex
        else node.controllingFaninsIndex.insert faninName position }

/-! ## The constructor -/

def kMutableGraphViewError : String := "MutableGraphView::MutableGraphView error: "

def constructorError (message : String) : Failure :=
  .status .invalidArgument (kMutableGraphViewError ++ message)

def addUniqueNodeInternal (byName : AList fun _ : String => Nat) (node : NodeDef) :
    Except Failure (AList fun _ : String => Nat) :=
  if node.name ∈ byName then
    .error (constructorError ("graph has multiple nodes with the name '" ++ node.name ++ "'."))
  else .ok (byName.insert node.name byName.entries.length)

/-- One input in `CheckFaninsInternal`. -/
def checkFanin (byName : AList fun _ : String => Nat) (nodeName : String)
    (hasObservedControl : Bool) (fanin : TensorId) : Except Failure Bool := do
  let isControl := decide (fanin.index = .controlSlot)
  require (fanin.node ≠ nodeName)
    (constructorError ("node '" ++ nodeName ++ "' has self cycle fanin '" ++ fanin.text ++ "'."))
  require (isControl = true ∨ hasObservedControl = false)
    (constructorError ("node '" ++ nodeName ++ "' has regular fanin '" ++ fanin.text ++
      "' after controlling fanins."))
  require (fanin.node ∈ byName)
    (constructorError ("node '" ++ nodeName ++ "' has missing fanin '" ++ fanin.text ++ "'."))
  return hasObservedControl || isControl

def checkFaninsInternal (byName : AList fun _ : String => Nat) (node : NodeDef) : Except Failure Unit := do
  let _ ← node.input.foldlM (checkFanin byName node.name) false
  return ()

/-- `SwapElements(pos, last_pos); --last_pos`: the last unread input comes next. -/
def lastFirst (unread : List TensorId) : List TensorId :=
  unread.getLast?.toList ++ unread.dropLast

/-- `node_index_by_name_[name]`, of a name that was checked. -/
def indexOfName (view : MutableGraphView) (name : String) : Except Failure Nat :=
  match view.nodeIndexByName.lookup name with
  | some index => .ok index
  | none => .error (.crash "missing node name")

/-- The loop of `AddFaninsInternal` over the inputs of one node; each turn reads one. The
inputs kept so far are `kept`. -/
def addFanins (nodeIndex : Nat) : Nat → List TensorId → List TensorId → MutableGraphView →
    Except Failure (List TensorId × MutableGraphView)
  | 0, _, kept, view => .ok (kept, view)
  | _ + 1, [], kept, view => .ok (kept, view)
  | turns + 1, fanin :: unread, kept, view => do
    let faninIndex ← view.indexOfName fanin.node
    match fanin.index with
    | .controlSlot =>
      -- `observed_controls` has the controlling fanins that were kept.
      if fanin ∈ kept then addFanins nodeIndex turns (lastFirst unread) kept view
      else do
        let view ← view.linkControllingFanin nodeIndex faninIndex fanin.node
        addFanins nodeIndex turns unread (kept ++ [fanin]) view
    | .port port => do
      let view ← view.linkRegularFanin nodeIndex faninIndex port
      addFanins nodeIndex turns unread (kept ++ [fanin]) view

def addFaninsInternal (view : MutableGraphView) (nodeIndex : Nat) : Except Failure MutableGraphView := do
  let stored ← fetch view.graph nodeIndex
  let inputs := stored.nodeDef.input
  let (kept, view) ← addFanins nodeIndex inputs.length inputs [] view
  return view.modifyNodeDef nodeIndex fun node => { node with input := kept }

def construct (graph : GraphDef) : Except Failure MutableGraphView := do
  let byName ← graph.foldlM addUniqueNodeInternal ∅
  let _ ← graph.mapM (checkFaninsInternal byName)
  (List.range graph.length).foldlM addFaninsInternal
    { graph := graph.zipIdx.map fun entry => ⟨entry.2, entry.1⟩
      nextAddress := graph.length
      nodes := (List.range graph.length).map fun index => { nodeIndex := index }
      nodeIndexByName := byName }

end MutableGraphView

end Itex.GraphUtils
