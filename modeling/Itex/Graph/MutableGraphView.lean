import Itex.Lib.Fallible
import Itex.Graph.Types

/-!
Contract: the part of `MutableGraphView`
(`itex/core/graph/graph_view/mutable_graph_view.cc`, `graph_view.h`) that
automatic mixed precision uses.

Owns: the constructor, `GetFanout`, `GetRegularFanin`, `AddNode` and
`UpdateRegularFaninByPort`.

A node pointer is the index of the node in the graph, a null pointer `none`.
`fanouts_` is the list of its (output port, input port) pairs without
repetition. `max_regular_output_port_` is left out: nothing here reads it.
-/

namespace Itex.Graph

structure InputPort where
  node : Nat
  portId : PortId
deriving DecidableEq, Repr

structure OutputPort where
  node : Option Nat
  portId : PortId
deriving DecidableEq, Repr

structure MutableGraphView where
  graph : GraphDef
  /-- `nodes_`. A name that only occurs as an input is a key with a null node. -/
  nodes : AList fun _ : String => Option Nat
  fanouts : List (OutputPort × InputPort)
  /-- `max_regular_input_port_`, by node; `none` is the default of -1. -/
  maxRegularInputPort : List (Option Nat)

/-- `IsIdentity` and `IsIdentityNSingleInput`. -/
def isSingleIdentity (node : NodeDef) : Bool :=
  node.op == "Identity" || node.op == "RefIdentity" ||
  (node.op == "IdentityN" &&
    match node.attr.lookup "T" with
    | none => false
    | some value => value.listTypes.length == 1)

def isSwitch (node : NodeDef) : Bool :=
  node.op == "_SwitchN" || node.op == "Switch" || node.op == "RefSwitch"

namespace MutableGraphView

def getNode (view : MutableGraphView) (name : String) : Option Nat :=
  (view.nodes.lookup name).join

/-- `nodes()[name]`: a missing key is added with a null node. -/
def touch (view : MutableGraphView) (name : String) : MutableGraphView :=
  if name ∈ view.nodes then view else { view with nodes := view.nodes.insert name none }

/-- `GetFanout`, in some order. -/
def getFanout (view : MutableGraphView) (port : OutputPort) : List InputPort :=
  (view.fanouts.filter fun edge => edge.1 = port).map Prod.snd

def inputsOf (view : MutableGraphView) (node : Nat) : List TensorId :=
  match view.graph[node]? with
  | none => []
  | some def_ => def_.input

/-- `GetRegularFanin`; a default port when there is none. -/
def getRegularFanin (view : MutableGraphView) (port : InputPort) : OutputPort :=
  match port.portId, view.maxRegularInputPort.getD port.node none with
  | .port number, some last =>
    if number ≤ last then
      match (view.inputsOf port.node)[number]? with
      | none => ⟨none, .port 0⟩
      | some tensor => ⟨view.getNode tensor.node, tensor.index⟩
    else ⟨none, .port 0⟩
  | _, _ => ⟨none, .port 0⟩

def isIdentityConsumingSwitch (view : MutableGraphView) (node : NodeDef) : Except Failure Bool :=
  if isSingleIdentity node then
    match node.input with
    | [] => .ok false
    | tensor :: _ =>
      if tensor.index = .controlSlot then .ok false
      else
        match (view.getNode tensor.node).bind fun index => view.graph[index]? with
        | none => .error (.crash "null NodeDef*")
        | some inputNode => .ok (isSwitch inputNode)
  else .ok false

/-- `CanDedupControlWithRegularInput`, by node. -/
def canDedupNode (view : MutableGraphView) (node : NodeDef) : Except Failure Bool := do
  let consumesSwitch ← view.isIdentityConsumingSwitch node
  return !consumesSwitch

def canDedupControlWithRegularInput (view : MutableGraphView) (name : String) : Except Failure Bool :=
  match (view.getNode name).bind fun index => view.graph[index]? with
  | none => .ok false
  | some node => view.canDedupNode node

/-- The variables of the loop of `AddAndDedupFanouts`: the inputs kept so far are
`kept`, those still to be read are in the list the loop runs on. -/
structure Scan where
  view : MutableGraphView
  fanins : List String := []
  controllingFanins : List String := []
  kept : List TensorId := []
  maxInputPort : Option Nat := none

/-- `SwapElements(pos, last_pos); --last_pos`: the last unread input comes next. -/
def lastFirst (unread : List TensorId) : List TensorId :=
  unread.getLast?.toList ++ unread.dropLast

/-- An input that stays. -/
def Scan.keep (scan : Scan) (node : Nat) (tensor : TensorId) : Scan :=
  let view := scan.view.touch tensor.node
  let output : OutputPort := ⟨view.getNode tensor.node, tensor.index⟩
  let position := scan.kept.length
  let input : InputPort :=
    ⟨node, if tensor.index = .controlSlot then .controlSlot else .port position⟩
  { view := { view with fanouts := view.fanouts.insert (output, input) }
    fanins := tensor.node :: scan.fanins
    controllingFanins :=
      if tensor.index = .controlSlot then tensor.node :: scan.controllingFanins
      else scan.controllingFanins
    kept := scan.kept ++ [tensor]
    maxInputPort :=
      if tensor.index = .controlSlot then scan.maxInputPort else some position }

/-- A control input that repeats an earlier input. -/
def Scan.dedup (scan : Scan) (tensor : TensorId) : Scan :=
  { scan with controllingFanins := tensor.node :: scan.controllingFanins }

/-- The loop of `AddAndDedupFanouts`; each turn reads one input. -/
def scanInputs (node : Nat) : Nat → List TensorId → Scan → Except Failure Scan
  | 0, _, scan => .ok scan
  | _ + 1, [], scan => .ok scan
  | turns + 1, tensor :: unread, scan => do
    -- The node's first input is never removed, so the test may read the old node.
    let canDedup ← scan.view.canDedupControlWithRegularInput tensor.node
    if tensor.node ∈ scan.fanins ∧ tensor.index = .controlSlot ∧
        (canDedup = true ∨ tensor.node ∈ scan.controllingFanins) then
      scanInputs node turns (lastFirst unread) (scan.dedup tensor)
    else
      scanInputs node turns unread (scan.keep node tensor)

def addAndDedupFanouts (view : MutableGraphView) (node : Nat) : Except Failure MutableGraphView := do
  let inputs := view.inputsOf node
  let scan ← scanInputs node inputs.length inputs { view := view }
  return { scan.view with
    graph := scan.view.graph.modify node fun def_ => { def_ with input := scan.kept }
    maxRegularInputPort := scan.view.maxRegularInputPort.set node scan.maxInputPort }

def addUniqueNodeOrDie (nodes : AList fun _ : String => Option Nat) (name : String)
    (index : Nat) : Except Failure (AList fun _ : String => Option Nat) :=
  if name ∈ nodes then .error (.crash ("Non unique node name detected: " ++ name))
  else .ok (nodes.insert name (some index))

def construct (graph : GraphDef) : Except Failure MutableGraphView := do
  let nodes ← graph.zipIdx.foldlM
    (fun nodes entry => addUniqueNodeOrDie nodes entry.1.name entry.2) ∅
  (List.range graph.length).foldlM addAndDedupFanouts
    ⟨graph, nodes, [], List.replicate graph.length none⟩

/-- `AddNode`. The new node is the last of the graph. -/
def addNode (view : MutableGraphView) (node : NodeDef) : Except Failure MutableGraphView := do
  let nodes ← addUniqueNodeOrDie view.nodes node.name view.graph.length
  addAndDedupFanouts
    { view with
      graph := view.graph ++ [node]
      nodes := nodes
      maxRegularInputPort := view.maxRegularInputPort ++ [none] }
    view.graph.length

/-- Where `RemoveControllingFaninInternal` finds the control input `name`, going
back from input `index`. -/
def controllingFanin (inputs : List TensorId) (name : String) : Nat → Option Nat
  | 0 => none
  | index + 1 =>
    match inputs[index]? with
    | none => none
    | some tensor =>
      if tensor.index ≠ .controlSlot then none
      else if tensor.node = name then some index
      else controllingFanin inputs name index

def removeControllingFanin (view : MutableGraphView) (node faninNode : Nat)
    (faninName : String) : MutableGraphView :=
  let inputs := view.inputsOf node
  match controllingFanin inputs faninName inputs.length with
  | none => view
  | some index =>
    let swapped := match inputs.getLast? with
      | none => inputs
      | some last => inputs.set index last
    { view with
      graph := view.graph.modify node fun def_ => { def_ with input := swapped.dropLast }
      fanouts := view.fanouts.erase
        (⟨some faninNode, .controlSlot⟩, ⟨node, .controlSlot⟩) }

def tensorText (tensor : TensorId) : String :=
  match tensor.index with
  | .controlSlot => "^" ++ tensor.node
  | .port number => tensor.node ++ ":" ++ toString number

def portText : PortId → String
  | .controlSlot => "-1"
  | .port number => toString number

/-- `MutationError` of `UpdateRegularFaninByPort`. -/
def updateError (nodeName : String) (port : PortId) (fanin : TensorId) (message : String) : Failure :=
  .status .invalidArgument
    ("MutableGraphView::UpdateRegularFaninByPort(node_name='" ++ nodeName ++ "', port=" ++
      portText port ++ ", fanin='" ++ tensorText fanin ++ "') error: " ++ message ++ ".")

def checkPortRange (port : PortId) (last : Option Nat) (failure : String → Failure) : Except Failure Nat :=
  match last, port with
  | none, _ => .error (failure "no available ports as node has no regular fanins")
  | some last, .controlSlot =>
    .error (failure ("port must be in range [0, " ++ toString last ++ "]"))
  | some last, .port number =>
    if number ≤ last then .ok number
    else .error (failure ("port must be in range [0, " ++ toString last ++ "]"))

def checkNodeExists (view : MutableGraphView) (name : String) (failure : String → Failure) : Except Failure Nat :=
  match view.getNode name with
  | none => .error (failure ("node '" ++ name ++ "' was not found"))
  | some index => .ok index

/-- Moves input `number` of `node` from `tensor` to `fanin`. -/
def reroute (view : MutableGraphView) (node number : Nat) (tensor fanin : TensorId)
    (faninNode : Nat) : MutableGraphView :=
  let input : InputPort := ⟨node, .port number⟩
  let view := view.touch tensor.node
  let removed := view.fanouts.erase (⟨view.getNode tensor.node, tensor.index⟩, input)
  { view with
    fanouts := removed.insert (⟨some faninNode, fanin.index⟩, input)
    graph := view.graph.modify node fun def_ => { def_ with input := def_.input.set number fanin } }

def updateRegularFaninByPort (view : MutableGraphView) (nodeName : String) (port : PortId)
    (fanin : TensorId) : Except Failure MutableGraphView := do
  let failure := updateError nodeName port fanin
  require (fanin.index ≠ .controlSlot)
    (failure ("fanin '" ++ tensorText fanin ++ "' must be a regular tensor id"))
  require (nodeName ≠ fanin.node)
    (failure ("can't add fanin '" ++ tensorText fanin ++ "' to self"))
  let node ← view.checkNodeExists nodeName failure
  let number ← checkPortRange port (view.maxRegularInputPort.getD node none) failure
  let faninNode ← view.checkNodeExists fanin.node failure
  match (view.inputsOf node)[number]?, view.graph[faninNode]? with
  | some tensor, some faninDef =>
    if tensor = fanin then .ok view
    else do
      let moved := view.reroute node number tensor fanin faninNode
      let canDedup ← moved.canDedupNode faninDef
      if canDedup then .ok (moved.removeControllingFanin node faninNode faninDef.name)
      else .ok moved
  | _, _ => .error (.crash "input index out of range")

end MutableGraphView

end Itex.Graph
