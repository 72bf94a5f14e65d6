import Itex.Graph.Types
import Itex.Lib.Fallible

/-!
Contract: the ops that the oneDNN Graph pass hands to oneDNN
(`itex/core/graph/onednn_graph/onednn_graph.cc`).

Owns: nodes as the pass sees them, the maps between TensorFlow and oneDNN inputs and
outputs, and `SelectNode`.

A node is its place in the graph, and a logical tensor is the output that its id stands
for. Which ops the translation map translates (their data types and their own conditions)
is a parameter. A missing attribute or input aborts.
-/

namespace Itex.OneDnnGraph

open Itex.Graph
open Itex.Lib

/-- `SafeTensorId`, of an output. -/
structure TensorRef where
  node : Nat
  port : Nat
deriving DecidableEq, Repr

structure Node where
  op : String
  /-- The type in its device name, where `ParseFullName` finds one. -/
  deviceType : Option String
  /-- `NodeIsOnCpu`. -/
  isOnCpu : Bool := false
  /-- Attribute `is_training`. -/
  isTraining : Option Bool := none
  regularFanins : List TensorRef
  controllingFanins : List Nat := []
deriving DecidableEq, Repr

abbrev OpGraph := List Node

def abort {α : Type} (reason : String) : Except Failure α := .error (.crash reason)

/-! ## Inputs and outputs in oneDNN -/

def tfLlgaInputMap : List (String × List Nat) := [("Conv2DBackpropInputStatic", [2, 1]),
  ("Conv2DBackpropInputDynamic", [2, 1, 0]),
  ("Conv2DBackpropFilterStatic", [0, 2]),
  ("Conv2DBackpropFilterDynamic", [0, 2, 1]),
  ("FusedBatchNormV3Training", [0, 3, 4, 1, 2]),
  ("FusedBatchNormGradV3", [1, 0, 3, 4, 2]),
  ("GeluGrad", [1, 0]),
  ("ITEXGeluGrad", [1, 0]),
  ("LayerNormGrad", [1, 0, 3, 4, 2]),
  ("ITEXLayerNormGrad", [1, 0, 3, 4, 2]),
  ("MaxPoolGrad", [0, 2]),
  ("QuantizeV2", [0]),
  ("ReluGrad", [1, 0]),
  ("Reshape", [0]),
  ("Min", [0]),
  ("Max", [0]),
  ("Mean", [0]),
  ("ResizeBilinear", [0]),
  ("Sum", [0]),
  ("Transpose", [0]),
  ("Dequantize", [0])]

def tfLlgaOutputMap : List (String × List Nat) := [("FusedBatchNormV3Inference", [0]),
  ("FusedBatchNormV3Training", [0, 1, 2, 3, 4]),
  ("FusedBatchNormGradV3", [0, 1, 2]),
  ("LayerNormTraining", [0, 1, 2]),
  ("LayerNormInference", [0]),
  ("LayerNormGrad", [0, 1, 2]),
  ("ITEXLayerNormGrad", [0, 1, 2]),
  ("QuantizeV2", [0]),
  ("Dequantize", [0])]

def nonInt8CandidateSet : List String :=
  ["FusedBatchNormGradV3", "LayerNormGrad", "ITEXLayerNormGrad", "MaxPoolGrad", "ReluGrad", "GeluGrad",
    "ITEXGeluGrad", "ResizeBilinear", "Select"]

def isAnyConst (node : Node) : Bool := node.op == "Const" || node.op == "HostConst"

/-- Whether a regular fanin is a constant. -/
def isConstantInput (graph : OpGraph) (node : Node) (index : Nat) : Except Failure Bool :=
  match node.regularFanins[index]?.bind fun fanin => graph[fanin.node]? with
  | some fanin => .ok (isAnyConst fanin)
  | none => abort "no such fanin"

def getOpInLLGAStyle (graph : OpGraph) (node : Node) : Except Failure String :=
  if node.op = "FusedBatchNormV3" then
    match node.isTraining with
    | some true => .ok "FusedBatchNormV3Training"
    | some false => .ok "FusedBatchNormV3Inference"
    | none => abort "No attr named 'is_training'"
  else if node.op = "Conv2DBackpropInput" then do
    let isConstant ← isConstantInput graph node 0
    return if isConstant then "Conv2DBackpropInputStatic" else "Conv2DBackpropInputDynamic"
  else if node.op = "Conv2DBackpropFilter" then do
    let isConstant ← isConstantInput graph node 1
    return if isConstant then "Conv2DBackpropFilterStatic" else "Conv2DBackpropFilterDynamic"
  else if node.op = "LayerNorm" ∨ node.op = "ITEXLayerNorm" then
    .ok (if node.isTraining.getD true then "LayerNormTraining" else "LayerNormInference")
  else if node.op = "ConcatV2" then .ok "Concat"
  else .ok node.op

/-- `GetTFInputIndexInLLGASequence` at each of the `GetLLGANumInput` indices. -/
def llgaInputs (graph : OpGraph) (node : Node) : Except Failure (List Nat) := do
  let op ← getOpInLLGAStyle graph node
  match tfLlgaInputMap.lookup op with
  | some indices => return indices
  | none =>
    if op = "Concat" then return List.range (node.regularFanins.length - 1)
    else return List.range node.regularFanins.length

/-- `GetRegularFanouts().size()`. -/
def numFanoutPorts (graph : OpGraph) (index : Nat) : Nat :=
  (graph.flatMap Node.regularFanins).foldl
    (fun ports fanin => if fanin.node = index then max ports (fanin.port + 1) else ports) 0

/-- `GetTFOutputIndexInLLGASequence` at each of the `GetLLGANumOutput` indices. -/
def llgaOutputs (graph : OpGraph) (index : Nat) (node : Node) : Except Failure (List Nat) := do
  let op ← getOpInLLGAStyle graph node
  match tfLlgaOutputMap.lookup op with
  | some indices => return indices
  | none => return List.range (numFanoutPorts graph index)

def consumers (graph : OpGraph) (tensor : TensorRef) : List Nat :=
  (List.range graph.length).filter fun index =>
    match graph[index]? with
    | some node => node.regularFanins.contains tensor
    | none => false

/-! ## Selection -/

/-- An op in the graph of oneDNN. -/
structure GivenOp where
  index : Nat
  inputs : List TensorRef
  outputs : List TensorRef
deriving DecidableEq, Repr

structure Selection where
  given : List GivenOp := []
  wildcardNodes : List Nat := []
  rewriteNodes : List Nat := []
deriving DecidableEq, Repr

structure Context where
  graph : OpGraph
  nodesToPreserve : List Nat
  /-- `enable_onednn_graph_all_type`. -/
  allType : Bool
  /-- The translation map makes an op of the node. -/
  translates : Nat → Bool

namespace Context

variable (ctx : Context)

def node (index : Nat) : Except Failure Node :=
  match ctx.graph[index]? with
  | some node => .ok node
  | none => abort "no such node"

def fanin (node : Node) (index : Nat) : Except Failure TensorRef :=
  match node.regularFanins[index]? with
  | some fanin => .ok fanin
  | none => abort "no such fanin"

/-- `add_op`, of an op whose device names a type. -/
def addOp (selection : Selection) (node : Node) (op : GivenOp) : Selection :=
  if node.deviceType.isSome then { selection with given := selection.given ++ [op] } else selection

/-- `SelectNode` at one node, `is_wildcard` false. -/
def selectNode (selection : Selection) (index : Nat) : Except Failure Selection := do
  let node ← ctx.node index
  if ctx.nodesToPreserve.contains index then return selection
  else if !ctx.allType && nonInt8CandidateSet.contains node.op then return selection
  else if !ctx.translates index then return selection
  else do
    let inputIndices ← llgaInputs ctx.graph node
    let inputs ← inputIndices.mapM (fanin node)
    let outputIndices ← llgaOutputs ctx.graph index node
    -- The id of an output is that of its place in oneDNN.
    let outputs := (List.range outputIndices.length).map (⟨index, ·⟩)
    let fanouts := outputIndices.flatMap fun port => consumers ctx.graph ⟨index, port⟩
    let selected :=
      { selection with
        rewriteNodes := selection.rewriteNodes ++ [index]
        wildcardNodes := selection.wildcardNodes ++ inputs.map TensorRef.node ++ fanouts }
    return addOp selected node ⟨index, inputs, outputs⟩

/-- `SelectNode` at one node, `is_wildcard` true. -/
def selectWildcard (selection : Selection) (index : Nat) : Except Failure Selection := do
  let node ← ctx.node index
  if !selection.wildcardNodes.contains index then return selection
  else if selection.rewriteNodes.contains index then return selection
  else
    return addOp selection node
      ⟨index, node.regularFanins, (List.range (numFanoutPorts ctx.graph index)).map (⟨index, ·⟩)⟩

/-- Both runs of `SelectNode`. -/
def select : Except Failure Selection := do
  let selected ← (List.range ctx.graph.length).foldlM ctx.selectNode {}
  (List.range ctx.graph.length).foldlM ctx.selectWildcard selected

end Context

/-- The ops of a selection are nodes of the graph, with inputs and outputs of their own. -/
structure Selection.Sound (graph : OpGraph) (selection : Selection) : Prop where
  given : ∀ op ∈ selection.given, ∃ node, graph[op.index]? = some node ∧
    (∀ tensor ∈ op.inputs, tensor ∈ node.regularFanins) ∧ ∀ tensor ∈ op.outputs, tensor.node = op.index
  rewritten : ∀ index ∈ selection.rewriteNodes, index < graph.length

section Sound

variable {ctx : Context} {selection selection' : Selection} {index : Nat}

theorem Context.node_eq_ok {node : Node} : ctx.node index = .ok node ↔ ctx.graph[index]? = some node := by
  unfold Context.node
  cases ctx.graph[index]? <;> simp [abort]

theorem Context.fanin_eq_ok {node : Node} {tensor : TensorRef} (found : Context.fanin node index = .ok tensor) :
    tensor ∈ node.regularFanins := by
  unfold Context.fanin at found
  split at found
  · case h_1 fanin atIndex =>
      cases found
      exact List.mem_of_getElem? atIndex
  · cases found

theorem Selection.Sound.addOp {graph : OpGraph} (sound : selection.Sound graph) {node : Node} {op : GivenOp}
    (atIndex : graph[op.index]? = some node) (inputs : ∀ tensor ∈ op.inputs, tensor ∈ node.regularFanins)
    (outputs : ∀ tensor ∈ op.outputs, tensor.node = op.index) : (Context.addOp selection node op).Sound graph := by
  unfold Context.addOp
  split
  · refine ⟨?_, sound.rewritten⟩
    intro other mem
    rcases List.mem_append.1 mem with earlier | last
    · exact sound.given other earlier
    · rw [List.mem_singleton.1 last]
      exact ⟨node, atIndex, inputs, outputs⟩
  · exact sound

theorem mem_ports {count : Nat} {tensor : TensorRef} (mem : tensor ∈ (List.range count).map (⟨index, ·⟩)) :
    tensor.node = index := by
  obtain ⟨port, _, same⟩ := List.mem_map.1 mem
  rw [← same]

theorem Selection.Sound.selectNode (sound : selection.Sound ctx.graph)
    (ran : ctx.selectNode selection index = .ok selection') : selection'.Sound ctx.graph := by
  unfold Context.selectNode at ran
  obtain ⟨node, isNode, ran⟩ := bind_ok.1 ran
  rw [Context.node_eq_ok] at isNode
  split at ran
  · cases ran
    exact sound
  split at ran
  · cases ran
    exact sound
  split at ran
  · cases ran
    exact sound
  obtain ⟨inputIndices, _, ran⟩ := bind_ok.1 ran
  obtain ⟨inputs, isInputs, ran⟩ := bind_ok.1 ran
  obtain ⟨outputIndices, _, ran⟩ := bind_ok.1 ran
  cases ran
  apply Selection.Sound.addOp _ isNode
  · intro tensor mem
    obtain ⟨place, _, found⟩ := mem_source_of_mapM isInputs mem
    exact Context.fanin_eq_ok found
  · intro tensor mem
    exact mem_ports mem
  · refine ⟨sound.given, ?_⟩
    intro other mem
    rcases List.mem_append.1 mem with earlier | last
    · exact sound.rewritten other earlier
    · rw [List.mem_singleton.1 last]
      exact read_lt isNode

theorem Selection.Sound.selectWildcard (sound : selection.Sound ctx.graph)
    (ran : ctx.selectWildcard selection index = .ok selection') : selection'.Sound ctx.graph := by
  unfold Context.selectWildcard at ran
  obtain ⟨node, isNode, ran⟩ := bind_ok.1 ran
  rw [Context.node_eq_ok] at isNode
  split at ran
  · cases ran
    exact sound
  split at ran
  · cases ran
    exact sound
  cases ran
  exact sound.addOp isNode (fun tensor mem => mem) fun tensor mem => mem_ports mem

theorem Context.select_sound (ran : ctx.select = .ok selection) : selection.Sound ctx.graph := by
  obtain ⟨selected, first, second⟩ := bind_ok.1 ran
  have start : Selection.Sound ctx.graph {} := ⟨by simp, by simp⟩
  have afterFirst := foldlM_invariant (fun _ selection => selection.Sound ctx.graph) start
    (fun _ _ _ _ _ _ sound stepped => sound.selectNode stepped) first
  exact foldlM_invariant (fun _ selection => selection.Sound ctx.graph) afterFirst
    (fun _ _ _ _ _ _ sound stepped => sound.selectWildcard stepped) second

end Sound

/-- An op that oneDNN was given produces a logical tensor that another one consumes. -/
def Selection.Feeds (selection : Selection) (a b : Nat) : Prop :=
  ∃ producer ∈ selection.given, ∃ consumer ∈ selection.given, producer.index = a ∧ consumer.index = b ∧
    ∃ tensor ∈ producer.outputs, tensor ∈ consumer.inputs

/-- No path between two of the ops leaves them. -/
def Convex (feeds : Nat → Nat → Prop) (ops : List Nat) : Prop :=
  ∀ u ∈ ops, ∀ w ∈ ops, ∀ v, Relation.TransGen feeds u v → Relation.TransGen feeds v w → v ∈ ops

end Itex.OneDnnGraph
