import Itex.OneDnnGraph.Selection

/-!
Contract: fusing the partitions of oneDNN into single nodes
(`itex/core/graph/onednn_graph/onednn_graph.cc`).

Owns: partitions, `FuseFwPartitionWithLLGA` and `RunRewritePass`.

The partitions are an argument: any list that oneDNN may return. A mutation is what
`Apply` makes of it; the new node comes last. `AddNode` meets no node of the same name.
Attributes of the new node and the constants that the pass rewrites are left out.
-/

namespace Itex.OneDnnGraph

open Itex.Graph
open Itex.Lib

/-- `dnnl::graph::partition`. -/
structure Partition where
  /-- `get_ops`. -/
  ops : List Nat
  /-- `get_input_ports`. -/
  inputs : List TensorRef
  /-- `get_output_ports`. -/
  outputs : List TensorRef
  isSupported : Bool := true
deriving DecidableEq, Repr

/-- The graph while it is rewritten, with the maps of the pass. -/
structure Pass where
  graph : OpGraph
  /-- `edge_manager_tmp`: the outputs of new nodes, by the logical tensors they stand for. -/
  edgeManagerTmp : List (TensorRef × TensorRef) := []
  nodesToDelete : List Nat := []
deriving DecidableEq, Repr

def isQuantizeOrDequantize (node : Node) : Bool := node.op == "QuantizeV2" || node.op == "Dequantize"

def isAnyBinary (node : Node) : Bool :=
  node.op == "Add" || node.op == "AddV2" || node.op == "Mul" || node.op == "Sub"

def nodesOf (graph : OpGraph) (ops : List Nat) : Except Failure (List Node) :=
  ops.mapM fun op =>
    match graph[op]? with
    | some node => .ok node
    | none => abort "no such node"

/-- Whether a partition is rewritten, from its nodes. -/
def worthFusing (allType : Bool) (nodes : List Node) : Bool :=
  (allType || nodes.any isQuantizeOrDequantize) && !nodes.all fun node => isAnyBinary node && node.isOnCpu

namespace Pass

variable (pass : Pass)

/-- The tensor that now stands for a logical one. -/
def findLLGATensorId (tensor : TensorRef) : TensorRef := (pass.edgeManagerTmp.lookup tensor).getD tensor

/-- `LLGA partition input should not be in the partition`. -/
def partitionInput (ops : List Nat) (tensor : TensorRef) : Except Failure TensorRef :=
  let found := pass.findLLGATensorId tensor
  if ops.contains found.node then abort "LLGA partition input should not be in the partition"
  else .ok found

/-- The outputs of a partition with their places; a later one overrides an earlier one. -/
def redirect (outputs : List TensorRef) (fused : Nat) (fanin : TensorRef) : TensorRef :=
  match (outputs.zipIdx.reverse.find? fun entry => entry.1 = fanin) with
  | some (_, place) => ⟨fused, place⟩
  | none => fanin

/-- What the mutation makes of a node outside the partition. -/
def rewire (ops : List Nat) (outputs : List TensorRef) (fused : Nat) (node : Node) : Node :=
  { node with
    regularFanins := node.regularFanins.map (redirect outputs fused)
    controllingFanins :=
      if node.controllingFanins.any ops.contains then
        node.controllingFanins.filter (fun fanin => !ops.contains fanin) ++ [fused]
      else node.controllingFanins }

/-- The graph with the node of a partition, once its nodes and the tensors it reads are
known. -/
def withFused (partition : Partition) (nodes : List Node) (inputs : List TensorRef) : Pass :=
  let fused := pass.graph.length
  let outputs := partition.outputs.map pass.findLLGATensorId
  let controls := (nodes.reverse.flatMap Node.controllingFanins).filter fun fanin =>
    !partition.ops.contains fanin
  let rewired := pass.graph.mapIdx fun index node =>
    if partition.ops.contains index then node else rewire partition.ops outputs fused node
  let last := pass.graph[partition.ops.foldl max 0]?
  let llga : Node :=
    { op := "OneDnnGraph"
      deviceType := last.bind Node.deviceType
      isOnCpu := (last.map Node.isOnCpu).getD false
      regularFanins := inputs
      controllingFanins := controls.eraseDups }
  { graph := rewired ++ [llga]
    edgeManagerTmp := pass.edgeManagerTmp ++ partition.outputs.zipIdx.map fun entry =>
      (entry.1, ⟨fused, entry.2⟩)
    nodesToDelete := pass.nodesToDelete ++ partition.ops }

def fuseFwPartitionWithLLGA (allType : Bool) (partition : Partition) : Except Failure Pass := do
  let nodes ← nodesOf pass.graph partition.ops
  if !worthFusing allType nodes then return pass
  else do
    let inputs ← partition.inputs.mapM (pass.partitionInput partition.ops)
    return pass.withFused partition nodes inputs

end Pass

def fusePartitions (allType : Bool) (graph : OpGraph) (partitions : List Partition) : Except Failure Pass :=
  (partitions.filter Partition.isSupported).foldlM (fun pass => pass.fuseFwPartitionWithLLGA allType)
    { graph := graph }

/-- A node stays that has a deleted one as an input. -/
def Pass.strands (pass : Pass) (index : Nat) : Bool :=
  match pass.graph[index]? with
  | some node => !pass.nodesToDelete.contains index &&
      (node.regularFanins.any (fun fanin => pass.nodesToDelete.contains fanin.node) ||
        node.controllingFanins.any pass.nodesToDelete.contains)
  | none => false

/-- The last `Apply`: it fails where a node that stays has a removed one as an input. The
graph that it leaves has the nodes that are not deleted. -/
def Pass.removeNodes (pass : Pass) : Except Failure Pass :=
  if (List.range pass.graph.length).any pass.strands then abort "fanout of a removed node"
  else .ok pass

def runRewritePass (allType : Bool) (graph : OpGraph) (partitions : List Partition) : Except Failure Pass := do
  let pass ← fusePartitions allType graph partitions
  pass.removeNodes

/-- One node is an input of another one. -/
def FeedsNode (graph : OpGraph) (a b : Nat) : Prop :=
  ∃ node, graph[b]? = some node ∧ (a ∈ node.regularFanins.map TensorRef.node ∨ a ∈ node.controllingFanins)

/-- The edges of the graph that the pass leaves. -/
def Pass.Feeds (pass : Pass) (a b : Nat) : Prop :=
  a ∉ pass.nodesToDelete ∧ b ∉ pass.nodesToDelete ∧ FeedsNode pass.graph a b

end Itex.OneDnnGraph
