import Itex.Remapper.Context

/-!
Contract: the fusion of sequential binary ops (`itex/core/graph/remapper/remapper.cc`).

Owns: `FindFusedBinary`, and the node that `AddFusedBinaryNode` builds.
-/

namespace Itex.Remapper

open Itex.Graph (Failure require TensorId NodeDef)
open Itex.GraphUtils

structure FusedBinary where
  root : Nat
  fusedOps : List Nat := []
  inputOrder : List Nat := []
  num : Nat := 1

def isBinary (node : NodeDef) : Except Failure Bool := do
  let add ← isAdd node
  return add || isMul node || isSub node

def hasFusedBinaryType (node : NodeDef) : Bool :=
  hasDataType node .float || hasDataType node .bfloat16 || hasDataType node .half

namespace RemapperContext

variable (ctx : RemapperContext)

def validShape (node : NodeDef) : Except Failure Bool := do
  let props ← ctx.inputProperties node.name
  match props with
  | first :: second :: _ =>
    let sameInput := shapesSymbolicallyEqual first second
    let hasScalar := rank first == 0 || rank second == 0
    if !(sameInput || hasScalar) then return false
    -- Scalar fusion is off on CPU.
    else return !(hasScalar && ctx.nodeIsOnCpu node)
  | _ => return false

/-- Whether the chain goes on at an input. -/
def extendsChain (fanin : RegularFanin) : Except Failure Bool := do
  let inputView ← fetch ctx.view.nodes fanin.nodeIndex
  let inputDef ← ctx.nodeDef inputView
  let binary ← isBinary inputDef
  if !binary then return false
  else if !hasFusedBinaryType inputDef then return false
  else if hasControlFaninOrFanout inputView || !hasAtMostOneFanoutAtPort0 inputView ||
      ctx.isInPreserveSet inputDef then return false
  else ctx.validShape inputDef

/-- The loop over the inputs of a node: the first at which the chain goes on. -/
def nextInChain : List (RegularFanin × Nat) → Except Failure (Option (RegularFanin × Nat))
  | [] => .ok none
  | entry :: rest => do
    let found ← ctx.extendsChain entry.1
    if found then return some entry else nextInChain rest

def maxDepth : Nat := 3

/-- The `while` loop, for as many more nodes as the chain may have. -/
def extendFusedBinary : Nat → Nat → FusedBinary → Except Failure FusedBinary
  | 0, _, matched => .ok matched
  | remain + 1, nodeIndex, matched => do
    let nodeView ← fetch ctx.view.nodes nodeIndex
    require (nodeView.regularFanins.length = 2) (.crash "Incorrect inputs for BinaryOp.")
    let next ← ctx.nextInChain nodeView.regularFanins.zipIdx
    match next with
    | none => return matched
    | some (fanin, i) =>
      extendFusedBinary remain fanin.nodeIndex
        { matched with
          fusedOps := matched.fusedOps ++ [fanin.nodeIndex]
          inputOrder := matched.inputOrder ++ [i]
          num := matched.num + 1 }

def findFusedBinary (nodeIndex : Nat) : Except Failure (Option FusedBinary) := do
  let nodeView ← fetch ctx.view.nodes nodeIndex
  let node ← ctx.nodeDef nodeView
  if hasControlFanin nodeView then return none
  else
    let binary ← isBinary node
    if !binary then return none
    else if !hasFusedBinaryType node then return none
    else
      let valid ← ctx.validShape node
      if !valid then return none
      else
        let matched ← ctx.extendFusedBinary (maxDepth - 1) nodeIndex { root := nodeIndex }
        return if 1 < matched.num then some matched else none

def kFusedBinary : String := "_ITEXFusedBinary"

/-- The attributes that `_ITEXFusedBinary` declares. -/
def fusedBinaryAttrs : List String := ["T", "fused_ops", "input_order", "num_args"]

/-- What the loop of `AddFusedBinaryNode` works on. -/
structure FusedInputs where
  nodeDef : NodeDef
  input : List TensorId := []
  fusedOps : List String

/-- One level of the chain: the input that is not the chain, and the next node. -/
def addFusedInput (state : FusedInputs) (entry : Nat × Nat) : Except Failure FusedInputs := do
  let input ← fetch state.nodeDef.input (1 - entry.2)
  let nodeView ← fetch ctx.view.nodes entry.1
  let nodeDef ← ctx.nodeDef nodeView
  return {
    nodeDef := nodeDef
    input := state.input ++ [input]
    fusedOps := state.fusedOps ++ [nodeDef.op] }

/-- The node that `AddFusedBinaryNode` adds. -/
def fusedBinaryNode (matched : FusedBinary) : Except Failure NodeDef := do
  let stored ← fetch ctx.view.graph matched.root
  let rootDef := stored.nodeDef
  let rootView ← fetch ctx.view.nodes matched.root
  let nodeDef ← ctx.nodeDef rootView
  require (matched.fusedOps.length = matched.inputOrder.length) (.crash "ITEX_CHECK failed")
  let chain ← (matched.fusedOps.zip matched.inputOrder).foldlM ctx.addFusedInput
    { nodeDef := nodeDef, fusedOps := [rootDef.op] }
  let second ← fetch chain.nodeDef.input 1
  let first ← fetch chain.nodeDef.input 0
  let copied := copyAllAttrs fusedBinaryAttrs rootDef
  let withNum := addNodeAttr copied "num_args" (.i (matched.num + 1))
  let withOps := addNodeAttr withNum "fused_ops" (.strings chain.fusedOps)
  return {
    name := rootDef.name
    op := kFusedBinary
    device := rootDef.device
    input := chain.input ++ [second, first]
    attr := addNodeAttr withOps "input_order" (.ints (matched.inputOrder.map Int.ofNat)) }

end RemapperContext

end Itex.Remapper
