import Itex.GraphUtils.View

/-!
Contract: matching a pattern against a graph (`itex/core/graph/utils/pattern_utils.h`,
`pattern_utils.cc`).

Owns: patterns, the matcher that follows inputs, and its check of the nodes to remove.

The tree of matched nodes that is kept for debugging is left out: nothing reads it.
-/

namespace Itex.GraphUtils

open Itex.Graph (Failure require)

/-! ## Patterns -/

inductive NodeStatus where
  | kRemain
  | kRemove
  | kReplace
deriving DecidableEq, Repr

structure OpTypePattern where
  op : String
  label : String
  nodeStatus : NodeStatus
  children : List OpTypePattern

def endsWithStar (text : String) : Bool := text.toList.getLast? == some '*'

def popBack (text : String) : String := String.ofList text.toList.dropLast

/-- `absl::StartsWith`. -/
def startsWith (text start : String) : Bool := start.toList.isPrefixOf text.toList

def isCommutativeOp (op : String) : Bool := op ∈ ["Add", "AddV2", "Mul"]

def needSwap (input0 expected0 input1 expected1 : String) : Bool :=
  if input0 = expected0 ∧ input1 = expected1 then false
  else if input0 = expected1 ∧ input1 = expected0 then true
  else if expected0 = "*" ∧ input0 = expected1 then true
  else decide (expected1 = "*" ∧ input1 = expected0)

/-- One of the alternatives of a pattern's operator, or any for a lone star. -/
def opMatches (pattern op : String) : Bool :=
  pattern == "*" ||
    (pattern.toList.splitOn '|').any fun alternative =>
      let text := String.ofList alternative
      op == if endsWithStar text then popBack text else text

def hasUndeterminedSameTypeInputs (childOps : List String) : Except Failure Bool := do
  let count := childOps.countP fun op => op ≠ "*" ∧ endsWithStar op = true
  require (count ≤ 1) (.crash "Check failed: n_input_num <= 1")
  return count == 1

/-- The child pattern for each of `size` inputs, where one child may stand for several. -/
def getChildrenIndices (childOps : List String) (size : Nat) : Except Failure (List Nat) := do
  let hasInputs ← hasUndeterminedSameTypeInputs childOps
  if hasInputs then
    let first := childOps.findIdx endsWithStar
    -- With fewer inputs than other children, the range to fill would end before it begins.
    require (childOps.length ≤ size + 1) (.crash "fill of an invalid range")
    let repeated := size - (childOps.length - 1)
    return List.range first ++ List.replicate repeated first ++
      (List.range (size - (first + repeated))).map (first + 1 + ·)
  else return List.range size

namespace MutableGraphView

def opOf (view : MutableGraphView) (nodeIndex : Nat) : Except Failure String := do
  let stored ← fetch view.graph nodeIndex
  return stored.nodeDef.op

/-- Pairs the inputs of a node with children of a pattern, given by their positions; no
pairs where their numbers differ. -/
def alignChildren (view : MutableGraphView) (op : String) (childOps : List String)
    (fanins : List Nat) : Except Failure (Option (List (Nat × Nat))) := do
  let hasInputs ← hasUndeterminedSameTypeInputs childOps
  if hasInputs = false ∧ fanins.length ≠ childOps.length then return none
  else
    let indices ← getChildrenIndices childOps fanins.length
    match fanins with
    | [fanin0, fanin1] =>
      if isCommutativeOp op then
        let op0 ← view.opOf fanin0
        let op1 ← view.opOf fanin1
        let expected0 ← fetch childOps 0
        let expected1 ← fetch childOps 1
        if needSwap op0 expected0 op1 expected1 then
          return some (indices.reverse.zip fanins)
        else return some (indices.zip fanins)
      else return some (indices.zip fanins)
    | _ => return some (indices.zip fanins)

end MutableGraphView

/-! ## `SubGraphMatcher` -/

structure Bookkeeping where
  nodeLabelToIndex : AList (fun _ : String => Nat) := ∅
  matchedNodeIndices : List Nat := []
  removeNodeIndices : List Nat := []

/-- The label of a pattern node; a trailing star is replaced by a number. -/
def resolveLabel (labels : List String) (label : String) : String :=
  if endsWithStar label then
    popBack label ++ toString (labels.countP fun item => startsWith item (popBack label))
  else label

/-- A pattern node meets a node of the graph: its label is new, or stands for that node. -/
def Bookkeeping.record (books : Bookkeeping) (pattern : OpTypePattern) (nodeIndex : Nat) : Option Bookkeeping :=
  let label := resolveLabel books.nodeLabelToIndex.keys pattern.label
  match books.nodeLabelToIndex.lookup label with
  | none =>
    some
      { nodeLabelToIndex := books.nodeLabelToIndex.insert label nodeIndex
        matchedNodeIndices := books.matchedNodeIndices.insert nodeIndex
        removeNodeIndices :=
          if pattern.nodeStatus = .kRemove then books.removeNodeIndices.insert nodeIndex
          else books.removeNodeIndices }
  | some bound => if bound = nodeIndex then some books else none

/-- The tests on a node alone: its control edges and its operator. -/
def acceptsNode (faninChecking : Bool) (pattern : OpTypePattern) (node : MutableNodeView)
    (op : String) : Bool :=
  (node.controllingFanins.isEmpty || (!faninChecking && pattern.nodeStatus == .kRemain)) &&
    node.controlledFanouts.isEmpty && opMatches pattern.op op

abbrev Matcher := Nat → Bookkeeping → Except Failure (Option Bookkeeping)

/-- The loop over the inputs of a node. -/
def matchChildren (matchers : List Matcher) : List (Nat × Nat) → Bookkeeping → Except Failure (Option Bookkeeping)
  | [], books => .ok (some books)
  | (child, fanin) :: rest, books => do
    let matcher ← fetch matchers child
    match ← matcher fanin books with
    | none => return none
    | some books => matchChildren matchers rest books

namespace MutableGraphView

variable (view : MutableGraphView) (faninChecking : Bool)

mutual

def doesOpTypePatternMatch : OpTypePattern → Matcher
  | ⟨op, label, nodeStatus, children⟩ => fun nodeIndex books => do
    let node ← fetch view.nodes nodeIndex
    let nodeOp ← view.opOf nodeIndex
    if acceptsNode faninChecking ⟨op, label, nodeStatus, children⟩ node nodeOp then
      match books.record ⟨op, label, nodeStatus, children⟩ nodeIndex with
      | none => return none
      | some books =>
        if children.isEmpty then return some books
        else
          match ← view.alignChildren op (children.map OpTypePattern.op)
            (node.regularFanins.map RegularFanin.nodeIndex) with
          | none => return none
          | some pairs => matchChildren (childMatchers children) pairs books
    else return none

def childMatchers : List OpTypePattern → List Matcher
  | [] => []
  | child :: children => doesOpTypePatternMatch child :: childMatchers children

end

def isSafeNodesToRemove (nodesToPreserve : List String) (books : Bookkeeping) : List Nat → Except Failure Bool
  | [] => .ok true
  | nodeIndex :: rest => do
    let node ← fetch view.nodes nodeIndex
    let stored ← fetch view.graph nodeIndex
    if stored.nodeDef.name ∈ nodesToPreserve then return false
    else if node.regularFanoutsByPort.all fun fanouts => fanouts.all fun fanout =>
        decide (fanout.nodeIndex ∈ books.matchedNodeIndices) then
      isSafeNodesToRemove nodesToPreserve books rest
    else return false

def getMatchedNodes (pattern : OpTypePattern) (nodesToPreserve : List String) (nodeIndex : Nat) :
    Except Failure (Option (AList (fun _ : String => Nat) × List Nat)) := do
  match ← view.doesOpTypePatternMatch faninChecking pattern nodeIndex {} with
  | none => return none
  | some books =>
    if ← view.isSafeNodesToRemove nodesToPreserve books books.removeNodeIndices then
      return some (books.nodeLabelToIndex, books.removeNodeIndices)
    else return none

end MutableGraphView

end Itex.GraphUtils
