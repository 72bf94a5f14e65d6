import Itex.GraphUtils.Apply
import Itex.GraphUtils.Invariant
import Itex.Lib.PostOrder

/-!
Contract: `SortTopologically` of `utils::MutableGraphView`
(`itex/core/graph/utils/graph_view.cc`), and `PermuteNodesInPlace`
(`itex/core/graph/utils/utils.cc`).

Owns: the guard, the traversal, and the permutation of node views and nodes.

Nothing of the view is written before the last error is returned. A `while` loop has a
number of turns; running out of them is a crash.
-/

namespace Itex.GraphUtils

open Itex.Graph (Failure require NodeDef)
open Itex.Lib

structure TopologicalDependency where
  /-- Whether `graph_view_` is the view that is sorted. -/
  ofThisView : Bool
  from_ : Int
  to_ : Int

def isNextIteration (node : NodeDef) : Bool :=
  node.op == "NextIteration" || node.op == "RefNextIteration"

def isMerge (node : NodeDef) : Bool :=
  node.op == "Merge" || node.op == "RefMerge" || node.op == "_XlaMerge"

def kMutableGraphViewSortTopologicallyError : String :=
  "MutableGraphView::SortTopologically error: "

def sortError (message : String) : Failure :=
  .status .invalidArgument (kMutableGraphViewSortTopologicallyError ++ message)

/-- An entry of `recursion_stack`; the flag is that of `EXIT`. The head is the top. -/
abbrev RecursionStack := List (Nat × Bool)

structure Traversal where
  order : List Nat
  traversalState : List PostOrder.Mark
  /-- `curr_pos + 1`, which counts down to zero. -/
  currPos : Nat
  edgesInCycle : List (Nat × Nat) := []

def extraDependenciesByParent (extraDependencies : List (Nat × Nat)) (parent : Nat) : List Nat :=
  (extraDependencies.filter fun dependency => dependency.1 = parent).map Prod.snd

/-- The nodes that `process_fanouts` pushes, in its order. -/
def MutableNodeView.fanoutIndices (node : MutableNodeView) (extraFanouts : List Nat) : List Nat :=
  node.regularFanoutsByPort.flatten.map Fanout.nodeIndex ++
    node.controlledFanouts.map Fanout.nodeIndex ++ extraFanouts

namespace MutableGraphView

/-- An extra dependency, as indices. -/
def checkDependency (numNodes : Nat) (dependency : TopologicalDependency) : Except Failure (Nat × Nat) := do
  require (dependency.ofThisView = true ∧ dependency.from_ ≠ dependency.to_ ∧
      0 ≤ dependency.from_ ∧ dependency.from_ < numNodes ∧
      0 ≤ dependency.to_ ∧ dependency.to_ < numNodes)
    (sortError "invalid extra dependencies.")
  return (dependency.from_.toNat, dependency.to_.toNat)

/-! ## The traversal -/

def pushOntoStack (view : MutableGraphView) (currIndex : Nat) (state : RecursionStack × Traversal)
    (fanoutIndex : Nat) : Except Failure (RecursionStack × Traversal) := do
  let current ← fetch view.graph currIndex
  let fanout ← fetch view.graph fanoutIndex
  -- `NextIteration -> Merge` closes a loop of the control flow.
  if isNextIteration current.nodeDef && isMerge fanout.nodeDef then return state
  else do
    let mark ← fetch state.2.traversalState fanoutIndex
    match mark with
    | .processing =>
      return (state.1, { state.2 with
        edgesInCycle := state.2.edgesInCycle ++ [(currIndex, fanoutIndex)] })
    | .pending => return ((fanoutIndex, false) :: state.1, state.2)
    | .processed => return state

def processFanouts (view : MutableGraphView) (extraDependencies : List (Nat × Nat))
    (currIndex : Nat) (state : RecursionStack × Traversal) :
    Except Failure (RecursionStack × Traversal) := do
  let node ← fetch view.nodes currIndex
  (node.fanoutIndices (extraDependenciesByParent extraDependencies currIndex)).foldlM
    (view.pushOntoStack currIndex) state

/-- The loop of `reversed_postorder_dfs`. -/
def dfsLoop (view : MutableGraphView) (extraDependencies : List (Nat × Nat)) :
    Nat → RecursionStack → Traversal → Except Failure Traversal
  | _, [], traversal => .ok traversal
  | 0, _ :: _, _ => .error (.crash "out of turns")
  | turns + 1, (currIndex, leaving) :: stack, traversal => do
    let mark ← fetch traversal.traversalState currIndex
    if mark = .processed then dfsLoop view extraDependencies turns stack traversal
    else if leaving then
      dfsLoop view extraDependencies turns stack { traversal with
        order := traversal.order.set currIndex (traversal.currPos - 1)
        traversalState := traversal.traversalState.set currIndex .processed
        currPos := traversal.currPos - 1 }
    else do
      let (stack, traversal) ← view.processFanouts extraDependencies currIndex
        ((currIndex, true) :: stack, { traversal with
          traversalState := traversal.traversalState.set currIndex .processing })
      dfsLoop view extraDependencies turns stack traversal

/-- Turns for the loop: a node is entered once and pushes its fanouts then. -/
def turns (view : MutableGraphView) (extraDependencies : List (Nat × Nat)) : Nat :=
  1 + (view.nodes.map fun node => 1 + (node.fanoutIndices
    (extraDependenciesByParent extraDependencies node.nodeIndex)).length).sum

def reversedPostorderDfs (view : MutableGraphView) (extraDependencies : List (Nat × Nat))
    (traversal : Traversal) (rootIndex : Nat) : Except Failure Traversal := do
  let mark ← fetch traversal.traversalState rootIndex
  if mark = .pending then
    view.dfsLoop extraDependencies (view.turns extraDependencies) [(rootIndex, false)] traversal
  else return traversal

def edgesText (view : MutableGraphView) (edges : List (Nat × Nat)) : String :=
  "\x7b" ++ ", ".intercalate (edges.map fun edge =>
    "'" ++ view.nameAt edge.1 ++ "' -> '" ++ view.nameAt edge.2 ++ "'") ++ "\x7d"

/-- The nodes without fanins, from the last one. -/
def sources (view : MutableGraphView) : List Nat :=
  (view.nodes.reverse.filter fun node =>
    node.regularFanins.length + node.controllingFanins.length = 0).map MutableNodeView.nodeIndex

/-- `order`: the new index of each node. -/
def topologicalOrder (view : MutableGraphView) (ignoreCycles : Bool)
    (dependencies : List TopologicalDependency) : Except Failure (List Nat) := do
  let numNodes := view.nodes.length
  let extraDependencies ← dependencies.mapM (checkDependency numNodes)
  let traversal ← view.sources.foldlM (view.reversedPostorderDfs extraDependencies)
    { order := List.replicate numNodes 0
      traversalState := List.replicate numNodes .pending
      currPos := numNodes }
  require (ignoreCycles = true ∨ traversal.edgesInCycle = [])
    (sortError ("detected edge(s) creating cycle(s) " ++ view.edgesText traversal.edgesInCycle ++ "."))
  if traversal.currPos = 0 then return traversal.order
  else do
    require (ignoreCycles = true) (sortError "was not able to sort all nodes topologically.")
    let all ← (view.nodes.map MutableNodeView.nodeIndex).foldlM
      (view.reversedPostorderDfs extraDependencies) traversal
    return all.order

/-! ## The permutation -/

def placeNode (view : MutableGraphView) (order : List Nat) (permuted : List MutableNodeView)
    (index : Nat) : Except Failure (List MutableNodeView) := do
  let node ← fetch view.nodes index
  let target ← fetch order index
  let _ ← fetch permuted target
  return permuted.set target node

def fixUpIndices (order : List Nat) (node : MutableNodeView) : Except Failure MutableNodeView := do
  let nodeIndex ← fetch order node.nodeIndex
  let regularFanins ← node.regularFanins.mapM fun fanin => do
    return { fanin with nodeIndex := ← fetch order fanin.nodeIndex }
  let controllingFanins ← node.controllingFanins.mapM fun fanin => do
    return { fanin with nodeIndex := ← fetch order fanin.nodeIndex }
  let regularFanoutsByPort ← node.regularFanoutsByPort.mapM fun fanouts =>
    fanouts.mapM fun fanout => do
      return { fanout with nodeIndex := ← fetch order fanout.nodeIndex }
  let controlledFanouts ← node.controlledFanouts.mapM fun fanout => do
    return { fanout with nodeIndex := ← fetch order fanout.nodeIndex }
  return { node with
    nodeIndex := nodeIndex
    regularFanins := regularFanins
    controllingFanins := controllingFanins
    regularFanoutsByPort := regularFanoutsByPort
    controlledFanouts := controlledFanouts }

def fixUpName (view : MutableGraphView) (order : List Nat) (byName : AList fun _ : String => Nat)
    (prevNodeIndex : Nat) : Except Failure (AList fun _ : String => Nat) := do
  let target ← fetch order prevNodeIndex
  if prevNodeIndex = target then return byName
  else do
    let stored ← fetch view.graph prevNodeIndex
    require (stored.nodeDef.name ∈ byName) (.crash "missing node name")
    return byName.insert stored.nodeDef.name target

end MutableGraphView

/-- The inner loop of `PermuteNodesInPlace`: position `n` gets its element. -/
def permuteCycle {α : Type} (n : Nat) : Nat → List α × List Nat → Except Failure (List α × List Nat)
  | 0, _ => .error (.crash "out of turns")
  | turns + 1, (elements, permutation) => do
    let r ← fetch permutation n
    if n = r then return (elements, permutation)
    else do
      let elements ← swapElements elements n r
      let permutation ← swapElements permutation n r
      permuteCycle n turns (elements, permutation)

def permuteNodesInPlace {α : Type} (elements : List α) (permutation : List Nat) : Except Failure (List α) := do
  require (elements.length = permutation.length) (.crash "ITEX_CHECK_EQ failed")
  let (elements, _) ← (List.range (permutation.length - 1)).foldlM
    (fun state n => permuteCycle n (permutation.length + 1) state) (elements, permutation)
  return elements

def invertPermutation (permutation : List Nat) : Except Failure (List Nat) :=
  (List.range permutation.length).foldlM (fun inverse n => do
    let r ← fetch permutation n
    require (r < inverse.length) (.crash "write outside inv_perm")
    return inverse.set r n) (List.replicate permutation.length 0)

/-- `PermuteNodesInPlace`, with the permutation it leaves. -/
def permuteInPlace {α : Type} (invert : Bool) (elements : List α) (permutation : List Nat) :
    Except Failure (List α × List Nat) := do
  require (elements.length = permutation.length) (.crash "ITEX_CHECK_EQ failed")
  let permutation ← if invert then invertPermutation permutation else .ok permutation
  (List.range (permutation.length - 1)).foldlM
    (fun state n => permuteCycle n (permutation.length + 1) state) (elements, permutation)

namespace MutableGraphView

/-- The end of `SortTopologically`. -/
def permuteNodes (view : MutableGraphView) (order : List Nat) : Except Failure MutableGraphView := do
  -- Every element of `permuted_nodes` is written before it is read.
  let permuted ← (List.range view.nodes.length).foldlM (view.placeNode order)
    (List.replicate view.nodes.length { nodeIndex := 0 })
  let nodes ← permuted.mapM (fixUpIndices order)
  let nodeIndexByName ← (permuted.map MutableNodeView.nodeIndex).foldlM (view.fixUpName order)
    view.nodeIndexByName
  let graph ← permuteNodesInPlace view.graph order
  return { view with
    graph := graph
    nodes := nodes
    nodeIndexByName := nodeIndexByName }

end MutableGraphView

namespace Session

/-- `SortTopologically`, with the view it leaves. -/
def sortTopologically (session : Session) (ignoreCycles : Bool)
    (dependencies : List TopologicalDependency) : Except Failure Unit × Session :=
  -- `removed_nodes_` is not looked at.
  if session.mutation.updatedNodes ≠ [] ∨ session.mutation.newNodes ≠ [] then
    (.error (sortError "active mutation exists."), session)
  else
    match session.view.topologicalOrder ignoreCycles dependencies with
    | .error failure => (.error failure, session)
    | .ok order =>
      match session.view.permuteNodes order with
      | .error failure => (.error failure, session)
      | .ok view => (.ok (), { session with view := view })

end Session

end Itex.GraphUtils
