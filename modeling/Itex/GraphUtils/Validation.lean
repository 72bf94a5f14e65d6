import Itex.GraphUtils.Mutation

/-!
Contract: the validation of a mutation of `utils::MutableGraphView`
(`itex/core/graph/utils/graph_view.cc`, `graph_view_internal.h`).

Owns: `ValidateInternal` and what it calls.

The order in which a hash set or map is read is a parameter.
`CheckKernelRegisteredForNodes` accepts every node: its check is commented out in the
source.
-/

namespace Itex.GraphUtils

open Itex.Graph (Failure require)

structure HashOrder where
  strings : List String → List String
  indices : List Nat → List Nat
  strings_perm : ∀ elements, (strings elements).Perm elements
  indices_perm : ∀ elements, (indices elements).Perm elements

/-! ## Validation -/

/-- `ResizeByTrimmingEndForValue`. -/
def trimEnd {α : Type} [DecidableEq α] (vector : List α) (value : α) : List α :=
  vector.rdropWhile fun element => element = value

namespace NodeViewDiff

def trim (diff : NodeViewDiff) : NodeViewDiff :=
  { diff with
    regularInputsToRemove := trimEnd diff.regularInputsToRemove false
    regularInputsToAdd := trimEnd diff.regularInputsToAdd none }

/-- `IsEmpty`, of changes that were trimmed. -/
def isEmpty (diff : NodeViewDiff) : Bool :=
  diff.name.isNone && diff.op.isNone && diff.device.isNone && diff.regularInputsToAdd.isEmpty &&
    diff.regularInputsToUpdate.isEmpty && diff.regularInputsToRemove.isEmpty &&
    diff.controllingInputsToAdd.isEmpty && diff.controllingInputsToRemove.isEmpty &&
    diff.attrsToAdd.keys.isEmpty && diff.attrsToRemove.isEmpty

end NodeViewDiff

/-- Names that a mutation touches: present after it, or missing with the node that had it. -/
abbrev NodeNames := AList fun _ : String => Option Nat

/-- `RenamedOrOverwrittenNode`. -/
structure RenamedNode where
  updateIndex : Nat
  overwrittenIndex : Option Nat

def kMutableGraphViewApplyError : String := "Mutation::Apply error: "

def applyError (message : String) : Failure :=
  .status .invalidArgument (kMutableGraphViewApplyError ++ message)

def nameConflict (name : String) : Failure :=
  applyError ("multiple nodes with the name: '" ++ name ++ "' exists in Mutation.")

/-- `emplace`, which keeps an entry that is there. -/
def NodeNames.emplace (names : NodeNames) (name : String) (index : Nat) : NodeNames :=
  if name ∈ names then names else names.insert name (some index)

/-- Marks a name as present; a name that is already present is a conflict. -/
def NodeNames.markPresent (names : NodeNames) (name : String) : Except Failure NodeNames :=
  match names.lookup name with
  | some none => .error (nameConflict name)
  | some (some _) | none => .ok (names.insert name none)

/-- The result of `GetNodeNamesAndPartitionUpdatedNodes`. -/
structure Partition where
  nodeNames : NodeNames
  renamedNodes : List RenamedNode := []
  inplaceNodes : List Nat := []
  emptyDiffNodeIndices : List Nat := []

namespace MutableGraphView

def nameOf (view : MutableGraphView) (index : Nat) : Except Failure String := do
  let stored ← fetch view.graph index
  return stored.nodeDef.name

end MutableGraphView

namespace Session

variable (session : Session)

def emplaceRenamed (names : NodeNames) (diff : NodeViewDiff) : Except Failure NodeNames :=
  match diff.name with
  | none => .ok names
  | some _ => do
    let name ← session.view.nameOf diff.nodeIndex
    return names.emplace name diff.nodeIndex

def emplaceRemoved (names : NodeNames) (index : Nat) : Except Failure NodeNames := do
  let name ← session.view.nameOf index
  return names.emplace name index

def partitionUpdated (partition : Partition) (entry : NodeViewDiff × Nat) : Except Failure Partition := do
  let (diff, updateIndex) := entry
  if diff.isEmpty then
    return { partition with
      emptyDiffNodeIndices := partition.emptyDiffNodeIndices ++ [diff.nodeIndex] }
  else
    match diff.name with
    | some name => do
      let nodeNames ← partition.nodeNames.markPresent name
      return { partition with
        nodeNames := nodeNames
        renamedNodes := partition.renamedNodes ++ [⟨updateIndex, session.view.nodeIndexByName.lookup name⟩] }
    | none => do
      let name ← session.view.nameOf diff.nodeIndex
      let nodeNames ← partition.nodeNames.markPresent name
      return { partition with
        nodeNames := nodeNames
        inplaceNodes := partition.inplaceNodes ++ [updateIndex] }

def getNodeNamesAndPartitionUpdatedNodes (order : HashOrder) : Except Failure Partition := do
  let renamed ← session.mutation.updatedNodes.foldlM session.emplaceRenamed ∅
  let removed ← (order.indices session.mutation.removedNodes).foldlM session.emplaceRemoved renamed
  let partition ← session.mutation.updatedNodes.zipIdx.foldlM session.partitionUpdated
    { nodeNames := removed }
  let nodeNames ← session.mutation.newNodes.foldlM
    (fun names new => names.markPresent new.node.name) partition.nodeNames
  return { partition with nodeNames := nodeNames }

def badFanout (fanoutName name : String) : Failure :=
  applyError ("fanout '" ++ fanoutName ++ "' exist for missing node '" ++ name ++ "'.")

/-- A fanout of a node that goes missing is removed or overwritten, or its fanin, for
which `changed` is the test, is. -/
def checkFanout (overwritten : List Nat) (name : String) (fanout : Fanout)
    (changed : MutableNodeView → NodeViewDiff → Bool) : Except Failure Unit := do
  let fanoutView ← fetch session.view.nodes fanout.nodeIndex
  let fanoutName ← session.view.nameOf fanoutView.nodeIndex
  match fanoutView.updateIndex with
  | none =>
    require (fanoutView.nodeIndex ∈ session.mutation.removedNodes ∨
      fanoutView.nodeIndex ∈ overwritten) (badFanout fanoutName name)
  | some updateIndex => do
    let diff ← fetch session.mutation.updatedNodes updateIndex
    require (changed fanoutView diff = true) (badFanout fanoutName name)

def regularFaninChanged (fanout : Fanout) (fanoutView : MutableNodeView) (diff : NodeViewDiff) : Bool :=
  decide (fanoutView.regularFanins.length ≤ fanout.faninIndex + diff.numRegularInputsToRemove) ||
    diff.regularInputsToUpdate.any fun entry => entry.1 == fanout.faninIndex

def controllingFaninChanged (fanout : Fanout) (_ : MutableNodeView) (diff : NodeViewDiff) : Bool :=
  decide (fanout.faninIndex ∈ diff.controllingInputsToRemove)

/-- One name in `RemovedOrMissingNodeFanoutsWellFormed`. -/
def checkMissing (nodeNames : NodeNames) (overwritten : List Nat) (name : String) : Except Failure Unit :=
  match nodeNames.lookup name with
  | some (some index) => do
    let node ← fetch session.view.nodes index
    node.regularFanoutsByPort.forM fun fanouts => fanouts.forM fun fanout =>
      session.checkFanout overwritten name fanout (regularFaninChanged fanout)
    node.controlledFanouts.forM fun fanout =>
      session.checkFanout overwritten name fanout (controllingFaninChanged fanout)
  | some none | none => .ok ()

def removedOrMissingNodeFanoutsWellFormed (order : HashOrder) (partition : Partition) : Except Failure Unit :=
  (order.strings partition.nodeNames.keys).forM
    (session.checkMissing partition.nodeNames
      (partition.renamedNodes.filterMap RenamedNode.overwrittenIndex))

def checkNodeNameExists (nodeNames : NodeNames) (name : String) : Bool :=
  match nodeNames.lookup name with
  | some state => state.isNone
  | none => decide (name ∈ session.view.nodeIndexByName)

def invalidNodeName (nodeNames : NodeNames) (nodeName faninName : String) : Bool :=
  faninName == nodeName || !session.checkNodeNameExists nodeNames faninName

/-- `IsWellFormed`, of trimmed changes. -/
def isWellFormed (nodeNames : NodeNames) (diff : NodeViewDiff) : Except Failure Bool := do
  if diff.regularInputsToAdd.length ≠ diff.numRegularInputsToAdd then return false
  else if 0 < diff.numRegularInputsToAdd ∧ diff.regularInputsToRemove ≠ [] then return false
  else if diff.regularInputsToRemove.length ≠ diff.numRegularInputsToRemove then return false
  else
    let node ← fetch session.view.nodes diff.nodeIndex
    let oldName ← session.view.nameOf diff.nodeIndex
    let nodeName := diff.name.getD oldName
    let invalid := session.invalidNodeName nodeNames nodeName
    let fanins :=
      if diff.name.isSome then
        -- All fanins are checked; those that stay only for self loops.
        ((List.range (node.regularFanins.length - diff.numRegularInputsToRemove)).all fun k =>
          match diff.regularInputsToUpdate.lookup k with
          | some fanin => !invalid fanin.node
          | none => (session.view.faninIdAt node k).all fun fanin => fanin.node ≠ nodeName) &&
        ((List.range node.controllingFanins.length).all fun k =>
          decide (k ∈ diff.controllingInputsToRemove) ||
            (((node.controllingFanins[k]?).bind fun fanin =>
              session.view.graph[fanin.nodeIndex]?).all fun stored => stored.nodeDef.name ≠ nodeName))
      else diff.regularInputsToUpdate.all fun entry => !invalid entry.2.node
    return fanins &&
      diff.regularInputsToAdd.all (fun fanin => fanin.all fun fanin => !invalid fanin.node) &&
      diff.controllingInputsToAdd.all fun name => !invalid name

def isWellFormedNew (nodeNames : NodeNames) (new : NewNode) : Bool :=
  let invalid := session.invalidNodeName nodeNames new.node.name
  let fanins := trimEnd new.regularFanins none
  fanins.length == new.numRegularFanins &&
    fanins.all (fun fanin => fanin.all fun fanin => !invalid fanin.node) &&
    new.controllingFanins.all fun name => !invalid name

def checkNodeNamesAndFanins (order : HashOrder) (partition : Partition) : Except Failure Unit := do
  session.removedOrMissingNodeFanoutsWellFormed order partition
  partition.inplaceNodes.forM fun updateIndex => do
    let diff ← fetch session.mutation.updatedNodes updateIndex
    let name ← session.view.nameOf diff.nodeIndex
    let wf ← session.isWellFormed partition.nodeNames diff
    require (wf = true)
      (applyError ("inplace updated node '" ++ name ++ "' is ill-formed."))
  partition.renamedNodes.forM fun renamed => do
    let diff ← fetch session.mutation.updatedNodes renamed.updateIndex
    let name ← session.view.nameOf diff.nodeIndex
    let wf ← session.isWellFormed partition.nodeNames diff
    require (wf = true)
      (applyError ("renamed updated node '" ++ diff.name.getD "" ++ "' ('" ++ name ++ "') is ill-formed."))
  session.mutation.newNodes.forM fun new =>
    require (session.isWellFormedNew partition.nodeNames new = true)
      (applyError ("new node '" ++ new.node.name ++ "' is ill-formed."))

/-- The changes, trimmed: what `IsEmpty` and `IsWellFormed` leave in the mutation. -/
def trimmed : Session :=
  { session with
    mutation := { session.mutation with
      updatedNodes := session.mutation.updatedNodes.map NodeViewDiff.trim
      newNodes := session.mutation.newNodes.map fun new =>
        { new with regularFanins := trimEnd new.regularFanins none } } }

/-- `ValidateInternal`, of trimmed changes. -/
def validateInternal (order : HashOrder) : Except Failure Partition := do
  let partition ← session.getNodeNamesAndPartitionUpdatedNodes order
  session.checkNodeNamesAndFanins order partition
  return partition

end Session

end Itex.GraphUtils
