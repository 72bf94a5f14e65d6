import Itex.GraphUtils.View

/-!
Contract: the mutation builder of `utils::MutableGraphView`
(`itex/core/graph/utils/graph_view.cc`, `graph_view_internal.h`).

Owns: the pending changes of a mutation and the calls that record them.

A regular `SafeTensorId` has a port number; `EmptyTensorId` is `none`. A field that
comes with an `update_` flag is an option. The handle of a new node is its position.
-/

namespace Itex.GraphUtils

open Itex.Graph (Failure require AttrValue TensorId AttrMap NodeDef)

/-- A regular `SafeTensorId`. -/
structure FaninId where
  node : String
  index : Nat
deriving DecidableEq, Repr

def FaninId.tensorId (fanin : FaninId) : TensorId := ⟨fanin.node, .port fanin.index⟩

structure NodeViewDiff where
  nodeIndex : Nat
  name : Option String := none
  op : Option String := none
  device : Option String := none
  regularInputsToAdd : List (Option FaninId) := []
  numRegularInputsToAdd : Nat := 0
  /-- A `std::map`: its keys ascend. -/
  regularInputsToUpdate : List (Nat × FaninId) := []
  regularInputsToRemove : List Bool := []
  numRegularInputsToRemove : Nat := 0
  controllingInputsToAdd : List String := []
  /-- A `std::set`: its elements ascend. -/
  controllingInputsToRemove : List Nat := []
  attrsToAdd : AttrMap := ∅
  attrsToRemove : List String := []

structure NewNode where
  node : NodeDef
  regularFanins : List (Option FaninId) := []
  numRegularFanins : Nat := 0
  controllingFanins : List String := []

structure Mutation where
  updatedNodes : List NodeViewDiff := []
  removedNodes : List Nat := []
  newNodes : List NewNode := []

/-- A view together with its `mutation_`. -/
structure Session where
  view : MutableGraphView
  mutation : Mutation := {}

/-! ## Changes of a node -/

def addOrUpdateAtIndex {α : Type} [DecidableEq α] (vector : List α) (index : Nat)
    (value defaultValue : α) : List α × Bool :=
  match vector[index]? with
  | none => (vector ++ List.replicate (index - vector.length) defaultValue ++ [value], true)
  | some old => (vector.set index value, decide (old = defaultValue))

/-- `InsertOrUpdate` on a `std::map`. -/
def insertSorted {β : Type} (key : Nat) (value : β) : List (Nat × β) → List (Nat × β)
  | [] => [(key, value)]
  | entry :: rest =>
    if key < entry.1 then (key, value) :: entry :: rest
    else if key = entry.1 then (key, value) :: rest
    else entry :: insertSorted key value rest

/-- `emplace` on a `std::set`. -/
def emplaceSorted (element : Nat) : List Nat → List Nat
  | [] => [element]
  | head :: rest =>
    if element < head then element :: head :: rest
    else if element = head then head :: rest
    else head :: emplaceSorted element rest

/-- The calls on an existing node. -/
inductive NodeEdit where
  | updateName (name : String)
  | updateOp (op : String)
  | updateDevice (device : String)
  | addOrUpdateRegularFanin (index : Int) (fanin : FaninId)
  | removeRegularFanin (index : Int)
  | addControllingFanin (faninNodeName : String)
  | removeControllingFanin (faninNodeName : String)
  | addOrUpdateNodeAttr (attrName : String) (attrValue : AttrValue)
  | removeNodeAttr (attrName : String)

namespace NodeViewDiff

/-- `UpdateName`, `UpdateOp` and `UpdateDevice` of one text. -/
def updateText (old new : String) : Option String := if old = new then none else some new

def addOrUpdateRegularFanin (diff : NodeViewDiff) (numRegularFanins : Nat)
    (existing : Option FaninId) (index : Int) (fanin : FaninId) : NodeViewDiff × Bool :=
  match index with
  | .negSucc _ => (diff, false)
  | .ofNat index =>
    if index < numRegularFanins then
      let relativeRemovalIndex := numRegularFanins - index - 1
      let unmarked :=
        if diff.regularInputsToRemove[relativeRemovalIndex]? = some true then
          { diff with
            regularInputsToRemove := diff.regularInputsToRemove.set relativeRemovalIndex false
            numRegularInputsToRemove := diff.numRegularInputsToRemove - 1 }
        else diff
      if existing = some fanin then (unmarked, true)
      else
        ({ unmarked with
            regularInputsToUpdate := insertSorted index fanin unmarked.regularInputsToUpdate }, true)
    else
      let added := addOrUpdateAtIndex diff.regularInputsToAdd (index - numRegularFanins)
        (some fanin) none
      ({ diff with
          regularInputsToAdd := added.1
          numRegularInputsToAdd :=
            if added.2 then diff.numRegularInputsToAdd + 1 else diff.numRegularInputsToAdd }, true)

def removeRegularFanin (diff : NodeViewDiff) (numRegularFanins : Nat) (index : Int) : NodeViewDiff × Bool :=
  match index with
  | .negSucc _ => (diff, false)
  | .ofNat index =>
    if index < numRegularFanins then
      let removed := addOrUpdateAtIndex diff.regularInputsToRemove (numRegularFanins - index - 1)
        true false
      ({ diff with
          regularInputsToUpdate := diff.regularInputsToUpdate.filter fun entry => entry.1 ≠ index
          regularInputsToRemove := removed.1
          numRegularInputsToRemove :=
            if removed.2 then diff.numRegularInputsToRemove + 1
            else diff.numRegularInputsToRemove }, true)
    else
      match diff.regularInputsToAdd[index - numRegularFanins]? with
      | some (some _) =>
        ({ diff with
            regularInputsToAdd := diff.regularInputsToAdd.set (index - numRegularFanins) none
            numRegularInputsToAdd := diff.numRegularInputsToAdd - 1 }, true)
      | _ => (diff, false)

end NodeViewDiff

namespace MutableGraphView

/-- The fanin at a position, by name. -/
def faninIdAt (view : MutableGraphView) (node : MutableNodeView) (index : Nat) : Option FaninId := do
  let fanin ← node.regularFanins[index]?
  let stored ← view.graph[fanin.nodeIndex]?
  return ⟨stored.nodeDef.name, fanin.index⟩

end MutableGraphView

/-- What a call does to the changes of a node, and whether it does anything. -/
def NodeEdit.mutate (edit : NodeEdit) (view : MutableGraphView) (node : MutableNodeView)
    (nodeDef : NodeDef) (diff : NodeViewDiff) : NodeViewDiff × Bool :=
  match edit with
  | .updateName name => ({ diff with name := NodeViewDiff.updateText nodeDef.name name }, true)
  | .updateOp op => ({ diff with op := NodeViewDiff.updateText nodeDef.op op }, true)
  | .updateDevice device =>
    ({ diff with device := NodeViewDiff.updateText nodeDef.device device }, true)
  | .addOrUpdateRegularFanin index fanin =>
    diff.addOrUpdateRegularFanin node.regularFanins.length (view.faninIdAt node index.toNat) index
      fanin
  | .removeRegularFanin index => diff.removeRegularFanin node.regularFanins.length index
  | .addControllingFanin name =>
    match node.controllingFaninsIndex.lookup name with
    | none =>
      ({ diff with controllingInputsToAdd := diff.controllingInputsToAdd.insert name }, true)
    | some controlIndex =>
      ({ diff with
          controllingInputsToRemove := diff.controllingInputsToRemove.erase controlIndex }, true)
  | .removeControllingFanin name =>
    match node.controllingFaninsIndex.lookup name with
    | none =>
      ({ diff with controllingInputsToAdd := diff.controllingInputsToAdd.erase name }, true)
    | some controlIndex =>
      ({ diff with
          controllingInputsToRemove :=
            emplaceSorted controlIndex diff.controllingInputsToRemove }, true)
  | .addOrUpdateNodeAttr name value =>
    ({ diff with
        -- The test is on `attrs_to_add`, as in the source.
        attrsToRemove :=
          if diff.attrsToAdd.keys.isEmpty then diff.attrsToRemove else diff.attrsToRemove.erase name
        attrsToAdd := diff.attrsToAdd.insert name value }, true)
  | .removeNodeAttr name =>
    let erased := { diff with attrsToAdd := diff.attrsToAdd.erase name }
    if name ∈ nodeDef.attr then
      ({ erased with attrsToRemove := erased.attrsToRemove.insert name }, true)
    else (erased, decide (name ∈ diff.attrsToAdd))

def NewNode.addOrUpdateRegularFanin (new : NewNode) (index : Int) (fanin : FaninId) : NewNode :=
  match index with
  | .negSucc _ => new
  | .ofNat index =>
    let added := addOrUpdateAtIndex new.regularFanins index (some fanin) none
    { new with
      regularFanins := added.1
      numRegularFanins := if added.2 then new.numRegularFanins + 1 else new.numRegularFanins }

def NewNode.removeRegularFanin (new : NewNode) (index : Int) : NewNode :=
  match index with
  | .negSucc _ => new
  | .ofNat index =>
    match new.regularFanins[index]? with
    | some (some _) =>
      { new with
        regularFanins := new.regularFanins.set index none
        numRegularFanins := new.numRegularFanins - 1 }
    | _ => new

/-- What a call does to a new node. -/
def NodeEdit.mutateNew (edit : NodeEdit) (new : NewNode) : NewNode :=
  match edit with
  | .updateName name => { new with node := { new.node with name := name } }
  | .updateOp op => { new with node := { new.node with op := op } }
  | .updateDevice device => { new with node := { new.node with device := device } }
  | .addOrUpdateRegularFanin index fanin => new.addOrUpdateRegularFanin index fanin
  | .removeRegularFanin index => new.removeRegularFanin index
  | .addControllingFanin name => { new with controllingFanins := new.controllingFanins.insert name }
  | .removeControllingFanin name => { new with controllingFanins := new.controllingFanins.erase name }
  | .addOrUpdateNodeAttr name value =>
    { new with node := { new.node with attr := new.node.attr.insert name value } }
  | .removeNodeAttr name => { new with node := { new.node with attr := new.node.attr.erase name } }

/-! ## Calls -/

/-- `mutation_.updated_nodes_[index]`. -/
def Session.modifyDiff (session : Session) (index : Nat) (change : NodeViewDiff → NodeViewDiff) : Session :=
  { session with
    mutation := { session.mutation with
      updatedNodes := session.mutation.updatedNodes.modify index change } }

def Session.addMutation (session : Session) (index : Nat) (edit : NodeEdit) : Except Failure Session := do
  let node ← fetch session.view.nodes index
  let stored ← fetch session.view.graph node.nodeIndex
  match node.updateIndex with
  | none =>
    let mutated := edit.mutate session.view node stored.nodeDef { nodeIndex := node.nodeIndex }
    if mutated.2 then
      return {
        view := session.view.modifyNode index fun node =>
          { node with updateIndex := some session.mutation.updatedNodes.length }
        mutation := { session.mutation with
          updatedNodes := session.mutation.updatedNodes ++ [mutated.1] } }
    else return session
  | some updateIndex =>
    if node.nodeIndex ∈ session.mutation.removedNodes then return session
    else do
      let diff ← fetch session.mutation.updatedNodes updateIndex
      return session.modifyDiff updateIndex fun _ =>
        (edit.mutate session.view node stored.nodeDef diff).1

def Session.removeNode (session : Session) (index : Nat) : Except Failure Session := do
  let node ← fetch session.view.nodes index
  let removedNodes := session.mutation.removedNodes.insert node.nodeIndex
  match node.updateIndex with
  | none => return { session with mutation := { session.mutation with removedNodes := removedNodes } }
  | some updateIndex =>
    let last ← fetch session.mutation.updatedNodes (session.mutation.updatedNodes.length - 1)
    let moved :=
      if updateIndex + 1 < session.mutation.updatedNodes.length then
        session.view.modifyNode last.nodeIndex fun node => { node with updateIndex := some updateIndex }
      else session.view
    return {
      view := moved.modifyNode index fun node => { node with updateIndex := none }
      mutation := { session.mutation with
        updatedNodes := (session.mutation.updatedNodes.set updateIndex last).dropLast
        removedNodes := removedNodes } }

def kMutationAddNodeError : String := "Mutation::AddNode error: "

/-- One input in `AddNode`: the regular and controlling fanins read so far. -/
def addNodeFanin (nodeName : String) (fanins : List (Option FaninId) × List String)
    (fanin : TensorId) : Except Failure (List (Option FaninId) × List String) := do
  require (fanin.node ≠ nodeName)
    (.status .invalidArgument (kMutationAddNodeError ++ "node '" ++ nodeName ++
      "' has self cycle fanin '" ++ fanin.text ++ "'."))
  match fanin.index with
  | .controlSlot => return (fanins.1, fanins.2.insert fanin.node)
  | .port index => do
    require (fanins.2 = [])
      (.status .invalidArgument (kMutationAddNodeError ++ "node '" ++ nodeName ++
        "' has regular fanin '" ++ fanin.text ++ "' after controlling fanins."))
    return (fanins.1 ++ [some ⟨fanin.node, index⟩], fanins.2)

/-- `AddNode`. With an error status, the mutation stays as it is. -/
def Session.addNode (session : Session) (node : NodeDef) : Except Failure Session := do
  let (regular, controlling) ← node.input.foldlM (addNodeFanin node.name) ([], [])
  return { session with
    mutation := { session.mutation with
      newNodes := session.mutation.newNodes ++ [⟨{ node with input := [] }, regular, regular.length, controlling⟩] } }

/-- The calls of the builder. A node is given by its position. -/
inductive Call where
  | addNode (node : NodeDef)
  | removeNode (index : Nat)
  | edit (index : Nat) (edit : NodeEdit)
  | editNew (index : Nat) (edit : NodeEdit)

/-- One call. A rejected `AddNode` sets a status and changes nothing. -/
def Session.call (session : Session) : Call → Except Failure Session
  | .addNode node =>
    match session.addNode node with
    | .ok added => .ok added
    | .error _ => .ok session
  | .removeNode index => session.removeNode index
  | .edit index edit => session.addMutation index edit
  | .editNew index edit => do
    let new ← fetch session.mutation.newNodes index
    return { session with
      mutation := { session.mutation with
        newNodes := session.mutation.newNodes.set index (edit.mutateNew new) } }

def Session.calls (session : Session) (calls : List Call) : Except Failure Session :=
  calls.foldlM Session.call session

end Itex.GraphUtils
