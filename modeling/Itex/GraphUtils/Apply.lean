import Itex.GraphUtils.Validation

/-!
Contract: applying a valid mutation to `utils::MutableGraphView`
(`itex/core/graph/utils/graph_view.cc`).

Owns: each step of `ApplyMutationInternal`, and `Mutation::Apply`.

A vector that was moved from is empty. An index out of range, a null pointer and a
missing key are crashes.
-/

namespace Itex.GraphUtils

open Itex.Graph (Failure require AttrMap)

structure NodeViewFanouts where
  regularFanoutsByPort : List (List Fanout)
  numRegularFanouts : Int
  controlledFanouts : List Fanout

abbrev RenamedFanouts := AList fun _ : String => NodeViewFanouts

def swapElements {α : Type} (elements : List α) (i j : Nat) : Except Failure (List α) := do
  let first ← fetch elements i
  let second ← fetch elements j
  return (elements.set i second).set j first

/-- Swaps an element with the last one and drops it: `std::swap` with `back()`, then
`pop_back`. -/
def swapPop {α : Type} (elements : List α) (index : Nat) : List α :=
  match elements.getLast? with
  | none => []
  | some last => (elements.set index last).dropLast

namespace MutableGraphView

/-- The fanouts of a node, moved out of it. -/
def takeFanouts (view : MutableGraphView) (index : Nat) : Except Failure (NodeViewFanouts × MutableGraphView) := do
  let node ← fetch view.nodes index
  return (⟨node.regularFanoutsByPort, node.numRegularFanouts, node.controlledFanouts⟩,
    view.modifyNode index fun node =>
      { node with regularFanoutsByPort := [], controlledFanouts := [] })

/-- A regular fanout is now one of node `index`. -/
def redirectRegularFanout (index : Nat) (view : MutableGraphView) (fanout : Fanout) :
    Except Failure MutableGraphView := do
  let consumer ← fetch view.nodes fanout.nodeIndex
  let fanin ← fetch consumer.regularFanins fanout.faninIndex
  let oldDef ← fetch view.graph fanin.nodeIndex
  let newDef ← fetch view.graph index
  return view.modifyNode fanout.nodeIndex fun consumer =>
    { consumer with
      regularFanins := consumer.regularFanins.set fanout.faninIndex { fanin with nodeIndex := index }
      faninsCount := incrementFaninCount
        (decrementFaninCount consumer.faninsCount ⟨oldDef.address, .port fanin.index⟩)
        ⟨newDef.address, .port fanin.index⟩ }

/-- Controlled fanout number `position` is now one of node `index`. -/
def redirectControlledFanout (index : Nat) (view : MutableGraphView) (entry : Fanout × Nat) :
    Except Failure MutableGraphView := do
  let (fanout, position) := entry
  let consumer ← fetch view.nodes fanout.nodeIndex
  let fanin ← fetch consumer.controllingFanins fanout.faninIndex
  let oldDef ← fetch view.graph fanin.nodeIndex
  let newDef ← fetch view.graph index
  return view.modifyNode fanout.nodeIndex fun consumer =>
    { consumer with
      controllingFanins := consumer.controllingFanins.set fanout.faninIndex ⟨index, some position⟩
      faninsCount := incrementFaninCount
        (decrementFaninCount consumer.faninsCount ⟨oldDef.address, .controlSlot⟩)
        ⟨newDef.address, .controlSlot⟩ }

def replaceNodeFanouts (view : MutableGraphView) (index : Nat) (fanouts : NodeViewFanouts) :
    Except Failure MutableGraphView := do
  let taken := view.modifyNode index fun node =>
    { node with
      numRegularFanouts := fanouts.numRegularFanouts
      regularFanoutsByPort := fanouts.regularFanoutsByPort }
  let redirected ← fanouts.regularFanoutsByPort.flatten.foldlM (redirectRegularFanout index) taken
  let controlled := redirected.modifyNode index fun node =>
    { node with controlledFanouts := fanouts.controlledFanouts }
  fanouts.controlledFanouts.zipIdx.foldlM (redirectControlledFanout index) controlled

/-! ## Removing and adding fanins -/

def removeRegularFaninFanoutInternal (view : MutableGraphView) (index k : Nat) : Except Failure MutableGraphView := do
  let node ← fetch view.nodes index
  let fanin ← fetch node.regularFanins k
  match fanin.fanoutIndex with
  | none => return view
  | some fanoutIndex => do
    let stored ← fetch view.graph fanin.nodeIndex
    let counted := view.modifyNode index fun node =>
      { node with
        faninsCount := decrementFaninCount node.faninsCount ⟨stored.address, .port fanin.index⟩ }
    let faninNode ← fetch counted.nodes fanin.nodeIndex
    let fanouts ← fetch faninNode.regularFanoutsByPort fanin.index
    let last ← fetch fanouts (fanouts.length - 1)
    let moved ←
      if fanoutIndex + 1 < fanouts.length then do
        let lastNode ← fetch counted.nodes last.nodeIndex
        let _ ← fetch lastNode.regularFanins last.faninIndex
        pure (counted.modifyNode last.nodeIndex fun lastNode =>
          { lastNode with
            regularFanins := lastNode.regularFanins.modify last.faninIndex fun fanin =>
              { fanin with fanoutIndex := some fanoutIndex } })
      else pure counted
    let fanouts :=
      if fanoutIndex + 1 < fanouts.length then swapPop fanouts fanoutIndex else fanouts.dropLast
    return moved.modifyNode fanin.nodeIndex fun faninNode =>
      { faninNode with
        regularFanoutsByPort := trimEnd (faninNode.regularFanoutsByPort.set fanin.index fanouts) []
        numRegularFanouts := faninNode.numRegularFanouts - 1 }

def addRegularFaninInternal (view : MutableGraphView) (index : Nat) (fanin : FaninId) :
    Except Failure MutableGraphView := do
  let faninIndex ← view.indexOfName fanin.node
  view.linkRegularFanin index faninIndex fanin.index

def updateRegularFaninInternal (view : MutableGraphView) (index k : Nat) (fanin : FaninId) :
    Except Failure MutableGraphView := do
  let removed ← view.removeRegularFaninFanoutInternal index k
  let faninIndex ← removed.indexOfName fanin.node
  let faninNode ← fetch removed.nodes faninIndex
  let stored ← fetch removed.graph faninIndex
  let fanoutsByPort := resizePorts faninNode.regularFanoutsByPort fanin.index
  let fanoutIndex := (fanoutsByPort.getD fanin.index []).length
  let linked := removed.modifyNode faninIndex fun faninNode =>
    { faninNode with
      regularFanoutsByPort := fanoutsByPort.modify fanin.index (· ++ [⟨index, k⟩])
      numRegularFanouts := faninNode.numRegularFanouts + 1 }
  return linked.modifyNode index fun node =>
    { node with
      regularFanins := node.regularFanins.set k ⟨faninIndex, fanin.index, some fanoutIndex⟩
      faninsCount := incrementFaninCount node.faninsCount ⟨stored.address, .port fanin.index⟩ }

def removeControllingFaninFanoutInternal (view : MutableGraphView) (index k : Nat) :
    Except Failure MutableGraphView := do
  let node ← fetch view.nodes index
  let fanin ← fetch node.controllingFanins k
  match fanin.fanoutIndex with
  | none => return view
  | some fanoutIndex => do
    let stored ← fetch view.graph fanin.nodeIndex
    let counted := view.modifyNode index fun node =>
      { node with
        faninsCount := node.faninsCount.erase ⟨stored.address, .controlSlot⟩
        controllingFaninsIndex := node.controllingFaninsIndex.erase stored.nodeDef.name }
    let faninNode ← fetch counted.nodes fanin.nodeIndex
    let last ← fetch faninNode.controlledFanouts (faninNode.controlledFanouts.length - 1)
    let moved ←
      if fanoutIndex + 1 < faninNode.controlledFanouts.length then do
        let lastNode ← fetch counted.nodes last.nodeIndex
        let _ ← fetch lastNode.controllingFanins last.faninIndex
        pure (counted.modifyNode last.nodeIndex fun lastNode =>
          { lastNode with
            controllingFanins := lastNode.controllingFanins.modify last.faninIndex fun fanin =>
              { fanin with fanoutIndex := some fanoutIndex } })
      else pure counted
    return moved.modifyNode fanin.nodeIndex fun faninNode =>
      { faninNode with
        controlledFanouts :=
          if fanoutIndex + 1 < faninNode.controlledFanouts.length then
            swapPop faninNode.controlledFanouts fanoutIndex
          else faninNode.controlledFanouts.dropLast }

def removeControllingFanin (index numRegularFanins : Nat) (view : MutableGraphView)
    (controlIndex : Nat) : Except Failure MutableGraphView := do
  let removed ← view.removeControllingFaninFanoutInternal index controlIndex
  let node ← fetch removed.nodes index
  let stored ← fetch removed.graph index
  let lastIndex := node.controllingFanins.length - 1
  let moved ←
    if controlIndex + 1 < node.controllingFanins.length then do
      let last ← fetch node.controllingFanins lastIndex
      let lastDef ← fetch removed.graph last.nodeIndex
      let lastView ← fetch removed.nodes last.nodeIndex
      match last.fanoutIndex, node.controllingFaninsIndex.lookup lastDef.nodeDef.name with
      | some fanoutIndex, some _ => do
        let _ ← fetch lastView.controlledFanouts fanoutIndex
        let input ← swapElements stored.nodeDef.input (numRegularFanins + controlIndex)
          (numRegularFanins + lastIndex)
        let pointed := removed.modifyNode last.nodeIndex fun lastView =>
          { lastView with
            controlledFanouts := lastView.controlledFanouts.modify fanoutIndex fun fanout =>
              { fanout with faninIndex := controlIndex } }
        let indexed := pointed.modifyNode index fun node =>
          { node with
            controllingFaninsIndex :=
              node.controllingFaninsIndex.insert lastDef.nodeDef.name controlIndex
            controllingFanins := node.controllingFanins.set controlIndex last }
        pure (indexed.modifyNodeDef index fun node => { node with input := input })
      | _, _ => .error (.crash "missing controlling fanin")
    else pure removed
  return (moved.modifyNode index fun node =>
    { node with controllingFanins := node.controllingFanins.dropLast }).modifyNodeDef index
      fun node => { node with input := node.input.dropLast }

def removeControllingFaninInternal (view : MutableGraphView) (index : Nat)
    (indicesToRemove : List Nat) : Except Failure MutableGraphView := do
  let node ← fetch view.nodes index
  indicesToRemove.reverse.foldlM (removeControllingFanin index node.regularFanins.length) view

def addControllingFaninInternal (index : Nat) (view : MutableGraphView) (faninName : String) :
    Except Failure MutableGraphView := do
  let added := view.modifyNodeDef index fun node =>
    { node with input := node.input ++ [⟨faninName, .controlSlot⟩] }
  let faninIndex ← added.indexOfName faninName
  added.linkControllingFanin index faninIndex faninName

def removeAllFaninFanoutInternal (view : MutableGraphView) (index : Nat) : Except Failure MutableGraphView := do
  let node ← fetch view.nodes index
  let unread ← (List.range node.regularFanins.length).foldlM
    (fun view k => view.removeRegularFaninFanoutInternal index k) view
  let cleared := unread.modifyNode index fun node => { node with regularFanins := [] }
  let uncontrolled ← (List.range node.controllingFanins.length).foldlM
    (fun view k => view.removeControllingFaninFanoutInternal index k) cleared
  return uncontrolled.modifyNode index fun node => { node with controllingFanins := [] }

def emplaceName (view : MutableGraphView) (name : String) (index : Nat) : MutableGraphView :=
  if name ∈ view.nodeIndexByName then view
  else { view with nodeIndexByName := view.nodeIndexByName.insert name index }

def eraseName (view : MutableGraphView) (name : String) : MutableGraphView :=
  { view with nodeIndexByName := view.nodeIndexByName.erase name }

/-- A regular fanout whose producer's name is gone. -/
def abandonRegularFanout (view : MutableGraphView) (fanout : Fanout) : Except Failure MutableGraphView := do
  let consumer ← fetch view.nodes fanout.nodeIndex
  let fanin ← fetch consumer.regularFanins fanout.faninIndex
  let stored ← fetch view.graph fanin.nodeIndex
  return view.modifyNode fanout.nodeIndex fun consumer =>
    { consumer with
      faninsCount := consumer.faninsCount.erase ⟨stored.address, .port fanin.index⟩
      regularFanins := consumer.regularFanins.set fanout.faninIndex
        { fanin with fanoutIndex := none } }

/-- A controlled fanout whose producer's name is gone. -/
def abandonControlledFanout (name : String) (view : MutableGraphView) (fanout : Fanout) :
    Except Failure MutableGraphView := do
  let consumer ← fetch view.nodes fanout.nodeIndex
  let fanin ← fetch consumer.controllingFanins fanout.faninIndex
  let stored ← fetch view.graph fanin.nodeIndex
  return view.modifyNode fanout.nodeIndex fun consumer =>
    { consumer with
      faninsCount := consumer.faninsCount.erase ⟨stored.address, .controlSlot⟩
      controllingFaninsIndex := consumer.controllingFaninsIndex.erase name
      controllingFanins := consumer.controllingFanins.set fanout.faninIndex
        { fanin with fanoutIndex := none } }

def abandonFanouts (renamedFanouts : RenamedFanouts) (view : MutableGraphView) (name : String) :
    Except Failure MutableGraphView :=
  match renamedFanouts.lookup name with
  | none => .ok view
  | some fanouts => do
    let abandoned ← fanouts.regularFanoutsByPort.flatten.foldlM abandonRegularFanout view
    fanouts.controlledFanouts.foldlM (abandonControlledFanout name) abandoned

def fixRenamedFanouts (order : HashOrder) (view : MutableGraphView)
    (renamedFanouts : RenamedFanouts) : Except Failure MutableGraphView :=
  (order.strings renamedFanouts.keys).foldlM (abandonFanouts renamedFanouts) view

/-- The edges of the last node, with `target` as its new index. -/
def relinkLast (view : MutableGraphView) (last : MutableNodeView) (target : Nat) :
    Except Failure MutableGraphView := do
  let fanins ← last.regularFanins.foldlM (fun view fanin =>
    match fanin.fanoutIndex with
    | none => .error (.crash "vector index out of range")
    | some fanoutIndex => do
      let producer ← fetch view.nodes fanin.nodeIndex
      let fanouts ← fetch producer.regularFanoutsByPort fanin.index
      let _ ← fetch fanouts fanoutIndex
      pure (view.modifyNode fanin.nodeIndex fun producer =>
        { producer with
          regularFanoutsByPort := producer.regularFanoutsByPort.modify fanin.index fun fanouts =>
            fanouts.modify fanoutIndex fun fanout => { fanout with nodeIndex := target } })) view
  let controls ← last.controllingFanins.foldlM (fun view fanin =>
    match fanin.fanoutIndex with
    | none => .error (.crash "vector index out of range")
    | some fanoutIndex => do
      let producer ← fetch view.nodes fanin.nodeIndex
      let _ ← fetch producer.controlledFanouts fanoutIndex
      pure (view.modifyNode fanin.nodeIndex fun producer =>
        { producer with
          controlledFanouts := producer.controlledFanouts.modify fanoutIndex fun fanout =>
            { fanout with nodeIndex := target } })) fanins
  let fanouts ← last.regularFanoutsByPort.flatten.foldlM (fun view fanout => do
    let consumer ← fetch view.nodes fanout.nodeIndex
    let _ ← fetch consumer.regularFanins fanout.faninIndex
    pure (view.modifyNode fanout.nodeIndex fun consumer =>
      { consumer with
        regularFanins := consumer.regularFanins.modify fanout.faninIndex fun fanin =>
          { fanin with nodeIndex := target } })) controls
  last.controlledFanouts.foldlM (fun view fanout => do
    let consumer ← fetch view.nodes fanout.nodeIndex
    let _ ← fetch consumer.controllingFanins fanout.faninIndex
    pure (view.modifyNode fanout.nodeIndex fun consumer =>
      { consumer with
        controllingFanins := consumer.controllingFanins.modify fanout.faninIndex fun fanin =>
          { fanin with nodeIndex := target } })) fanouts

/-- One index in the last loop of `RemoveNodesInternal`: the last node takes its place. -/
def removeNodeAt (view : MutableGraphView) (target : Nat) : Except Failure MutableGraphView := do
  let lastIndex := view.nodes.length - 1
  let last ← fetch view.nodes lastIndex
  if target < last.nodeIndex then do
    let indexed := view.modifyNode lastIndex fun last => { last with nodeIndex := target }
    let relinked ← indexed.relinkLast last target
    let nodes ← swapElements relinked.nodes lastIndex target
    let graph ← swapElements relinked.graph lastIndex target
    let stored ← fetch graph target
    require (stored.nodeDef.name ∈ relinked.nodeIndexByName) (.crash "missing node name")
    return { relinked with
      nodes := nodes.dropLast
      graph := graph
      nodeIndexByName := relinked.nodeIndexByName.insert stored.nodeDef.name target }
  else return { view with nodes := view.nodes.dropLast }

end MutableGraphView

/-! ## The steps of a mutation -/

namespace Session

/-- What the steps of `ApplyMutationInternal` work on. -/
structure Progress where
  view : MutableGraphView
  mutation : Mutation
  renamedNodes : List RenamedNode
  renamedFanouts : RenamedFanouts := ∅
  overwrittenNameRemovedNodes : List Nat := []
  newNodeIndices : List Nat := []

/-- The first loop of `FixRenamedNodes`. -/
def extractFanouts (progress : Progress) (renamed : RenamedNode) : Except Failure Progress := do
  let diff ← fetch progress.mutation.updatedNodes renamed.updateIndex
  let name ← progress.view.nameOf diff.nodeIndex
  let (fanouts, view) ← (progress.view.eraseName name).takeFanouts diff.nodeIndex
  return { progress with
    view := view
    renamedFanouts :=
      if name ∈ progress.renamedFanouts then progress.renamedFanouts
      else progress.renamedFanouts.insert name fanouts }

/-- The second loop of `FixRenamedNodes`. The nodes overwritten are collected anew. -/
def renameNode (progress : Progress) (renamed : RenamedNode) : Except Failure Progress := do
  let diff ← fetch progress.mutation.updatedNodes renamed.updateIndex
  let name := diff.name.getD ""
  let replaced ←
    match progress.renamedFanouts.lookup name, renamed.overwrittenIndex with
    | some fanouts, _ => do
      let view ← progress.view.replaceNodeFanouts diff.nodeIndex fanouts
      pure { progress with
        view := view
        renamedFanouts := progress.renamedFanouts.erase name
        renamedNodes := progress.renamedNodes ++ [{ renamed with overwrittenIndex := none }] }
    | none, some overwritten => do
      let overwrittenName ← progress.view.nameOf overwritten
      let (fanouts, taken) ← progress.view.takeFanouts overwritten
      let view ← taken.replaceNodeFanouts diff.nodeIndex fanouts
      pure { progress with
        view := view.eraseName overwrittenName
        overwrittenNameRemovedNodes :=
          if overwritten ∈ progress.mutation.removedNodes then
            progress.overwrittenNameRemovedNodes ++ [overwritten]
          else progress.overwrittenNameRemovedNodes
        renamedNodes := progress.renamedNodes ++ [renamed] }
    | none, none =>
      pure { progress with
        view := progress.view.modifyNode diff.nodeIndex fun node => { node with numRegularFanouts := 0 }
        renamedNodes := progress.renamedNodes ++ [renamed] }
  let named := replaced.view.modifyNodeDef diff.nodeIndex fun node => { node with name := name }
  return { replaced with
    view := named.emplaceName name diff.nodeIndex
    mutation := { replaced.mutation with
      updatedNodes := replaced.mutation.updatedNodes.set renamed.updateIndex
        { diff with name := none } } }

def fixRenamedNodes (progress : Progress) : Except Failure Progress := do
  let extracted ← progress.renamedNodes.foldlM extractFanouts progress
  progress.renamedNodes.foldlM renameNode { extracted with renamedNodes := [] }

def addNewNode (progress : Progress) (new : NewNode) : Except Failure Progress := do
  match progress.view.nodeIndexByName.lookup new.node.name with
  | some index => do
    let cleared ← progress.view.removeAllFaninFanoutInternal index
    return { progress with
      view := cleared.modifyNodeDef index fun node =>
        { node with
          op := new.node.op
          device := new.node.device
          input := []
          attr := new.node.attr }
      mutation := { progress.mutation with
        removedNodes := progress.mutation.removedNodes.erase index }
      newNodeIndices := progress.newNodeIndices ++ [index] }
  | none => do
    let index := progress.view.nodes.length
    let added : MutableGraphView :=
      { progress.view with
        graph := progress.view.graph ++ [⟨progress.view.nextAddress, new.node⟩]
        nextAddress := progress.view.nextAddress + 1
        nodes := progress.view.nodes ++ [{ nodeIndex := index }] }
    let (view, renamedFanouts) ←
      match progress.renamedFanouts.lookup new.node.name with
      | none => pure (added, progress.renamedFanouts)
      | some fanouts => do
        let view ← added.replaceNodeFanouts index fanouts
        pure (view, progress.renamedFanouts.erase new.node.name)
    return { progress with
      view := view.emplaceName new.node.name index
      renamedFanouts := renamedFanouts
      newNodeIndices := progress.newNodeIndices ++ [index] }

def processedAttrs (diff : NodeViewDiff) (attr : AttrMap) : AttrMap :=
  diff.attrsToAdd.foldl (fun attrs name value => attrs.insert name value)
    (diff.attrsToRemove.foldl (fun attrs name => attrs.erase name) attr)

/-- The loop of `ApplyNodeUpdates` that appends regular fanins: the view, the next
position, and where the controlling inputs start. -/
def appendRegularFanin (index : Nat) (state : MutableGraphView × Nat × Nat)
    (fanin : Option FaninId) : Except Failure (MutableGraphView × Nat × Nat) := do
  let (view, currIndex, currControlStart) := state
  match fanin with
  | none => .error (.crash "empty tensor id")
  | some fanin => do
    let linked ← view.addRegularFaninInternal index fanin
    let stored ← fetch linked.graph index
    let added := stored.nodeDef.input ++ [fanin.tensorId]
    let input ← swapElements added currIndex (added.length - 1)
    return (linked.modifyNodeDef index fun node => { node with input := input }, currIndex + 1,
      if currControlStart = currIndex then added.length - 1 else currControlStart)

/-- `std::rotate` of the part of a list from `first`, so that it starts at `middle`. -/
def rotateFrom {α : Type} (elements : List α) (first middle : Nat) : List α :=
  elements.take first ++ elements.drop middle ++ (elements.take middle).drop first

/-- The regular fanins that `ApplyNodeUpdates` removes or appends. -/
def resizeRegularFanins (view : MutableGraphView) (diff : NodeViewDiff) : Except Failure MutableGraphView := do
  let index := diff.nodeIndex
  let node ← fetch view.nodes index
  let count := node.regularFanins.length
  if 0 < diff.numRegularInputsToRemove then
    let firstIndex := count - diff.numRegularInputsToRemove
    let unread ← ((List.range count).drop firstIndex).foldlM
      (fun view k => view.removeRegularFaninFanoutInternal index k) view
    return (unread.modifyNode index fun node =>
      { node with regularFanins := node.regularFanins.take firstIndex }).modifyNodeDef index
        fun node => { node with
          input := node.input.take firstIndex ++ node.input.drop (firstIndex + diff.numRegularInputsToRemove) }
  else if 0 < diff.numRegularInputsToAdd then do
    let (appended, currIndex, currControlStart) ←
      diff.regularInputsToAdd.foldlM (appendRegularFanin index) (view, count, count)
    if 1 < node.controllingFanins.length ∧ currControlStart ≠ currIndex then
      return appended.modifyNodeDef index fun node =>
        { node with input := rotateFrom node.input currIndex currControlStart }
    else return appended
  else return view

def applyNodeUpdate (order : HashOrder) (view : MutableGraphView) (diff : NodeViewDiff) :
    Except Failure MutableGraphView := do
  if diff.isEmpty then return view
  else
    let index := diff.nodeIndex
    let cleaned := view.modifyNode index fun node => { node with updateIndex := none }
    let written := cleaned.modifyNodeDef index fun node =>
      { node with
        op := diff.op.getD node.op
        device := diff.device.getD node.device
        attr := processedAttrs diff node.attr }
    let resized ← resizeRegularFanins written diff
    let updated ← diff.regularInputsToUpdate.foldlM (fun view entry => do
      let view ← view.updateRegularFaninInternal index entry.1 entry.2
      return view.modifyNodeDef index fun node =>
        { node with input := node.input.set entry.1 entry.2.tensorId }) resized
    let uncontrolled ← updated.removeControllingFaninInternal index diff.controllingInputsToRemove
    (order.strings diff.controllingInputsToAdd).foldlM
      (MutableGraphView.addControllingFaninInternal index) uncontrolled

def setNewNodeFanins (order : HashOrder) (view : MutableGraphView) (entry : Nat × NewNode) :
    Except Failure MutableGraphView := do
  let (index, new) := entry
  let linked ← new.regularFanins.foldlM (fun view fanin =>
    match fanin with
    | none => .error (.crash "empty tensor id")
    | some fanin => do
      let view ← view.addRegularFaninInternal index fanin
      pure (view.modifyNodeDef index fun node =>
        { node with input := node.input ++ [fanin.tensorId] })) view
  (order.strings new.controllingFanins).foldlM
    (MutableGraphView.addControllingFaninInternal index) linked

def removeNodesInternal (order : HashOrder) (progress : Progress) : Except Failure MutableGraphView := do
  let overwritten := progress.renamedNodes.filterMap RenamedNode.overwrittenIndex
  let cleared ← overwritten.foldlM MutableGraphView.removeAllFaninFanoutInternal progress.view
  let removed := order.indices progress.mutation.removedNodes
  let unlisted ← removed.foldlM (fun view index => do
    let name ← view.nameOf index
    let view ← view.removeAllFaninFanoutInternal index
    if index ∈ progress.overwrittenNameRemovedNodes then pure view else pure (view.eraseName name))
    cleared
  -- A `std::set`, read from its end.
  let sorted := (removed ++ overwritten).foldl (fun sorted index => emplaceSorted index sorted) []
  let compacted ← sorted.reverse.foldlM MutableGraphView.removeNodeAt unlisted
  return { compacted with graph := compacted.graph.take (compacted.graph.length - sorted.length) }

/-- `ApplyMutationInternal`. -/
def apply (order : HashOrder) (session : Session) : Except Failure Session := do
  let trimmed := session.trimmed
  let partition ← trimmed.validateInternal order
  let cleaned := partition.emptyDiffNodeIndices.foldl
    (fun view index => view.modifyNode index fun node => { node with updateIndex := none })
    trimmed.view
  let renamed ← fixRenamedNodes
    { view := cleaned, mutation := trimmed.mutation, renamedNodes := partition.renamedNodes }
  let added ← trimmed.mutation.newNodes.foldlM addNewNode renamed
  let abandoned ← added.view.fixRenamedFanouts order added.renamedFanouts
  let updated ← added.mutation.updatedNodes.foldlM (applyNodeUpdate order) abandoned
  let linked ← (added.newNodeIndices.zip added.mutation.newNodes).foldlM (setNewNodeFanins order)
    updated
  let view ← removeNodesInternal order { added with view := linked }
  return { view := view }

end Session

end Itex.GraphUtils
