import Itex.GraphUtils.Updates

/-!
Contract: what a session of calls on nodes of the graph does to them.

Owns: that `Apply` gives every node the content its calls recorded, and when that is the content the
calls write one after the other.
-/

namespace Itex.GraphUtils

open Itex.Graph (Failure NodeDef GraphDef)
open Itex.Lib

open MutableGraphView (construct construct_inv Reshaped field_of_getElem? shapeAt_modifyNode_same shapeAt_eq_some)

variable {diff : NodeViewDiff} {nodeDef : NodeDef}

theorem Records.trim {node : MutableNodeView} {edits : List NodeEdit}
    (records : Records node nodeDef edits diff) : Records node nodeDef edits diff.trim where
  nodeIndex := records.nodeIndex
  name := records.name
  sound := records.sound.trim
  content := NodeViewDiff.content_trim.trans records.content

namespace Session

section Recording

variable {view : MutableGraphView} (inv : view.Inv) {calls : List Call} {session : Session}
  (recording : Session.Recording view calls session)
include inv recording

theorem Recording.shapeAt (i : Nat) : session.view.shapeAt i = view.shapeAt i := by
  have sameDef : session.view.nodeDef? i = view.nodeDef? i := by
    unfold MutableGraphView.nodeDef?
    rw [recording.graph]
  cases atNode : view.nodes[i]? with
  | none =>
    have beyond : session.view.nodes[i]? = none := by
      rw [List.getElem?_eq_none_iff, recording.length]
      exact List.getElem?_eq_none_iff.1 atNode
    unfold MutableGraphView.shapeAt
    rw [atNode, beyond]
    rfl
  | some node =>
    obtain ⟨nodeDef, atDef⟩ := inv.indexed.nodeDef? (read_lt atNode)
    obtain ⟨updateIndex, atSession, -⟩ := recording.nodes atNode atDef
    unfold MutableGraphView.shapeAt
    rw [atNode, atSession, sameDef]
    rfl

theorem Recording.records {updateIndex : Nat}
    (atUpdate : session.mutation.updatedNodes[updateIndex]? = some diff) :
    ∃ node nodeDef, view.nodes[diff.nodeIndex]? = some node ∧ view.nodeDef? diff.nodeIndex = some nodeDef ∧
      Records node nodeDef (editsOf diff.nodeIndex calls) diff := by
  have marked := recording.updates atUpdate
  obtain ⟨marks, atMarks, isMarked⟩ := Option.map_eq_some_iff.1 marked
  have bound : diff.nodeIndex < view.nodes.length := recording.length ▸ read_lt atMarks
  have atNode : view.nodes[diff.nodeIndex]? = some view.nodes[diff.nodeIndex] := List.getElem?_eq_getElem bound
  obtain ⟨nodeDef, atDef⟩ := inv.indexed.nodeDef? bound
  obtain ⟨updateIndex', atSession, recorded⟩ := recording.nodes atNode atDef
  cases atMarks.symm.trans atSession
  have isUpdate : updateIndex' = some updateIndex := isMarked
  rw [isUpdate] at recorded
  cases recorded with
  | changed atUpdate' records =>
    cases atUpdate.symm.trans atUpdate'
    exact ⟨_, nodeDef, atNode, atDef, records⟩

omit inv in
theorem Recording.nodup : (session.mutation.updatedNodes.map NodeViewDiff.nodeIndex).Nodup := by
  rw [List.nodup_iff_getElem?_ne_getElem?]
  intro first second less bound same
  rw [List.getElem?_map, List.getElem?_map] at same
  rw [List.length_map] at bound
  have atFirst := List.getElem?_eq_getElem (Nat.lt_trans less bound)
  have atSecond := List.getElem?_eq_getElem bound
  rw [atFirst, atSecond] at same
  have firstMarked := recording.updates atFirst
  have secondMarked := recording.updates atSecond
  rw [Option.some.inj same, secondMarked] at firstMarked
  exact absurd (Option.some.inj (Option.some.inj firstMarked)) (Nat.ne_of_gt less)

end Recording

/-- The nodes of a view of which some, at `done`, have the content that their calls recorded. -/
structure Updated (view : MutableGraphView) (calls : List Call) (done : List Nat) (reached : MutableGraphView) : Prop where
  untouched : ∀ i ∉ done, reached.shapeAt i = view.shapeAt i
  updated : ∀ i ∈ done, ∃ shape nodeDef, reached.shapeAt i = some shape ∧ view.nodeDef? i = some nodeDef ∧
    contentOf shape.nodeDef = Content.recorded (contentOf nodeDef) (editsOf i calls)

section

variable {view : MutableGraphView} (inv : view.Inv) {order : HashOrder} {calls : List Call}

include inv

theorem Updated.applyNodeUpdate {done : List Nat} {before after : MutableGraphView} (updated : Updated view calls done before)
    {node : MutableNodeView} (atNode : view.nodes[diff.nodeIndex]? = some node)
    (atDef : view.nodeDef? diff.nodeIndex = some nodeDef)
    (records : Records node nodeDef (editsOf diff.nodeIndex calls) diff)
    (wf : diff.isEmpty = false → diff.WellFormed) (fresh : diff.nodeIndex ∉ done)
    (ran : applyNodeUpdate order before diff = .ok after) : Updated view calls (done ++ [diff.nodeIndex]) after := by
  obtain ⟨shape, reshaped, content⟩ := inv.applyNodeUpdate_records atNode atDef records wf
    (updated.untouched _ fresh) ran
  constructor
  · intro i notMember
    have notHere : i ≠ diff.nodeIndex := fun isHere => notMember (List.mem_append_right _ (List.mem_singleton.2 isHere))
    rw [reshaped.others i notHere]
    exact updated.untouched i fun earlier => notMember (List.mem_append_left _ earlier)
  · intro i mem
    by_cases isHere : i = diff.nodeIndex
    · rw [isHere]
      exact ⟨shape, nodeDef, reshaped.here, atDef, content⟩
    · rw [reshaped.others i isHere]
      rcases List.mem_append.1 mem with earlier | isLast
      · exact updated.updated i earlier
      · exact absurd (List.mem_singleton.1 isLast) isHere

theorem applyNodeUpdates_updated {diffs : List NodeViewDiff} (nodup : (diffs.map NodeViewDiff.nodeIndex).Nodup)
    (records : ∀ diff ∈ diffs, ∃ node nodeDef, view.nodes[diff.nodeIndex]? = some node ∧
      view.nodeDef? diff.nodeIndex = some nodeDef ∧ Records node nodeDef (editsOf diff.nodeIndex calls) diff)
    (wf : ∀ diff ∈ diffs, diff.isEmpty = false → diff.WellFormed) {start final : MutableGraphView}
    (sameShape : ∀ i, start.shapeAt i = view.shapeAt i)
    (ran : diffs.foldlM (Session.applyNodeUpdate order) start = .ok final) :
    Updated view calls (diffs.map NodeViewDiff.nodeIndex) final := by
  refine foldlM_invariant (fun (seen : List NodeViewDiff) (reached : MutableGraphView) =>
    Updated view calls (seen.map NodeViewDiff.nodeIndex) reached) ⟨fun i _ => sameShape i, nofun⟩ ?_ ran
  intro seen diff rest before after split updated stepped
  have mem : diff ∈ diffs := split ▸ List.mem_append_right _ List.mem_cons_self
  obtain ⟨node, nodeDef, atNode, atDef, isRecorded⟩ := records diff mem
  rw [List.map_append, List.map_singleton]
  refine updated.applyNodeUpdate inv atNode atDef isRecorded (wf diff mem) ?_ stepped
  intro earlier
  rw [split, List.map_append, List.nodup_append] at nodup
  exact nodup.2.2 _ earlier diff.nodeIndex List.mem_cons_self rfl

theorem Recording.apply_content {session applied : Session} (recording : Session.Recording view calls session)
    (ran : session.apply order = .ok applied) {i : Nat} (atDef : view.nodeDef? i = some nodeDef) :
    ∃ nodeDef', applied.view.nodeDef? i = some nodeDef' ∧
      contentOf nodeDef' = Content.recorded (contentOf nodeDef) (editsOf i calls) := by
  unfold apply at ran
  obtain ⟨partition, isPartition, ran⟩ := bind_ok.1 ran
  obtain ⟨renamed, isRenamed, ran⟩ := bind_ok.1 ran
  obtain ⟨added, isAdded, ran⟩ := bind_ok.1 ran
  obtain ⟨abandoned, isAbandoned, ran⟩ := bind_ok.1 ran
  obtain ⟨updated, isUpdated, ran⟩ := bind_ok.1 ran
  obtain ⟨linked, isLinked, ran⟩ := bind_ok.1 ran
  obtain ⟨final, isFinal, ran⟩ := bind_ok.1 ran
  cases ran
  have records : ∀ diff ∈ session.trimmed.mutation.updatedNodes, ∃ node nodeDef,
      view.nodes[diff.nodeIndex]? = some node ∧ view.nodeDef? diff.nodeIndex = some nodeDef ∧
        Records node nodeDef (editsOf diff.nodeIndex calls) diff := by
    intro diff mem
    obtain ⟨untrimmed, listed, isTrim⟩ := List.mem_map.1 mem
    obtain ⟨updateIndex, atUpdate⟩ := List.mem_iff_getElem?.1 listed
    obtain ⟨node, nodeDef, atNode, atDef, isRecorded⟩ := recording.records inv atUpdate
    rw [← isTrim]
    exact ⟨node, nodeDef, atNode, atDef, isRecorded.trim⟩
  have sameNames : ∀ diff ∈ session.trimmed.mutation.updatedNodes, diff.name = none := by
    intro diff mem
    obtain ⟨_, _, _, _, isRecorded⟩ := records diff mem
    exact isRecorded.name
  have validated := validateInternal_checks sameNames isPartition
  have nodup : (session.trimmed.mutation.updatedNodes.map NodeViewDiff.nodeIndex).Nodup := by
    have sameIndices : session.trimmed.mutation.updatedNodes.map NodeViewDiff.nodeIndex =
        session.mutation.updatedNodes.map NodeViewDiff.nodeIndex := by
      unfold trimmed
      dsimp only
      rw [List.map_map]
      rfl
    rw [sameIndices]
    exact recording.nodup
  have noNewNodes : session.trimmed.mutation.newNodes = [] := by
    unfold trimmed
    dsimp only
    rw [recording.newNodes, List.map_nil]
  have sameShape : ∀ (indices : List Nat) (i : Nat),
      (indices.foldl (fun view index => view.modifyNode index fun node => { node with updateIndex := none })
        session.trimmed.view).shapeAt i = view.shapeAt i := by
    intro indices i
    rw [← recording.shapeAt inv i]
    induction indices using List.reverseRecOn with
    | nil => rfl
    | append_singleton indices index ih =>
      rw [List.foldl_append, List.foldl_cons, List.foldl_nil]
      exact (@shapeAt_modifyNode_same _ index (fun node => { node with updateIndex := none }) (fun _ => ⟨rfl, rfl⟩)
        i).trans ih
  rw [validated.1] at isRenamed
  cases isRenamed
  rw [noNewNodes] at isAdded
  cases isAdded
  have abandonedShape : ∀ i, abandoned.shapeAt i = view.shapeAt i := by
    rw [fixRenamedFanouts_nothing isAbandoned]
    exact sameShape _
  have isFinal := removeNodesInternal_nothing (by exact rfl) (by exact recording.removedNodes) isFinal
  dsimp only at isFinal isLinked isUpdated
  rw [noNewNodes, List.zip_nil_right] at isLinked
  cases isLinked
  rw [isFinal]
  have done := applyNodeUpdates_updated inv nodup records validated.2 abandonedShape isUpdated
  obtain ⟨node, atNode⟩ := inv.indexed.node atDef
  have keptDef : ∀ {shape : Shape}, updated.shapeAt i = some shape → updated.nodeDef? i = some shape.nodeDef := by
    intro shape atShape
    obtain ⟨_, _, atDef', _⟩ := shapeAt_eq_some.1 atShape
    exact atDef'
  by_cases listed : i ∈ session.trimmed.mutation.updatedNodes.map NodeViewDiff.nodeIndex
  · obtain ⟨shape, nodeDef', atShape, atDef', content⟩ := done.updated i listed
    cases atDef.symm.trans atDef'
    exact ⟨shape.nodeDef, keptDef atShape, content⟩
  · have unchanged := done.untouched i listed
    rw [inv.shapeAt atNode atDef] at unchanged
    have sameDef : (Shape.of nodeDef (view.faninsOf node) (view.controlsOf node)).nodeDef = nodeDef := by
      unfold Shape.of
      rw [← inv.isInput atNode atDef]
    obtain ⟨updateIndex, -, recorded⟩ := recording.nodes atNode atDef
    refine ⟨nodeDef, sameDef ▸ keptDef unchanged, ?_⟩
    cases recorded with
    | unchanged content => exact content.symm
    | @changed updateIndex diff atUpdate isRecorded =>
      refine absurd ?_ listed
      rw [← inv.indexed.nodeIndex atNode, ← isRecorded.nodeIndex]
      unfold trimmed
      dsimp only
      rw [List.map_map]
      exact List.mem_map_of_mem (List.mem_of_getElem? atUpdate)

end

/-- After `Apply` a node has the content that its calls write, the last one for a position or a name
winning, exactly where no call gives a fanin back that an earlier one updated. -/
theorem apply_last_write_iff_not_restored {view : MutableGraphView} (inv : view.Inv)
    (unmarked : ∀ node ∈ view.nodes, node.updateIndex = none) {calls : List Call}
    (keepsName : ∀ call ∈ calls, call.keepsName = true) {session applied : Session} {order : HashOrder}
    (called : Session.calls ⟨view, {}⟩ calls = .ok session) (returned : session.apply order = .ok applied)
    {i : Nat} {nodeDef : NodeDef} (atDef : view.nodeDef? i = some nodeDef) :
    ∃ nodeDef', applied.view.nodeDef? i = some nodeDef' ∧
      (contentOf nodeDef' = Content.written (contentOf nodeDef) (editsOf i calls) ↔
        ∀ index, ¬ RestoredAt (contentOf nodeDef) index (editsOf i calls)) := by
  have recording := calls_recording inv unmarked keepsName called
  obtain ⟨nodeDef', atDef', content⟩ := recording.apply_content inv returned atDef
  refine ⟨nodeDef', atDef', ?_⟩
  rw [content]
  exact Content.recorded_eq_written (editsOf i calls)

/-- `n` reads `a`. -/
def readerGraph : GraphDef :=
  [⟨"a", "Placeholder", "", [], ∅⟩, ⟨"b", "Placeholder", "", [], ∅⟩, ⟨"n", "Relu", "", [⟨"a", .port 0⟩], ∅⟩]

def insertionOrder : HashOrder := ⟨id, id, List.Perm.refl, List.Perm.refl⟩

/-- `n` reads `b` after an update that stays. -/
theorem readerGraph_updated : ∃ view session applied nodeDef nodeDef', construct readerGraph = .ok view ∧
    ({ view := view } : Session).calls [.edit 2 (.addOrUpdateRegularFanin 0 ⟨"b", 0⟩)] = .ok session ∧
    session.apply insertionOrder = .ok applied ∧ view.nodeDef? 2 = some nodeDef ∧
    applied.view.nodeDef? 2 = some nodeDef' ∧
    contentOf nodeDef' = Content.written (contentOf nodeDef) [.addOrUpdateRegularFanin 0 ⟨"b", 0⟩] := by
  obtain ⟨view, session, applied, nodeDef, built, unmarked, called, returned, atDef⟩ :
      ∃ view session applied nodeDef, construct readerGraph = .ok view ∧ (∀ node ∈ view.nodes, node.updateIndex = none) ∧
        ({ view := view } : Session).calls [.edit 2 (.addOrUpdateRegularFanin 0 ⟨"b", 0⟩)] = .ok session ∧
        session.apply insertionOrder = .ok applied ∧ view.nodeDef? 2 = some nodeDef :=
    ⟨_, _, _, _, rfl, by decide, rfl, rfl, rfl⟩
  obtain ⟨nodeDef', atDef', iff⟩ := apply_last_write_iff_not_restored (construct_inv built).1 unmarked
    (by simp [Call.keepsName, NodeEdit.keepsName]) called returned atDef
  refine ⟨view, session, applied, nodeDef, nodeDef', built, called, returned, atDef, atDef', iff.2 ?_⟩
  intro index ⟨own, other, before, between, after, _, _, split, _⟩
  have length := congrArg List.length split
  simp only [List.length_append, List.length_cons] at length
  change 1 = _ at length
  omega

/-- An update of `n` to `b`, and one back to `a`: it is `b` that stays. -/
theorem readerGraph_not_restored : ∃ view session applied nodeDef nodeDef', construct readerGraph = .ok view ∧
    ({ view := view } : Session).calls
      [.edit 2 (.addOrUpdateRegularFanin 0 ⟨"b", 0⟩), .edit 2 (.addOrUpdateRegularFanin 0 ⟨"a", 0⟩)] = .ok session ∧
    session.apply insertionOrder = .ok applied ∧ view.nodeDef? 2 = some nodeDef ∧
    applied.view.nodeDef? 2 = some nodeDef' ∧ nodeDef'.input = [⟨"b", .port 0⟩] ∧
    contentOf nodeDef' ≠ Content.written (contentOf nodeDef)
      [.addOrUpdateRegularFanin 0 ⟨"b", 0⟩, .addOrUpdateRegularFanin 0 ⟨"a", 0⟩] := by
  have differs : ∀ nodeDef nodeDef' : NodeDef, nodeDef'.input = [⟨"b", .port 0⟩] →
      contentOf nodeDef' ≠ Content.written (contentOf nodeDef)
        [.addOrUpdateRegularFanin 0 ⟨"b", 0⟩, .addOrUpdateRegularFanin 0 ⟨"a", 0⟩] := by
    intro nodeDef nodeDef' isInput same
    have atZero := congrFun (congrArg Content.regular same) 0
    have isB : (contentOf nodeDef').regular 0 = some ⟨"b", 0⟩ := by
      unfold contentOf
      rw [isInput]
      rfl
    have isA : (Content.written (contentOf nodeDef) [.addOrUpdateRegularFanin 0 ⟨"b", 0⟩,
        .addOrUpdateRegularFanin 0 ⟨"a", 0⟩]).regular 0 = some ⟨"a", 0⟩ :=
      Content.write_addOrUpdateRegularFanin _ 0 _
    rw [isB, isA] at atZero
    exact absurd atZero (by decide)
  exact ⟨_, _, _, _, _, rfl, rfl, rfl, rfl, rfl, rfl, differs _ _ rfl⟩

end Session

end Itex.GraphUtils
