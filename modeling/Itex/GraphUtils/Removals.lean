import Itex.GraphUtils.Renumbering

/-!
Contract: `Mutation::Apply` of a mutation that only removes nodes.

Owns: that the nodes at the pending indices are gone afterwards and that no other node
changed.
-/

namespace Itex.GraphUtils

open Itex.Graph (Failure)
open Itex.Lib

namespace MutableGraphView

variable {element k index t : Nat} {l removed seen : List Nat} {stored : StoredNode} {α : Type}
  {order : HashOrder}

section SameNodes

variable {view view' view'' : MutableGraphView}

theorem SameNodes.refl (view : MutableGraphView) : SameNodes view view :=
  ⟨rfl, rfl, rfl, rfl, rfl, rfl⟩

theorem SameNodes.modifyNode (same : SameNodes view view') (n : Nat) {change : MutableNodeView → MutableNodeView}
    (nodeIndex : ∀ node, (change node).nodeIndex = node.nodeIndex)
    (updateIndex : ∀ node, (change node).updateIndex = node.updateIndex) :
    SameNodes view (view'.modifyNode n change) := by
  refine same.trans ⟨rfl, rfl, rfl, by simp, ?_, ?_⟩
  · exact field_modifyNode_same view' n change nodeIndex
  · exact field_modifyNode_same view' n change updateIndex

theorem foldlM_sameNodes {step : MutableGraphView → α → Except Failure MutableGraphView}
    (keeps : ∀ view a view', step view a = .ok view' → SameNodes view view') {l : List α}
    (ran : l.foldlM step view = .ok view') : SameNodes view view' :=
  foldlM_invariant (fun _ reached => SameNodes view reached) (SameNodes.refl view)
    (fun _ a _ _ _ _ same stepped => same.trans (keeps _ a _ stepped)) ran

/-- A change of a node view that leaves its place and the number of its fanins. -/
structure KeepsPlace (change : MutableNodeView → MutableNodeView) : Prop where
  nodeIndex : ∀ node, (change node).nodeIndex = node.nodeIndex
  updateIndex : ∀ node, (change node).updateIndex = node.updateIndex
  regular : ∀ node, (change node).regularFanins.length = node.regularFanins.length
  controlling : ∀ node, (change node).controllingFanins.length = node.controllingFanins.length

/-- Node views changed one after the other, each in its place. -/
inductive Rewired (view : MutableGraphView) : MutableGraphView → Prop where
  | refl : Rewired view view
  | modifyNode {view' : MutableGraphView} (before : Rewired view view') (n : Nat)
      {change : MutableNodeView → MutableNodeView} (keeps : KeepsPlace change) :
      Rewired view (view'.modifyNode n change)

theorem Rewired.sameNodes (rewired : Rewired view view') : SameNodes view view' := by
  induction rewired with
  | refl => exact .refl view
  | modifyNode before n keeps ih =>
    exact ih.modifyNode n keeps.nodeIndex keeps.updateIndex

theorem removeRegularFaninFanoutInternal_rewired
    (ran : view.removeRegularFaninFanoutInternal index k = .ok view') : Rewired view view' := by
  unfold removeRegularFaninFanoutInternal at ran
  obtain ⟨node, -, ran⟩ := bind_ok.1 ran
  obtain ⟨fanin, -, ran⟩ := bind_ok.1 ran
  cases isIndex : fanin.fanoutIndex with
  | none =>
    rw [isIndex] at ran
    cases ran
    exact .refl
  | some fanoutIndex =>
    rw [isIndex] at ran
    obtain ⟨stored, -, ran⟩ := bind_ok.1 ran
    obtain ⟨faninNode, -, ran⟩ := bind_ok.1 ran
    obtain ⟨fanouts, -, ran⟩ := bind_ok.1 ran
    obtain ⟨last, -, ran⟩ := bind_ok.1 ran
    dsimp only at ran
    split at ran
    · obtain ⟨lastNode, -, ran⟩ := bind_ok.1 ran
      obtain ⟨_, -, ran⟩ := bind_ok.1 ran
      cases ran
      refine ((Rewired.refl.modifyNode _ ?_).modifyNode _ ?_).modifyNode _ ?_
      · constructor <;> exact fun _ => rfl
      · refine ⟨fun _ => rfl, fun _ => rfl, fun _ => List.length_modify .., fun _ => rfl⟩
      · constructor <;> exact fun _ => rfl
    · cases ran
      refine (Rewired.refl.modifyNode _ ?_).modifyNode _ ?_ <;> constructor <;> exact fun _ => rfl

theorem removeControllingFaninFanoutInternal_rewired
    (ran : view.removeControllingFaninFanoutInternal index k = .ok view') : Rewired view view' := by
  unfold removeControllingFaninFanoutInternal at ran
  obtain ⟨node, -, ran⟩ := bind_ok.1 ran
  obtain ⟨fanin, -, ran⟩ := bind_ok.1 ran
  cases isIndex : fanin.fanoutIndex with
  | none =>
    rw [isIndex] at ran
    cases ran
    exact .refl
  | some fanoutIndex =>
    rw [isIndex] at ran
    obtain ⟨stored, -, ran⟩ := bind_ok.1 ran
    obtain ⟨faninNode, -, ran⟩ := bind_ok.1 ran
    obtain ⟨last, -, ran⟩ := bind_ok.1 ran
    dsimp only at ran
    split at ran
    · obtain ⟨lastNode, -, ran⟩ := bind_ok.1 ran
      obtain ⟨_, -, ran⟩ := bind_ok.1 ran
      cases ran
      refine ((Rewired.refl.modifyNode _ ?_).modifyNode _ ?_).modifyNode _ ?_
      · constructor <;> exact fun _ => rfl
      · refine ⟨fun _ => rfl, fun _ => rfl, fun _ => rfl, fun _ => List.length_modify ..⟩
      · constructor <;> exact fun _ => rfl
    · cases ran
      refine (Rewired.refl.modifyNode _ ?_).modifyNode _ ?_ <;> constructor <;> exact fun _ => rfl

theorem removeAllFaninFanoutInternal_sameNodes
    (ran : view.removeAllFaninFanoutInternal index = .ok view') : SameNodes view view' := by
  unfold removeAllFaninFanoutInternal at ran
  obtain ⟨node, -, ran⟩ := bind_ok.1 ran
  obtain ⟨unread, isUnread, ran⟩ := bind_ok.1 ran
  obtain ⟨uncontrolled, isUncontrolled, ran⟩ := bind_ok.1 ran
  cases ran
  have first := foldlM_sameNodes
    (fun _ _ _ stepped => (removeRegularFaninFanoutInternal_rewired stepped).sameNodes) isUnread
  have second := foldlM_sameNodes
    (fun _ _ _ stepped => (removeControllingFaninFanoutInternal_rewired stepped).sameNodes) isUncontrolled
  refine SameNodes.modifyNode (SameNodes.trans (first.modifyNode index ?_ ?_) second) index ?_ ?_ <;>
    exact fun _ => rfl

theorem relinkLast_sameNodes {last : MutableNodeView} {target : Nat}
    (ran : view.relinkLast last target = .ok view') : SameNodes view view' := by
  unfold relinkLast at ran
  obtain ⟨fanins, isFanins, ran⟩ := bind_ok.1 ran
  obtain ⟨controls, isControls, ran⟩ := bind_ok.1 ran
  obtain ⟨fanouts, isFanouts, ran⟩ := bind_ok.1 ran
  have first : SameNodes view fanins := by
    refine foldlM_sameNodes (fun before fanin after stepped => ?_) isFanins
    split at stepped
    · cases stepped
    · obtain ⟨producer, -, stepped⟩ := bind_ok.1 stepped
      obtain ⟨_, -, stepped⟩ := bind_ok.1 stepped
      obtain ⟨_, -, stepped⟩ := bind_ok.1 stepped
      cases stepped
      exact (SameNodes.refl before).modifyNode _ (fun _ => rfl) fun _ => rfl
  have second : SameNodes fanins controls := by
    refine foldlM_sameNodes (fun before fanin after stepped => ?_) isControls
    split at stepped
    · cases stepped
    · obtain ⟨producer, -, stepped⟩ := bind_ok.1 stepped
      obtain ⟨_, -, stepped⟩ := bind_ok.1 stepped
      cases stepped
      exact (SameNodes.refl before).modifyNode _ (fun _ => rfl) fun _ => rfl
  have third : SameNodes controls fanouts := by
    refine foldlM_sameNodes (fun before fanout after stepped => ?_) isFanouts
    obtain ⟨consumer, -, stepped⟩ := bind_ok.1 stepped
    obtain ⟨_, -, stepped⟩ := bind_ok.1 stepped
    cases stepped
    exact (SameNodes.refl before).modifyNode _ (fun _ => rfl) fun _ => rfl
  have fourth : SameNodes fanouts view' := by
    refine foldlM_sameNodes (fun before fanout after stepped => ?_) ran
    obtain ⟨consumer, -, stepped⟩ := bind_ok.1 stepped
    obtain ⟨_, -, stepped⟩ := bind_ok.1 stepped
    cases stepped
    exact (SameNodes.refl before).modifyNode _ (fun _ => rfl) fun _ => rfl
  exact ((first.trans second).trans third).trans fourth

end SameNodes

/-! ## Compaction -/

/-- The nodes of a graph without those at the removed indices. -/
def remaining (graph : List StoredNode) (removed : List Nat) : List StoredNode :=
  (List.range graph.length).filterMap fun i => if i ∈ removed then none else graph[i]?

section Remaining

variable {graph : List StoredNode}

theorem remaining_nil : remaining graph [] = graph := by
  unfold remaining
  simp only [List.not_mem_nil, if_false]
  have reads : (List.range graph.length).map (fun i => graph[i]?) = graph.map some := by
    apply List.ext_getElem
    · simp
    · intro i boundI _
      have bound : i < graph.length := by simpa using boundI
      simp [bound]
  calc (List.range graph.length).filterMap (fun i => graph[i]?)
      = ((List.range graph.length).map fun i => graph[i]?).filterMap id := by
        rw [List.filterMap_map]
        rfl
    _ = graph := by
        rw [reads, List.filterMap_map]
        exact List.filterMap_some

theorem remaining_congr {removed' : List Nat} (same : ∀ i, i ∈ removed ↔ i ∈ removed') :
    remaining graph removed = remaining graph removed' := by
  unfold remaining
  simp only [same]

theorem mem_remaining :
    stored ∈ remaining graph removed ↔ ∃ i, i ∉ removed ∧ graph[i]? = some stored := by
  unfold remaining
  grind

theorem remaining_concat (new : t ∉ seen)
    (atT : graph[t]? = some stored) : (remaining graph seen).Perm (stored :: remaining graph (seen ++ [t])) := by
  have listed : t ∈ List.range graph.length :=
    List.mem_range.2 (read_lt atT)
  have split := List.perm_cons_erase listed
  unfold remaining
  refine (split.filterMap _).trans ((List.Perm.trans ?_ (List.Perm.cons stored (split.filterMap _).symm)))
  rw [List.filterMap_cons_some (by rw [if_neg new]; exact atT), List.filterMap_cons_none (by rw [if_pos (by simp)])]
  apply List.Perm.cons
  apply List.Perm.of_eq
  apply List.filterMap_congr
  intro i mem
  have other : i ≠ t := ((List.nodup_range.mem_erase_iff).1 mem).1
  simp [other]

end Remaining

/-- A graph whose nodes at `seen` were removed, from the last one on. -/
structure Compacted (graph : List StoredNode) (seen : List Nat) (view : MutableGraphView) : Prop where
  length : view.nodes.length + seen.length = graph.length
  graphLength : view.graph.length = graph.length
  nodeIndex : ∀ {i : Nat} {node : MutableNodeView}, view.nodes[i]? = some node → node.nodeIndex = i
  kept : (view.graph.take view.nodes.length).Perm (remaining graph seen)
  untouched : ∀ i, (∀ t ∈ seen, i < t) → view.graph[i]? = graph[i]?

theorem take_swap_perm {elements : List α} {last : Nat} {first second : α}
    (before : t < last) (atLast : elements[last]? = some first) (atT : elements[t]? = some second) :
    (elements.take (last + 1)).Perm (second :: ((elements.set last second).set t first).take last) := by
  have inside := read_lt atLast
  have swapped := @perm_swap _ (elements.take (last + 1)) last t first second
    (by rw [List.getElem?_take_of_lt (Nat.lt_succ_self _)]; exact atLast)
    (by rw [List.getElem?_take_of_lt (by omega)]; exact atT)
  rw [← List.take_set, ← List.take_set] at swapped
  have lastIs : ((elements.set last second).set t first)[last]? = some second := by
    rw [getElem?_swap atLast atT, if_neg (by omega), if_pos rfl]
  rw [List.take_add_one, lastIs, Option.toList_some] at swapped
  exact swapped.symm.trans (List.perm_append_singleton _ _)

/-- There is room below indices that are removed from the last one on. -/
theorem add_length_lt {n : Nat} (nodup : seen.Nodup) (bound : t < n)
    (inside : ∀ s ∈ seen, s < n) (below : ∀ s ∈ seen, t < s) : t + seen.length < n := by
  have all : (List.range (t + 1) ++ seen).Subperm (List.range n) := by
    apply List.subperm_of_subset
    · apply List.nodup_range.append nodup
      intro i mem seenI
      have := List.mem_range.1 mem
      have := below i seenI
      omega
    · grind
  have le := all.length_le
  rw [List.length_append, List.length_range, List.length_range] at le
  omega

theorem removeNodeAt_compacted {graph : List StoredNode}
    {view view' : MutableGraphView} (compacted : Compacted graph seen view)
    (below : ∀ s ∈ seen, t < s) (room : t + seen.length < graph.length)
    (ran : view.removeNodeAt t = .ok view') : Compacted graph (seen ++ [t]) view' := by
  have length := compacted.length
  have new : t ∉ seen := fun mem => Nat.lt_irrefl t (below t mem)
  have atT : view.graph[t]? = graph[t]? := compacted.untouched t below
  obtain ⟨stored, atStored⟩ : ∃ stored, graph[t]? = some stored :=
    ⟨_, List.getElem?_eq_getElem (by omega)⟩
  rw [atStored] at atT
  have oneFewer := compacted.kept.trans (remaining_concat new atStored)
  unfold removeNodeAt at ran
  obtain ⟨last, atLast, ran⟩ := bind_ok.1 ran
  rw [fetch_eq_ok] at atLast
  have isLast := compacted.nodeIndex atLast
  dsimp only at ran
  split at ran
  next before =>
    rw [isLast] at before
    obtain ⟨relinked, isRelinked, ran⟩ := bind_ok.1 ran
    obtain ⟨nodes, isNodes, ran⟩ := bind_ok.1 ran
    obtain ⟨swapped, isSwapped, ran⟩ := bind_ok.1 ran
    obtain ⟨moved, atMoved, ran⟩ := bind_ok.1 ran
    obtain ⟨_, -, ran⟩ := bind_ok.1 ran
    cases ran
    have same := relinkLast_sameNodes isRelinked
    obtain ⟨lastDef, atLastDef⟩ : ∃ lastDef, view.graph[view.nodes.length - 1]? = some lastDef :=
      ⟨_, List.getElem?_eq_getElem (by rw [compacted.graphLength]; omega)⟩
    have graphIs : swapped = (view.graph.set (view.nodes.length - 1) stored).set t lastDef := by
      rw [same.graph, graph_modifyNode, swapElements_eq_ok atLastDef atT] at isSwapped
      exact (Except.ok.inj isSwapped).symm
    have relinkedLength : relinked.nodes.length = view.nodes.length := by
      rw [same.length, length_modifyNode]
    obtain ⟨fromLast, atFromLast⟩ : ∃ node, relinked.nodes[view.nodes.length - 1]? = some node :=
      ⟨_, List.getElem?_eq_getElem (by omega)⟩
    obtain ⟨fromT, atFromT⟩ : ∃ node, relinked.nodes[t]? = some node :=
      ⟨_, List.getElem?_eq_getElem (by omega)⟩
    have nodesIs : nodes = (relinked.nodes.set (view.nodes.length - 1) fromT).set t fromLast := by
      rw [swapElements_eq_ok atFromLast atFromT] at isNodes
      exact (Except.ok.inj isNodes).symm
    have nodesLength : nodes.dropLast.length = view.nodes.length - 1 := by
      rw [nodesIs, List.length_dropLast, List.length_set, List.length_set, relinkedLength]
    -- The node view that moves has its new index already.
    have indexOf : ∀ {i : Nat} {node : MutableNodeView}, relinked.nodes[i]? = some node →
        node.nodeIndex = if i = view.nodes.length - 1 then t else i := by
      intro i node atI
      have isIndex : relinked.field (·.nodeIndex) i = some node.nodeIndex := field_of_getElem? atI _
      rw [same.nodeIndex, field_modifyNode _ _ _ (fun _ => t) (by exact fun _ => rfl)] at isIndex
      by_cases moves : i = view.nodes.length - 1
      · rw [if_pos moves] at isIndex ⊢
        obtain ⟨_, -, isT⟩ := Option.map_eq_some_iff.1 isIndex
        exact isT.symm
      · rw [if_neg moves] at isIndex ⊢
        obtain ⟨old, atOld, isOld⟩ := Option.map_eq_some_iff.1 isIndex
        rw [← isOld]
        exact compacted.nodeIndex atOld
    refine ⟨?_, ?_, ?_, ?_, ?_⟩
    · show nodes.dropLast.length + (seen ++ [t]).length = graph.length
      rw [nodesLength, List.length_append, List.length_singleton]
      omega
    · show swapped.length = graph.length
      rw [graphIs, List.length_set, List.length_set, compacted.graphLength]
    · grind
    · show (swapped.take nodes.dropLast.length).Perm _
      rw [nodesLength, graphIs]
      have moved := take_swap_perm before atLastDef atT
      rw [Nat.sub_add_cancel (by omega)] at moved
      exact (moved.symm.trans oneFewer).cons_inv
    · intro i lower
      show swapped[i]? = graph[i]?
      have underT : i < t := lower t (by simp)
      rw [graphIs, getElem?_swap atLastDef atT, if_neg (by omega), if_neg (by omega)]
      exact compacted.untouched i fun s mem => lower s (List.mem_append_left _ mem)
  next notBefore =>
    rw [isLast] at notBefore
    cases ran
    have isT : view.nodes.length - 1 = t := by omega
    refine ⟨?_, compacted.graphLength, ?_, ?_, ?_⟩
    · show view.nodes.dropLast.length + (seen ++ [t]).length = graph.length
      rw [List.length_dropLast, List.length_append, List.length_singleton]
      omega
    · intro i node atI
      have bound := read_lt atI
      rw [List.length_dropLast] at bound
      dsimp only at atI
      rw [List.dropLast_eq_take, List.getElem?_take_of_lt bound] at atI
      exact compacted.nodeIndex atI
    · show (view.graph.take view.nodes.dropLast.length).Perm _
      have whole : view.graph.take view.nodes.length = view.graph.take t ++ [stored] := by
        rw [show view.nodes.length = t + 1 by omega, List.take_add_one, atT]
        rfl
      rw [List.length_dropLast, isT]
      rw [whole] at oneFewer
      exact ((List.perm_append_singleton _ _).symm.trans oneFewer).cons_inv
    · intro i lower
      exact compacted.untouched i fun s mem => lower s (List.mem_append_left _ mem)

theorem mem_emplaceSorted {i : Nat} : i ∈ emplaceSorted element l ↔ i = element ∨ i ∈ l := by
  induction l with
  | nil => simp [emplaceSorted]
  | cons head tail ih =>
    unfold emplaceSorted
    split
    · simp
    · split
      next same => simp [same]
      next => simp [ih, or_left_comm]

theorem emplaceSorted_ascends (ascends : l.Pairwise (· < ·)) : (emplaceSorted element l).Pairwise (· < ·) := by
  induction l with
  | nil => simp [emplaceSorted]
  | cons head tail ih =>
    have parts := List.pairwise_cons.1 ascends
    unfold emplaceSorted
    split
    next less =>
      apply List.pairwise_cons.2 ⟨?_, ascends⟩
      intro i mem
      rcases List.mem_cons.1 mem with isHead | inTail
      · rw [isHead]
        exact less
      · exact Nat.lt_trans less (parts.1 i inTail)
    · split
      · exact ascends
      next notLess notSame =>
        apply List.pairwise_cons.2 ⟨?_, ih parts.2⟩
        intro i mem
        rcases mem_emplaceSorted.1 mem with isElement | inTail
        · omega
        · exact parts.1 i inTail

theorem foldl_emplaceSorted (elements : List Nat) : ∀ {l : List Nat}, l.Pairwise (· < ·) →
      (elements.foldl (fun sorted index => emplaceSorted index sorted) l).Pairwise (· < ·) ∧
        ∀ i, i ∈ elements.foldl (fun sorted index => emplaceSorted index sorted) l ↔ i ∈ elements ∨ i ∈ l := by
  induction elements with
  | nil =>
    intro l ascends
    exact ⟨ascends, by simp⟩
  | cons head tail ih =>
    intro l ascends
    obtain ⟨sorted, members⟩ := ih (emplaceSorted_ascends ascends)
    refine ⟨sorted, fun i => ?_⟩
    rw [List.foldl_cons, members, mem_emplaceSorted, List.mem_cons]
    rw [or_left_comm, or_assoc]

end MutableGraphView

namespace Session

open MutableGraphView

theorem removeNodesInternal_removes {progress : Progress}
    {view' : MutableGraphView} (indexed : progress.view.Indexed) (noneRenamed : progress.renamedNodes = [])
    (ran : removeNodesInternal order progress = .ok view') :
    view'.graph.Perm (remaining progress.view.graph progress.mutation.removedNodes) := by
  unfold removeNodesInternal at ran
  rw [noneRenamed] at ran
  obtain ⟨cleared, isCleared, ran⟩ := bind_ok.1 ran
  cases isCleared
  obtain ⟨unlisted, isUnlisted, ran⟩ := bind_ok.1 ran
  obtain ⟨compacted, isCompacted, ran⟩ := bind_ok.1 ran
  cases ran
  have unchanged : (unlisted.graph = progress.view.graph ∧ unlisted.nodes.length = progress.view.nodes.length ∧
      unlisted.field (·.nodeIndex) = progress.view.field (·.nodeIndex)) ∧
      ∀ i ∈ order.indices progress.mutation.removedNodes, i < progress.view.graph.length := by
    refine foldlM_invariant (fun seen reached => (reached.graph = progress.view.graph ∧
      reached.nodes.length = progress.view.nodes.length ∧
      reached.field (·.nodeIndex) = progress.view.field (·.nodeIndex)) ∧
      ∀ i ∈ seen, i < progress.view.graph.length) ⟨⟨rfl, rfl, rfl⟩, by simp⟩ ?_ isUnlisted
    intro seen index rest before after _ ⟨⟨sameGraph, length, nodeIndex⟩, inside⟩ stepped
    obtain ⟨name, isName, stepped⟩ := bind_ok.1 stepped
    obtain ⟨stored, atStored, -⟩ := bind_ok.1 isName
    rw [fetch_eq_ok, sameGraph] at atStored
    obtain ⟨unread, isUnread, stepped⟩ := bind_ok.1 stepped
    have same := removeAllFaninFanoutInternal_sameNodes isUnread
    refine ⟨?_, ?_⟩
    · have kept : unread.graph = progress.view.graph ∧ unread.nodes.length = progress.view.nodes.length ∧
          unread.field (·.nodeIndex) = progress.view.field (·.nodeIndex) :=
        ⟨same.graph.trans sameGraph, same.length.trans length, same.nodeIndex.trans nodeIndex⟩
      split at stepped
      · cases stepped
        exact kept
      · cases stepped
        exact kept
    · grind
  obtain ⟨⟨sameGraph, sameLength, sameIndex⟩, inside⟩ := unchanged
  simp only [List.filterMap_nil, List.append_nil] at isCompacted ⊢
  obtain ⟨ascends, members⟩ := foldl_emplaceSorted (order.indices progress.mutation.removedNodes)
    (show ([] : List Nat).Pairwise (· < ·) from .nil)
  generalize (order.indices progress.mutation.removedNodes).foldl
    (fun sorted index => emplaceSorted index sorted) [] = sorted at isCompacted ascends members ⊢
  have insideSorted : ∀ i ∈ sorted, i < progress.view.graph.length := by
    intro i mem
    exact inside i (by simpa using (members i).1 mem)
  have start : Compacted progress.view.graph [] unlisted := by
    refine ⟨?_, by rw [sameGraph], ?_, ?_, fun i _ => by rw [sameGraph]⟩
    · rw [sameLength, indexed.length]
      rfl
    · intro i node atI
      have isIndex : unlisted.field (·.nodeIndex) i = some node.nodeIndex := field_of_getElem? atI _
      rw [sameIndex] at isIndex
      obtain ⟨old, atOld, isOld⟩ := Option.map_eq_some_iff.1 isIndex
      rw [← isOld]
      exact indexed.nodeIndex atOld
    · rw [remaining_nil, sameLength, sameGraph, indexed.length, List.take_length]
  have done : Compacted progress.view.graph sorted.reverse compacted := by
    refine foldlM_invariant (fun seen reached => Compacted progress.view.graph seen reached) start ?_
      isCompacted
    intro seen t rest before after split isBefore stepped
    have descends : (seen ++ t :: rest).Pairwise (· > ·) := by
      rw [← split]
      exact List.pairwise_reverse.2 ascends
    have listed : ∀ i ∈ seen ++ [t], i < progress.view.graph.length := by
      intro i mem
      apply insideSorted i
      rw [← List.mem_reverse, split]
      rcases List.mem_append.1 mem with earlier | isT
      · exact List.mem_append_left _ earlier
      · rw [List.mem_singleton.1 isT]
        simp
    have below : ∀ s ∈ seen, t < s :=
      fun s mem => (List.pairwise_append.1 descends).2.2 s mem t List.mem_cons_self
    have nodup : seen.Nodup :=
      (List.pairwise_append.1 descends).1.imp fun {_ _} greater => Nat.ne_of_gt greater
    exact removeNodeAt_compacted isBefore below
      (add_length_lt nodup (listed t (by simp)) (fun s mem => listed s (List.mem_append_left _ mem))
        below) stepped
  have length := done.length
  rw [List.length_reverse] at length
  rw [done.graphLength, show progress.view.graph.length - sorted.length = compacted.nodes.length by omega]
  refine done.kept.trans (List.Perm.of_eq (remaining_congr fun i => ?_))
  rw [List.mem_reverse, members]
  simp [(order.indices_perm _).mem_iff]

theorem fixRenamedFanouts_nothing {view view' : MutableGraphView} (ran : view.fixRenamedFanouts order ∅ = .ok view') :
    view' = view := by
  have noKeys : order.strings (∅ : RenamedFanouts).keys = [] := List.Perm.eq_nil (order.strings_perm _)
  unfold MutableGraphView.fixRenamedFanouts at ran
  rw [noKeys] at ran
  exact (Except.ok.inj ran).symm

theorem validateInternal_without_updates {session : Session} {partition : Partition}
    (noUpdates : session.mutation.updatedNodes = []) (ran : session.validateInternal order = .ok partition) :
    partition.renamedNodes = [] ∧ partition.emptyDiffNodeIndices = [] ∧ ∃ names names' : NodeNames,
      session.mutation.newNodes.foldlM (fun names new => names.markPresent new.node.name) names = .ok names' := by
  obtain ⟨named, isNamed, ran⟩ := bind_ok.1 ran
  obtain ⟨_, -, ran⟩ := bind_ok.1 ran
  cases ran
  unfold getNodeNamesAndPartitionUpdatedNodes at isNamed
  rw [noUpdates] at isNamed
  obtain ⟨renamed, -, isNamed⟩ := bind_ok.1 isNamed
  obtain ⟨removed, -, isNamed⟩ := bind_ok.1 isNamed
  obtain ⟨updated, isUpdated, isNamed⟩ := bind_ok.1 isNamed
  obtain ⟨names, isNames, isNamed⟩ := bind_ok.1 isNamed
  cases isUpdated
  cases isNamed
  exact ⟨rfl, rfl, _, _, isNames⟩

theorem apply_removals {session applied : Session}
    (indexed : session.view.Indexed) (noUpdates : session.mutation.updatedNodes = [])
    (noNewNodes : session.mutation.newNodes = []) (ran : session.apply order = .ok applied) :
    applied.view.graph.Perm (remaining session.view.graph session.mutation.removedNodes) := by
  have trimmedIs : session.trimmed = session := by
    obtain ⟨view, updatedNodes, removedNodes, newNodes⟩ := session
    cases noUpdates
    cases noNewNodes
    rfl
  unfold apply at ran
  rw [trimmedIs] at ran
  obtain ⟨partition, isPartition, ran⟩ := bind_ok.1 ran
  obtain ⟨noRenames, noEmptyDiffs, -⟩ := validateInternal_without_updates noUpdates isPartition
  obtain ⟨renamed, isRenamed, ran⟩ := bind_ok.1 ran
  obtain ⟨added, isAdded, ran⟩ := bind_ok.1 ran
  obtain ⟨abandoned, isAbandoned, ran⟩ := bind_ok.1 ran
  obtain ⟨updated, isUpdated, ran⟩ := bind_ok.1 ran
  obtain ⟨linked, isLinked, ran⟩ := bind_ok.1 ran
  obtain ⟨view, isView, ran⟩ := bind_ok.1 ran
  cases ran
  rw [noRenames, noEmptyDiffs] at isRenamed
  cases isRenamed
  rw [noNewNodes] at isAdded
  cases isAdded
  have abandonedIs := fixRenamedFanouts_nothing isAbandoned
  dsimp only at isUpdated
  rw [noUpdates] at isUpdated
  cases isUpdated
  cases isLinked
  rw [abandonedIs] at isView
  exact removeNodesInternal_removes indexed rfl isView

end Session

end Itex.GraphUtils
