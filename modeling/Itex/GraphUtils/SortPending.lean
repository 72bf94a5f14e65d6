import Itex.GraphUtils.Removals
import Itex.GraphUtils.SortCorrectness

/-!
Contract: `SortTopologically` while a mutation is pending.

Owns: what builder calls leave of a view, and that a sort between the calls and `Apply`
keeps the pending changes at their nodes, as long as removals are not all there is.
-/

namespace Itex.GraphUtils

open Itex.Graph (GraphDef require_eq_ok)
open Itex.Lib

namespace MutableGraphView

/-! ## Builder calls keep the edges -/

/-- A view without the places of pending changes. -/
def settled (view : MutableGraphView) : MutableGraphView :=
  { view with nodes := view.nodes.map fun node => { node with updateIndex := none } }

section Settled

variable {view view' : MutableGraphView}

theorem field_settled {β : Type} {read : MutableNodeView → β}
    (ignores : ∀ node, read { node with updateIndex := none } = read node) :
    view.settled.field read = view.field read := by
  funext i
  unfold field settled
  rw [List.getElem?_map, Option.map_map]
  congr 1
  funext node
  exact ignores node

theorem settled_modifyNode (index : Nat) {change : MutableNodeView → MutableNodeView}
    (only : ∀ node, { change node with updateIndex := none } = { node with updateIndex := none }) :
    (view.modifyNode index change).settled = view.settled := by
  unfold settled modifyNode
  congr 1
  apply List.ext_getElem?
  grind

theorem settled_fanin (i k : Nat) : view.settled.fanin i k = view.fanin i k := by
  unfold fanin
  rw [field_settled fun _ => rfl]

theorem settled_control (i k : Nat) : view.settled.control i k = view.control i k := by
  unfold control
  rw [field_settled fun _ => rfl]

theorem settled_fanout (p port j : Nat) : view.settled.fanout p port j = view.fanout p port j := by
  unfold fanout
  rw [field_settled fun _ => rfl]

theorem settled_controlled (p j : Nat) : view.settled.controlled p j = view.controlled p j := by
  unfold controlled
  rw [field_settled fun _ => rfl]

theorem node_of_settled_eq (same : view'.settled = view.settled) {i : Nat} {node' : MutableNodeView}
    (atI : view'.nodes[i]? = some node') : ∃ node, view.nodes[i]? = some node ∧
      ({ node with updateIndex := none } : MutableNodeView) = { node' with updateIndex := none } := by
  have settledAt : view'.settled.nodes[i]? = some { node' with updateIndex := none } := by
    unfold settled
    rw [List.getElem?_map, atI]
    rfl
  rw [same] at settledAt
  unfold settled at settledAt
  rw [List.getElem?_map] at settledAt
  exact Option.map_eq_some_iff.1 settledAt

theorem Navigable.of_settled_eq (navigable : view.Navigable) (same : view'.settled = view.settled) :
    view'.Navigable := by
  have graph := congrArg MutableGraphView.graph same
  have byName := congrArg MutableGraphView.nodeIndexByName same
  have nextAddress := congrArg MutableGraphView.nextAddress same
  change view'.graph = view.graph at graph
  change view'.nodeIndexByName = view.nodeIndexByName at byName
  change view'.nextAddress = view.nextAddress at nextAddress
  have fanin : ∀ i k, view'.fanin i k = view.fanin i k := by
    intro i k
    rw [← settled_fanin, same, settled_fanin]
  have control : ∀ i k, view'.control i k = view.control i k := by
    intro i k
    rw [← settled_control, same, settled_control]
  have fanout : ∀ p port j, view'.fanout p port j = view.fanout p port j := by
    intro p port j
    rw [← settled_fanout, same, settled_fanout]
  have controlled : ∀ p j, view'.controlled p j = view.controlled p j := by
    intro p j
    rw [← settled_controlled, same, settled_controlled]
  have nodeDef : ∀ i, view'.nodeDef? i = view.nodeDef? i := by
    intro i
    unfold nodeDef?
    rw [graph]
  refine ⟨⟨?_, ?_, ?_, ?_, ?_⟩, ⟨?_, ?_, ?_, ?_⟩, ⟨?_, ?_⟩, ?_⟩
  · have length := congrArg (fun settled => settled.nodes.length) same
    simp only [settled, List.length_map] at length
    rw [length, graph, navigable.indexed.length]
  · intro i node' atI
    obtain ⟨node, atNode, isSame⟩ := node_of_settled_eq same atI
    have isIndex := congrArg MutableNodeView.nodeIndex isSame
    change node.nodeIndex = node'.nodeIndex at isIndex
    rw [← isIndex]
    exact navigable.indexed.nodeIndex atNode
  · intro name i
    rw [byName, nodeDef]
    exact navigable.indexed.names name i
  · rw [graph]
    exact navigable.indexed.addresses
  · rw [graph, nextAddress]
    exact navigable.indexed.fresh
  · intro i k j entry atFanin isIndex
    rw [fanin] at atFanin
    rw [fanout]
    exact navigable.linked.fanin atFanin isIndex
  · intro p port j entry atFanout
    rw [fanout] at atFanout
    rw [fanin]
    exact navigable.linked.fanout atFanout
  · intro i k j entry atFanin isIndex
    rw [control] at atFanin
    rw [controlled]
    exact navigable.linked.control atFanin isIndex
  · intro p j entry atFanout
    rw [controlled] at atFanout
    rw [control]
    exact navigable.linked.controlled atFanout
  · intro i k entry atFanin
    rw [fanin] at atFanin
    exact navigable.attached.fanin atFanin
  · intro i k entry atFanin
    rw [control] at atFanin
    exact navigable.attached.control atFanin
  · intro i node' def_ atI atDef
    obtain ⟨node, atNode, isSame⟩ := node_of_settled_eq same atI
    rw [nodeDef] at atDef
    have regular := congrArg MutableNodeView.regularFanins isSame
    have controlling := congrArg MutableNodeView.controllingFanins isSame
    change node.regularFanins = node'.regularFanins at regular
    change node.controllingFanins = node'.controllingFanins at controlling
    rw [navigable.inputs atNode atDef]
    unfold inputsOf nameAt
    simp only [nodeDef, regular, controlling]

end Settled

end MutableGraphView

/-- The nodes that `RemoveNode` calls were made for. -/
def removals (calls : List Call) : List Nat :=
  calls.filterMap fun call => match call with
    | .removeNode index => some index
    | _ => none

namespace Session

open MutableGraphView

theorem call_keeps_view {session session' : Session} {call : Call}
    (ran : session.call call = .ok session') : session'.view.settled = session.view.settled := by
  cases call with
  | addNode node =>
    unfold Session.call at ran
    dsimp only at ran
    split at ran
    next added isAdded =>
      cases ran
      obtain ⟨_, -, isAdded⟩ := bind_ok.1 isAdded
      cases isAdded
      rfl
    · cases ran
      rfl
  | removeNode index =>
    obtain ⟨node, -, ran⟩ := bind_ok.1 ran
    dsimp only at ran
    split at ran
    · cases ran
      rfl
    next updateIndex _ =>
      obtain ⟨last, -, ran⟩ := bind_ok.1 ran
      cases ran
      refine (settled_modifyNode index (by exact fun _ => rfl)).trans ?_
      split
      · exact settled_modifyNode _ fun _ => rfl
      · rfl
  | edit index edit =>
    obtain ⟨node, -, ran⟩ := bind_ok.1 ran
    obtain ⟨stored, -, ran⟩ := bind_ok.1 ran
    dsimp only at ran
    split at ran
    · split at ran
      · cases ran
        exact settled_modifyNode index fun _ => rfl
      · cases ran
        rfl
    · split at ran
      · cases ran
        rfl
      · obtain ⟨diff, -, ran⟩ := bind_ok.1 ran
        cases ran
        rfl
  | editNew index edit =>
    obtain ⟨new, -, ran⟩ := bind_ok.1 ran
    cases ran
    rfl

theorem call_removedNodes {session session' : Session} {call : Call}
    (indexed : session.view.Indexed) (ran : session.call call = .ok session') (i : Nat) :
    i ∈ session'.mutation.removedNodes ↔ i ∈ session.mutation.removedNodes ∨ call = .removeNode i := by
  cases call with
  | addNode node =>
    unfold Session.call at ran
    dsimp only at ran
    split at ran
    next added isAdded =>
      cases ran
      obtain ⟨_, -, isAdded⟩ := bind_ok.1 isAdded
      cases isAdded
      simp
    · cases ran
      simp
  | removeNode index =>
    obtain ⟨node, atNode, ran⟩ := bind_ok.1 ran
    have isIndex := indexed.nodeIndex (fetch_eq_ok.1 atNode)
    have inserted : i ∈ session.mutation.removedNodes.insert node.nodeIndex ↔
        i ∈ session.mutation.removedNodes ∨ Call.removeNode index = Call.removeNode i := by
      rw [List.mem_insert_iff, isIndex, Call.removeNode.injEq, or_comm, eq_comm]
    dsimp only at ran
    split at ran
    · cases ran
      exact inserted
    · obtain ⟨last, -, ran⟩ := bind_ok.1 ran
      cases ran
      exact inserted
  | edit index edit =>
    obtain ⟨node, -, ran⟩ := bind_ok.1 ran
    obtain ⟨stored, -, ran⟩ := bind_ok.1 ran
    dsimp only at ran
    split at ran
    · split at ran
      · cases ran
        simp
      · cases ran
        simp
    · split at ran
      · cases ran
        simp
      · obtain ⟨diff, -, ran⟩ := bind_ok.1 ran
        cases ran
        simp [modifyDiff]
  | editNew index edit =>
    obtain ⟨new, -, ran⟩ := bind_ok.1 ran
    cases ran
    simp

theorem calls_spec {view : MutableGraphView} {calls : List Call} {session : Session}
    (navigable : view.Navigable) (recorded : ({ view := view } : Session).calls calls = .ok session) :
    session.view.settled = view.settled ∧ ∀ i, i ∈ session.mutation.removedNodes ↔ i ∈ removals calls := by
  refine foldlM_invariant (fun seen (reached : Session) => reached.view.settled = view.settled ∧
    ∀ i, i ∈ reached.mutation.removedNodes ↔ i ∈ removals seen) ⟨rfl, by simp [removals]⟩ ?_ recorded
  intro seen call rest before after _ ⟨same, removed⟩ stepped
  refine ⟨(call_keeps_view stepped).trans same, fun i => ?_⟩
  rw [call_removedNodes (navigable.of_settled_eq same).indexed stepped i, removed]
  unfold removals
  rw [List.filterMap_append, List.mem_append]
  apply or_congr Iff.rfl
  cases call <;> simp [eq_comm]

/-! ## A sort in between -/

/-- The sort is refused, or `Apply` after it removes exactly the nodes that `RemoveNode` calls
were made for and changes no other one: nothing else is pending after the guard. -/
def KeepsPending (view : MutableGraphView) (calls : List Call) (session : Session)
    (ignoreCycles : Bool) (dependencies : List TopologicalDependency) : Prop :=
  session.sortTopologically ignoreCycles dependencies = (.error (sortError "active mutation exists."), session) ∨
    ∀ order applied, (session.sortTopologically ignoreCycles dependencies).2.apply order = .ok applied →
      applied.view.graph.Perm (remaining view.graph (removals calls))

theorem valid_of_topologicalOrder {view : MutableGraphView} {ignoreCycles : Bool}
    {dependencies : List TopologicalDependency} {order : List Nat}
    (ran : view.topologicalOrder ignoreCycles dependencies = .ok order) :
    ∀ dependency ∈ dependencies, view.Valid dependency := by
  intro dependency mem
  obtain ⟨extra, isExtra, -⟩ := bind_ok.1 ran
  obtain ⟨pair, -, checked⟩ := mem_result_of_mapM isExtra mem
  obtain ⟨_, required, -⟩ := bind_ok.1 checked
  have holds := require_eq_ok.1 required
  exact holds

theorem sortTopologically_cases {session : Session} (navigable : session.view.Navigable)
    (noUpdates : session.mutation.updatedNodes = []) (noNewNodes : session.mutation.newNodes = [])
    (ignoreCycles : Bool) (dependencies : List TopologicalDependency) :
    (session.sortTopologically ignoreCycles dependencies).2 = session ∨
      ∃ place view', session.sortTopologically ignoreCycles dependencies =
          (.ok (), { session with view := view' }) ∧ session.view.Renumbered place view' := by
  unfold sortTopologically
  rw [if_neg (by simp [noUpdates, noNewNodes])]
  cases ordered : session.view.topologicalOrder ignoreCycles dependencies with
  | error failure => exact .inl rfl
  | ok order =>
    have valid := valid_of_topologicalOrder ordered
    rcases topologicalOrder_spec navigable valid ignoreCycles with
      ⟨_, isError, -⟩ | ⟨order', isOk, isOrder, -⟩
    · rw [ordered] at isError
      cases isError
    · rw [ordered] at isOk
      cases isOk
      obtain ⟨view', permuted, renumbered⟩ := permuteNodes_spec navigable.indexed isOrder
        fun node mem => navigable.inRange mem
      right
      refine ⟨_, view', ?_, renumbered⟩
      dsimp only
      rw [permuted]

theorem nodup_remaining {view : MutableGraphView} (indexed : view.Indexed) {removed : List Nat} :
    (remaining view.graph removed).Nodup := by
  have injective := List.nodup_iff_injective_getElem.1 (List.Nodup.of_map _ indexed.addresses)
  apply List.nodup_range.filterMap
  intro i j stored atI atJ
  split at atI
  · cases atI
  · split at atJ
    · cases atJ
    · obtain ⟨boundI, isI⟩ := List.getElem?_eq_some_iff.1 atI
      obtain ⟨boundJ, isJ⟩ := List.getElem?_eq_some_iff.1 atJ
      have same := @injective ⟨i, boundI⟩ ⟨j, boundJ⟩ (isI.trans isJ.symm)
      exact congrArg Fin.val same

theorem mem_remaining_at {view : MutableGraphView} (indexed : view.Indexed) {i : Nat}
    {stored : StoredNode} (atI : view.graph[i]? = some stored) (removed : List Nat) :
    stored ∈ remaining view.graph removed ↔ i ∉ removed := by
  rw [mem_remaining]
  refine ⟨fun ⟨j, kept, atJ⟩ => ?_, fun kept => ⟨i, kept, atI⟩⟩
  have injective := List.nodup_iff_injective_getElem.1 (List.Nodup.of_map _ indexed.addresses)
  obtain ⟨boundI, isI⟩ := List.getElem?_eq_some_iff.1 atI
  obtain ⟨boundJ, isJ⟩ := List.getElem?_eq_some_iff.1 atJ
  have same : i = j :=
    congrArg Fin.val (@injective ⟨i, boundI⟩ ⟨j, boundJ⟩ (isI.trans isJ.symm))
  rw [same]
  exact kept

theorem remaining_perm_iff {view view' : MutableGraphView} {place : Nat → Nat} {removed : List Nat}
    (indexed : view.Indexed) (renumbered : view.Renumbered place view') :
    (remaining view'.graph removed).Perm (remaining view.graph removed) ↔
      ∀ i < view.nodes.length, i ∈ removed ↔ place i ∈ removed := by
  have indexed' := renumbered.indexed indexed
  rw [List.perm_ext_iff_of_nodup (nodup_remaining indexed') (nodup_remaining indexed)]
  have atPlace : ∀ {i : Nat} {stored : StoredNode}, view.graph[i]? = some stored →
      i < view.nodes.length ∧ view'.graph[place i]? = some stored := by
    intro i stored atI
    have bound : i < view.nodes.length := indexed.length ▸ read_lt atI
    exact ⟨bound, (renumbered.graph i bound).trans atI⟩
  refine ⟨fun same i bound => ?_, fun same stored => ?_⟩
  · obtain ⟨stored, atI⟩ : ∃ stored, view.graph[i]? = some stored :=
      ⟨_, List.getElem?_eq_getElem (indexed.length ▸ bound)⟩
    have here := mem_remaining_at indexed atI removed
    have there := mem_remaining_at indexed' (atPlace atI).2 removed
    rw [← not_iff_not, ← here, ← there]
    exact (same stored).symm
  · rw [mem_remaining, mem_remaining]
    refine ⟨fun ⟨r, kept, atR⟩ => ?_, fun ⟨i, kept, atI⟩ => ?_⟩
    · have boundR := read_lt atR
      rw [renumbered.graphLength, ← indexed.length] at boundR
      obtain ⟨i, bound, rfl⟩ := renumbered.exists_place boundR
      rw [renumbered.graph i bound] at atR
      exact ⟨i, fun mem => kept ((same i bound).1 mem), atR⟩
    · obtain ⟨bound, atPlaceI⟩ := atPlace atI
      exact ⟨place i, fun mem => kept ((same i bound).2 mem), atPlaceI⟩

/-- A sort does not redirect a pending mutation that is more than removals. -/
theorem sort_keepsPending {view : MutableGraphView} {calls : List Call} {session : Session}
    (navigable : view.Navigable) (recorded : ({ view := view } : Session).calls calls = .ok session)
    (ignoreCycles : Bool) (dependencies : List TopologicalDependency) :
    ((session.mutation.removedNodes = [] ∨ session.mutation.updatedNodes ≠ [] ∨ session.mutation.newNodes ≠ []) →
      KeepsPending view calls session ignoreCycles dependencies) ∧
    ∀ session' place order applied, session.mutation.updatedNodes = [] → session.mutation.newNodes = [] →
      session.sortTopologically ignoreCycles dependencies = (.ok (), session') →
      session.view.Renumbered place session'.view → session'.apply order = .ok applied →
      (KeepsPending view calls session ignoreCycles dependencies ↔
        ∀ i < view.nodes.length, i ∈ removals calls ↔ place i ∈ removals calls) := by
  obtain ⟨settledEq, removed⟩ := calls_spec navigable recorded
  have pendingNavigable := navigable.of_settled_eq settledEq
  have graphEq := congrArg MutableGraphView.graph settledEq
  change session.view.graph = view.graph at graphEq
  have sameRemaining : ∀ graph, remaining graph session.mutation.removedNodes =
      remaining graph (removals calls) := fun graph => remaining_congr removed
  refine ⟨fun condition => ?_, fun session' place order applied noUpdates noNewNodes sorted renumbered
    returned => ?_⟩
  · by_cases guarded : session.mutation.updatedNodes ≠ [] ∨ session.mutation.newNodes ≠ []
    · left
      unfold sortTopologically
      rw [if_pos guarded]
    · right
      have noUpdates : session.mutation.updatedNodes = [] := not_not.1 fun some => guarded (.inl some)
      have noNewNodes : session.mutation.newNodes = [] := not_not.1 fun some => guarded (.inr some)
      have noRemovals : session.mutation.removedNodes = [] := condition.resolve_right guarded
      intro order applied returned
      rcases sortTopologically_cases pendingNavigable noUpdates noNewNodes ignoreCycles dependencies with
        unchanged | ⟨place, view', sorted, renumbered⟩
      · rw [unchanged] at returned
        have kept := apply_removals pendingNavigable.indexed noUpdates noNewNodes returned
        rw [sameRemaining, graphEq] at kept
        exact kept
      · rw [sorted] at returned
        have indexed' := renumbered.indexed pendingNavigable.indexed
        have kept := @apply_removals order { session with view := view' } applied indexed' noUpdates
          noNewNodes returned
        have none : removals calls = [] := List.eq_nil_iff_forall_not_mem.2 fun i member => by
          rw [← removed, noRemovals] at member
          cases member
        dsimp only at kept
        rw [noRemovals, remaining_nil] at kept
        rw [none, remaining_nil, ← graphEq]
        exact kept.trans (renumbered.graph_perm pendingNavigable.indexed)
  · have length : session.view.nodes.length = view.nodes.length := by
      rw [pendingNavigable.indexed.length, graphEq, navigable.indexed.length]
    have mutationEq : session'.mutation = session.mutation := by
      rcases sortTopologically_cases pendingNavigable noUpdates noNewNodes ignoreCycles dependencies with
        unchanged | ⟨_, _, isSorted, -⟩
      · rw [sorted] at unchanged
        exact congrArg Session.mutation unchanged
      · rw [sorted] at isSorted
        have isSession : session' = _ := congrArg Prod.snd isSorted
        rw [isSession]
    have applies : ∀ order applied, session'.apply order = .ok applied →
        applied.view.graph.Perm (remaining session'.view.graph (removals calls)) := by
      intro order applied returned
      have kept := apply_removals (renumbered.indexed pendingNavigable.indexed)
        (by rw [mutationEq]; exact noUpdates) (by rw [mutationEq]; exact noNewNodes) returned
      rw [mutationEq, sameRemaining] at kept
      exact kept
    rw [← length, ← remaining_perm_iff pendingNavigable.indexed renumbered, graphEq]
    unfold KeepsPending
    rw [sorted]
    refine ⟨fun keeps => ?_, fun same => .inr fun order applied returned =>
      (applies order applied returned).trans same⟩
    rcases keeps with refused | keeps
    · cases refused
    · exact (applies order applied returned).symm.trans (keeps order applied returned)

/-- Two readers of a node, listed before it. -/
def readersGraph : GraphDef :=
  [⟨"y", "Relu", "", [⟨"x", .port 0⟩], ∅⟩, ⟨"q", "Relu", "", [⟨"x", .port 0⟩], ∅⟩, ⟨"x", "Placeholder", "", [], ∅⟩]

def listedOrder : HashOrder := ⟨id, id, List.Perm.refl, List.Perm.refl⟩

/-- With an update pending the sort is refused. -/
theorem readersGraph_refused : ∃ view session, construct readersGraph = .ok view ∧
    ({ view := view } : Session).calls [.removeNode 1, .edit 0 (.updateOp "Elu")] = .ok session ∧
    session.mutation.updatedNodes ≠ [] ∧
    KeepsPending view [.removeNode 1, .edit 0 (.updateOp "Elu")] session false [] := by
  obtain ⟨view, session, built, recorded, updates⟩ : ∃ view session, construct readersGraph = .ok view ∧
      ({ view := view } : Session).calls [.removeNode 1, .edit 0 (.updateOp "Elu")] = .ok session ∧
      session.mutation.updatedNodes ≠ [] := ⟨_, _, rfl, rfl, List.cons_ne_nil _ _⟩
  exact ⟨view, session, built, recorded, updates,
    (sort_keepsPending (construct_inv built).1.navigable recorded false []).1 (.inr (.inl updates))⟩

/-- `RemoveNode` of `q`, a sort, and `Apply`: it is `y` that goes. -/
theorem readersGraph_redirected : ∃ view session session' applied, construct readersGraph = .ok view ∧
    ({ view := view } : Session).calls [.removeNode 1] = .ok session ∧
    session.sortTopologically false [] = (.ok (), session') ∧ session'.apply listedOrder = .ok applied ∧
    applied.view.graph.map (fun stored => stored.nodeDef.name) = ["x", "q"] ∧
    ¬ KeepsPending view [.removeNode 1] session false [] := by
  obtain ⟨view, session, session', applied, built, recorded, sorted, returned, left, called⟩ :
      ∃ view session session' applied, construct readersGraph = .ok view ∧
        ({ view := view } : Session).calls [.removeNode 1] = .ok session ∧
        session.sortTopologically false [] = (.ok (), session') ∧ session'.apply listedOrder = .ok applied ∧
        applied.view.graph.map (fun stored => stored.nodeDef.name) = ["x", "q"] ∧
        (remaining view.graph (removals [.removeNode 1])).map (fun stored => stored.nodeDef.name) = ["y", "x"] :=
    ⟨_, _, _, _, rfl, rfl, rfl, rfl, rfl, rfl⟩
  refine ⟨view, session, session', applied, built, recorded, sorted, returned, left, fun keeps => ?_⟩
  rcases keeps with refused | keeps
  · rw [sorted] at refused
    cases refused
  · rw [sorted] at keeps
    have names := (keeps listedOrder applied returned).map fun stored => stored.nodeDef.name
    rw [left, called] at names
    exact absurd names (by decide)

/-- Whatever was called on the way, what is pending at the end decides. -/
theorem apply_leaves_remaining {graph : GraphDef} {view : MutableGraphView} {calls : List Call} {session applied : Session}
    {order : HashOrder} (built : construct graph = .ok view)
    (recorded : ({ view := view } : Session).calls calls = .ok session)
    (noUpdates : session.mutation.updatedNodes = []) (noNewNodes : session.mutation.newNodes = [])
    (returned : session.apply order = .ok applied) :
    applied.view.graph.Perm (remaining view.graph (removals calls)) := by
  have navigable := (construct_inv built).1.navigable
  obtain ⟨same, removed⟩ := calls_spec navigable recorded
  have sameGraph : session.view.graph = view.graph := by
    injection same
  have kept := apply_removals (navigable.of_settled_eq same).indexed noUpdates noNewNodes returned
  rw [remaining_congr removed, sameGraph] at kept
  exact kept

/-- `q` is changed and then removed. -/
theorem readersGraph_without_q : ∃ (view : MutableGraphView) (applied : Session), construct readersGraph = .ok view ∧
    applied.view.graph.Perm (remaining view.graph [1]) := by
  obtain ⟨view, session, applied, built, recorded, updates, news, returned⟩ : ∃ view session applied,
      construct readersGraph = .ok view ∧
      ({ view := view } : Session).calls [.edit 1 (.updateOp "Elu"), .removeNode 1] = .ok session ∧
      session.mutation.updatedNodes = [] ∧ session.mutation.newNodes = [] ∧
      session.apply listedOrder = .ok applied := ⟨_, _, _, rfl, rfl, rfl, rfl, rfl⟩
  exact ⟨view, applied, built, apply_leaves_remaining built recorded updates news returned⟩

end Session

end Itex.GraphUtils
