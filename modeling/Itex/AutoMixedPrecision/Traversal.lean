import Itex.Lib.DiscoveryForest
import Itex.AutoMixedPrecision.Wiring

/-!
Contract: `DfsTypeTraversal` under predicates that are fixed.

Owns: that it ends, and which calls it makes in which order.
-/

namespace Itex.AutoMixedPrecision.GraphTypeTopologyView

open Itex.Lib.DepthFirst

/-- The stack runs empty. The nodes entered are those on paths of entered nodes from a start node that
are advanced from up to the last, each gets one call before and one after, and between the two are
both calls of the nodes first discovered below it. -/
theorem dfsTypeTraversal_calls {view : GraphTypeTopologyView} (wf : view.WellFormed) (start : List NodeTypeId)
    (direction : TypeTraversalDirection) (enter advance : Nat → Bool) :
    let roots := start.filterMap view.indexOf
    let next := view.neighbours direction
    let calls := view.dfsTypeTraversal start direction (.recorder enter advance) []
    (∃ mark, loop (.recorder enter advance) next (budget (List.range view.numNodes) next roots)
        (Config.initial roots []) = ⟨[], mark, calls⟩) ∧
      (pres calls).Nodup ∧ (posts calls).Perm (pres calls) ∧
      (∀ i, i ∈ pres calls ↔
        Reach (advancing advance next) (enter · = true) (fun r => r ∈ roots ∧ enter r = true) i) ∧
      ∀ i ∈ pres calls, ∃ before below after, calls = before ++ .pre i :: below ++ .post i :: after ∧
        Forest (advancing advance next) (· ∈ advancing advance next i) below ∧ (posts below).Perm (pres below) := by
  intro roots next calls
  have rootsListed : ∀ r ∈ roots, r ∈ List.range view.numNodes := by
    intro r mem
    obtain ⟨item, -, isIndex⟩ := List.mem_filterMap.1 mem
    exact List.mem_range.2 (Lib.read_lt (wf.indexOf_eq_some.1 isIndex))
  have nextListed : ∀ i ∈ List.range view.numNodes, ∀ j ∈ next i, j ∈ List.range view.numNodes := fun _ _ _ edge =>
    List.mem_range.2 (wf.neighbours_lt direction edge)
  obtain ⟨emptied, forest, nodup, reached⟩ := recorder_spec rootsListed nextListed enter advance
  have ended : ∀ final : Lib.DepthFirst.Config Nat (List (Call Nat)), final.stack = [] → final = ⟨[], final.mark, final.state⟩ := by
    rintro ⟨stack, mark, state⟩ rfl
    rfl
  refine ⟨⟨_, ended _ emptied⟩, nodup, forest.posts_perm, reached, ?_⟩
  intro i called
  obtain ⟨before, below, after, split, inner⟩ := forest.enclosed called
  exact ⟨before, below, after, split, inner, inner.posts_perm⟩

/-- A node that reads itself. -/
def selfLoop : GraphTypeTopologyView := ⟨["loop"], [⟨0, .single "T"⟩], [(0, 0)]⟩

theorem dfsTypeTraversal_calls_selfLoop : (pres (selfLoop.dfsTypeTraversal [⟨0, .single "T"⟩] .followInputs
    (.recorder (fun _ => true) fun _ => true) [])).Nodup :=
  (@dfsTypeTraversal_calls selfLoop ⟨by decide, by decide, by decide, by decide⟩ _ _ _ _).2.1

end Itex.AutoMixedPrecision.GraphTypeTopologyView
