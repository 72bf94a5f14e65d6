import Itex.GraphUtils.Construction
import Itex.GraphUtils.SortTraversal

/-!
Contract: `SortTopologically` sorts.

Owns: the edges that an order has to respect, in terms of the nodes' inputs; when the sort
fails; and what it does to the view when it does not.
-/

namespace Itex.GraphUtils

open Itex.Graph (require NodeDef GraphDef require_eq_ok)
open Itex.Lib Relation

namespace MutableGraphView

variable {config : PostOrder.Config Nat} {n u v : Nat} {traversal : Traversal}

section Edges

variable (view : MutableGraphView) (dependencies : List TopologicalDependency)

/-- A regular, control or extra-dependency edge. -/
def GraphEdge (u v : Nat) : Prop :=
  view.Reads v u ∨ view.ControlledBy v u ∨ ∃ dependency ∈ dependencies, dependency.from_ = u ∧ dependency.to_ = v

/-- An edge of the graph without `NextIteration -> Merge`. -/
def CutEdge (u v : Nat) : Prop := view.GraphEdge dependencies u v ∧ view.isCut u v = false

/-- A node without fanins. -/
def IsSource (i : Nat) : Prop := ∃ def_, view.nodeDef? i = some def_ ∧ def_.input = []

def Valid (dependency : TopologicalDependency) : Prop :=
  dependency.ofThisView = true ∧ dependency.from_ ≠ dependency.to_ ∧
    0 ≤ dependency.from_ ∧ dependency.from_ < view.nodes.length ∧
    0 ≤ dependency.to_ ∧ dependency.to_ < view.nodes.length

end Edges

def indexPairs (dependencies : List TopologicalDependency) : List (Nat × Nat) :=
  dependencies.map fun dependency => (dependency.from_.toNat, dependency.to_.toNat)

section Spec

variable {view : MutableGraphView} {dependencies : List TopologicalDependency}

theorem mapM_checkDependency (valid : ∀ dependency ∈ dependencies, view.Valid dependency) :
    dependencies.mapM (checkDependency view.nodes.length) = .ok (indexPairs dependencies) := by
  apply mapM_eq_map
  intro dependency mem
  unfold checkDependency
  rw [bind_ok]
  exact ⟨(), require_eq_ok.2 (valid dependency mem), rfl⟩

theorem Navigable.bounded (navigable : view.Navigable) (valid : ∀ dependency ∈ dependencies, view.Valid dependency) :
    view.Bounded (indexPairs dependencies) := by
  refine ⟨fun node mem => navigable.inRange mem, fun pair mem => ?_⟩
  obtain ⟨dependency, listed, rfl⟩ := List.mem_map.1 mem
  have bounds := valid dependency listed
  show dependency.to_.toNat < view.nodes.length
  have := bounds.2.2.2.2
  omega

/-- The consumer at a fanout has an input for it. -/
theorem Navigable.reads_of_fanout (navigable : view.Navigable) {p port j : Nat} {fanout : Fanout}
    (atFanout : view.fanout p port j = some fanout) : view.Reads fanout.nodeIndex p := by
  have atFanin := navigable.linked.fanout atFanout
  obtain ⟨producer, atP⟩ := navigable.indexed.nodeDef? (bound_of_fanout atFanout)
  obtain ⟨consumer, atC⟩ := navigable.indexed.nodeDef? (bound_of_fanin atFanin)
  obtain ⟨node, atNode⟩ := navigable.indexed.node atC
  refine ⟨consumer, producer, port, atC, atP, ?_⟩
  rw [navigable.inputs atNode atC]
  apply List.mem_append_left
  rw [MutableGraphView.fanin, field_of_getElem? atNode] at atFanin
  apply List.mem_map.2
  refine ⟨_, List.mem_of_getElem? atFanin, ?_⟩
  rw [nameAt_of_nodeDef? atP]

theorem Navigable.controlledBy_of_controlled (navigable : view.Navigable) {p j : Nat}
    {fanout : Fanout} (atFanout : view.controlled p j = some fanout) : view.ControlledBy fanout.nodeIndex p := by
  have atFanin := navigable.linked.controlled atFanout
  obtain ⟨producer, atP⟩ := navigable.indexed.nodeDef? (bound_of_controlled atFanout)
  obtain ⟨consumer, atC⟩ := navigable.indexed.nodeDef? (bound_of_control atFanin)
  obtain ⟨node, atNode⟩ := navigable.indexed.node atC
  refine ⟨consumer, producer, atC, atP, ?_⟩
  rw [navigable.inputs atNode atC]
  apply List.mem_append_right
  rw [MutableGraphView.control, field_of_getElem? atNode] at atFanin
  apply List.mem_map.2
  refine ⟨_, List.mem_of_getElem? atFanin, ?_⟩
  rw [nameAt_of_nodeDef? atP]

theorem mem_extraDependenciesByParent (valid : ∀ dependency ∈ dependencies, view.Valid dependency) :
    v ∈ extraDependenciesByParent (indexPairs dependencies) u ↔
      ∃ dependency ∈ dependencies, dependency.from_ = u ∧ dependency.to_ = v := by
  unfold extraDependenciesByParent indexPairs
  rw [List.mem_map]
  refine ⟨fun ⟨pair, listed, isV⟩ => ?_, fun ⟨dependency, listed, isU, isV⟩ => ?_⟩
  · obtain ⟨mapped, isU⟩ := List.mem_filter.1 listed
    obtain ⟨dependency, mem, rfl⟩ := List.mem_map.1 mapped
    have bounds := valid dependency mem
    have isU : dependency.from_.toNat = u := by simpa using isU
    have isV : dependency.to_.toNat = v := isV
    exact ⟨dependency, mem, by rw [← isU, Int.toNat_of_nonneg bounds.2.2.1],
      by rw [← isV, Int.toNat_of_nonneg bounds.2.2.2.2.1]⟩
  · refine ⟨(u, v), List.mem_filter.2 ⟨List.mem_map.2 ⟨dependency, listed, ?_⟩, by simp⟩, rfl⟩
    rw [isU, isV]
    rfl

theorem bound_of_nodeDef? (indexed : view.Indexed) {i : Nat} {def_ : NodeDef}
    (atDef : view.nodeDef? i = some def_) : i < view.nodes.length := by
  obtain ⟨node, atNode⟩ := indexed.node atDef
  exact read_lt atNode

theorem bound_of_graphEdge (indexed : view.Indexed) (valid : ∀ dependency ∈ dependencies, view.Valid dependency)
    (edge : view.GraphEdge dependencies u v) : u < view.nodes.length ∧ v < view.nodes.length := by
  rcases edge with ⟨_, _, _, atV, atU, -⟩ | ⟨_, _, atV, atU, -⟩ | ⟨dependency, listed, isU, isV⟩
  · exact ⟨bound_of_nodeDef? indexed atU, bound_of_nodeDef? indexed atV⟩
  · exact ⟨bound_of_nodeDef? indexed atU, bound_of_nodeDef? indexed atV⟩
  · have bounds := (valid dependency listed).2.2
    omega

/-- The traversal follows exactly the edges of the cut graph. -/
theorem mem_next_iff (navigable : view.Navigable)
    (valid : ∀ dependency ∈ dependencies, view.Valid dependency) (u v : Nat) :
    v ∈ view.next (indexPairs dependencies) u ↔ view.CutEdge dependencies u v := by
  have split : ∀ node, view.nodes[u]? = some node →
      (v ∈ node.fanoutIndices (extraDependenciesByParent (indexPairs dependencies) u) ↔
        view.GraphEdge dependencies u v) := by
    intro node atNode
    unfold MutableNodeView.fanoutIndices GraphEdge
    rw [List.mem_append, List.mem_append, or_assoc, mem_extraDependenciesByParent valid]
    refine or_congr ⟨fun regular => ?_, fun reads => ?_⟩
      (or_congr ⟨fun controlled => ?_, fun controls => ?_⟩ Iff.rfl)
    · obtain ⟨fanout, inner, rfl⟩ := List.mem_map.1 regular
      obtain ⟨fanouts, outer, inner⟩ := List.mem_flatten.1 inner
      obtain ⟨port, atPort⟩ := List.mem_iff_getElem?.1 outer
      obtain ⟨j, atJ⟩ := List.mem_iff_getElem?.1 inner
      have atFanout : view.fanout u port j = some fanout := by
        rw [MutableGraphView.fanout, field_of_getElem? atNode, Option.bind_some, atPort]
        exact atJ
      exact navigable.reads_of_fanout atFanout
    · obtain ⟨port, j, k, atFanout⟩ := navigable.fanout_of_reads reads
      rw [MutableGraphView.fanout, field_of_getElem? atNode, Option.bind_some] at atFanout
      obtain ⟨fanouts, atPort, atJ⟩ := Option.bind_eq_some_iff.1 atFanout
      exact List.mem_map.2 ⟨_, List.mem_flatten.2 ⟨fanouts, List.mem_of_getElem? atPort,
        List.mem_of_getElem? atJ⟩, rfl⟩
    · obtain ⟨fanout, inner, rfl⟩ := List.mem_map.1 controlled
      obtain ⟨j, atJ⟩ := List.mem_iff_getElem?.1 inner
      have atFanout : view.controlled u j = some fanout := by
        rw [MutableGraphView.controlled, field_of_getElem? atNode]
        exact atJ
      exact navigable.controlledBy_of_controlled atFanout
    · obtain ⟨j, k, atFanout⟩ := navigable.controlled_of_controlledBy controls
      rw [MutableGraphView.controlled, field_of_getElem? atNode, Option.bind_some] at atFanout
      exact List.mem_map.2 ⟨_, List.mem_of_getElem? atFanout, rfl⟩
  unfold next CutEdge
  cases atNode : view.nodes[u]? with
  | none =>
    have outside : ¬ u < view.nodes.length := by
      rw [Nat.not_lt]
      exact List.getElem?_eq_none_iff.1 atNode
    simp only [List.not_mem_nil, false_iff]
    exact fun edge => outside (bound_of_graphEdge navigable.indexed valid edge.1).1
  | some node =>
    simp only [List.mem_filter, split node atNode, Bool.not_eq_true']

theorem mem_sources_iff (navigable : view.Navigable) (i : Nat) : i ∈ view.sources ↔ view.IsSource i := by
  have inputs_nil : ∀ {j : Nat} {node : MutableNodeView} {def_ : NodeDef}, view.nodes[j]? = some node →
      view.nodeDef? j = some def_ →
      (def_.input = [] ↔ node.regularFanins.length + node.controllingFanins.length = 0) := by
    intro j node def_ atNode atDef
    rw [navigable.inputs atNode atDef, ← List.length_eq_zero_iff]
    unfold inputsOf
    rw [List.length_append, List.length_map, List.length_map]
  unfold sources IsSource
  rw [List.mem_map]
  refine ⟨fun ⟨node, listed, isI⟩ => ?_, fun ⟨def_, atDef, noInput⟩ => ?_⟩
  · obtain ⟨mem, noFanin⟩ := List.mem_filter.1 listed
    obtain ⟨j, atNode⟩ := List.mem_iff_getElem?.1 (List.mem_reverse.1 mem)
    have isJ := navigable.indexed.nodeIndex atNode
    obtain ⟨def_, atDef⟩ := navigable.indexed.nodeDef? (read_lt atNode)
    rw [← isI, isJ]
    exact ⟨def_, atDef, (inputs_nil atNode atDef).2 (by simpa using noFanin)⟩
  · obtain ⟨node, atNode⟩ := navigable.indexed.node atDef
    refine ⟨node, List.mem_filter.2 ⟨List.mem_reverse.2 (List.mem_of_getElem? atNode), ?_⟩,
      navigable.indexed.nodeIndex atNode⟩
    simpa using (inputs_nil atNode atDef).1 noInput

/-! ## The order -/

theorem simulates_start (n : Nat) :
    Simulates n { order := List.replicate n 0, traversalState := List.replicate n .pending, currPos := n }
      { mark := fun _ => .pending } := by
  refine ⟨?_, by simp, by simp, by simp, by simp, rfl, by simp⟩
  intro i bound
  simp [bound]

theorem Simulates.currPos_eq_zero_iff
    (simulates : Simulates n traversal config) (once : config.finished.Nodup) :
    traversal.currPos = 0 ↔ ∀ v < n, v ∈ config.finished := by
  have count := simulates.currPos
  have within : config.finished.Subperm (List.range n) :=
    List.subperm_of_subset once fun v mem => List.mem_range.2 (simulates.inside v mem)
  refine ⟨fun isDone v bound => ?_, fun all => ?_⟩
  · have isPerm := within.perm_of_length_le (by rw [List.length_range]; omega)
    exact isPerm.mem_iff.2 (List.mem_range.2 bound)
  · have other : (List.range n).Subperm config.finished :=
      List.subperm_of_subset List.nodup_range fun v mem => all v (List.mem_range.1 mem)
    have le := other.length_le
    rw [List.length_range] at le
    omega

theorem Simulates.place_eq (simulates : Simulates n traversal config) (finished : v ∈ config.finished) :
    traversal.order[v]? = some (n - 1 - config.finished.idxOf v) := by
  apply simulates.order
  rw [List.getElem?_eq_getElem (List.idxOf_lt_length_iff.2 finished), List.getElem_idxOf]

theorem Simulates.isOrder
    (simulates : Simulates n traversal config) (all : ∀ v < n, v ∈ config.finished) : IsOrder n traversal.order := by
  have length := simulates.currPos
  have position : ∀ v < n, config.finished.idxOf v < n := by
    intro v bound
    have := List.idxOf_lt_length_iff.2 (all v bound)
    omega
  refine ⟨simulates.orderLength, ?_, ?_⟩
  · rw [List.nodup_iff_injective_getElem]
    intro ⟨i, boundI⟩ ⟨j, boundJ⟩ same
    rw [simulates.orderLength] at boundI boundJ
    have atI := simulates.place_eq (all i boundI)
    have atJ := simulates.place_eq (all j boundJ)
    rw [List.getElem?_eq_getElem] at atI atJ
    have equal : n - 1 - config.finished.idxOf i = n - 1 - config.finished.idxOf j := by
      rw [← Option.some.inj atI, ← Option.some.inj atJ]
      exact same
    have samePosition : config.finished.idxOf i = config.finished.idxOf j := by
      have := position i boundI
      have := position j boundJ
      omega
    rw [Fin.mk.injEq]
    exact (List.idxOf_inj (all i boundI)).1 samePosition
  · intro r mem
    obtain ⟨i, atI⟩ := List.mem_iff_getElem?.1 mem
    have bound : i < n := simulates.orderLength ▸ read_lt atI
    rw [simulates.place_eq (all i bound)] at atI
    have := position i bound
    have := Option.some.inj atI
    omega

def OnCommonCycle (edge : Nat → Nat → Prop) (u v : Nat) : Prop := TransGen edge u v ∧ TransGen edge v u

theorem onCommonCycle_of_back {edge : Nat → Nat → Prop} (forward : edge u v)
    (back : ReflTransGen edge v u) : OnCommonCycle edge u v := by
  refine ⟨.single forward, ?_⟩
  rcases reflTransGen_iff_eq_or_transGen.1 back with same | path
  · rw [← same]
    exact .single (by rw [← same] at forward; exact forward)
  · exact path

/-- In the order that a complete traversal leaves, edges go forward except on cycles. -/
theorem forward_of_traversed (navigable : view.Navigable)
    (valid : ∀ dependency ∈ dependencies, view.Valid dependency)
    {roots : List Nat} (simulates : Simulates view.nodes.length traversal config)
    (done : PostOrder.Traversed (view.next (indexPairs dependencies)) roots config)
    (all : ∀ v < view.nodes.length, v ∈ config.finished) (edge : view.CutEdge dependencies u v) :
    place traversal.order u < place traversal.order v ∨ OnCommonCycle (view.CutEdge dependencies) u v := by
  obtain ⟨boundU, boundV⟩ := bound_of_graphEdge navigable.indexed valid edge.1
  have isEdge : PostOrder.Edge (view.next (indexPairs dependencies)) = view.CutEdge dependencies := by
    funext x y
    exact propext (mem_next_iff navigable valid x y)
  rcases done.before (all u boundU) ((mem_next_iff navigable valid u v).2 edge) with order | back
  · left
    rw [place_of_getElem? (simulates.place_eq (all u boundU)), place_of_getElem? (simulates.place_eq (all v boundV))]
    have := List.idxOf_lt_length_iff.2 (all u boundU)
    have := simulates.currPos
    omega
  · right
    rw [isEdge] at back
    exact onCommonCycle_of_back edge back

def ReachesCycle (view : MutableGraphView) (dependencies : List TopologicalDependency) : Prop :=
  ∃ source u, view.IsSource source ∧ ReflTransGen (view.CutEdge dependencies) source u ∧
    TransGen (view.CutEdge dependencies) u u

/-- The sources do not reach some node. -/
def MissesNode (view : MutableGraphView) (dependencies : List TopologicalDependency) : Prop :=
  ∃ u < view.nodes.length, ¬ ∃ source, view.IsSource source ∧ ReflTransGen (view.CutEdge dependencies) source u

theorem topologicalOrder_spec (navigable : view.Navigable)
    (valid : ∀ dependency ∈ dependencies, view.Valid dependency) (ignoreCycles : Bool) :
    (∃ message, view.topologicalOrder ignoreCycles dependencies = .error (sortError message) ∧ ignoreCycles = false ∧
        (view.ReachesCycle dependencies ∨ view.MissesNode dependencies)) ∨
      ∃ order, view.topologicalOrder ignoreCycles dependencies = .ok order ∧ IsOrder view.nodes.length order ∧
        (ignoreCycles = false → ¬ view.ReachesCycle dependencies ∧ ¬ view.MissesNode dependencies) ∧
        ∀ u v, view.CutEdge dependencies u v → place order u < place order v ∨
          OnCommonCycle (view.CutEdge dependencies) u v := by
  have bounded := navigable.bounded valid
  have isEdge : PostOrder.Edge (view.next (indexPairs dependencies)) = view.CutEdge dependencies := by
    funext x y
    exact propext (mem_next_iff navigable valid x y)
  have sourceBound : ∀ root ∈ view.sources, root < view.nodes.length := by
    intro root mem
    obtain ⟨def_, atDef, -⟩ := (mem_sources_iff navigable root).1 mem
    exact bound_of_nodeDef? navigable.indexed atDef
  obtain ⟨traversal, config, ran, simulates, done⟩ := foldlM_reversedPostorderDfs view.sources
    navigable.indexed bounded (PostOrder.traversed_nil _) sourceBound
    (simulates_start view.nodes.length)
  rw [List.nil_append] at done
  have reached : ∀ v, v ∈ config.finished ↔ ∃ source, view.IsSource source ∧
      ReflTransGen (view.CutEdge dependencies) source v := by
    intro v
    rw [done.mem_finished, isEdge]
    exact exists_congr fun root => and_congr_left fun _ => mem_sources_iff navigable root
  have cycleIff : traversal.edgesInCycle = [] ↔ ¬ view.ReachesCycle dependencies := by
    rw [simulates.edgesInCycle, done.back_eq_nil_iff, isEdge]
    refine ⟨fun none ⟨source, u, isSource, path, cycle⟩ => ?_, fun none u finished cycle => ?_⟩
    · exact none u ((reached u).2 ⟨source, isSource, path⟩) cycle
    · obtain ⟨source, isSource, path⟩ := (reached u).1 finished
      exact none ⟨source, u, isSource, path, cycle⟩
  have missIff : traversal.currPos = 0 ↔ ¬ view.MissesNode dependencies := by
    rw [simulates.currPos_eq_zero_iff done.inv.once]
    refine ⟨fun all ⟨u, bound, missed⟩ => missed ((reached u).1 (all u bound)), fun none u bound => ?_⟩
    rw [reached]
    exact not_not.1 fun missed => none ⟨u, bound, missed⟩
  unfold topologicalOrder
  dsimp only
  rw [mapM_checkDependency valid]
  simp only [bind, Except.bind]
  rw [ran]
  dsimp only
  by_cases fails : ignoreCycles = true ∨ traversal.edgesInCycle = []
  · rw [show require (ignoreCycles = true ∨ traversal.edgesInCycle = []) _ = .ok () from if_pos fails]
    dsimp only
    by_cases isDone : traversal.currPos = 0
    · rw [if_pos isDone]
      right
      have all := (simulates.currPos_eq_zero_iff done.inv.once).1 isDone
      refine ⟨_, rfl, simulates.isOrder all, fun strict => ⟨?_, missIff.1 isDone⟩, fun u v edge =>
        forward_of_traversed navigable valid simulates done all edge⟩
      exact cycleIff.1 (fails.resolve_left (by rw [strict]; simp))
    · rw [if_neg isDone]
      cases ignoreCycles with
      | false =>
        left
        exact ⟨_, rfl, rfl, .inr (not_not.1 fun none => isDone (missIff.2 none))⟩
      | true =>
        right
        -- The second run starts from every node.
        obtain ⟨final, config', ran', simulates', done'⟩ := foldlM_reversedPostorderDfs
          (view.nodes.map MutableNodeView.nodeIndex) navigable.indexed bounded done
          (fun root mem => by
            obtain ⟨node, listed, rfl⟩ := List.mem_map.1 mem
            exact (navigable.inRange listed).nodeIndex) simulates
        have all : ∀ v < view.nodes.length, v ∈ config'.finished := by
          intro v bound
          rw [done'.mem_finished]
          have atNode : view.nodes[v]? = some _ := List.getElem?_eq_getElem bound
          refine ⟨v, List.mem_append_right _ (List.mem_map.2 ⟨_, List.mem_of_getElem? atNode, ?_⟩), .refl⟩
          exact navigable.indexed.nodeIndex atNode
        rw [show require (true = true) _ = .ok () from if_pos rfl]
        dsimp only
        rw [ran']
        refine ⟨_, rfl, simulates'.isOrder all, fun strict => ?_, fun u v edge =>
          forward_of_traversed navigable valid simulates' done' all edge⟩
        cases strict
  · rw [show require (ignoreCycles = true ∨ traversal.edgesInCycle = []) _ = .error _ from if_neg fails]
    simp_all

end Spec

end MutableGraphView

namespace Session

open MutableGraphView

/-- `SortTopologically` is a correct sort. -/
theorem sortTopologically_correct {session : Session} {dependencies : List TopologicalDependency}
    (navigable : session.view.Navigable) (noUpdates : session.mutation.updatedNodes = [])
    (noNewNodes : session.mutation.newNodes = [])
    (valid : ∀ dependency ∈ dependencies, session.view.Valid dependency) (ignoreCycles : Bool) :
    (∀ session', session.sortTopologically ignoreCycles dependencies = (.ok (), session') →
      ∃ place, session.view.Renumbered place session'.view ∧ session'.mutation = session.mutation ∧
        session'.view.graph.Perm session.view.graph ∧ session'.view.Navigable ∧ (session.view.Inv → session'.view.Inv) ∧
        ∀ u v, session.view.CutEdge dependencies u v → place u < place v ∨
          ignoreCycles = true ∧ OnCommonCycle (session.view.CutEdge dependencies) u v) ∧
    ((∃ message, session.sortTopologically ignoreCycles dependencies = (.error (sortError message), session)) ∨
      ∃ session', session.sortTopologically ignoreCycles dependencies = (.ok (), session')) ∧ (ignoreCycles = true →
      ∃ session', session.sortTopologically ignoreCycles dependencies = (.ok (), session')) ∧ (ignoreCycles = false →
      ((∃ message, session.sortTopologically ignoreCycles dependencies = (.error (sortError message), session)) ↔
        session.view.ReachesCycle dependencies ∨ session.view.MissesNode dependencies)) := by
  have unguarded : ¬ (session.mutation.updatedNodes ≠ [] ∨ session.mutation.newNodes ≠ []) := by
    simp [noUpdates, noNewNodes]
  unfold sortTopologically
  rw [if_neg unguarded]
  rcases topologicalOrder_spec navigable valid ignoreCycles with
    ⟨message, isError, strict, bad⟩ | ⟨order, isOk, isOrder, strict, forward⟩
  · rw [isError]
    dsimp only
    refine ⟨fun _ sorted => ?_, .inl ⟨message, rfl⟩, fun ignores => ?_, fun _ => ?_⟩
    · cases sorted
    · rw [strict] at ignores
      cases ignores
    · exact ⟨fun _ => bad, fun _ => ⟨message, rfl⟩⟩
  · obtain ⟨view', permuted, renumbered⟩ := permuteNodes_spec navigable.indexed isOrder
      fun node member => navigable.inRange member
    rw [isOk]
    dsimp only
    rw [permuted]
    dsimp only
    refine ⟨fun session' sorted => ?_, .inr ⟨_, rfl⟩, fun _ => ⟨_, rfl⟩, fun notIgnored => ?_⟩
    · cases sorted
      refine ⟨place order, renumbered, rfl, renumbered.graph_perm navigable.indexed,
        renumbered.navigable navigable, renumbered.inv, fun u v edge => ?_⟩
      rcases forward u v edge with before | cycle
      · exact .inl before
      · cases ignoreCycles with
        | true => exact .inr ⟨rfl, cycle⟩
        | false =>
          -- `u` would be on a cycle that a source reaches.
          obtain ⟨noCycle, noMiss⟩ := strict rfl
          have bound := (bound_of_graphEdge navigable.indexed valid edge.1).1
          obtain ⟨source, isSource, path⟩ := not_not.1 fun missed => noMiss ⟨u, bound, missed⟩
          exact absurd ⟨source, u, isSource, path, cycle.1.trans cycle.2⟩ noCycle
    · obtain ⟨noCycle, noMiss⟩ := strict notIgnored
      refine ⟨fun ⟨message, failed⟩ => ?_, fun bad => ?_⟩
      · cases failed
      · exact (bad.elim noCycle noMiss).elim

/-- A loop, listed backwards. -/
def loopGraph : GraphDef :=
  [⟨"exit", "Exit", "", [⟨"merge", .port 0⟩], ∅⟩, ⟨"next", "NextIteration", "", [⟨"merge", .port 0⟩], ∅⟩,
    ⟨"merge", "Merge", "", [⟨"enter", .port 0⟩, ⟨"next", .port 0⟩], ∅⟩,
    ⟨"enter", "Enter", "", [], ∅⟩]

theorem loopGraph_sorted : ∃ view session', construct loopGraph = .ok view ∧
    ({ view := view } : Session).sortTopologically false [⟨true, 0, 1⟩] = (.ok (), session') ∧
    session'.view.graph.map (fun stored => stored.nodeDef.name) = ["enter", "merge", "exit", "next"] ∧
    view.CutEdge [⟨true, 0, 1⟩] 0 1 ∧
    ∃ place, view.Renumbered place session'.view ∧ session'.view.Inv ∧ place 0 < place 1 := by
  -- The view stays a variable where the theorem is applied.
  obtain ⟨view, session', built, length, sorted, names, uncut⟩ : ∃ view session', construct loopGraph = .ok view ∧
      view.nodes.length = 4 ∧ ({ view := view } : Session).sortTopologically false [⟨true, 0, 1⟩] = (.ok (), session') ∧
      session'.view.graph.map (fun stored => stored.nodeDef.name) = ["enter", "merge", "exit", "next"] ∧
      view.isCut 0 1 = false := ⟨_, _, rfl, rfl, rfl, rfl, rfl⟩
  have edge : view.CutEdge [⟨true, 0, 1⟩] 0 1 := ⟨.inr (.inr ⟨_, List.mem_singleton_self _, rfl, rfl⟩), uncut⟩
  have inv := (construct_inv built).1
  have valid : ∀ dependency ∈ [(⟨true, 0, 1⟩ : TopologicalDependency)], view.Valid dependency := by
    intro dependency member
    rw [List.mem_singleton.1 member]
    unfold Valid
    rw [length]
    decide
  obtain ⟨place, renumbered, -, -, -, kept, forward⟩ :=
    (@sortTopologically_correct ⟨view, {}⟩ _ inv.navigable rfl rfl valid false).1 session' sorted
  refine ⟨view, session', built, sorted, names, edge, place, renumbered, kept inv, ?_⟩
  rcases forward 0 1 edge with before | ignored
  · exact before
  · cases ignored.1

end Session

end Itex.GraphUtils
