import Itex.GraphUtils.Renumbering

/-!
Contract: the traversal of `SortTopologically`.

Owns: the edges it follows, that it runs as the generic traversal does, and when it finds
an order.
-/

namespace Itex.GraphUtils

open Itex.Lib Relation

namespace MutableGraphView

variable {currIndex i n : Nat} {roots : List Nat}

/-- `NextIteration -> Merge`. -/
def isCut (view : MutableGraphView) (u v : Nat) : Bool :=
  (view.nodeDef? u).any isNextIteration && (view.nodeDef? v).any isMerge

/-- The nodes that the traversal goes to from a node. -/
def next (view : MutableGraphView) (extraDependencies : List (Nat × Nat)) (i : Nat) : List Nat :=
  match view.nodes[i]? with
  | none => []
  | some node =>
    (node.fanoutIndices (extraDependenciesByParent extraDependencies i)).filter fun w =>
      !view.isCut i w

/-! ## Simulation -/

/-- The variables of the source stand for the configuration of the generic traversal: a node
that was finished as number `k` has index `n - 1 - k` in the new order. -/
structure Simulates (n : Nat) (traversal : Traversal) (config : PostOrder.Config Nat) : Prop where
  marks : ∀ i < n, traversal.traversalState[i]? = some (config.mark i)
  marksLength : traversal.traversalState.length = n
  order : ∀ {k v : Nat}, config.finished[k]? = some v → traversal.order[v]? = some (n - 1 - k)
  orderLength : traversal.order.length = n
  currPos : traversal.currPos + config.finished.length = n
  edgesInCycle : traversal.edgesInCycle = config.back
  inside : ∀ v ∈ config.finished, v < n

section Simulation

variable {view : MutableGraphView} {extraDependencies : List (Nat × Nat)}
variable {traversal : Traversal} {config : PostOrder.Config Nat}

theorem pushOntoStack_simulates (indexed : view.Indexed) {fanoutIndex : Nat}
    (currBound : currIndex < view.nodes.length) (fanoutBound : fanoutIndex < view.nodes.length)
    (simulates : Simulates view.nodes.length traversal config) :
    ∃ traversal', view.pushOntoStack currIndex (config.stack, traversal) fanoutIndex =
        .ok ((if view.isCut currIndex fanoutIndex then config
          else PostOrder.push currIndex config fanoutIndex).stack, traversal') ∧
      Simulates view.nodes.length traversal' (if view.isCut currIndex fanoutIndex then config
        else PostOrder.push currIndex config fanoutIndex) := by
  obtain ⟨current, atCurrent⟩ : ∃ stored, view.graph[currIndex]? = some stored :=
    ⟨_, List.getElem?_eq_getElem (indexed.length ▸ currBound)⟩
  obtain ⟨fanout, atFanout⟩ : ∃ stored, view.graph[fanoutIndex]? = some stored :=
    ⟨_, List.getElem?_eq_getElem (indexed.length ▸ fanoutBound)⟩
  have isCut : view.isCut currIndex fanoutIndex = (isNextIteration current.nodeDef && isMerge fanout.nodeDef) := by
    simp [MutableGraphView.isCut, MutableGraphView.nodeDef?, atCurrent, atFanout]
  have marked := simulates.marks fanoutIndex fanoutBound
  unfold pushOntoStack
  rw [fetch_eq_ok.2 atCurrent, fetch_eq_ok.2 atFanout, fetch_eq_ok.2 marked, isCut]
  simp only [bind, Except.bind]
  cases isNextIteration current.nodeDef && isMerge fanout.nodeDef with
  | true => exact ⟨traversal, rfl, simulates⟩
  | false =>
    simp only [Bool.false_eq_true, if_false]
    unfold PostOrder.push
    cases config.mark fanoutIndex with
    | pending =>
      refine ⟨traversal, rfl, ?_⟩
      exact ⟨simulates.1, simulates.2, simulates.3, simulates.4, simulates.5, simulates.6, simulates.7⟩
    | processing =>
      refine ⟨{ traversal with
        edgesInCycle := traversal.edgesInCycle ++ [(currIndex, fanoutIndex)] }, rfl, ?_⟩
      exact ⟨simulates.1, simulates.2, simulates.3, simulates.4, simulates.5,
        congrArg (· ++ _) simulates.6, simulates.7⟩
    | processed => exact ⟨traversal, rfl, simulates⟩

theorem pushFanouts_simulates (indexed : view.Indexed) (currBound : currIndex < view.nodes.length) :
    ∀ (fanouts : List Nat) (traversal : Traversal) (config : PostOrder.Config Nat),
      (∀ w ∈ fanouts, w < view.nodes.length) → Simulates view.nodes.length traversal config →
      ∃ traversal', fanouts.foldlM (view.pushOntoStack currIndex) (config.stack, traversal) =
          .ok (((fanouts.filter fun w => !view.isCut currIndex w).foldl (PostOrder.push currIndex)
            config).stack, traversal') ∧
        Simulates view.nodes.length traversal' ((fanouts.filter fun w => !view.isCut currIndex w).foldl
          (PostOrder.push currIndex) config) := by
  intro fanouts
  induction fanouts with
  | nil =>
    intro traversal config _ simulates
    exact ⟨traversal, rfl, simulates⟩
  | cons head tail ih =>
    intro traversal config bounds simulates
    obtain ⟨pushed, pushedOk, simulatesPushed⟩ := pushOntoStack_simulates indexed currBound
      (bounds head List.mem_cons_self) simulates
    obtain ⟨final, finalOk, simulatesFinal⟩ := ih pushed _
      (fun w mem => bounds w (List.mem_cons_of_mem _ mem)) simulatesPushed
    rw [List.foldlM_cons, pushedOk]
    refine ⟨final, ?_, ?_⟩
    · refine finalOk.trans ?_
      cases cut : view.isCut currIndex head <;> simp [cut]
    · cases cut : view.isCut currIndex head
      · simpa [cut] using simulatesFinal
      · simpa [cut] using simulatesFinal

theorem finished_lt {v : Nat} {finished : List Nat} (nodup : finished.Nodup)
    (inside : ∀ w ∈ finished, w < n) (new : v ∉ finished) (bound : v < n) : finished.length < n := by
  have more : (v :: finished).Subperm (List.range n) := by
    apply List.subperm_of_subset (List.nodup_cons.2 ⟨new, nodup⟩)
    intro w mem
    rcases List.mem_cons.1 mem with isV | earlier
    · exact List.mem_range.2 (isV ▸ bound)
    · exact List.mem_range.2 (inside w earlier)
  have le := more.length_le
  rw [List.length_cons, List.length_range] at le
  exact le

theorem Simulates.mark (simulates : Simulates n traversal config) (bound : i < n)
    (mark : PostOrder.Mark) (stack : List (Nat × Bool)) :
    Simulates n { traversal with traversalState := traversal.traversalState.set i mark }
      { config with stack := stack, mark := Function.update config.mark i mark } := by
  refine ⟨?_, ?_, simulates.order, simulates.orderLength, simulates.currPos, simulates.edgesInCycle, simulates.inside⟩
  · intro j boundJ
    show (traversal.traversalState.set i mark)[j]? = some (Function.update config.mark i mark j)
    rw [List.getElem?_set]
    by_cases same : i = j
    · rw [if_pos same, if_pos (by rw [simulates.marksLength]; exact bound), same, Function.update_self]
    · rw [if_neg same, Function.update_of_ne (Ne.symm same)]
      exact simulates.marks j boundJ
  · show (traversal.traversalState.set i mark).length = n
    rw [List.length_set, simulates.marksLength]

theorem Simulates.finish (simulates : Simulates n traversal config)
    (inv : config.finished.Nodup) (new : i ∉ config.finished) (bound : i < n)
    (stack : List (Nat × Bool)) :
    Simulates n { traversal with
        order := traversal.order.set i (traversal.currPos - 1)
        traversalState := traversal.traversalState.set i .processed
        currPos := traversal.currPos - 1 }
      { config with
        stack := stack
        mark := Function.update config.mark i .processed
        finished := config.finished ++ [i] } := by
  have marked := simulates.mark bound .processed stack
  have room := finished_lt inv simulates.inside new bound
  have position := simulates.currPos
  refine ⟨marked.marks, marked.marksLength, ?_, ?_, ?_, simulates.edgesInCycle, ?_⟩
  · intro k v atK
    show (traversal.order.set i (traversal.currPos - 1))[v]? = _
    rw [getElem?_concat_ite] at atK
    rw [List.getElem?_set]
    by_cases isLast : k = config.finished.length
    · rw [if_pos isLast] at atK
      rw [if_pos (Option.some.inj atK), if_pos (by rw [simulates.orderLength]; exact bound)]
      congr 1
      omega
    · rw [if_neg isLast] at atK
      have other : i ≠ v := by
        intro isI
        exact new (isI ▸ List.mem_of_getElem? atK)
      rw [if_neg other]
      exact simulates.order atK
  · show (traversal.order.set i _).length = n
    rw [List.length_set, simulates.orderLength]
  · show traversal.currPos - 1 + (config.finished ++ [i]).length = n
    rw [List.length_append, List.length_singleton]
    omega
  · intro v mem
    rcases List.mem_append.1 mem with earlier | isI
    · exact simulates.inside v earlier
    · rw [List.mem_singleton.1 isI]
      exact bound

theorem Simulates.restack (simulates : Simulates n traversal config)
    (stack : List (Nat × Bool)) : Simulates n traversal { config with stack := stack } :=
  ⟨simulates.marks, simulates.marksLength, simulates.order, simulates.orderLength,
    simulates.currPos, simulates.edgesInCycle, simulates.inside⟩

/-- The nodes that the traversal may meet. -/
structure Bounded (view : MutableGraphView) (extraDependencies : List (Nat × Nat)) : Prop where
  nodes : ∀ node ∈ view.nodes, node.InRange view.nodes.length
  extra : ∀ dependency ∈ extraDependencies, dependency.2 < view.nodes.length

theorem Bounded.fanoutIndices (bounded : view.Bounded extraDependencies) {node : MutableNodeView}
    (mem : node ∈ view.nodes) (parent : Nat) :
    ∀ w ∈ node.fanoutIndices (extraDependenciesByParent extraDependencies parent), w < view.nodes.length := by
  intro w listed
  have inRange := bounded.nodes node mem
  rcases List.mem_append.1 listed with own | isExtra
  · rcases List.mem_append.1 own with regular | controlled
    · obtain ⟨fanout, inner, rfl⟩ := List.mem_map.1 regular
      obtain ⟨fanouts, outer, inner⟩ := List.mem_flatten.1 inner
      exact inRange.regularFanouts fanouts outer fanout inner
    · obtain ⟨fanout, inner, rfl⟩ := List.mem_map.1 controlled
      exact inRange.controlledFanouts fanout inner
  · obtain ⟨dependency, inner, rfl⟩ := List.mem_map.1 isExtra
    exact bounded.extra dependency (List.mem_filter.1 inner).1

theorem Bounded.closed (bounded : view.Bounded extraDependencies) :
    ∀ v ∈ List.range view.nodes.length, ∀ w ∈ view.next extraDependencies v, w ∈ List.range view.nodes.length := by
  intro v _ w listed
  unfold next at listed
  split at listed
  · cases listed
  next node atNode =>
    exact List.mem_range.2 (bounded.fanoutIndices (List.mem_of_getElem? atNode) v w
      (List.mem_filter.1 listed).1)

theorem budget_le_turns (indexed : view.Indexed) :
    PostOrder.budget (view.next extraDependencies) (List.range view.nodes.length) ≤ view.turns extraDependencies := by
  unfold PostOrder.budget turns
  apply Nat.add_le_add_left
  have asRange : (view.nodes.map fun node => 1 + (node.fanoutIndices
        (extraDependenciesByParent extraDependencies node.nodeIndex)).length) =
      (List.range view.nodes.length).map fun i =>
        ((view.nodes[i]?).map fun node => 1 + (node.fanoutIndices
          (extraDependenciesByParent extraDependencies i)).length).getD 0 := by
    apply List.ext_getElem?
    intro i
    rw [List.getElem?_map, List.getElem?_map]
    by_cases bound : i < view.nodes.length
    · have atNode := List.getElem?_eq_getElem bound
      rw [List.getElem?_range bound, atNode, Option.map_some, Option.map_some, atNode, indexed.nodeIndex atNode]
      rfl
    · rw [List.getElem?_eq_none (Nat.not_lt.1 bound),
        List.getElem?_eq_none (by rw [List.length_range]; exact Nat.not_lt.1 bound)]
      rfl
  rw [asRange]
  apply List.sum_le_sum
  intro i mem
  rw [List.getElem?_eq_getElem (List.mem_range.1 mem)]
  show 1 + (view.next extraDependencies i).length ≤ 1 + _
  unfold next
  rw [List.getElem?_eq_getElem (List.mem_range.1 mem)]
  exact Nat.add_le_add_left (List.length_filter_le _ _) 1

theorem dfsLoop_succ (turns : Nat) {leaving : Bool} {rest : RecursionStack}
    (indexed : view.Indexed) (bounded : view.Bounded extraDependencies)
    (inv : PostOrder.Inv (view.next extraDependencies) config)
    (atTop : config.stack = (currIndex, leaving) :: rest) (bound : currIndex < view.nodes.length)
    (simulates : Simulates view.nodes.length traversal config) :
    ∃ traversal', view.dfsLoop extraDependencies (turns + 1) ((currIndex, leaving) :: rest) traversal =
        view.dfsLoop extraDependencies turns
          (PostOrder.visit (view.next extraDependencies) config (currIndex, leaving) rest).stack traversal' ∧
      Simulates view.nodes.length traversal'
        (PostOrder.visit (view.next extraDependencies) config (currIndex, leaving) rest) := by
  have marked := simulates.marks currIndex bound
  rw [dfsLoop, fetch_eq_ok.2 marked]
  unfold PostOrder.visit
  simp only [bind, Except.bind]
  by_cases processed : config.mark currIndex = .processed
  · rw [if_pos processed, if_pos processed]
    exact ⟨traversal, rfl, simulates.restack rest⟩
  · rw [if_neg processed, if_neg processed]
    cases leaving with
    | true =>
      rw [if_pos rfl, if_pos rfl]
      refine ⟨_, rfl, simulates.finish inv.once ?_ bound rest⟩
      rw [inv.finished]
      exact processed
    | false =>
      rw [if_neg (by simp), if_neg (by simp)]
      have atNode : view.nodes[currIndex]? = some _ := List.getElem?_eq_getElem bound
      obtain ⟨traversal', pushed, simulates'⟩ := pushFanouts_simulates indexed bound _ _ _
        (bounded.fanoutIndices (List.mem_of_getElem? atNode) currIndex)
        (simulates.mark bound .processing ((currIndex, true) :: rest))
      have isNext : view.next extraDependencies currIndex = (view.nodes[currIndex].fanoutIndices
            (extraDependenciesByParent extraDependencies currIndex)).filter fun w =>
              !view.isCut currIndex w := by
        unfold next
        rw [atNode]
      rw [isNext]
      refine ⟨traversal', ?_, simulates'⟩
      unfold processFanouts
      rw [fetch_eq_ok.2 atNode]
      simp only [bind, Except.bind]
      rw [pushed]

theorem dfsLoop_simulates (indexed : view.Indexed) (bounded : view.Bounded extraDependencies) :
    ∀ (turns : Nat) (traversal : Traversal) (config : PostOrder.Config Nat),
      PostOrder.Inv (view.next extraDependencies) config →
      (∀ entry ∈ config.stack, entry.1 ∈ List.range view.nodes.length) →
      PostOrder.potential (view.next extraDependencies) (List.range view.nodes.length) config ≤ turns →
      Simulates view.nodes.length traversal config →
      ∃ traversal', view.dfsLoop extraDependencies turns config.stack traversal = .ok traversal' ∧
        Simulates view.nodes.length traversal' (PostOrder.loop (view.next extraDependencies) turns config) := by
  intro turns
  induction turns with
  | zero =>
    intro traversal config _ _ enough simulates
    have isEmpty : config.stack = [] := by
      unfold PostOrder.potential at enough
      exact List.length_eq_zero_iff.1 (by omega)
    rw [isEmpty]
    exact ⟨traversal, by rw [dfsLoop], simulates⟩
  | succ turns ih =>
    intro traversal config inv listed enough simulates
    unfold PostOrder.loop
    split
    next isEmpty =>
      rw [isEmpty]
      exact ⟨traversal, by rw [dfsLoop], simulates⟩
    next entry rest atTop =>
      obtain ⟨currIndex, leaving⟩ := entry
      have entryListed := listed (currIndex, leaving) (by rw [atTop]; exact List.mem_cons_self)
      have less := PostOrder.potential_visit inv atTop entryListed
      obtain ⟨traversal', stepped, simulates'⟩ := dfsLoop_succ turns indexed bounded inv atTop
        (List.mem_range.1 entryListed) simulates
      rw [atTop, stepped]
      apply ih traversal' _ (inv.visit atTop) _ (by omega) simulates'
      intro other mem
      rcases PostOrder.mem_stack_visit mem with below | isEntry | edge
      · exact listed other (by rw [atTop]; exact List.mem_cons_of_mem _ below)
      · rw [isEntry]
        exact entryListed
      · exact bounded.closed _ entryListed _ edge

theorem reversedPostorderDfs_simulates {rootIndex : Nat} (indexed : view.Indexed)
    (bounded : view.Bounded extraDependencies) (done : PostOrder.Traversed (view.next extraDependencies) roots config)
    (bound : rootIndex < view.nodes.length) (simulates : Simulates view.nodes.length traversal config) :
    ∃ traversal', view.reversedPostorderDfs extraDependencies traversal rootIndex = .ok traversal' ∧
      Simulates view.nodes.length traversal' (PostOrder.traverse (view.next extraDependencies)
        (view.turns extraDependencies) config rootIndex) := by
  have marked := simulates.marks rootIndex bound
  unfold reversedPostorderDfs PostOrder.traverse
  rw [fetch_eq_ok.2 marked]
  simp only [bind, Except.bind]
  by_cases pending : config.mark rootIndex = .pending
  · rw [if_pos pending, if_pos pending]
    apply dfsLoop_simulates indexed bounded _ _ { config with stack := [(rootIndex, false)] }
      (done.inv.start done.idle rootIndex)
    · intro entry mem
      rw [List.mem_singleton.1 mem]
      exact List.mem_range.2 bound
    · exact Nat.le_trans (PostOrder.potential_start config rootIndex) (budget_le_turns indexed)
    · exact simulates.restack _
  · rw [if_neg pending, if_neg pending]
    exact ⟨traversal, rfl, simulates⟩

theorem foldlM_reversedPostorderDfs (more : List Nat) (indexed : view.Indexed)
    (bounded : view.Bounded extraDependencies) (done : PostOrder.Traversed (view.next extraDependencies) roots config)
    (bounds : ∀ root ∈ more, root < view.nodes.length) (simulates : Simulates view.nodes.length traversal config) :
    ∃ traversal' config', more.foldlM (view.reversedPostorderDfs extraDependencies) traversal =
        .ok traversal' ∧ Simulates view.nodes.length traversal' config' ∧
      PostOrder.Traversed (view.next extraDependencies) (roots ++ more) config' := by
  induction more generalizing roots traversal config with
  | nil =>
    rw [List.append_nil]
    exact ⟨traversal, config, rfl, simulates, done⟩
  | cons root tail ih =>
    have bound := bounds root List.mem_cons_self
    obtain ⟨stepped, steppedOk, simulatesStep⟩ :=
      reversedPostorderDfs_simulates indexed bounded done bound simulates
    have doneStep := done.traverse bounded.closed (List.mem_range.2 bound) (budget_le_turns indexed)
    obtain ⟨traversal', config', ran, simulates', done'⟩ := ih doneStep
      (fun other mem => bounds other (List.mem_cons_of_mem _ mem)) simulatesStep
    rw [List.append_assoc] at done'
    refine ⟨traversal', config', ?_, simulates', done'⟩
    rw [List.foldlM_cons, steppedOk]
    exact ran

end Simulation

end MutableGraphView

end Itex.GraphUtils
