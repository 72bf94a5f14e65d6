import Itex.AutoMixedPrecision.Clusters

/-!
Contract: what the passes can do to the two colours.

Owns: what each pass may add to the allow set, the rule that a denied type outside
the allowlist stays unpainted, and how denied types of loop and cast nodes are
followed by denied types.
-/

namespace Itex.AutoMixedPrecision

open Itex.Lib Itex.Lib.DepthFirst Itex.Graph

variable {allow allow' deny : Finset Nat} {apart : Nat → Prop} {cluster : List Nat} {n : Nat} {paint : Paint}

namespace Impl

variable {impl : Impl}

/-! ## What a pass may paint -/

theorem mem_addAllowlistOps {i : Nat} : i ∈ impl.addAllowlistOps ↔ i < impl.numTypes ∧ impl.isAllowRoot i = true := by
  unfold addAllowlistOps isAllowRoot
  simp

theorem between_cases (wf : impl.graphTypeView.WellFormed)
    {i : Nat} (mem : i ∈ impl.addClearAndInferToAllowIfBetweenAllow deny allow) :
    i ∈ allow ∨ impl.isAllowRoot i = true ∨ impl.betweenable deny i = true := by
  rcases (mem_addClearAndInferToAllowIfBetweenAllow wf deny allow i).1 mem with
    mem | reached
  · exact .inl mem
  · rcases reached.root_or_admitted with isRoot | downstream
    · exact .inr (.inl isRoot.2)
    · rcases ((mem_downstreamOfAllow wf deny i).1 downstream).root_or_admitted with
        isRoot | between
      · exact .inr (.inl isRoot.2)
      · exact .inr (.inr between)

theorem follow_cases {i : Nat} (mem : i ∈ impl.addInferToAllowIfFollowAllow deny allow) :
    i ∈ allow ∨ impl.followable deny i = true := by
  rcases mem_addInferToAllowIfFollowAllow.1 mem with mem | ⟨-, follows, -⟩
  · exact .inl mem
  · exact .inr follows.1

theorem clear_cases (wf : impl.graphTypeView.WellFormed)
    {i : Nat} (mem : i ∈ impl.propagateAllowThroughClear deny allow) : i ∈ allow ∨ impl.clearable deny i = true := by
  rcases (mem_propagateAllowThroughClear wf deny allow i).1 mem with mem | reached
  · exact .inl mem
  · exact reached.root_or_admitted.imp (fun isRoot => isRoot.2.2) And.left

theorem remove_subset (allow : Finset Nat) : impl.removeAllowsetWithFp32 allow ⊆ allow :=
  Finset.filter_subset _ _

theorem isAllowRoot_spec {i : Nat} (isRoot : impl.isAllowRoot i = true) :
    impl.shouldProcess (impl.item i).node = true ∧ impl.itemOp i ∈ impl.lists.allow := by
  simpa [isAllowRoot] using isRoot

theorem betweenable_spec {i : Nat} (able : impl.betweenable deny i = true) :
    i ∉ deny ∧ impl.shouldProcess (impl.item i).node = true := by
  simp only [betweenable, Bool.and_eq_true, decide_eq_true_eq] at able
  exact ⟨able.1.1.1.1.2, able.1.1.1.2⟩

theorem followable_spec {i : Nat} (able : impl.followable deny i = true) :
    i ∉ deny ∧ impl.shouldProcess (impl.item i).node = true := by
  simp only [followable, Bool.and_eq_true, decide_eq_true_eq] at able
  exact ⟨able.1.1.1.2, able.1.1.1.1⟩

theorem clearable_spec {i : Nat} (able : impl.clearable deny i = true) :
    i ∉ deny ∧ impl.shouldProcess (impl.item i).node = true := by
  simp only [clearable, Bool.and_eq_true, decide_eq_true_eq] at able
  exact ⟨able.1.1.1.1.1, able.1.1.1.1.2⟩

/-- The element types of the nodes of a cluster. -/
def elements (impl : Impl) (cluster : List Nat) : List Nat :=
  cluster.filterMap impl.tensorListFloat32Index

theorem force_cases (impl : Impl) (paint : Paint) (cluster : List Nat) :
    ((∃ i ∈ impl.elements cluster, i ∈ paint.deny) ∧ impl.forceColorMatchBetweenTensorListOps paint cluster =
        ⟨paint.allow \ (impl.elements cluster).toFinset, paint.deny ∪ (impl.elements cluster).toFinset⟩) ∨
    ((∀ i ∈ impl.elements cluster, i ∉ paint.deny) ∧ (∃ i ∈ impl.elements cluster, i ∈ paint.allow) ∧
      impl.forceColorMatchBetweenTensorListOps paint cluster =
        ⟨paint.allow ∪ (impl.elements cluster).toFinset, paint.deny⟩) ∨ ((∀ i ∈ impl.elements cluster, i ∉ paint.deny) ∧
      (∀ i ∈ impl.elements cluster, i ∉ paint.allow) ∧
      impl.forceColorMatchBetweenTensorListOps paint cluster = paint) := by
  have any_iff : ∀ set : Finset Nat, (impl.elements cluster).any (· ∈ set) = true ↔
      ∃ i ∈ impl.elements cluster, i ∈ set := by
    intro set
    rw [List.any_eq_true]
    simp only [decide_eq_true_eq]
  have forced : impl.forceColorMatchBetweenTensorListOps paint cluster =
      if (impl.elements cluster).any (· ∈ paint.deny) = true then
        ⟨paint.allow \ (impl.elements cluster).toFinset, paint.deny ∪ (impl.elements cluster).toFinset⟩
      else if (impl.elements cluster).any (· ∈ paint.allow) = true then
        ⟨paint.allow ∪ (impl.elements cluster).toFinset, paint.deny⟩
      else paint := rfl
  grind

theorem force_deny (impl : Impl) (paint : Paint) (cluster : List Nat) (i : Nat) :
    i ∈ (impl.forceColorMatchBetweenTensorListOps paint cluster).deny ↔
      i ∈ paint.deny ∨ (i ∈ impl.elements cluster ∧ ∃ k ∈ impl.elements cluster, k ∈ paint.deny) := by
  rcases force_cases impl paint cluster with ⟨anyDeny, same⟩ | ⟨noDeny, -, same⟩ | ⟨noDeny, -, same⟩ <;>
    rw [same]
  · simp only [Finset.mem_union, List.mem_toFinset, anyDeny, and_true]
  all_goals
    constructor
    · exact .inl
    · rintro (mem | ⟨-, k, isElement, denied⟩)
      · exact mem
      · exact absurd denied (noDeny k isElement)

/-- A forced type is painted only when its cluster has no denied type. -/
theorem force_allow {impl : Impl} {i : Nat}
    (mem : i ∈ (impl.forceColorMatchBetweenTensorListOps paint cluster).allow) : (i ∈ paint.allow ∧
      (i ∈ impl.elements cluster → ∀ k ∈ impl.elements cluster, k ∉ paint.deny)) ∨
    (i ∈ impl.elements cluster ∧ ∀ k ∈ impl.elements cluster, k ∉ paint.deny) := by
  rcases force_cases impl paint cluster with ⟨anyDeny, same⟩ | ⟨noDeny, -, same⟩ | ⟨noDeny, -, same⟩ <;>
    rw [same] at mem
  · rw [Finset.mem_sdiff, List.mem_toFinset] at mem
    exact .inl ⟨mem.1, fun isElement => absurd isElement mem.2⟩
  · simp_all
  · exact .inl ⟨mem, fun _ => noDeny⟩

theorem mem_elements {i : Nat} :
    i ∈ impl.elements cluster ↔ ∃ n ∈ cluster, impl.tensorListFloat32Index n = some i := by
  unfold elements
  rw [List.mem_filterMap]

theorem isTensorListOp_of_mem_elements (wf : impl.graphTypeView.WellFormed)
    {i : Nat} (mem : i ∈ impl.elements cluster) : isTensorListOp (impl.itemOp i) = true := by
  obtain ⟨n, -, found⟩ := mem_elements.1 mem
  exact tensorListFloat32Index_item wf found

/-! ## Denied types stay unpainted -/

/-- A denied type is painted only if its operator is on the allow list. -/
def Guarded (impl : Impl) (paint : Paint) : Prop :=
  ∀ i ∈ paint.deny, impl.itemOp i ∉ impl.lists.allow → i ∉ paint.allow

theorem Guarded.force (guarded : impl.Guarded paint) (cluster : List Nat) :
    impl.Guarded (impl.forceColorMatchBetweenTensorListOps paint cluster) := by
  intro i denied unlisted painted
  rcases (force_deny impl paint cluster i).1 denied with denied | ⟨isElement, k, isOther, denied⟩
  · rcases force_allow painted with ⟨painted, -⟩ | ⟨isElement, noDeny⟩
    · exact guarded i denied unlisted painted
    · exact noDeny i isElement denied
  · rcases force_allow painted with ⟨-, noDeny⟩ | ⟨-, noDeny⟩
    · exact noDeny isElement k isOther denied
    · exact noDeny k isOther denied

theorem Guarded.forceAll (guarded : impl.Guarded paint) (clusters : List (List Nat)) :
    impl.Guarded (clusters.foldl impl.forceColorMatchBetweenTensorListOps paint) := by
  induction clusters generalizing paint with
  | nil => exact guarded
  | cons head tail ih => exact ih (guarded.force head)

/-- A pass that paints allow operators and types that are not denied. -/
theorem Guarded.repaint (guarded : impl.Guarded paint)
    (sound : ∀ i ∈ allow, i ∈ paint.allow ∨ impl.itemOp i ∈ impl.lists.allow ∨ i ∉ paint.deny) :
    impl.Guarded { paint with allow := allow } := by
  intro i denied unlisted painted
  rcases sound i painted with painted | listed | undenied
  · exact guarded i denied unlisted painted
  · exact unlisted listed
  · exact undenied denied

end Impl

namespace Prepared

open Impl

variable {prepared : Prepared}

theorem guarded_afterPass2 : prepared.impl.Guarded prepared.afterPass2 := by
  intro i _ unlisted painted
  exact unlisted (isAllowRoot_spec (mem_addAllowlistOps.1 painted).2).2

variable (wf : prepared.impl.graphTypeView.WellFormed)
include wf

theorem guarded_afterPass3 : prepared.impl.Guarded prepared.afterPass3 := by
  refine (guarded_afterPass2.forceAll prepared.clusters).repaint fun i painted => ?_
  rcases between_cases wf painted with painted | isRoot | able
  · exact .inl painted
  · exact .inr (.inl (isAllowRoot_spec isRoot).2)
  · exact .inr (.inr (betweenable_spec able).1)

theorem guarded_afterPass4 : prepared.impl.Guarded prepared.afterPass4 :=
  (guarded_afterPass3 wf).repaint fun _ painted =>
    (follow_cases painted).imp_right fun able => .inr (followable_spec able).1

theorem guarded_afterPass5 : prepared.impl.Guarded prepared.afterPass5 :=
  (guarded_afterPass4 wf).repaint fun _ painted =>
    (clear_cases wf painted).imp_right fun able => .inr (clearable_spec able).1

theorem guarded_afterPass6 : prepared.impl.Guarded prepared.afterPass6 :=
  (guarded_afterPass5 wf).repaint fun _ painted => .inl (remove_subset _ painted)

theorem guarded_afterLists : prepared.impl.Guarded prepared.afterLists :=
  (guarded_afterPass6 wf).forceAll prepared.clusters

end Prepared

namespace Impl

variable {impl : Impl}

section Denied

variable (wf : impl.graphTypeView.WellFormed)
include wf

theorem op_of_upstream {i : Nat} (mem : i ∈ impl.upstreamOfDenyOrInfer) :
    impl.itemOp i ∈ impl.lists.deny ∨ impl.itemOp i ∈ impl.lists.infer ∨ impl.itemOp i ∈ impl.lists.clear := by
  have reached := (mem_upstreamOfDenyOrInfer wf i).1 mem
  rcases reached.root_or_admitted with ⟨-, denied | inferred⟩ | clear
  · exact .inl denied
  · exact .inr (.inl inferred)
  · exact .inr (.inr clear)

section

variable {seed : Finset Nat} {i : Nat} (denied : i ∈ impl.propagateDenyFwdThroughClearAndInfer seed)
  (fresh : i ∉ seed)

include denied fresh

theorem op_of_denied :
    impl.itemOp i ∈ impl.lists.deny ∨ impl.itemOp i ∈ impl.lists.infer ∨ impl.itemOp i ∈ impl.lists.clear := by
  have reached := ((mem_propagateDeny wf seed i).1 denied).resolve_left fresh
  rcases reached.root_or_admitted with ⟨-, listed, -⟩ | ⟨upstream, -⟩
  · exact .inl listed
  · exact op_of_upstream wf upstream

theorem denied_onward (notDeny : impl.itemOp i ∉ impl.lists.deny) (notInfer : impl.itemOp i ∉ impl.lists.infer) :
    ∃ j ∈ impl.next .followOutputs i, j ∈ impl.propagateDenyFwdThroughClearAndInfer seed := by
  have reached := ((mem_propagateDeny wf seed i).1 denied).resolve_left fresh
  have upstream : i ∈ impl.upstreamOfDenyOrInfer := by
    rcases reached.root_or_admitted with ⟨-, listed, -⟩ | ⟨upstream, -⟩
    · exact absurd listed notDeny
    · exact upstream
  cases (mem_upstreamOfDenyOrInfer wf i).1 upstream with
  | root isRoot => exact absurd isRoot.2 (not_or.2 ⟨notDeny, notInfer⟩)
  | @step j _ onward edge _ =>
    have forward : j ∈ impl.next .followOutputs i :=
      GraphTypeTopologyView.mem_getFanout.2 (GraphTypeTopologyView.mem_getFanin.1 edge)
    refine ⟨j, forward, (mem_propagateDeny wf seed j).2 ?_⟩
    by_cases inSeed : j ∈ seed
    · exact .inl inSeed
    · exact .inr (.step reached forward
        ⟨(mem_upstreamOfDenyOrInfer wf j).2 onward, inSeed⟩)

end

omit wf in
theorem deny_subset_forceAll (impl : Impl) (clusters : List (List Nat)) (paint : Paint) :
    paint.deny ⊆ (clusters.foldl impl.forceColorMatchBetweenTensorListOps paint).deny := by
  induction clusters generalizing paint with
  | nil => exact Finset.Subset.refl _
  | cons head tail ih =>
    intro i denied
    exact ih _ ((force_deny impl paint head i).2 (.inl denied))

theorem forceAll_deny {clusters : List (List Nat)} {i : Nat}
    (denied : i ∈ (clusters.foldl impl.forceColorMatchBetweenTensorListOps paint).deny) :
    i ∈ paint.deny ∨ isTensorListOp (impl.itemOp i) = true := by
  induction clusters generalizing paint with
  | nil => exact .inl denied
  | cons head tail ih =>
    rcases ih denied with denied | isList
    · rcases (force_deny impl paint head i).1 denied with denied | ⟨isElement, -⟩
      · exact .inl denied
      · exact .inr (isTensorListOp_of_mem_elements wf isElement)
    · exact .inr isList

end Denied

/-! ## Loops and casts -/

theorem recurrentStep_cases (ran : impl.recurrentStep allow n = .ok allow') :
    (impl.opOf n ≠ "NextIteration" ∧ allow' = allow) ∨ (impl.opOf n = "NextIteration" ∧ ∃ merges nextIteration,
      (impl.graphView.getFanout ⟨some n, .port 0⟩).mapM impl.mergeIndex = .ok merges ∧
      impl.typeTIndex "NextIteration" n = .ok nextIteration ∧ (((∃ m ∈ merges, m ∉ allow) ∧
          allow' = (allow \ merges.toFinset).erase nextIteration) ∨
        ((∀ m ∈ merges, m ∈ allow) ∧ allow' = insert nextIteration allow))) := by
  unfold recurrentStep at ran
  by_cases isLoop : impl.opOf n = "NextIteration"
  · rw [if_pos isLoop] at ran
    obtain ⟨merges, mergesOk, ran⟩ := bind_ok.1 ran
    obtain ⟨nextIteration, indexOk, ran⟩ := bind_ok.1 ran
    grind
  · rw [if_neg isLoop] at ran
    cases ran
    exact .inl ⟨isLoop, rfl⟩

theorem castStep_cases (ran : impl.castStep allow n = .ok allow') :
    (allow' = allow ∧ ¬ (impl.opOf n = "Cast" ∧ impl.isFloat32 ⟨n, .single "DstT"⟩ = true ∧
      impl.graphView.getFanout ⟨some n, .port 0⟩ ≠ [] ∧
      impl.allFanoutsAllow allow (impl.graphView.getFanout ⟨some n, .port 0⟩) = .ok true)) ∨
    (impl.opOf n = "Cast" ∧ impl.isFloat32 ⟨n, .single "DstT"⟩ = true ∧
      impl.graphView.getFanout ⟨some n, .port 0⟩ ≠ [] ∧
      impl.allFanoutsAllow allow (impl.graphView.getFanout ⟨some n, .port 0⟩) = .ok true ∧
      ∃ index, impl.graphTypeView.indexOf ⟨n, .single "DstT"⟩ = some index ∧ allow' = insert index allow) := by
  unfold castStep at ran
  by_cases isCast : impl.opOf n = "Cast" ∧ impl.isFloat32 ⟨n, .single "DstT"⟩ = true
  · rw [if_pos isCast] at ran
    obtain ⟨allAllow, scanned, ran⟩ := bind_ok.1 ran
    grind
  · rw [if_neg isCast] at ran
    cases ran
    exact .inl ⟨rfl, fun absorbed => isCast ⟨absorbed.1, absorbed.2.1⟩⟩

theorem nodeDef_eq {node : NodeDef} (found : impl.graph[n]? = some node) : impl.nodeDef n = node := by
  simp [nodeDef, List.getD, found]

theorem getElem?_nodeDef (bound : n < impl.graph.length) : impl.graph[n]? = some (impl.nodeDef n) := by
  rw [nodeDef_eq (List.getElem?_eq_getElem bound), List.getElem?_eq_getElem bound]

/-- The definitions of the loop operators. -/
def nextIterationOpDef : OpDef :=
  ⟨[{ typeAttr := "T" }], [{ typeAttr := "T" }], [⟨"T", .type, []⟩]⟩

def mergeOpDef : OpDef :=
  ⟨[{ typeAttr := "T", numberAttr := "N" }], [{ typeAttr := "T" }, { type := .int32 }],
    [⟨"T", .type, []⟩, ⟨"N", .other, []⟩]⟩

structure LoopOps (registry : Registry) : Prop where
  nextIteration : registry.lookUpOpDef "NextIteration" = .ok nextIterationOpDef
  merge : registry.lookUpOpDef "Merge" = .ok mergeOpDef

section Loops

variable (ready : impl.Ready)
include ready

theorem Ready.getNodeIndex_eq_some {i : Nat} (bound : n < impl.graph.length) {typeAttr : TypeAttrId} :
    impl.graphTypeView.getNodeIndex (impl.nodeDef n).name typeAttr = some i ↔
      impl.graphTypeView.nodeTypeAttrs[i]? = some ⟨n, typeAttr⟩ := by
  apply ready.wellFormed.getNodeIndex_eq_some
  rw [ready.names, List.getElem?_map, getElem?_nodeDef bound]
  rfl

theorem Ready.typeTIndex_eq_ok {kind : String} {i : Nat} (bound : n < impl.graph.length) :
    impl.typeTIndex kind n = .ok i ↔ impl.graphTypeView.nodeTypeAttrs[i]? = some ⟨n, .single "T"⟩ := by
  rw [← ready.getNodeIndex_eq_some bound]
  unfold typeTIndex
  cases impl.graphTypeView.getNodeIndex (impl.nodeDef n).name (.single "T") <;> simp

theorem Ready.loop_successor (ops : LoopOps impl.config.registry) {i j : Nat} (isLoop : impl.opOf n = "NextIteration")
    (atIndex : impl.graphTypeView.nodeTypeAttrs[i]? = some ⟨n, .single "T"⟩) (edge : j ∈ impl.next .followOutputs i) :
    ∃ port ∈ impl.graphView.getFanout ⟨some n, .port 0⟩, ∀ m, impl.mergeIndex port = .ok m → m = j := by
  have isItem := item_eq_of_getElem? atIndex
  rcases ready.edge i j (GraphTypeTopologyView.mem_getFanout.1 edge) with
    ⟨s, p, d, k, ts, td, portEdge, atSrc, atDst⟩ | ⟨isList, -⟩
  · cases Option.some.inj (atSrc.symm.trans atIndex)
    obtain ⟨src, dst, srcNode, dstNode, atPort⟩ := portEdge.input
    obtain ⟨opDef, registered, described⟩ := ready.described n src srcNode
    have isNext : src.op = "NextIteration" := nodeDef_eq srcNode ▸ isLoop
    rw [isNext, ops.nextIteration] at registered
    cases registered
    have outputs := described.outputs_of_single rfl rfl ⟨rfl, rfl⟩
    have isFirst : p = 0 := by
      have srcType := portEdge.srcType
      rw [outputs] at srcType
      have := read_lt srcType
      simpa using this
    subst isFirst
    refine ⟨⟨d, .port k⟩, ready.consistent.mem_getFanout.2
      ⟨d, k, src, dst, rfl, srcNode, dstNode, atPort⟩, fun m ran => ?_⟩
    unfold mergeIndex at ran
    split at ran
    next isMerge =>
      have dstBound := read_lt dstNode
      have atMerge := (ready.typeTIndex_eq_ok dstBound).1 ran
      obtain ⟨opDef, registered, dstDescribed⟩ := ready.described d dst dstNode
      rw [show dst.op = "Merge" from nodeDef_eq dstNode ▸ isMerge, ops.merge] at registered
      cases registered
      obtain ⟨argDef, isArg, _, isType⟩ :=
        dstDescribed.inputArg (List.mem_of_getElem? portEdge.dstType)
      rw [List.mem_singleton.1 isArg] at isType
      rw [isType] at atDst
      exact GraphTypeTopologyView.getElem?_inj ready.wellFormed.typesNodup atMerge atDst
    · cases ran
  · rw [show impl.itemOp i = "NextIteration" by rw [itemOp, isItem]; exact isLoop] at isList
    exact absurd isList (by decide)

/-- Types that are handed on by loops are not painted by forcing loop edges. -/
theorem Ready.recurrentStep_apart (ops : LoopOps impl.config.registry)
    (onward : ∀ i, apart i → impl.itemOp i = "NextIteration" → ∃ j ∈ impl.next .followOutputs i, apart j)
    (bound : n < impl.graph.length)
    (unpainted : ∀ i, apart i → i ∉ allow) (ran : impl.recurrentStep allow n = .ok allow') :
    ∀ i, apart i → i ∉ allow' := by
  intro i isApart
  rcases recurrentStep_cases ran with ⟨-, same⟩ | ⟨isLoop, merges, nextIteration, mergesOk,
    indexOk, ⟨-, same⟩ | ⟨allPainted, same⟩⟩
  · rw [same]
    exact unpainted i isApart
  · rw [same]
    intro mem
    exact unpainted i isApart (Finset.mem_sdiff.1 (Finset.mem_of_mem_erase mem)).1
  · rw [same, Finset.mem_insert, not_or]
    refine ⟨fun isNext => ?_, unpainted i isApart⟩
    have atIndex := (ready.typeTIndex_eq_ok bound).1 indexOk
    rw [← isNext] at atIndex
    have isOp : impl.itemOp i = "NextIteration" := by
      rw [itemOp, item_eq_of_getElem? atIndex]
      exact isLoop
    obtain ⟨j, edge, alsoApart⟩ := onward i isApart isOp
    obtain ⟨port, isPort, reads⟩ := ready.loop_successor ops isLoop atIndex edge
    obtain ⟨m, isMerge, mergeOk⟩ := mem_result_of_mapM mergesOk isPort
    rw [reads m mergeOk] at isMerge
    exact unpainted j alsoApart (allPainted j isMerge)

/-- Absorbing casts paints no other types. -/
theorem Ready.castStep_apart
    (noCast : ∀ i, apart i → impl.itemOp i = "Cast" → (impl.item i).typeAttr ≠ .single "DstT")
    (unpainted : ∀ i, apart i → i ∉ allow)
    (ran : impl.castStep allow n = .ok allow') : ∀ i, apart i → i ∉ allow' := by
  intro i isApart
  rcases castStep_cases ran with ⟨same, -⟩ | ⟨isCast, -, -, -, index, found, same⟩
  · rw [same]
    exact unpainted i isApart
  · rw [same, Finset.mem_insert, not_or]
    refine ⟨fun isIndex => ?_, unpainted i isApart⟩
    have isItem := item_eq_of_getElem? (ready.wellFormed.indexOf_eq_some.1 found)
    rw [← isIndex] at isItem
    refine noCast i isApart ?_ (by rw [isItem])
    rw [itemOp, isItem]
    exact isCast

end Loops

end Impl

namespace Prepared

variable {prepared : Prepared}

theorem apart_of_paintAt (ready : prepared.impl.Ready) (ops : Impl.LoopOps prepared.impl.config.registry)
    (onward : ∀ i, apart i → prepared.impl.itemOp i = "NextIteration" →
      ∃ j ∈ prepared.impl.next .followOutputs i, apart j) (noCast : ∀ i, apart i → prepared.impl.itemOp i = "Cast" →
      (prepared.impl.item i).typeAttr ≠ .single "DstT")
    (unpainted : ∀ i, apart i → i ∉ prepared.afterLists.allow) {point : Point}
    (late : (∃ nodes, point = .recurrent nodes) ∨ ∃ nodes, point = .casts nodes)
    {paint : Impl.Paint} (reached : prepared.paintAt point = .ok paint) : ∀ i, apart i → i ∉ paint.allow := by
  have looped : ∀ {nodes : List Nat} {allow : Finset Nat}, (∀ n ∈ nodes, n < prepared.impl.graph.length) →
      nodes.foldlM prepared.impl.recurrentStep prepared.afterLists.allow = .ok allow →
      ∀ i, apart i → i ∉ allow := by
    intro nodes allow inRange ran
    refine foldlM_invariant (fun _ allow => ∀ i, apart i → i ∉ allow) unpainted ?_ ran
    intro seen n rest before after split holds stepped
    exact ready.recurrentStep_apart ops onward (inRange n (by simp [split])) holds stepped
  rcases late with ⟨nodes, rfl⟩ | ⟨nodes, rfl⟩
  · obtain ⟨allow, ran, same⟩ := bind_ok.1 reached
    cases same
    exact looped (fun n mem => List.mem_range.1 (List.mem_of_mem_take mem)) ran
  · obtain ⟨allow, ran, reached⟩ := bind_ok.1 reached
    obtain ⟨final, absorbed, same⟩ := bind_ok.1 reached
    cases same
    have start := looped (fun n mem => List.mem_range.1 mem) ran
    refine foldlM_invariant (fun _ allow => ∀ i, apart i → i ∉ allow) start ?_ absorbed
    intro seen n rest before after split holds stepped
    exact ready.castStep_apart noCast holds stepped

end Prepared

end Itex.AutoMixedPrecision
