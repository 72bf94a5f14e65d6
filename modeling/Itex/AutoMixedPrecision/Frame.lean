import Itex.AutoMixedPrecision.Preservation

/-!
Contract: what the optimizer does to nodes that it must not process.

Owns: that the passes paint processed nodes only, up to the forcing of loop edges and
the absorption of casts, and when these two leave the other nodes alone.
-/

namespace Itex.AutoMixedPrecision

open Itex.Lib Itex.Graph

namespace Impl

/-- The test under which `ForceColorMatchOnRecurrentEdges` paints a `NextIteration`
node: all its `Merge` consumers are painted. -/
def PaintsLoop (impl : Impl) (allow : Finset Nat) (n : Nat) : Prop :=
  impl.opOf n = "NextIteration" ∧ ∀ output ∈ impl.graphView.getFanout ⟨some n, .port 0⟩,
    ∀ index, impl.mergeIndex output = .ok index → index ∈ allow

/-- The test under which `MakeCastsAllowIfAllOutputsAllow` paints a cast: it has
consumers and all of them are painted. -/
def PaintsCast (impl : Impl) (allow : Finset Nat) (n : Nat) : Prop :=
  impl.opOf n = "Cast" ∧ impl.isFloat32 ⟨n, .single "DstT"⟩ = true ∧ impl.graphView.getFanout ⟨some n, .port 0⟩ ≠ [] ∧
    impl.allFanoutsAllow allow (impl.graphView.getFanout ⟨some n, .port 0⟩) = .ok true

/-- Only types of processed nodes are painted. -/
def Processed (impl : Impl) (allow : Finset Nat) : Prop :=
  ∀ i ∈ allow, impl.shouldProcess (impl.item i).node = true

end Impl

namespace Prepared

open Impl (Paint isAllowRoot_spec mem_addAllowlistOps between_cases follow_cases clear_cases
  betweenable_spec followable_spec clearable_spec force_allow force_deny mem_elements
  deny_subset_forceAll)

variable {settings : Config} {graph : GraphDef} {prepared : Prepared}

theorem denied_of_unprocessed (returned : prepare settings graph = .ok prepared)
    {cluster : List Nat} (isCluster : cluster ∈ prepared.clusters) {i : Nat}
    (isElement : i ∈ prepared.impl.elements cluster)
    (unprocessed : prepared.impl.shouldProcess (prepared.impl.item i).node = false) :
    ∃ f ∈ prepared.impl.elements cluster, f ∈ prepared.denySeed := by
  obtain ⟨base, added, built, -, rfl⟩ := prepare_spec returned
  have wf := built.wired.mirrors.wellFormed
  obtain ⟨fromRoot, -, denied⟩ := Impl.clusters_spec wf
  obtain ⟨r, f, root, members⟩ := fromRoot cluster isCluster
  have rootListed : (base.getTensorListFloat32NodeTypeId (base.item r).node).isSome = true := by
    rw [← Impl.tensorListFloat32Index_isSome, root.element]
    rfl
  refine ⟨f, mem_elements.2 ⟨(base.item r).node, ?_, root.element⟩, ?_⟩
  · exact (members _).2 ⟨rootListed, r, .root rfl, rfl⟩
  · obtain ⟨n, isMember, found⟩ := mem_elements.1 isElement
    obtain ⟨isList, j, linked, isNode⟩ := (members n).1 isMember
    have isItem : (base.item i).node = n :=
      (Impl.tensorListFloat32Index_spec wf found).2.1
    refine (denied f).2 ⟨r, root, j, linked, ?_⟩
    unfold Impl.Hazard
    rw [isNode, if_pos isList, ← isItem]
    exact unprocessed

theorem processed_forceAll (returned : prepare settings graph = .ok prepared) :
    ∀ (clusters : List (List Nat)) (paint : Paint), clusters ⊆ prepared.clusters →
      prepared.denySeed ⊆ paint.deny → prepared.impl.Processed paint.allow →
      prepared.impl.Processed (prepared.forceClusters clusters paint).allow := by
  intro clusters
  induction clusters with
  | nil => exact fun _ _ _ processed => processed
  | cons head tail ih =>
    intro paint known denied processed
    apply ih _ (fun _ mem => known (List.mem_cons_of_mem _ mem))
    · intro k isSeed
      exact (force_deny _ _ _ _).2 (.inl (denied isSeed))
    · intro i painted
      rcases force_allow painted with ⟨painted, -⟩ | ⟨isElement, noDeny⟩
      · exact processed i painted
      · by_contra unprocessed
        obtain ⟨f, isOther, isSeed⟩ := denied_of_unprocessed returned
          (known List.mem_cons_self) isElement (by simpa using unprocessed)
        exact noDeny f isOther (denied isSeed)

/-- Before loops are forced, only processed nodes are painted. -/
theorem processed_afterLists (returned : prepare settings graph = .ok prepared) :
    prepared.impl.Processed prepared.afterLists.allow := by
  have ready := ready_of_prepare returned
  have seed : prepared.denySeed ⊆ prepared.afterPass2.deny := fun k isSeed =>
    (Impl.mem_propagateDeny ready.wellFormed _ k).2 (.inl isSeed)
  have pass2 : prepared.impl.Processed prepared.afterPass2.allow := fun i painted =>
    (isAllowRoot_spec (mem_addAllowlistOps.1 painted).2).1
  have forced := processed_forceAll returned prepared.clusters _ (List.Subset.refl _) seed pass2
  have pass3 : prepared.impl.Processed prepared.afterPass3.allow := by
    intro i painted
    rcases between_cases ready.wellFormed painted with painted | isRoot | able
    · exact forced i painted
    · exact (isAllowRoot_spec isRoot).1
    · exact (betweenable_spec able).2
  have pass4 : prepared.impl.Processed prepared.afterPass4.allow := by
    intro i painted
    rcases follow_cases painted with painted | able
    · exact pass3 i painted
    · exact (followable_spec able).2
  have pass5 : prepared.impl.Processed prepared.afterPass5.allow := by
    intro i painted
    rcases clear_cases ready.wellFormed painted with painted | able
    · exact pass4 i painted
    · exact (clearable_spec able).2
  have pass6 : prepared.impl.Processed prepared.afterPass6.allow := fun i painted =>
    pass5 i (Impl.remove_subset _ painted)
  refine processed_forceAll returned prepared.clusters _ (List.Subset.refl _) ?_ pass6
  exact seed.trans (deny_subset_forceAll _ _ _)

/-! ## Loops and casts -/

/-- An unprocessed `NextIteration` node is painted when its turn comes. -/
def LoopPainted (prepared : Prepared) (n : Nat) : Prop :=
  ∃ paint, prepared.paintAt (.recurrent n) = .ok paint ∧ prepared.impl.PaintsLoop paint.allow n

def CastPainted (prepared : Prepared) (n : Nat) : Prop :=
  ∃ paint, prepared.paintAt (.casts n) = .ok paint ∧ prepared.impl.PaintsCast paint.allow n

theorem absorbed_mono {nodes : List Nat} {before after : Finset Nat}
    (absorbed : nodes.foldlM prepared.impl.castStep before = .ok after) : before ⊆ after := by
  refine foldlM_invariant (fun _ allow => before ⊆ allow) (Finset.Subset.refl _) ?_ absorbed
  intro seen n rest allow allow' split holds stepped
  rcases Impl.castStep_cases stepped with ⟨same, -⟩ | ⟨-, -, -, -, index, -, same⟩
  · rwa [same]
  · rw [same]
    exact holds.trans (Finset.subset_insert _ _)

section Late

variable (returned : prepare settings graph = .ok prepared)
include returned

theorem looped_cases {looped : Finset Nat}
    (loopedOk : prepared.impl.forceColorMatchOnRecurrentEdges prepared.afterLists.allow =
      .ok looped) {i : Nat} (painted : i ∈ looped) : prepared.impl.shouldProcess (prepared.impl.item i).node = true ∨
      ∃ n, prepared.impl.graphTypeView.nodeTypeAttrs[i]? = some ⟨n, .single "T"⟩ ∧ prepared.LoopPainted n := by
  have ready := ready_of_prepare returned
  refine foldlM_reached_invariant (fun _ (allow : Finset Nat) => ∀ i ∈ allow,
    prepared.impl.shouldProcess (prepared.impl.item i).node = true ∨
      ∃ n, prepared.impl.graphTypeView.nodeTypeAttrs[i]? = some ⟨n, .single "T"⟩ ∧
        prepared.LoopPainted n) ?_ ?_ loopedOk i painted
  · exact fun i painted => .inl (processed_afterLists returned i painted)
  intro seen n rest before after split reached holds stepped i painted
  obtain ⟨isSeen, bound⟩ := take_range_of_append_cons split
  rcases Impl.recurrentStep_cases stepped with ⟨-, same⟩ | ⟨isLoop, merges, nextIteration,
    mergesOk, indexOk, ⟨-, same⟩ | ⟨allPainted, same⟩⟩
  · rw [same] at painted
    exact holds i painted
  · rw [same] at painted
    exact holds i (Finset.mem_sdiff.1 (Finset.mem_of_mem_erase painted)).1
  · rw [same, Finset.mem_insert] at painted
    rcases painted with isNext | painted
    · refine .inr ⟨n, isNext ▸ (ready.typeTIndex_eq_ok bound).1 indexOk,
        ⟨before, prepared.afterLists.deny⟩, ?_, isLoop, ?_⟩
      · simp only [paintAt, isSeen, reached]
        rfl
      · intro output isOutput index indexOk
        obtain ⟨m, isMerge, mergeOk⟩ := mem_result_of_mapM mergesOk isOutput
        rw [indexOk] at mergeOk
        exact Except.ok.inj mergeOk ▸ allPainted m isMerge
    · exact holds i painted

theorem finalAllow_cases {allow : Finset Nat} (painted : prepared.finalAllow = .ok allow)
    {i : Nat} (mem : i ∈ allow) : prepared.impl.shouldProcess (prepared.impl.item i).node = true ∨
      (∃ n, prepared.impl.graphTypeView.nodeTypeAttrs[i]? = some ⟨n, .single "T"⟩ ∧ prepared.LoopPainted n) ∨
      ∃ n, prepared.impl.graphTypeView.nodeTypeAttrs[i]? = some ⟨n, .single "DstT"⟩ ∧ prepared.CastPainted n := by
  have ready := ready_of_prepare returned
  obtain ⟨looped, loopedOk, absorbed⟩ := bind_ok.1 painted
  refine foldlM_reached_invariant (fun _ (allow : Finset Nat) => ∀ i ∈ allow,
    prepared.impl.shouldProcess (prepared.impl.item i).node = true ∨
      (∃ n, prepared.impl.graphTypeView.nodeTypeAttrs[i]? = some ⟨n, .single "T"⟩ ∧ prepared.LoopPainted n) ∨
      ∃ n, prepared.impl.graphTypeView.nodeTypeAttrs[i]? = some ⟨n, .single "DstT"⟩ ∧
        prepared.CastPainted n) ?_ ?_ absorbed i mem
  · intro i painted
    rcases looped_cases returned loopedOk painted with processed | byLoop
    · exact .inl processed
    · exact .inr (.inl byLoop)
  intro seen n rest before after split reached holds stepped i painted
  obtain ⟨isSeen, -⟩ := take_range_of_append_cons split
  rcases Impl.castStep_cases stepped with ⟨same, -⟩ | ⟨isCast, isFloat, nonempty, scanned, index, found, same⟩
  · rw [same] at painted
    exact holds i painted
  · rw [same, Finset.mem_insert] at painted
    rcases painted with isIndex | painted
    · refine .inr (.inr ⟨n, isIndex ▸ ready.wellFormed.indexOf_eq_some.1 found,
        ⟨before, prepared.afterLists.deny⟩, ?_, isCast, isFloat, nonempty, scanned⟩)
      simp only [paintAt, isSeen, loopedOk]
      show (seen.foldlM prepared.impl.castStep looped >>= fun allow =>
        (.ok ⟨allow, prepared.afterLists.deny⟩ : Except Failure Paint)) = _
      rw [reached]
      rfl
    · exact holds i painted

theorem loop_kept {before after : Finset Nat} {n m i : Nat} (bound : m < prepared.impl.graph.length)
    (ne : m ≠ n) (isLoop : prepared.impl.opOf n = "NextIteration")
    (atIndex : prepared.impl.graphTypeView.nodeTypeAttrs[i]? = some ⟨n, .single "T"⟩)
    (painted : i ∈ before) (stepped : prepared.impl.recurrentStep before m = .ok after) : i ∈ after := by
  have ready := ready_of_prepare returned
  rcases Impl.recurrentStep_cases stepped with ⟨-, same⟩ | ⟨-, merges, nextIteration,
    mergesOk, indexOk, ⟨-, same⟩ | ⟨-, same⟩⟩
  · rwa [same]
  · rw [same, Finset.mem_erase, Finset.mem_sdiff, List.mem_toFinset]
    refine ⟨fun isNext => ?_, painted, fun isMerge => ?_⟩
    · have atNext := (ready.typeTIndex_eq_ok bound).1 indexOk
      rw [← isNext, atIndex] at atNext
      exact ne (congrArg NodeTypeId.node (Option.some.inj atNext)).symm
    · obtain ⟨port, isPort, mergeOk⟩ := mem_source_of_mapM mergesOk isMerge
      obtain ⟨d, k, src, dst, isInput, -, atDst, -⟩ := ready.consistent.mem_getFanout.1 isPort
      unfold Impl.mergeIndex at mergeOk
      split at mergeOk
      next isOp =>
        rw [isInput] at isOp mergeOk
        have atMerge := (ready.typeTIndex_eq_ok (read_lt atDst)).1 mergeOk
        simp_all
      · cases mergeOk
  · rw [same]
    exact Finset.mem_insert_of_mem painted

section

variable {allow : Finset Nat} (painted : prepared.finalAllow = .ok allow) {n : Nat}
  (bound : n < prepared.impl.graph.length)

include painted bound

theorem mem_finalAllow_of_loop (isPainted : prepared.LoopPainted n) :
    ∃ i, prepared.impl.graphTypeView.nodeTypeAttrs[i]? = some ⟨n, .single "T"⟩ ∧ i ∈ allow := by
  have ready := ready_of_prepare returned
  obtain ⟨looped, loopedOk, absorbed⟩ := bind_ok.1 painted
  obtain ⟨paint, reached, isLoop, consumers⟩ := isPainted
  obtain ⟨before, beforeOk, same⟩ := bind_ok.1 reached
  cases same
  unfold Impl.forceColorMatchOnRecurrentEdges at loopedOk
  have split := range_eq_append_cons bound
  rw [split] at loopedOk
  obtain ⟨before', after, beforeOk', stepped, later⟩ := foldlM_append_cons_eq_ok loopedOk
  cases beforeOk.symm.trans beforeOk'
  rcases Impl.recurrentStep_cases stepped with ⟨notLoop, -⟩ | ⟨-, merges, nextIteration,
    mergesOk, indexOk, ⟨⟨m, isMerge, unpainted⟩, -⟩ | ⟨-, same⟩⟩
  · exact absurd isLoop notLoop
  · obtain ⟨port, isPort, mergeOk⟩ := mem_source_of_mapM mergesOk isMerge
    exact absurd (consumers port isPort m mergeOk) unpainted
  · have atIndex := (ready.typeTIndex_eq_ok bound).1 indexOk
    refine ⟨nextIteration, atIndex, absorbed_mono absorbed ?_⟩
    have distinct : (List.range prepared.impl.graph.length).Nodup := List.nodup_range
    rw [split, List.nodup_append, List.nodup_cons] at distinct
    refine foldlM_invariant (fun _ allow => nextIteration ∈ allow) ?_ ?_ later
    · rw [same]
      exact Finset.mem_insert_self _ _
    · intro seen m rest allow allow' isRest holds stepped
      have isLater : m ∈ (List.range prepared.impl.graph.length).drop (n + 1) := by
        rw [isRest]
        simp
      have inRange := List.mem_range.1 (List.mem_of_mem_drop isLater)
      refine loop_kept returned inRange ?_ isLoop atIndex holds stepped
      rintro rfl
      exact distinct.2.1.1 isLater

theorem mem_finalAllow_of_cast (isPainted : prepared.CastPainted n) :
    ∃ i, prepared.impl.graphTypeView.nodeTypeAttrs[i]? = some ⟨n, .single "DstT"⟩ ∧ i ∈ allow := by
  have ready := ready_of_prepare returned
  obtain ⟨looped, loopedOk, absorbed⟩ := bind_ok.1 painted
  obtain ⟨paint, reached, takes⟩ := isPainted
  obtain ⟨looped', loopedOk', reached⟩ := bind_ok.1 reached
  cases loopedOk.symm.trans loopedOk'
  obtain ⟨before, beforeOk, same⟩ := bind_ok.1 reached
  cases same
  unfold Impl.makeCastsAllowIfAllOutputsAllow at absorbed
  rw [range_eq_append_cons bound] at absorbed
  obtain ⟨before', after, beforeOk', stepped, later⟩ := foldlM_append_cons_eq_ok absorbed
  cases beforeOk.symm.trans beforeOk'
  rcases Impl.castStep_cases stepped with ⟨-, refused⟩ | ⟨-, -, -, -, index, found, same⟩
  · exact absurd takes refused
  · refine ⟨index, ready.wellFormed.indexOf_eq_some.1 found, absorbed_mono later ?_⟩
    rw [same]
    exact Finset.mem_insert_self _ _

end

/-! ## Nodes left alone -/

/-- Whether no unprocessed node is painted in its turn. -/
def SparesUnprocessed (prepared : Prepared) : Prop :=
  prepared.impl.addAllowlistOps = ∅ ∨ ∀ n < prepared.impl.graph.length, prepared.impl.shouldProcess n = false →
    ¬ (prepared.impl.isFloat32 ⟨n, .single "T"⟩ = true ∧ prepared.LoopPainted n) ∧
    ¬ prepared.CastPainted n

theorem unpainted_of_spared {allow : Finset Nat} (painted : prepared.finalAllow = .ok allow)
    {n : Nat} (unprocessed : prepared.impl.shouldProcess n = false)
    (noLoop : ¬ (prepared.impl.isFloat32 ⟨n, .single "T"⟩ = true ∧ prepared.LoopPainted n))
    (noCast : ¬ prepared.CastPainted n) (typeAttr : TypeAttrId) : prepared.impl.paints allow n typeAttr = false := by
  have ready := ready_of_prepare returned
  by_contra isPainted
  simp only [Impl.paints, Bool.not_eq_false, Bool.and_eq_true, decide_eq_true_eq] at isPainted
  obtain ⟨isFloat, inSet⟩ := isPainted
  unfold Impl.inAllow at inSet
  cases found : prepared.impl.graphTypeView.indexOf ⟨n, typeAttr⟩ with
  | none => simp [found] at inSet
  | some i =>
    rw [found] at inSet
    have atIndex := ready.wellFormed.indexOf_eq_some.1 found
    rcases finalAllow_cases returned painted (of_decide_eq_true inSet) with
      processed | ⟨m, atIndex', byLoop⟩ | ⟨m, atIndex', byCast⟩
    · rw [Impl.item_eq_of_getElem? atIndex, unprocessed] at processed
      cases processed
    · rw [atIndex] at atIndex'
      cases Option.some.inj atIndex'
      exact noLoop ⟨decide_eq_true isFloat, byLoop⟩
    · rw [atIndex] at atIndex'
      cases Option.some.inj atIndex'
      exact noCast byCast

end Late

end Prepared

/-- Every node that the optimizer must not process keeps its operator and its
attributes. -/
def LeavesAlone (settings : Config) (graph output : GraphDef) : Prop :=
  ∀ (n : Nat) old, graph[n]? = some old → settings.wantsNode old = false →
    ∃ node, output[n]? = some node ∧ node.name = old.name ∧ node.op = old.op ∧
      ∀ name, node.attr.lookup name = old.attr.lookup name

namespace Prepared

variable {settings : Config} {graph : GraphDef} {prepared : Prepared}

theorem given_node (returned : prepare settings graph = .ok prepared) {n : Nat} {old : NodeDef}
    (atOld : graph[n]? = some old) (unwanted : settings.wantsNode old = false) :
    prepared.impl.shouldProcess n = false ∧ ∃ node, prepared.impl.graph[n]? = some node ∧
      node.name = old.name ∧ node.op = old.op ∧ node.attr = old.attr := by
  obtain ⟨base, added, built, -, rfl⟩ := prepare_spec returned
  have unprocessed : n ∉ base.shouldProcessNodes := by
    rw [built.processed n old atOld, unwanted]
    exact Bool.false_ne_true
  have bound : n < base.graph.length :=
    built.length ▸ read_lt atOld
  obtain ⟨old', atOld', name, same⟩ := built.node n _ (List.getElem?_eq_getElem bound)
  rw [atOld] at atOld'
  cases atOld'
  obtain ⟨op, attr⟩ := same unprocessed
  exact ⟨decide_eq_false unprocessed, _, List.getElem?_eq_getElem bound, name, op, attr⟩

theorem unwanted_of_unprocessed (returned : prepare settings graph = .ok prepared) {n : Nat}
    (bound : n < prepared.impl.graph.length) (unprocessed : prepared.impl.shouldProcess n = false) :
    ∃ old, graph[n]? = some old ∧ settings.wantsNode old = false := by
  obtain ⟨base, added, built, -, rfl⟩ := prepare_spec returned
  have inGraph : n < graph.length := built.length ▸ bound
  refine ⟨_, List.getElem?_eq_getElem inGraph, ?_⟩
  by_contra wanted
  have processed := (built.processed n _ (List.getElem?_eq_getElem inGraph)).2 (by simpa using wanted)
  exact of_decide_eq_false unprocessed processed

theorem lookup_ne_of_painted {impl : Impl} {allow : Finset Nat} {view : MutableGraphView} (ready : impl.Ready)
    (rewriting : impl.Rewriting allow impl.nodeTypeMap.getTypeAttrs (fun _ _ => True) view)
    {n i : Nat} {name : String} {old node : NodeDef} (named : name ≠ "")
    (atIndex : impl.graphTypeView.nodeTypeAttrs[i]? = some ⟨n, .single name⟩) (mem : i ∈ allow)
    (isFloat : impl.isFloat32 ⟨n, .single name⟩ = true)
    (atOld : impl.graph[n]? = some old) (atNode : view.graph[n]? = some node) :
    node.attr.lookup name ≠ old.attr.lookup name := by
  have isPainted : impl.paints allow n (.single name) = true := by
    rw [Impl.paints, Impl.inAllow_of_getElem? ready atIndex, decide_eq_true mem, Bool.and_true]
    exact isFloat
  have wasFloat : getDataType old (.single name) = .float := by
    rw [← Impl.nodeDef_eq atOld]
    exact of_decide_eq_true isFloat
  rw [rewriting.lookup ready atOld atNode]
  simp only [getDataType, TypeAttrId.single, TypeAttrId.ofAttr, if_neg named, if_true] at wasFloat
  cases found : old.attr.lookup name with
  | none => simp [found] at wasFloat
  | some value =>
    rw [found] at wasFloat
    cases value with
    | type dtype =>
      simp only [AttrValue.typeValue] at wasFloat
      simp only [Option.map_some, repaintValue, isPainted, if_true, wasFloat, ne_eq,
        Option.some.injEq, AttrValue.type.injEq]
      unfold Impl.targetDtype
      cases impl.config.mode <;> decide
    | list | strings | bools | ints | s | i | b | f | tensor | other => simp [AttrValue.typeValue] at wasFloat

/-- The optimizer leaves nodes alone that it must not process, if and only if no such
node is a loop end or a cast that is painted in its turn. -/
theorem unprocessed_kept_iff (returned : prepare settings graph = .ok prepared)
    {output : GraphDef} (optimized : optimize settings graph = .ok output) :
    LeavesAlone settings graph output ↔ prepared.SparesUnprocessed := by
  have ready := ready_of_prepare returned
  unfold optimize at optimized
  rw [returned] at optimized
  have optimized : (if prepared.impl.addAllowlistOps = ∅ then .ok prepared.impl.graph
      else do
        let allow ← prepared.finalAllow
        let view ← prepared.impl.changeTypeAttrsAndAddCasts allow
        return view.graph : Except Failure GraphDef) = .ok output := optimized
  by_cases nothing : prepared.impl.addAllowlistOps = ∅
  · rw [if_pos nothing] at optimized
    cases optimized
    refine iff_of_true (fun n old atOld unwanted => ?_) (.inl nothing)
    obtain ⟨-, node, atNode, name, op, attr⟩ := given_node returned atOld unwanted
    exact ⟨node, atNode, name, op, fun _ => by rw [attr]⟩
  rw [if_neg nothing] at optimized
  obtain ⟨allow, painted, optimized⟩ := bind_ok.1 optimized
  obtain ⟨view, converted, same⟩ := bind_ok.1 optimized
  cases same
  have rewriting := ready.rewritten converted
  constructor
  · intro alone
    refine .inr fun n bound unprocessed => ?_
    obtain ⟨old, atOld, unwanted⟩ := unwanted_of_unprocessed returned bound unprocessed
    obtain ⟨-, before, atBefore, -, -, attr⟩ := given_node returned atOld unwanted
    obtain ⟨node, atNode, -, -, sameAttr⟩ := alone n old atOld unwanted
    refine ⟨fun byLoop => ?_, fun byCast => ?_⟩
    · obtain ⟨i, atIndex, member⟩ := mem_finalAllow_of_loop returned painted bound byLoop.2
      exact lookup_ne_of_painted ready rewriting (by decide) atIndex member byLoop.1 atBefore atNode
        (attr ▸ sameAttr "T")
    · obtain ⟨i, atIndex, member⟩ := mem_finalAllow_of_cast returned painted bound byCast
      obtain ⟨_, -, -, isFloat, -⟩ := byCast
      exact lookup_ne_of_painted ready rewriting (by decide) atIndex member isFloat atBefore atNode
        (attr ▸ sameAttr "DstT")
  · rintro (isEmpty | spared) n old atOld unwanted
    · exact absurd isEmpty nothing
    obtain ⟨unprocessed, before, atBefore, name, op, attr⟩ := given_node returned atOld unwanted
    have bound := read_lt atBefore
    obtain ⟨noLoop, noCast⟩ := spared n bound unprocessed
    have unpainted := unpainted_of_spared returned painted unprocessed noLoop noCast
    obtain ⟨node, atNode, sameName, sameOp, -⟩ := rewriting.original n before atBefore
    refine ⟨node, atNode, sameName.trans name, sameOp.trans op, fun attrName => ?_⟩
    rw [rewriting.lookup ready atBefore atNode, attr]
    cases old.attr.lookup attrName with
    | none => rfl
    | some value => rw [Option.map_some, repaintValue_none unpainted]

end Prepared

theorem optimize_of_test (settings : Config) (graph : GraphDef)
    (builtin : settings.listUpdates = {}) (off : settings.unsafeForceAll = false)
    (test : Prepared → GraphDef → Prop) [∀ prepared output, Decidable (test prepared output)]
    (passes : (do
      let view ← MutableGraphView.construct graph
      let impl ← assemble settings view
      let prepared ← impl.findTensorLists
      let allow ← prepared.finalAllow
      let converted ← prepared.impl.changeTypeAttrsAndAddCasts allow
      require (prepared.impl.addAllowlistOps ≠ ∅ ∧ test prepared converted.graph)
        (.crash "")).toBool = true) :
    ∃ prepared output, prepare settings graph = .ok prepared ∧
      optimize settings graph = .ok output ∧ test prepared output := by
  obtain ⟨_, ran⟩ := ok_of_toBool passes
  obtain ⟨view, viewOk, ran⟩ := bind_ok.1 ran
  obtain ⟨impl, implOk, ran⟩ := bind_ok.1 ran
  obtain ⟨prepared, preparedOk, ran⟩ := bind_ok.1 ran
  obtain ⟨allow, painted, ran⟩ := bind_ok.1 ran
  obtain ⟨converted, convertedOk, tested⟩ := bind_ok.1 ran
  obtain ⟨some, holds⟩ := require_eq_ok.1 tested
  have returned : prepare settings graph = .ok prepared := by
    rw [prepare_of_builtin builtin off, viewOk]
    show (assemble settings view >>= fun impl => impl.findTensorLists) = .ok prepared
    rw [implOk]
    exact preparedOk
  refine ⟨prepared, converted.graph, returned, ?_, holds⟩
  unfold optimize
  rw [returned]
  show (if prepared.impl.addAllowlistOps = ∅ then .ok prepared.impl.graph
      else do
        let allow ← prepared.finalAllow
        let view ← prepared.impl.changeTypeAttrsAndAddCasts allow
        return view.graph : Except Failure GraphDef) = .ok converted.graph
  rw [if_neg some, painted]
  show (prepared.impl.changeTypeAttrsAndAddCasts allow >>= fun view =>
    (.ok view.graph : Except Failure GraphDef)) = .ok converted.graph
  rw [convertedOk]
  rfl

theorem exponential_kept : ∃ output, optimize (sampleSettings ["exp"]) sumGraph = .ok output ∧
      LeavesAlone (sampleSettings ["exp"]) sumGraph output := by
  obtain ⟨prepared, output, returned, optimized, plain⟩ := optimize_of_test
    (sampleSettings ["exp"]) sumGraph rfl rfl
    (fun prepared _ => ∀ n < prepared.impl.graph.length,
      prepared.impl.opOf n ≠ "NextIteration" ∧ prepared.impl.opOf n ≠ "Cast") (by decide +kernel)
  refine ⟨output, optimized, (Prepared.unprocessed_kept_iff returned optimized).2 (.inr ?_)⟩
  intro n bound _
  refine ⟨fun byLoop => ?_, fun byCast => ?_⟩
  · obtain ⟨-, _, -, isLoop, -⟩ := byLoop
    exact (plain n bound).1 isLoop
  · obtain ⟨_, -, isCast, -⟩ := byCast
    exact (plain n bound).2 isCast

/-- A product of a half tensor that a fetched cast turns into float32. -/
def fetchedCastGraph : GraphDef :=
  [sampleNode "x" "Placeholder" [] [("dtype", .type .half)],
    sampleNode "fetched" "Cast" [("x", 0)] [("SrcT", .type .half), ("DstT", .type .float)],
    sampleNode "product" "MatMul" [("fetched", 0), ("fetched", 0)] (floatAttr "T")]

/-- The fetched cast now returns half. -/
theorem fetched_cast_converted : ∃ output, optimize (sampleSettings ["fetched"]) fetchedCastGraph = .ok output ∧
      ¬ LeavesAlone (sampleSettings ["fetched"]) fetchedCastGraph output := by
  obtain ⟨prepared, output, -, optimized, changed⟩ := optimize_of_test
    (sampleSettings ["fetched"]) fetchedCastGraph rfl rfl
    (fun _ output => (output[1]?.bind fun node => node.attr.lookup "DstT") = some (.type .half))
    (by decide +kernel)
  refine ⟨output, optimized, fun alone => ?_⟩
  obtain ⟨node, atNode, -, -, sameAttr⟩ := alone 1 _ rfl (by decide +kernel)
  rw [atNode, Option.bind_some, sameAttr] at changed
  exact absurd changed (by decide +kernel)

end Itex.AutoMixedPrecision
