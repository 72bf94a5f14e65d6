import Itex.AutoMixedPrecision.Safety

/-!
Contract: the colours of whole tensor lists.

Owns: clusters as equivalence classes of handles, the effect of forcing every
cluster to one colour, and that the passes after it leave element types alone.
-/

namespace Itex.AutoMixedPrecision

open Itex.Lib Itex.Lib.DepthFirst Itex.Graph

namespace Impl

variable {C D : List Nat} {allow : Finset Nat} {f i n r : Nat} {impl : Impl}

/-! ## Handles -/

/-- The dtype that a type of a node denotes. -/
def dataTypeAt (impl : Impl) (i : Nat) : DataType :=
  getDataType (impl.nodeDef (impl.item i).node) (impl.item i).typeAttr

/-- Every edge joins types of one dtype. -/
def EdgesConsistent (impl : Impl) : Prop :=
  ∀ edge ∈ impl.graphTypeView.edges, impl.dataTypeAt edge.1 = impl.dataTypeAt edge.2

instance (impl : Impl) : Decidable impl.EdgesConsistent :=
  inferInstanceAs (Decidable (∀ edge ∈ impl.graphTypeView.edges, _))

/-- A float32 type attribute that is not an entry of a list. -/
def IsElement (impl : Impl) (i : Nat) : Prop :=
  (impl.item i).typeAttr.fixedType = .invalid ∧ (impl.item i).typeAttr.typeIndex = TypeAttrId.kSingleType ∧
    impl.isFloat32 (impl.item i) = true

instance (impl : Impl) (i : Nat) : Decidable (impl.IsElement i) :=
  inferInstanceAs (Decidable (_ ∧ _ ∧ _))

/-- What the optimizer takes for float32 tensor-list nodes has the shape of one: it
calls no function, its handles are its only variants, and it has one element type. -/
def ProperTensorLists (impl : Impl) : Prop :=
  ∀ i ∈ impl.indices, (impl.getTensorListFloat32NodeTypeId (impl.item i).node).isSome = true →
    impl.config.registry.isFunction (impl.itemOp i) = false ∧
    (impl.dataTypeAt i = .variant → (impl.item i).typeAttr = .fixed .variant) ∧
    (impl.IsElement i → ∀ j ∈ impl.indices, (impl.item j).node = (impl.item i).node → impl.IsElement j → j = i)

instance (impl : Impl) : Decidable impl.ProperTensorLists :=
  inferInstanceAs (Decidable (∀ i ∈ impl.indices, _))

theorem linked_trans {a b c : Nat} (left : impl.Linked a b) (right : impl.Linked b c) : impl.Linked a c := by
  induction right with
  | root isRoot => exact isRoot ▸ left
  | step _ edge admits ih => exact .step ih edge admits

theorem next_symm {j : Nat} (edge : j ∈ impl.next .followInputsAndOutputs i) :
    i ∈ impl.next .followInputsAndOutputs j := by
  rcases List.mem_append.1 edge with backward | forward
  · exact List.mem_append.2 (.inr (GraphTypeTopologyView.mem_getFanout.2
      (GraphTypeTopologyView.mem_getFanin.1 backward)))
  · exact List.mem_append.2 (.inl (GraphTypeTopologyView.mem_getFanin.2
      (GraphTypeTopologyView.mem_getFanout.1 forward)))

theorem linked_symm {a b : Nat} (linked : impl.Linked a b) : impl.Linked b a := by
  induction linked with
  | root isRoot => exact .root isRoot.symm
  | @step i j _ edge _ ih =>
    have oneStep : impl.Linked j i := .step (.root rfl) (next_symm edge) trivial
    exact linked_trans oneStep ih

theorem linked_bound (wf : impl.graphTypeView.WellFormed)
    (bound : r < impl.numTypes) (linked : impl.Linked r i) : i < impl.numTypes := by
  cases linked with
  | root isRoot => exact isRoot ▸ bound
  | step _ edge _ => exact wf.neighbours_lt _ edge

theorem linked_dataType (consistent : impl.EdgesConsistent)
    (linked : impl.Linked r i) : impl.dataTypeAt i = impl.dataTypeAt r := by
  induction linked with
  | root isRoot => rw [isRoot]
  | step _ edge _ ih =>
    rw [← ih]
    rcases List.mem_append.1 edge with backward | forward
    · exact consistent _ (GraphTypeTopologyView.mem_getFanin.1 backward)
    · exact (consistent _ (GraphTypeTopologyView.mem_getFanout.1 forward)).symm

section Classes

variable (wired : impl.Wired) (consistent : impl.EdgesConsistent)
  (proper : impl.ProperTensorLists)
include wired

theorem ClusterRoot.dataType (root : impl.ClusterRoot r f) : impl.dataTypeAt r = .variant := by
  have isTyped := (wired.mirrors.typed (impl.item r)).1
    (List.mem_of_getElem? (getElem?_item root.bound))
  obtain ⟨opDef, -, described⟩ := wired.described _ _ (List.getElem?_eq_getElem isTyped.1)
  have canonical := described.canonical isTyped.2
  have unnamed : (impl.item r).typeAttr.attrName = "" := by
    by_contra named
    have isFixed := canonical named
    rw [root.handle] at isFixed
    cases isFixed
  unfold dataTypeAt getDataType
  rw [if_pos unnamed, root.handle]

include consistent proper

theorem inCluster_iff (root : impl.ClusterRoot r f) :
    impl.InCluster r n ↔ (impl.getTensorListFloat32NodeTypeId n).isSome = true ∧
      ∃ i, impl.Linked r i ∧ impl.item i = ⟨n, .fixed .variant⟩ := by
  unfold InCluster
  apply and_congr_right
  intro isList
  constructor
  · rintro ⟨i, linked, isNode⟩
    have bound := linked_bound wired.mirrors.wellFormed root.bound linked
    have isVariant := (linked_dataType consistent linked).trans (root.dataType wired)
    have isHandle := (proper i (mem_indices.2 bound) (isNode ▸ isList)).2.1 isVariant
    refine ⟨i, linked, ?_⟩
    rw [← isNode, ← isHandle]
  · rintro ⟨i, linked, isItem⟩
    exact ⟨i, linked, by rw [isItem]⟩

theorem inCluster_congr {r' f' : Nat} (root : impl.ClusterRoot r f)
    (root' : impl.ClusterRoot r' f') (left : impl.InCluster r n) (right : impl.InCluster r' n)
    (m : Nat) : impl.InCluster r m ↔ impl.InCluster r' m := by
  have wf := wired.mirrors.wellFormed
  obtain ⟨-, i, linked, isItem⟩ := (inCluster_iff wired consistent proper root).1 left
  obtain ⟨-, j, linked', isItem'⟩ := (inCluster_iff wired consistent proper root').1 right
  have same : i = j := by
    have atLeft := getElem?_item (linked_bound wf root.bound linked)
    have atRight := getElem?_item (linked_bound wf root'.bound linked')
    rw [isItem] at atLeft
    rw [isItem'] at atRight
    exact GraphTypeTopologyView.getElem?_inj wf.typesNodup atLeft atRight
  subst same
  have across : impl.Linked r r' := linked_trans linked (linked_symm linked')
  apply and_congr_right
  intro _
  constructor
  · rintro ⟨k, reaches, isNode⟩
    exact ⟨k, linked_trans (linked_symm across) reaches, isNode⟩
  · rintro ⟨k, reaches, isNode⟩
    exact ⟨k, linked_trans across reaches, isNode⟩

theorem clusters_equal_or_disjoint (left : C ∈ impl.findFloat32TensorListOpClustersAndDenylistUnsafe.1)
    (right : D ∈ impl.findFloat32TensorListOpClustersAndDenylistUnsafe.1) : (∀ n, n ∈ C ↔ n ∈ D) ∨ ∀ n ∈ C, n ∉ D := by
  have spec := clusters_spec wired.mirrors.wellFormed
  obtain ⟨r, f, root, members⟩ := spec.1 C left
  obtain ⟨r', f', root', members'⟩ := spec.1 D right
  by_cases meets : ∃ n ∈ C, n ∈ D
  · obtain ⟨n, inC, inD⟩ := meets
    refine .inl fun m => ?_
    rw [members, members']
    exact inCluster_congr wired consistent proper root root' ((members n).1 inC)
      ((members' n).1 inD) m
  · push Not at meets
    exact .inr meets

end Classes

/-! ## Forcing every cluster -/

/-- The element types of two clusters are the same or have none in common. -/
def Separate (impl : Impl) (C D : List Nat) : Prop :=
  (∀ i, i ∈ impl.elements C ↔ i ∈ impl.elements D) ∨ ∀ i ∈ impl.elements C, i ∉ impl.elements D

theorem separate_of_clusters (wf : impl.graphTypeView.WellFormed)
    (apart : (∀ n, n ∈ C ↔ n ∈ D) ∨ ∀ n ∈ C, n ∉ D) : impl.Separate C D := by
  rcases apart with same | apart
  · refine .inl fun i => ?_
    rw [mem_elements, mem_elements]
    simp only [same]
  · refine .inr fun i left right => ?_
    obtain ⟨n, inC, found⟩ := mem_elements.1 left
    obtain ⟨m, inD, found'⟩ := mem_elements.1 right
    have isNode := (tensorListFloat32Index_spec wf found).2.1
    have isNode' := (tensorListFloat32Index_spec wf found').2.1
    exact apart n inC (isNode.symm.trans isNode' ▸ inD)

/-- A cluster of one colour, which is not allow if any of it is denied. -/
structure Settled (impl : Impl) (paint : Paint) (C : List Nat) : Prop where
  uniform : (∀ i ∈ impl.elements C, i ∈ paint.allow) ∨ ∀ i ∈ impl.elements C, i ∉ paint.allow
  denied : (∃ i ∈ impl.elements C, i ∈ paint.deny) → ∀ i ∈ impl.elements C, i ∉ paint.allow

theorem settled_force (impl : Impl) (paint : Paint) (C : List Nat) :
    impl.Settled (impl.forceColorMatchBetweenTensorListOps paint C) C := by
  rcases force_cases impl paint C with ⟨-, same⟩ | ⟨noDeny, -, same⟩ | ⟨noDeny, noAllow, same⟩
  · rw [same]
    have outside : ∀ i ∈ impl.elements C, i ∉ paint.allow \ (impl.elements C).toFinset := by
      intro i mem painted
      exact (Finset.mem_sdiff.1 painted).2 (List.mem_toFinset.2 mem)
    exact ⟨.inr outside, fun _ => outside⟩
  · rw [same]
    refine ⟨.inl fun i mem => ?_, ?_⟩
    · exact Finset.mem_union_right _ (List.mem_toFinset.2 mem)
    · rintro ⟨i, mem, isDenied⟩
      exact absurd isDenied (noDeny i mem)
  · rw [same]
    exact ⟨.inr noAllow, fun _ => noAllow⟩

theorem force_frame {paint : Paint} (outside : i ∉ impl.elements D) :
    (i ∈ (impl.forceColorMatchBetweenTensorListOps paint D).allow ↔ i ∈ paint.allow) ∧
      (i ∈ (impl.forceColorMatchBetweenTensorListOps paint D).deny ↔ i ∈ paint.deny) := by
  rcases force_cases impl paint D with ⟨-, same⟩ | ⟨-, -, same⟩ | ⟨-, -, same⟩ <;>
    rw [same] <;> simp [outside]

theorem Settled.force {paint : Paint} (settled : impl.Settled paint C) (separate : impl.Separate C D) :
    impl.Settled (impl.forceColorMatchBetweenTensorListOps paint D) C := by
  rcases separate with same | apart
  · have forced := settled_force impl paint D
    constructor
    · simp only [same]
      exact forced.uniform
    · simp only [same]
      exact forced.denied
  · constructor
    · refine settled.uniform.imp ?_ ?_
      · exact fun inside i mem => (force_frame (apart i mem)).1.2 (inside i mem)
      · exact fun outside i mem painted =>
          outside i mem ((force_frame (apart i mem)).1.1 painted)
    · rintro ⟨k, isElement, isDenied⟩ i mem painted
      exact settled.denied ⟨k, isElement, (force_frame (apart k isElement)).2.1 isDenied⟩ i mem
        ((force_frame (apart i mem)).1.1 painted)

theorem settled_forceAll {clusters : List (List Nat)}
    (separate : ∀ C ∈ clusters, ∀ D ∈ clusters, impl.Separate C D) (paint : Paint) : ∀ C ∈ clusters,
      impl.Settled (clusters.foldl impl.forceColorMatchBetweenTensorListOps paint) C := by
  suffices ∀ (rest seen : List (List Nat)) (paint : Paint), (∀ C ∈ rest, C ∈ clusters) →
      (∀ C ∈ seen, C ∈ clusters ∧ impl.Settled paint C) →
      ∀ C, C ∈ seen ∨ C ∈ rest → impl.Settled (rest.foldl impl.forceColorMatchBetweenTensorListOps paint) C from
    fun C mem => this clusters [] paint (fun _ listed => listed) (by simp) C (.inr mem)
  intro rest
  induction rest with
  | nil =>
    intro seen paint _ done C mem
    exact (done C (mem.resolve_right (by simp))).2
  | cons head tail ih =>
    intro seen paint listed done C mem
    have headListed : head ∈ clusters := listed head (by simp)
    refine ih (head :: seen) _
      (fun D later => listed D (List.mem_cons_of_mem _ later)) ?_ C ?_
    · intro D isSeen
      rcases List.mem_cons.1 isSeen with rfl | isSeen
      · exact ⟨headListed, settled_force impl paint D⟩
      · obtain ⟨isCluster, settled⟩ := done D isSeen
        exact ⟨isCluster, settled.force (separate D isCluster head headListed)⟩
    · rw [List.mem_cons] at mem ⊢
      tauto

section Late

variable (ready : impl.Ready)
include ready

theorem Ready.recurrentStep_frame {allow' : Finset Nat}
    (bound : n < impl.graph.length) (ran : impl.recurrentStep allow n = .ok allow')
    (isList : isTensorListOp (impl.itemOp i) = true) : i ∈ allow' ↔ i ∈ allow := by
  rcases recurrentStep_cases ran with ⟨-, same⟩ | ⟨isLoop, merges, nextIteration, mergesOk, indexOk, cases⟩
  · rw [same]
  have notNext : i ≠ nextIteration := by
    rintro rfl
    have isItem := item_eq_of_getElem? ((ready.typeTIndex_eq_ok bound).1 indexOk)
    rw [itemOp, isItem, isLoop] at isList
    exact absurd isList (by decide)
  have notMerge : i ∉ merges := by
    intro isMerge
    obtain ⟨port, isPort, mergeOk⟩ := mem_source_of_mapM mergesOk isMerge
    obtain ⟨d, k, src, dst, rfl, -, dstNode, -⟩ := ready.consistent.mem_getFanout.1 isPort
    have dstBound := read_lt dstNode
    unfold mergeIndex at mergeOk
    split at mergeOk
    next isOp =>
      have isItem := item_eq_of_getElem? ((ready.typeTIndex_eq_ok dstBound).1 mergeOk)
      rw [itemOp, isItem, isOp] at isList
      exact absurd isList (by decide)
    · cases mergeOk
  rcases cases with ⟨-, same⟩ | ⟨-, same⟩
  · rw [same]
    simp [notNext, notMerge]
  · rw [same]
    simp [notNext]

theorem Ready.castStep_frame {allow' : Finset Nat} (ran : impl.castStep allow n = .ok allow')
    (isList : isTensorListOp (impl.itemOp i) = true) : i ∈ allow' ↔ i ∈ allow := by
  rcases castStep_cases ran with ⟨same, -⟩ | ⟨isCast, -, -, -, index, found, same⟩
  · rw [same]
  · have notCast : i ≠ index := by
      rintro rfl
      have isItem := item_eq_of_getElem? (ready.wellFormed.indexOf_eq_some.1 found)
      rw [itemOp, isItem, isCast] at isList
      exact absurd isList (by decide)
    rw [same]
    simp [notCast]

end Late

end Impl

namespace Prepared

variable {settings : Config} {graph : GraphDef} {prepared : Prepared}

theorem finalAllow_frame (ready : prepared.impl.Ready)
    (painted : prepared.finalAllow = .ok allow) (isList : isTensorListOp (prepared.impl.itemOp i) = true) :
    i ∈ allow ↔ i ∈ prepared.afterLists.allow := by
  obtain ⟨looped, loopedOk, absorbed⟩ := bind_ok.1 painted
  have loops : i ∈ looped ↔ i ∈ prepared.afterLists.allow := by
    refine foldlM_invariant
      (fun _ allow => i ∈ allow ↔ i ∈ prepared.afterLists.allow) Iff.rfl ?_ loopedOk
    intro seen n rest before after split holds stepped
    have bound : n < prepared.impl.graph.length := by
      rw [← List.mem_range, split]
      simp
    exact (ready.recurrentStep_frame bound stepped isList).trans holds
  refine foldlM_invariant (fun _ allow => i ∈ allow ↔ i ∈ prepared.afterLists.allow) loops ?_
    absorbed
  intro seen n rest before after split holds stepped
  exact (ready.castStep_frame stepped isList).trans holds

/-- Joined by edges between handles. -/
def HandleLinked (impl : Impl) : Nat → Nat → Prop :=
  Relation.ReflTransGen fun i j => j ∈ impl.next .followInputsAndOutputs i ∧
    impl.dataTypeAt i = .variant ∧ impl.dataTypeAt j = .variant

/-- A cluster that must not be converted: one of its nodes is not to be processed,
or one of its handles is linked to a source or a sink. -/
def UnsafeCluster (impl : Impl) (C : List Nat) : Prop :=
  ∃ n ∈ C, impl.shouldProcess n = false ∨
    ∃ i j, i < impl.numTypes ∧ (impl.item i).node = n ∧ impl.dataTypeAt i = .variant ∧
      HandleLinked impl i j ∧ impl.isSourceOrSinkOp (impl.itemOp j) = true

structure ListsColouredWhole (impl : Impl) (clusters : List (List Nat)) (allow : Finset Nat) : Prop where
  equalOrDisjoint : ∀ C ∈ clusters, ∀ D ∈ clusters, (∀ n, n ∈ C ↔ n ∈ D) ∨ ∀ n ∈ C, n ∉ D
  uniform : ∀ C ∈ clusters, (∀ i < impl.numTypes, (impl.item i).node ∈ C → impl.IsElement i → i ∈ allow) ∨
    (∀ i < impl.numTypes, (impl.item i).node ∈ C → impl.IsElement i → i ∉ allow)
  unsafeOutside : ∀ C ∈ clusters, UnsafeCluster impl C →
    ∀ i < impl.numTypes, (impl.item i).node ∈ C → impl.IsElement i → i ∉ allow

theorem mem_elements_of_isElement {impl : Impl} (wf : impl.graphTypeView.WellFormed)
    (proper : impl.ProperTensorLists)
    (isList : ∀ n ∈ C, (impl.getTensorListFloat32NodeTypeId n).isSome = true)
    (bound : i < impl.numTypes) (inCluster : (impl.item i).node ∈ C)
    (isElement : impl.IsElement i) : i ∈ impl.elements C := by
  have isSome := isList _ inCluster
  obtain ⟨e, found⟩ := Option.isSome_iff_exists.1
    ((impl.tensorListFloat32Index_isSome (impl.item i).node).trans isSome)
  obtain ⟨eBound, isNode, -, isFloat, isFixed, isSingle⟩ :=
    Impl.tensorListFloat32Index_spec wf found
  have same : e = i := (proper i (Impl.mem_indices.2 bound) isSome).2.2 isElement e
    (Impl.mem_indices.2 eBound) isNode ⟨isFixed, isSingle, isFloat⟩
  exact Impl.mem_elements.2 ⟨_, inCluster, same ▸ found⟩

theorem isFunction_of_sourceOrSink {impl : Impl} {op : String}
    (isList : isTensorListOp op = true) (isSource : impl.isSourceOrSinkOp op = true) :
    impl.config.registry.isFunction op = true := by
  unfold Impl.isSourceOrSinkOp at isSource
  rw [Bool.or_eq_true, decide_eq_true_eq] at isSource
  refine isSource.resolve_left fun listed => ?_
  have plain : ∀ op ∈ ["_Arg", "_Retval", "OptionalFromValue", "OptionalGetValue",
      "PartitionedCall", "Placeholder", "StatefulPartitionedCall"],
      isTensorListOp op = false := by decide +kernel
  rw [plain op listed] at isList
  cases isList

theorem linked_of_handleLinked {base : Impl} {added : List (Nat × Nat)} (wf : base.graphTypeView.WellFormed)
    (implicit : ∀ i j, (i, j) ∈ added → base.Implicit i j) {j : Nat}
    (linked : HandleLinked (base.withEdges added) i j) : base.Linked i j := by
  have notAdded : ∀ {a b : Nat}, (a, b) ∈ added → base.dataTypeAt a ≠ .variant := by
    intro a b isAdded isVariant
    obtain ⟨_, _, _, _, -, -, -, -, -, -, writes⟩ := implicit a b isAdded
    have isFloat : base.dataTypeAt a = .float :=
      of_decide_eq_true (Impl.tensorListFloat32Index_spec wf writes).2.2.2.1
    rw [isVariant] at isFloat
    cases isFloat
  induction linked with
  | refl => exact .root rfl
  | @tail k l _ step ih =>
    obtain ⟨edge, isVariant, isVariant'⟩ := step
    refine .step ih ?_ trivial
    show l ∈ base.graphTypeView.getFanin k ++ base.graphTypeView.getFanout k
    rw [List.mem_append, GraphTypeTopologyView.mem_getFanin, GraphTypeTopologyView.mem_getFanout]
    rcases List.mem_append.1 edge with backward | forward
    · rcases List.mem_append.1 (GraphTypeTopologyView.mem_getFanin.1 backward) with old | new
      · exact .inl old
      · exact absurd isVariant' (notAdded new)
    · rcases List.mem_append.1 (GraphTypeTopologyView.mem_getFanout.1 forward) with old | new
      · exact .inr old
      · exact absurd isVariant (notAdded new)

section Classes

variable (ran : prepare settings graph = .ok prepared)
  (consistent : prepared.impl.EdgesConsistent) (proper : prepared.impl.ProperTensorLists)
include ran

theorem isSome_of_mem_cluster (isCluster : C ∈ prepared.clusters)
    (inCluster : n ∈ C) : (prepared.impl.getTensorListFloat32NodeTypeId n).isSome = true := by
  obtain ⟨base, added, built, implicit, rfl⟩ := prepare_spec ran
  obtain ⟨r, f, -, members⟩ := (Impl.clusters_spec built.wired.mirrors.wellFormed).1 C isCluster
  exact ((members n).1 inCluster).1

include consistent proper

theorem equal_or_disjoint (left : C ∈ prepared.clusters)
    (right : D ∈ prepared.clusters) : (∀ n, n ∈ C ↔ n ∈ D) ∨ ∀ n ∈ C, n ∉ D := by
  obtain ⟨base, added, built, implicit, rfl⟩ := prepare_spec ran
  exact Impl.clusters_equal_or_disjoint built.wired
    (fun edge mem => consistent edge (List.mem_append_left added mem)) proper left right

theorem seeded_of_unsafe (isCluster : C ∈ prepared.clusters) (isUnsafe : UnsafeCluster prepared.impl C) :
    ∃ f ∈ prepared.impl.elements C, f ∈ prepared.denySeed := by
  obtain ⟨base, added, built, implicit, rfl⟩ := prepare_spec ran
  have wf := built.wired.mirrors.wellFormed
  have baseProper : base.ProperTensorLists := proper
  have spec := Impl.clusters_spec wf
  obtain ⟨r, f, root, members⟩ := spec.1 C isCluster
  obtain ⟨n, inCluster, reason⟩ := isUnsafe
  obtain ⟨isList, k, toHandle, isHandle⟩ := (Impl.inCluster_iff built.wired
    (fun edge mem => consistent edge (List.mem_append_left added mem)) baseProper root).1
    ((members n).1 inCluster)
  have hazard : ∃ j, base.Linked r j ∧ base.Hazard j := by
    rcases reason with unprocessed | ⟨i, j, bound, isNode, isVariant, linked, isSource⟩
    · refine ⟨k, toHandle, ?_⟩
      unfold Impl.Hazard
      rw [isHandle, if_pos isList]
      exact unprocessed
    · have isFixed : (base.item i).typeAttr = .fixed .variant :=
        (baseProper i (Impl.mem_indices.2 bound) (isNode ▸ isList)).2.1 isVariant
      have same : i = k := by
        have atI := Impl.getElem?_item (show i < base.numTypes from bound)
        have atK := Impl.getElem?_item (Impl.linked_bound wf root.bound toHandle)
        have isItem : base.item i = base.item k := by
          rw [isHandle, ← isFixed, ← show (base.item i).node = n from isNode]
        rw [isItem] at atI
        exact GraphTypeTopologyView.getElem?_inj wf.typesNodup atI atK
      have onward := linked_of_handleLinked wf (fun a b => (implicit a b).1) linked
      have toSource : base.Linked r j := Impl.linked_trans toHandle (same ▸ onward)
      refine ⟨j, toSource, ?_⟩
      unfold Impl.Hazard
      by_cases isOther : (base.getTensorListFloat32NodeTypeId (base.item j).node).isSome = true
      · -- A tensor-list node that is a source or sink would call a function.
        have isListOp : isTensorListOp (base.itemOp j) = true := by
          unfold Impl.getTensorListFloat32NodeTypeId at isOther
          split at isOther
          next isListOp => exact isListOp
          · cases isOther
        have isFunction : base.config.registry.isFunction (base.itemOp j) = true :=
          isFunction_of_sourceOrSink isListOp isSource
        have jBound := Impl.linked_bound wf root.bound toSource
        rw [(baseProper j (Impl.mem_indices.2 jBound) isOther).1] at isFunction
        cases isFunction
      · rw [if_neg isOther]
        exact isSource
  refine ⟨f, ?_, (spec.2.2 f).2 ⟨r, root, hazard⟩⟩
  have rootIsList : (base.getTensorListFloat32NodeTypeId (base.item r).node).isSome = true := by
    rw [← Impl.tensorListFloat32Index_isSome, root.element]
    rfl
  exact Impl.mem_elements.2
    ⟨_, (members _).2 ⟨rootIsList, r, .root rfl, rfl⟩, root.element⟩

end Classes

/-- On a graph with consistent edges, whose tensor-list nodes are proper, clusters are
equal or disjoint, and each has one colour, which is not allow if it is unsafe. -/
theorem lists_coloured_whole (returned : prepare settings graph = .ok prepared)
    (consistent : prepared.impl.EdgesConsistent) (proper : prepared.impl.ProperTensorLists)
    {allow : Finset Nat} (painted : prepared.finalAllow = .ok allow) :
    ListsColouredWhole prepared.impl prepared.clusters allow := by
  have ready := ready_of_prepare returned
  have apart := fun C left D right => equal_or_disjoint returned consistent proper
    (show C ∈ prepared.clusters from left) (show D ∈ prepared.clusters from right)
  have settled : ∀ C ∈ prepared.clusters, prepared.impl.Settled prepared.afterLists C :=
    Impl.settled_forceAll (fun C left D right =>
      Impl.separate_of_clusters ready.wellFormed (apart C left D right)) prepared.afterPass6
  have seedDenied : prepared.denySeed ⊆ prepared.afterLists.deny := by
    intro k seeded
    apply deny_subset prepared
    rw [afterPass2, Impl.mem_propagateDeny ready.wellFormed]
    exact .inl seeded
  -- An element type of a cluster's node is forced with the cluster, and what the
  -- forcing leaves is what the run ends with.
  have forced : ∀ C ∈ prepared.clusters, ∀ i < prepared.impl.numTypes,
      (prepared.impl.item i).node ∈ C → prepared.impl.IsElement i →
      i ∈ prepared.impl.elements C ∧ (i ∈ allow ↔ i ∈ prepared.afterLists.allow) := by
    intro C isCluster i bound inCluster element
    have member := mem_elements_of_isElement ready.wellFormed proper
      (fun n inC => isSome_of_mem_cluster returned isCluster inC) bound inCluster element
    exact ⟨member, finalAllow_frame ready painted
      (Impl.isTensorListOp_of_mem_elements ready.wellFormed member)⟩
  refine ⟨apart, fun C isCluster => ?_, fun C isCluster isUnsafe => ?_⟩
  · refine (settled C isCluster).uniform.imp ?_ ?_
    · intro inside i bound inCluster element
      obtain ⟨member, same⟩ := forced C isCluster i bound inCluster element
      exact same.2 (inside i member)
    · intro outside i bound inCluster element inAllow
      obtain ⟨member, same⟩ := forced C isCluster i bound inCluster element
      exact outside i member (same.1 inAllow)
  · obtain ⟨f, isElement, seeded⟩ := seeded_of_unsafe returned consistent proper isCluster isUnsafe
    intro i bound inCluster element inAllow
    obtain ⟨member, same⟩ := forced C isCluster i bound inCluster element
    exact (settled C isCluster).denied ⟨f, isElement, seedDenied seeded⟩ i member (same.1 inAllow)

end Prepared

/-- A product that goes through a tensor list on its way to the next product. -/
def listGraph (between : List NodeDef) (handle : String) : GraphDef :=
  [sampleNode "x" "Placeholder" [] (floatAttr "dtype"), sampleNode "shape" "Placeholder" [] [("dtype", .type .int32)],
    sampleNode "product" "MatMul" [("x", 0), ("x", 0)] (floatAttr "T"),
    sampleNode "list" "EmptyTensorList" [("shape", 0), ("shape", 0)]
      [("element_dtype", .type .float), ("shape_type", .type .int32)],
    sampleNode "push" "TensorListPushBack" [("list", 0), ("product", 0)]
      (floatAttr "element_dtype")] ++ between ++
    [sampleNode "pop" "TensorListPopBack" [(handle, 0), ("shape", 0)] (floatAttr "element_dtype"),
      sampleNode "result" "MatMul" [("pop", 1), ("x", 0)] (floatAttr "T")]

theorem lists_coloured_whole_between_products : ∃ prepared allow,
    prepare (sampleSettings []) (listGraph [] "push") = .ok prepared ∧
    prepared.finalAllow = .ok allow ∧ [3, 4, 5] ∈ prepared.clusters ∧
    Prepared.ListsColouredWhole prepared.impl prepared.clusters allow := by
  obtain ⟨prepared, allow, isPrepared, painted, consistent, proper, isCluster⟩ := run_of_test
    (sampleSettings []) (listGraph [] "push") rfl rfl
    (fun prepared _ => prepared.impl.EdgesConsistent ∧ prepared.impl.ProperTensorLists ∧
      [3, 4, 5] ∈ prepared.clusters) (by decide +kernel)
  exact ⟨prepared, allow, isPrepared, painted, isCluster,
    Prepared.lists_coloured_whole isPrepared consistent proper painted⟩

/-- A library with a function whose name looks like a tensor-list operator. -/
def functionSettings : Config :=
  { sampleSettings [] with
    registry :=
      { lookUpOpDef := fun op =>
          if op = "TensorListStep" then
            .ok ⟨[{ type := .variant }], [{ type := .variant }], [⟨"T", .type, []⟩]⟩
          else sampleRegistry.lookUpOpDef op
        isFunction := fun op => op == "TensorListStep" } }

/-- The list is handed to a function and is painted all the same. -/
theorem list_painted_through_function : ∃ prepared allow, prepare functionSettings
      (listGraph [sampleNode "step" "TensorListStep" [("push", 0)] (floatAttr "T")] "step") = .ok prepared ∧
    prepared.impl.EdgesConsistent ∧ prepared.finalAllow = .ok allow ∧
    ¬ Prepared.ListsColouredWhole prepared.impl prepared.clusters allow := by
  obtain ⟨prepared, allow, isPrepared, painted, consistent, isCluster, bounds, edge, handles,
    isSource, element⟩ := run_of_test functionSettings
    (listGraph [sampleNode "step" "TensorListStep" [("push", 0)] (floatAttr "T")] "step") rfl rfl
    (fun prepared allow => prepared.impl.EdgesConsistent ∧ [3, 4, 5, 6] ∈ prepared.clusters ∧
      (7 < prepared.impl.numTypes ∧ 8 < prepared.impl.numTypes) ∧
      9 ∈ prepared.impl.next .followInputsAndOutputs 7 ∧
      ((prepared.impl.item 7).node = 4 ∧ prepared.impl.dataTypeAt 7 = .variant ∧
        prepared.impl.dataTypeAt 9 = .variant) ∧
      prepared.impl.isSourceOrSinkOp (prepared.impl.itemOp 9) = true ∧
      ((prepared.impl.item 8).node = 4 ∧ prepared.impl.IsElement 8 ∧ 8 ∈ allow))
    (by decide +kernel)
  refine ⟨prepared, allow, isPrepared, consistent, painted, fun whole => ?_⟩
  have isUnsafe : Prepared.UnsafeCluster prepared.impl [3, 4, 5, 6] :=
    ⟨4, by simp, .inr ⟨7, 9, bounds.1, handles.1, handles.2.1, .single ⟨edge, handles.2⟩, isSource⟩⟩
  exact whole.unsafeOutside _ isCluster isUnsafe 8 bounds.2 (by simp [element.1]) element.2.1
    element.2.2

end Itex.AutoMixedPrecision
