import Itex.AutoMixedPrecision.Passes

/-!
Contract: tensor-list clusters, the types denied with them, and the ephemeral edges.

Owns: the clusters of a graph as connected components of handle edges, the edges
from writers to readers, and the optimizer as it stands when the passes begin.
-/

namespace Itex.AutoMixedPrecision

open Itex.Lib Itex.Lib.DepthFirst Itex.Graph

namespace Impl

variable {impl : Impl}

/-- A type from which a cluster is collected: the handle of a processed float32
tensor-list node, whose element type is `f`. -/
structure ClusterRoot (impl : Impl) (r f : Nat) : Prop where
  bound : r < impl.numTypes
  processed : impl.shouldProcess (impl.item r).node = true
  handle : (impl.item r).typeAttr.fixedType = .variant
  element : impl.tensorListFloat32Index (impl.item r).node = some f

/-- Connected by edges in either direction. -/
def Linked (impl : Impl) (r i : Nat) : Prop :=
  Reach (impl.next .followInputsAndOutputs) (fun _ => True) (· = r) i

/-- A float32 tensor-list node with a type linked to `r`. -/
def InCluster (impl : Impl) (r n : Nat) : Prop :=
  (impl.getTensorListFloat32NodeTypeId n).isSome = true ∧ ∃ i, impl.Linked r i ∧ (impl.item i).node = n

/-- A type that makes the clusters linked to it unsafe. -/
def Hazard (impl : Impl) (i : Nat) : Prop :=
  if (impl.getTensorListFloat32NodeTypeId (impl.item i).node).isSome then
    impl.shouldProcess (impl.item i).node = false
  else impl.isSourceOrSinkOp (impl.opOf (impl.item i).node) = true

/-- The pre-order callback of the cluster traversal. -/
def clusterVisit (impl : Impl) (f : Nat) (state : List Nat × Finset Nat) (idx : Nat) : List Nat × Finset Nat :=
  let node := (impl.item idx).node
  if (impl.getTensorListFloat32NodeTypeId node).isSome then
    (state.1.insert node, if impl.shouldProcess node then state.2 else insert f state.2)
  else if impl.isSourceOrSinkOp (impl.opOf node) then (state.1, insert f state.2)
  else state

theorem mem_clusterVisit (impl : Impl) (f idx : Nat) (state : List Nat × Finset Nat) :
    (∀ n, n ∈ (impl.clusterVisit f state idx).1 ↔ n ∈ state.1 ∨
      ((impl.getTensorListFloat32NodeTypeId n).isSome = true ∧ (impl.item idx).node = n)) ∧
    ∀ k, k ∈ (impl.clusterVisit f state idx).2 ↔ k ∈ state.2 ∨ (k = f ∧ impl.Hazard idx) := by
  unfold clusterVisit Hazard
  dsimp only
  by_cases isList : (impl.getTensorListFloat32NodeTypeId (impl.item idx).node).isSome = true
  · grind
  · grind

theorem mem_foldl_clusterVisit (impl : Impl) (f : Nat) (visited : List Nat) (state : List Nat × Finset Nat) :
    (∀ n, n ∈ (visited.foldl (impl.clusterVisit f) state).1 ↔ n ∈ state.1 ∨
      ((impl.getTensorListFloat32NodeTypeId n).isSome = true ∧ ∃ i ∈ visited, (impl.item i).node = n)) ∧
    ∀ k, k ∈ (visited.foldl (impl.clusterVisit f) state).2 ↔ k ∈ state.2 ∨ (k = f ∧ ∃ i ∈ visited, impl.Hazard i) := by
  induction visited generalizing state with
  | nil => simp
  | cons head tail ih =>
    have visit := mem_clusterVisit impl f head state
    grind

theorem clusterStep_spec (wellFormed : impl.graphTypeView.WellFormed)
    (found : List (List Nat) × Finset Nat) {r : Nat} (bound : r < impl.numTypes) :
    (∃ f cluster, impl.ClusterRoot r f ∧ (∀ n, n ∈ cluster ↔ impl.InCluster r n) ∧
      (impl.clusterStep found r).1 = found.1 ++ [cluster] ∧ ∀ k, k ∈ (impl.clusterStep found r).2 ↔ k ∈ found.2 ∨
        (k = f ∧ ∃ i, impl.Linked r i ∧ impl.Hazard i)) ∨
    ((¬ ∃ f, impl.ClusterRoot r f) ∧ impl.clusterStep found r = found) := by
  unfold clusterStep
  dsimp only
  split
  next isHandle =>
    split
    next noElement =>
      refine .inr ⟨?_, rfl⟩
      rintro ⟨f, root⟩
      rw [root.element] at noElement
      cases noElement
    next f element =>
      have root : impl.ClusterRoot r f := ⟨bound, isHandle.1, isHandle.2, element⟩
      obtain ⟨visited, -, reached, result⟩ := dfs_spec wellFormed .followInputsAndOutputs
        (fun _ _ => true) (impl.clusterVisit f) ([(impl.item r).node], found.2) (fun _ => True)
        (indexOf_item wellFormed bound) (by simp)
      have visits : ∀ i, i ∈ visited ↔ impl.Linked r i := fun i =>
        (reached i).trans (reach_congr (fun _ => Iff.rfl) (by simp) i)
      have marks := mem_foldl_clusterVisit impl f visited
        ([(impl.item r).node], found.2)
      refine .inl ⟨f, _, root, ?_, rfl, ?_⟩
      · intro n
        show n ∈ (impl.dfs (impl.item r) .followInputsAndOutputs (fun _ _ => true)
          (impl.clusterVisit f) ([(impl.item r).node], found.2)).1 ↔ _
        rw [result, marks.1]
        simp only [visits, List.mem_singleton]
        unfold InCluster
        constructor
        · rintro (rfl | mem)
          · refine ⟨?_, r, .root rfl, rfl⟩
            unfold tensorListFloat32Index at element
            obtain ⟨item, isItem, -⟩ := Option.bind_eq_some_iff.1 element
            simp [isItem]
          · exact mem
        · exact .inr
      · intro k
        show k ∈ (impl.dfs (impl.item r) .followInputsAndOutputs (fun _ _ => true)
          (impl.clusterVisit f) ([(impl.item r).node], found.2)).2 ↔ _
        rw [result, marks.2]
        simp only [visits]
  next notHandle =>
    refine .inr ⟨?_, rfl⟩
    rintro ⟨f, root⟩
    exact notHandle ⟨root.processed, root.handle⟩

theorem clusters_spec (wellFormed : impl.graphTypeView.WellFormed) :
    (∀ cluster ∈ impl.findFloat32TensorListOpClustersAndDenylistUnsafe.1,
      ∃ r f, impl.ClusterRoot r f ∧ ∀ n, n ∈ cluster ↔ impl.InCluster r n) ∧ (∀ r f, impl.ClusterRoot r f →
      ∃ cluster ∈ impl.findFloat32TensorListOpClustersAndDenylistUnsafe.1, ∀ n, n ∈ cluster ↔ impl.InCluster r n) ∧
    ∀ k, k ∈ impl.findFloat32TensorListOpClustersAndDenylistUnsafe.2 ↔
      ∃ r, impl.ClusterRoot r k ∧ ∃ i, impl.Linked r i ∧ impl.Hazard i := by
  unfold findFloat32TensorListOpClustersAndDenylistUnsafe
  suffices ∀ (rest : List Nat) (found : List (List Nat) × Finset Nat) (seen : Nat → Prop),
      (∀ r ∈ rest, r < impl.numTypes) →
      (∀ cluster ∈ found.1, ∃ r f, impl.ClusterRoot r f ∧ ∀ n, n ∈ cluster ↔ impl.InCluster r n) →
      (∀ r f, seen r → impl.ClusterRoot r f → ∃ cluster ∈ found.1, ∀ n, n ∈ cluster ↔ impl.InCluster r n) →
      (∀ k, k ∈ found.2 ↔ ∃ r, seen r ∧ impl.ClusterRoot r k ∧ ∃ i, impl.Linked r i ∧ impl.Hazard i) →
      (∀ cluster ∈ (rest.foldl impl.clusterStep found).1, ∃ r f, impl.ClusterRoot r f ∧
        ∀ n, n ∈ cluster ↔ impl.InCluster r n) ∧
      (∀ r f, seen r ∨ r ∈ rest → impl.ClusterRoot r f → ∃ cluster ∈ (rest.foldl impl.clusterStep found).1,
          ∀ n, n ∈ cluster ↔ impl.InCluster r n) ∧
      ∀ k, k ∈ (rest.foldl impl.clusterStep found).2 ↔ ∃ r, (seen r ∨ r ∈ rest) ∧
        impl.ClusterRoot r k ∧ ∃ i, impl.Linked r i ∧ impl.Hazard i by
    obtain ⟨sound, complete, denied⟩ := this impl.indices ([], ∅) (fun _ => False)
      (fun r mem => mem_indices.1 mem) (by simp) (by simp) (by simp)
    refine ⟨sound, fun r f root => complete r f (.inr (mem_indices.2 root.bound)) root,
      fun k => (denied k).trans ⟨?_, ?_⟩⟩
    · rintro ⟨r, -, root, hazard⟩
      exact ⟨r, root, hazard⟩
    · rintro ⟨r, root, hazard⟩
      exact ⟨r, .inr (mem_indices.2 root.bound), root, hazard⟩
  intro rest
  induction rest with
  | nil =>
    intro found seen _ sound complete denied
    simp only [List.foldl_nil, List.not_mem_nil, or_false]
    exact ⟨sound, complete, denied⟩
  | cons head tail ih =>
    intro found seen bounded sound complete denied
    have tailBounded : ∀ r ∈ tail, r < impl.numTypes := fun r mem => bounded r (by simp [mem])
    have regroup : ∀ r, ((seen r ∨ r = head) ∨ r ∈ tail) ↔ (seen r ∨ r ∈ head :: tail) := by
      intro r
      rw [List.mem_cons, or_assoc]
    simp only [← regroup, List.foldl_cons]
    apply ih _ _ tailBounded
    all_goals
      rcases clusterStep_spec wellFormed found (bounded head (by simp)) with
        ⟨f, cluster, root, members, grown, marks⟩ | ⟨notRoot, unchanged⟩
    · grind
    · rw [unchanged]
      exact sound
    · rintro r g (isSeen | rfl) isRoot
      · obtain ⟨other, mem, same⟩ := complete r g isSeen isRoot
        exact ⟨other, by simp [grown, mem], same⟩
      · exact ⟨cluster, by simp [grown], members⟩
    · rintro r g (isSeen | rfl) isRoot
      · rw [unchanged]
        exact complete r g isSeen isRoot
      · exact absurd ⟨g, isRoot⟩ notRoot
    · intro k
      rw [marks, denied]
      constructor
      · rintro (⟨r, isSeen, rest⟩ | ⟨rfl, hazard⟩)
        · exact ⟨r, .inl isSeen, rest⟩
        · exact ⟨head, .inr rfl, root, hazard⟩
      · rintro ⟨r, isSeen | rfl, isRoot, hazard⟩
        · exact .inl ⟨r, isSeen, isRoot, hazard⟩
        · exact .inr ⟨Option.some.inj (isRoot.element.symm.trans root.element), hazard⟩
    · simp_all

/-! ## Ephemeral edges -/

/-- Handles reached backwards from the handle of a reader, through processed
nodes. -/
def HandleUpstream (impl : Impl) (reader i : Nat) : Prop :=
  Reach (impl.next .followInputs) (fun k => impl.shouldProcess (impl.item k).node = true)
    (fun k => impl.graphTypeView.indexOf ⟨reader, .fixed .variant⟩ = some k ∧
      impl.shouldProcess (impl.item k).node = true) i

/-- The pre-order callback of the traversal from a reader. -/
def writerVisit (impl : Impl) (rootFp32 : NodeTypeId)
    (state : Except Failure (List NodeTypeIdEdge)) (idx : Nat) :
    Except Failure (List NodeTypeIdEdge) :=
  let node := (impl.item idx).node
  if isTensorListWriterOp (impl.opOf node) then do
    let edges ← state
    match impl.getTensorListFloat32NodeTypeId node with
    | none => .error (impl.missingFloat32 node)
    | some itemFp32 => .ok (edges ++ [⟨itemFp32, rootFp32⟩])
  else state

theorem mem_foldl_writerVisit {rootFp32 : NodeTypeId} {visited : List Nat}
    {state : Except Failure (List NodeTypeIdEdge)} {edges : List NodeTypeIdEdge}
    (ran : visited.foldl (impl.writerVisit rootFp32) state = .ok edges) :
    ∃ before, state = .ok before ∧ ∀ edge, edge ∈ edges ↔ edge ∈ before ∨
      ∃ i ∈ visited, isTensorListWriterOp (impl.opOf (impl.item i).node) = true ∧
        ∃ itemFp32, impl.getTensorListFloat32NodeTypeId (impl.item i).node = some itemFp32 ∧
          edge = ⟨itemFp32, rootFp32⟩ := by
  induction visited generalizing state with
  | nil => exact ⟨edges, ran, by simp⟩
  | cons head tail ih =>
    obtain ⟨middle, stepped, members⟩ := ih ran
    unfold writerVisit at stepped
    dsimp only at stepped
    split at stepped
    next isWriter =>
      obtain ⟨before, isBefore, stepped⟩ := bind_ok.1 stepped
      split at stepped
      · cases stepped
      next itemFp32 isItem =>
        grind
    next notWriter =>
      refine ⟨middle, stepped, fun edge => ?_⟩
      rw [members]
      simp [notWriter]

theorem mem_readerEdges (wellFormed : impl.graphTypeView.WellFormed) {reader : Nat}
    {edges : List NodeTypeIdEdge} (ran : impl.readerEdges reader = .ok edges) (edge : NodeTypeIdEdge) :
    edge ∈ edges ↔ isTensorListReaderOp (impl.opOf reader) = true ∧
      ∃ rootFp32, impl.getTensorListFloat32NodeTypeId reader = some rootFp32 ∧ ∃ i, impl.HandleUpstream reader i ∧
        isTensorListWriterOp (impl.opOf (impl.item i).node) = true ∧
        ∃ itemFp32, impl.getTensorListFloat32NodeTypeId (impl.item i).node = some itemFp32 ∧
          edge = ⟨itemFp32, rootFp32⟩ := by
  unfold readerEdges at ran
  split at ran
  next isReader =>
    split at ran
    · cases ran
    next rootFp32 isRoot =>
      simp only [isReader, isRoot, true_and, Option.some.injEq, exists_eq_left']
      cases handle : impl.graphTypeView.indexOf ⟨reader, .fixed .variant⟩ with
      | none =>
        -- A reader without a handle type starts no traversal.
        have noStart : [(⟨reader, .fixed .variant⟩ : NodeTypeId)].filterMap
            impl.graphTypeView.indexOf = [] := by simp [handle]
        have isEmpty : (.ok [] : Except Failure (List NodeTypeIdEdge)) = .ok edges := by
          rw [← ran]
          unfold dfs GraphTypeTopologyView.dfsTypeTraversal
          rw [noStart]
          unfold DepthFirst.traverse
          cases budget (List.range impl.numTypes) (impl.next .followInputs) [] <;> rfl
        cases isEmpty
        have unreached : ∀ i, ¬ impl.HandleUpstream reader i := by
          intro i reached
          induction reached with
          | root isStart =>
            rw [handle] at isStart
            cases isStart.1
          | step _ _ _ ih => exact ih
        simp [unreached]
      | some start =>
        obtain ⟨visited, -, reached, result⟩ := dfs_spec wellFormed .followInputs
          (fun _ idx => impl.shouldProcess (impl.item idx).node) (impl.writerVisit rootFp32)
          (.ok []) (fun k => impl.shouldProcess (impl.item k).node = true) handle
          (fun _ _ _ => Iff.rfl)
        have folded : visited.foldl (impl.writerVisit rootFp32) (.ok []) = .ok edges :=
          result.symm.trans ran
        obtain ⟨before, isBefore, members⟩ := mem_foldl_writerVisit folded
        cases isBefore
        have visits : ∀ i, i ∈ visited ↔ impl.HandleUpstream reader i := by
          intro i
          rw [reached]
          refine reach_congr (fun _ => Iff.rfl) (fun k => and_congr_left' ?_) i
          rw [handle]
          exact ⟨fun same => same ▸ rfl, fun same => (Option.some.inj same).symm⟩
        rw [members]
        simp only [visits, List.not_mem_nil, false_or]
  next notReader =>
    cases ran
    simp [notReader]

/-- A written element type that a reader of the same list reads. -/
def Implicit (impl : Impl) (i j : Nat) : Prop :=
  ∃ r f reader k, impl.ClusterRoot r f ∧ impl.InCluster r reader ∧ isTensorListReaderOp (impl.opOf reader) = true ∧
    impl.tensorListFloat32Index reader = some j ∧ impl.HandleUpstream reader k ∧
    isTensorListWriterOp (impl.opOf (impl.item k).node) = true ∧
    impl.tensorListFloat32Index (impl.item k).node = some i

/-- The optimizer with more edges between types. -/
def withEdges (impl : Impl) (added : List (Nat × Nat)) : Impl :=
  { impl with
    graphTypeView := { impl.graphTypeView with edges := impl.graphTypeView.edges ++ added } }

theorem tensorListFloat32Index_spec (wellFormed : impl.graphTypeView.WellFormed) {n i : Nat}
    (found : impl.tensorListFloat32Index n = some i) :
    i < impl.numTypes ∧ (impl.item i).node = n ∧ isTensorListOp (impl.opOf n) = true ∧
      impl.isFloat32 (impl.item i) = true ∧ (impl.item i).typeAttr.fixedType = .invalid ∧
      (impl.item i).typeAttr.typeIndex = TypeAttrId.kSingleType := by
  obtain ⟨item, isItem, isIndex⟩ := Option.bind_eq_some_iff.1 found
  unfold getTensorListFloat32NodeTypeId at isItem
  split at isItem
  next isList =>
    obtain ⟨typeAttr, isType, rfl⟩ := Option.map_eq_some_iff.1 isItem
    have holds := List.find?_some isType
    simp only [Bool.and_eq_true, decide_eq_true_eq] at holds
    have atIndex := wellFormed.indexOf_eq_some.1 isIndex
    have isItem := item_eq_of_getElem? atIndex
    refine ⟨read_lt atIndex, ?_, isList, ?_, ?_, ?_⟩
    · rw [isItem]
    · rw [isItem]
      exact holds.2
    · rw [isItem]
      exact holds.1.1.2
    · rw [isItem]
      exact holds.1.2
  next => cases isItem

theorem tensorListFloat32Index_item (wellFormed : impl.graphTypeView.WellFormed) {n i : Nat}
    (found : impl.tensorListFloat32Index n = some i) : isTensorListOp (impl.itemOp i) = true := by
  obtain ⟨-, isNode, isList, -⟩ := tensorListFloat32Index_spec wellFormed found
  unfold itemOp
  rwa [isNode]

theorem tensorListFloat32Index_isSome (impl : Impl) (n : Nat) :
    (impl.tensorListFloat32Index n).isSome = (impl.getTensorListFloat32NodeTypeId n).isSome := by
  unfold tensorListFloat32Index
  cases found : impl.getTensorListFloat32NodeTypeId n with
  | none => rfl
  | some item =>
    unfold getTensorListFloat32NodeTypeId at found
    split at found
    · obtain ⟨typeAttr, isType, rfl⟩ := Option.map_eq_some_iff.1 found
      have holds := List.find?_some isType
      simp only [Bool.and_eq_true] at holds
      exact holds.1.1.1
    · cases found

theorem withEdges_wellFormed {added : List (Nat × Nat)} (wellFormed : impl.graphTypeView.WellFormed)
    (implicit : ∀ i j, (i, j) ∈ added → impl.Implicit i j) : (impl.withEdges added).graphTypeView.WellFormed := by
  refine ⟨wellFormed.namesNodup, wellFormed.typesNodup, wellFormed.named, fun edge mem => ?_⟩
  rcases List.mem_append.1 mem with mem | mem
  · exact wellFormed.inRange edge mem
  · obtain ⟨_, _, _, _, -, -, -, reads, -, -, writes⟩ := implicit edge.1 edge.2 mem
    exact ⟨(tensorListFloat32Index_spec wellFormed writes).1, (tensorListFloat32Index_spec wellFormed reads).1⟩

end Impl

theorem prepare_spec {settings : Config} {graph : GraphDef} {prepared : Prepared}
    (ran : prepare settings graph = .ok prepared) :
    ∃ base added, Built settings graph base ∧ (∀ i j, (i, j) ∈ added ↔ base.Implicit i j) ∧
      prepared = ⟨base.withEdges added, base.findFloat32TensorListOpClustersAndDenylistUnsafe.1,
        base.findFloat32TensorListOpClustersAndDenylistUnsafe.2⟩ := by
  unfold prepare at ran
  obtain ⟨base, baseOk, ran⟩ := bind_ok.1 ran
  unfold Impl.findTensorLists at ran
  obtain ⟨ephemeral, ephemeralOk, ran⟩ := bind_ok.1 ran
  obtain ⟨graphTypeView, edgesOk, ran⟩ := bind_ok.1 ran
  cases ran
  have built := built_of_buildImpl baseOk
  have wellFormed := built.wired.mirrors.wellFormed
  unfold GraphTypeTopologyView.addEphemeralEdges at edgesOk
  obtain ⟨added, addedOk, edgesOk⟩ := bind_ok.1 edgesOk
  cases edgesOk
  refine ⟨base, added, built, fun i j => ?_, rfl⟩
  have clusters := Impl.clusters_spec wellFormed
  have listed : ∀ edge, edge ∈ ephemeral.flatten ↔
      ∃ cluster ∈ base.findFloat32TensorListOpClustersAndDenylistUnsafe.1, ∃ reader ∈ cluster,
        ∃ edges, base.readerEdges reader = .ok edges ∧ edge ∈ edges := by
    intro edge
    rw [mem_flatten_of_mapM ephemeralOk]
    constructor
    · rintro ⟨cluster, isCluster, edges, edgesOk, mem⟩
      obtain ⟨lists, listsOk, edgesOk⟩ := bind_ok.1 edgesOk
      cases edgesOk
      exact ⟨cluster, isCluster, (mem_flatten_of_mapM listsOk).1 mem⟩
    · rintro ⟨cluster, isCluster, reader, inCluster, edges, edgesOk, mem⟩
      obtain ⟨edges', -, ok⟩ := mem_result_of_mapM ephemeralOk isCluster
      obtain ⟨lists, listsOk, same⟩ := bind_ok.1 ok
      cases same
      refine ⟨cluster, isCluster, _, ok, ?_⟩
      exact (mem_flatten_of_mapM listsOk).2 ⟨reader, inCluster, edges, edgesOk, mem⟩
  have readersOk : ∀ cluster ∈ base.findFloat32TensorListOpClustersAndDenylistUnsafe.1,
      ∀ reader ∈ cluster, ∃ edges, base.readerEdges reader = .ok edges := by
    intro cluster isCluster reader inCluster
    obtain ⟨edges', -, ok⟩ := mem_result_of_mapM ephemeralOk isCluster
    obtain ⟨lists, listsOk, -⟩ := bind_ok.1 ok
    obtain ⟨edges, -, edgesOk⟩ := mem_result_of_mapM listsOk inCluster
    exact ⟨edges, edgesOk⟩
  constructor
  · intro mem
    obtain ⟨edge, isEdge, edgeOk⟩ := mem_source_of_mapM addedOk mem
    split at edgeOk
    next src dst srcIndex dstIndex =>
      cases edgeOk
      obtain ⟨cluster, isCluster, reader, inCluster, edges, edgesOk, mem⟩ := (listed edge).1 isEdge
      obtain ⟨r, f, root, members⟩ := clusters.1 cluster isCluster
      obtain ⟨isReader, rootFp32, readerFp32, k, upstream, isWriter, itemFp32, writerFp32, rfl⟩ :=
        (Impl.mem_readerEdges wellFormed edgesOk edge).1 mem
      refine ⟨r, f, reader, k, root, (members reader).1 inCluster, isReader, ?_, upstream, isWriter, ?_⟩
      · exact Option.bind_eq_some_iff.2 ⟨rootFp32, readerFp32, dstIndex⟩
      · exact Option.bind_eq_some_iff.2 ⟨itemFp32, writerFp32, srcIndex⟩
    · cases edgeOk
  · rintro ⟨r, f, reader, k, root, inCluster, isReader, readerIndex, upstream, isWriter, writerIndex⟩
    obtain ⟨rootFp32, readerFp32, dstIndex⟩ := Option.bind_eq_some_iff.1 readerIndex
    obtain ⟨itemFp32, writerFp32, srcIndex⟩ := Option.bind_eq_some_iff.1 writerIndex
    obtain ⟨cluster, isCluster, members⟩ := clusters.2.1 r f root
    have mem := (members reader).2 inCluster
    obtain ⟨edges, edgesOk⟩ := readersOk cluster isCluster reader mem
    have isEdge : (⟨itemFp32, rootFp32⟩ : NodeTypeIdEdge) ∈ ephemeral.flatten :=
      (listed _).2 ⟨cluster, isCluster, reader, mem, edges, edgesOk, (Impl.mem_readerEdges wellFormed edgesOk _).2
          ⟨isReader, rootFp32, readerFp32, k, upstream, isWriter, itemFp32, writerFp32, rfl⟩⟩
    obtain ⟨pair, isPair, pairOk⟩ := mem_result_of_mapM addedOk isEdge
    simp only [srcIndex, dstIndex] at pairOk
    cases pairOk
    exact isPair

/-- The members of the optimizer when the passes begin. Its edges are inputs of
nodes, or join element types of tensor lists. -/
structure Impl.Ready (impl : Impl) : Prop where
  consistent : impl.graphView.Consistent
  namesNodup : (impl.graph.map NodeDef.name).Nodup
  described : ∀ (n : Nat) node, impl.graph[n]? = some node →
    ∃ opDef, impl.config.registry.lookUpOpDef node.op = .ok opDef ∧ Described node opDef (impl.nodeTypeMap.entry n)
  wellFormed : impl.graphTypeView.WellFormed
  names : impl.graphTypeView.names = impl.graph.map NodeDef.name
  typed : ∀ item, item ∈ impl.graphTypeView.nodeTypeAttrs ↔
    item.node < impl.graph.length ∧ item.typeAttr ∈ impl.nodeTypeMap.getTypeAttrs item.node
  edge : ∀ i j, (i, j) ∈ impl.graphTypeView.edges →
    (∃ s p d k ts td, PortEdge impl.graph impl.nodeTypeMap s p d k ts td ∧
      impl.graphTypeView.nodeTypeAttrs[i]? = some ⟨s, ts⟩ ∧
      impl.graphTypeView.nodeTypeAttrs[j]? = some ⟨d, td⟩) ∨
    (isTensorListOp (impl.itemOp i) = true ∧ isTensorListOp (impl.itemOp j) = true)
  fed : ∀ d < impl.graph.length, ∀ (k : Nat) td, (impl.nodeTypeMap.entry d).inputs[k]? = some td →
    ∃ s p ts, PortEdge impl.graph impl.nodeTypeMap s p d k ts td

theorem Impl.Wired.ready {base : Impl} (wired : base.Wired) {added : List (Nat × Nat)}
    (implicit : ∀ i j, (i, j) ∈ added → base.Implicit i j) : (base.withEdges added).Ready := by
  have wellFormed := wired.mirrors.wellFormed
  refine ⟨wired.consistent, wired.namesNodup, wired.described,
    withEdges_wellFormed wellFormed implicit, wired.mirrors.names, wired.mirrors.typed, ?_,
    wired.mirrors.fed⟩
  intro i j mem
  rcases List.mem_append.1 mem with mem | mem
  · exact .inl ((wired.mirrors.edge i j).1 mem)
  · obtain ⟨_, _, _, _, -, -, -, reads, -, -, writes⟩ := implicit i j mem
    exact .inr ⟨tensorListFloat32Index_item wellFormed writes, tensorListFloat32Index_item wellFormed reads⟩

theorem ready_of_prepare {settings : Config} {graph : GraphDef} {prepared : Prepared}
    (ran : prepare settings graph = .ok prepared) : prepared.impl.Ready := by
  obtain ⟨base, added, built, implicit, rfl⟩ := prepare_spec ran
  exact built.wired.ready fun i j => (implicit i j).1

end Itex.AutoMixedPrecision
