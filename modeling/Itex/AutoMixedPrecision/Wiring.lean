import Itex.Graph.ViewInvariant
import Itex.AutoMixedPrecision.Optimize

/-!
Contract: how the type attribute view of a graph mirrors the graph.

Owns: index lookups of a well-formed view, the correspondence of its edges with
the inputs of the nodes, and the reduction of its traversals to reachability.
-/

namespace Itex.AutoMixedPrecision

open Itex.Lib Itex.Graph

variable {i index j node : Nat} {item : NodeTypeId} {name : String} {α : Type}

/-- Names and types are numbered without repetition, and edges join numbers in
use. -/
structure GraphTypeTopologyView.WellFormed (view : GraphTypeTopologyView) : Prop where
  namesNodup : view.names.Nodup
  typesNodup : view.nodeTypeAttrs.Nodup
  named : ∀ item ∈ view.nodeTypeAttrs, item.node < view.names.length
  inRange : ∀ edge ∈ view.edges, edge.1 < view.numNodes ∧ edge.2 < view.numNodes

namespace GraphTypeTopologyView

section Lookup

variable {view : GraphTypeTopologyView}

theorem findIdx?_eq_some_of_unique {list : List α} {p : α → Bool}
    (unique : ∀ j k : Nat, (∃ a, list[j]? = some a ∧ p a = true) → (∃ a, list[k]? = some a ∧ p a = true) → j = k) :
    list.findIdx? p = some i ↔ ∃ a, list[i]? = some a ∧ p a = true := by
  constructor
  · intro found
    obtain ⟨bound, holds, -⟩ := List.findIdx?_eq_some_iff_getElem.1 found
    exact ⟨list[i], List.getElem?_eq_getElem bound, holds⟩
  · rintro ⟨a, at_i, holds⟩
    have bound := read_lt at_i
    rw [List.findIdx?_eq_some_iff_getElem]
    refine ⟨bound, ?_, fun j before => ?_⟩
    · rw [List.getElem?_eq_getElem bound] at at_i
      rwa [Option.some.inj at_i]
    · by_contra alsoHolds
      have same := unique j i
        ⟨list[j], List.getElem?_eq_getElem (by omega), by simpa using alsoHolds⟩
        ⟨a, at_i, holds⟩
      omega

theorem getElem?_inj {list : List α} (nodup : list.Nodup) {a : α}
    (left : list[i]? = some a) (right : list[j]? = some a) : i = j := by
  have bound := read_lt left
  exact (List.getElem?_inj bound nodup).1 (left.trans right.symm)

theorem WellFormed.nodeNameToIndex_eq_some (wellFormed : view.WellFormed)
    : view.nodeNameToIndex name = some node ↔ view.names[node]? = some name := by
  unfold nodeNameToIndex
  rw [findIdx?_eq_some_of_unique]
  · simp only [decide_eq_true_eq]
    exact ⟨fun ⟨_, found, same⟩ => same ▸ found, fun found => ⟨name, found, rfl⟩⟩
  · simp only [decide_eq_true_eq]
    rintro j k ⟨first, left, isFirst⟩ ⟨second, right, isSecond⟩
    rw [isFirst] at left
    rw [isSecond] at right
    exact getElem?_inj wellFormed.namesNodup left right

theorem WellFormed.getNodeIndex_eq_some (wellFormed : view.WellFormed)
    {typeAttr : TypeAttrId} (isName : view.names[node]? = some name) :
    view.getNodeIndex name typeAttr = some index ↔ view.nodeTypeAttrs[index]? = some ⟨node, typeAttr⟩ := by
  have toItem : ∀ item : NodeTypeId, view.names[item.node]? = some name →
      item.typeAttr = typeAttr → item = ⟨node, typeAttr⟩ := by
    intro item itemName itemType
    have := getElem?_inj wellFormed.namesNodup itemName isName
    cases item
    simp_all
  unfold getNodeIndex
  rw [findIdx?_eq_some_of_unique]
  · grind
  · simp only [decide_eq_true_eq]
    rintro j k ⟨left, atLeft, leftName, leftType⟩ ⟨right, atRight, rightName, rightType⟩
    rw [toItem left leftName leftType] at atLeft
    rw [toItem right rightName rightType] at atRight
    exact getElem?_inj wellFormed.typesNodup atLeft atRight

theorem WellFormed.indexOf_eq_some (wellFormed : view.WellFormed)
    : view.indexOf item = some index ↔ view.nodeTypeAttrs[index]? = some item := by
  unfold indexOf
  constructor
  · intro found
    obtain ⟨name, isName, found⟩ := Option.bind_eq_some_iff.1 found
    exact (wellFormed.getNodeIndex_eq_some isName).1 found
  · intro found
    have bound := wellFormed.named item (List.mem_of_getElem? found)
    have isName := List.getElem?_eq_getElem bound
    rw [Option.bind_eq_some_iff]
    exact ⟨_, isName, (wellFormed.getNodeIndex_eq_some isName).2 found⟩

theorem WellFormed.neighbours_lt (wellFormed : view.WellFormed)
    (direction : TypeTraversalDirection) (edge : j ∈ view.neighbours direction i) : j < view.numNodes := by
  have forward : ∀ {i j}, (i, j) ∈ view.edges → j < view.numNodes :=
    fun mem => (wellFormed.inRange _ mem).2
  have backward : ∀ {i j}, (i, j) ∈ view.edges → i < view.numNodes :=
    fun mem => (wellFormed.inRange _ mem).1
  cases direction with
  | followInputs => exact backward (mem_getFanin.1 edge)
  | followOutputs => exact forward (mem_getFanout.1 edge)
  | followInputsAndOutputs =>
    rcases List.mem_append.1 edge with edge | edge
    · exact backward (mem_getFanin.1 edge)
    · exact forward (mem_getFanout.1 edge)

end Lookup

end GraphTypeTopologyView

structure PortEdge (graph : GraphDef) (map : NodeTypeAttrMap) (s p d k : Nat)
    (ts td : TypeAttrId) : Prop where
  input : ∃ src dst : NodeDef, graph[s]? = some src ∧ graph[d]? = some dst ∧ dst.input[k]? = some ⟨src.name, .port p⟩
  srcType : (map.entry s).outputs[p]? = some ts
  dstType : (map.entry d).inputs[k]? = some td

/-- The view of a graph: it numbers the types of the map, and its edges are the
regular inputs of the nodes. -/
structure Mirrors (view : GraphTypeTopologyView) (graph : GraphDef) (map : NodeTypeAttrMap) : Prop where
  wellFormed : view.WellFormed
  names : view.names = graph.map NodeDef.name
  typed : ∀ item, item ∈ view.nodeTypeAttrs ↔ item.node < graph.length ∧ item.typeAttr ∈ map.getTypeAttrs item.node
  edge : ∀ i j, (i, j) ∈ view.edges ↔ ∃ s p d k ts td, PortEdge graph map s p d k ts td ∧
    view.nodeTypeAttrs[i]? = some ⟨s, ts⟩ ∧ view.nodeTypeAttrs[j]? = some ⟨d, td⟩
  fed : ∀ d < graph.length, ∀ (k : Nat) td, (map.entry d).inputs[k]? = some td →
    ∃ s p ts, PortEdge graph map s p d k ts td

namespace GraphTypeTopologyView

section Initialize

variable {view : GraphTypeTopologyView} {graph : GraphDef} {map : NodeTypeAttrMap}

theorem inputEdge_eq_ok (wellFormed : view.WellFormed) (names : view.names = graph.map NodeDef.name)
    {port : Nat} {td : TypeAttrId} {edge : Nat × Nat}
    (dstType : (map.entry item.node).inputs[port]? = some td) : view.inputEdge graph map index item port = .ok edge ↔
      edge.2 = index ∧ ∃ s p ts, PortEdge graph map s p item.node port ts td ∧
        view.nodeTypeAttrs[edge.1]? = some ⟨s, ts⟩ := by
  have nameAt : ∀ {s : Nat} {src : NodeDef}, graph[s]? = some src → view.names[s]? = some src.name := by
    intro s src found
    rw [names, List.getElem?_map, found]
    rfl
  unfold inputEdge
  constructor
  · intro ran
    split at ran
    · cases ran
    next node tensor found =>
      obtain ⟨def_, atNode, paired⟩ := Option.bind_eq_some_iff.1 found
      obtain ⟨input, atPort, same⟩ := Option.map_eq_some_iff.1 paired
      obtain ⟨rfl, rfl⟩ := Prod.mk.inj same
      split at ran
      · cases ran
      next s nameFound =>
        obtain ⟨ts, srcType, ran⟩ := bind_ok.1 ran
        obtain ⟨p, isPort, srcType⟩ := NodeTypeAttrMap.portType_eq_ok.1 srcType
        rw [wellFormed.nodeNameToIndex_eq_some] at nameFound
        split at ran
        · cases ran
        next j indexFound =>
          cases ran
          rw [wellFormed.getNodeIndex_eq_some nameFound] at indexFound
          refine ⟨rfl, s, p, ts, ⟨?_, srcType, dstType⟩, indexFound⟩
          rw [names, List.getElem?_map, Option.map_eq_some_iff] at nameFound
          obtain ⟨src, atSrc, srcName⟩ := nameFound
          refine ⟨src, _, atSrc, atNode, ?_⟩
          rw [atPort, srcName, ← isPort]
  · rintro ⟨isIndex, s, p, ts, ⟨⟨src, dst, atSrc, atDst, atPort⟩, srcType, -⟩, indexFound⟩
    have found : (graph[item.node]?.bind fun node =>
        node.input[port]?.map fun input => (node, input)) =
        some (dst, ⟨src.name, .port p⟩) := by
      simp [atDst, atPort]
    rw [found]
    have nameFound := wellFormed.nodeNameToIndex_eq_some.2 (nameAt atSrc)
    simp only [nameFound]
    have outputFound : map.getOutputTypeAttr s (.port p) = .ok ts :=
      NodeTypeAttrMap.portType_eq_ok.2 ⟨p, rfl, srcType⟩
    rw [outputFound]
    have index := (wellFormed.getNodeIndex_eq_some (nameAt atSrc)).2 indexFound
    simp only [bind, Except.bind, index, ← isIndex]

theorem mirrors_of_initializeFromGraph {order : Nat → List TypeAttrId → List TypeAttrId}
    (permutes : ∀ node list, (order node list).Perm list) (namesNodup : (graph.map NodeDef.name).Nodup)
    (typesNodup : ∀ node, (map.getTypeAttrs node).Nodup) (inputsTyped : ∀ node < graph.length, ∀ (k : Nat) td,
      (map.entry node).inputs[k]? = some td → td ∈ map.getTypeAttrs node)
    (ran : initializeFromGraph order graph map = .ok view) : Mirrors view graph map := by
  unfold initializeFromGraph at ran
  obtain ⟨edges, edgesOk, ran⟩ := bind_ok.1 ran
  cases ran
  generalize numberedIs : (⟨graph.map NodeDef.name, (List.range graph.length).flatMap fun node =>
    (order node (map.getTypeAttrs node)).map fun typeAttr => ⟨node, typeAttr⟩, []⟩ :
      GraphTypeTopologyView) = numbered at edgesOk ⊢
  have names : numbered.names = graph.map NodeDef.name := by rw [← numberedIs]
  have typed : ∀ item, item ∈ numbered.nodeTypeAttrs ↔
      item.node < graph.length ∧ item.typeAttr ∈ map.getTypeAttrs item.node := by
    intro item
    rw [← numberedIs]
    simp only [List.mem_flatMap, List.mem_range, List.mem_map, (permutes _ _).mem_iff]
    constructor
    · rintro ⟨node, bound, typeAttr, mem, rfl⟩
      exact ⟨bound, mem⟩
    · rintro ⟨bound, mem⟩
      exact ⟨item.node, bound, item.typeAttr, mem, rfl⟩
  have wellFormed : numbered.WellFormed := by
    refine ⟨names ▸ namesNodup, ?_, ?_, by simp [← numberedIs]⟩
    · rw [← numberedIs]
      rw [List.nodup_flatMap]
      refine ⟨fun node _ => ?_, ?_⟩
      · refine List.Nodup.map ?_ ((permutes _ _).nodup_iff.2 (typesNodup node))
        intro a b same
        exact (NodeTypeId.mk.inj same).2
      · refine List.nodup_range.imp ?_
        intro a b ne item left right
        simp only [List.mem_map] at left right
        obtain ⟨_, -, rfl⟩ := left
        obtain ⟨_, -, same⟩ := right
        exact ne (NodeTypeId.mk.inj same).1.symm
    · intro item mem
      rw [names, List.length_map]
      exact ((typed item).1 mem).1
  have edge : ∀ i j, (i, j) ∈ edges.flatten ↔ ∃ s p d k ts td, PortEdge graph map s p d k ts td ∧
      numbered.nodeTypeAttrs[i]? = some ⟨s, ts⟩ ∧
      numbered.nodeTypeAttrs[j]? = some ⟨d, td⟩ := by
    intro i j
    rw [List.mem_flatten]
    constructor
    · rintro ⟨list, listed, mem⟩
      obtain ⟨⟨item, index⟩, numberedItem, portsOk⟩ := mem_source_of_mapM edgesOk listed
      obtain ⟨port, isPort, edgeOk⟩ := mem_source_of_mapM portsOk mem
      have dstType := NodeTypeAttrMap.mem_portsOf.1 isPort
      obtain ⟨isIndex, s, p, ts, edge, srcIndex⟩ :=
        (inputEdge_eq_ok wellFormed names dstType).1 edgeOk
      refine ⟨s, p, item.node, port, ts, item.typeAttr, edge, srcIndex, ?_⟩
      rw [show j = index from isIndex]
      exact List.mem_zipIdx_iff_getElem?.1 numberedItem
    · rintro ⟨s, p, d, k, ts, td, edge, srcIndex, dstIndex⟩
      obtain ⟨list, listed, portsOk⟩ := mem_result_of_mapM edgesOk
        (List.mem_zipIdx_iff_getElem?.2 dstIndex : ((⟨d, td⟩ : NodeTypeId), j) ∈ _)
      obtain ⟨found, mem, edgeOk⟩ := mem_result_of_mapM portsOk
        (NodeTypeAttrMap.mem_portsOf.2 edge.dstType)
      have expected : numbered.inputEdge graph map j ⟨d, td⟩ k = .ok (i, j) :=
        (inputEdge_eq_ok wellFormed names edge.dstType).2 ⟨rfl, s, p, ts, edge, srcIndex⟩
      have same : (i, j) = found := Except.ok.inj (expected.symm.trans edgeOk)
      exact ⟨list, listed, same ▸ mem⟩
  have lt_of_get : ∀ {i : Nat} {item : NodeTypeId}, numbered.nodeTypeAttrs[i]? = some item →
      i < numbered.nodeTypeAttrs.length := fun found => read_lt found
  refine ⟨⟨wellFormed.namesNodup, wellFormed.typesNodup, wellFormed.named, ?_⟩, names, typed, edge, ?_⟩
  · intro pair mem
    obtain ⟨_, _, _, _, _, _, -, left, right⟩ := (edge pair.1 pair.2).1 mem
    exact ⟨lt_of_get left, lt_of_get right⟩
  · intro d bound k td dstType
    have listed := (typed ⟨d, td⟩).2 ⟨bound, inputsTyped d bound k td dstType⟩
    obtain ⟨index, atIndex⟩ := List.getElem?_of_mem listed
    obtain ⟨list, -, portsOk⟩ := mem_result_of_mapM edgesOk
      (List.mem_zipIdx_iff_getElem?.2 atIndex : ((⟨d, td⟩ : NodeTypeId), index) ∈ _)
    obtain ⟨found, -, edgeOk⟩ := mem_result_of_mapM portsOk
      (NodeTypeAttrMap.mem_portsOf.2 dstType)
    obtain ⟨-, s, p, ts, edge, -⟩ := (inputEdge_eq_ok wellFormed names dstType).1 edgeOk
    exact ⟨s, p, ts, edge⟩

end Initialize

end GraphTypeTopologyView

/-- The members of the optimizer describe one graph. -/
structure Impl.Wired (impl : Impl) : Prop where
  consistent : impl.graphView.Consistent
  namesNodup : (impl.graph.map NodeDef.name).Nodup
  mapped : impl.nodeTypeMap.length = impl.graph.length
  described : ∀ (n : Nat) node, impl.graph[n]? = some node →
    ∃ opDef, impl.config.registry.lookUpOpDef node.op = .ok opDef ∧ Described node opDef (impl.nodeTypeMap.entry n)
  mirrors : Mirrors impl.graphTypeView impl.graph impl.nodeTypeMap

/-- How the members come from the settings and the graph. -/
structure Built (settings : Config) (graph : GraphDef) (impl : Impl) : Prop where
  config : impl.config = settings
  lists : impl.lists = mixedPrecisionLists settings.mode settings.listUpdates
  disjoint : impl.lists.Disjoint
  wired : impl.Wired
  length : impl.graph.length = graph.length
  processed : ∀ (n : Nat) old, graph[n]? = some old → (n ∈ impl.shouldProcessNodes ↔ settings.wantsNode old = true)
  node : ∀ (n : Nat) node, impl.graph[n]? = some node → ∃ old, graph[n]? = some old ∧
    node.name = old.name ∧ (n ∉ impl.shouldProcessNodes → node.op = old.op ∧ node.attr = old.attr)

theorem getElem?_convertBatchNormOpsToV2 {shouldProcess : Finset Nat} {graph : GraphDef} {n : Nat}
    {node : NodeDef} (found : (convertBatchNormOpsToV2 shouldProcess graph)[n]? = some node) :
    ∃ old, graph[n]? = some old ∧ node.name = old.name ∧ node.input = old.input ∧ (n ∉ shouldProcess → node = old) := by
  unfold convertBatchNormOpsToV2 at found
  rw [List.getElem?_mapIdx, Option.map_eq_some_iff] at found
  obtain ⟨old, atOld, rfl⟩ := found
  refine ⟨old, atOld, ?_, ?_, fun notProcessed => if_neg notProcessed⟩
  all_goals
    split
    · unfold convertBatchNorm
      split
      · rfl
      · split <;> rfl
    · rfl

theorem sameWiring_convertBatchNormOpsToV2 (shouldProcess : Finset Nat) (graph : GraphDef) :
    MutableGraphView.SameWiring graph (convertBatchNormOpsToV2 shouldProcess graph) := by
  refine ⟨List.length_mapIdx, fun n node found => ?_⟩
  obtain ⟨old, atOld, name, input, -⟩ := getElem?_convertBatchNormOpsToV2 found
  exact ⟨old, atOld, name, input⟩

theorem map_name_of_sameWiring {before after : GraphDef} (same : MutableGraphView.SameWiring before after) :
    after.map NodeDef.name = before.map NodeDef.name := by
  refine List.ext_getElem? fun n => ?_
  rw [List.getElem?_map, List.getElem?_map]
  cases found : after[n]? with
  | none =>
    have : before[n]? = none := by
      rw [List.getElem?_eq_none_iff] at found ⊢
      exact same.length ▸ found
    rw [this]
  | some node =>
    obtain ⟨old, atOld, name, -⟩ := same.node n node found
    simp [atOld, name]

theorem built_of_buildImpl {settings : Config} {graph : GraphDef} {impl : Impl}
    (ran : buildImpl settings graph = .ok impl) : Built settings graph impl := by
  unfold buildImpl at ran
  obtain ⟨graphView, viewOk, ran⟩ := bind_ok.1 ran
  obtain ⟨_, -, ran⟩ := bind_ok.1 ran
  obtain ⟨_, listsOk, ran⟩ := bind_ok.1 ran
  unfold assemble at ran
  obtain ⟨nodeTypeMap, mapOk, ran⟩ := bind_ok.1 ran
  obtain ⟨graphTypeView, typeViewOk, ran⟩ := bind_ok.1 ran
  cases ran
  obtain ⟨consistent, sameInputs, namesNodup⟩ := MutableGraphView.consistent_construct viewOk
  obtain ⟨mapped, described⟩ := NodeTypeAttrMap.entry_described mapOk
  have wiring := sameWiring_convertBatchNormOpsToV2
    (settings.shouldProcessNodes graphView.graph) graphView.graph
  have sameNames : graphView.graph.map NodeDef.name = graph.map NodeDef.name := by
    refine List.ext_getElem? fun n => ?_
    rw [List.getElem?_map, List.getElem?_map]
    cases found : graphView.graph[n]? with
    | none =>
      have : graph[n]? = none := by
        rw [List.getElem?_eq_none_iff] at found ⊢
        exact sameInputs.length ▸ found
      rw [this]
    | some node =>
      obtain ⟨old, atOld, fromOld⟩ := sameInputs.node n node found
      rw [atOld, fromOld]
      rfl
  have namesNodup' : ((convertBatchNormOpsToV2 (settings.shouldProcessNodes graphView.graph)
      graphView.graph).map NodeDef.name).Nodup := by
    rw [map_name_of_sameWiring wiring, sameNames]
    exact namesNodup
  have entryOf : ∀ node < nodeTypeMap.length, ∃ def_ opDef, Described def_ opDef
      (NodeTypeAttrMap.entry nodeTypeMap node) := by
    intro node bound
    obtain ⟨opDef, -, entry⟩ := described node _ (List.getElem?_eq_getElem (mapped ▸ bound))
    exact ⟨_, opDef, entry⟩
  have typesNodup : ∀ node, (NodeTypeAttrMap.getTypeAttrs nodeTypeMap node).Nodup := by
    intro node
    unfold NodeTypeAttrMap.getTypeAttrs
    by_cases bound : node < nodeTypeMap.length
    · obtain ⟨_, _, entry⟩ := entryOf node bound
      exact entry.nodup
    · simp [NodeTypeAttrMap.entry, List.getD, List.getElem?_eq_none (not_lt.1 bound)]
  have mirrors := GraphTypeTopologyView.mirrors_of_initializeFromGraph
    (fun node list => settings.orders.typeAttrs_perm .numbering node list) namesNodup' typesNodup
    (fun node bound k td found => by
      obtain ⟨_, _, entry⟩ := entryOf node (mapped ▸ bound)
      exact entry.input_mem (List.mem_of_getElem? found)) typeViewOk
  refine ⟨rfl, rfl, disjoint_of_validateLists listsOk,
    ⟨consistent.regraph wiring, namesNodup', mapped, described, mirrors⟩,
    wiring.length.trans sameInputs.length, ?_, ?_⟩
  · intro n old atOld
    have bound : n < graphView.graph.length := by
      rw [sameInputs.length]
      exact read_lt atOld
    obtain ⟨before, atBefore, fromBefore⟩ := sameInputs.node n _ (List.getElem?_eq_getElem bound)
    have isOld : before = old := Option.some.inj (atBefore.symm.trans atOld)
    have sameWants : settings.wantsNode (graphView.graph.getD n default) = settings.wantsNode old := by
      rw [List.getD, List.getElem?_eq_getElem bound, Option.getD_some, fromBefore, isOld]
      rfl
    unfold Config.shouldProcessNodes
    rw [Finset.mem_filter, Finset.mem_range, sameWants]
    exact and_iff_right bound
  · intro n node found
    obtain ⟨middle, atMiddle, name, -, unchanged⟩ := getElem?_convertBatchNormOpsToV2 found
    obtain ⟨old, atOld, fromOld⟩ := sameInputs.node n middle atMiddle
    refine ⟨old, atOld, name.trans (by rw [fromOld]), fun notProcessed => ?_⟩
    rw [unchanged notProcessed, fromOld]
    exact ⟨rfl, rfl⟩

end Itex.AutoMixedPrecision
