import Itex.AutoMixedPrecision.Rewrite

/-!
Contract: `ChangeTypeAttrsAndAddCasts` keeps a well typed graph well typed.

Owns: the types that the operator registry gives the ports of a node, type
consistency of a graph, and the graph that the final pass leaves.
-/

namespace Itex.AutoMixedPrecision

open Itex.Lib Itex.Graph

variable {d k n p s : Nat} {td ts : TypeAttrId}

/-! ## Types of the ports of a node -/

/-- The dtype that the type attribute of an output port denotes. -/
def outputDataType (registry : Registry) (node : NodeDef) (port : Nat) : Option DataType :=
  match addNodeTypes registry node with
  | .error _ => none
  | .ok types => types.outputs[port]?.map (getDataType node)

/-- The dtype that the type attribute of an input port denotes. -/
def inputDataType (registry : Registry) (node : NodeDef) (port : Nat) : Option DataType :=
  match addNodeTypes registry node with
  | .error _ => none
  | .ok types => types.inputs[port]?.map (getDataType node)

/-- An input of a node, if it is regular, is fed by an output of its dtype. -/
def InputConsistent (registry : Registry) (graph : GraphDef) (dst : NodeDef)
    (input : TensorId × Nat) : Prop :=
  match input with
  | (⟨_, .controlSlot⟩, _) => True
  | (⟨name, .port p⟩, k) => ∃ src ∈ graph, src.name = name ∧ (outputDataType registry src p).isSome = true ∧
      outputDataType registry src p = inputDataType registry dst k

instance (registry : Registry) (graph : GraphDef) (dst : NodeDef) (input : TensorId × Nat) :
    Decidable (InputConsistent registry graph dst input) :=
  match input with
  | (⟨_, .controlSlot⟩, _) => inferInstanceAs (Decidable True)
  | (⟨_, .port _⟩, _) => inferInstanceAs (Decidable (∃ src ∈ graph, _))

/-- Every regular edge joins an output and an input of one dtype. -/
def TypeConsistent (registry : Registry) (graph : GraphDef) : Prop :=
  ∀ dst ∈ graph, ∀ input ∈ dst.input.zipIdx, InputConsistent registry graph dst input

instance (registry : Registry) (graph : GraphDef) : Decidable (TypeConsistent registry graph) :=
  inferInstanceAs (Decidable (∀ dst ∈ graph, _))

theorem addNodeTypes_of_described {registry : Registry} {node : NodeDef} {opDef : OpDef}
    {types : NodeTypes} (found : registry.lookUpOpDef node.op = .ok opDef)
    (described : Described node opDef types) : addNodeTypes registry node = .ok types := by
  obtain ⟨inputArgs, inputArgsOk, counted, inputsOk⟩ := described.inputs
  obtain ⟨outputArgs, outputArgsOk, outputsOk⟩ := described.outputs
  obtain ⟨attrs, attrsOk, same⟩ := described.typeAttrs
  unfold addNodeTypes
  rw [found]
  refine bind_ok.2 ⟨opDef, rfl, bind_ok.2 ⟨inputArgs, inputArgsOk, ?_⟩⟩
  refine bind_ok.2 ⟨(), require_eq_ok.2 counted, bind_ok.2 ⟨types.inputs, inputsOk, ?_⟩⟩
  refine bind_ok.2 ⟨outputArgs, outputArgsOk, bind_ok.2 ⟨types.outputs, outputsOk, ?_⟩⟩
  refine bind_ok.2 ⟨attrs, attrsOk, ?_⟩
  rw [← same]
  rfl

section Repainted

variable {old node : NodeDef} {painted : TypeAttrId → Bool} {dtype : DataType}

@[simp] theorem length_listTypes_repaintValue (painted : TypeAttrId → Bool) (dtype : DataType)
    (name : String) (value : AttrValue) :
    (repaintValue painted dtype name value).listTypes.length = value.listTypes.length := by
  cases value <;> simp [repaintValue, AttrValue.listTypes]

@[simp] theorem intValue_repaintValue (painted : TypeAttrId → Bool) (dtype : DataType)
    (name : String) (value : AttrValue) :
    (repaintValue painted dtype name value).intValue = value.intValue := by
  cases value <;> rfl

variable (law : ∀ name, node.attr.lookup name = (old.attr.lookup name).map (repaintValue painted dtype name))
include law

theorem argDefIndexes_repainted (argDef : ArgDef) : argDefIndexes node argDef = argDefIndexes old argDef := by
  unfold argDefIndexes
  rw [law argDef.typeListAttr, law argDef.numberAttr]
  by_cases listed : argDef.typeListAttr ≠ ""
  · rw [if_pos listed, if_pos listed]
    cases old.attr.lookup argDef.typeListAttr <;> simp
  · rw [if_neg listed, if_neg listed]
    cases old.attr.lookup argDef.numberAttr <;> simp

theorem portArgDefIndexes_repainted (args : List ArgDef) :
    portArgDefIndexes node args = portArgDefIndexes old args := by
  unfold portArgDefIndexes
  rw [funext (argDefIndexes_repainted law)]

theorem portTypeAttr_repainted {arg : ArgDef × Int} {typeAttr : TypeAttrId}
    (typed : portTypeAttr old arg = .ok typeAttr) : portTypeAttr node arg = .ok typeAttr := by
  unfold portTypeAttr at typed ⊢
  dsimp only at typed ⊢
  split at typed
  · cases typed
  next present =>
    cases typed
    rw [if_neg]
    rintro ⟨named, absent⟩
    rw [law, Option.map_eq_none_iff] at absent
    exact present ⟨named, absent⟩

/-- A node keeps the types of its ports when types change inside its attributes. -/
theorem addNodeTypes_repainted {registry : Registry} {types : NodeTypes} (sameOp : node.op = old.op)
    (sameCount : (nonControlInputs node).length = (nonControlInputs old).length)
    (typed : addNodeTypes registry old = .ok types) :
    ∃ types', addNodeTypes registry node = .ok types' ∧ types'.inputs = types.inputs ∧
      types'.outputs = types.outputs := by
  obtain ⟨opDef, found, described⟩ := described_of_addNodeTypes typed
  obtain ⟨inputArgs, inputArgsOk, counted, inputsOk⟩ := described.inputs
  obtain ⟨outputArgs, outputArgsOk, outputsOk⟩ := described.outputs
  obtain ⟨attrs, attrsOk, -⟩ := described.typeAttrs
  have attrsDefined : ∃ attrs', node.attr.entries.mapM
      (fun entry => attrTypeAttrs node opDef entry.1 entry.2) = .ok attrs' := by
    apply exists_mapM_eq_ok
    intro entry mem
    have isEntry : node.attr.lookup entry.1 = some entry.2 := AList.mem_lookup_iff.2 mem
    rw [law, Option.map_eq_some_iff] at isEntry
    obtain ⟨value, isOld, -⟩ := isEntry
    obtain ⟨_, -, entryOk⟩ := mem_result_of_mapM attrsOk (AList.mem_lookup_iff.1 isOld)
    -- Whether an attribute is accepted depends on its name and the operator only.
    unfold attrTypeAttrs at entryOk ⊢
    rw [sameOp]
    by_cases internal : entry.1.toList.head? = some '_'
    · exact ⟨_, if_pos internal⟩
    · grind
  obtain ⟨attrs', attrsOk'⟩ := attrsDefined
  refine ⟨⟨(types.inputs ++ types.outputs ++ attrs'.flatten).dedup, types.inputs, types.outputs⟩,
    addNodeTypes_of_described (sameOp ▸ found) ⟨?_, ?_, attrs', attrsOk', rfl⟩, rfl, rfl⟩
  · refine ⟨inputArgs, (portArgDefIndexes_repainted law _).trans inputArgsOk, sameCount.trans counted, ?_⟩
    exact mapM_eq_ok.2 ((mapM_eq_ok.1 inputsOk).imp fun _ _ => portTypeAttr_repainted law)
  · refine ⟨outputArgs, (portArgDefIndexes_repainted law _).trans outputArgsOk, ?_⟩
    exact mapM_eq_ok.2 ((mapM_eq_ok.1 outputsOk).imp fun _ _ => portTypeAttr_repainted law)

end Repainted

namespace Impl

variable {impl : Impl} {allow : Finset Nat} {view : MutableGraphView}

/-! ## The graph at the end -/

/-- What the final pass makes of a graph and a set of types. -/
structure Converted (impl : Impl) (allow : Finset Nat) (output : GraphDef) : Prop where
  namesNodup : (output.map NodeDef.name).Nodup
  typeConsistent : TypeConsistent impl.config.registry output
  original : ∀ (n : Nat) old, impl.graph[n]? = some old → ∃ node, output[n]? = some node ∧
    node.name = old.name ∧ node.op = old.op ∧ node.device = old.device ∧
    node.input.length = old.input.length ∧
    (∀ name, node.attr.lookup name = (old.attr.lookup name).map
      (repaintValue (impl.paints allow n) impl.targetDtype name)) ∧
    (∀ typeAttr ∈ impl.nodeTypeMap.getTypeAttrs n, getDataType node typeAttr =
      if impl.paints allow n typeAttr then impl.targetDtype else getDataType old typeAttr)
  control : ∀ (n k : Nat) old node name, impl.graph[n]? = some old → output[n]? = some node →
    old.input[k]? = some ⟨name, .controlSlot⟩ → node.input[k]? = some ⟨name, .controlSlot⟩
  kept : ∀ (s p d k : Nat) src dst node, impl.graph[s]? = some src → impl.graph[d]? = some dst →
    output[d]? = some node → dst.input[k]? = some ⟨src.name, .port p⟩ →
    ¬ impl.Crossing allow s p d k → node.input[k]? = some ⟨src.name, .port p⟩
  routed : ∀ (s p d k : Nat) src dst node, impl.graph[s]? = some src →
    impl.graph[d]? = some dst → output[d]? = some node →
    dst.input[k]? = some ⟨src.name, .port p⟩ → impl.Crossing allow s p d k →
    node.input[k]? = some ⟨(impl.castFor allow s p).name, .port 0⟩ ∧
      ∃! c, impl.graph.length ≤ c ∧ output[c]? = some (impl.castFor allow s p)
  casts : ∀ (c : Nat) node, impl.graph.length ≤ c → output[c]? = some node →
    ∃ s p d k, impl.Crossing allow s p d k ∧ node = impl.castFor allow s p
  onePerPort : ∀ (c c' : Nat) node node', impl.graph.length ≤ c → impl.graph.length ≤ c' →
    output[c]? = some node → output[c']? = some node' → node.input = node'.input → c = c'

theorem addNodeTypes_buildCastNode {registry : Registry}
    (castOp : registry.lookUpOpDef "Cast" = .ok castOpDef) (dtype : DataType) (toF16 : Bool)
    (src : NodeDef) (port : Nat) : ∃ types, addNodeTypes registry (buildCastNode dtype toF16 src port) = .ok types ∧
      types.inputs = [.single "SrcT"] ∧ types.outputs = [.single "DstT"] := by
  have unnamed : (buildCastNode dtype toF16 src port).attr.lookup "" = none := by
    simp [buildCastNode, AList.lookup_insert_ne, -AList.insert_empty]
  have srcT : (buildCastNode dtype toF16 src port).attr.lookup "SrcT" ≠ none := by
    simp [buildCastNode, AList.lookup_insert_ne, -AList.insert_empty]
  have dstT : (buildCastNode dtype toF16 src port).attr.lookup "DstT" ≠ none := by
    simp [buildCastNode, AList.lookup_insert_ne, -AList.insert_empty]
  have declared : ∃ attrs, (buildCastNode dtype toF16 src port).attr.entries.mapM
      (fun entry => attrTypeAttrs (buildCastNode dtype toF16 src port) castOpDef entry.1 entry.2) = .ok attrs := by
    apply exists_mapM_eq_ok
    intro entry mem
    have isKey : entry.1 ∈ (buildCastNode dtype toF16 src port).attr :=
      AList.lookup_isSome.1 (by rw [AList.mem_lookup_iff.2 mem]; rfl)
    have names : entry.1 = "Truncate" ∨ entry.1 = "DstT" ∨ entry.1 = "SrcT" := by
      simpa [buildCastNode, AList.mem_insert, -AList.insert_empty] using isKey
    rcases names with isName | isName | isName <;> rw [isName] <;> exact ⟨_, rfl⟩
  obtain ⟨attrs, attrsOk⟩ := declared
  let typeAttrs : List TypeAttrId := .single "SrcT" :: .single "DstT" :: attrs.flatten
  refine ⟨⟨typeAttrs.dedup, [.single "SrcT"], [.single "DstT"]⟩, addNodeTypes_of_described castOp
    ⟨⟨[({ typeAttr := "SrcT" }, -1)], ?_, rfl, ?_⟩, ⟨[({ typeAttr := "DstT" }, -1)], ?_, ?_⟩,
      attrs, attrsOk, rfl⟩, rfl, rfl⟩
  · simp [portArgDefIndexes, argDefIndexes, castOpDef, unnamed]
  · simp [portTypeAttr, getTypeAttrId, TypeAttrId.single, TypeAttrId.ofAttr, srcT]
  · simp [portArgDefIndexes, argDefIndexes, castOpDef, unnamed]
  · simp [portTypeAttr, getTypeAttrId, TypeAttrId.single, TypeAttrId.ofAttr, dstT]

section Finished

variable (ready : impl.Ready)
  (rewriting : impl.Rewriting allow impl.nodeTypeMap.getTypeAttrs (fun _ _ => True) view)
include rewriting

theorem Rewriting.index_unique {c c' : Nat} {node node' : NodeDef} (atC : view.graph[c]? = some node)
    (atC' : view.graph[c']? = some node') (sameName : node.name = node'.name) : c = c' := by
  have left := (rewriting.consistent.named _ _).2 ⟨node, atC, rfl⟩
  have right := (rewriting.consistent.named _ _).2 ⟨node', atC', rfl⟩
  rw [sameName, right] at left
  exact (Option.some.inj left).symm

theorem Rewriting.node_of_original {old : NodeDef} (atOld : impl.graph[n]? = some old) :
    ∃ node, view.graph[n]? = some node ∧ node.name = old.name := by
  obtain ⟨node, atNode, sameName, -⟩ := rewriting.original n old atOld
  exact ⟨node, atNode, sameName⟩

theorem Rewriting.namesNodup : (view.graph.map NodeDef.name).Nodup := by
  rw [List.nodup_iff_injective_get]
  intro i j same
  have boundI : i.1 < view.graph.length := by simpa using i.2
  have boundJ : j.1 < view.graph.length := by simpa using j.2
  refine Fin.ext (rewriting.index_unique (List.getElem?_eq_getElem boundI)
    (List.getElem?_eq_getElem boundJ) ?_)
  simpa using same

theorem Rewriting.control_iff {old node : NodeDef} {before after : TensorId}
    (atOld : impl.graph[n]? = some old) (atNode : view.graph[n]? = some node)
    (atBefore : old.input[k]? = some before) (atAfter : node.input[k]? = some after) :
    after.index = .controlSlot ↔ before.index = .controlSlot := by
  by_cases crossing : ∃ s p, impl.Crossing allow s p n k
  · obtain ⟨s, p, crossing⟩ := crossing
    have isMoved := rewriting.moved s p n k node crossing trivial atNode
    rw [atAfter] at isMoved
    obtain ⟨ts, td, edge, -⟩ := crossing
    obtain ⟨src, dst, -, atDst, atPort⟩ := edge.input
    rw [atOld] at atDst
    cases atDst
    rw [atBefore] at atPort
    rw [Option.some.inj isMoved, Option.some.inj atPort]
    simp
  · have isKept := rewriting.kept n k old node before atOld atNode atBefore
      fun s p isCrossing => absurd ⟨s, p, isCrossing⟩ crossing
    rw [atAfter] at isKept
    rw [Option.some.inj isKept]

theorem Rewriting.nonControlInputs_length {old node : NodeDef}
    (atOld : impl.graph[n]? = some old) (atNode : view.graph[n]? = some node) :
    (nonControlInputs node).length = (nonControlInputs old).length := by
  obtain ⟨node', atNode', -, -, -, sameLength, -⟩ := rewriting.original n old atOld
  rw [atNode] at atNode'
  cases atNode'
  have sameKinds : node.input.map (fun tensor => decide (tensor.index ≠ .controlSlot)) =
      old.input.map (fun tensor => decide (tensor.index ≠ .controlSlot)) := by
    apply List.ext_getElem
    · simpa using sameLength
    · intro k bound bound'
      rw [List.length_map] at bound bound'
      have same := rewriting.control_iff atOld atNode
        (List.getElem?_eq_getElem bound') (List.getElem?_eq_getElem bound)
      simp [same]
  unfold nonControlInputs
  rw [← List.countP_eq_length_filter, ← List.countP_eq_length_filter]
  have counted := congrArg (List.countP id) sameKinds
  rw [List.countP_map, List.countP_map] at counted
  exact counted

include ready

theorem Rewriting.lookup {old node : NodeDef} (atOld : impl.graph[n]? = some old)
    (atNode : view.graph[n]? = some node) (name : String) : node.attr.lookup name = (old.attr.lookup name).map
      (repaintValue (impl.paints allow n) impl.targetDtype name) := by
  obtain ⟨node', atNode', -, -, -, -, law⟩ := rewriting.original n old atOld
  rw [atNode] at atNode'
  cases atNode'
  have typed : ∀ typeAttr, (decide (typeAttr ∈ impl.nodeTypeMap.getTypeAttrs n) &&
      impl.paints allow n typeAttr) = impl.paints allow n typeAttr := by
    intro typeAttr
    by_cases isPainted : impl.paints allow n typeAttr = true
    swap
    · simp [isPainted]
    have inView : impl.inAllow allow n typeAttr = true := by
      simp only [paints, Bool.and_eq_true] at isPainted
      exact isPainted.2
    unfold inAllow at inView
    cases found : impl.graphTypeView.indexOf ⟨n, typeAttr⟩ with
    | none => simp [found] at inView
    | some index =>
      have isTyped := (ready.typed _).1
        (List.mem_of_getElem? (ready.wellFormed.indexOf_eq_some.1 found))
      simp [isTyped.2]
  rw [law name, funext typed]

theorem Rewriting.getDataType_eq {old node : NodeDef}
    (atOld : impl.graph[n]? = some old) (atNode : view.graph[n]? = some node)
    {typeAttr : TypeAttrId} (typed : typeAttr ∈ impl.nodeTypeMap.getTypeAttrs n) : getDataType node typeAttr =
      if impl.paints allow n typeAttr then impl.targetDtype else getDataType old typeAttr := by
  obtain ⟨opDef, -, described⟩ := ready.described n old atOld
  refine getDataType_of_repainted (rewriting.lookup ready atOld atNode)
    (described.canonical typed) fun isPainted => ?_
  refine ⟨rewriting.named n typeAttr typed isPainted, ?_⟩
  simp only [paints, Bool.and_eq_true, decide_eq_true_eq, nodeDef_eq atOld] at isPainted
  exact isPainted.1

theorem Rewriting.addNodeTypes {node : NodeDef} (bound : n < impl.graph.length)
    (atNode : view.graph[n]? = some node) : ∃ types, Graph.addNodeTypes impl.config.registry node = .ok types ∧
      types.inputs = (impl.nodeTypeMap.entry n).inputs ∧ types.outputs = (impl.nodeTypeMap.entry n).outputs := by
  have atOld := getElem?_nodeDef bound
  obtain ⟨opDef, found, described⟩ := ready.described n _ atOld
  obtain ⟨node', atNode', -, sameOp, -, -, -⟩ := rewriting.original n _ atOld
  rw [atNode] at atNode'
  cases atNode'
  exact addNodeTypes_repainted (rewriting.lookup ready atOld atNode) sameOp
    (rewriting.nonControlInputs_length atOld atNode)
    (addNodeTypes_of_described found described)

theorem Rewriting.outputDataType_eq {node : NodeDef}
    (bound : s < impl.graph.length) (atNode : view.graph[s]? = some node)
    (isType : (impl.nodeTypeMap.entry s).outputs[p]? = some ts) : outputDataType impl.config.registry node p = some
      (if impl.paints allow s ts then impl.targetDtype else getDataType (impl.nodeDef s) ts) := by
  obtain ⟨types, typesOk, -, outputs⟩ := rewriting.addNodeTypes ready bound atNode
  have atOld := getElem?_nodeDef bound
  obtain ⟨opDef, -, described⟩ := ready.described s _ atOld
  unfold outputDataType
  rw [typesOk]
  dsimp only
  rw [outputs, isType, Option.map_some, rewriting.getDataType_eq ready atOld atNode
    (described.output_mem (List.mem_of_getElem? isType))]

theorem Rewriting.inputDataType_eq {node : NodeDef}
    (bound : d < impl.graph.length) (atNode : view.graph[d]? = some node)
    (isType : (impl.nodeTypeMap.entry d).inputs[k]? = some td) : inputDataType impl.config.registry node k = some
      (if impl.paints allow d td then impl.targetDtype else getDataType (impl.nodeDef d) td) := by
  obtain ⟨types, typesOk, inputs, -⟩ := rewriting.addNodeTypes ready bound atNode
  have atOld := getElem?_nodeDef bound
  obtain ⟨opDef, -, described⟩ := ready.described d _ atOld
  unfold inputDataType
  rw [typesOk]
  dsimp only
  rw [inputs, isType, Option.map_some, rewriting.getDataType_eq ready atOld atNode
    (described.input_mem (List.mem_of_getElem? isType))]

end Finished

section Typing

variable {registry : Registry}

theorem Ready.edge_dataType (ready : impl.Ready) (consistent : TypeConsistent impl.config.registry impl.graph)
    (edge : PortEdge impl.graph impl.nodeTypeMap s p d k ts td) :
    getDataType (impl.nodeDef s) ts = getDataType (impl.nodeDef d) td := by
  obtain ⟨src, dst, atSrc, atDst, atPort⟩ := edge.input
  have isInput : (⟨src.name, .port p⟩, k) ∈ dst.input.zipIdx :=
    List.mem_zipIdx_iff_getElem?.2 atPort
  obtain ⟨src', mem, sameName, -, sameType⟩ :=
    consistent dst (List.mem_of_getElem? atDst) _ isInput
  obtain ⟨s', atSrc'⟩ := List.mem_iff_getElem?.1 mem
  have isSource : s' = s := getElem?_name_inj ready.namesNodup atSrc' atSrc sameName
  rw [isSource, atSrc] at atSrc'
  cases atSrc'
  obtain ⟨srcDef, srcFound, srcDescribed⟩ := ready.described s src atSrc
  obtain ⟨dstDef, dstFound, dstDescribed⟩ := ready.described d dst atDst
  unfold outputDataType inputDataType at sameType
  rw [addNodeTypes_of_described srcFound srcDescribed, addNodeTypes_of_described dstFound dstDescribed] at sameType
  dsimp only at sameType
  rw [edge.srcType, edge.dstType, Option.map_some, Option.map_some] at sameType
  rw [nodeDef_eq atSrc, nodeDef_eq atDst]
  exact Option.some.inj sameType

theorem castFor_dataTypes (castOp : registry.lookUpOpDef "Cast" = .ok castOpDef) (allow : Finset Nat)
    (isType : (impl.nodeTypeMap.entry s).outputs[p]? = some ts) :
    inputDataType registry (impl.castFor allow s p) 0 =
        some (if impl.inAllow allow s ts then impl.targetDtype else .float) ∧
      outputDataType registry (impl.castFor allow s p) 0 =
        some (if impl.inAllow allow s ts then .float else impl.targetDtype) := by
  unfold castFor
  rw [isType, Option.any_some]
  obtain ⟨types, typesOk, inputs, outputs⟩ := addNodeTypes_buildCastNode castOp impl.targetDtype
    (!impl.inAllow allow s ts) (impl.nodeDef s) p
  unfold inputDataType outputDataType
  rw [typesOk]
  dsimp only
  rw [inputs, outputs]
  cases impl.inAllow allow s ts <;>
    simp [getDataType, buildCastNode, TypeAttrId.single, TypeAttrId.ofAttr,
      AList.lookup_insert_ne, AttrValue.typeValue, -AList.insert_empty]

variable (ready : impl.Ready)
  (rewriting : impl.Rewriting allow impl.nodeTypeMap.getTypeAttrs (fun _ _ => True) view)
include ready rewriting

theorem Rewriting.kept_consistent (consistent : TypeConsistent impl.config.registry impl.graph)
    {node : NodeDef} (edge : PortEdge impl.graph impl.nodeTypeMap s p d k ts td)
    (kept : ¬ impl.Crossing allow s p d k) (atNode : view.graph[d]? = some node) :
    ∃ src ∈ view.graph, src.name = (impl.nodeDef s).name ∧ (outputDataType impl.config.registry src p).isSome = true ∧
      outputDataType impl.config.registry src p = inputDataType impl.config.registry node k := by
  obtain ⟨src, dst, atSrc, atDst, -⟩ := edge.input
  obtain ⟨srcNode, atSrcNode, sameName⟩ := rewriting.node_of_original atSrc
  have srcBound := read_lt atSrc
  have dstBound := read_lt atDst
  have isType := rewriting.outputDataType_eq ready srcBound atSrcNode edge.srcType
  refine ⟨srcNode, List.mem_of_getElem? atSrcNode, by rw [sameName, nodeDef_eq atSrc], by simp [isType], ?_⟩
  rw [isType, rewriting.inputDataType_eq ready dstBound atNode edge.dstType]
  have sameType := ready.edge_dataType consistent edge
  by_cases isFloat : getDataType (impl.nodeDef s) ts = .float
  · have sameSide : impl.inAllow allow s ts = impl.inAllow allow d td := by
      by_contra differs
      exact kept ⟨ts, td, edge, isFloat, differs⟩
    have dstFloat := sameType.symm.trans isFloat
    simp [paints, isFloat, dstFloat, sameSide]
  · simp [paints, isFloat, ← sameType]

variable (castOp : impl.config.registry.lookUpOpDef "Cast" = .ok castOpDef)
include castOp

theorem Rewriting.cast_consistent (crossing : impl.Crossing allow s p d k) :
    ∃ src ∈ view.graph, src.name = (impl.nodeDef s).name ∧ (outputDataType impl.config.registry src p).isSome = true ∧
      outputDataType impl.config.registry src p = inputDataType impl.config.registry (impl.castFor allow s p) 0 := by
  obtain ⟨ts, td, edge, isFloat, -⟩ := crossing
  obtain ⟨src, -, atSrc, -⟩ := edge.input
  obtain ⟨node, atNode, sameName⟩ := rewriting.node_of_original atSrc
  have bound := read_lt atSrc
  have isType := rewriting.outputDataType_eq ready bound atNode edge.srcType
  refine ⟨node, List.mem_of_getElem? atNode, by rw [sameName, nodeDef_eq atSrc], by simp [isType], ?_⟩
  rw [isType, (castFor_dataTypes castOp allow edge.srcType).1]
  simp [paints, isFloat]

theorem Rewriting.moved_consistent (consistent : TypeConsistent impl.config.registry impl.graph)
    {node : NodeDef} (crossing : impl.Crossing allow s p d k) (atNode : view.graph[d]? = some node) :
    ∃ src ∈ view.graph, src.name = (impl.castFor allow s p).name ∧
      (outputDataType impl.config.registry src 0).isSome = true ∧
      outputDataType impl.config.registry src 0 = inputDataType impl.config.registry node k := by
  obtain ⟨c, -, atCast⟩ := (rewriting.casts _).2 ⟨s, p, d, k, crossing, trivial, rfl⟩
  obtain ⟨ts, td, edge, isFloat, differs⟩ := crossing
  obtain ⟨-, dst, -, atDst, -⟩ := edge.input
  have bound := read_lt atDst
  have isType := (castFor_dataTypes castOp allow edge.srcType).2
  refine ⟨_, List.mem_of_getElem? atCast, rfl, by simp [isType], ?_⟩
  rw [isType, rewriting.inputDataType_eq ready bound atNode edge.dstType]
  have sameType := ready.edge_dataType consistent edge
  rw [isFloat] at sameType
  cases srcIn : impl.inAllow allow s ts <;> cases dstIn : impl.inAllow allow d td <;>
    simp_all [paints]

theorem Rewriting.typeConsistent (consistent : TypeConsistent impl.config.registry impl.graph) :
    TypeConsistent impl.config.registry view.graph := by
  intro node mem input isInput
  obtain ⟨d, atNode⟩ := List.mem_iff_getElem?.1 mem
  obtain ⟨⟨name, index⟩, k⟩ := input
  have atPort := List.mem_zipIdx_iff_getElem?.1 isInput
  cases index with
  | controlSlot => trivial
  | port p =>
    show ∃ src ∈ view.graph, src.name = name ∧ _
    rcases Nat.lt_or_ge d impl.graph.length with bound | beyond
    · have atOld := getElem?_nodeDef bound
      obtain ⟨node', atNode', -, -, -, sameLength, -⟩ := rewriting.original d _ atOld
      rw [atNode] at atNode'
      cases atNode'
      have inRange := read_lt atPort
      rw [sameLength] at inRange
      have atBefore := List.getElem?_eq_getElem inRange
      have sameKind := rewriting.control_iff atOld atNode atBefore atPort
      by_cases crossing : ∃ s p, impl.Crossing allow s p d k
      · obtain ⟨s, q, crossing⟩ := crossing
        have isMoved := rewriting.moved s q d k node crossing trivial atNode
        rw [atPort] at isMoved
        obtain ⟨isName, isPort⟩ := TensorId.mk.inj (Option.some.inj isMoved)
        cases isPort
        rw [isName]
        exact rewriting.moved_consistent ready castOp consistent crossing atNode
      · have isKept := rewriting.kept d k _ node _ atOld atNode atBefore
          fun s p isCrossing => absurd ⟨s, p, isCrossing⟩ crossing
        rw [atPort] at isKept
        rw [← isKept] at atBefore
        obtain ⟨s, src, ts, td, atSrc, isName, edge⟩ := ready.portEdge atOld atBefore
        rw [← isName, ← nodeDef_eq atSrc]
        exact rewriting.kept_consistent ready consistent edge
          (fun isCrossing => crossing ⟨s, p, isCrossing⟩) atNode
    · obtain ⟨s, q, d', k', crossing, -, isCast⟩ := (rewriting.casts node).1 ⟨d, beyond, atNode⟩
      rw [isCast] at atPort ⊢
      have onlyInput : [(⟨(impl.nodeDef s).name, .port q⟩ : TensorId)][k]? = some ⟨name, .port p⟩ := atPort
      cases k with
      | zero =>
        obtain ⟨isName, isPort⟩ := TensorId.mk.inj (Option.some.inj onlyInput)
        cases isPort
        rw [← isName]
        exact rewriting.cast_consistent ready castOp crossing
      | succ k => simp at onlyInput

end Typing

theorem Rewriting.converted (ready : impl.Ready)
    (rewriting : impl.Rewriting allow impl.nodeTypeMap.getTypeAttrs (fun _ _ => True) view)
    (castOp : impl.config.registry.lookUpOpDef "Cast" = .ok castOpDef)
    (consistent : TypeConsistent impl.config.registry impl.graph) : impl.Converted allow view.graph :=
  { namesNodup := rewriting.namesNodup
    typeConsistent := rewriting.typeConsistent ready castOp consistent
    original := fun n old atOld => by
      obtain ⟨node, atNode, name, op, device, sameLength, -⟩ := rewriting.original n old atOld
      exact ⟨node, atNode, name, op, device, sameLength, rewriting.lookup ready atOld atNode,
        fun typeAttr typed => rewriting.getDataType_eq ready atOld atNode typed⟩
    control := fun n k old node name atOld atNode atPort => by
      refine rewriting.kept n k old node _ atOld atNode atPort fun s p crossing => ?_
      obtain ⟨_, _, edge, -⟩ := crossing
      obtain ⟨_, dst, -, atDst, atPort'⟩ := edge.input
      rw [atOld] at atDst
      cases atDst
      rw [atPort] at atPort'
      cases atPort'
    kept := fun s p d k src dst node atSrc atDst atNode atPort kept => by
      refine rewriting.kept d k dst node _ atDst atNode atPort fun s' p' crossing => ?_
      obtain ⟨ts, td, edge, differs⟩ := crossing
      obtain ⟨src', dst', atSrc', atDst', atPort'⟩ := edge.input
      rw [atDst] at atDst'
      cases atDst'
      rw [atPort] at atPort'
      obtain ⟨sameName, samePort⟩ := TensorId.mk.inj (Option.some.inj atPort')
      have isSource : s = s' := getElem?_name_inj ready.namesNodup atSrc atSrc' sameName
      cases isSource
      cases samePort
      exact absurd ⟨ts, td, edge, differs⟩ kept
    routed := fun s p d k src dst node _ _ atNode _ crossing => by
      refine ⟨rewriting.moved s p d k node crossing trivial atNode, ?_⟩
      obtain ⟨c, beyond, atCast⟩ := (rewriting.casts _).2 ⟨s, p, d, k, crossing, trivial, rfl⟩
      exact ⟨c, ⟨beyond, atCast⟩, fun c' found => rewriting.index_unique found.2 atCast rfl⟩
    casts := fun c node beyond atNode => by
      obtain ⟨s, p, d, k, crossing, -, isCast⟩ := (rewriting.casts node).1 ⟨c, beyond, atNode⟩
      exact ⟨s, p, d, k, crossing, isCast⟩
    onePerPort := fun c c' node node' beyond beyond' atNode atNode' sameInput => by
      obtain ⟨s, p, d, k, ⟨_, _, edge, -⟩, -, isCast⟩ := (rewriting.casts node).1 ⟨c, beyond, atNode⟩
      obtain ⟨s', p', d', k', ⟨_, _, edge', -⟩, -, isCast'⟩ :=
        (rewriting.casts node').1 ⟨c', beyond', atNode'⟩
      obtain ⟨src, _, atSrc, -⟩ := edge.input
      obtain ⟨src', _, atSrc', -⟩ := edge'.input
      rw [isCast, isCast'] at sameInput
      have sameTensor := (List.cons.inj sameInput).1
      obtain ⟨sameName, samePort⟩ := TensorId.mk.inj sameTensor
      rw [nodeDef_eq atSrc, nodeDef_eq atSrc'] at sameName
      have isSource : s = s' := getElem?_name_inj ready.namesNodup atSrc atSrc' sameName
      cases isSource
      cases samePort
      exact rewriting.index_unique atNode atNode' (by rw [isCast, isCast']) }

end Impl

/-- The final pass keeps a type-consistent graph type-consistent, for any set of
types it is given. -/
theorem Prepared.conversion_typed {settings : Config} {graph : GraphDef} {prepared : Prepared}
    (castOp : settings.registry.lookUpOpDef "Cast" = .ok castOpDef) (returned : prepare settings graph = .ok prepared)
    (consistent : TypeConsistent settings.registry prepared.impl.graph) (allow : Finset Nat) {view : MutableGraphView}
    (converted : prepared.impl.changeTypeAttrsAndAddCasts allow = .ok view) :
    prepared.impl.Converted allow view.graph := by
  have ready := ready_of_prepare returned
  have sameSettings : prepared.impl.config = settings := by
    obtain ⟨base, added, built, -, rfl⟩ := prepare_spec returned
    exact built.config
  exact (ready.rewritten converted).converted ready (sameSettings ▸ castOp)
    (sameSettings ▸ consistent)

/-- Converting only the product in a loop casts on the way in and on the way out. -/
theorem conversion_typed_in_loop : ∃ prepared view, prepare (sampleSettings []) loopGraph = .ok prepared ∧
    prepared.impl.changeTypeAttrsAndAddCasts {3} = .ok view ∧ view.graph.length = 6 ∧
    prepared.impl.Converted {3} view.graph := by
  have isOk : (do
      let view ← MutableGraphView.construct loopGraph
      let impl ← assemble (sampleSettings []) view
      let prepared ← impl.findTensorLists
      require (TypeConsistent (sampleSettings []).registry prepared.impl.graph) (.crash "")
      let converted ← prepared.impl.changeTypeAttrsAndAddCasts {3}
      require (converted.graph.length = 6) (.crash "")).toBool = true := by
    decide +kernel
  obtain ⟨_, ran⟩ := ok_of_toBool isOk
  obtain ⟨view, viewOk, ran⟩ := bind_ok.1 ran
  obtain ⟨impl, implOk, ran⟩ := bind_ok.1 ran
  obtain ⟨prepared, preparedOk, ran⟩ := bind_ok.1 ran
  obtain ⟨_, consistent, ran⟩ := bind_ok.1 ran
  obtain ⟨converted, convertedOk, ran⟩ := bind_ok.1 ran
  have returned : prepare (sampleSettings []) loopGraph = .ok prepared := by
    rw [prepare_of_builtin rfl rfl, viewOk]
    show (assemble (sampleSettings []) view >>= fun impl => impl.findTensorLists) = .ok prepared
    rw [implOk]
    exact preparedOk
  exact ⟨prepared, converted, returned, convertedOk, require_eq_ok.1 ran,
    Prepared.conversion_typed rfl returned (require_eq_ok.1 consistent) {3} convertedOk⟩

end Itex.AutoMixedPrecision
