import Itex.Graph.ViewEdits
import Itex.AutoMixedPrecision.TensorLists

/-!
Contract: what `ChangeTypeAttrsAndAddCasts` does to the graph.

Owns: the graph after any part of the rewriting, described by the types and the
inputs that are done, and from it the graph at the end.
-/

namespace Itex.AutoMixedPrecision

open Itex.Lib Itex.Graph

variable {added : Option String} {dtype : DataType} {graph : GraphDef} {p' s' d k n p s : Nat}
  {painted : TypeAttrId → Bool} {td typeAttr : TypeAttrId} {dst old : NodeDef}

/-- An attribute of which some types are changed. -/
def repaintValue (painted : TypeAttrId → Bool) (dtype : DataType) (name : String) : AttrValue → AttrValue
  | .type value => .type (if painted (.single name) then dtype else value)
  | .list types others =>
    .list (types.mapIdx fun index value =>
      if painted (.ofAttr name index) then dtype else value) others
  | .strings values => .strings values
  | .bools values => .bools values
  | .ints values => .ints values
  | .s value => .s value
  | .i value => .i value
  | .b value => .b value
  | .f value => .f value
  | .tensor value => .tensor value
  | .other text => .other text

theorem repaintValue_none (none : ∀ typeAttr, painted typeAttr = false)
    (dtype : DataType) (name : String) (value : AttrValue) : repaintValue painted dtype name value = value := by
  cases value with
  | list types others =>
    simp only [repaintValue, none, Bool.false_eq_true, if_false, AttrValue.list.injEq, and_true]
    exact List.ext_getElem? fun n => by simp
  | _ => simp [repaintValue, none]

theorem repaintValue_or (left right : TypeAttrId → Bool) (dtype : DataType) (name : String) (value : AttrValue) :
    repaintValue right dtype name (repaintValue left dtype name value) =
      repaintValue (fun typeAttr => left typeAttr || right typeAttr) dtype name value := by
  cases value with
  | type value =>
    simp only [repaintValue, AttrValue.type.injEq]
    by_cases isLeft : left (.single name) = true <;> simp [isLeft]
  | list types others =>
    simp only [repaintValue, AttrValue.list.injEq, and_true]
    refine List.ext_getElem? fun n => ?_
    simp only [List.getElem?_mapIdx, Option.map_map]
    cases types[n]? with
    | none => rfl
    | some value =>
      simp only [Option.map_some, Function.comp_apply]
      by_cases isLeft : left (.ofAttr name n) = true <;> simp [isLeft]
  | _ => rfl

theorem lookup_setDataType {node changed : NodeDef} (set : setDataType node typeAttr dtype = some changed)
    (isFloat : getDataType node typeAttr = .float) (canonical : typeAttr.Canonical) (name : String) :
    changed.attr.lookup name = (node.attr.lookup name).map
      (repaintValue (fun other => decide (other = typeAttr)) dtype name) := by
  obtain ⟨named, value, found, cases⟩ := setDataType_cases set
  have isFixed := canonical named
  by_cases sameName : name = typeAttr.attrName
  swap
  · -- No type of another attribute is changed.
    rw [setDataType_lookup_ne set sameName]
    have untouched : ∀ index : Int, TypeAttrId.ofAttr name index ≠ typeAttr := by
      rintro index rfl
      exact sameName rfl
    cases node.attr.lookup name with
    | none => rfl
    | some other =>
      rw [Option.map_some]
      congr 1
      cases other with
      | type _ => simp [repaintValue, TypeAttrId.single, untouched]
      | list types others =>
        simp only [repaintValue, untouched, decide_false, Bool.false_eq_true, if_false,
          AttrValue.list.injEq, and_true]
        exact List.ext_getElem? fun n => by simp
      | _ => rfl
  · have isType : ∀ index : Int, TypeAttrId.ofAttr name index = typeAttr ↔ index = typeAttr.typeIndex := by
      intro index
      rw [sameName, TypeAttrId.ofAttr, ← isFixed]
      constructor
      · intro same
        rw [← same]
      · rintro rfl
        rfl
    simp only [getDataType, named, if_false, found] at isFloat
    rw [sameName, found, Option.map_some]
    rcases cases with ⟨isSingle, rfl⟩ | ⟨notSingle, nonneg, inRange, rfl⟩
    · simp only [isSingle, if_true] at isFloat
      rw [AList.lookup_insert]
      cases value with
      | type other =>
        have isThis : TypeAttrId.single name = typeAttr := (isType _).2 isSingle.symm
        simp [repaintValue, ← sameName, isThis]
      | _ => simp [AttrValue.typeValue] at isFloat
    · simp only [notSingle, if_false, Int.not_lt.2 nonneg] at isFloat
      rw [AList.lookup_insert]
      cases value with
      | list types others =>
        simp only [AttrValue.setListType, repaintValue, ← sameName, isType, Option.some.injEq,
          AttrValue.list.injEq, and_true]
        refine List.ext_getElem? fun n => ?_
        grind
      | _ => simp [AttrValue.listTypes] at isFloat

/-- The types of a node of which some float32 types were changed. -/
theorem getDataType_of_repainted {node : NodeDef}
    (law : ∀ name, node.attr.lookup name = (old.attr.lookup name).map (repaintValue painted dtype name))
    (canonical : typeAttr.Canonical) (isFloat : painted typeAttr = true →
      typeAttr.attrName ≠ "" ∧ getDataType old typeAttr = .float) : getDataType node typeAttr =
      if painted typeAttr then dtype else getDataType old typeAttr := by
  by_cases named : typeAttr.attrName = ""
  · have unpainted : painted typeAttr ≠ true := fun isPainted => (isFloat isPainted).1 named
    rw [if_neg unpainted]
    simp [getDataType, named]
  have isFixed := canonical named
  have isThis : TypeAttrId.ofAttr typeAttr.attrName typeAttr.typeIndex = typeAttr := by
    rw [TypeAttrId.ofAttr, ← isFixed]
  unfold getDataType at isFloat ⊢
  simp only [named, if_false, law] at isFloat ⊢
  cases found : old.attr.lookup typeAttr.attrName with
  | none =>
    have unpainted : painted typeAttr ≠ true := by
      intro isPainted
      have := (isFloat isPainted).2
      simp [found] at this
    simp [unpainted]
  | some value =>
    simp only [found, Option.map_some] at isFloat ⊢
    by_cases isSingle : typeAttr.typeIndex = TypeAttrId.kSingleType
    · have isType : TypeAttrId.single typeAttr.attrName = typeAttr := by
        rw [isSingle] at isThis
        exact isThis
      simp only [isSingle, if_true] at isFloat ⊢
      cases value with
      | type other => simp [repaintValue, AttrValue.typeValue, isType]
      | _ =>
        have unpainted : painted typeAttr ≠ true := by
          intro isPainted
          simpa [AttrValue.typeValue] using (isFloat isPainted).2
        simp [repaintValue, AttrValue.typeValue, unpainted]
    · simp only [isSingle, if_false] at isFloat ⊢
      by_cases negative : typeAttr.typeIndex < 0
      · have unpainted : painted typeAttr ≠ true := by
          intro isPainted
          simpa [negative] using (isFloat isPainted).2
        simp [negative, unpainted]
      · simp only [negative, if_false] at isFloat ⊢
        cases value with
        | list types others =>
          have isType : TypeAttrId.ofAttr typeAttr.attrName typeAttr.typeIndex.toNat = typeAttr := by
            rw [show ((typeAttr.typeIndex.toNat : Nat) : Int) = typeAttr.typeIndex by omega]
            exact isThis
          simp only [repaintValue, AttrValue.listTypes, List.getD, List.getElem?_mapIdx, isType] at isFloat ⊢
          grind
        | _ =>
          have unpainted : painted typeAttr ≠ true := by
            intro isPainted
            simpa [AttrValue.listTypes] using (isFloat isPainted).2
          simp [repaintValue, AttrValue.listTypes, unpainted]

/-! ## Edges where the paint changes -/

theorem getElem?_name_inj (nodup : (graph.map NodeDef.name).Nodup) {m : Nat}
    {node other : NodeDef} (atN : graph[n]? = some node) (atM : graph[m]? = some other)
    (sameName : node.name = other.name) : n = m := by
  refine GraphTypeTopologyView.getElem?_inj nodup (a := node.name) ?_ ?_
  · rw [List.getElem?_map, atN]
    rfl
  · rw [List.getElem?_map, atM, sameName]
    rfl

theorem PortEdge.unique {map : NodeTypeAttrMap}
    (nodup : (graph.map NodeDef.name).Nodup) {ts ts' td' : TypeAttrId}
    (edge : PortEdge graph map s p d k ts td) (edge' : PortEdge graph map s' p' d k ts' td') :
    s = s' ∧ p = p' ∧ ts = ts' ∧ td = td' := by
  obtain ⟨src, dst, atSrc, atDst, atPort⟩ := edge.input
  obtain ⟨src', dst', atSrc', atDst', atPort'⟩ := edge'.input
  rw [atDst] at atDst'
  cases atDst'
  rw [atPort] at atPort'
  obtain ⟨sameName, samePort⟩ := TensorId.mk.inj (Option.some.inj atPort')
  have isSource : s = s' := getElem?_name_inj nodup atSrc atSrc' sameName
  cases isSource
  cases samePort
  have srcType := edge.srcType
  rw [edge'.srcType] at srcType
  have dstType := edge.dstType
  rw [edge'.dstType] at dstType
  exact ⟨rfl, rfl, (Option.some.inj srcType).symm, (Option.some.inj dstType).symm⟩

namespace Impl

variable {impl : Impl} {allow : Finset Nat}

/-- Whether a type of a node is in the given set. -/
def inAllow (impl : Impl) (allow : Finset Nat) (n : Nat) (typeAttr : TypeAttrId) : Bool :=
  match impl.graphTypeView.indexOf ⟨n, typeAttr⟩ with
  | none => false
  | some index => decide (index ∈ allow)

/-- Whether a type of a node is changed. -/
def paints (impl : Impl) (allow : Finset Nat) (n : Nat) (typeAttr : TypeAttrId) : Bool :=
  decide (getDataType (impl.nodeDef n) typeAttr = .float) && impl.inAllow allow n typeAttr

/-- An edge from a float32 output of which one end is in the set. -/
def Crossing (impl : Impl) (allow : Finset Nat) (s p d k : Nat) : Prop :=
  ∃ ts td, PortEdge impl.graph impl.nodeTypeMap s p d k ts td ∧ getDataType (impl.nodeDef s) ts = .float ∧
    impl.inAllow allow s ts ≠ impl.inAllow allow d td

def castFor (impl : Impl) (allow : Finset Nat) (s p : Nat) : NodeDef :=
  buildCastNode impl.targetDtype
    (!((impl.nodeTypeMap.entry s).outputs[p]?).any (impl.inAllow allow s)) (impl.nodeDef s) p

theorem inAllow_of_getElem? (ready : impl.Ready) {index : Nat}
    (atIndex : impl.graphTypeView.nodeTypeAttrs[index]? = some ⟨n, typeAttr⟩) :
    impl.inAllow allow n typeAttr = decide (index ∈ allow) := by
  unfold inAllow
  rw [ready.wellFormed.indexOf_eq_some.2 atIndex]

theorem Crossing.source_unique (ready : impl.Ready)
    (crossing : impl.Crossing allow s p d k) (crossing' : impl.Crossing allow s' p' d k) : s = s' ∧ p = p' := by
  obtain ⟨ts, td, edge, -⟩ := crossing
  obtain ⟨ts', td', edge', -⟩ := crossing'
  obtain ⟨sameSource, samePort, -, -⟩ := edge.unique ready.namesNodup edge'
  exact ⟨sameSource, samePort⟩

theorem Ready.input_typed (ready : impl.Ready) {tensor : TensorId}
    (atDst : impl.graph[d]? = some dst) (atPort : dst.input[k]? = some tensor) (regular : tensor.index ≠ .controlSlot) :
    ∃ td, (impl.nodeTypeMap.entry d).inputs[k]? = some td := by
  obtain ⟨opDef, -, described⟩ := ready.described d dst atDst
  have counted := described.inputs_length
  have bound := read_lt atDst
  -- The typed positions are regular and are as many as the regular inputs.
  have leading : ∀ j < (impl.nodeTypeMap.entry d).inputs.length,
      ∃ other, dst.input[j]? = some other ∧ other.index ≠ .controlSlot := by
    intro j within
    obtain ⟨s, p, ts, edge⟩ := ready.fed d bound j _ (List.getElem?_eq_getElem within)
    obtain ⟨src, dst', -, atDst', atInput⟩ := edge.input
    rw [atDst] at atDst'
    cases atDst'
    exact ⟨_, atInput, by simp⟩
  generalize lengthIs : (impl.nodeTypeMap.entry d).inputs.length = m at counted leading
  have within : k < m := by
    by_contra beyond
    have prefixRegular : (dst.input.take m).filter (fun other => other.index ≠ .controlSlot) = dst.input.take m := by
      rw [List.filter_eq_self]
      intro other mem
      obtain ⟨j, jBound, isOther⟩ := List.getElem_of_mem mem
      rw [List.length_take] at jBound
      obtain ⟨same, atJ, isRegular⟩ := leading j (by omega)
      rw [List.getElem_take] at isOther
      rw [List.getElem?_eq_getElem (by omega), isOther] at atJ
      rw [Option.some.inj atJ]
      simpa using isRegular
    have inRange : m ≤ dst.input.length := by
      have := read_lt atPort
      omega
    have mem : tensor ∈ (dst.input.drop m).filter (fun other => other.index ≠ .controlSlot) := by
      rw [List.mem_filter]
      refine ⟨?_, by simpa using regular⟩
      rw [List.mem_iff_getElem?]
      refine ⟨k - m, ?_⟩
      rw [List.getElem?_drop, show m + (k - m) = k by omega]
      exact atPort
    have total : (nonControlInputs dst).length = m +
        ((dst.input.drop m).filter (fun other => other.index ≠ .controlSlot)).length := by
      unfold nonControlInputs
      conv_lhs => rw [← List.take_append_drop m dst.input]
      rw [List.filter_append, List.length_append, prefixRegular, List.length_take, Nat.min_eq_left inRange]
    have pos := List.length_pos_of_mem mem
    omega
  exact ⟨_, List.getElem?_eq_getElem (lengthIs ▸ within)⟩

theorem Ready.portEdge (ready : impl.Ready) {name : String}
    (atDst : impl.graph[d]? = some dst) (atPort : dst.input[k]? = some ⟨name, .port p⟩) :
    ∃ s src ts td, impl.graph[s]? = some src ∧ src.name = name ∧
      PortEdge impl.graph impl.nodeTypeMap s p d k ts td := by
  obtain ⟨td, isType⟩ := ready.input_typed atDst atPort (by simp)
  obtain ⟨s, p', ts, edge⟩ := ready.fed d (read_lt atDst) k td isType
  obtain ⟨src, dst', atSrc, atDst', atPort'⟩ := edge.input
  grind

/-! ## The graph during the rewriting -/

/-- The graph after the types in `done` were changed and the inputs in `handled` were
moved to casts, where the paint changes on their edge. -/
structure Rewriting (impl : Impl) (allow : Finset Nat) (done : Nat → List TypeAttrId)
    (handled : Nat → Nat → Prop) (view : MutableGraphView) : Prop where
  consistent : view.Consistent
  keys : ∀ (n : Nat) old, impl.graph[n]? = some old → ∀ tensor ∈ old.input, tensor.node ∈ view.nodes
  original : ∀ (n : Nat) old, impl.graph[n]? = some old → ∃ node, view.graph[n]? = some node ∧
    node.name = old.name ∧ node.op = old.op ∧ node.device = old.device ∧
    node.input.length = old.input.length ∧
    ∀ name, node.attr.lookup name = (old.attr.lookup name).map
      (repaintValue (fun typeAttr => decide (typeAttr ∈ done n) && impl.paints allow n typeAttr)
        impl.targetDtype name)
  named : ∀ (n : Nat), ∀ typeAttr ∈ done n, impl.paints allow n typeAttr = true → typeAttr.attrName ≠ ""
  kept : ∀ (n k : Nat) old node tensor, impl.graph[n]? = some old → view.graph[n]? = some node →
    old.input[k]? = some tensor → (∀ s p, impl.Crossing allow s p n k → ¬ handled n k) →
    node.input[k]? = some tensor
  moved : ∀ (s p n k : Nat) node, impl.Crossing allow s p n k → handled n k → view.graph[n]? = some node →
    node.input[k]? = some ⟨(impl.castFor allow s p).name, .port 0⟩
  casts : ∀ node, (∃ c, impl.graph.length ≤ c ∧ view.graph[c]? = some node) ↔
    ∃ s p d k, impl.Crossing allow s p d k ∧ handled d k ∧ node = impl.castFor allow s p
  fresh : ∀ (s p d k : Nat), impl.Crossing allow s p d k → handled d k →
    ∀ (n : Nat) old, impl.graph[n]? = some old → ∀ tensor ∈ old.input, tensor.node ≠ (impl.castFor allow s p).name

section Rewriting

variable {done : Nat → List TypeAttrId} {handled handled' : Nat → Nat → Prop}
  {view view' : MutableGraphView}

theorem Rewriting.congr (rewriting : impl.Rewriting allow done handled view)
    (same : ∀ s p d k, impl.Crossing allow s p d k → (handled d k ↔ handled' d k)) :
    impl.Rewriting allow done handled' view :=
  { consistent := rewriting.consistent
    keys := rewriting.keys
    original := rewriting.original
    named := rewriting.named
    kept := fun n k old node tensor atOld atNode atPort apart =>
      rewriting.kept n k old node tensor atOld atNode atPort fun s p crossing isHandled =>
        apart s p crossing ((same s p n k crossing).1 isHandled)
    moved := fun s p n k node crossing isHandled =>
      rewriting.moved s p n k node crossing ((same s p n k crossing).2 isHandled)
    casts := fun node => by
      rw [rewriting.casts]
      grind
    fresh := fun s p d k crossing isHandled =>
      rewriting.fresh s p d k crossing ((same s p d k crossing).2 isHandled) }

theorem Ready.rewriting_start (ready : impl.Ready) :
    impl.Rewriting allow (fun _ => []) (fun _ _ => False) impl.graphView :=
  { consistent := ready.consistent
    keys := fun n old atOld tensor mem => ready.consistent.keyed n old trivial atOld tensor mem
    original := fun n old atOld => by
      refine ⟨old, atOld, rfl, rfl, rfl, rfl, fun name => ?_⟩
      cases old.attr.lookup name with
      | none => rfl
      | some value =>
        rw [Option.map_some, repaintValue_none (by simp)]
    named := by simp
    kept := fun n k old node tensor atOld atNode atPort _ => by
      have same : node = old := Option.some.inj (atNode.symm.trans atOld)
      rw [same]
      exact atPort
    moved := fun _ _ _ _ _ _ isHandled => isHandled.elim
    casts := fun node => by
      constructor
      · rintro ⟨c, beyond, found⟩
        have bound : c < impl.graph.length := read_lt found
        omega
      · rintro ⟨_, _, _, _, -, isHandled, -⟩
        exact isHandled.elim
    fresh := fun _ _ _ _ _ isHandled => isHandled.elim }

theorem Rewriting.getDataType_undone (ready : impl.Ready)
    (rewriting : impl.Rewriting allow done handled view) {node : NodeDef}
    (atOld : impl.graph[n]? = some old) (atNode : view.graph[n]? = some node)
    (typed : typeAttr ∈ impl.nodeTypeMap.getTypeAttrs n)
    (undone : typeAttr ∉ done n) : getDataType node typeAttr = getDataType old typeAttr := by
  obtain ⟨other, atOther, -, -, -, -, law⟩ := rewriting.original n old atOld
  have same : other = node := Option.some.inj (atOther.symm.trans atNode)
  subst same
  obtain ⟨opDef, -, described⟩ := ready.described n old atOld
  rw [getDataType_of_repainted law (described.canonical typed) (by simp [undone])]
  simp [undone]

theorem Rewriting.markDone (rewriting : impl.Rewriting allow done handled view)
    (unpainted : impl.paints allow n typeAttr = false) :
    impl.Rewriting allow (Function.update done n (typeAttr :: done n)) handled view := by
  have sameDone : ∀ m other, (decide (other ∈ Function.update done n (typeAttr :: done n) m) &&
      impl.paints allow m other) = (decide (other ∈ done m) && impl.paints allow m other) := by
    intro m other
    by_cases isNode : m = n
    · subst isNode
      rw [Function.update_self]
      by_cases isType : other = typeAttr
      · simp [isType, unpainted]
      · simp [isType]
    · rw [Function.update_of_ne isNode]
  refine { rewriting with original := ?_, named := ?_ }
  · intro m before atBefore
    simp only [sameDone]
    exact rewriting.original m before atBefore
  · intro m other mem isPainted
    have both : (decide (other ∈ done m) && impl.paints allow m other) = true := by
      rw [← sameDone]
      simp [mem, isPainted]
    exact rewriting.named m other (by simpa using (Bool.and_eq_true_iff.1 both).1) isPainted

theorem Rewriting.repaint (ready : impl.Ready) (rewriting : impl.Rewriting allow done handled view)
    (atOld : impl.graph[n]? = some old)
    (typed : typeAttr ∈ impl.nodeTypeMap.getTypeAttrs n) (undone : typeAttr ∉ done n)
    (isFloat : getDataType old typeAttr = .float)
    (ran : impl.repaint view (impl.inAllow allow n typeAttr) n typeAttr = .ok view') :
    impl.Rewriting allow (Function.update done n (typeAttr :: done n)) handled view' := by
  have isOld : impl.nodeDef n = old := nodeDef_eq atOld
  have paints : impl.paints allow n typeAttr = impl.inAllow allow n typeAttr := by
    simp [Impl.paints, isOld, isFloat]
  unfold Impl.repaint at ran
  split at ran
  next unpainted =>
    cases ran
    exact rewriting.markDone (paints.trans unpainted)
  next painted =>
    rw [Bool.not_eq_false] at painted
    rw [painted] at paints
    obtain ⟨node, atNode, name, op, device, inputLength, law⟩ := rewriting.original n old atOld
    have isNode : view.graph.getD n default = node := by simp [List.getD, atNode]
    rw [isNode] at ran
    split at ran
    · cases ran
    next changed set =>
      cases ran
      obtain ⟨sameName, sameOp, sameDevice, sameInput⟩ := setDataType_frame set
      obtain ⟨opDef, -, described⟩ := ready.described n old atOld
      have nodeFloat : getDataType node typeAttr = .float :=
        (rewriting.getDataType_undone ready atOld atNode typed undone).trans isFloat
      have bound : n < view.graph.length := read_lt atNode
      have after : ∀ (m : Nat) after, (view.graph.set n changed)[m]? = some after ↔
          (m = n ∧ after = changed) ∨ (m ≠ n ∧ view.graph[m]? = some after) := by
        intro m after
        rw [List.getElem?_set]
        by_cases isThis : n = m
        · subst isThis
          simp [bound, eq_comm]
        · simp [isThis, Ne.symm isThis]
      have wiring : MutableGraphView.SameWiring view.graph (view.graph.set n changed) := by
        refine ⟨List.length_set, fun m other found => ?_⟩
        rcases (after m other).1 found with ⟨rfl, rfl⟩ | ⟨-, found⟩
        · exact ⟨node, atNode, sameName, sameInput⟩
        · exact ⟨other, found, rfl, rfl⟩
      have notCast : ∀ {c : Nat}, impl.graph.length ≤ c → c ≠ n := by
        intro c beyond isThis
        have := read_lt atOld
        omega
      -- A node of the new graph has the inputs of the node that was there.
      have inputs : ∀ (m : Nat) other, (view.graph.set n changed)[m]? = some other →
          ∃ before, view.graph[m]? = some before ∧ other.input = before.input := by
        intro m other found
        obtain ⟨before, atBefore, -, input⟩ := wiring.node m other found
        exact ⟨before, atBefore, input⟩
      exact {
        consistent := rewriting.consistent.regraph wiring
        keys := rewriting.keys
        original := fun m before atBefore => by
          by_cases isThis : m = n
          · subst isThis
            have same : before = old := Option.some.inj (atBefore.symm.trans atOld)
            subst same
            refine ⟨changed, (after m changed).2 (.inl ⟨rfl, rfl⟩), sameName.trans name,
              sameOp.trans op, sameDevice.trans device, by rw [sameInput, inputLength],
              fun attrName => ?_⟩
            rw [lookup_setDataType set nodeFloat (described.canonical typed), law, Option.map_map, Function.update_self]
            congr 1
            funext value
            rw [Function.comp_apply, repaintValue_or]
            congr 1
            funext other
            by_cases isType : other = typeAttr
            · simp [isType, paints]
            · simp [isType]
          · obtain ⟨other, atOther, rest⟩ := rewriting.original m before atBefore
            rw [Function.update_of_ne isThis]
            exact ⟨other, (after m other).2 (.inr ⟨isThis, atOther⟩), rest⟩
        named := fun m other mem isPainted => by
          by_cases isThis : m = n
          · subst isThis
            rw [Function.update_self] at mem
            rcases List.mem_cons.1 mem with rfl | mem
            · exact (setDataType_cases set).1
            · exact rewriting.named m other mem isPainted
          · rw [Function.update_of_ne isThis] at mem
            exact rewriting.named m other mem isPainted
        kept := fun m k before other tensor atBefore atOther atPort apart => by
          obtain ⟨previous, atPrevious, input⟩ := inputs m other atOther
          rw [input]
          exact rewriting.kept m k before previous tensor atBefore atPrevious atPort apart
        moved := fun s p m k other crossing isHandled atOther => by
          obtain ⟨previous, atPrevious, input⟩ := inputs m other atOther
          rw [input]
          exact rewriting.moved s p m k previous crossing isHandled atPrevious
        casts := fun cast => by
          rw [← rewriting.casts]
          constructor
          · grind
          · rintro ⟨c, beyond, found⟩
            exact ⟨c, beyond, (after c cast).2 (.inr ⟨notCast beyond, found⟩)⟩
        fresh := rewriting.fresh }

theorem Rewriting.name_ne_cast (rewriting : impl.Rewriting allow done handled view)
    (crossing : impl.Crossing allow s p d k)
    (isHandled : handled d k) (atOld : impl.graph[n]? = some old) : old.name ≠ (impl.castFor allow s p).name := by
  intro sameName
  obtain ⟨c, beyond, atCast⟩ := (rewriting.casts _).2 ⟨s, p, d, k, crossing, isHandled, rfl⟩
  obtain ⟨node, atNode, name, -⟩ := rewriting.original n old atOld
  have left := (rewriting.consistent.named _ _).2 ⟨node, atNode, rfl⟩
  have right := (rewriting.consistent.named _ _).2 ⟨_, atCast, rfl⟩
  rw [name, sameName, right] at left
  have bound := read_lt atOld
  have same : c = n := Option.some.inj left
  omega

theorem Rewriting.mem_getFanout (ready : impl.Ready) (rewriting : impl.Rewriting allow done handled view)
    (isOutput : (impl.nodeTypeMap.entry n).outputs[p]? = some typeAttr)
    (atOld : impl.graph[n]? = some old)
    (unhandled : ∀ d k, impl.Crossing allow n p d k → ¬ handled d k) {port : InputPort} :
    port ∈ view.getFanout ⟨some n, .port p⟩ ↔ ∃ d k td, port = ⟨d, .port k⟩ ∧
      PortEdge impl.graph impl.nodeTypeMap n p d k typeAttr td := by
  obtain ⟨node, atNode, name, -⟩ := rewriting.original n old atOld
  rw [rewriting.consistent.mem_getFanout]
  constructor
  · rintro ⟨d, k, src, dst, rfl, atSrc, atDst, atPort⟩
    have isSrc : src = node := Option.some.inj (atSrc.symm.trans atNode)
    rw [isSrc, name] at atPort
    rcases Nat.lt_or_ge d impl.graph.length with bound | beyond
    · have atBefore := List.getElem?_eq_getElem bound
      obtain ⟨dst', atDst', -, -, -, inputLength, -⟩ := rewriting.original d _ atBefore
      have isDst : dst' = dst := Option.some.inj (atDst'.symm.trans atDst)
      rw [isDst] at inputLength
      have kBound : k < (impl.graph[d]).input.length := by
        rw [← inputLength]
        exact read_lt atPort
      have atTensor := List.getElem?_eq_getElem kBound
      -- The input was not moved, or it would come from a cast.
      have isKept := rewriting.kept d k _ dst _ atBefore atDst atTensor (by
        intro s q crossing isHandled
        have isMoved := rewriting.moved s q d k dst crossing isHandled atDst
        rw [atPort] at isMoved
        exact rewriting.name_ne_cast crossing isHandled atOld
          (TensorId.mk.inj (Option.some.inj isMoved)).1)
      rw [atPort] at isKept
      rw [← Option.some.inj isKept] at atTensor
      obtain ⟨s, src', ts, td, atSrc', sameName, edge⟩ := ready.portEdge atBefore atTensor
      have isSource : s = n := getElem?_name_inj ready.namesNodup atSrc' atOld sameName
      subst isSource
      have sameType : ts = typeAttr := Option.some.inj (edge.srcType.symm.trans isOutput)
      subst sameType
      exact ⟨d, k, td, rfl, edge⟩
    · obtain ⟨s, q, d', k', crossing, isHandled, isCast⟩ :=
        (rewriting.casts dst).1 ⟨d, beyond, atDst⟩
      have input : dst.input = [⟨(impl.nodeDef s).name, .port q⟩] := by
        rw [isCast]
        rfl
      rw [input] at atPort
      have isFirst : k = 0 := by
        have := read_lt atPort
        simpa using this
      rw [isFirst] at atPort
      obtain ⟨sameName, samePort⟩ := TensorId.mk.inj (Option.some.inj atPort)
      obtain ⟨ts, td, edge, rest⟩ := crossing
      obtain ⟨src', -, atSrc', -⟩ := edge.input
      rw [nodeDef_eq atSrc'] at sameName
      have isSource : s = n := getElem?_name_inj ready.namesNodup atSrc' atOld sameName
      cases samePort
      subst isSource
      exact absurd isHandled (unhandled d' k' ⟨ts, td, edge, rest⟩)
  · rintro ⟨d, k, td, rfl, edge⟩
    obtain ⟨src, dst, atSrc, atDst, atPort⟩ := edge.input
    obtain ⟨dst', atDst', -⟩ := rewriting.original d dst atDst
    have isSrc : src = old := Option.some.inj (atSrc.symm.trans atOld)
    refine ⟨d, k, node, dst', rfl, atNode, atDst', ?_⟩
    rw [name, ← isSrc]
    refine rewriting.kept d k dst dst' _ atDst atDst' atPort fun s q crossing isHandled => ?_
    obtain ⟨ts', td', edge', rest⟩ := crossing
    obtain ⟨rfl, rfl, -, -⟩ := edge.unique ready.namesNodup edge'
    exact unhandled d k ⟨ts', td', edge', rest⟩ isHandled

/-- `added_cast_node` of an output port. -/
def CastState (impl : Impl) (allow : Finset Nat) (handled : Nat → Nat → Prop) (n p : Nat) : Option String → Prop
  | none => ∀ d k, impl.Crossing allow n p d k → ¬ handled d k
  | some name => name = (impl.castFor allow n p).name ∧ ∃ d k, impl.Crossing allow n p d k ∧ handled d k

theorem Rewriting.ensureCast (rewriting : impl.Rewriting allow done handled view)
    (atOld : impl.graph[n]? = some old) {cast : String}
    {toF16 : Bool} (isCast : buildCastNode impl.targetDtype toF16 old p = impl.castFor allow n p)
    (state : impl.CastState allow handled n p added)
    (ran : impl.ensureCast view added n p toF16 = .ok (view', cast)) :
    cast = (impl.castFor allow n p).name ∧ view'.Consistent ∧ (∀ name ∈ view.nodes, name ∈ view'.nodes) ∧
      (∀ m < view.graph.length, view'.graph[m]? = view.graph[m]?) ∧
      (∀ node, (∃ c, impl.graph.length ≤ c ∧ view'.graph[c]? = some node) ↔
        (∃ c, impl.graph.length ≤ c ∧ view.graph[c]? = some node) ∨ node = impl.castFor allow n p) ∧
      ∀ (m : Nat) before, impl.graph[m]? = some before → ∀ tensor ∈ before.input,
        tensor.node ≠ (impl.castFor allow n p).name := by
  obtain ⟨node, atNode, name, -, device, -⟩ := rewriting.original n old atOld
  unfold Impl.ensureCast at ran
  cases added with
  | some present =>
    cases ran
    obtain ⟨isName, d, k, crossing, isHandled⟩ := state
    refine ⟨isName, rewriting.consistent, fun _ isKey => isKey, fun _ _ => rfl, fun other => ?_,
      rewriting.fresh n p d k crossing isHandled⟩
    constructor
    · exact .inl
    · rintro (found | rfl)
      · exact found
      · exact (rewriting.casts _).2 ⟨n, p, d, k, crossing, isHandled, rfl⟩
  | none =>
    dsimp only at ran
    obtain ⟨grown, grownOk, ran⟩ := bind_ok.1 ran
    cases ran
    have isBuilt : buildCastNode impl.targetDtype toF16 (view.graph.getD n default) p = impl.castFor allow n p := by
      rw [← isCast]
      have isNode : view.graph.getD n default = node := by simp [List.getD, atNode]
      rw [isNode]
      simp only [buildCastNode, name, device]
    rw [isBuilt] at grownOk ⊢
    obtain ⟨fresh, newGraph, consistent, keys⟩ :=
      MutableGraphView.addNode_spec rewriting.consistent rfl grownOk
    have inGraph : impl.graph.length ≤ view.graph.length := by
      by_contra short
      have bound : view.graph.length < impl.graph.length := by omega
      obtain ⟨other, atOther, -⟩ := rewriting.original _ _ (List.getElem?_eq_getElem bound)
      simp at atOther
    refine ⟨rfl, consistent, keys, fun m bound => ?_, fun other => ?_, fun m before atBefore tensor mem isName => ?_⟩
    · rw [newGraph, List.getElem?_append_left bound]
    · simp only [newGraph, MutableGraphView.getElem?_concat_eq_some]
      constructor
      · rintro ⟨c, beyond, found | ⟨-, isOther⟩⟩
        · exact .inl ⟨c, beyond, found⟩
        · exact .inr isOther
      · rintro (⟨c, beyond, found⟩ | isOther)
        · exact ⟨c, beyond, .inl found⟩
        · exact ⟨_, inGraph, .inr ⟨rfl, isOther⟩⟩
    · exact fresh (isName ▸ rewriting.keys m before atBefore tensor mem)

theorem Rewriting.reroute (ready : impl.Ready) (rewriting : impl.Rewriting allow done handled view)
    (atDst : impl.graph[d]? = some dst) (crossing : impl.Crossing allow n p d k)
    {grown : GraphDef} (consistent : view'.Consistent)
    (newGraph : view'.graph = grown.modify d fun def_ =>
      { def_ with input := def_.input.set k ⟨(impl.castFor allow n p).name, .port 0⟩ })
    (keys : ∀ name ∈ view.nodes, name ∈ view'.nodes)
    (same : ∀ m < view.graph.length, grown[m]? = view.graph[m]?)
    (casts : ∀ node, (∃ c, impl.graph.length ≤ c ∧ grown[c]? = some node) ↔
      (∃ c, impl.graph.length ≤ c ∧ view.graph[c]? = some node) ∨ node = impl.castFor allow n p)
    (fresh : ∀ (m : Nat) before, impl.graph[m]? = some before → ∀ tensor ∈ before.input,
      tensor.node ≠ (impl.castFor allow n p).name) :
    impl.Rewriting allow done (fun d' k' => handled d' k' ∨ (d' = d ∧ k' = k)) view' := by
  have dBound : d < impl.graph.length := read_lt atDst
  have after : ∀ (m : Nat) other, view'.graph[m]? = some other ↔ ∃ before,
      grown[m]? = some before ∧ other = if d = m then
        { before with
          input := before.input.set k ⟨(impl.castFor allow n p).name, .port 0⟩ } else before := by
    intro m other
    rw [newGraph]
    exact MutableGraphView.getElem?_modify_set
  -- A node of the original graph, before and after.
  have nodeAfter : ∀ {m : Nat} {before : NodeDef}, impl.graph[m]? = some before →
      ∀ {other : NodeDef}, view'.graph[m]? = some other → ∃ current, view.graph[m]? = some current ∧
        other = if d = m then
          { current with
            input := current.input.set k ⟨(impl.castFor allow n p).name, .port 0⟩ }
          else current := by
    intro m before atBefore other atOther
    obtain ⟨current, atCurrent, -⟩ := rewriting.original m before atBefore
    have bound := read_lt atCurrent
    obtain ⟨current', atCurrent', isOther⟩ := (after m other).1 atOther
    rw [same m bound, atCurrent] at atCurrent'
    cases atCurrent'
    exact ⟨current, atCurrent, isOther⟩
  exact {
    consistent := consistent
    keys := fun m before atBefore tensor mem =>
      keys _ (rewriting.keys m before atBefore tensor mem)
    original := fun m before atBefore => by
      obtain ⟨current, atCurrent, name, op, device, inputLength, law⟩ :=
        rewriting.original m before atBefore
      grind
    named := rewriting.named
    kept := fun m j before other tensor atBefore atOther atPort apart => by
      obtain ⟨current, atCurrent, isOther⟩ := nodeAfter atBefore atOther
      have isKept := rewriting.kept m j before current tensor atBefore atCurrent atPort
        fun s q crossing' isHandled => apart s q crossing' (.inl isHandled)
      rw [isOther]
      split
      next isNode =>
        grind
      · exact isKept
    moved := fun s q m j other crossing' isHandled atOther => by
      obtain ⟨_, _, edge', -⟩ := id crossing'
      obtain ⟨_, before, -, atBefore, atPort⟩ := edge'.input
      obtain ⟨current, atCurrent, isOther⟩ := nodeAfter atBefore atOther
      rw [isOther]
      by_cases isThis : d = m ∧ k = j
      · obtain ⟨rfl, rfl⟩ := isThis
        obtain ⟨rfl, rfl⟩ := crossing'.source_unique ready crossing
        obtain ⟨_, atCurrent', -, -, -, inputLength, -⟩ := rewriting.original d before atBefore
        rw [atCurrent] at atCurrent'
        cases atCurrent'
        have bound : k < current.input.length :=
          inputLength ▸ read_lt atPort
        simp [bound]
      · have already : handled m j := isHandled.resolve_right fun isNew =>
          isThis ⟨isNew.1.symm, isNew.2.symm⟩
        have isMoved := rewriting.moved s q m j current crossing' already atCurrent
        split
        next isNode =>
          have notPort : k ≠ j := fun isPort => isThis ⟨isNode, isPort⟩
          exact (List.getElem?_set_ne notPort).trans isMoved
        · exact isMoved
    casts := fun other => by
      have sameCasts : (∃ c, impl.graph.length ≤ c ∧ view'.graph[c]? = some other) ↔
          ∃ c, impl.graph.length ≤ c ∧ grown[c]? = some other := by
        constructor
        · grind
        · rintro ⟨c, beyond, found⟩
          exact ⟨c, beyond, (after c other).2 ⟨other, found, by rw [if_neg (by omega)]⟩⟩
      rw [sameCasts, casts, rewriting.casts]
      constructor
      · grind
      · rintro ⟨s, q, d', k', crossing', isHandled | ⟨rfl, rfl⟩, isOther⟩
        · exact .inl ⟨s, q, d', k', crossing', isHandled, isOther⟩
        · obtain ⟨rfl, rfl⟩ := crossing'.source_unique ready crossing
          exact .inr isOther
    fresh := fun s q d' k' crossing' isHandled => by
      rcases isHandled with isHandled | ⟨rfl, rfl⟩
      · exact rewriting.fresh s q d' k' crossing' isHandled
      · obtain ⟨rfl, rfl⟩ := crossing'.source_unique ready crossing
        exact fresh }

theorem Rewriting.edge (ready : impl.Ready) (rewriting : impl.Rewriting allow done handled view)
    (edge : PortEdge impl.graph impl.nodeTypeMap n p d k typeAttr td)
    (isFloat : getDataType (impl.nodeDef n) typeAttr = .float) (unhandled : ¬ handled d k)
    {added' : Option String} (state : impl.CastState allow handled n p added)
    (ran : impl.rewriteEdge allow (impl.inAllow allow n typeAttr) n p (view, added)
      ⟨d, .port k⟩ = .ok (view', added')) :
    impl.Rewriting allow done (fun d' k' => handled d' k' ∨ (d' = d ∧ k' = k)) view' ∧
      impl.CastState allow (fun d' k' => handled d' k' ∨ (d' = d ∧ k' = k)) n p added' := by
  obtain ⟨src, dst, atSrc, atDst, atPort⟩ := edge.input
  obtain ⟨node, atNode, name, -, -, inputLength, -⟩ := rewriting.original d dst atDst
  have isNode : view.graph.getD d default = node := by simp [List.getD, atNode]
  unfold Impl.rewriteEdge at ran
  dsimp only at ran
  rw [isNode] at ran
  obtain ⟨dstType, typeOk, ran⟩ := bind_ok.1 ran
  obtain ⟨index, indexOk, ran⟩ := bind_ok.1 ran
  obtain ⟨_, isPort, atType⟩ := NodeTypeAttrMap.portType_eq_ok.1 typeOk
  cases isPort
  have isTd : dstType = td := Option.some.inj (atType.symm.trans edge.dstType)
  subst isTd
  have dBound := read_lt atDst
  have atIndex : impl.graphTypeView.nodeTypeAttrs[index]? = some ⟨d, dstType⟩ := by
    unfold Impl.typeIndex at indexOk
    rw [name, ← nodeDef_eq atDst] at indexOk
    split at indexOk
    · cases indexOk
    next found =>
      cases indexOk
      exact (ready.getNodeIndex_eq_some dBound).1 found
  rw [← inAllow_of_getElem? ready atIndex] at ran
  -- The consumer's own edge is the only one of this input.
  have ownEdge : ∀ {s q : Nat}, impl.Crossing allow s q d k →
      s = n ∧ q = p ∧ impl.inAllow allow n typeAttr ≠ impl.inAllow allow d dstType := by
    rintro s q ⟨ts', td', edge', -, differ⟩
    obtain ⟨rfl, rfl, rfl, rfl⟩ := edge.unique ready.namesNodup edge'
    exact ⟨rfl, rfl, differ⟩
  split at ran
  next same =>
    cases ran
    have noCrossing : ∀ {s q : Nat}, ¬ impl.Crossing allow s q d k := fun crossing =>
      (ownEdge crossing).2.2 same
    have grow : ∀ s q d' k', impl.Crossing allow s q d' k' → (handled d' k' ↔ handled d' k' ∨ (d' = d ∧ k' = k)) := by
      intro s q d' k' crossing
      constructor
      · exact .inl
      · rintro (isHandled | ⟨rfl, rfl⟩)
        · exact isHandled
        · exact absurd crossing noCrossing
    refine ⟨rewriting.congr grow, ?_⟩
    cases added with
    | none =>
      intro d' k' crossing isHandled
      exact state d' k' crossing ((grow n p d' k' crossing).2 isHandled)
    | some present =>
      obtain ⟨isName, d', k', crossing, isHandled⟩ := state
      exact ⟨isName, d', k', crossing, .inl isHandled⟩
  next differ =>
    have crossing : impl.Crossing allow n p d k := ⟨typeAttr, dstType, edge, isFloat, differ⟩
    obtain ⟨⟨view1, cast⟩, castOk, ran⟩ := bind_ok.1 ran
    obtain ⟨rerouted, reroutedOk, ran⟩ := bind_ok.1 ran
    cases ran
    have isCast : buildCastNode impl.targetDtype (impl.inAllow allow d dstType) src p = impl.castFor allow n p := by
      unfold castFor
      rw [edge.srcType, Option.any_some, nodeDef_eq atSrc]
      congr 1
      revert differ
      cases impl.inAllow allow n typeAttr <;> cases impl.inAllow allow d dstType <;> simp
    obtain ⟨isName, consistent, keys, same, casts, fresh⟩ :=
      rewriting.ensureCast atSrc isCast state castOk
    have dInView : d < view.graph.length := read_lt atNode
    have atNode1 : view1.graph[d]? = some node := (same d dInView).trans atNode
    have atInput : node.input[k]? = some ⟨src.name, .port p⟩ :=
      rewriting.kept d k dst node _ atDst atNode atPort fun _ _ _ => unhandled
    have free : ⟨cast, .controlSlot⟩ ∉ node.input := by
      intro mem
      obtain ⟨j, jBound, isTensor⟩ := List.getElem_of_mem mem
      have atJ : node.input[j]? = some ⟨cast, .controlSlot⟩ := by
        rw [List.getElem?_eq_getElem jBound, isTensor]
      by_cases isMoved : ∃ s q, impl.Crossing allow s q d j ∧ handled d j
      · obtain ⟨s, q, crossing', isHandled⟩ := isMoved
        have := rewriting.moved s q d j node crossing' isHandled atNode
        rw [atJ] at this
        cases (TensorId.mk.inj (Option.some.inj this)).2
      · push Not at isMoved
        have oldBound : j < dst.input.length := inputLength ▸ jBound
        have isKept := rewriting.kept d j dst node _ atDst atNode
          (List.getElem?_eq_getElem oldBound) isMoved
        rw [atJ] at isKept
        refine fresh d dst atDst dst.input[j] (List.getElem_mem oldBound) ?_
        rw [← Option.some.inj isKept, ← isName]
    obtain ⟨consistent', keys', newGraph⟩ := MutableGraphView.updateRegularFaninByPort_spec
      consistent ((consistent.named _ _).2 ⟨node, atNode1, rfl⟩) atNode1 atInput (by simp) free
      reroutedOk
    refine ⟨?_, isName, d, k, crossing, .inr ⟨rfl, rfl⟩⟩
    rw [isName] at newGraph
    exact rewriting.reroute ready atDst crossing consistent' newGraph
      (fun name present => keys' name (keys name present)) same casts fresh

theorem getFanout_nodup {table : MutableGraphView} (nodup : table.fanouts.Nodup)
    (port : OutputPort) : (table.getFanout port).Nodup := by
  unfold MutableGraphView.getFanout
  rw [List.nodup_map_iff_inj_on (nodup.filter _)]
  simp_all

/-- The inputs that output `p` of node `n` feeds. -/
def FedBy (impl : Impl) (n p d k : Nat) : Prop :=
  ∃ ts td, PortEdge impl.graph impl.nodeTypeMap n p d k ts td

theorem Rewriting.port (ready : impl.Ready) (rewriting : impl.Rewriting allow done handled view)
    (atOld : impl.graph[n]? = some old)
    (isOutput : (impl.nodeTypeMap.entry n).outputs[p]? = some typeAttr)
    (isFloat : getDataType (impl.nodeDef n) typeAttr = .float) (unhandled : ∀ d k, impl.FedBy n p d k → ¬ handled d k)
    (ran : impl.rewritePort allow (impl.inAllow allow n typeAttr) n view p = .ok view') :
    impl.Rewriting allow done (fun d k => handled d k ∨ impl.FedBy n p d k) view' := by
  unfold Impl.rewritePort at ran
  dsimp only at ran
  obtain ⟨⟨final, added⟩, folded, ran⟩ := bind_ok.1 ran
  cases ran
  have consumers : ∀ port, port ∈ impl.config.orders.fanout ⟨some n, .port p⟩
      (view.getFanout ⟨some n, .port p⟩) ↔ ∃ d k td, port = ⟨d, .port k⟩ ∧
        PortEdge impl.graph impl.nodeTypeMap n p d k typeAttr td := by
    intro port
    rw [(impl.config.orders.fanout_perm _ _).mem_iff]
    apply rewriting.mem_getFanout ready isOutput atOld
    rintro d k ⟨ts, td, edge, -⟩
    exact unhandled d k ⟨ts, td, edge⟩
  have nodup : (impl.config.orders.fanout ⟨some n, .port p⟩
      (view.getFanout ⟨some n, .port p⟩)).Nodup :=
    (impl.config.orders.fanout_perm _ _).nodup_iff.2
      (getFanout_nodup rewriting.consistent.fanoutNodup _)
  -- After some consumers, exactly their inputs are handled in addition.
  have walked := foldlM_invariant
    (fun (seen : List InputPort) (state : MutableGraphView × Option String) =>
      impl.Rewriting allow done (fun d k => handled d k ∨ ⟨d, .port k⟩ ∈ seen) state.1 ∧
      impl.CastState allow (fun d k => handled d k ∨ ⟨d, .port k⟩ ∈ seen) n p state.2)
    ?_ ?_ folded
  · refine walked.1.congr fun s q d k _ => or_congr_right ?_
    rw [consumers]
    constructor
    · rintro ⟨d', k', td, isPort, edge⟩
      obtain ⟨rfl, isNumber⟩ := InputPort.mk.inj isPort
      cases isNumber
      exact ⟨typeAttr, td, edge⟩
    · rintro ⟨ts, td, edge⟩
      have sameType : ts = typeAttr := Option.some.inj (edge.srcType.symm.trans isOutput)
      exact ⟨d, k, td, rfl, sameType ▸ edge⟩
  · refine ⟨rewriting.congr fun s q d k _ => by simp, ?_⟩
    rintro d k ⟨ts, td, edge, -⟩ isHandled
    simp only [List.not_mem_nil, or_false] at isHandled
    exact unhandled d k ⟨ts, td, edge⟩ isHandled
  · rintro seen port rest ⟨before, added⟩ ⟨after, added'⟩ split ⟨holds, state⟩ stepped
    obtain ⟨d, k, td, rfl, edge⟩ := (consumers port).1 (by simp [split])
    have isNew : ¬ (handled d k ∨ (⟨d, .port k⟩ : InputPort) ∈ seen) := by
      rintro (isHandled | isSeen)
      · exact unhandled d k ⟨typeAttr, td, edge⟩ isHandled
      · rw [split, List.nodup_append] at nodup
        exact nodup.2.2 _ isSeen _ (by simp) rfl
    obtain ⟨next, state'⟩ := holds.edge ready edge isFloat isNew state stepped
    grind

/-- The inputs fed by outputs of a type that is done. -/
def Served (impl : Impl) (done : Nat → List TypeAttrId) (d k : Nat) : Prop :=
  ∃ s p ts td, PortEdge impl.graph impl.nodeTypeMap s p d k ts td ∧ ts ∈ done s

theorem Rewriting.type (ready : impl.Ready) (rewriting : impl.Rewriting allow done (impl.Served done) view)
    (atOld : impl.graph[n]? = some old)
    (typed : typeAttr ∈ impl.nodeTypeMap.getTypeAttrs n) (undone : typeAttr ∉ done n)
    (ran : impl.rewriteType allow n view typeAttr = .ok view') :
    impl.Rewriting allow (Function.update done n (typeAttr :: done n))
      (impl.Served (Function.update done n (typeAttr :: done n))) view' := by
  obtain ⟨node, atNode, name, -⟩ := rewriting.original n old atOld
  have bound := read_lt atOld
  have isNode : view.graph.getD n default = node := by simp [List.getD, atNode]
  unfold Impl.rewriteType at ran
  dsimp only at ran
  rw [isNode] at ran
  obtain ⟨index, indexOk, ran⟩ := bind_ok.1 ran
  have atIndex : impl.graphTypeView.nodeTypeAttrs[index]? = some ⟨n, typeAttr⟩ := by
    unfold Impl.typeIndex at indexOk
    rw [name, ← nodeDef_eq atOld] at indexOk
    split at indexOk
    · cases indexOk
    next found =>
      cases indexOk
      exact (ready.getNodeIndex_eq_some bound).1 found
  rw [item_eq_of_getElem? atIndex] at ran
  dsimp only at ran
  rw [isNode, rewriting.getDataType_undone ready atOld atNode typed undone] at ran
  -- What becomes served is what the ports of this type feed.
  have served : ∀ d k, impl.Served (Function.update done n (typeAttr :: done n)) d k ↔ impl.Served done d k ∨
        ∃ p ∈ impl.nodeTypeMap.getOutputPorts n typeAttr, impl.FedBy n p d k := by
    intro d k
    constructor
    · rintro ⟨s, p, ts, td, edge, isDone⟩
      by_cases isThis : s = n
      · subst isThis
        rw [Function.update_self, List.mem_cons] at isDone
        rcases isDone with rfl | isDone
        · exact .inr ⟨p, NodeTypeAttrMap.mem_portsOf.2 edge.srcType, ts, td, edge⟩
        · exact .inl ⟨s, p, ts, td, edge, isDone⟩
      · rw [Function.update_of_ne isThis] at isDone
        exact .inl ⟨s, p, ts, td, edge, isDone⟩
    · rintro (⟨s, p, ts, td, edge, isDone⟩ | ⟨p, isPort, ts, td, edge⟩)
      · refine ⟨s, p, ts, td, edge, ?_⟩
        by_cases isThis : s = n
        · subst isThis
          rw [Function.update_self]
          exact List.mem_cons_of_mem _ isDone
        · rwa [Function.update_of_ne isThis]
      · refine ⟨n, p, ts, td, edge, ?_⟩
        have sameType : ts = typeAttr := Option.some.inj
          (edge.srcType.symm.trans (NodeTypeAttrMap.mem_portsOf.1 isPort))
        rw [Function.update_self, sameType]
        exact List.mem_cons_self
  split at ran
  next notFloat =>
    -- Nothing happens at a type that is not float32.
    cases ran
    have unpainted : impl.paints allow n typeAttr = false := by
      simp [Impl.paints, nodeDef_eq atOld, notFloat]
    refine (rewriting.markDone unpainted).congr fun s q d k crossing => ?_
    rw [served]
    constructor
    · exact .inl
    · rintro (isServed | ⟨p, isPort, ts', td', edge'⟩)
      · exact isServed
      · obtain ⟨ts, td, edge, isFloat, -⟩ := crossing
        obtain ⟨rfl, rfl, rfl, rfl⟩ := edge.unique ready.namesNodup edge'
        have sameType : ts = typeAttr := Option.some.inj
          (edge.srcType.symm.trans (NodeTypeAttrMap.mem_portsOf.1 isPort))
        rw [sameType, nodeDef_eq atOld] at isFloat
        exact absurd isFloat notFloat
  next isFloat =>
    rw [not_not] at isFloat
    obtain ⟨painted, paintedOk, ran⟩ := bind_ok.1 ran
    rw [← inAllow_of_getElem? ready atIndex] at paintedOk ran
    have start := rewriting.repaint ready atOld typed undone isFloat paintedOk
    have nodeFloat : getDataType (impl.nodeDef n) typeAttr = .float := by
      rw [nodeDef_eq atOld]
      exact isFloat
    have ports : ∀ p, p ∈ impl.config.orders.outputPorts n typeAttr
        (impl.nodeTypeMap.getOutputPorts n typeAttr) ↔
        p ∈ impl.nodeTypeMap.getOutputPorts n typeAttr := fun p =>
      (impl.config.orders.outputPorts_perm _ _ _).mem_iff
    have portsNodup := (impl.config.orders.outputPorts_perm n typeAttr
      (impl.nodeTypeMap.getOutputPorts n typeAttr)).nodup_iff.2
      (List.nodup_range.filter _)
    have walked := foldlM_invariant
      (fun (seen : List Nat) (view : MutableGraphView) =>
        impl.Rewriting allow (Function.update done n (typeAttr :: done n))
          (fun d k => impl.Served done d k ∨ ∃ p ∈ seen, impl.FedBy n p d k) view)
      (start.congr fun s q d k _ => by simp) ?_ ran
    · refine walked.congr fun s q d k _ => ?_
      rw [served]
      simp only [ports]
    · intro seen p rest before after split holds stepped
      have isOutput := NodeTypeAttrMap.mem_portsOf.1 ((ports p).1 (by simp [split]))
      have isNew : ∀ d k, impl.FedBy n p d k → ¬ (impl.Served done d k ∨ ∃ p ∈ seen, impl.FedBy n p d k) := by
        rintro d k ⟨ts, td, edge⟩ (⟨s, q, ts', td', edge', isDone⟩ | ⟨q, isSeen, ts', td', edge'⟩)
        · obtain ⟨rfl, rfl, rfl, rfl⟩ := edge.unique ready.namesNodup edge'
          have sameType : ts = typeAttr := Option.some.inj (edge.srcType.symm.trans isOutput)
          exact undone (sameType ▸ isDone)
        · obtain ⟨-, rfl, -, -⟩ := edge.unique ready.namesNodup edge'
          rw [split, List.nodup_append] at portsNodup
          exact portsNodup.2.2 p isSeen p (by simp) rfl
      refine (holds.port ready atOld isOutput nodeFloat isNew stepped).congr fun s q d k _ => ?_
      simp [or_assoc, or_and_right, exists_or]

theorem Rewriting.node (ready : impl.Ready) (rewriting : impl.Rewriting allow done (impl.Served done) view)
    (bound : n < impl.graph.length) (untouched : done n = []) (ran : impl.rewriteNode allow view n = .ok view') :
    ∃ types, (∀ typeAttr, typeAttr ∈ types ↔ typeAttr ∈ impl.nodeTypeMap.getTypeAttrs n) ∧
      impl.Rewriting allow (Function.update done n types) (impl.Served (Function.update done n types)) view' := by
  obtain ⟨opDef, -, described⟩ := ready.described n _ (List.getElem?_eq_getElem bound)
  have permuted := impl.config.orders.typeAttrs_perm .rewriting n (impl.nodeTypeMap.getTypeAttrs n)
  have nodup := permuted.nodup_iff.2 described.nodup
  unfold Impl.rewriteNode at ran
  have walked := foldlM_invariant
    (fun (seen : List TypeAttrId) (view : MutableGraphView) =>
      impl.Rewriting allow (Function.update done n seen.reverse)
        (impl.Served (Function.update done n seen.reverse)) view)
    ?_ ?_ ran
  · refine ⟨_, fun typeAttr => ?_, walked⟩
    rw [List.mem_reverse, permuted.mem_iff]
  · rw [List.reverse_nil, ← untouched, Function.update_eq_self]
    exact rewriting
  · intro seen typeAttr rest before after split holds stepped
    have typed : typeAttr ∈ impl.nodeTypeMap.getTypeAttrs n :=
      permuted.mem_iff.1 (by simp [split])
    have undone : typeAttr ∉ Function.update done n seen.reverse n := by
      rw [Function.update_self, List.mem_reverse]
      intro isSeen
      rw [split, List.nodup_append] at nodup
      exact nodup.2.2 typeAttr isSeen typeAttr (by simp) rfl
    have next := holds.type ready (List.getElem?_eq_getElem bound) typed undone stepped
    rw [Function.update_self, Function.update_idem] at next
    rw [List.reverse_append]
    exact next

theorem Ready.rewritten (ready : impl.Ready) (ran : impl.changeTypeAttrsAndAddCasts allow = .ok view) :
    impl.Rewriting allow impl.nodeTypeMap.getTypeAttrs (fun _ _ => True) view := by
  unfold Impl.changeTypeAttrsAndAddCasts at ran
  have walked := foldlM_invariant
    (fun (seen : List Nat) (view : MutableGraphView) => ∃ done : Nat → List TypeAttrId,
      (∀ n ∈ seen, ∀ typeAttr, typeAttr ∈ done n ↔ typeAttr ∈ impl.nodeTypeMap.getTypeAttrs n) ∧
      (∀ n ∉ seen, done n = []) ∧ impl.Rewriting allow done (impl.Served done) view)
    ?_ ?_ ran
  · obtain ⟨done, whole, -, rewriting⟩ := walked
    have whole : ∀ n < impl.graph.length, ∀ typeAttr, typeAttr ∈ done n ↔
        typeAttr ∈ impl.nodeTypeMap.getTypeAttrs n := fun n bound =>
      whole n (List.mem_range.2 bound)
    have finished : impl.Rewriting allow done (fun _ _ => True) view := by
      refine rewriting.congr fun s p d k crossing => iff_of_true ?_ trivial
      obtain ⟨ts, td, edge, -⟩ := crossing
      obtain ⟨src, -, atSrc, -⟩ := edge.input
      obtain ⟨opDef, -, described⟩ := ready.described s src atSrc
      refine ⟨s, p, ts, td, edge, (whole s (read_lt atSrc) ts).2 ?_⟩
      exact described.output_mem (List.mem_of_getElem? edge.srcType)
    -- Outside the graph a type is neither in the set nor done.
    have unpainted : ∀ n, impl.graph.length ≤ n → ∀ typeAttr, impl.paints allow n typeAttr = false := by
      intro n beyond typeAttr
      have absent : impl.graphTypeView.indexOf ⟨n, typeAttr⟩ = none := by
        cases found : impl.graphTypeView.indexOf ⟨n, typeAttr⟩ with
        | none => rfl
        | some index =>
          have isTyped := (ready.typed _).1
            (List.mem_of_getElem? (ready.wellFormed.indexOf_eq_some.1 found))
          exact absurd isTyped.1 (Nat.not_lt.2 beyond)
      simp [Impl.paints, inAllow, absent]
    refine { finished with original := ?_, named := ?_ }
    · intro n old atOld
      have bound := read_lt atOld
      simp only [← whole n bound]
      exact finished.original n old atOld
    · intro n typeAttr mem isPainted
      rcases Nat.lt_or_ge n impl.graph.length with bound | beyond
      · exact finished.named n typeAttr ((whole n bound typeAttr).2 mem) isPainted
      · rw [unpainted n beyond] at isPainted
        cases isPainted
  · refine ⟨fun _ => [], by simp, by simp, ready.rewriting_start.congr fun s p d k _ => ?_⟩
    simp [Served]
  · rintro seen n rest before after split ⟨done, whole, empty, holds⟩ stepped
    have nodup := split ▸ (List.nodup_range : (List.range impl.graph.length).Nodup)
    have isNew : n ∉ seen := by
      rw [List.nodup_append] at nodup
      exact fun isSeen => nodup.2.2 n isSeen n (by simp) rfl
    have bound : n < impl.graph.length := by
      rw [← List.mem_range, split]
      simp
    obtain ⟨types, all, next⟩ := holds.node ready bound (empty n isNew) stepped
    grind

end Rewriting

end Impl

end Itex.AutoMixedPrecision
