import Itex.Graph.MutableGraphView

/-!
Contract: what `MutableGraphView` knows about its graph.

Owns: the consistency invariant between the name table, the fan-out table and the
inputs of the nodes, its proof for the constructor, and the frame of `AddNode`.
-/

namespace Itex.Graph.MutableGraphView

open Itex.Lib

variable {graph : GraphDef} {start : MutableGraphView}

/-- The table entry for one input of node `d`. -/
def edgeOf (view : MutableGraphView) (d k : Nat) (tensor : TensorId) : OutputPort × InputPort :=
  (⟨view.getNode tensor.node, tensor.index⟩, ⟨d, if tensor.index = .controlSlot then .controlSlot else .port k⟩)

/-- The tables agree with the graph on the inputs of the nodes in `done`, and hold
nothing about the inputs of other nodes. -/
structure Recorded (view : MutableGraphView) (done : Nat → Prop) : Prop where
  named : ∀ name index, view.getNode name = some index ↔ ∃ node, view.graph[index]? = some node ∧ node.name = name
  keyed : ∀ (d : Nat) node, done d → view.graph[d]? = some node → ∀ tensor ∈ node.input, tensor.node ∈ view.nodes
  fanout : ∀ edge, edge ∈ view.fanouts ↔ ∃ (d k : Nat) (node : NodeDef) (tensor : TensorId),
    done d ∧ view.graph[d]? = some node ∧ node.input[k]? = some tensor ∧
    edge = view.edgeOf d k tensor
  fanoutNodup : view.fanouts.Nodup
  lastPort : ∀ (d k : Nat) node tensor, done d → view.graph[d]? = some node →
    node.input[k]? = some tensor → tensor.index ≠ .controlSlot →
    ∃ last, view.maxRegularInputPort.getD d none = some last ∧ k ≤ last
  sized : view.maxRegularInputPort.length = view.graph.length

/-- The tables agree with the graph. -/
abbrev Consistent (view : MutableGraphView) : Prop := view.Recorded fun _ => True

theorem Recorded.widen {view : MutableGraphView} {done : Nat → Prop} (recorded : view.Recorded done)
    (whole : ∀ (d : Nat) node, view.graph[d]? = some node → done d) : view.Consistent :=
  { named := recorded.named
    keyed := fun d node _ found => recorded.keyed d node (whole d node found) found
    fanout := fun edge => by
      rw [recorded.fanout]
      grind
    fanoutNodup := recorded.fanoutNodup
    lastPort := fun d k node tensor _ found =>
      recorded.lastPort d k node tensor (whole d node found) found
    sized := recorded.sized }

/-- A graph with the same names and inputs as another. -/
structure SameWiring (before after : GraphDef) : Prop where
  length : after.length = before.length
  node : ∀ (n : Nat) node, after[n]? = some node → ∃ old, before[n]? = some old ∧
    node.name = old.name ∧ node.input = old.input

theorem SameWiring.symm {before after : GraphDef} (same : SameWiring before after) : SameWiring after before := by
  refine ⟨same.length.symm, fun n old atOld => ?_⟩
  have bound : n < after.length := by
    rw [same.length]
    exact read_lt atOld
  obtain ⟨other, atOther, name, input⟩ := same.node n _ (List.getElem?_eq_getElem bound)
  have isOld : other = old := Option.some.inj (atOther.symm.trans atOld)
  exact ⟨_, List.getElem?_eq_getElem bound, (isOld ▸ name).symm, (isOld ▸ input).symm⟩

theorem Recorded.regraph {view : MutableGraphView} {done : Nat → Prop}
    (recorded : view.Recorded done) (same : SameWiring view.graph graph) :
    ({ view with graph := graph } : MutableGraphView).Recorded done := by
  have back := same.symm
  refine ⟨fun name index => ?_, fun d node isDone found tensor mem => ?_, fun edge => ?_,
    recorded.fanoutNodup, fun d k node tensor isDone found atPort regular => ?_, ?_⟩
  · show view.getNode name = some index ↔ _
    rw [recorded.named]
    constructor
    · rintro ⟨node, found, isName⟩
      obtain ⟨other, atOther, sameName, -⟩ := back.node index node found
      exact ⟨other, atOther, sameName.symm.trans isName⟩
    · rintro ⟨node, found, isName⟩
      obtain ⟨other, atOther, sameName, -⟩ := same.node index node found
      exact ⟨other, atOther, sameName.symm.trans isName⟩
  · obtain ⟨old, atOld, -, input⟩ := same.node d node found
    exact recorded.keyed d old isDone atOld tensor (input ▸ mem)
  · show edge ∈ view.fanouts ↔ ∃ (d k : Nat) (node : NodeDef) (tensor : TensorId), done d ∧
      graph[d]? = some node ∧ node.input[k]? = some tensor ∧ edge = view.edgeOf d k tensor
    rw [recorded.fanout]
    constructor
    · rintro ⟨d, k, node, tensor, isDone, found, atPort, isEdge⟩
      obtain ⟨other, atOther, -, input⟩ := back.node d node found
      exact ⟨d, k, other, tensor, isDone, atOther, input ▸ atPort, isEdge⟩
    · rintro ⟨d, k, node, tensor, isDone, found, atPort, isEdge⟩
      obtain ⟨other, atOther, -, input⟩ := same.node d node found
      exact ⟨d, k, other, tensor, isDone, atOther, input ▸ atPort, isEdge⟩
  · obtain ⟨old, atOld, -, input⟩ := same.node d node found
    exact recorded.lastPort d k old tensor isDone atOld (input ▸ atPort) regular
  · exact recorded.sized.trans same.length.symm

theorem Recorded.mem_getFanout {view : MutableGraphView} (consistent : view.Consistent) {s p : Nat} {port : InputPort} :
    port ∈ view.getFanout ⟨some s, .port p⟩ ↔ ∃ (d k : Nat) (src dst : NodeDef),
      port = ⟨d, .port k⟩ ∧ view.graph[s]? = some src ∧ view.graph[d]? = some dst ∧
      dst.input[k]? = some ⟨src.name, .port p⟩ := by
  have listed : port ∈ view.getFanout ⟨some s, .port p⟩ ↔ (⟨some s, .port p⟩, port) ∈ view.fanouts := by
    simp [getFanout]
  rw [listed, consistent.fanout]
  constructor
  · rintro ⟨d, k, dst, tensor, -, atDst, atPort, isEdge⟩
    obtain ⟨isOutput, isInput⟩ := Prod.mk.inj isEdge
    obtain ⟨isNode, isIndex⟩ := OutputPort.mk.inj isOutput
    obtain ⟨src, atSrc, isName⟩ := (consistent.named _ _).1 isNode.symm
    refine ⟨d, k, src, dst, ?_, atSrc, atDst, ?_⟩
    · rw [isInput, ← isIndex, if_neg (by simp)]
    · rw [atPort, isName, isIndex]
  · rintro ⟨d, k, src, dst, rfl, atSrc, atDst, atPort⟩
    refine ⟨d, k, dst, _, trivial, atDst, atPort, ?_⟩
    unfold edgeOf
    rw [(consistent.named _ _).2 ⟨src, atSrc, rfl⟩, if_neg (by simp)]

/-! ## Scanning the inputs of a node -/

/-- The loop of `AddAndDedupFanouts` after it kept `scan.kept` for node `d`. -/
structure Scanned (start : MutableGraphView) (d : Nat) (scan : Scan) : Prop where
  graph : scan.view.graph = start.graph
  ports : scan.view.maxRegularInputPort = start.maxRegularInputPort
  getNode : ∀ name, scan.view.getNode name = start.getNode name
  keys : ∀ name ∈ start.nodes, name ∈ scan.view.nodes
  keptKeys : ∀ tensor ∈ scan.kept, tensor.node ∈ scan.view.nodes
  fanout : ∀ edge, edge ∈ scan.view.fanouts ↔ edge ∈ start.fanouts ∨
    ∃ k tensor, scan.kept[k]? = some tensor ∧ edge = start.edgeOf d k tensor
  nodup : scan.view.fanouts.Nodup
  last : ∀ (k : Nat) tensor, scan.kept[k]? = some tensor → tensor.index ≠ .controlSlot →
    ∃ last, scan.maxInputPort = some last ∧ k ≤ last

theorem getNode_touch (view : MutableGraphView) (name other : String) :
    (view.touch name).getNode other = view.getNode other := by
  unfold touch
  split
  · rfl
  next absent =>
    unfold getNode
    by_cases same : other = name
    · subst same
      rw [AList.lookup_insert, AList.lookup_eq_none.2 absent]
      rfl
    · rw [AList.lookup_insert_ne same]

theorem mem_touch {view : MutableGraphView} {name other : String} :
    other ∈ (view.touch name).nodes ↔ other = name ∨ other ∈ view.nodes := by
  unfold touch
  split
  next present =>
    constructor
    · exact .inr
    · rintro (rfl | mem)
      · exact present
      · exact mem
  · exact AList.mem_insert _

theorem touch_frame (view : MutableGraphView) (name : String) :
    (view.touch name).graph = view.graph ∧ (view.touch name).fanouts = view.fanouts ∧
      (view.touch name).maxRegularInputPort = view.maxRegularInputPort := by
  unfold touch
  split <;> exact ⟨rfl, rfl, rfl⟩

theorem getElem?_concat_eq_some {α : Type} {list : List α} {last a : α} {k : Nat} :
    (list ++ [last])[k]? = some a ↔ list[k]? = some a ∨ (k = list.length ∧ a = last) := by
  grind

theorem Scanned.keep {d : Nat} {scan : Scan}
    (scanned : Scanned start d scan) (tensor : TensorId) : Scanned start d (scan.keep d tensor) := by
  obtain ⟨sameGraph, sameFanouts, samePorts⟩ := touch_frame scan.view tensor.node
  have atEnd : ∀ (k : Nat) other, (scan.kept ++ [tensor])[k]? = some other ↔
      scan.kept[k]? = some other ∨ (k = scan.kept.length ∧ other = tensor) :=
    fun k other => getElem?_concat_eq_some
  exact {
    graph := sameGraph.trans scanned.graph
    ports := samePorts.trans scanned.ports
    getNode := fun name => (getNode_touch _ _ _).trans (scanned.getNode name)
    keys := fun name mem => mem_touch.2 (.inr (scanned.keys name mem))
    keptKeys := fun other mem => by
      rcases List.mem_append.1 mem with mem | mem
      · exact mem_touch.2 (.inr (scanned.keptKeys other mem))
      · rw [List.mem_singleton.1 mem]
        exact mem_touch.2 (.inl rfl)
    fanout := fun edge => by
      show edge ∈ (scan.view.touch tensor.node).fanouts.insert _ ↔ _
      rw [List.mem_insert_iff, sameFanouts, scanned.fanout edge]
      show _ ↔ _ ∨ ∃ k other, (scan.kept ++ [tensor])[k]? = some other ∧ _
      have added : (⟨(scan.view.touch tensor.node).getNode tensor.node, tensor.index⟩,
          ⟨d, if tensor.index = .controlSlot then .controlSlot else .port scan.kept.length⟩) =
          start.edgeOf d scan.kept.length tensor := by
        unfold edgeOf
        rw [getNode_touch, scanned.getNode]
      rw [added]
      constructor
      · grind
      · grind
    nodup := by
      show ((scan.view.touch tensor.node).fanouts.insert _).Nodup
      rw [sameFanouts]
      exact scanned.nodup.insert
    last := fun k other found regular => by
      show ∃ last, (if tensor.index = .controlSlot then scan.maxInputPort
        else some scan.kept.length) = some last ∧ k ≤ last
      rcases (atEnd _ _).1 found with found | ⟨rfl, rfl⟩
      · obtain ⟨last, isLast, before⟩ := scanned.last k other found regular
        have bound := read_lt found
        split
        · exact ⟨last, isLast, before⟩
        · exact ⟨_, rfl, by omega⟩
      · exact ⟨_, if_neg regular, le_rfl⟩ }

theorem scanned_scanInputs {d : Nat} (turns : Nat)
    (unread : List TensorId) (scan final : Scan) (scanned : Scanned start d scan)
    (ran : scanInputs d turns unread scan = .ok final) : Scanned start d final := by
  induction turns generalizing unread scan with
  | zero =>
    cases ran
    exact scanned
  | succ turns ih =>
    cases unread with
    | nil =>
      cases ran
      exact scanned
    | cons tensor unread =>
      simp only [scanInputs] at ran
      obtain ⟨canDedup, -, ran⟩ := bind_ok.1 ran
      split at ran
      · refine ih _ _ ?_ ran
        exact ⟨scanned.graph, scanned.ports, scanned.getNode, scanned.keys, scanned.keptKeys,
          scanned.fanout, scanned.nodup, scanned.last⟩
      · exact ih _ _ (scanned.keep tensor) ran

/-! ## Recording one node -/

/-- Two graphs that differ at most in the inputs of their nodes. -/
structure SameButInputs (before after : GraphDef) : Prop where
  length : after.length = before.length
  node : ∀ (n : Nat) node, after[n]? = some node → ∃ old, before[n]? = some old ∧
    node = { old with input := node.input }

theorem SameButInputs.refl (graph : GraphDef) : SameButInputs graph graph :=
  ⟨rfl, fun _ node found => ⟨node, found, rfl⟩⟩

theorem SameButInputs.trans {first second third : GraphDef} (left : SameButInputs first second)
    (right : SameButInputs second third) : SameButInputs first third := by
  refine ⟨right.length.trans left.length, fun n node found => ?_⟩
  obtain ⟨middle, atMiddle, fromMiddle⟩ := right.node n node found
  obtain ⟨old, atOld, fromOld⟩ := left.node n middle atMiddle
  refine ⟨old, atOld, ?_⟩
  rw [fromMiddle, fromOld]

theorem getElem?_modify_input {d n : Nat} {kept : List TensorId} {node : NodeDef} :
    (graph.modify d fun def_ => { def_ with input := kept })[n]? = some node ↔
      ∃ old, graph[n]? = some old ∧ node = if d = n then { old with input := kept } else old := by
  rw [List.getElem?_modify, Option.map_eq_map, Option.map_eq_some_iff]
  simp only [eq_comm]

theorem sameButInputs_modify (graph : GraphDef) (d : Nat) (kept : List TensorId) :
    SameButInputs graph (graph.modify d fun def_ => { def_ with input := kept }) := by
  refine ⟨List.length_modify .., fun n node found => ?_⟩
  obtain ⟨old, atOld, rfl⟩ := getElem?_modify_input.1 found
  refine ⟨old, atOld, ?_⟩
  split <;> rfl

theorem SameButInputs.named {view view' : MutableGraphView} (same : SameButInputs view.graph view'.graph)
    (getNode : ∀ name, view'.getNode name = view.getNode name) (named : ∀ name index, view.getNode name = some index ↔
      ∃ node, view.graph[index]? = some node ∧ node.name = name) (name : String) (index : Nat) :
    view'.getNode name = some index ↔ ∃ node, view'.graph[index]? = some node ∧ node.name = name := by
  rw [getNode, named]
  constructor
  · rintro ⟨node, found, rfl⟩
    have bound := read_lt found
    have bound' : index < view'.graph.length := by rw [same.length]; exact bound
    obtain ⟨old, atOld, fromOld⟩ := same.node index _ (List.getElem?_eq_getElem bound')
    refine ⟨_, List.getElem?_eq_getElem bound', ?_⟩
    have isNode : old = node := Option.some.inj (atOld.symm.trans found)
    rw [fromOld, isNode]
  · rintro ⟨node, found, rfl⟩
    obtain ⟨old, atOld, fromOld⟩ := same.node index node found
    exact ⟨old, atOld, by rw [fromOld]⟩

section Record

variable {view view' : MutableGraphView} {done : Nat → Prop} {d : Nat}

theorem addAndDedupFanouts_spec (nodup : view.fanouts.Nodup) (ran : view.addAndDedupFanouts d = .ok view') :
    ∃ scan, scanInputs d (view.inputsOf d).length (view.inputsOf d) { view := view } = .ok scan ∧
      Scanned view d scan ∧ view'.nodes = scan.view.nodes ∧
      view'.graph = (view.graph.modify d fun def_ => { def_ with input := scan.kept }) ∧
      view'.fanouts = scan.view.fanouts ∧
      view'.maxRegularInputPort = view.maxRegularInputPort.set d scan.maxInputPort := by
  unfold addAndDedupFanouts at ran
  obtain ⟨scan, scanOk, ran⟩ := bind_ok.1 ran
  cases ran
  have initial : Scanned view d { view := view } :=
    { graph := rfl
      ports := rfl
      getNode := fun _ => rfl
      keys := fun _ mem => mem
      keptKeys := by simp
      fanout := by simp
      nodup := nodup
      last := by simp }
  have scanned := scanned_scanInputs _ _ _ _ initial scanOk
  refine ⟨scan, scanOk, scanned, rfl, ?_, rfl, ?_⟩
  · rw [scanned.graph]
  · rw [scanned.ports]

theorem Recorded.record (recorded : view.Recorded done) (fresh : ¬ done d)
    (bound : d < view.graph.length) (ran : view.addAndDedupFanouts d = .ok view') :
    view'.Recorded (fun n => n = d ∨ done n) ∧ SameButInputs view.graph view'.graph := by
  obtain ⟨scan, -, scanned, sameNodes, newGraph, newFanouts, newPorts⟩ :=
    addAndDedupFanouts_spec recorded.fanoutNodup ran
  have same : SameButInputs view.graph view'.graph := by
    rw [newGraph]
    exact sameButInputs_modify _ _ _
  have getNode : ∀ name, view'.getNode name = view.getNode name := by
    intro name
    rw [← scanned.getNode name]
    unfold MutableGraphView.getNode
    rw [sameNodes]
  have edgeOf : ∀ n k tensor, view'.edgeOf n k tensor = view.edgeOf n k tensor := by
    intro n k tensor
    unfold MutableGraphView.edgeOf
    rw [getNode]
  have atNode : ∀ (n : Nat) node, view'.graph[n]? = some node ↔ ∃ old, view.graph[n]? = some old ∧
        node = if d = n then { old with input := scan.kept } else old := by
    intro n node
    rw [newGraph]
    exact getElem?_modify_input
  have other : ∀ n, done n → d ≠ n := fun n isDone isD => fresh (isD ▸ isDone)
  refine ⟨⟨same.named getNode recorded.named, ?_, ?_, ?_, ?_, ?_⟩, same⟩
  · intro n node isDone found tensor mem
    obtain ⟨old, atOld, rfl⟩ := (atNode n node).1 found
    rw [sameNodes]
    rcases isDone with rfl | isDone
    · rw [if_pos rfl] at mem
      exact scanned.keptKeys tensor mem
    · rw [if_neg (other n isDone)] at mem
      exact scanned.keys _ (recorded.keyed n old isDone atOld tensor mem)
  · intro edge
    rw [newFanouts, scanned.fanout edge, recorded.fanout edge]
    constructor
    · rintro (⟨n, k, node, tensor, isDone, found, atPort, rfl⟩ | ⟨k, tensor, atPort, rfl⟩)
      · refine ⟨n, k, node, tensor, .inr isDone, (atNode n node).2 ⟨node, found, ?_⟩, atPort,
          (edgeOf n k tensor).symm⟩
        rw [if_neg (other n isDone)]
      · refine ⟨d, k, _, tensor, .inl rfl,
          (atNode d _).2 ⟨_, List.getElem?_eq_getElem bound, (if_pos rfl).symm⟩, atPort,
          (edgeOf d k tensor).symm⟩
    · grind
  · rw [newFanouts]
    exact scanned.nodup
  · intro n k node tensor isDone found atPort regular
    obtain ⟨old, atOld, rfl⟩ := (atNode n node).1 found
    rw [newPorts]
    rcases isDone with rfl | isDone
    · rw [if_pos rfl] at atPort
      obtain ⟨last, isLast, before⟩ := scanned.last k tensor atPort regular
      refine ⟨last, ?_, before⟩
      have inPorts : n < view.maxRegularInputPort.length := recorded.sized ▸ bound
      rw [← isLast]
      simp [List.getD, inPorts]
    · rw [if_neg (other n isDone)] at atPort
      obtain ⟨last, isLast, before⟩ := recorded.lastPort n k old tensor isDone atOld atPort regular
      refine ⟨last, ?_, before⟩
      rw [← isLast]
      simp [List.getD, List.getElem?_set_ne (other n isDone)]
  · rw [newPorts, List.length_set, same.length]
    exact recorded.sized

end Record

/-- The name table after the first loop of the constructor. -/
theorem addUniqueNodeOrDie_fold {nodes : AList fun _ : String => Option Nat}
    (ran : graph.zipIdx.foldlM (fun nodes entry => addUniqueNodeOrDie nodes entry.1.name entry.2) ∅ = .ok nodes) :
    (graph.map NodeDef.name).Nodup ∧ ∀ name index, (nodes.lookup name).join = some index ↔
      ∃ node, graph[index]? = some node ∧ node.name = name := by
  have folded := foldlM_invariant
    (fun (seen : List (NodeDef × Nat)) (nodes : AList fun _ : String => Option Nat) =>
      (seen.map fun entry => entry.1.name).Nodup ∧
      ∀ name value, nodes.lookup name = some value ↔ ∃ entry ∈ seen, entry.1.name = name ∧ value = some entry.2)
    ?_ ?_ ran
  · obtain ⟨nodup, lookup⟩ := folded
    refine ⟨?_, fun name index => ?_⟩
    · have : (graph.zipIdx.map fun entry => entry.1.name) = graph.map NodeDef.name := by
        rw [show (fun entry : NodeDef × Nat => entry.1.name) = NodeDef.name ∘ Prod.fst from rfl,
          ← List.map_map, List.zipIdx_map_fst]
      rwa [this] at nodup
    · constructor
      · intro found
        cases isValue : nodes.lookup name with
        | none => simp [isValue] at found
        | some value =>
          grind
      · rintro ⟨node, found, isName⟩
        rw [(lookup name (some index)).2
          ⟨(node, index), List.mem_zipIdx_iff_getElem?.2 found, isName, rfl⟩]
        rfl
  · simp
  · rintro seen entry rest nodes nodes' - ⟨nodup, lookup⟩ stepped
    unfold addUniqueNodeOrDie at stepped
    obtain ⟨absent, stepped⟩ := of_guard stepped
    cases stepped
    have unseen : ∀ other ∈ seen, other.1.name ≠ entry.1.name := by
      intro other mem isName
      have := (lookup entry.1.name (some other.2)).2 ⟨other, mem, isName, rfl⟩
      exact absent (AList.lookup_isSome.1 (by simp [this]))
    constructor
    · grind
    · intro name value
      simp only [List.mem_append, List.mem_singleton]
      by_cases same : name = entry.1.name
      · subst same
        rw [AList.lookup_insert]
        grind
      · rw [AList.lookup_insert_ne same, lookup]
        grind

theorem consistent_construct {view : MutableGraphView} (ran : construct graph = .ok view) :
    view.Consistent ∧ SameButInputs graph view.graph ∧ (graph.map NodeDef.name).Nodup := by
  unfold construct at ran
  obtain ⟨nodes, nodesOk, ran⟩ := bind_ok.1 ran
  obtain ⟨nodup, lookup⟩ := addUniqueNodeOrDie_fold nodesOk
  have folded := foldlM_invariant
    (fun (seen : List Nat) (view : MutableGraphView) =>
      view.Recorded (· ∈ seen) ∧ SameButInputs graph view.graph)
    ?_ ?_ ran
  · obtain ⟨recorded, same⟩ := folded
    refine ⟨recorded.widen fun d node found => ?_, same, nodup⟩
    rw [List.mem_range, ← same.length]
    exact read_lt found
  · refine ⟨⟨lookup, ?_, ?_, List.nodup_nil, ?_, ?_⟩, .refl graph⟩ <;> simp
  · intro seen d rest before after split holds stepped
    have inRange : d < graph.length := by
      rw [← List.mem_range, split]
      simp
    have fresh : d ∉ seen := by
      have := split ▸ (List.nodup_range : (List.range graph.length).Nodup)
      rw [List.nodup_append] at this
      exact fun mem => this.2.2 d mem d (by simp) rfl
    obtain ⟨recorded, same⟩ := holds.1.record fresh (holds.2.length ▸ inRange) stepped
    refine ⟨?_, holds.2.trans same⟩
    have : (fun n => n ∈ seen ++ [d]) = fun n => n = d ∨ n ∈ seen := by
      funext n
      simp [or_comm]
    rw [this]
    exact recorded

end Itex.Graph.MutableGraphView
