import Itex.Graph.ViewInvariant

/-!
Contract: what two edits do to a consistent `MutableGraphView`.

Owns: `AddNode` of a node with one regular input, and `UpdateRegularFaninByPort`
of an input whose new producer does not control the node.
-/

namespace Itex.Graph.MutableGraphView

open Itex.Lib

variable {d k : Nat} {fanin tensor : TensorId} {name : String} {node : NodeDef} {view view' : MutableGraphView}

theorem mem_nodes_of_getNode {index : Nat} (found : view.getNode name = some index) : name ∈ view.nodes := by
  unfold getNode at found
  rw [← AList.lookup_isSome]
  cases isValue : view.nodes.lookup name with
  | none => simp [isValue] at found
  | some value => rfl

/-- The table with a new node whose inputs are not recorded yet. -/
theorem Recorded.grow (consistent : view.Consistent) (fresh : node.name ∉ view.nodes) : ({ view with
        graph := view.graph ++ [node]
        nodes := view.nodes.insert node.name (some view.graph.length)
        maxRegularInputPort := view.maxRegularInputPort ++ [none] } : MutableGraphView).Recorded
      fun d => d < view.graph.length := by
  have before : ∀ {d : Nat}, d < view.graph.length →
      (view.graph ++ [node])[d]? = view.graph[d]? := fun bound => List.getElem?_append_left bound
  have getNode : ∀ name, (view.nodes.insert node.name (some view.graph.length)).lookup name =
      if name = node.name then some (some view.graph.length) else view.nodes.lookup name := by
    intro name
    by_cases same : name = node.name
    · rw [same, if_pos rfl, AList.lookup_insert]
    · rw [if_neg same, AList.lookup_insert_ne same]
  have edgeOf : ∀ d k tensor, tensor.node ∈ view.nodes → ({ view with
        graph := view.graph ++ [node]
        nodes := view.nodes.insert node.name (some view.graph.length)
        maxRegularInputPort := view.maxRegularInputPort ++ [none] } : MutableGraphView).edgeOf d k
        tensor = view.edgeOf d k tensor := by
    intro d k tensor present
    unfold MutableGraphView.edgeOf MutableGraphView.getNode
    dsimp only
    rw [getNode, if_neg fun same : tensor.node = node.name => fresh (same ▸ present)]
  refine ⟨fun name index => ?_, fun d other bound found tensor mem => ?_, fun edge => ?_,
    consistent.fanoutNodup, fun d k other tensor bound found atPort regular => ?_, ?_⟩
  · unfold MutableGraphView.getNode
    dsimp only
    rw [getNode]
    simp only [getElem?_concat_eq_some]
    by_cases same : name = node.name
    · rw [if_pos same, Option.join_some, Option.some.injEq]
      constructor
      · intro isIndex
        exact ⟨node, .inr ⟨isIndex.symm, rfl⟩, same.symm⟩
      · rintro ⟨other, found | ⟨isLast, -⟩, isName⟩
        · have isOld := (consistent.named name index).2 ⟨other, found, isName⟩
          exact absurd (same ▸ mem_nodes_of_getNode isOld) fresh
        · exact isLast.symm
    · rw [if_neg same]
      show view.getNode name = some index ↔ _
      rw [consistent.named]
      grind
  · rw [before bound] at found
    exact (AList.mem_insert _).2 (.inr (consistent.keyed d other trivial found tensor mem))
  · show edge ∈ view.fanouts ↔ _
    rw [consistent.fanout]
    constructor
    · rintro ⟨d, k, other, tensor, -, found, atPort, isEdge⟩
      have bound := read_lt found
      refine ⟨d, k, other, tensor, bound, (before bound).trans found, atPort, ?_⟩
      rw [isEdge, edgeOf d k tensor
        (consistent.keyed d other trivial found tensor (List.mem_of_getElem? atPort))]
    · rintro ⟨d, k, other, tensor, bound, found, atPort, isEdge⟩
      have found := (before bound).symm.trans found
      refine ⟨d, k, other, tensor, trivial, found, atPort, ?_⟩
      rw [isEdge, edgeOf d k tensor
        (consistent.keyed d other trivial found tensor (List.mem_of_getElem? atPort))]
  · rw [before bound] at found
    obtain ⟨last, isLast, within⟩ := consistent.lastPort d k other tensor trivial found atPort
      regular
    grind
  · simp [consistent.sized]

theorem kept_of_single {turns : Nat} {scan : Scan}
    (scanned : scanInputs d (turns + 1) [tensor] { view := view } = .ok scan) : scan.kept = [tensor] := by
  simp only [scanInputs] at scanned
  obtain ⟨canDedup, -, scanned⟩ := bind_ok.1 scanned
  rw [if_neg (by simp)] at scanned
  cases turns with
  | zero =>
    cases scanned
    rfl
  | succ turns =>
    cases scanned
    rfl

theorem addNode_spec (consistent : view.Consistent)
    (single : node.input = [tensor]) (ran : view.addNode node = .ok view') :
    node.name ∉ view.nodes ∧ view'.graph = view.graph ++ [node] ∧ view'.Consistent ∧
      ∀ name ∈ view.nodes, name ∈ view'.nodes := by
  unfold addNode at ran
  obtain ⟨nodes, nodesOk, ran⟩ := bind_ok.1 ran
  unfold addUniqueNodeOrDie at nodesOk
  obtain ⟨fresh, nodesOk⟩ := of_guard nodesOk
  cases nodesOk
  have grown := consistent.grow fresh
  have atEnd : (view.graph ++ [node])[view.graph.length]? = some node := by simp
  obtain ⟨scan, scanOk, scanned, sameNodes, newGraph, -, -⟩ :=
    addAndDedupFanouts_spec grown.fanoutNodup ran
  obtain ⟨recorded, same⟩ := grown.record (Nat.lt_irrefl _)
    (by simp) ran
  have inputs : inputsOf
      { view with
        graph := view.graph ++ [node]
        nodes := view.nodes.insert node.name (some view.graph.length)
        maxRegularInputPort := view.maxRegularInputPort ++ [none] } view.graph.length =
      [tensor] := by
    unfold inputsOf
    simp only [atEnd, single]
  rw [inputs] at scanOk
  have kept := kept_of_single scanOk
  have newGraph : view'.graph = view.graph ++ [node] := by
    rw [newGraph, kept, ← single]
    refine List.ext_getElem? fun n => ?_
    rw [List.getElem?_modify]
    by_cases isLast : view.graph.length = n
    · rw [← isLast, atEnd]
      simp
    · simp [isLast]
  refine ⟨fresh, newGraph, ?_, fun name present => ?_⟩
  swap
  · rw [sameNodes]
    exact scanned.keys name ((AList.mem_insert _).2 (.inr present))
  have inRange : ∀ {d : Nat} {other : NodeDef}, view'.graph[d]? = some other →
      d = view.graph.length ∨ d < view.graph.length := by
    intro d other found
    have bound := read_lt found
    rw [newGraph, List.length_append, List.length_singleton] at bound
    omega
  exact recorded.widen fun d other found => inRange found

theorem controllingFanin_eq_none {inputs : List TensorId}
    (free : ⟨name, .controlSlot⟩ ∉ inputs) (index : Nat) : controllingFanin inputs name index = none := by
  induction index with
  | zero => rfl
  | succ index ih =>
    unfold controllingFanin
    split
    · rfl
    next tensor found =>
      split
      · rfl
      next isControl =>
        have notNamed : tensor.node ≠ name := by
          intro isName
          apply free
          rw [← isName, ← not_not.1 isControl]
          exact List.mem_of_getElem? found
        rw [if_neg notNamed]
        exact ih

theorem getElem?_modify_set {graph : GraphDef} {n : Nat} :
    (graph.modify d fun def_ => { def_ with input := def_.input.set k fanin })[n]? = some node ↔
      ∃ old, graph[n]? = some old ∧ node = if d = n then { old with input := old.input.set k fanin } else old := by
  rw [List.getElem?_modify, Option.map_eq_map, Option.map_eq_some_iff]
  simp only [eq_comm]

/-- Moving a regular input to another regular output keeps the tables right. -/
theorem Recorded.reroute (consistent : view.Consistent) {last : Nat} {dst : NodeDef}
    {faninNode : Nat} (atDst : view.graph[d]? = some dst)
    (atPort : dst.input[k]? = some tensor) (regular : tensor.index ≠ .controlSlot)
    (isFanin : view.getNode fanin.node = some faninNode) (faninRegular : fanin.index ≠ .controlSlot)
    (isLast : view.maxRegularInputPort.getD d none = some last) (within : k ≤ last) :
    (view.reroute d k tensor fanin faninNode).Consistent := by
  obtain ⟨sameGraph, sameFanouts, samePorts⟩ := touch_frame view tensor.node
  have kBound : k < dst.input.length := read_lt atPort
  have newGraph : (view.reroute d k tensor fanin faninNode).graph =
      view.graph.modify d fun def_ => { def_ with input := def_.input.set k fanin } := by
    show ((view.touch tensor.node).graph.modify d _) = _
    rw [sameGraph]
  have atNode : ∀ (n : Nat) node, (view.reroute d k tensor fanin faninNode).graph[n]? = some node ↔
      ∃ old, view.graph[n]? = some old ∧
        node = if d = n then { old with input := old.input.set k fanin } else old := by
    intro n node
    rw [newGraph]
    exact getElem?_modify_set
  have getNode : ∀ name, (view.reroute d k tensor fanin faninNode).getNode name =
      view.getNode name := fun name => getNode_touch view tensor.node name
  have edgeOf : ∀ n j other, (view.reroute d k tensor fanin faninNode).edgeOf n j other = view.edgeOf n j other := by
    intro n j other
    unfold MutableGraphView.edgeOf
    rw [getNode]
  have same : SameButInputs view.graph (view.reroute d k tensor fanin faninNode).graph := by
    refine ⟨by rw [newGraph, List.length_modify], fun n node found => ?_⟩
    obtain ⟨old, atOld, rfl⟩ := (atNode n node).1 found
    refine ⟨old, atOld, ?_⟩
    split <;> rfl
  -- The entry that moves belongs to this input alone.
  have oldEdge : view.edgeOf d k tensor = (⟨view.getNode tensor.node, tensor.index⟩, ⟨d, .port k⟩) := by
    unfold MutableGraphView.edgeOf
    rw [if_neg regular]
  have newEdge : view.edgeOf d k fanin = (⟨some faninNode, fanin.index⟩, ⟨d, .port k⟩) := by
    unfold MutableGraphView.edgeOf
    rw [if_neg faninRegular, isFanin]
  have toPort : ∀ {n j : Nat} {other : TensorId}, (view.edgeOf n j other).2 = ⟨d, .port k⟩ → n = d ∧ j = k := by
    intro n j other isInput
    obtain ⟨isNode, isPort⟩ := InputPort.mk.inj isInput
    split at isPort
    · cases isPort
    · exact ⟨isNode, PortId.port.inj isPort⟩
  have fanouts : (view.reroute d k tensor fanin faninNode).fanouts =
      (view.fanouts.erase (view.edgeOf d k tensor)).insert (view.edgeOf d k fanin) := by
    show ((view.touch tensor.node).fanouts.erase
      (⟨(view.touch tensor.node).getNode tensor.node, tensor.index⟩, ⟨d, .port k⟩)).insert
      (⟨some faninNode, fanin.index⟩, ⟨d, .port k⟩) = _
    rw [sameFanouts, getNode_touch, ← oldEdge, ← newEdge]
  refine ⟨same.named getNode consistent.named, fun n node _ found other mem => ?_,
    fun edge => ?_, ?_, fun n j node other _ found atOther isRegular => ?_, ?_⟩
  · show other.node ∈ (view.touch tensor.node).nodes
    rw [mem_touch]
    right
    obtain ⟨old, atOld, rfl⟩ := (atNode n node).1 found
    split at mem
    next isNode =>
      rcases List.mem_or_eq_of_mem_set mem with mem | isOther
      · exact consistent.keyed n old trivial atOld other mem
      · rw [isOther]
        exact mem_nodes_of_getNode isFanin
    · exact consistent.keyed n old trivial atOld other mem
  · rw [fanouts, List.mem_insert_iff, consistent.fanoutNodup.mem_erase_iff, consistent.fanout]
    constructor
    · grind
    · grind
  · rw [fanouts]
    exact (consistent.fanoutNodup.erase _).insert
  · show ∃ last, (view.touch tensor.node).maxRegularInputPort.getD n none = some last ∧ j ≤ last
    rw [samePorts]
    obtain ⟨old, atOld, rfl⟩ := (atNode n node).1 found
    by_cases moved : d = n ∧ k = j
    · obtain ⟨rfl, rfl⟩ := moved
      exact ⟨last, isLast, within⟩
    · refine consistent.lastPort n j old other trivial atOld ?_ isRegular
      split at atOther
      next isNode =>
        have notPort : k ≠ j := fun isPort => moved ⟨isNode, isPort⟩
        exact (List.getElem?_set_ne notPort).symm.trans atOther
      · exact atOther
  · show (view.touch tensor.node).maxRegularInputPort.length = _
    rw [samePorts, same.length]
    exact consistent.sized

theorem updateRegularFaninByPort_spec (consistent : view.Consistent)
    {dst : NodeDef} (isNode : view.getNode name = some d)
    (atDst : view.graph[d]? = some dst) (atPort : dst.input[k]? = some tensor)
    (regular : tensor.index ≠ .controlSlot) (free : ⟨fanin.node, .controlSlot⟩ ∉ dst.input)
    (ran : view.updateRegularFaninByPort name (.port k) fanin = .ok view') :
    view'.Consistent ∧ (∀ name ∈ view.nodes, name ∈ view'.nodes) ∧ view'.graph =
      view.graph.modify d fun def_ => { def_ with input := def_.input.set k fanin } := by
  unfold updateRegularFaninByPort at ran
  obtain ⟨_, faninOk', ran⟩ := bind_ok.1 ran
  obtain ⟨_, -, ran⟩ := bind_ok.1 ran
  obtain ⟨node, nodeOk, ran⟩ := bind_ok.1 ran
  obtain ⟨number, portOk, ran⟩ := bind_ok.1 ran
  obtain ⟨faninNode, faninOk, finished⟩ := bind_ok.1 ran
  have faninRegular := require_eq_ok.1 faninOk'
  clear ran faninOk'
  have isD : node = d := by
    unfold checkNodeExists at nodeOk
    rw [isNode] at nodeOk
    exact (Except.ok.inj nodeOk).symm
  subst isD
  have isFanin : view.getNode fanin.node = some faninNode := by
    unfold checkNodeExists at faninOk
    split at faninOk
    · cases faninOk
    next found =>
      cases faninOk
      exact found
  obtain ⟨last, isLast, isNumber, within⟩ : ∃ last,
      view.maxRegularInputPort.getD node none = some last ∧ number = k ∧ k ≤ last := by
    unfold checkPortRange at portOk
    split at portOk
    · cases portOk
    · cases portOk
    next last number' isLast isPort =>
      cases isPort
      split at portOk
      next within =>
        cases portOk
        exact ⟨last, isLast, rfl, within⟩
      · cases portOk
  subst isNumber
  have inputs : view.inputsOf node = dst.input := by
    unfold inputsOf
    rw [atDst]
  obtain ⟨faninDef, atFanin, isName⟩ := (consistent.named _ _).1 isFanin
  rw [inputs, atPort, atFanin] at finished
  dsimp only at finished
  have unchanged : tensor = fanin → view.graph =
      view.graph.modify node fun def_ => { def_ with input := def_.input.set number fanin } := by
    intro same
    have isSet : dst.input.set number fanin = dst.input := by
      obtain ⟨bound, isTensor⟩ := List.getElem?_eq_some_iff.1 atPort
      rw [← same, ← isTensor, List.set_getElem_self]
    refine List.ext_getElem? fun n => ?_
    rw [List.getElem?_modify]
    by_cases isNode' : node = n
    · rw [← isNode', atDst]
      simp [isSet]
    · simp [isNode']
  split at finished
  next same =>
    cases finished
    exact ⟨consistent, fun _ present => present, unchanged same⟩
  next ne =>
    obtain ⟨canDedup, -, finished⟩ := bind_ok.1 finished
    have moved := consistent.reroute atDst atPort regular isFanin faninRegular isLast within
    have keys : ∀ name ∈ view.nodes, name ∈ (view.reroute node number tensor fanin faninNode).nodes :=
      fun name present => mem_touch.2 (.inr present)
    have newGraph : (view.reroute node number tensor fanin faninNode).graph = view.graph.modify node
          fun def_ => { def_ with input := def_.input.set number fanin } := by
      show ((view.touch tensor.node).graph.modify node _) = _
      rw [(touch_frame view tensor.node).1]
    have kept : (view.reroute node number tensor fanin faninNode).removeControllingFanin node
        faninNode faninDef.name = view.reroute node number tensor fanin faninNode := by
      unfold removeControllingFanin
      have newInputs : (view.reroute node number tensor fanin faninNode).inputsOf node =
          dst.input.set number fanin := by
        unfold inputsOf
        rw [newGraph, List.getElem?_modify, atDst]
        simp
      have stillFree : ⟨faninDef.name, .controlSlot⟩ ∉ dst.input.set number fanin := by
        grind
      rw [newInputs]
      dsimp only
      rw [controllingFanin_eq_none stillFree]
    split at finished
    · cases finished
      rw [kept]
      exact ⟨moved, keys, newGraph⟩
    · cases finished
      exact ⟨moved, keys, newGraph⟩

end Itex.Graph.MutableGraphView
