import Itex.OneDnnGraph.Fusion

/-!
Contract: the inputs of every node while partitions are fused.

Owns: which new node stands for an op, and what the inputs of old and new nodes are after
each partition, in terms of the graph before the pass.
-/

namespace Itex.OneDnnGraph

open Itex.Graph
open Itex.Lib

variable {now place : Nat} {partitions : List Partition} {tensor : TensorRef} {α : Type}

/-- Partitions of nodes of a graph, that read inputs of these nodes and have outputs of them. -/
structure Partition.WellFormed (graph : OpGraph) (partition : Partition) : Prop where
  inGraph : ∀ op ∈ partition.ops, op < graph.length
  inputsRead : ∀ tensor ∈ partition.inputs, ∃ op ∈ partition.ops, ∃ node, graph[op]? = some node ∧
    tensor ∈ node.regularFanins
  outputsInside : ∀ tensor ∈ partition.outputs, tensor.node ∈ partition.ops

/-- What `LLGA partition input should not be in the partition` checks. An op with more
outputs in TensorFlow than in oneDNN may break it. -/
def Partition.InputsOutside (partition : Partition) : Prop :=
  ∀ tensor ∈ partition.inputs, tensor.node ∉ partition.ops

def Disjoint (partition other : Partition) : Prop := ∀ op ∈ partition.ops, op ∉ other.ops

/-- The node that stands for an old one: the new node of its partition, or itself. The old
graph has `size` nodes. -/
def rep (size : Nat) (fused : List Partition) (node : Nat) : Nat :=
  match fused.findIdx? fun partition => partition.ops.contains node with
  | some place => size + place
  | none => node

section Rep

variable {size : Nat} {fused : List Partition}

theorem rep_of_not_mem {node : Nat} (outside : ∀ partition ∈ fused, node ∉ partition.ops) :
    rep size fused node = node := by
  unfold rep
  grind

theorem place_unique (disjoint : fused.Pairwise Disjoint) {i j node : Nat} {partition other : Partition}
    (atI : fused[i]? = some partition) (atJ : fused[j]? = some other) (inside : node ∈ partition.ops)
    (inside' : node ∈ other.ops) : i = j := by
  by_contra ne
  obtain ⟨boundI, isI⟩ := List.getElem?_eq_some_iff.1 atI
  obtain ⟨boundJ, isJ⟩ := List.getElem?_eq_some_iff.1 atJ
  rcases Nat.lt_or_gt_of_ne ne with less | more
  · have apart := List.pairwise_iff_getElem.1 disjoint i j boundI boundJ less
    rw [isI, isJ] at apart
    exact apart node inside inside'
  · have apart := List.pairwise_iff_getElem.1 disjoint j i boundJ boundI more
    rw [isI, isJ] at apart
    exact apart node inside' inside

theorem rep_of_mem (disjoint : fused.Pairwise Disjoint) {node : Nat} {partition : Partition}
    (atPlace : fused[place]? = some partition) (inside : node ∈ partition.ops) :
    rep size fused node = size + place := by
  unfold rep
  cases found : fused.findIdx? (fun partition => partition.ops.contains node) with
  | none =>
    have outside := List.findIdx?_eq_none_iff.1 found partition (List.mem_of_getElem? atPlace)
    simp [inside] at outside
  | some other =>
    obtain ⟨bound, holds, _⟩ := List.findIdx?_eq_some_iff_getElem.1 found
    have same := place_unique disjoint atPlace (List.getElem?_eq_getElem bound) inside (by simpa using holds)
    rw [same]

end Rep

def Stands (size : Nat) (fused : List Partition) (node : Nat) (tensor now : TensorRef) : Prop :=
  (∃ place partition, fused[place]? = some partition ∧ tensor ∈ partition.outputs ∧
    node ∉ partition.ops ∧ now.node = size + place) ∨
  (now = tensor ∧ ∀ partition ∈ fused, tensor ∈ partition.outputs → node ∈ partition.ops)

def Controls (size : Nat) (fused : List Partition) (node fanin now : Nat) : Prop :=
  (∃ place partition, fused[place]? = some partition ∧ fanin ∈ partition.ops ∧
    node ∉ partition.ops ∧ now = size + place) ∨
  (now = fanin ∧ ∀ partition ∈ fused, fanin ∈ partition.ops → node ∈ partition.ops)

/-- The graph after some partitions, against the one before. -/
structure Fused (graph : OpGraph) (fused : List Partition) (pass : Pass) : Prop where
  length : pass.graph.length = graph.length + fused.length
  old : ∀ index node, graph[index]? = some node → ∃ node', pass.graph[index]? = some node' ∧
    node'.op = node.op ∧ node'.isOnCpu = node.isOnCpu ∧
    List.Forall₂ (Stands graph.length fused index) node.regularFanins node'.regularFanins ∧
    ∀ now, now ∈ node'.controllingFanins ↔
      ∃ fanin ∈ node.controllingFanins, Controls graph.length fused index fanin now
  new : ∀ place partition, fused[place]? = some partition → ∃ node', pass.graph[graph.length + place]? = some node' ∧
      List.Forall₂ (Stands graph.length fused (graph.length + place)) partition.inputs
        node'.regularFanins ∧
      ∀ now, now ∈ node'.controllingFanins ↔
        ∃ op ∈ partition.ops, ∃ node, graph[op]? = some node ∧ ∃ fanin ∈ node.controllingFanins,
          fanin ∉ partition.ops ∧ Controls graph.length fused (graph.length + place) fanin now
  nodesToDelete : pass.nodesToDelete = fused.flatMap Partition.ops
  managed : ∀ tensor, (∃ place partition now, fused[place]? = some partition ∧
      tensor ∈ partition.outputs ∧ now.node = graph.length + place ∧
      pass.edgeManagerTmp.lookup tensor = some now) ∨
    ((∀ partition ∈ fused, tensor ∉ partition.outputs) ∧ pass.edgeManagerTmp.lookup tensor = none)

theorem Fused.start (graph : OpGraph) : Fused graph [] { graph := graph } where
  length := rfl
  old := by
    intro index node atIndex
    refine ⟨node, atIndex, rfl, rfl, ?_, ?_⟩
    · apply List.forall₂_same.2
      intro tensor _
      exact .inr ⟨rfl, by simp⟩
    · intro now
      constructor
      · intro member
        exact ⟨now, member, .inr ⟨rfl, by simp⟩⟩
      · rintro ⟨fanin, member, ⟨place, partition, atPlace, _⟩ | ⟨same, _⟩⟩
        · cases atPlace
        · rwa [same]
  new := by
    intro place partition atPlace
    cases atPlace
  nodesToDelete := rfl
  managed := fun tensor => .inr ⟨by simp, rfl⟩

/-! ## One more partition -/

theorem redirect_of_mem {outputs : List TensorRef} (fused : Nat) (member : tensor ∈ outputs) :
    (Pass.redirect outputs fused tensor).node = fused := by
  unfold Pass.redirect
  cases found : outputs.zipIdx.reverse.find? (fun entry => entry.1 = tensor) with
  | some entry => rfl
  | none =>
    obtain ⟨place, bound, isTensor⟩ := List.mem_iff_getElem.1 member
    have missing := List.find?_eq_none.1 found (tensor, place) (by
      rw [List.mem_reverse, List.mem_zipIdx_iff_getElem?, List.getElem?_eq_getElem bound, isTensor])
    simp at missing

theorem redirect_of_not_mem {outputs : List TensorRef} (fused : Nat)
    (outside : tensor ∉ outputs) : Pass.redirect outputs fused tensor = tensor := by
  unfold Pass.redirect
  have none : outputs.zipIdx.reverse.find? (fun entry => entry.1 = tensor) = none := by
    grind
  rw [none]

section Step

variable {size : Nat} {seen : List Partition} {partition : Partition} {node : Nat}

theorem getElem?_append_of_some {l : List α} {a b : α} (atPlace : l[place]? = some a) :
    (l ++ [b])[place]? = some a := by
  rw [List.getElem?_append_left (read_lt atPlace)]
  exact atPlace

theorem forall_mem_append_singleton {property : α → Prop} {l : List α} {a : α}
    (before : ∀ b ∈ l, property b) (last : property a) : ∀ b ∈ l ++ [a], property b := by
  intro b member
  rcases List.mem_append.1 member with member | member
  · exact before b member
  · rw [List.mem_singleton.1 member]
    exact last

theorem Stands.inside {now : TensorRef} (stands : Stands size seen node tensor now)
    (inside : node ∈ partition.ops) : Stands size (seen ++ [partition]) node tensor now := by
  rcases stands with ⟨place, other, atPlace, isOutput, outside, isNow⟩ | ⟨same, kept⟩
  · exact .inl ⟨place, other, getElem?_append_of_some atPlace, isOutput, outside, isNow⟩
  · exact .inr ⟨same, forall_mem_append_singleton kept fun _ => inside⟩

theorem Stands.outside {now : TensorRef} (stands : Stands size seen node tensor now)
    (outside : node ∉ partition.ops) (old : ∀ output ∈ partition.outputs, output.node < size) :
    Stands size (seen ++ [partition]) node tensor (Pass.redirect partition.outputs (size + seen.length) now) := by
  rcases stands with ⟨place, other, atPlace, isOutput, apart, isNow⟩ | ⟨same, kept⟩
  · have isNew : now ∉ partition.outputs := by
      intro member
      have := old now member
      omega
    rw [redirect_of_not_mem _ isNew]
    exact .inl ⟨place, other, getElem?_append_of_some atPlace, isOutput, apart, isNow⟩
  · rw [same]
    by_cases isOutput : tensor ∈ partition.outputs
    · exact .inl ⟨seen.length, partition, List.getElem?_concat_length, isOutput, outside, redirect_of_mem _ isOutput⟩
    · rw [redirect_of_not_mem _ isOutput]
      exact .inr ⟨rfl, forall_mem_append_singleton kept fun member => absurd member isOutput⟩

theorem getElem?_concat {l : List α} {a b : α} (atPlace : (l ++ [b])[place]? = some a) :
    l[place]? = some a ∨ (place = l.length ∧ a = b) := by
  by_cases earlier : place < l.length
  · rw [List.getElem?_append_left earlier] at atPlace
    exact .inl atPlace
  · grind

theorem Controls.inside_iff {fanin : Nat} (inside : node ∈ partition.ops) :
    Controls size (seen ++ [partition]) node fanin now ↔ Controls size seen node fanin now := by
  constructor
  · rintro (⟨place, other, atPlace, isOp, apart, isNow⟩ | ⟨same, kept⟩)
    · rcases getElem?_concat atPlace with earlier | ⟨_, isLast⟩
      · exact .inl ⟨place, other, earlier, isOp, apart, isNow⟩
      · rw [isLast] at apart
        exact absurd inside apart
    · exact .inr ⟨same, fun other member => kept other (List.mem_append_left _ member)⟩
  · rintro (⟨place, other, atPlace, isOp, apart, isNow⟩ | ⟨same, kept⟩)
    · exact .inl ⟨place, other, getElem?_append_of_some atPlace, isOp, apart, isNow⟩
    · exact .inr ⟨same, forall_mem_append_singleton kept fun _ => inside⟩

theorem Controls.outside_iff {fanin : Nat} (outside : node ∉ partition.ops)
    (old : ∀ op ∈ partition.ops, op < size) (apart : ∀ other ∈ seen, Disjoint other partition) :
    Controls size (seen ++ [partition]) node fanin now ↔ (Controls size seen node fanin now ∧ now ∉ partition.ops) ∨
      (now = size + seen.length ∧ ∃ before ∈ partition.ops, Controls size seen node fanin before) := by
  constructor
  · rintro (⟨place, other, atPlace, isOp, notOp, isNow⟩ | ⟨same, kept⟩)
    · rcases getElem?_concat atPlace with earlier | ⟨isPlace, isLast⟩
      · refine .inl ⟨.inl ⟨place, other, earlier, isOp, notOp, isNow⟩, ?_⟩
        intro member
        have := old now member
        omega
      · rw [isLast] at isOp
        refine .inr ⟨by rw [isNow, isPlace], fanin, isOp, .inr ⟨rfl, ?_⟩⟩
        intro earlier member isEarlier
        exact absurd isOp (apart earlier member fanin isEarlier)
    · have notOp : fanin ∉ partition.ops := fun member =>
        outside (kept partition (List.mem_append_right _ List.mem_cons_self) member)
      rw [same]
      exact .inl ⟨.inr ⟨rfl, fun other member => kept other (List.mem_append_left _ member)⟩, notOp⟩
  · rintro (⟨⟨place, other, atPlace, isOp, notOp, isNow⟩ | ⟨same, kept⟩, notNow⟩ |
      ⟨isNew, before, isBefore, ⟨place, other, atPlace, isOp, notOp, isNow⟩ | ⟨same, kept⟩⟩)
    · exact .inl ⟨place, other, getElem?_append_of_some atPlace, isOp, notOp, isNow⟩
    · rw [same] at notNow
      exact .inr ⟨same, forall_mem_append_singleton kept fun member => absurd member notNow⟩
    · have := old before isBefore
      omega
    · rw [same] at isBefore
      exact .inl ⟨seen.length, partition, List.getElem?_concat_length, isBefore, outside, isNew⟩

theorem mem_rewired_controls {ops controls : List Nat} {fused : Nat} :
    now ∈ (if controls.any ops.contains then controls.filter (fun fanin => !ops.contains fanin) ++ [fused]
      else controls) ↔ (now ∈ controls ∧ now ∉ ops) ∨ (now = fused ∧ ∃ before ∈ ops, before ∈ controls) := by
  by_cases touched : controls.any ops.contains = true
  · grind
  · grind

end Step

/-! ## `FuseFwPartitionWithLLGA` -/

/-- What decides whether a partition is fused. -/
def Node.kind (node : Node) : String × Bool := (node.op, node.isOnCpu)

theorem worthFusing_congr {allType : Bool} {nodes nodes' : List Node}
    (same : nodes.map Node.kind = nodes'.map Node.kind) : worthFusing allType nodes = worthFusing allType nodes' := by
  have quantizes : ∀ nodes : List Node, nodes.any isQuantizeOrDequantize =
      (nodes.map Node.kind).any fun kind => kind.1 == "QuantizeV2" || kind.1 == "Dequantize" := by
    intro nodes
    rw [List.any_map]
    rfl
  have binaries : ∀ nodes : List Node, (nodes.all fun node => isAnyBinary node && node.isOnCpu) =
      (nodes.map Node.kind).all fun kind =>
        (kind.1 == "Add" || kind.1 == "AddV2" || kind.1 == "Mul" || kind.1 == "Sub") && kind.2 := by
    intro nodes
    rw [List.all_map]
    rfl
  unfold worthFusing
  rw [quantizes nodes, quantizes nodes', binaries nodes, binaries nodes', same]

/-- Whether a partition of the old graph is fused. -/
def Partition.isFused (allType : Bool) (graph : OpGraph) (partition : Partition) : Bool :=
  worthFusing allType (partition.ops.filterMap (graph[·]?))

section FuseStep

variable {graph : OpGraph} {seen : List Partition} {pass : Pass} {partition : Partition}

section

variable (before : Fused graph seen pass)

include before

theorem Fused.nodesOf {ops : List Nat} (inGraph : ∀ op ∈ ops, op < graph.length) :
    ∃ nodes, OneDnnGraph.nodesOf pass.graph ops = .ok nodes ∧
      nodes.map Node.kind = (ops.filterMap (graph[·]?)).map Node.kind ∧
      ∀ node', node' ∈ nodes ↔ ∃ op ∈ ops, pass.graph[op]? = some node' := by
  induction ops with
  | nil => exact ⟨[], rfl, rfl, by simp⟩
  | cons op rest ih =>
    obtain ⟨nodes, ran, kinds, members⟩ := ih fun other member =>
      inGraph other (List.mem_cons_of_mem _ member)
    have bound := inGraph op List.mem_cons_self
    have atOp : graph[op]? = some graph[op] := List.getElem?_eq_getElem bound
    obtain ⟨node', atNode, isOp, onCpu, _⟩ := before.old op graph[op] atOp
    refine ⟨node' :: nodes, ?_, ?_, ?_⟩
    · unfold OneDnnGraph.nodesOf at ran ⊢
      rw [List.mapM_cons, bind_ok]
      refine ⟨node', by rw [atNode], ?_⟩
      rw [bind_ok]
      exact ⟨nodes, ran, rfl⟩
    · rw [List.filterMap_cons_some atOp, List.map_cons, List.map_cons, kinds]
      unfold Node.kind
      rw [isOp, onCpu]
    · grind

theorem Fused.findLLGATensorId_output (wellFormedSeen : ∀ other ∈ seen, other.WellFormed graph) (wf : partition.WellFormed graph)
    (apart : ∀ other ∈ seen, Disjoint other partition) :
    partition.outputs.map pass.findLLGATensorId = partition.outputs := by
  rw [List.map_congr_left (g := id), List.map_id]
  intro tensor member
  unfold Pass.findLLGATensorId
  rcases before.managed tensor with ⟨place, other, now, atPlace, isOutput, _⟩ | ⟨_, none⟩
  · have isSeen := List.mem_of_getElem? atPlace
    exact absurd (wf.outputsInside tensor member)
      (apart other isSeen tensor.node ((wellFormedSeen other isSeen).outputsInside tensor isOutput))
  · rw [none]
    rfl

theorem Fused.partitionInputs (wellFormedSeen : ∀ other ∈ seen, other.WellFormed graph) (wf : partition.WellFormed graph)
    (inputsOutside : partition.InputsOutside) :
    ∃ inputs, partition.inputs.mapM (pass.partitionInput partition.ops) = .ok inputs ∧
      List.Forall₂ (Stands graph.length (seen ++ [partition]) (graph.length + seen.length))
        partition.inputs inputs := by
  have each : ∀ tensor ∈ partition.inputs,
      pass.partitionInput partition.ops tensor = .ok (pass.findLLGATensorId tensor) ∧
      Stands graph.length (seen ++ [partition]) (graph.length + seen.length) tensor
        (pass.findLLGATensorId tensor) := by
    intro tensor member
    have notInside := inputsOutside tensor member
    unfold Pass.partitionInput Pass.findLLGATensorId
    rcases before.managed tensor with ⟨place, other, now, atPlace, isOutput, isNew, found⟩ | ⟨noOutput, none⟩
    · rw [found, Option.getD_some]
      have outside : now.node ∉ partition.ops := by
        intro inside
        have := wf.inGraph now.node inside
        omega
      have isSeen := List.mem_of_getElem? atPlace
      refine ⟨by simp [outside], .inl ⟨place, other, getElem?_append_of_some atPlace, isOutput, ?_, isNew⟩⟩
      intro inside
      have := (wellFormedSeen other isSeen).inGraph _ inside
      omega
    · rw [none, Option.getD_none]
      refine ⟨by simp [notInside], .inr ⟨rfl, forall_mem_append_singleton ?_ ?_⟩⟩
      · intro other isSeen isOutput
        exact absurd isOutput (noOutput other isSeen)
      · intro isOutput
        exact absurd (wf.outputsInside tensor isOutput) notInside
  refine ⟨partition.inputs.map pass.findLLGATensorId, ?_, ?_⟩
  · rw [mapM_eq_ok, List.forall₂_map_right_iff, List.forall₂_same]
    exact fun tensor member => (each tensor member).1
  · rw [List.forall₂_map_right_iff, List.forall₂_same]
    exact fun tensor member => (each tensor member).2

theorem rewired_node (wf : partition.WellFormed graph)
    (apart : ∀ other ∈ seen, Disjoint other partition) {index : Nat} {fanins : List TensorRef}
    {node' : Node} {controls : Nat → Prop}
    (regular : List.Forall₂ (Stands graph.length seen index) fanins node'.regularFanins)
    (controlling : ∀ now, now ∈ node'.controllingFanins ↔
      ∃ fanin, controls fanin ∧ Controls graph.length seen index fanin now) :
    let rewired := if partition.ops.contains index then node'
      else Pass.rewire partition.ops partition.outputs pass.graph.length node'
    rewired.op = node'.op ∧ rewired.isOnCpu = node'.isOnCpu ∧
      List.Forall₂ (Stands graph.length (seen ++ [partition]) index) fanins rewired.regularFanins ∧
      ∀ now, now ∈ rewired.controllingFanins ↔
        ∃ fanin, controls fanin ∧ Controls graph.length (seen ++ [partition]) index fanin now := by
  dsimp only
  by_cases inside : index ∈ partition.ops
  · rw [if_pos (by simpa using inside)]
    refine ⟨rfl, rfl, regular.imp fun _ _ stands => stands.inside inside, ?_⟩
    intro now
    rw [controlling]
    exact exists_congr fun fanin => and_congr_right fun _ => (Controls.inside_iff inside).symm
  · rw [if_neg (by simpa using inside)]
    have oldOutputs : ∀ output ∈ partition.outputs, output.node < graph.length := fun output member =>
      wf.inGraph output.node (wf.outputsInside output member)
    refine ⟨rfl, rfl, ?_, ?_⟩
    · change List.Forall₂ _ fanins (node'.regularFanins.map _)
      rw [List.forall₂_map_right_iff, before.length]
      exact regular.imp fun _ _ stands => stands.outside inside oldOutputs
    · intro now
      change now ∈ (if node'.controllingFanins.any partition.ops.contains then _ else _) ↔ _
      rw [mem_rewired_controls, before.length, controlling]
      constructor
      · rintro (⟨⟨fanin, isControl, stands⟩, notOp⟩ | ⟨isNew, earlier, isOp, member⟩)
        · exact ⟨fanin, isControl, (Controls.outside_iff inside wf.inGraph apart).2 (.inl ⟨stands, notOp⟩)⟩
        · obtain ⟨fanin, isControl, stands⟩ := (controlling earlier).1 member
          exact ⟨fanin, isControl,
            (Controls.outside_iff inside wf.inGraph apart).2 (.inr ⟨isNew, earlier, isOp, stands⟩)⟩
      · rintro ⟨fanin, isControl, stands⟩
        rcases (Controls.outside_iff inside wf.inGraph apart).1 stands with
          ⟨kept, notOp⟩ | ⟨isNew, earlier, isOp, kept⟩
        · exact .inl ⟨⟨fanin, isControl, kept⟩, notOp⟩
        · exact .inr ⟨isNew, earlier, isOp, (controlling earlier).2 ⟨fanin, isControl, kept⟩⟩

theorem new_controls (wf : partition.WellFormed graph) (wellFormedSeen : ∀ other ∈ seen, other.WellFormed graph)
    (apart : ∀ other ∈ seen, Disjoint other partition) (now : Nat) :
    (∃ op ∈ partition.ops, ∃ node', pass.graph[op]? = some node' ∧ now ∈ node'.controllingFanins ∧
        now ∉ partition.ops) ↔ ∃ op ∈ partition.ops, ∃ node, graph[op]? = some node ∧ ∃ fanin ∈ node.controllingFanins,
        fanin ∉ partition.ops ∧ Controls graph.length (seen ++ [partition]) (graph.length + seen.length) fanin now := by
  have fresh : ∀ other : Partition, other.WellFormed graph → graph.length + seen.length ∉ other.ops := by
    intro other isWellFormed inside
    have := isWellFormed.inGraph _ inside
    omega
  constructor
  · rintro ⟨op, isOp, node', atOp', member, notOp⟩
    have bound := wf.inGraph op isOp
    have atOp : graph[op]? = some graph[op] := List.getElem?_eq_getElem bound
    obtain ⟨node'', atOp'', _, _, _, controls⟩ := before.old op _ atOp
    rw [atOp'] at atOp''
    cases atOp''
    obtain ⟨fanin, isFanin, ⟨place, other, atPlace, isOther, _, isNow⟩ | ⟨same, kept⟩⟩ :=
      (controls now).1 member
    · have isSeen := List.mem_of_getElem? atPlace
      exact ⟨op, isOp, _, atOp, fanin, isFanin, apart other isSeen fanin isOther,
        .inl ⟨place, other, getElem?_append_of_some atPlace, isOther, fresh other (wellFormedSeen other isSeen),
          isNow⟩⟩
    · rw [same] at notOp
      refine ⟨op, isOp, _, atOp, fanin, isFanin, notOp, .inr ⟨same, forall_mem_append_singleton ?_ ?_⟩⟩
      · intro other isSeen isOther
        exact absurd isOp (apart other isSeen op (kept other isSeen isOther))
      · intro inside
        exact absurd inside notOp
  · rintro ⟨op, isOp, node, atOp, fanin, isFanin, notOp, stands⟩
    obtain ⟨node', atOp', _, _, _, controls⟩ := before.old op node atOp
    rcases stands with ⟨place, other, atPlace, isOther, _, isNow⟩ | ⟨same, kept⟩
    · rcases getElem?_concat atPlace with earlier | ⟨_, isLast⟩
      · have isSeen := List.mem_of_getElem? earlier
        refine ⟨op, isOp, node', atOp', (controls now).2 ⟨fanin, isFanin, .inl ⟨place, other, earlier, isOther,
          fun inside => apart other isSeen op inside isOp, isNow⟩⟩, ?_⟩
        intro inside
        have := wf.inGraph now inside
        omega
      · rw [isLast] at isOther
        exact absurd isOther notOp
    · rw [same]
      refine ⟨op, isOp, node', atOp', (controls fanin).2 ⟨fanin, isFanin, .inr ⟨rfl, ?_⟩⟩, notOp⟩
      intro other isSeen isOther
      exact absurd (kept other (List.mem_append_left _ isSeen) isOther)
        (fresh other (wellFormedSeen other isSeen))

theorem managed_append (tensor : TensorRef) :
    (∃ place other now, (seen ++ [partition])[place]? = some other ∧ tensor ∈ other.outputs ∧
      now.node = graph.length + place ∧ (pass.edgeManagerTmp ++ partition.outputs.zipIdx.map fun entry =>
        (entry.1, (⟨pass.graph.length, entry.2⟩ : TensorRef))).lookup tensor = some now) ∨
    ((∀ other ∈ seen ++ [partition], tensor ∉ other.outputs) ∧
      (pass.edgeManagerTmp ++ partition.outputs.zipIdx.map fun entry =>
        (entry.1, (⟨pass.graph.length, entry.2⟩ : TensorRef))).lookup tensor = none) := by
  rcases before.managed tensor with ⟨place, other, now, atPlace, isOutput, isNew, found⟩ | ⟨noOutput, none⟩
  · left
    refine ⟨place, other, now, getElem?_append_of_some atPlace, isOutput, isNew, ?_⟩
    rw [List.lookup_append, found]
    rfl
  · rw [List.lookup_append, none, Option.none_or]
    cases found : (partition.outputs.zipIdx.map fun entry =>
        (entry.1, (⟨pass.graph.length, entry.2⟩ : TensorRef))).lookup tensor with
    | some now =>
      left
      obtain ⟨first, rest, isSplit, _⟩ := List.lookup_eq_some_iff.1 found
      have member : (tensor, now) ∈ partition.outputs.zipIdx.map fun entry =>
          (entry.1, (⟨pass.graph.length, entry.2⟩ : TensorRef)) := by
        rw [isSplit]
        simp
      obtain ⟨entry, inside, same⟩ := List.mem_map.1 member
      have isOutput := List.fst_mem_of_mem_zipIdx inside
      cases same
      exact ⟨seen.length, partition, _, List.getElem?_concat_length, isOutput, before.length, rfl⟩
    | none =>
      right
      refine ⟨forall_mem_append_singleton noOutput ?_, rfl⟩
      intro isOutput
      obtain ⟨place, bound, isTensor⟩ := List.mem_iff_getElem.1 isOutput
      have missing := List.lookup_eq_none_iff.1 found (tensor, ⟨pass.graph.length, place⟩) (by
        rw [List.mem_map]
        refine ⟨(tensor, place), ?_, rfl⟩
        rw [List.mem_zipIdx_iff_getElem?, List.getElem?_eq_getElem bound, isTensor])
      simp at missing

end

variable {allType : Bool}

section

variable (before : Fused graph seen pass) (wf : partition.WellFormed graph)

include before wf

theorem Fused.fuse (wellFormedSeen : ∀ other ∈ seen, other.WellFormed graph)
    (apart : ∀ other ∈ seen, Disjoint other partition) (worth : partition.isFused allType graph = true)
    (inputsOutside : partition.InputsOutside) : ∃ pass', pass.fuseFwPartitionWithLLGA allType partition = .ok pass' ∧
      Fused graph (seen ++ [partition]) pass' := by
  obtain ⟨nodes, isNodes, kinds, members⟩ := before.nodesOf wf.inGraph
  obtain ⟨inputs, isInputs, stands⟩ := before.partitionInputs wellFormedSeen wf inputsOutside
  have isWorth : worthFusing allType nodes = true := by
    rw [worthFusing_congr kinds]
    exact worth
  refine ⟨pass.withFused partition nodes inputs, ?_, ?_⟩
  · unfold Pass.fuseFwPartitionWithLLGA
    rw [bind_ok]
    refine ⟨nodes, isNodes, ?_⟩
    rw [isWorth, Bool.not_true, if_neg Bool.false_ne_true, bind_ok]
    exact ⟨inputs, isInputs, rfl⟩
  · unfold Pass.withFused
    rw [before.findLLGATensorId_output wellFormedSeen wf apart]
    dsimp only
    constructor
    · change (pass.graph.mapIdx _ ++ [_]).length = _
      rw [List.length_append, List.length_mapIdx, before.length, List.length_append]
      rfl
    · intro index node atIndex
      obtain ⟨node', atIndex', isOp, onCpu, regular, controls⟩ := before.old index node atIndex
      have bound := read_lt atIndex'
      obtain ⟨isOp', onCpu', regular', controls'⟩ := rewired_node before wf apart regular
        (fun now => (controls now).trans (exists_congr fun fanin => Iff.rfl))
      grind
    · intro place other atPlace
      rcases getElem?_concat atPlace with earlier | ⟨isPlace, isLast⟩
      · obtain ⟨node', atNew, regular, controls⟩ := before.new place other earlier
        have bound := read_lt atNew
        have byFanin : ∀ now, now ∈ node'.controllingFanins ↔
            ∃ fanin, (∃ op ∈ other.ops, ∃ node, graph[op]? = some node ∧ fanin ∈ node.controllingFanins ∧
              fanin ∉ other.ops) ∧ Controls graph.length seen (graph.length + place) fanin now := by
          intro now
          rw [controls]
          constructor
          · rintro ⟨op, isOp, node, atOp, fanin, isFanin, notOp, stands⟩
            exact ⟨fanin, ⟨op, isOp, node, atOp, isFanin, notOp⟩, stands⟩
          · rintro ⟨fanin, ⟨op, isOp, node, atOp, isFanin, notOp⟩, stands⟩
            exact ⟨op, isOp, node, atOp, fanin, isFanin, notOp, stands⟩
        obtain ⟨_, _, regular', controls'⟩ := rewired_node before wf apart regular byFanin
        grind
      · rw [isPlace, isLast]
        refine ⟨{ op := "OneDnnGraph"
                  deviceType := (pass.graph[partition.ops.foldl max 0]?).bind Node.deviceType
                  isOnCpu := ((pass.graph[partition.ops.foldl max 0]?).map Node.isOnCpu).getD false
                  regularFanins := inputs
                  controllingFanins := ((nodes.reverse.flatMap Node.controllingFanins).filter fun fanin =>
                    !partition.ops.contains fanin).eraseDups }, ?_, stands, ?_⟩
        · rw [List.getElem?_append_right (by simp [before.length])]
          simp [List.length_mapIdx, before.length]
        · intro now
          dsimp only
          rw [List.mem_eraseDups, ← new_controls before wf wellFormedSeen apart, List.mem_filter, List.mem_flatMap]
          constructor
          · grind
          · grind
    · change pass.nodesToDelete ++ partition.ops = _
      rw [before.nodesToDelete, List.flatMap_append]
      simp
    · exact managed_append before

theorem Fused.skip (notWorth : partition.isFused allType graph = false) :
    pass.fuseFwPartitionWithLLGA allType partition = .ok pass := by
  obtain ⟨nodes, isNodes, kinds, _⟩ := before.nodesOf wf.inGraph
  unfold Pass.fuseFwPartitionWithLLGA
  rw [bind_ok]
  refine ⟨nodes, isNodes, ?_⟩
  have isNotWorth : worthFusing allType nodes = false := by
    rw [worthFusing_congr kinds]
    exact notWorth
  rw [isNotWorth]
  rfl

/-- A partition with one of its own ops among its inputs aborts. -/
theorem Fused.inputsOutside (wellFormedSeen : ∀ other ∈ seen, other.WellFormed graph)
    (apart : ∀ other ∈ seen, Disjoint other partition) (worth : partition.isFused allType graph = true)
    {pass' : Pass} (fuses : pass.fuseFwPartitionWithLLGA allType partition = .ok pass') : partition.InputsOutside := by
  obtain ⟨nodes, isNodes, kinds, _⟩ := before.nodesOf wf.inGraph
  have isWorth : worthFusing allType nodes = true := by
    rw [worthFusing_congr kinds]
    exact worth
  unfold Pass.fuseFwPartitionWithLLGA at fuses
  rw [bind_ok] at fuses
  obtain ⟨nodes', isNodes', fuses⟩ := fuses
  rw [isNodes] at isNodes'
  cases isNodes'
  rw [isWorth, Bool.not_true, if_neg Bool.false_ne_true, bind_ok] at fuses
  obtain ⟨inputs, isInputs, _⟩ := fuses
  intro tensor member inside
  have notOutput : ∀ other ∈ seen, tensor ∉ other.outputs := fun other isSeen isOutput =>
    apart other isSeen tensor.node ((wellFormedSeen other isSeen).outputsInside tensor isOutput) inside
  have same : pass.findLLGATensorId tensor = tensor := by
    unfold Pass.findLLGATensorId
    rcases before.managed tensor with ⟨place, other, _, atPlace, isOutput, _⟩ | ⟨_, none⟩
    · exact absurd isOutput (notOutput other (List.mem_of_getElem? atPlace))
    · rw [none]
      rfl
  rw [mapM_eq_ok] at isInputs
  obtain ⟨input, _, isInput⟩ := exists_of_forall₂_of_mem_left isInputs member
  unfold Pass.partitionInput at isInput
  rw [same] at isInput
  dsimp only at isInput
  rw [if_pos (by simpa using inside)] at isInput
  cases isInput

end

end FuseStep

section Run

variable {allType : Bool} {graph : OpGraph}

theorem Fused.fold {seen : List Partition} {pass pass' : Pass} (before : Fused graph seen pass)
    (wf : ∀ partition ∈ seen ++ partitions, partition.WellFormed graph)
    (disjoint : (seen ++ partitions).Pairwise Disjoint)
    (ran : partitions.foldlM (fun pass => pass.fuseFwPartitionWithLLGA allType) pass = .ok pass') :
    Fused graph (seen ++ partitions.filter (Partition.isFused allType graph)) pass' ∧
      ∀ partition ∈ partitions.filter (Partition.isFused allType graph), partition.InputsOutside := by
  induction partitions generalizing seen pass with
  | nil =>
    cases ran
    rw [List.filter_nil, List.append_nil]
    exact ⟨before, by simp⟩
  | cons partition rest ih =>
    rw [List.foldlM_cons, bind_ok] at ran
    obtain ⟨next, fuses, ran⟩ := ran
    have isWellFormed := wf partition (by simp)
    have wellFormedSeen : ∀ other ∈ seen, other.WellFormed graph := fun other member =>
      wf other (List.mem_append_left _ member)
    have apart : ∀ other ∈ seen, Disjoint other partition := fun other member =>
      (List.pairwise_append.1 disjoint).2.2 other member partition List.mem_cons_self
    by_cases worth : partition.isFused allType graph = true
    · have outside := before.inputsOutside isWellFormed wellFormedSeen apart worth fuses
      obtain ⟨next', fuses', after⟩ := before.fuse isWellFormed wellFormedSeen apart worth outside
      rw [fuses] at fuses'
      cases fuses'
      rw [List.append_cons] at wf disjoint
      obtain ⟨fused, allOutside⟩ := ih after wf disjoint ran
      simp_all
    · rw [before.skip isWellFormed (by simpa using worth)] at fuses
      grind

theorem Fused.exists_fold {seen : List Partition} {pass : Pass} (before : Fused graph seen pass)
    (wf : ∀ partition ∈ seen ++ partitions, partition.WellFormed graph)
    (disjoint : (seen ++ partitions).Pairwise Disjoint)
    (outside : ∀ partition ∈ partitions.filter (Partition.isFused allType graph), partition.InputsOutside) :
    ∃ pass', partitions.foldlM (fun pass => pass.fuseFwPartitionWithLLGA allType) pass = .ok pass' := by
  induction partitions generalizing seen pass with
  | nil => exact ⟨pass, rfl⟩
  | cons partition rest ih =>
    have isWellFormed := wf partition (by simp)
    have wellFormedSeen : ∀ other ∈ seen, other.WellFormed graph := fun other member =>
      wf other (List.mem_append_left _ member)
    have apart : ∀ other ∈ seen, Disjoint other partition := fun other member =>
      (List.pairwise_append.1 disjoint).2.2 other member partition List.mem_cons_self
    rw [List.foldlM_cons]
    by_cases worth : partition.isFused allType graph = true
    · rw [List.filter_cons_of_pos worth] at outside
      obtain ⟨next, fuses, after⟩ :=
        before.fuse isWellFormed wellFormedSeen apart worth (outside partition List.mem_cons_self)
      rw [List.append_cons] at wf disjoint
      obtain ⟨pass', ran⟩ := ih after wf disjoint fun other member =>
        outside other (List.mem_cons_of_mem _ member)
      exact ⟨pass', bind_ok.2 ⟨next, fuses, ran⟩⟩
    · rw [List.filter_cons_of_neg worth] at outside
      have smaller : (seen ++ rest).Sublist (seen ++ partition :: rest) :=
        (List.append_sublist_append_left seen).2 (List.sublist_cons_self ..)
      obtain ⟨pass', ran⟩ := ih before
        (fun other member => wf other (smaller.mem member)) (disjoint.sublist smaller) outside
      exact ⟨pass', bind_ok.2 ⟨pass, before.skip isWellFormed (by simpa using worth), ran⟩⟩

/-- The partitions that become nodes. -/
def fusedPartitions (allType : Bool) (graph : OpGraph) (partitions : List Partition) : List Partition :=
  (partitions.filter Partition.isSupported).filter (Partition.isFused allType graph)

theorem fusedPartitions_sublist (partitions : List Partition) :
    (fusedPartitions allType graph partitions).Sublist partitions :=
  List.filter_sublist.trans List.filter_sublist

theorem fusePartitions_fused {pass : Pass} (wf : ∀ partition ∈ partitions, partition.WellFormed graph)
    (disjoint : partitions.Pairwise Disjoint) (ran : fusePartitions allType graph partitions = .ok pass) :
    Fused graph (fusedPartitions allType graph partitions) pass ∧
      ∀ partition ∈ fusedPartitions allType graph partitions, partition.InputsOutside :=
  (Fused.start graph).fold (fun partition member => wf partition (List.mem_of_mem_filter member))
    (disjoint.sublist List.filter_sublist) ran

theorem fusePartitions_returns
    (wf : ∀ partition ∈ partitions, partition.WellFormed graph) (disjoint : partitions.Pairwise Disjoint)
    (outside : ∀ partition ∈ fusedPartitions allType graph partitions, partition.InputsOutside) :
    ∃ pass, fusePartitions allType graph partitions = .ok pass :=
  (Fused.start graph).exists_fold (fun partition member => wf partition (List.mem_of_mem_filter member))
    (disjoint.sublist List.filter_sublist) outside

end Run

end Itex.OneDnnGraph
