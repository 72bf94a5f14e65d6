import Itex.Lib.Contraction
import Itex.OneDnnGraph.FusionEdges

/-!
Contract: what fusing partitions leaves of a graph.

Owns: the edges of the rewritten graph in terms of the one before, when the last deletion
succeeds, and when the rewritten graph has no cycle.

Does not own: which partitions oneDNN makes. What is assumed of them is `Partition.Made`
and `Partition.Reports`.
-/

namespace Itex.OneDnnGraph

open Itex.Graph
open Itex.Lib
open Relation

variable {a index place : Nat} {node : Node} {partition : Partition} {tensor : TensorRef}

/-! ## Edges of the rewritten graph -/

def Stays (fused : List Partition) (node : Nat) : Prop := ∀ partition ∈ fused, node ∉ partition.ops

/-- The data inputs of a node of the rewritten graph, as the old graph has them. -/
def Reads (graph : OpGraph) (fused : List Partition) (index : Nat) (tensor : TensorRef) : Prop :=
  (Stays fused index ∧ ∃ node, graph[index]? = some node ∧ tensor ∈ node.regularFanins) ∨
  ∃ place partition, fused[place]? = some partition ∧ index = graph.length + place ∧ tensor ∈ partition.inputs

/-- The control inputs of a node of the rewritten graph, as the old graph has them. -/
def ControlledBy (graph : OpGraph) (fused : List Partition) (index fanin : Nat) : Prop :=
  (Stays fused index ∧ ∃ node, graph[index]? = some node ∧ fanin ∈ node.controllingFanins) ∨
  ∃ place partition, fused[place]? = some partition ∧ index = graph.length + place ∧
    ∃ op ∈ partition.ops, ∃ node, graph[op]? = some node ∧ fanin ∈ node.controllingFanins ∧ fanin ∉ partition.ops

/-- The node whose output stands for a tensor. -/
def standIn (size : Nat) (fused : List Partition) (tensor : TensorRef) : Nat :=
  match fused.findIdx? fun partition => partition.outputs.contains tensor with
  | some place => size + place
  | none => tensor.node

section Edges

variable {graph : OpGraph} {fused : List Partition} {pass : Pass}

theorem standIn_of_mem (wf : ∀ partition ∈ fused, partition.WellFormed graph)
    (disjoint : fused.Pairwise Disjoint) {size : Nat}
    (atPlace : fused[place]? = some partition) (isOutput : tensor ∈ partition.outputs) :
    standIn size fused tensor = size + place := by
  unfold standIn
  have inside := (wf partition (List.mem_of_getElem? atPlace)).outputsInside tensor isOutput
  cases found : fused.findIdx? (fun partition => partition.outputs.contains tensor) with
  | none =>
    have missing := List.findIdx?_eq_none_iff.1 found partition (List.mem_of_getElem? atPlace)
    simp [isOutput] at missing
  | some other =>
    obtain ⟨bound, holds, _⟩ := List.findIdx?_eq_some_iff_getElem.1 found
    have atOther := List.getElem?_eq_getElem bound
    have inside' := (wf fused[other] (List.mem_of_getElem? atOther)).outputsInside tensor
      (by simpa using holds)
    rw [place_unique disjoint atPlace atOther inside inside']

theorem standIn_of_not_mem {size : Nat}
    (noOutput : ∀ partition ∈ fused, tensor ∉ partition.outputs) : standIn size fused tensor = tensor.node := by
  unfold standIn
  grind

theorem Stands.node_eq (wf : ∀ partition ∈ fused, partition.WellFormed graph)
    (disjoint : fused.Pairwise Disjoint) {now : TensorRef} (stays : Stays fused index)
    (stands : Stands graph.length fused index tensor now) : now.node = standIn graph.length fused tensor := by
  rcases stands with ⟨place, partition, atPlace, isOutput, _, isNow⟩ | ⟨same, kept⟩
  · rw [standIn_of_mem wf disjoint atPlace isOutput, isNow]
  · rw [standIn_of_not_mem, same]
    intro partition member isOutput
    exact stays partition member (kept partition member isOutput)

theorem Controls.eq_rep (disjoint : fused.Pairwise Disjoint) {fanin now : Nat} (stays : Stays fused index) :
    Controls graph.length fused index fanin now ↔ rep graph.length fused fanin = now := by
  by_cases inside : ∃ partition ∈ fused, fanin ∈ partition.ops
  · obtain ⟨partition, member, isOp⟩ := inside
    obtain ⟨place, atPlace⟩ := List.mem_iff_getElem?.1 member
    rw [rep_of_mem disjoint atPlace isOp]
    constructor
    · rintro (⟨place', other, atPlace', isOp', _, isNow⟩ | ⟨_, kept⟩)
      · rw [isNow, place_unique disjoint atPlace atPlace' isOp isOp']
      · exact absurd (kept partition member isOp) (stays partition member)
    · intro isNow
      exact .inl ⟨place, partition, atPlace, isOp, stays partition member, isNow.symm⟩
  · have outside : ∀ partition ∈ fused, fanin ∉ partition.ops := fun partition member isOp =>
      inside ⟨partition, member, isOp⟩
    rw [rep_of_not_mem outside]
    constructor
    · rintro (⟨place, other, atPlace, isOp, _⟩ | ⟨same, _⟩)
      · exact absurd isOp (outside other (List.mem_of_getElem? atPlace))
      · exact same.symm
    · intro same
      exact .inr ⟨same.symm, fun partition member isOp => absurd isOp (outside partition member)⟩

theorem mem_map_node_iff (wf : ∀ partition ∈ fused, partition.WellFormed graph)
    (disjoint : fused.Pairwise Disjoint) {fanins fanins' : List TensorRef}
    (stays : Stays fused index) (stands : List.Forall₂ (Stands graph.length fused index) fanins fanins') :
    a ∈ fanins'.map TensorRef.node ↔ ∃ tensor ∈ fanins, standIn graph.length fused tensor = a := by
  rw [List.mem_map]
  constructor
  · rintro ⟨now, member, isA⟩
    obtain ⟨tensor, isFanin, related⟩ := exists_of_forall₂_of_mem_right stands member
    exact ⟨tensor, isFanin, (related.node_eq wf disjoint stays).symm.trans isA⟩
  · rintro ⟨tensor, member, isA⟩
    obtain ⟨now, isFanin, related⟩ := exists_of_forall₂_of_mem_left stands member
    exact ⟨now, isFanin, (related.node_eq wf disjoint stays).trans isA⟩

theorem Stays.of_new (wf : ∀ partition ∈ fused, partition.WellFormed graph) (place : Nat) :
    Stays fused (graph.length + place) := by
  intro partition member inside
  have := (wf partition member).inGraph _ inside
  omega

theorem reads_old_iff (stays : Stays fused index) (atIndex : graph[index]? = some node)
    (tensor : TensorRef) : Reads graph fused index tensor ↔ tensor ∈ node.regularFanins := by
  have bound := read_lt atIndex
  constructor
  · rintro (⟨_, found, atFound, member⟩ | ⟨place, _, _, isNew, _⟩)
    · rw [atIndex] at atFound
      cases atFound
      exact member
    · omega
  · intro member
    exact .inl ⟨stays, node, atIndex, member⟩

theorem controlledBy_old_iff (stays : Stays fused index) (atIndex : graph[index]? = some node) (fanin : Nat) :
    ControlledBy graph fused index fanin ↔ fanin ∈ node.controllingFanins := by
  have bound := read_lt atIndex
  constructor
  · rintro (⟨_, found, atFound, member⟩ | ⟨place, _, _, isNew, _⟩)
    · rw [atIndex] at atFound
      cases atFound
      exact member
    · omega
  · intro member
    exact .inl ⟨stays, node, atIndex, member⟩

theorem old_or_new {old : Prop} {new : Partition → Prop}
    (atPlace : fused[place]? = some partition) (isIndex : index = graph.length + place)
    (notOld : old → index < graph.length) :
    (old ∨ ∃ place partition, fused[place]? = some partition ∧ index = graph.length + place ∧ new partition) ↔
      new partition := by
  constructor
  · grind
  · intro holds
    exact .inr ⟨place, partition, atPlace, isIndex, holds⟩

theorem reads_new_iff (atPlace : fused[place]? = some partition)
    (tensor : TensorRef) : Reads graph fused (graph.length + place) tensor ↔ tensor ∈ partition.inputs := by
  apply old_or_new atPlace rfl
  rintro ⟨_, node, atNode, _⟩
  exact read_lt atNode

theorem controlledBy_new_iff (atPlace : fused[place]? = some partition)
    (fanin : Nat) : ControlledBy graph fused (graph.length + place) fanin ↔
      ∃ op ∈ partition.ops, ∃ node, graph[op]? = some node ∧ fanin ∈ node.controllingFanins ∧
        fanin ∉ partition.ops := by
  apply old_or_new atPlace rfl
  rintro ⟨_, node, atNode, _⟩
  exact read_lt atNode

theorem feedsNode_of_some {rewritten : OpGraph}
    (atIndex : rewritten[index]? = some node) : FeedsNode rewritten a index ↔
      a ∈ node.regularFanins.map TensorRef.node ∨ a ∈ node.controllingFanins := by
  unfold FeedsNode
  rw [atIndex]
  simp

theorem Fused.feedsNode_iff (done : Fused graph fused pass)
    (wf : ∀ partition ∈ fused, partition.WellFormed graph) (disjoint : fused.Pairwise Disjoint)
    (stays : Stays fused index) : FeedsNode pass.graph a index ↔
      (∃ tensor, Reads graph fused index tensor ∧ standIn graph.length fused tensor = a) ∨
      ∃ fanin, ControlledBy graph fused index fanin ∧ rep graph.length fused fanin = a := by
  by_cases isOld : index < graph.length
  · have atIndex : graph[index]? = some graph[index] := List.getElem?_eq_getElem isOld
    obtain ⟨node', atIndex', _, _, regular, controls⟩ := done.old index _ atIndex
    rw [feedsNode_of_some atIndex', mem_map_node_iff wf disjoint stays regular, controls]
    simp only [reads_old_iff stays atIndex, controlledBy_old_iff stays atIndex, Controls.eq_rep disjoint stays]
  by_cases isNew : index - graph.length < fused.length
  · have isIndex : index = graph.length + (index - graph.length) := by omega
    generalize index - graph.length = place at isIndex isNew
    have atPlace : fused[place]? = some fused[place] := List.getElem?_eq_getElem isNew
    obtain ⟨node', atIndex', regular, controls⟩ := done.new place _ atPlace
    rw [isIndex] at stays ⊢
    rw [feedsNode_of_some atIndex', mem_map_node_iff wf disjoint stays regular, controls]
    simp only [reads_new_iff atPlace, controlledBy_new_iff atPlace, Controls.eq_rep disjoint stays]
    apply or_congr_right
    constructor
    · rintro ⟨op, isOp, node, atOp, fanin, isFanin, notOp, isA⟩
      exact ⟨fanin, ⟨op, isOp, node, atOp, isFanin, notOp⟩, isA⟩
    · rintro ⟨fanin, ⟨op, isOp, node, atOp, isFanin, notOp⟩, isA⟩
      exact ⟨op, isOp, node, atOp, fanin, isFanin, notOp, isA⟩
  · have tooLarge : pass.graph[index]? = none := by
      rw [List.getElem?_eq_none_iff, done.length]
      omega
    have notOld : ∀ node, graph[index]? ≠ some node := fun node atNode =>
      isOld (read_lt atNode)
    have notNew : ∀ place partition, fused[place]? = some partition → index ≠ graph.length + place := by
      intro place partition atPlace isIndex
      have := read_lt atPlace
      omega
    constructor
    · rintro ⟨_, isSome, _⟩
      rw [tooLarge] at isSome
      cases isSome
    · rintro (⟨_, ⟨_, node, atNode, _⟩ | ⟨place, partition, atPlace, isIndex, _⟩, _⟩ |
        ⟨_, ⟨_, node, atNode, _⟩ | ⟨place, partition, atPlace, isIndex, _⟩, _⟩)
      · exact absurd atNode (notOld node)
      · exact absurd isIndex (notNew place partition atPlace)
      · exact absurd atNode (notOld node)
      · exact absurd isIndex (notNew place partition atPlace)

/-! ## Deletion -/

/-- No node that stays has a deleted one as an input. -/
def Pass.NoneStranded (pass : Pass) : Prop :=
  ∀ index node, pass.graph[index]? = some node → index ∉ pass.nodesToDelete →
    (∀ fanin ∈ node.regularFanins, fanin.node ∉ pass.nodesToDelete) ∧
      ∀ fanin ∈ node.controllingFanins, fanin ∉ pass.nodesToDelete

theorem Pass.strands_eq_true : pass.strands index = true ↔
    ∃ node, pass.graph[index]? = some node ∧ index ∉ pass.nodesToDelete ∧
      ((∃ fanin ∈ node.regularFanins, fanin.node ∈ pass.nodesToDelete) ∨
        ∃ fanin ∈ node.controllingFanins, fanin ∈ pass.nodesToDelete) := by
  unfold Pass.strands
  cases pass.graph[index]? <;> simp

theorem Pass.removeNodes_eq_ok {pass' : Pass} : pass.removeNodes = .ok pass' ↔ pass' = pass ∧ pass.NoneStranded := by
  unfold Pass.removeNodes
  by_cases stranded : (List.range pass.graph.length).any pass.strands = true
  · rw [if_pos stranded]
    constructor
    · intro ran
      cases ran
    · rintro ⟨_, none⟩
      obtain ⟨index, _, strands⟩ := List.any_eq_true.1 stranded
      obtain ⟨node, atIndex, stays, ⟨fanin, member, deleted⟩ | ⟨fanin, member, deleted⟩⟩ :=
        Pass.strands_eq_true.1 strands
      · exact absurd deleted ((none index node atIndex stays).1 fanin member)
      · exact absurd deleted ((none index node atIndex stays).2 fanin member)
  · rw [if_neg stranded]
    have none : pass.NoneStranded := by
      intro index node atIndex stays
      have notStranded : ¬ pass.strands index = true := by
        intro strands
        have bound := read_lt atIndex
        exact stranded (List.any_eq_true.2 ⟨index, List.mem_range.2 bound, strands⟩)
      rw [Pass.strands_eq_true] at notStranded
      simp_all
    constructor
    · intro ran
      cases ran
      exact ⟨rfl, none⟩
    · rintro ⟨same, _⟩
      rw [same]

theorem Pass.noneStranded_iff : pass.NoneStranded ↔
    ∀ a index, index ∉ pass.nodesToDelete → FeedsNode pass.graph a index → a ∉ pass.nodesToDelete := by
  constructor
  · rintro none a index stays ⟨node, atIndex, member | member⟩
    · obtain ⟨fanin, isFanin, isNode⟩ := List.mem_map.1 member
      rw [← isNode]
      exact (none index node atIndex stays).1 fanin isFanin
    · exact (none index node atIndex stays).2 a member
  · intro kept index node atIndex stays
    constructor
    · intro fanin member
      exact kept fanin.node index stays ⟨node, atIndex, .inl (List.mem_map_of_mem member)⟩
    · intro fanin member
      exact kept fanin index stays ⟨node, atIndex, .inr member⟩

/-- Every output of a fused op that is read from outside its partition is an output of the
partition. -/
def Reported (graph : OpGraph) (fused : List Partition) : Prop :=
  ∀ partition ∈ fused, ∀ tensor : TensorRef, tensor.node ∈ partition.ops →
    ∀ index, Reads graph fused index tensor → tensor ∈ partition.outputs

theorem Fused.mem_nodesToDelete (done : Fused graph fused pass) {node : Nat} :
    node ∉ pass.nodesToDelete ↔ Stays fused node := by
  rw [done.nodesToDelete, List.mem_flatMap]
  constructor
  · intro none partition member inside
    exact none ⟨partition, member, inside⟩
  · rintro stays ⟨partition, member, inside⟩
    exact stays partition member inside

section

variable (wf : ∀ partition ∈ fused, partition.WellFormed graph)

include wf

theorem rep_stays (disjoint : fused.Pairwise Disjoint) (node : Nat) : Stays fused (rep graph.length fused node) := by
  by_cases inside : ∃ partition ∈ fused, node ∈ partition.ops
  · obtain ⟨partition, member, isOp⟩ := inside
    obtain ⟨place, atPlace⟩ := List.mem_iff_getElem?.1 member
    rw [rep_of_mem disjoint atPlace isOp]
    exact Stays.of_new wf place
  · have stays : Stays fused node := fun partition member isOp => inside ⟨partition, member, isOp⟩
    rwa [rep_of_not_mem stays]

theorem standIn_eq_rep (disjoint : fused.Pairwise Disjoint)
    (reported : ∀ partition ∈ fused, tensor.node ∈ partition.ops → tensor ∈ partition.outputs) :
    standIn graph.length fused tensor = rep graph.length fused tensor.node := by
  by_cases inside : ∃ partition ∈ fused, tensor.node ∈ partition.ops
  · obtain ⟨partition, member, isOp⟩ := inside
    obtain ⟨place, atPlace⟩ := List.mem_iff_getElem?.1 member
    rw [rep_of_mem disjoint atPlace isOp, standIn_of_mem wf disjoint atPlace (reported partition member isOp)]
  · rw [rep_of_not_mem fun partition member isOp => inside ⟨partition, member, isOp⟩, standIn_of_not_mem]
    intro partition member isOutput
    exact inside ⟨partition, member, (wf partition member).outputsInside tensor isOutput⟩

theorem Reads.stays (reads : Reads graph fused index tensor) : Stays fused index := by
  rcases reads with ⟨stays, _⟩ | ⟨place, _, _, isIndex, _⟩
  · exact stays
  · rw [isIndex]
    exact Stays.of_new wf place

end

theorem Fused.noneStranded_iff_reported (done : Fused graph fused pass)
    (wf : ∀ partition ∈ fused, partition.WellFormed graph) (disjoint : fused.Pairwise Disjoint) :
    pass.NoneStranded ↔ Reported graph fused := by
  rw [Pass.noneStranded_iff]
  constructor
  · intro kept partition member tensor inside index reads
    by_contra notOutput
    have isDeleted : ¬ Stays fused tensor.node := fun stays => stays partition member inside
    have stays := reads.stays wf
    have noOutput : ∀ other ∈ fused, tensor ∉ other.outputs := by
      intro other isFused isOutput
      obtain ⟨i, atI⟩ := List.mem_iff_getElem?.1 member
      obtain ⟨j, atJ⟩ := List.mem_iff_getElem?.1 isFused
      have same := place_unique disjoint atI atJ inside
        ((wf other isFused).outputsInside tensor isOutput)
      rw [same, atJ] at atI
      cases atI
      exact notOutput isOutput
    have feeds : FeedsNode pass.graph tensor.node index :=
      (done.feedsNode_iff wf disjoint stays).2 (.inl ⟨tensor, reads, standIn_of_not_mem noOutput⟩)
    exact isDeleted (done.mem_nodesToDelete.1 (kept _ _ (done.mem_nodesToDelete.2 stays) feeds))
  · intro reported a index stays feeds
    rw [done.mem_nodesToDelete] at stays ⊢
    rcases (done.feedsNode_iff wf disjoint stays).1 feeds with
      ⟨tensor, reads, isA⟩ | ⟨fanin, _, isA⟩
    · rw [standIn_eq_rep wf disjoint fun partition member inside =>
        reported partition member tensor inside index reads] at isA
      rw [← isA]
      exact rep_stays wf disjoint _
    · rw [← isA]
      exact rep_stays wf disjoint _

end Edges

/-! ## Partitions of a selection -/

/-- What oneDNN makes of the ops it was given: partitions of ops that were translated, which
have as inputs what their ops consume, and as outputs what these produce. -/
structure Partition.Made (selection : Selection) (partition : Partition) : Prop where
  translated : ∀ op ∈ partition.ops, op ∈ selection.rewriteNodes
  inputsRead : ∀ tensor ∈ partition.inputs, ∃ op ∈ selection.given, op.index ∈ partition.ops ∧ tensor ∈ op.inputs
  outputsMade : ∀ tensor ∈ partition.outputs, ∃ op ∈ selection.given, op.index ∈ partition.ops ∧ tensor ∈ op.outputs

/-- What an op inside the partition produces and one outside consumes is an output. -/
def Partition.Reports (selection : Selection) (partition : Partition) : Prop :=
  ∀ producer ∈ selection.given, producer.index ∈ partition.ops → ∀ tensor ∈ producer.outputs,
    ∀ consumer ∈ selection.given, consumer.index ∉ partition.ops → tensor ∈ consumer.inputs →
      tensor ∈ partition.outputs

instance (selection : Selection) (partition : Partition) : Decidable (partition.Reports selection) :=
  inferInstanceAs (Decidable (∀ producer ∈ selection.given, _))

/-- oneDNN knows the tensor, as an output of its op and as an input of the node. -/
def Selection.Shows (selection : Selection) (tensor : TensorRef) (index : Nat) : Prop :=
  (∃ producer ∈ selection.given, tensor ∈ producer.outputs) ∧
    ∃ consumer ∈ selection.given, consumer.index = index ∧ tensor ∈ consumer.inputs

theorem Partition.Made.wellFormed {graph : OpGraph} {selection : Selection}
    (sound : selection.Sound graph) (made : partition.Made selection) : partition.WellFormed graph where
  inGraph := fun op member => sound.rewritten op (made.translated op member)
  inputsRead := by
    intro tensor member
    obtain ⟨op, isGiven, inside, isInput⟩ := made.inputsRead tensor member
    obtain ⟨node, atIndex, inputs, _⟩ := sound.given op isGiven
    exact ⟨op.index, inside, node, atIndex, inputs tensor isInput⟩
  outputsInside := by
    intro tensor member
    obtain ⟨op, isGiven, inside, isOutput⟩ := made.outputsMade tensor member
    obtain ⟨_, _, _, outputs⟩ := sound.given op isGiven
    rwa [outputs tensor isOutput]

theorem Partition.Reports.mem_outputs {graph : OpGraph} {selection : Selection}
    (sound : selection.Sound graph) (reports : partition.Reports selection)
    (inside : tensor.node ∈ partition.ops) (outside : index ∉ partition.ops)
    (shows_ : selection.Shows tensor index) : tensor ∈ partition.outputs := by
  obtain ⟨⟨producer, isGiven, isOutput⟩, consumer, isGiven', isIndex, isInput⟩ := shows_
  obtain ⟨_, _, _, outputs⟩ := sound.given producer isGiven
  rw [outputs tensor isOutput] at inside
  rw [← isIndex] at outside
  exact reports producer isGiven inside tensor isOutput consumer isGiven' outside isInput

section Strands

variable {ctx : Context} {selection : Selection} {partitions : List Partition}

/-- The pass deletes what it fused and strands nothing, exactly if no partition reads a port
of its own ops, and every port of a fused op that is read from outside is one that oneDNN
was shown with its reader, or else an output of the partition. -/
theorem runRewritePass_strands_none_iff (selects : ctx.select = .ok selection)
    (made : ∀ partition ∈ partitions, partition.Made selection) (disjoint : partitions.Pairwise Disjoint)
    (reports : ∀ partition ∈ partitions, partition.Reports selection) :
    (∃ pass, fusePartitions ctx.allType ctx.graph partitions = .ok pass ∧ pass.NoneStranded ∧
        pass.removeNodes = .ok pass) ↔
      (∀ partition ∈ fusedPartitions ctx.allType ctx.graph partitions, partition.InputsOutside) ∧
      ∀ partition ∈ fusedPartitions ctx.allType ctx.graph partitions, ∀ tensor : TensorRef,
        tensor.node ∈ partition.ops → (∀ reader node, ctx.graph[reader]? = some node →
          Stays (fusedPartitions ctx.allType ctx.graph partitions) reader → tensor ∈ node.regularFanins →
            selection.Shows tensor reader ∨ tensor ∈ partition.outputs) ∧
        ∀ other ∈ fusedPartitions ctx.allType ctx.graph partitions, tensor ∈ other.inputs →
          (∃ reader ∈ other.ops, selection.Shows tensor reader) ∨ tensor ∈ partition.outputs := by
  have sound := Context.select_sound selects
  have wellFormed : ∀ partition ∈ partitions, partition.WellFormed ctx.graph := fun partition member =>
    (made partition member).wellFormed sound
  have sublist := @fusedPartitions_sublist ctx.allType ctx.graph partitions
  generalize isFused : fusedPartitions ctx.allType ctx.graph partitions = fused at sublist ⊢
  have wellFormedFused : ∀ partition ∈ fused, partition.WellFormed ctx.graph := fun partition member =>
    wellFormed partition (sublist.mem member)
  have disjointFused := disjoint.sublist sublist
  constructor
  · rintro ⟨pass, returned, none, _⟩
    obtain ⟨done, outside⟩ := fusePartitions_fused wellFormed disjoint returned
    rw [isFused] at done outside
    have reported := (done.noneStranded_iff_reported wellFormedFused disjointFused).1 none
    refine ⟨outside, ?_⟩
    intro partition member tensor inside
    constructor
    · intro reader node atReader stays isFanin
      exact .inr (reported partition member tensor inside reader (.inl ⟨stays, node, atReader, isFanin⟩))
    · intro other isOther isInput
      obtain ⟨place, atPlace⟩ := List.mem_iff_getElem?.1 isOther
      exact .inr (reported partition member tensor inside _ (.inr ⟨place, other, atPlace, rfl, isInput⟩))
  · rintro ⟨outside, shown⟩
    obtain ⟨pass, returned⟩ := fusePartitions_returns wellFormed disjoint (by rwa [isFused])
    obtain ⟨done, _⟩ := fusePartitions_fused wellFormed disjoint returned
    rw [isFused] at done
    have reported : Reported ctx.graph fused := by
      intro partition member tensor inside index reads
      have isReporting := reports partition (sublist.mem member)
      obtain ⟨byStaying, byFused⟩ := shown partition member tensor inside
      rcases reads with ⟨stays, node, atIndex, isFanin⟩ | ⟨place, other, atPlace, _, isInput⟩
      · rcases byStaying index node atIndex stays isFanin with shows_ | isOutput
        · exact isReporting.mem_outputs sound inside (stays partition member) shows_
        · exact isOutput
      · have isOther := List.mem_of_getElem? atPlace
        rcases byFused other isOther isInput with ⟨reader, isReader, shows_⟩ | isOutput
        · apply isReporting.mem_outputs sound inside _ shows_
          -- A reader in the same partition would make the tensor an input of its own op.
          intro isReader'
          obtain ⟨i, atI⟩ := List.mem_iff_getElem?.1 member
          have same := place_unique disjointFused atPlace atI isReader isReader'
          rw [same, atI] at atPlace
          cases atPlace
          exact outside partition member tensor isInput inside
        · exact isOutput
    have none := (done.noneStranded_iff_reported wellFormedFused disjointFused).2 reported
    exact ⟨pass, returned, none, Pass.removeNodes_eq_ok.2 ⟨rfl, none⟩⟩

end Strands

def onCpu (op : String) (regularFanins : List TensorRef) : Node :=
  { op := op, deviceType := some "CPU", isOnCpu := true, regularFanins := regularFanins }

/-- `QuantizeV2` of a placeholder, and the `Dequantize` of its result. -/
def quantized : OpGraph := [onCpu "Placeholder" [], onCpu "Const" [], onCpu "Const" [],
  onCpu "QuantizeV2" [⟨0, 0⟩, ⟨1, 0⟩, ⟨2, 0⟩],
  onCpu "Dequantize" [⟨3, 0⟩, ⟨3, 1⟩, ⟨3, 2⟩],
  onCpu "Identity" [⟨4, 0⟩]]

/-- The same with a node that reads the minimum of the range. -/
def quantizedWithRange : OpGraph := quantized ++ [onCpu "Identity" [⟨3, 1⟩]]

/-- Only the two ops are in the translation map. -/
def quantizedContext (graph : OpGraph) : Context :=
  { graph := graph, nodesToPreserve := [], allType := false, translates := fun index => index == 3 || index == 4 }

def quantizedSelection : Selection :=
  { given := [⟨3, [⟨0, 0⟩], [⟨3, 0⟩]⟩, ⟨4, [⟨3, 0⟩], [⟨4, 0⟩]⟩, ⟨0, [], [⟨0, 0⟩]⟩, ⟨5, [⟨4, 0⟩], []⟩]
    wildcardNodes := [0, 4, 3, 5]
    rewriteNodes := [3, 4] }

def quantizedPartitions : List Partition := [{ ops := [3], inputs := [⟨0, 0⟩], outputs := [⟨3, 0⟩] },
  { ops := [4], inputs := [⟨3, 0⟩], outputs := [⟨4, 0⟩] }]

theorem quantizedPartitions_made : ∀ partition ∈ quantizedPartitions, partition.Made quantizedSelection := by
  intro partition member
  constructor <;> revert member <;> revert partition <;> decide

theorem quantizedPartitions_disjoint : quantizedPartitions.Pairwise Disjoint := by
  unfold quantizedPartitions Disjoint
  decide

theorem quantizedPartitions_report : ∀ partition ∈ quantizedPartitions, partition.Reports quantizedSelection := by
  decide

theorem quantized_fusedPartitions : fusedPartitions (quantizedContext quantized).allType
    (quantizedContext quantized).graph quantizedPartitions = quantizedPartitions := by
  decide

theorem quantized_readers : ∀ partition ∈ quantizedPartitions, ∀ reader ∈ List.range 6,
    ∀ node ∈ quantized[reader]?.toList, ∀ tensor ∈ node.regularFanins, tensor.node ∈ partition.ops →
      reader ∈ quantizedPartitions.flatMap Partition.ops ∨ tensor ∈ partition.outputs := by
  decide

theorem quantized_strands_none : ∃ pass, fusePartitions false quantized quantizedPartitions = .ok pass ∧
    pass.NoneStranded ∧ pass.removeNodes = .ok pass := by
  have selects : (quantizedContext quantized).select = .ok quantizedSelection := by decide
  apply (runRewritePass_strands_none_iff selects quantizedPartitions_made quantizedPartitions_disjoint
    quantizedPartitions_report).2
  rw [quantized_fusedPartitions]
  constructor
  · unfold Partition.InputsOutside
    decide
  · intro partition member tensor inside
    constructor
    · intro reader node atReader stays isFanin
      have bound := read_lt atReader
      rcases quantized_readers partition member reader (List.mem_range.2 bound) node
        (Option.mem_toList.2 atReader) tensor isFanin inside with deleted | isOutput
      · obtain ⟨other, isOther, isReader⟩ := List.mem_flatMap.1 deleted
        exact absurd isReader (stays other isOther)
      · exact .inr isOutput
    · have covered : ∀ partition ∈ quantizedPartitions, ∀ other ∈ quantizedPartitions,
          ∀ tensor ∈ other.inputs, tensor.node ∈ partition.ops → tensor ∈ partition.outputs := by decide
      intro other isOther isInput
      exact .inr (covered partition member other isOther tensor isInput inside)

/-- oneDNN knows one output of `QuantizeV2`; a node that reads another one keeps reading the
node that was deleted. -/
theorem rangeReader_stranded : (quantizedContext quantizedWithRange).select = .ok quantizedSelection ∧
      (∀ partition ∈ quantizedPartitions, partition.Made quantizedSelection) ∧ quantizedPartitions.Pairwise Disjoint ∧
      (∀ partition ∈ quantizedPartitions, partition.Reports quantizedSelection) ∧
      ∃ pass, fusePartitions false quantizedWithRange quantizedPartitions = .ok pass ∧
        ¬ pass.NoneStranded ∧ pass.removeNodes = abort "fanout of a removed node" := by
  refine ⟨by decide, quantizedPartitions_made, quantizedPartitions_disjoint, quantizedPartitions_report, ?_⟩
  cases returned : fusePartitions false quantizedWithRange quantizedPartitions with
  | error reason =>
    have fails : (fusePartitions false quantizedWithRange quantizedPartitions).isOk = true := by decide
    rw [returned] at fails
    cases fails
  | ok pass =>
    have fails : runRewritePass false quantizedWithRange quantizedPartitions =
        abort "fanout of a removed node" := by decide
    unfold runRewritePass at fails
    rw [returned] at fails
    refine ⟨pass, rfl, ?_, fails⟩
    intro none
    have succeeds : pass.removeNodes = .ok pass := Pass.removeNodes_eq_ok.2 ⟨rfl, none⟩
    change pass.removeNodes = _ at fails
    rw [succeeds] at fails
    cases fails

end Itex.OneDnnGraph
