import Itex.OneDnnGraph.FusionSafety

/-!
Contract: when fusing partitions closes a cycle.

Owns: the rewritten graph as the old one with the ops of each partition merged, and the
walks of the old graph that become cycles.
-/

namespace Itex.OneDnnGraph

open Itex.Graph
open Itex.Lib
open Relation

/-- Every input of a node is a node of the graph. -/
def InRange (graph : OpGraph) : Prop :=
  ∀ node ∈ graph, (∀ fanin ∈ node.regularFanins, fanin.node < graph.length) ∧
    ∀ fanin ∈ node.controllingFanins, fanin < graph.length

/-- The edges that fusion keeps. A fused op loses the data inputs that oneDNN does not have. -/
def Kept (graph : OpGraph) (fused : List Partition) (u v : Nat) : Prop :=
  ∃ node, graph[v]? = some node ∧ (u ∈ node.controllingFanins ∨ ∃ tensor ∈ node.regularFanins, tensor.node = u ∧
      ∀ partition ∈ fused, v ∈ partition.ops → tensor ∈ partition.inputs)

section Merged

variable {graph : OpGraph} {fused : List Partition} {pass : Pass}

theorem Kept.feedsNode {u v : Nat} (kept : Kept graph fused u v) : FeedsNode graph u v := by
  obtain ⟨node, atV, isControl | ⟨tensor, member, isNode, _⟩⟩ := kept
  · exact ⟨node, atV, .inr isControl⟩
  · exact ⟨node, atV, .inl (List.mem_map.2 ⟨tensor, member, isNode⟩)⟩

theorem FeedsNode.lt (inRange : InRange graph) {u v : Nat} (feeds : FeedsNode graph u v) : u < graph.length := by
  obtain ⟨node, atV, member | member⟩ := feeds
  · obtain ⟨tensor, isFanin, isNode⟩ := List.mem_map.1 member
    rw [← isNode]
    exact (inRange node (List.mem_of_getElem? atV)).1 tensor isFanin
  · exact (inRange node (List.mem_of_getElem? atV)).2 u member

/-- No walk leaves a partition and comes back to it. A walk moves freely between the ops of
one partition. -/
def NoneReturns (graph : OpGraph) (fused : List Partition) : Prop :=
  ∀ partition ∈ fused, ∀ u ∈ partition.ops, ∀ w ∈ partition.ops,
    ¬ TransGen (Leaves (rep graph.length fused) (Kept graph fused)) u w

variable (disjoint : fused.Pairwise Disjoint)

include disjoint

theorem rep_cases (size node : Nat) :
    (Stays fused node ∧ rep size fused node = node) ∨
      ∃ place partition, fused[place]? = some partition ∧ node ∈ partition.ops ∧
        rep size fused node = size + place := by
  by_cases inside : ∃ partition ∈ fused, node ∈ partition.ops
  · obtain ⟨partition, member, isOp⟩ := inside
    obtain ⟨place, atPlace⟩ := List.mem_iff_getElem?.1 member
    exact .inr ⟨place, partition, atPlace, isOp, rep_of_mem disjoint atPlace isOp⟩
  · have stays : Stays fused node := fun partition member isOp => inside ⟨partition, member, isOp⟩
    exact .inl ⟨stays, rep_of_not_mem stays⟩

theorem mem_of_rep_eq {size node place : Nat} {partition : Partition}
    (isOld : node < size) (atPlace : fused[place]? = some partition)
    (isNew : rep size fused node = size + place) : node ∈ partition.ops := by
  rcases rep_cases disjoint size node with ⟨_, same⟩ | ⟨place', other, atPlace', isOp, isRep⟩
  · omega
  · have same : place' = place := by omega
    rw [same, atPlace] at atPlace'
    cases atPlace'
    exact isOp

theorem eq_of_rep_eq {size node other : Nat} (isOld : other < size)
    (isRep : rep size fused node = other) : node = other := by
  rcases rep_cases disjoint size node with ⟨_, same⟩ | ⟨place, _, _, _, isNew⟩
  · rw [← same, isRep]
  · omega

/-- An edge that fusion keeps between two nodes of the rewritten graph is an input there. -/
theorem reads_or_controlledBy {u v : Nat} (kept : Kept graph fused u v)
    (leaves : rep graph.length fused u ≠ rep graph.length fused v) :
    (∃ tensor, Reads graph fused (rep graph.length fused v) tensor ∧ tensor.node = u) ∨
      ControlledBy graph fused (rep graph.length fused v) u := by
  obtain ⟨node, atV, input⟩ := kept
  rcases rep_cases disjoint graph.length v with ⟨stays, same⟩ | ⟨place, partition, atPlace, isOp, isNew⟩
  · rw [same]
    rcases input with isControl | ⟨tensor, member, isNode, _⟩
    · exact .inr (.inl ⟨stays, node, atV, isControl⟩)
    · exact .inl ⟨tensor, .inl ⟨stays, node, atV, member⟩, isNode⟩
  · rw [isNew] at leaves ⊢
    rcases input with isControl | ⟨tensor, _, isNode, isInput⟩
    · have notOp : u ∉ partition.ops := fun inside => leaves (rep_of_mem disjoint atPlace inside)
      exact .inr (.inr ⟨place, partition, atPlace, rfl, v, isOp, node, atV, isControl, notOp⟩)
    · exact .inl ⟨tensor,
        .inr ⟨place, partition, atPlace, rfl, isInput partition (List.mem_of_getElem? atPlace) isOp⟩, isNode⟩

variable (inRange : InRange graph)

include inRange

theorem noneReturns_iff : NoneReturns graph fused ↔
      ∀ u w, ¬ Stays fused u ∨ graph.length ≤ u → rep graph.length fused u = rep graph.length fused w →
        ¬ TransGen (Leaves (rep graph.length fused) (Kept graph fused)) u w := by
  constructor
  · intro none u w notMerged same walk
    -- The first edge starts at a node of the graph, which is merged with `u`.
    obtain ⟨start, next, merged, isEdge, walk⟩ := exists_start_of_leaves walk
    obtain ⟨last, isLast⟩ := exists_end_of_leaves walk
    have startOld := isEdge.feedsNode.lt inRange
    have endOld : w < graph.length := by
      obtain ⟨node, atW, _⟩ := isLast
      exact read_lt atW
    rcases rep_cases disjoint graph.length start with ⟨stays, isStart⟩ | ⟨place, partition, atPlace, isOp, isNew⟩
    · have isU : u = start := eq_of_rep_eq disjoint startOld (merged.symm.trans isStart)
      rcases notMerged with notStays | tooLarge
      · rw [isU] at notStays
        exact notStays stays
      · omega
    · have isEnd : w ∈ partition.ops :=
        mem_of_rep_eq disjoint endOld atPlace (same.symm.trans (merged.symm.trans isNew))
      exact none partition (List.mem_of_getElem? atPlace) start isOp w isEnd walk
  · intro none partition member u isU w isW
    obtain ⟨place, atPlace⟩ := List.mem_iff_getElem?.1 member
    apply none u w (.inl fun stays => stays partition member isU)
    rw [rep_of_mem disjoint atPlace isU, rep_of_mem disjoint atPlace isW]

variable (acyclic : Acyclic (FeedsNode graph))

include acyclic

theorem contracted_of_controlledBy {index fanin : Nat} (controlled : ControlledBy graph fused index fanin) :
    Contracted (rep graph.length fused) (Kept graph fused) (rep graph.length fused fanin) index := by
  rcases controlled with ⟨stays, node, atIndex, member⟩ |
    ⟨place, partition, atPlace, isIndex, op, isOp, node, atOp, isFanin, notOp⟩
  · have bound := read_lt atIndex
    have kept : Kept graph fused fanin index := ⟨node, atIndex, .inl member⟩
    refine ⟨fanin, index, rfl, rep_of_not_mem stays, ?_, kept⟩
    intro same
    rw [eq_of_rep_eq disjoint bound same] at kept
    exact acyclic index (.single kept.feedsNode)
  · have kept : Kept graph fused fanin op := ⟨node, atOp, .inl isFanin⟩
    refine ⟨fanin, op, rfl, ?_, ?_, kept⟩
    · rw [isIndex, rep_of_mem disjoint atPlace isOp]
    · intro same
      rw [isIndex] at same
      exact notOp (mem_of_rep_eq disjoint (kept.feedsNode.lt inRange) atPlace same)

variable (wf : ∀ partition ∈ fused, partition.WellFormed graph) (outside : ∀ partition ∈ fused, partition.InputsOutside)

include wf outside

/-- The data edges of the rewritten graph. -/
theorem contracted_of_reads {index : Nat} {tensor : TensorRef} (reads : Reads graph fused index tensor) :
    Contracted (rep graph.length fused) (Kept graph fused) (rep graph.length fused tensor.node) index := by
  rcases reads with ⟨stays, node, atIndex, member⟩ | ⟨place, partition, atPlace, isIndex, member⟩
  · have bound := read_lt atIndex
    have kept : Kept graph fused tensor.node index := ⟨node, atIndex, .inr ⟨tensor, member, rfl,
      fun partition isFused inside => absurd inside (stays partition isFused)⟩⟩
    refine ⟨tensor.node, index, rfl, rep_of_not_mem stays, ?_, kept⟩
    intro same
    rw [eq_of_rep_eq disjoint bound same] at kept
    exact acyclic index (.single kept.feedsNode)
  · have isFused := List.mem_of_getElem? atPlace
    obtain ⟨op, isOp, node, atOp, isFanin⟩ := (wf partition isFused).inputsRead tensor member
    have kept : Kept graph fused tensor.node op := by
      refine ⟨node, atOp, .inr ⟨tensor, isFanin, rfl, ?_⟩⟩
      intro other isOther isOp'
      obtain ⟨place', atPlace'⟩ := List.mem_iff_getElem?.1 isOther
      rw [place_unique disjoint atPlace atPlace' isOp isOp', atPlace'] at atPlace
      cases atPlace
      exact member
    refine ⟨tensor.node, op, rfl, ?_, ?_, kept⟩
    · rw [isIndex, rep_of_mem disjoint atPlace isOp]
    · intro same
      rw [isIndex] at same
      exact outside partition isFused tensor member
        (mem_of_rep_eq disjoint (kept.feedsNode.lt inRange) atPlace same)

variable (done : Fused graph fused pass) (none : pass.NoneStranded)

include done none

/-- The rewritten graph is the old one with the ops of each partition merged. -/
theorem Fused.feeds_iff_contracted (a b : Nat) :
    pass.Feeds a b ↔ Contracted (rep graph.length fused) (Kept graph fused) a b := by
  have reported := (done.noneStranded_iff_reported wf disjoint).1 none
  have standsAs : ∀ {index tensor}, Reads graph fused index tensor →
      standIn graph.length fused tensor = rep graph.length fused tensor.node := fun {index tensor} reads =>
    standIn_eq_rep wf disjoint fun partition member inside =>
      reported partition member tensor inside index reads
  unfold Pass.Feeds
  rw [done.mem_nodesToDelete, done.mem_nodesToDelete]
  constructor
  · rintro ⟨_, stays, feeds⟩
    rcases (done.feedsNode_iff wf disjoint stays).1 feeds with
      ⟨tensor, reads, isA⟩ | ⟨fanin, controlled, isA⟩
    · rw [← isA, standsAs reads]
      exact contracted_of_reads disjoint inRange acyclic wf outside reads
    · rw [← isA]
      exact contracted_of_controlledBy disjoint inRange acyclic controlled
  · rintro ⟨u, v, isA, isB, leaves, kept⟩
    rw [← isA, ← isB] at leaves ⊢
    have stays := rep_stays wf disjoint v
    refine ⟨rep_stays wf disjoint u, stays, (done.feedsNode_iff wf disjoint stays).2 ?_⟩
    rcases reads_or_controlledBy disjoint kept leaves with ⟨tensor, reads, isNode⟩ | controlled
    · exact .inl ⟨tensor, reads, by rw [standsAs reads, isNode]⟩
    · exact .inr ⟨u, controlled, rfl⟩

theorem Fused.acyclic_iff : Acyclic pass.Feeds ↔ NoneReturns graph fused := by
  have feeds : pass.Feeds = Contracted (rep graph.length fused) (Kept graph fused) := by
    funext a b
    exact propext (done.feeds_iff_contracted disjoint inRange acyclic wf outside none a b)
  have acyclicKept : Acyclic (Kept graph fused) := fun v cycle =>
    acyclic v (TransGen.mono (fun _ _ kept => kept.feedsNode) v v cycle)
  have alone : ∀ u, ¬ (¬ Stays fused u ∨ graph.length ≤ u) → ∀ w,
      rep graph.length fused w = rep graph.length fused u → w = u := by
    intro u notMerged w same
    rw [not_or, not_not, not_le] at notMerged
    rw [rep_of_not_mem notMerged.1] at same
    exact eq_of_rep_eq disjoint notMerged.2 same
  rw [feeds, acyclic_contracted_iff acyclicKept alone, noneReturns_iff disjoint inRange]

end Merged

/-- Where the pass returns, it leaves a graph without cycles exactly if no walk along the
edges that it keeps, data or control, leaves a partition and comes back to it. -/
theorem runRewritePass_acyclic_iff {ctx : Context} {selection : Selection} {partitions : List Partition}
    {pass : Pass} (acyclic : Acyclic (FeedsNode ctx.graph)) (inRange : InRange ctx.graph)
    (selects : ctx.select = .ok selection) (made : ∀ partition ∈ partitions, partition.Made selection)
    (disjoint : partitions.Pairwise Disjoint) (returned : runRewritePass ctx.allType ctx.graph partitions = .ok pass) :
    Acyclic pass.Feeds ↔ NoneReturns ctx.graph (fusedPartitions ctx.allType ctx.graph partitions) := by
  have sound := Context.select_sound selects
  have wellFormed : ∀ partition ∈ partitions, partition.WellFormed ctx.graph := fun partition member =>
    (made partition member).wellFormed sound
  obtain ⟨rewritten, fuses, deletes⟩ := bind_ok.1 returned
  obtain ⟨same, none⟩ := Pass.removeNodes_eq_ok.1 deletes
  rw [same]
  obtain ⟨done, outside⟩ := fusePartitions_fused wellFormed disjoint fuses
  have sublist := @fusedPartitions_sublist ctx.allType ctx.graph partitions
  exact done.acyclic_iff (disjoint.sublist sublist) inRange acyclic
    (fun partition member => wellFormed partition (sublist.mem member)) outside none

/-- A product with a sum on top. With `ordered`, the other summand waits for the product. -/
def matMulAdd (ordered : Bool) : OpGraph := [onCpu "Placeholder" [], onCpu "Placeholder" [],
  onCpu "MatMul" [⟨0, 0⟩, ⟨1, 0⟩],
  { onCpu "Erf" [⟨0, 0⟩] with controllingFanins := if ordered then [2] else [] },
  onCpu "AddV2" [⟨2, 0⟩, ⟨3, 0⟩],
  onCpu "Identity" [⟨4, 0⟩]]

def matMulAddContext (ordered : Bool) : Context :=
  { graph := matMulAdd ordered, nodesToPreserve := [], allType := true
    translates := fun index => index == 2 || index == 4 }

/-- Control edges make no difference to it. -/
def matMulAddSelection : Selection :=
  { given := [⟨2, [⟨0, 0⟩, ⟨1, 0⟩], [⟨2, 0⟩]⟩, ⟨4, [⟨2, 0⟩, ⟨3, 0⟩], [⟨4, 0⟩]⟩, ⟨0, [], [⟨0, 0⟩]⟩, ⟨1, [], [⟨1, 0⟩]⟩,
      ⟨3, [⟨0, 0⟩], [⟨3, 0⟩]⟩, ⟨5, [⟨4, 0⟩], []⟩]
    wildcardNodes := [0, 1, 4, 2, 3, 5]
    rewriteNodes := [2, 4] }

def matMulAddPartition : Partition :=
  { ops := [2, 4], inputs := [⟨0, 0⟩, ⟨1, 0⟩, ⟨3, 0⟩], outputs := [⟨4, 0⟩] }

theorem matMulAdd_selects (ordered : Bool) : (matMulAddContext ordered).select = .ok matMulAddSelection := by
  cases ordered <;> decide

theorem matMulAdd_made : ∀ partition ∈ [matMulAddPartition], partition.Made matMulAddSelection := by
  intro partition member
  constructor <;> revert member <;> revert partition <;> decide

theorem matMulAdd_inRange (ordered : Bool) : InRange (matMulAdd ordered) := by
  unfold InRange
  cases ordered <;> decide

theorem acyclic_of_sorted {graph : OpGraph}
    (sorted : ∀ entry ∈ graph.zipIdx, ∀ fanin ∈ entry.1.regularFanins.map TensorRef.node ++ entry.1.controllingFanins,
      fanin < entry.2) : Acyclic (FeedsNode graph) := by
  apply Acyclic.of_rank id
  rintro a b ⟨node, atB, member⟩
  exact sorted (node, b) (List.mem_zipIdx_iff_getElem?.2 atB) a (List.mem_append.2 member)

theorem matMulAdd_acyclic (ordered : Bool) : Acyclic (FeedsNode (matMulAdd ordered)) := by
  apply acyclic_of_sorted
  cases ordered <;> decide

/-- What the pass makes of the graph. -/
def matMulAddFused (ordered : Bool) : Pass :=
  { graph := [onCpu "Placeholder" [], onCpu "Placeholder" [], onCpu "MatMul" [⟨0, 0⟩, ⟨1, 0⟩],
      { onCpu "Erf" [⟨0, 0⟩] with controllingFanins := if ordered then [6] else [] },
      onCpu "AddV2" [⟨2, 0⟩, ⟨3, 0⟩],
      onCpu "Identity" [⟨6, 0⟩],
      onCpu "OneDnnGraph" [⟨0, 0⟩, ⟨1, 0⟩, ⟨3, 0⟩]]
    edgeManagerTmp := [(⟨4, 0⟩, ⟨6, 0⟩)]
    nodesToDelete := [2, 4] }

theorem matMulAdd_fuses (ordered : Bool) :
    runRewritePass true (matMulAdd ordered) [matMulAddPartition] = .ok (matMulAddFused ordered) := by
  cases ordered <;> decide

theorem matMulAdd_none_returns :
    NoneReturns (matMulAdd false) (fusedPartitions true (matMulAdd false) [matMulAddPartition]) := by
  apply (runRewritePass_acyclic_iff (matMulAdd_acyclic false) (matMulAdd_inRange false) (matMulAdd_selects false)
    matMulAdd_made (List.pairwise_singleton _ _) (matMulAdd_fuses false)).1
  -- The new node, with the highest index, comes before the reader of its output.
  apply Acyclic.of_rank fun node => if node = 5 then 7 else node
  rintro a b ⟨_, notDeleted, node, atB, member⟩
  have sorted : ∀ entry ∈ (matMulAddFused false).graph.zipIdx, entry.2 ∉ (matMulAddFused false).nodesToDelete →
      ∀ fanin ∈ entry.1.regularFanins.map TensorRef.node ++ entry.1.controllingFanins,
        (if fanin = 5 then 7 else fanin) < if entry.2 = 5 then 7 else entry.2 := by decide
  exact sorted (node, b) (List.mem_zipIdx_iff_getElem?.2 atB) notDeleted a (List.mem_append.2 member)

/-- oneDNN sees no path from the product to the other summand. -/
theorem matMulAddPartition_convex : Convex matMulAddSelection.Feeds matMulAddPartition.ops := by
  have edges : ∀ a b, matMulAddSelection.Feeds a b → (a, b) ∈ [(0, 2), (1, 2), (0, 3), (2, 4), (3, 4), (4, 5)] := by
    have listed : ∀ producer ∈ matMulAddSelection.given, ∀ consumer ∈ matMulAddSelection.given,
        ∀ tensor ∈ producer.outputs, tensor ∈ consumer.inputs →
          (producer.index, consumer.index) ∈ [(0, 2), (1, 2), (0, 3), (2, 4), (3, 4), (4, 5)] := by decide
    rintro a b ⟨producer, isProducer, consumer, isConsumer, isA, isB, tensor, isOutput, isInput⟩
    rw [← isA, ← isB]
    exact listed producer isProducer consumer isConsumer tensor isOutput isInput
  intro u isU w _ v toV fromV
  have reached : v = 4 ∨ v = 5 := by
    have start : u = 2 ∨ u = 4 := by simpa [matMulAddPartition] using isU
    induction toV with
    | single step =>
      have := edges _ _ step
      simp at this
      omega
    | tail _ step ih =>
      have := edges _ _ step
      simp at this
      have := ih (.head step fromV)
      omega
  rcases reached with isFour | isFive
  · rw [isFour]
    decide
  · rw [isFive] at fromV
    obtain ⟨next, step, _⟩ := TransGen.head'_iff.1 fromV
    have := edges _ _ step
    simp at this

/-- A control edge that oneDNN does not see: the product comes before the other summand, and
fused with the sum it comes after it. -/
theorem orderedMatMulAdd_cyclic : Acyclic (FeedsNode (matMulAdd true)) ∧ InRange (matMulAdd true) ∧
      (matMulAddContext true).select = .ok matMulAddSelection ∧
      matMulAddPartition.Made matMulAddSelection ∧ matMulAddPartition.Reports matMulAddSelection ∧
      Convex matMulAddSelection.Feeds matMulAddPartition.ops ∧
      ∃ pass, runRewritePass true (matMulAdd true) [matMulAddPartition] = .ok pass ∧ ¬ Acyclic pass.Feeds := by
  refine ⟨matMulAdd_acyclic true, matMulAdd_inRange true, matMulAdd_selects true,
    matMulAdd_made _ List.mem_cons_self, by decide, matMulAddPartition_convex, _, matMulAdd_fuses true, ?_⟩
  intro acyclic
  have controls : (matMulAddFused true).Feeds 6 3 := ⟨by decide, by decide, _, rfl, .inr (by decide)⟩
  have feeds : (matMulAddFused true).Feeds 3 6 := ⟨by decide, by decide, _, rfl, .inl (by decide)⟩
  exact acyclic 6 (.head controls (.single feeds))

end Itex.OneDnnGraph
