import Itex.AutoMixedPrecision.TensorLists

/-!
Contract: what `ForceColorMatchOnRecurrentEdges` leaves on loop edges.

Owns: which `NextIteration` nodes lose their colour in the one sweep, and when all loop edges have
one colour after it.
-/

namespace Itex.AutoMixedPrecision

open Itex.Lib Itex.Graph

namespace Impl

variable {impl : Impl}

/-- A `Merge` type that reads a `NextIteration` node. -/
structure LoopEdge (impl : Impl) (n m : Nat) : Prop where
  isLoop : impl.opOf n = "NextIteration"
  reads : ∃ port ∈ impl.graphView.getFanout ⟨some n, .port 0⟩, impl.mergeIndex port = .ok m

/-- The type `T` of a `NextIteration` node. -/
def LoopIndex (impl : Impl) (n t : Nat) : Prop :=
  n < impl.graph.length ∧ impl.opOf n = "NextIteration" ∧ impl.typeTIndex "NextIteration" n = .ok t

/-- Both ends of every loop edge are painted or neither is. -/
def LoopsMatch (impl : Impl) (allow : Finset Nat) : Prop :=
  ∀ n t m, impl.LoopIndex n t → impl.LoopEdge n m → (t ∈ allow ↔ m ∈ allow)

/-- The `NextIteration` nodes that have an unpainted `Merge`, and the later ones that share a
`Merge` with one of them, and so on. -/
inductive Stripped (impl : Impl) (allow : Finset Nat) : Nat → Prop
  | unpainted {n m : Nat} (edge : impl.LoopEdge n m) (isUnpainted : m ∉ allow) : Stripped impl allow n
  | shared {n n' m : Nat} (stripped : Stripped impl allow n) (later : n < n') (edge : impl.LoopEdge n m)
      (edge' : impl.LoopEdge n' m) : Stripped impl allow n'

/-- No `NextIteration` node keeps its colour beside a stripped one with which it shares a `Merge`. -/
def StripsTogether (impl : Impl) (allow : Finset Nat) : Prop :=
  ∀ n n' m, impl.LoopEdge n m → impl.LoopEdge n' m → impl.Stripped allow n → impl.Stripped allow n'

/-- The set after the first nodes of the sweep. -/
structure Swept (impl : Impl) (start : Finset Nat) (nodes : Nat) (allow : Finset Nat) : Prop where
  merges : ∀ n m, impl.LoopEdge n m → (m ∈ allow ↔
    m ∈ start ∧ ∀ k < nodes, impl.LoopEdge k m → ¬ impl.Stripped start k)
  loops : ∀ n t, n < nodes → impl.LoopIndex n t → (t ∈ allow ↔ ¬ impl.Stripped start n)

section Sweep

variable (ready : impl.Ready)
include ready

theorem Ready.loopIndex_getElem? {n t : Nat} (isLoop : impl.LoopIndex n t) :
    impl.graphTypeView.nodeTypeAttrs[t]? = some ⟨n, .single "T"⟩ :=
  (ready.typeTIndex_eq_ok isLoop.1).1 isLoop.2.2

theorem Ready.loopIndex_inj {n n' t : Nat} (left : impl.LoopIndex n t) (right : impl.LoopIndex n' t) : n = n' := by
  have same := (ready.loopIndex_getElem? left).symm.trans (ready.loopIndex_getElem? right)
  exact congrArg NodeTypeId.node (Option.some.inj same)

/-- The type of a `Merge` is not one of a `NextIteration`. -/
theorem Ready.merge_ne_loop {n n' m t : Nat} (edge : impl.LoopEdge n m) (isLoop : impl.LoopIndex n' t) : m ≠ t := by
  intro same
  obtain ⟨port, isPort, mergeOk⟩ := edge.reads
  unfold mergeIndex at mergeOk
  split at mergeOk
  next isMerge =>
    obtain ⟨d, k, src, dst, isInput, -, dstNode, -⟩ := ready.consistent.mem_getFanout.1 isPort
    have bound : port.node < impl.graph.length := by
      rw [isInput]
      exact read_lt dstNode
    have atMerge := (ready.typeTIndex_eq_ok bound).1 mergeOk
    rw [same, ready.loopIndex_getElem? isLoop] at atMerge
    have sameNode : n' = port.node := congrArg NodeTypeId.node (Option.some.inj atMerge)
    rw [← sameNode, isLoop.2.1] at isMerge
    exact absurd isMerge (by decide)
  next => cases mergeOk

omit ready in
/-- A node is stripped exactly when the sweep finds a `Merge` of it unpainted. -/
theorem Swept.stripped_iff {start allow : Finset Nat} {n : Nat} (swept : Swept impl start n allow) :
    impl.Stripped start n ↔ ∃ m, impl.LoopEdge n m ∧ m ∉ allow := by
  constructor
  · intro stripped
    cases stripped with
    | @unpainted _ m edge isUnpainted =>
      exact ⟨m, edge, fun mem => isUnpainted ((swept.merges n m edge).1 mem).1⟩
    | @shared k _ m stripped later edge edge' =>
      exact ⟨m, edge', fun mem => ((swept.merges n m edge').1 mem).2 k later edge stripped⟩
  · rintro ⟨m, edge, absent⟩
    by_cases inStart : m ∈ start
    · by_contra kept
      refine absent ((swept.merges n m edge).2 ⟨inStart, ?_⟩)
      intro k before shared stripped
      exact kept (.shared stripped before shared edge)
    · exact .unpainted edge inStart

theorem Swept.step {start allow allow' : Finset Nat} {n : Nat} (swept : Swept impl start n allow)
    (bound : n < impl.graph.length) (ran : impl.recurrentStep allow n = .ok allow') :
    Swept impl start (n + 1) allow' := by
  have strippedIff := swept.stripped_iff
  rcases recurrentStep_cases ran with ⟨other, same⟩ | ⟨isLoop, merges, next, mergesOk, indexOk, effect⟩
  · rw [same]
    refine ⟨fun k m edge => (swept.merges k m edge).trans (and_congr_right fun _ => ?_), ?_⟩
    · constructor
      · intro kept k' before edge'
        rcases Nat.lt_succ_iff_lt_or_eq.1 before with before | isN
        · exact kept k' before edge'
        · exact absurd (isN ▸ edge'.isLoop) other
      · exact fun kept k' before => kept k' (Nat.lt_succ_of_lt before)
    · intro k t before isIndex
      rcases Nat.lt_succ_iff_lt_or_eq.1 before with before | isN
      · exact swept.loops k t before isIndex
      · exact absurd (isN ▸ isIndex.2.1) other
  · have isIndex : impl.LoopIndex n next := ⟨bound, isLoop, indexOk⟩
    have mem_merges : ∀ m, m ∈ merges ↔ impl.LoopEdge n m := by
      intro m
      constructor
      · exact fun mem => ⟨isLoop, mem_source_of_mapM mergesOk mem⟩
      · rintro ⟨-, port, isPort, mergeOk⟩
        obtain ⟨m', mem, mergeOk'⟩ := mem_result_of_mapM mergesOk isPort
        rw [Except.ok.inj (mergeOk.symm.trans mergeOk')]
        exact mem
    have upTo : ∀ m, (∀ k < n + 1, impl.LoopEdge k m → ¬ impl.Stripped start k) ↔
        (∀ k < n, impl.LoopEdge k m → ¬ impl.Stripped start k) ∧ (impl.LoopEdge n m → ¬ impl.Stripped start n) := by
      intro m
      constructor
      · exact fun kept => ⟨fun k before => kept k (Nat.lt_succ_of_lt before), kept n (Nat.lt_succ_self n)⟩
      · rintro ⟨kept, keptN⟩ k before
        rcases Nat.lt_succ_iff_lt_or_eq.1 before with before | isN
        · exact kept k before
        · rw [isN]
          exact keptN
    have otherLoop : ∀ k t, k < n → impl.LoopIndex k t → t ≠ next := by
      intro k t before isIndexK same
      rw [same] at isIndexK
      exact absurd (ready.loopIndex_inj isIndexK isIndex) (Nat.ne_of_lt before)
    have nextOnly : ∀ t, impl.LoopIndex n t → t = next := fun t isIndexN =>
      Except.ok.inj (isIndexN.2.2.symm.trans indexOk)
    rcases effect with ⟨⟨m, isMerge, isUnpainted⟩, same⟩ | ⟨allPainted, same⟩
    · have stripped := strippedIff.2 ⟨m, (mem_merges m).1 isMerge, isUnpainted⟩
      rw [same]
      constructor
      · intro k m edge
        rw [Finset.mem_erase, Finset.mem_sdiff, List.mem_toFinset, mem_merges, swept.merges k m edge, upTo]
        have apart := ready.merge_ne_loop edge isIndex
        simp only [apart, ne_eq, not_false_iff, true_and, stripped, not_true_eq_false, imp_false, and_assoc]
      · intro k t before isIndexK
        rcases Nat.lt_succ_iff_lt_or_eq.1 before with before | isN
        · have apart : t ∉ merges := by
            intro mem
            exact ready.merge_ne_loop ((mem_merges t).1 mem) isIndexK rfl
          rw [Finset.mem_erase, Finset.mem_sdiff, List.mem_toFinset, swept.loops k t before isIndexK]
          simp only [otherLoop k t before isIndexK, apart, ne_eq, not_false_iff, true_and, and_true]
        · rw [isN] at isIndexK ⊢
          rw [nextOnly t isIndexK]
          simp only [stripped, Finset.notMem_erase, not_true_eq_false]
    · have kept : ¬ impl.Stripped start n := by
        intro stripped
        obtain ⟨m, edge, isUnpainted⟩ := strippedIff.1 stripped
        exact isUnpainted (allPainted m ((mem_merges m).2 edge))
      rw [same]
      constructor
      · intro k m edge
        have apart := ready.merge_ne_loop edge isIndex
        rw [Finset.mem_insert, swept.merges k m edge, upTo]
        simp only [apart, false_or, kept, not_false_iff, imp_true_iff, and_true]
      · intro k t before isIndexK
        rcases Nat.lt_succ_iff_lt_or_eq.1 before with before | isN
        · rw [Finset.mem_insert, swept.loops k t before isIndexK]
          simp only [otherLoop k t before isIndexK, false_or]
        · rw [isN] at isIndexK ⊢
          rw [nextOnly t isIndexK]
          simp only [kept, Finset.mem_insert_self, not_false_iff]

section

variable {start allow : Finset Nat} (ran : impl.forceColorMatchOnRecurrentEdges start = .ok allow)

include ran

theorem Ready.swept : Swept impl start impl.graph.length allow := by
  refine foldlM_range_invariant (Swept impl start) ?_ ?_ ran
  · exact ⟨fun n m _ => ⟨fun mem => ⟨mem, nofun⟩, And.left⟩, nofun⟩
  · exact fun n allow allow' bound holds stepped => holds.step ready bound stepped

theorem Ready.loopIndex_of_edge {n m : Nat} (edge : impl.LoopEdge n m) : ∃ t, impl.LoopIndex n t := by
  obtain ⟨port, isPort, -⟩ := edge.reads
  obtain ⟨d, k, src, dst, -, srcNode, -⟩ := ready.consistent.mem_getFanout.1 isPort
  have bound : n < impl.graph.length := read_lt srcNode
  obtain ⟨before, after, split⟩ := List.append_of_mem (List.mem_range.2 bound)
  unfold forceColorMatchOnRecurrentEdges at ran
  rw [split] at ran
  obtain ⟨s, s', -, stepped, -⟩ := foldlM_append_cons_eq_ok ran
  rcases recurrentStep_cases stepped with ⟨other, -⟩ | ⟨-, _, t, -, indexOk, -⟩
  · exact absurd edge.isLoop other
  · exact ⟨t, bound, edge.isLoop, indexOk⟩

theorem Ready.loopsMatch_iff : impl.LoopsMatch allow ↔ impl.StripsTogether start := by
  have swept := ready.swept ran
  constructor
  · intro matched n n' m edge edge' stripped
    obtain ⟨t, isIndex⟩ := ready.loopIndex_of_edge ran edge
    obtain ⟨t', isIndex'⟩ := ready.loopIndex_of_edge ran edge'
    have absent : t ∉ allow := fun mem => (swept.loops n t isIndex.1 isIndex).1 mem stripped
    by_contra kept
    have painted := (swept.loops n' t' isIndex'.1 isIndex').2 kept
    exact absent ((matched n t m isIndex edge).2 ((matched n' t' m isIndex' edge').1 painted))
  · intro together n t m isIndex edge
    rw [swept.loops n t isIndex.1 isIndex, swept.merges n m edge]
    constructor
    · intro kept
      refine ⟨?_, fun k _ shared stripped => kept (together k n m shared edge stripped)⟩
      by_contra isUnpainted
      exact kept (.unpainted edge isUnpainted)
    · exact fun both => both.2 n isIndex.1 edge

end

end Sweep

end Impl

/-- Loop edges get one colour if and only if the sweep strips nodes that share a `Merge` together. -/
theorem Prepared.loops_match_iff {settings : Config} {graph : GraphDef} {prepared : Prepared}
    (returned : prepare settings graph = .ok prepared) {start allow : Finset Nat}
    (forced : prepared.impl.forceColorMatchOnRecurrentEdges start = .ok allow) :
    prepared.impl.LoopsMatch allow ↔ prepared.impl.StripsTogether start :=
  (ready_of_prepare returned).loopsMatch_iff forced

theorem loop_around_product_matches : ∃ prepared allow, prepare (sampleSettings []) loopGraph = .ok prepared ∧
    prepared.impl.forceColorMatchOnRecurrentEdges prepared.afterLists.allow = .ok allow ∧
    (prepared.impl.LoopsMatch allow ↔ prepared.impl.StripsTogether prepared.afterLists.allow) := by
  obtain ⟨prepared, _, isPrepared, -, forced⟩ := run_of_test (sampleSettings []) loopGraph rfl rfl
    (fun prepared _ =>
      (prepared.impl.forceColorMatchOnRecurrentEdges prepared.afterLists.allow).toBool = true) (by decide +kernel)
  obtain ⟨allow, forced⟩ := ok_of_toBool forced
  exact ⟨prepared, allow, isPrepared, forced, Prepared.loops_match_iff isPrepared forced⟩

/-- Two loops whose `NextIteration` nodes share a `Merge`; the one that is not painted comes later
in the graph. -/
def crossedLoops : GraphDef :=
  [sampleNode "x" "Placeholder" [] (floatAttr "dtype"),
    sampleNode "nextProduct" "NextIteration" [("product", 0)] (floatAttr "T"),
    sampleNode "nextExp" "NextIteration" [("exp", 0)] (floatAttr "T"),
    sampleNode "start" "Exp" [("x", 0)] (floatAttr "T"),
    sampleNode "mergeExp" "Merge" [("start", 0), ("nextExp", 0)] [("T", .type .float), ("N", .i 2)],
    sampleNode "exp" "Exp" [("mergeExp", 0)] (floatAttr "T"),
    sampleNode "mergeBoth" "Merge" [("x", 0), ("nextExp", 0), ("nextProduct", 0)]
      [("T", .type .float), ("N", .i 3)],
    sampleNode "product" "MatMul" [("mergeBoth", 0), ("mergeBoth", 0)] (floatAttr "T")]

/-- The sweep paints `nextProduct` and then erases the `Merge` that it shares with `nextExp`. -/
theorem crossed_loops_mismatch : ∃ prepared allow, prepare (sampleSettings []) crossedLoops = .ok prepared ∧
    prepared.impl.forceColorMatchOnRecurrentEdges prepared.afterLists.allow = .ok allow ∧
    ¬ prepared.impl.LoopsMatch allow := by
  obtain ⟨prepared, _, isPrepared, -, bounds, ops, isPort, types, swept⟩ :=
    run_of_test (sampleSettings []) crossedLoops rfl rfl
      (fun prepared _ =>
        (1 < prepared.impl.graph.length ∧ 6 < prepared.impl.graph.length) ∧
        (prepared.impl.opOf 1 = "NextIteration" ∧ prepared.impl.opOf 6 = "Merge") ∧
        (⟨6, .port 2⟩ : InputPort) ∈ prepared.impl.graphView.getFanout ⟨some 1, .port 0⟩ ∧
        (prepared.impl.graphTypeView.nodeTypeAttrs[1]? = some ⟨1, .single "T"⟩ ∧
          prepared.impl.graphTypeView.nodeTypeAttrs[8]? = some ⟨6, .single "T"⟩) ∧
        ((prepared.impl.forceColorMatchOnRecurrentEdges prepared.afterLists.allow).map
          fun allow => decide (1 ∈ allow ∧ 8 ∉ allow)).toOption = some true) (by decide +kernel)
  have ready := ready_of_prepare isPrepared
  cases forced : prepared.impl.forceColorMatchOnRecurrentEdges prepared.afterLists.allow with
  | error failure =>
    rw [forced] at swept
    cases swept
  | ok allow =>
    rw [forced] at swept
    have colours : 1 ∈ allow ∧ 8 ∉ allow := of_decide_eq_true (Option.some.inj swept)
    refine ⟨prepared, allow, isPrepared, forced, fun matched => ?_⟩
    have isIndex : prepared.impl.LoopIndex 1 1 :=
      ⟨bounds.1, ops.1, (ready.typeTIndex_eq_ok bounds.1).2 types.1⟩
    have mergeOk : prepared.impl.mergeIndex ⟨6, .port 2⟩ = .ok 8 := by
      unfold Impl.mergeIndex
      rw [if_pos ops.2]
      exact (ready.typeTIndex_eq_ok bounds.2).2 types.2
    have edge : prepared.impl.LoopEdge 1 8 := ⟨ops.1, ⟨6, .port 2⟩, isPort, mergeOk⟩
    exact colours.2 ((matched 1 1 8 isIndex edge).1 colours.1)

end Itex.AutoMixedPrecision
