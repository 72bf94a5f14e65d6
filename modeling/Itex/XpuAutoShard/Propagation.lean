import Itex.XpuAutoShard.Progress

/-!
Contract: the sweeps of inference over a graph
(`common/mlir/passes/hsp_propagator.cpp`,
`mlir_hsp_annotator.cpp`).

Owns: the graph of operations, forward and backward sweeps, the loop over both, and that
it stops.

The graph is any finite one: use lists, operands and counts are not tied to each other. A
loop without fuel left has no result.
-/

namespace Itex.XpuAutoShard.Hsp

open Itex.Lib

/-! ## Graphs -/

inductive OpKind where
  | shard
  | reshard
  | unshard
  | other
deriving DecidableEq, Repr

/-- The operations under a root. -/
structure OpGraph (Op : Type) where
  /-- The operations of the blocks of the root, in order. -/
  body : List Op
  kind : Op → OpKind
  numOperands : Op → Nat
  /-- The users of each of the results, in the order of the use lists. -/
  users : Op → List Op
  /-- What defines each of the operands: nothing for an argument of a block. -/
  definingOps : Op → List (Option Op)
  numShardedResults : Op → Nat
  props : Op → OpProps
  doInfer : Op → Heap → DoInfer

variable {Op : Type} [DecidableEq Op]

structure Sweep (Op : Type) where
  queue : List Op
  visited : Op → Nat
  changed : Bool
  heap : Heap

/-- One operation more of `op` is visited; it is ready at `threshold`. -/
def visit (threshold : Op → Nat) (state : List Op × (Op → Nat)) (op : Op) : List Op × (Op → Nat) :=
  let count := state.2 op + 1
  (if count = threshold op then state.1 ++ [op] else state.1, Function.update state.2 op count)

namespace OpGraph

variable (graph : OpGraph Op)

/-- `forward` of `HspInferenceOpPropagator`; `backward` is the same function. -/
def forward (op : Op) (heap : Heap) : Except Failure (Bool × Heap) :=
  match graph.kind op with
  | .shard | .reshard | .unshard => .ok (false, heap)
  | .other => infer (graph.doInfer op) (graph.props op) heap

def backward (op : Op) (heap : Heap) : Except Failure (Bool × Heap) := graph.forward op heap

/-- The operations that a backward sweep visits after `op`. `numShardedResults` of no
operation is a crash. -/
def producers (op : Op) : Except Failure (List Op) :=
  (graph.definingOps op).mapM fun definingOp =>
    match definingOp with
    | some producer => .ok producer
    | none => .error (.crash "null operation")

/-- The loop over the ready queue of either sweep. -/
def sweep (skip : OpKind) (propagate : Op → Heap → Except Failure (Bool × Heap))
    (next : Op → Except Failure (List Op)) (threshold : Op → Nat) :
    Nat → Sweep Op → Option (Except Failure (Bool × Heap))
  | 0, _ => none
  | fuel + 1, state =>
    match state.queue with
    | [] => some (.ok (state.changed, state.heap))
    | op :: queue =>
      if graph.kind op = skip then sweep skip propagate next threshold fuel { state with queue := queue }
      else
        match propagate op state.heap with
        | .error failure => some (.error failure)
        | .ok (changed, heap) =>
          match next op with
          | .error failure => some (.error failure)
          | .ok ops =>
            let (queue, visited) := ops.foldl (visit threshold) (queue, state.visited)
            sweep skip propagate next threshold fuel ⟨queue, visited, state.changed || changed, heap⟩

def start (kind : OpKind) (heap : Heap) : Sweep Op :=
  ⟨graph.body.filter fun op => graph.kind op == kind, fun _ => 0, false, heap⟩

def forwardPropagate (fuel : Nat) (heap : Heap) : Option (Except Failure (Bool × Heap)) :=
  graph.sweep .unshard graph.forward (fun op => .ok (graph.users op)) graph.numOperands fuel
    (graph.start .shard heap)

def backwardPropagate (fuel : Nat) (heap : Heap) : Option (Except Failure (Bool × Heap)) :=
  graph.sweep .shard graph.backward graph.producers graph.numShardedResults fuel
    (graph.start .unshard heap)

/-- The body of the loop of `propagate`. -/
def propagateRound (fuel : Nat) (heap : Heap) : Option (Except Failure (Bool × Heap)) :=
  match graph.forwardPropagate fuel heap with
  | none => none
  | some (.error failure) => some (.error failure)
  | some (.ok (changed, heap)) =>
    match graph.backwardPropagate fuel heap with
    | none => none
    | some (.error failure) => some (.error failure)
    | some (.ok (changed', heap)) => some (.ok (changed || changed', heap))

def propagate (fuel : Nat) (heap : Heap) : Option (Except Failure Heap) :=
  Growth.doWhile (graph.propagateRound fuel) fuel heap

section Ends

variable [Fintype Op]

/-- The operations that can still become ready. -/
def unready (threshold visited : Op → Nat) : Finset Op :=
  Finset.univ.filter fun op => visited op < threshold op

omit [DecidableEq Op] in
theorem mem_unready {threshold visited : Op → Nat} {op : Op} :
    op ∈ unready threshold visited ↔ visited op < threshold op := by
  unfold unready
  rw [Finset.mem_filter]
  exact and_iff_right (Finset.mem_univ op)

/-- An operation becomes ready at most once. -/
theorem visit_measure (threshold : Op → Nat) (state : List Op × (Op → Nat)) (op : Op) :
    (visit threshold state op).1.length + (unready threshold (visit threshold state op).2).card ≤
      state.1.length + (unready threshold state.2).card := by
  have subset : unready threshold (Function.update state.2 op (state.2 op + 1)) ⊆
      unready threshold state.2 := by
    intro other mem
    rw [mem_unready] at mem ⊢
    by_cases same : other = op
    · rw [same, Function.update_self] at mem
      rw [same]
      omega
    · rwa [Function.update_of_ne same] at mem
  unfold visit
  by_cases ready : state.2 op + 1 = threshold op
  · have smaller : unready threshold (Function.update state.2 op (state.2 op + 1)) ⊂
        unready threshold state.2 := by
      apply Finset.ssubset_iff_subset_ne.2 ⟨subset, _⟩
      intro same
      have waiting : op ∈ unready threshold state.2 := mem_unready.2 (by omega)
      rw [← same, mem_unready, Function.update_self] at waiting
      omega
    have fewer := Finset.card_lt_card smaller
    dsimp only
    rw [if_pos ready, List.length_append, List.length_singleton]
    omega
  · have fewer := Finset.card_le_card subset
    dsimp only
    rw [if_neg ready]
    omega

theorem visits_measure (threshold : Op → Nat) (ops : List Op) (state : List Op × (Op → Nat)) :
    (ops.foldl (visit threshold) state).1.length + (unready threshold (ops.foldl (visit threshold) state).2).card ≤
      state.1.length + (unready threshold state.2).card := by
  induction ops generalizing state with
  | nil => exact Nat.le_refl _
  | cons op rest ih =>
    rw [List.foldl_cons]
    exact (ih _).trans (visit_measure threshold state op)

theorem sweep_ends (skip : OpKind) (propagate : Op → Heap → Except Failure (Bool × Heap))
    (next : Op → Except Failure (List Op)) (threshold : Op → Nat) (fuel : Nat) (state : Sweep Op)
    (enough : state.queue.length + (unready threshold state.visited).card < fuel) :
    ∃ result, graph.sweep skip propagate next threshold fuel state = some result := by
  induction fuel generalizing state with
  | zero => exact absurd enough (Nat.not_lt_zero _)
  | succ fuel ih =>
    unfold sweep
    cases popped : state.queue with
    | nil => exact ⟨_, rfl⟩
    | cons op queue =>
      rw [popped, List.length_cons] at enough
      dsimp only
      split
      · apply ih
        change queue.length + (unready threshold state.visited).card < fuel
        omega
      · cases propagate op state.heap with
        | error failure => exact ⟨_, rfl⟩
        | ok propagated =>
          cases next op with
          | error failure => exact ⟨_, rfl⟩
          | ok ops =>
            apply ih
            have fewer := visits_measure threshold ops (queue, state.visited)
            dsimp only at fewer ⊢
            omega

omit [DecidableEq Op] in
/-- Both sweeps have this much to do at the start. -/
theorem start_measure (kind : OpKind) (threshold : Op → Nat) (heap : Heap) :
    (graph.start kind heap).queue.length + (unready threshold (graph.start kind heap).visited).card ≤
      graph.body.length + Fintype.card Op :=
  Nat.add_le_add (List.length_filter_le _ _) (Finset.card_le_univ _)

end Ends

/-! ## Sweeps only add to the properties -/

omit [DecidableEq Op] in
theorem forward_grows {op : Op} {heap : Heap} {result : Bool × Heap}
    (returned : graph.forward op heap = .ok result) : heaps.Grows heap result := by
  unfold forward at returned
  split at returned
  · cases returned
    exact .same heap
  · cases returned
    exact .same heap
  · cases returned
    exact .same heap
  · exact infer_grows returned

theorem sweep_grows {skip : OpKind} {propagate : Op → Heap → Except Failure (Bool × Heap)}
    {next : Op → Except Failure (List Op)} {threshold : Op → Nat}
    (grows : ∀ op heap result, propagate op heap = .ok result → heaps.Grows heap result)
    {fuel : Nat} {state : Sweep Op} {heap : Heap} {result : Bool × Heap}
    (before : heaps.Grows heap (state.changed, state.heap))
    (returned : graph.sweep skip propagate next threshold fuel state = some (.ok result)) :
    heaps.Grows heap result := by
  induction fuel generalizing state with
  | zero => cases returned
  | succ fuel ih =>
    unfold sweep at returned
    split at returned
    · cases returned
      exact before
    next op queue _ =>
      split at returned
      · exact @ih { state with queue := queue } before returned
      split at returned
      · cases returned
      next changed after propagated =>
        split at returned
        · cases returned
        · exact ih (before.then (grows _ _ _ propagated)) returned

section

variable {fuel : Nat} {heap : Heap} {result : Bool × Heap}

theorem forwardPropagate_grows (returned : graph.forwardPropagate fuel heap = some (.ok result)) : heaps.Grows heap result :=
  graph.sweep_grows (fun _ _ _ => graph.forward_grows) (.same heap) returned

theorem backwardPropagate_grows (returned : graph.backwardPropagate fuel heap = some (.ok result)) : heaps.Grows heap result :=
  graph.sweep_grows (fun _ _ _ => graph.forward_grows) (.same heap) returned

theorem propagateRound_grows (returned : graph.propagateRound fuel heap = some (.ok result)) : heaps.Grows heap result := by
  unfold propagateRound at returned
  split at returned
  · cases returned
  · cases returned
  next changed after forwarded =>
    split at returned
    · cases returned
    · cases returned
    next changed' final backwarded =>
      cases returned
      exact (graph.forwardPropagate_grows forwarded).then (graph.backwardPropagate_grows backwarded)

end

theorem propagateRound_ends [Fintype Op] {fuel : Nat}
    (enough : graph.body.length + Fintype.card Op < fuel) (heap : Heap) :
    ∃ result, graph.propagateRound fuel heap = some result := by
  unfold propagateRound forwardPropagate
  obtain ⟨forwarded, forwards⟩ := graph.sweep_ends .unshard graph.forward
    (fun op => .ok (graph.users op)) graph.numOperands fuel (graph.start .shard heap)
    (Nat.lt_of_le_of_lt (graph.start_measure _ _ _) enough)
  rw [forwards]
  match forwarded with
  | .error failure => exact ⟨_, rfl⟩
  | .ok (changed, after) =>
    unfold backwardPropagate
    obtain ⟨backwarded, backwards⟩ := graph.sweep_ends .shard graph.backward graph.producers
      graph.numShardedResults fuel (graph.start .unshard after)
      (Nat.lt_of_le_of_lt (graph.start_measure _ _ _) enough)
    dsimp only
    rw [backwards]
    match backwarded with
    | .error failure => exact ⟨_, rfl⟩
    | .ok (changed', final) => exact ⟨_, rfl⟩

theorem propagate_ends [Fintype Op] (heap : Heap) : ∃ fuel result, graph.propagate fuel heap = some result ∧
    ∀ final, result = .ok final → List.Forall₂ Extends heap final := by
  let fuel := graph.body.length + Fintype.card Op + heaps.ceiling heap + 1
  refine ⟨fuel, ?_⟩
  apply @Growth.doWhile_ends _ _ heaps
  · exact graph.propagateRound_ends (by omega)
  · exact fun heap result returned => graph.propagateRound_grows returned
  · omega

end OpGraph

theorem exists_gains {heap heap' : Heap} (grows : heaps.Grows heap (true, heap')) :
    ∃ (ref : Nat) (prop prop' : ShardingProperty), heap[ref]? = some prop ∧ heap'[ref]? = some prop' ∧
      Gains prop prop' := by
  obtain ⟨ref, prop, prop', atRef, atRef', extends_, more⟩ :=
    Growth.exists_size_lt grows.1 (grows.2 rfl)
  exact ⟨ref, prop, prop', atRef, atRef', extends_.gains more⟩

/-- An inference only adds to the properties and reports a change only where one of them
gained, and the propagation over any graph stops, with every property extended. -/
theorem infer_adds_and_propagate_stops :
    (∀ (doInfer : Heap → DoInfer) (props : OpProps) (heap : Heap) (changed : Bool) (heap' : Heap),
      infer doInfer props heap = .ok (changed, heap') → List.Forall₂ Extends heap heap' ∧
        (changed = true → ∃ (ref : Nat) (prop prop' : ShardingProperty), heap[ref]? = some prop ∧
          heap'[ref]? = some prop' ∧ Gains prop prop')) ∧
    (∀ (Op : Type) [DecidableEq Op] [Fintype Op] (graph : OpGraph Op) (heap : Heap),
      ∃ fuel result, graph.propagate fuel heap = some result ∧
        ∀ final, result = .ok final → List.Forall₂ Extends heap final) := by
  refine ⟨?_, fun Op _ _ graph heap => graph.propagate_ends heap⟩
  intro doInfer props heap changed heap' returned
  have grows := infer_grows returned
  refine ⟨grows.1, ?_⟩
  intro isChanged
  rw [isChanged] at grows
  exact exists_gains grows

/-- A row on two devices that is not split yet. -/
def freshRow : ShardingProperty :=
  { rank := 1, shape := [4], deviceIds := [0, 1], splitSpecs := [{}], specsMatchRank := oneSpec }

def singleRow : ShardingProperty := { freshRow with splitSpecs := [.buildSingleSplit] }

theorem freshRow_gains :
    infer (fun _ => .apply (.trySplitSingleOnly 0 none) true fun _ _ => .done) ⟨[0], []⟩ [freshRow] =
        .ok (true, [singleRow]) ∧ ∃ (ref : Nat) (prop prop' : ShardingProperty), [freshRow][ref]? = some prop ∧
        [singleRow][ref]? = some prop' ∧ Gains prop prop' := by
  have ran : infer (fun _ => .apply (.trySplitSingleOnly 0 none) true fun _ _ => .done) ⟨[0], []⟩
      [freshRow] = .ok (true, [singleRow]) := by decide
  exact ⟨ran, (infer_adds_and_propagate_stops.1 _ _ _ _ _ ran).2 rfl⟩

end Itex.XpuAutoShard.Hsp
