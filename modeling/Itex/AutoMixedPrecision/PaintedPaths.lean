import Itex.AutoMixedPrecision.TensorLists
import Itex.Lib.Walks

/-!
Contract: the sets that passes 2, 3 and 5 compute, as nodes on paths.

Owns: the types between denylist and inferlist operators, the types between allowlist operators,
and the types joined to painted ones through clear operators.
-/

namespace Itex.AutoMixedPrecision

open Itex.Lib Itex.Lib.DepthFirst Itex.Graph

namespace Impl

variable {first i last : Nat} {middle : List Nat} {impl : Impl}

theorem next_converse {j : Nat} : j ∈ impl.next .followOutputs i ↔ i ∈ impl.next .followInputs j :=
  GraphTypeTopologyView.mem_getFanout.trans GraphTypeTopologyView.mem_getFanin.symm

section Deny

variable (wf : impl.graphTypeView.WellFormed)
include wf

theorem path_of_upstream (upstream : i ∈ impl.upstreamOfDenyOrInfer) :
    (impl.itemOp i ∈ impl.lists.deny ∨ impl.itemOp i ∈ impl.lists.infer) ∨
    (impl.itemOp i ∈ impl.lists.clear ∧ ∃ middle last,
      (impl.itemOp last ∈ impl.lists.deny ∨ impl.itemOp last ∈ impl.lists.infer) ∧
      (∀ m ∈ middle, impl.itemOp m ∈ impl.lists.clear) ∧
      (i :: (middle ++ [last])).IsChain fun a b => b ∈ impl.next .followOutputs a) := by
  rcases ((mem_upstreamOfDenyOrInfer wf i).1 upstream).exists_walk with
    isRoot | ⟨clear, last, middle, isRoot, through, walk⟩
  · exact .inl isRoot.2
  · refine .inr ⟨clear, middle.reverse, last, isRoot.2, ?_, ?_⟩
    · intro m mem
      exact (through m (List.mem_reverse.1 mem)).1
    · exact walk_reverse (fun _ _ edge => next_converse.2 edge) walk

theorem path_of_denied (denied : i ∈ impl.propagateDenyFwdThroughClearAndInfer ∅) :
    (i < impl.numTypes ∧ impl.itemOp i ∈ impl.lists.deny) ∨
      ∃ first middle last, impl.DangerousPath first middle last ∧ i ∈ first :: (middle ++ [last]) := by
  have reached := ((mem_propagateDeny wf ∅ i).1 denied).resolve_left (Finset.notMem_empty i)
  rcases reached.exists_walk with isRoot | ⟨⟨upstream, -⟩, first, before, isFirst, through, walk⟩
  · exact .inl ⟨isRoot.1, isRoot.2.1⟩
  · right
    -- The last denylist operator of the walk starts the path, so the others are clear or infer.
    have inner : ∀ m ∈ before, impl.itemOp m ∈ impl.lists.clear ∨ impl.itemOp m ∈ impl.lists.infer := by
      intro m mem
      obtain ⟨⟨upstreamM, unseeded⟩, notRoot⟩ := through m mem
      obtain ⟨j, -, edge⟩ := exists_successor walk m (List.mem_cons_of_mem _ mem)
      have bound := (bound_of_edge wf edge).1
      rcases op_of_upstream wf upstreamM with deny | infer | clear
      · exact absurd ⟨bound, deny, unseeded⟩ notRoot
      · exact .inr infer
      · exact .inl clear
    rcases path_of_upstream wf upstream with ends | ⟨clear, after, last, ends, throughAfter, walkAfter⟩
    · exact ⟨first, before, i, ⟨isFirst.2.1, inner, ends, walk⟩, by simp⟩
    · refine ⟨first, before ++ i :: after, last, ⟨isFirst.2.1, ?_, ends, walk_append walk walkAfter⟩, by simp⟩
      grind

theorem mem_propagateDeny_iff_path (i : Nat) : i ∈ impl.propagateDenyFwdThroughClearAndInfer ∅ ↔
      (i < impl.numTypes ∧ impl.itemOp i ∈ impl.lists.deny) ∨
      ∃ first middle last, impl.DangerousPath first middle last ∧ i ∈ first :: (middle ++ [last]) := by
  refine ⟨path_of_denied wf, fun onPath => ?_⟩
  rcases onPath with ⟨bound, listed⟩ | ⟨first, middle, last, path, mem⟩
  · exact (mem_propagateDeny wf ∅ i).2 (.inr (.root ⟨bound, listed, Finset.notMem_empty i⟩))
  · exact path.denied wf (fun k _ => Finset.notMem_empty k) i mem

end Deny

/-! ## Types between allowlist operators -/

/-- What may lie between allowlist operators. -/
structure Eligible (impl : Impl) (deny : Finset Nat) (i : Nat) : Prop where
  undenied : i ∉ deny
  processed : impl.shouldProcess (impl.item i).node = true
  float32 : impl.isFloat32 (impl.item i) = true
  f16 : impl.supportsF16 (impl.item i) = true
  listed : impl.itemOp i ∈ impl.lists.clear ∨ impl.itemOp i ∈ impl.lists.infer

/-- A forward path between processed allowlist operators. -/
structure AllowPath (impl : Impl) (deny : Finset Nat) (first : Nat) (middle : List Nat) (last : Nat) : Prop where
  starts : impl.isAllowRoot first = true
  through : ∀ m ∈ middle, impl.Eligible deny m
  ends : impl.isAllowRoot last = true
  edges : (first :: (middle ++ [last])).IsChain fun a b => b ∈ impl.next .followOutputs a

theorem betweenable_iff {deny : Finset Nat} :
    impl.betweenable deny i = true ↔ impl.itemOp i ∉ impl.lists.allow ∧ impl.Eligible deny i := by
  simp only [betweenable, Bool.and_eq_true, decide_eq_true_eq]
  constructor
  · rintro ⟨⟨⟨⟨⟨unlisted, undenied⟩, processed⟩, float32⟩, f16⟩, listed⟩
    exact ⟨unlisted, undenied, processed, float32, f16, listed⟩
  · rintro ⟨unlisted, undenied, processed, float32, f16, listed⟩
    exact ⟨⟨⟨⟨⟨unlisted, undenied⟩, processed⟩, float32⟩, f16⟩, listed⟩

theorem Eligible.root_or_betweenable {deny : Finset Nat} (eligible : impl.Eligible deny i) :
    impl.isAllowRoot i = true ∨ impl.betweenable deny i = true := by
  by_cases listed : impl.itemOp i ∈ impl.lists.allow
  · left
    unfold isAllowRoot
    rw [eligible.processed, decide_eq_true listed]
    rfl
  · exact .inr (betweenable_iff.2 ⟨listed, eligible⟩)

section Allow

variable (wf : impl.graphTypeView.WellFormed) {deny : Finset Nat}
include wf

theorem AllowPath.downstream (path : impl.AllowPath deny first middle last) :
    ∀ m ∈ middle, m ∈ impl.downstreamOfAllow deny := by
  intro m mem
  rw [mem_downstreamOfAllow wf]
  have bounds : ∀ k ∈ first :: middle, k < impl.numTypes := by
    intro k onPath
    obtain ⟨j, -, edge⟩ := exists_successor path.edges k onPath
    exact (bound_of_edge wf edge).1
  -- Roots on the way are admitted as well: they are reached without the step.
  have start : Reach (impl.next .followOutputs)
      (fun k => impl.betweenable deny k = true ∨ (k < impl.numTypes ∧ impl.isAllowRoot k = true))
      (fun r => r < impl.numTypes ∧ impl.isAllowRoot r = true) first :=
    .root ⟨bounds first (by simp), path.starts⟩
  have admitted : ∀ k ∈ middle, impl.betweenable deny k = true ∨ (k < impl.numTypes ∧ impl.isAllowRoot k = true) := by
    intro k inMiddle
    rcases (path.through k inMiddle).root_or_betweenable with isRoot | able
    · exact .inr ⟨bounds k (List.mem_cons_of_mem _ inMiddle), isRoot⟩
    · exact .inl able
  have walk : (first :: middle).IsChain fun a b => b ∈ impl.next .followOutputs a :=
    List.IsChain.left_of_append path.edges
  exact (start.of_walk admitted walk m (List.mem_cons_of_mem _ mem)).of_admitted_or_root

theorem AllowPath.between (path : impl.AllowPath deny first middle last) (mem : i ∈ middle) :
    Reach (impl.next .followInputs) (fun k => k ∈ impl.downstreamOfAllow deny)
      (fun r => r < impl.numTypes ∧ impl.isAllowRoot r = true) i := by
  have backward : (last :: (middle.reverse ++ [first])).IsChain fun a b => b ∈ impl.next .followInputs a :=
    walk_reverse (fun _ _ edge => next_converse.1 edge) path.edges
  have bound : last < impl.numTypes := by
    obtain ⟨j, -, edge⟩ := exists_predecessor path.edges last (by simp)
    exact (bound_of_edge wf edge).2
  have start : Reach (impl.next .followInputs) (fun k => k ∈ impl.downstreamOfAllow deny)
      (fun r => r < impl.numTypes ∧ impl.isAllowRoot r = true) last := .root ⟨bound, path.ends⟩
  have walk : (last :: middle.reverse).IsChain fun a b => b ∈ impl.next .followInputs a :=
    List.IsChain.left_of_append backward
  apply start.of_walk _ walk i
  · exact List.mem_cons_of_mem _ (List.mem_reverse.2 mem)
  · intro m inMiddle
    exact path.downstream wf m (List.mem_reverse.1 inMiddle)

theorem path_of_between (reached : Reach (impl.next .followInputs) (fun k => k ∈ impl.downstreamOfAllow deny)
      (fun r => r < impl.numTypes ∧ impl.isAllowRoot r = true) i) : (i < impl.numTypes ∧ impl.isAllowRoot i = true) ∨
      ∃ first middle last, impl.AllowPath deny first middle last ∧ i ∈ middle := by
  have ofDownstream : ∀ k, k ∈ impl.downstreamOfAllow deny → ¬ (k < impl.numTypes ∧ impl.isAllowRoot k = true) →
      impl.Eligible deny k ∧ ∃ first middle, impl.isAllowRoot first = true ∧ (∀ m ∈ middle, impl.Eligible deny m) ∧
        (first :: (middle ++ [k])).IsChain fun a b => b ∈ impl.next .followOutputs a := by
    intro k downstream notRoot
    obtain ⟨able, first, middle, isFirst, through, walk⟩ :=
      ((mem_downstreamOfAllow wf deny k).1 downstream).exists_walk.resolve_left notRoot
    exact ⟨(betweenable_iff.1 able).2, first, middle, isFirst.2,
      fun m mem => (betweenable_iff.1 (through m mem).1).2, walk⟩
  by_cases isRoot : i < impl.numTypes ∧ impl.isAllowRoot i = true
  · exact .inl isRoot
  · right
    obtain ⟨downstream, last, after, isLast, throughAfter, walkAfter⟩ :=
      reached.exists_walk.resolve_left isRoot
    obtain ⟨eligible, first, before, isFirst, throughBefore, walkBefore⟩ := ofDownstream i downstream isRoot
    refine ⟨first, before ++ i :: after.reverse, last, ⟨isFirst, ?_, isLast.2, ?_⟩, by simp⟩
    · grind
    · exact walk_append walkBefore (walk_reverse (fun _ _ edge => next_converse.2 edge) walkAfter)

theorem mem_between_iff_path (allow : Finset Nat) (i : Nat) :
    i ∈ impl.addClearAndInferToAllowIfBetweenAllow deny allow ↔ i ∈ allow ∨
      (i < impl.numTypes ∧ impl.isAllowRoot i = true) ∨
      ∃ first middle last, impl.AllowPath deny first middle last ∧ i ∈ middle := by
  rw [mem_addClearAndInferToAllowIfBetweenAllow wf]
  apply or_congr_right
  constructor
  · exact path_of_between wf
  · rintro (isRoot | ⟨first, middle, last, path, mem⟩)
    · exact .root isRoot
    · exact path.between wf mem

end Allow

/-- An undirected path from a source through eligible types. -/
structure ClearPath (impl : Impl) (source eligible : Nat → Prop) (first : Nat) (middle : List Nat) (last : Nat) :
    Prop where
  starts : source first
  through : ∀ m ∈ middle ++ [last], eligible m
  edges : (first :: (middle ++ [last])).IsChain fun a b => b ∈ impl.next .followInputsAndOutputs a

/-- Clear types that may be painted are processed, so a path may be cut at the last painted one. -/
theorem mem_clear_iff_path (wf : impl.graphTypeView.WellFormed) (deny allow : Finset Nat) (i : Nat) :
    i ∈ impl.propagateAllowThroughClear deny allow ↔ i ∈ allow ∨ ∃ first middle, impl.ClearPath
        (fun r => r ∈ allow ∧ impl.shouldProcess (impl.item r).node = true)
        (fun m => impl.clearable deny m = true) first middle i := by
  rw [mem_propagateAllowThroughClear wf]
  constructor
  · rintro (mem | reached)
    · exact .inl mem
    · rcases reached.exists_walk with isRoot | ⟨able, first, middle, isFirst, through, walk⟩
      · exact .inl isRoot.2.2
      · refine .inr ⟨first, middle, ⟨isFirst.2.2, isFirst.2.1⟩, ?_, walk⟩
        intro m mem
        rcases List.mem_append.1 mem with mem | mem
        · exact (through m mem).1.1
        · rw [List.mem_singleton.1 mem]
          exact able.1
  · rintro (mem | ⟨first, middle, path⟩)
    · exact .inl mem
    · by_cases mem : i ∈ allow
      · exact .inl mem
      · right
        have bounds : ∀ k ∈ first :: (middle ++ [i]), k < impl.numTypes := by
          intro k onPath
          rcases List.mem_cons.1 onPath with isFirst | later
          · obtain ⟨j, -, edge⟩ := exists_successor path.edges first (by simp)
            rw [isFirst]
            exact wf.neighbours_lt .followInputsAndOutputs (next_symm edge)
          · obtain ⟨j, -, edge⟩ := exists_predecessor path.edges k later
            exact wf.neighbours_lt .followInputsAndOutputs edge
        have start : Reach (impl.next .followInputsAndOutputs)
            (fun k => (impl.clearable deny k = true ∧ k ∉ allow) ∨
              (k < impl.numTypes ∧ impl.shouldProcess (impl.item k).node = true ∧ k ∈ allow))
            (fun k => k < impl.numTypes ∧ impl.shouldProcess (impl.item k).node = true ∧ k ∈ allow) first :=
          .root ⟨bounds first (by simp), path.starts.2, path.starts.1⟩
        refine (start.of_walk ?_ path.edges i (by simp)).of_admitted_or_root
        intro k later
        have able := path.through k later
        by_cases painted : k ∈ allow
        · exact .inr ⟨bounds k (List.mem_cons_of_mem _ later), (clearable_spec able).2, painted⟩
        · exact .inl ⟨able, painted⟩

end Impl

/-! ## The passes of a run -/

namespace Prepared

variable {settings : Config} {graph : GraphDef} {prepared : Prepared}

/-- Started with no denied types, pass 2 denies the denylist and the paths from it. -/
theorem denied_exactly_on_paths (returned : prepare settings graph = .ok prepared) (i : Nat) :
    i ∈ prepared.impl.propagateDenyFwdThroughClearAndInfer ∅ ↔
      (i < prepared.impl.numTypes ∧ prepared.impl.itemOp i ∈ prepared.impl.lists.deny) ∨
      ∃ first middle last, prepared.impl.DangerousPath first middle last ∧ i ∈ first :: (middle ++ [last]) :=
  Impl.mem_propagateDeny_iff_path (ready_of_prepare returned).wellFormed i

/-- Pass 3 paints the allowlist and what is between, pass 5 the clear types joined to a processed
painted one, if they read no variable. -/
theorem painted_exactly_on_paths (returned : prepare settings graph = .ok prepared) (deny allow painted : Finset Nat) :
    (∀ i, i ∈ prepared.impl.addClearAndInferToAllowIfBetweenAllow deny allow ↔
      i ∈ allow ∨ (i < prepared.impl.numTypes ∧ prepared.impl.isAllowRoot i = true) ∨
        ∃ first middle last, prepared.impl.AllowPath deny first middle last ∧ i ∈ middle) ∧
    (∀ i, i ∈ prepared.impl.propagateAllowThroughClear deny painted ↔
      i ∈ painted ∨ ∃ first middle, prepared.impl.ClearPath
        (fun r => r ∈ painted ∧ prepared.impl.shouldProcess (prepared.impl.item r).node = true)
        (fun m => prepared.impl.clearable deny m = true) first middle i) :=
  ⟨Impl.mem_between_iff_path (ready_of_prepare returned).wellFormed allow,
    Impl.mem_clear_iff_path (ready_of_prepare returned).wellFormed deny painted⟩

end Prepared

theorem exponential_sum_denied_exactly : ∃ prepared, prepare (sampleSettings []) sumGraph = .ok prepared ∧
    (3 ∈ prepared.impl.propagateDenyFwdThroughClearAndInfer ∅ ↔
      (3 < prepared.impl.numTypes ∧ prepared.impl.itemOp 3 ∈ prepared.impl.lists.deny) ∨
      ∃ first middle last, prepared.impl.DangerousPath first middle last ∧ 3 ∈ first :: (middle ++ [last])) := by
  obtain ⟨prepared, _, isPrepared, -⟩ := run_of_test (sampleSettings []) sumGraph rfl rfl
    (fun prepared _ => 3 < prepared.impl.numTypes) (by decide +kernel)
  exact ⟨prepared, isPrepared, Prepared.denied_exactly_on_paths isPrepared 3⟩

theorem exponential_sum_painted_exactly : ∃ prepared, prepare (sampleSettings []) sumGraph = .ok prepared ∧
    (∀ i, i ∈ prepared.impl.addClearAndInferToAllowIfBetweenAllow {2, 3} {1} ↔
      i ∈ ({1} : Finset Nat) ∨ (i < prepared.impl.numTypes ∧ prepared.impl.isAllowRoot i = true) ∨
        ∃ first middle last, prepared.impl.AllowPath {2, 3} first middle last ∧ i ∈ middle) ∧
    (∀ i, i ∈ prepared.impl.propagateAllowThroughClear {2, 3} {1} ↔
      i ∈ ({1} : Finset Nat) ∨ ∃ first middle, prepared.impl.ClearPath
        (fun r => r ∈ ({1} : Finset Nat) ∧ prepared.impl.shouldProcess (prepared.impl.item r).node = true)
        (fun m => prepared.impl.clearable {2, 3} m = true) first middle i) := by
  obtain ⟨prepared, _, isPrepared, -⟩ := run_of_test (sampleSettings []) sumGraph rfl rfl
    (fun prepared _ => 3 < prepared.impl.numTypes) (by decide +kernel)
  exact ⟨prepared, isPrepared, Prepared.painted_exactly_on_paths isPrepared {2, 3} {1} {1}⟩

/-- Operators that read variables, and one more clear operator. -/
def variableSettings : Config :=
  { sampleSettings ["kept"] with
    registry :=
      { lookUpOpDef := fun op =>
          if op = "VariableV2" then .ok placeholderOpDef
          else if op = "Identity" ∨ op = "Relu" then .ok unaryOpDef
          else sampleRegistry.lookUpOpDef op
        isFunction := fun _ => false } }

/-- A product of a variable that is read through `Identity`, and one that is to be preserved. -/
def variableGraph : GraphDef :=
  [sampleNode "variable" "VariableV2" [] (floatAttr "dtype"),
    sampleNode "read" "Identity" [("variable", 0)] (floatAttr "T"),
    sampleNode "product" "MatMul" [("read", 0), ("read", 0)] (floatAttr "T"),
    sampleNode "kept" "MatMul" [("product", 0), ("product", 0)] (floatAttr "T"),
    sampleNode "result" "Relu" [("kept", 0)] (floatAttr "T")]

/-- The read of the variable stays unpainted beside a painted product, and so does a clear type
whose only painted neighbour is not processed. -/
theorem clear_types_unpainted : ∃ prepared, prepare variableSettings variableGraph = .ok prepared ∧
    ¬ (1 ∈ prepared.impl.propagateAllowThroughClear ∅ {2} ↔
      1 ∈ ({2} : Finset Nat) ∨ ∃ first middle, prepared.impl.ClearPath (fun r => r ∈ ({2} : Finset Nat))
        (fun m => prepared.impl.Eligible ∅ m ∧ prepared.impl.itemOp m ∈ prepared.impl.lists.clear) first middle 1) ∧
    ¬ (4 ∈ prepared.impl.propagateAllowThroughClear ∅ {3} ↔
      4 ∈ ({3} : Finset Nat) ∨ ∃ first middle, prepared.impl.ClearPath (fun r => r ∈ ({3} : Finset Nat))
        (fun m => prepared.impl.Eligible ∅ m ∧ prepared.impl.itemOp m ∈ prepared.impl.lists.clear) first middle 4) := by
  obtain ⟨prepared, _, isPrepared, -, unpainted, edges, able, listed⟩ := run_of_test variableSettings variableGraph rfl rfl
    (fun prepared _ =>
      (1 ∉ prepared.impl.propagateAllowThroughClear ∅ {2} ∧ 4 ∉ prepared.impl.propagateAllowThroughClear ∅ {3}) ∧
      (1 ∈ prepared.impl.next .followInputsAndOutputs 2 ∧ 4 ∈ prepared.impl.next .followInputsAndOutputs 3) ∧
      (prepared.impl.betweenable ∅ 1 = true ∧ prepared.impl.betweenable ∅ 4 = true) ∧
      prepared.impl.itemOp 1 ∈ prepared.impl.lists.clear ∧
      prepared.impl.itemOp 4 ∈ prepared.impl.lists.clear) (by decide +kernel)
  have eligible : ∀ m, prepared.impl.betweenable ∅ m = true → prepared.impl.Eligible ∅ m :=
    fun m able => (Impl.betweenable_iff.1 able).2
  refine ⟨prepared, isPrepared, fun same => unpainted.1 (same.2 (.inr ⟨2, [], Finset.mem_singleton_self 2, ?_, ?_⟩)),
    fun same => unpainted.2 (same.2 (.inr ⟨3, [], Finset.mem_singleton_self 3, ?_, ?_⟩))⟩
  · simpa using ⟨eligible 1 able.1, listed.1⟩
  · simpa using edges.1
  · simpa using ⟨eligible 4 able.2, listed.2⟩
  · simpa using edges.2

end Itex.AutoMixedPrecision
