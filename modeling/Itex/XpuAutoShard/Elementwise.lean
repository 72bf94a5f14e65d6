import Itex.Lib.Broadcast
import Itex.XpuAutoShard.ReductionInference

/-!
Contract: elementwise operations on sharded tensors
(`common/hsp_inference/hsp_inference_utils.cpp`,
`elementwiseInfer`).

Owns: the rules that an elementwise operation applies, and what they make of a split by
sizes of one dim of two operands and a result.
-/

namespace Itex.XpuAutoShard.Hsp

open Itex.Lib
open Itex.XpuAutoShard.Hsp.ShardingProperty

/-! ## Inference -/

/-- Rules one after the other, with results that are not looked at. -/
def applyUncounted : List Rule → (Heap → DoInfer) → Heap → DoInfer
  | [], next, heap => next heap
  | rule :: rules, next, _ => .apply rule false fun _ heap => applyUncounted rules next heap

/-- The first references of a vector, with their properties. -/
def readProps (refs : List Nat) (heap : Heap) (count : Nat) : Except Failure (List (Nat × ShardingProperty)) :=
  (List.range count).mapM fun num => do
    let ref ← readAt refs num
    let prop ← readAt heap ref
    return (ref, prop)

/-- The ranks of the operands that are known. -/
def inputRankStep (broadcastable : Bool) (rank : Int) (prop : ShardingProperty) : Int :=
  if rank < 0 then prop.rank else if broadcastable then max rank prop.rank else rank

def outputRankStep (rank : Int) (prop : ShardingProperty) : Int := if rank < 0 then prop.rank else rank

/-- The dim of an operand in the group of dim `i`, if the operand has one. -/
def inputItem (broadcastable : Bool) (rank : Int) (i : Nat) (entry : (Nat × ShardingProperty) × Nat) :
    Except Failure (List DimItem) :=
  let dim := (i : Int) - rank + entry.1.2.rank
  if broadcastable = true ∧ ¬ rank - i ≤ entry.1.2.rank then .ok []
  else if dim < 0 then .error (.crash "vector index out of range")
  else .ok [⟨true, entry.2, dim.toNat⟩]

def elementwiseGroup (inputs : List (Nat × ShardingProperty)) (numOutputs : Nat) (broadcastable : Bool)
    (excludeDims : List Int) (rank : Int) (i : Nat) : Except Failure DimGroup :=
  -- The split rule is not enforced on the excluded dims.
  if (i : Int) ∈ excludeDims then .ok { items := [] }
  else do
    let inputItems ← inputs.zipIdx.mapM (inputItem broadcastable rank i)
    return { items := inputItems.flatten ++ (List.range numOutputs).map fun num => ⟨false, num, i⟩ }

/-- `inferShapeOrSizeTensorForUnaryOrBinary`. -/
def shapeOrSizeRules (inputs outputs : List (Nat × ShardingProperty)) : List Rule :=
  match inputs, outputs with
  | [(input, _)], [(output, _)] => [.setShapeOrSizeTensorWith input output, .setShapeOrSizeTensorWith output input]
  | [(first, _), (second, _)], [(output, _)] =>
    [.setShapeOrSizeTensorWith output first, .setShapeOrSizeTensorWith output second]
  | _, _ => []

def elementwiseRules (props : OpProps) (inputs outputs : List (Nat × ShardingProperty)) (broadcastable : Bool)
    (excludeDims : List Int) (heap : Heap) : DoInfer :=
  let inputRank := (inputs.map Prod.snd).foldl (inputRankStep broadcastable) (-1)
  let outputRank := (outputs.map Prod.snd).foldl outputRankStep (-1)
  let rank := if 0 ≤ inputRank then inputRank else outputRank
  let unranked := if rank = -1 then (inputs ++ outputs).map fun entry => Rule.trySplitSingleOnly entry.1 none else []
  applyUncounted unranked
    (fun heap =>
      match (List.range rank.toNat).mapM
          (elementwiseGroup inputs outputs.length broadcastable excludeDims rank) with
      | .error failure => .fail failure
      | .ok groups =>
        applyAll (groups.map (Rule.dimGroup props))
          (applyAll (shapeOrSizeRules inputs outputs) fun _ => .done) heap) heap

def elementwiseInfer (props : OpProps) (numInputs numOutputs : Nat) (broadcastable : Bool)
    (excludeDims : List Int) (heap : Heap) : DoInfer :=
  match readProps props.inputs heap numInputs, readProps props.outputs heap numOutputs with
  | .ok inputs, .ok outputs => elementwiseRules props inputs outputs broadcastable excludeDims heap
  | .error failure, _ | _, .error failure => .fail failure

/-! ## Two operands and a result -/

inductive Slot where
  | left
  | right
  | result
deriving DecidableEq, Repr

/-- Split by sizes along one dim, with a piece for each shard; the other dims are single
split. -/
structure SplitBySizes (prop : ShardingProperty) (dim : Nat) (sizes : List Int) : Prop where
  atDim : ∃ stageOffsets, prop.splitSpecs[dim]? = some (.buildFromSizes sizes stageOffsets)
  single : ∀ other spec, prop.splitSpecs[other]? = some spec → other ≠ dim → spec = .buildSingleSplit
  ordered : prop.orderedSplitDims = if 1 < sizes.length then [dim] else []
  hasDevices : prop.deviceIds ≠ []
  counted : prop.getNumLogicalShards = sizes.length
  nonneg : ∀ size ∈ sizes, 0 ≤ size
  nonempty : sizes ≠ []

/-- The properties of an operation on two tensors that broadcast together: one is split
along a dim, and the others are as the constructor leaves them. -/
structure BroadcastSite (props : OpProps) (heap : Heap) (ref : Slot → Nat) (prop : Slot → ShardingProperty)
    (extents : Slot → List Nat) (source : Slot) (dim : Nat) (sizes : List Int) : Prop where
  inputs : props.inputs = [ref .left, ref .right]
  outputs : props.outputs = [ref .result]
  atRef : ∀ slot, heap[ref slot]? = some (prop slot)
  apart : ref .left ≠ ref .result ∧ ref .right ≠ ref .result
  rank : ∀ slot, (prop slot).rank = (extents slot).length
  shape : ∀ slot, (prop slot).shape = (extents slot).map Int.ofNat
  broadcasts : broadcastExtents (extents .left) (extents .right) = some (extents .result)
  split : SplitBySizes (prop source) dim sizes
  sums : (extents source)[dim]?.map Int.ofNat = some sizes.sum
  fresh : ∀ slot, ref slot ≠ ref source → Fresh (prop slot) ∧ (prop slot).deviceIds = (prop source).deviceIds

/-- The place, from the last dim on, of the split dim. -/
def backOf (extents : Slot → List Nat) (source : Slot) (dim : Nat) : Nat := (extents source).length - 1 - dim

def broadcastItems (extents : Slot → List Nat) (i : Nat) : List DimItem :=
  let back := (extents .result).length - 1 - i
  (if back < (extents .left).length then [⟨true, 0, (extents .left).length - 1 - back⟩] else []) ++
    (if back < (extents .right).length then [⟨true, 1, (extents .right).length - 1 - back⟩] else []) ++
    [⟨false, 0, i⟩]

section Site

variable {props : OpProps} {heap : Heap} {ref : Slot → Nat} {prop : Slot → ShardingProperty}
  {extents : Slot → List Nat} {source : Slot} {dim : Nat} {sizes : List Int}

section

variable (site : BroadcastSite props heap ref prop extents source dim sizes)

include site

theorem BroadcastSite.length_result :
    (extents .result).length = max (extents .left).length (extents .right).length := by
  have broadcasts := site.broadcasts
  unfold broadcastExtents at broadcasts
  rw [Option.map_eq_some_iff] at broadcasts
  obtain ⟨reversed, isReversed, isResult⟩ := broadcasts
  rw [← isResult, List.length_reverse, length_broadcastFromLast isReversed, List.length_reverse, List.length_reverse]

theorem BroadcastSite.length_le (slot : Slot) : (extents slot).length ≤ (extents .result).length := by
  have longest := site.length_result
  cases slot with
  | left => omega
  | right => omega
  | result => exact Nat.le_refl _

theorem BroadcastSite.group_eq {i : Nat} (bound : i < (extents .result).length) :
    elementwiseGroup [(ref .left, prop .left), (ref .right, prop .right)] 1 true []
      (extents .result).length i = .ok { items := broadcastItems extents i } := by
  have inputItem_eq : ∀ slot num, inputItem true (extents .result).length i ((ref slot, prop slot), num) =
      .ok (if (extents .result).length - 1 - i < (extents slot).length then
        [⟨true, num, (extents slot).length - 1 - ((extents .result).length - 1 - i)⟩] else []) := by
    intro slot num
    have notLonger := site.length_le slot
    unfold inputItem
    dsimp only
    rw [site.rank slot]
    by_cases has : (extents .result).length - 1 - i < (extents slot).length
    · grind
    · rw [if_pos ⟨rfl, by omega⟩, if_neg has]
  unfold elementwiseGroup
  rw [if_neg (by simp)]
  refine bind_ok.2 ⟨_, mapM_eq_ok.2 (.cons (inputItem_eq .left 0) (.cons (inputItem_eq .right 1) .nil)), ?_⟩
  unfold broadcastItems
  simp only [List.flatten_cons, List.flatten_nil, List.append_nil, List.range_one, List.map_cons, List.map_nil]
  rfl

end

theorem applyAll_run_eq_ok {rules : List Rule} {next : Heap → DoInfer} {heap heap' : Heap} {changed : Bool}
    (ran : (applyAll rules next heap).run heap = .ok (changed, heap')) :
    ∃ middle others, rules.foldlM Rule.after heap = .ok middle ∧ (next middle).run middle = .ok (others, heap') := by
  induction rules generalizing heap changed with
  | nil => exact ⟨heap, changed, rfl, ran⟩
  | cons rule rules ih =>
    unfold applyAll DoInfer.run at ran
    obtain ⟨⟨changedFirst, first⟩, ranFirst, ran⟩ := bind_ok.1 ran
    obtain ⟨⟨changedRest, last⟩, ranRest, ran⟩ := bind_ok.1 ran
    cases ran
    obtain ⟨middle, others, ranRules, finished⟩ := ih ranRest
    refine ⟨middle, others, ?_, finished⟩
    rw [List.foldlM_cons, bind_ok]
    exact ⟨first, Rule.after_eq ranFirst, ranRules⟩

/-- The inference aligns the dims one after the other, and then marks shapes and sizes. -/
theorem BroadcastSite.run_eq_ok (site : BroadcastSite props heap ref prop extents source dim sizes)
    {heap' : Heap} {changed : Bool}
    (returned : (elementwiseInfer props 2 1 true [] heap).run heap = .ok (changed, heap')) :
    ∃ middle, (List.range (extents .result).length).foldlM
        (fun heap i => Rule.after heap (.dimGroup props { items := broadcastItems extents i })) heap = .ok middle ∧
      [Rule.setShapeOrSizeTensorWith (ref .result) (ref .left),
        Rule.setShapeOrSizeTensorWith (ref .result) (ref .right)].foldlM Rule.after middle = .ok heap' := by
  have readInputs : readProps props.inputs heap 2 = .ok [(ref .left, prop .left), (ref .right, prop .right)] := by
    unfold readProps
    rw [site.inputs]
    simp [readAt, site.atRef, List.range_succ, bind, Except.bind, pure, Except.pure]
  have readOutputs : readProps props.outputs heap 1 = .ok [(ref .result, prop .result)] := by
    unfold readProps
    rw [site.outputs]
    simp [readAt, site.atRef, bind, Except.bind, pure, Except.pure]
  have isRank : [prop .left, prop .right].foldl (inputRankStep true) (-1) = (extents .result).length := by
    have longest := site.length_result
    have isLeft : inputRankStep true (-1) (prop .left) = (extents .left).length := by
      unfold inputRankStep
      rw [if_pos (by decide), site.rank]
    have isMax : inputRankStep true ((extents .left).length : Int) (prop .right) = (extents .result).length := by
      unfold inputRankStep
      rw [if_neg (by omega), if_pos rfl, site.rank]
      omega
    rw [List.foldl_cons, List.foldl_cons, List.foldl_nil, isLeft, isMax]
  unfold elementwiseInfer at returned
  rw [readInputs, readOutputs] at returned
  dsimp only at returned
  unfold elementwiseRules at returned
  have ranked : (0 : Int) ≤ (extents .result).length := Int.natCast_nonneg _
  have notUnranked : ¬ ((extents .result).length : Int) = -1 := by omega
  simp only [List.map_cons, List.map_nil] at returned
  rw [isRank, if_pos ranked, if_neg notUnranked] at returned
  unfold applyUncounted at returned
  have groups : (List.range (extents .result).length).mapM (elementwiseGroup
      [(ref .left, prop .left), (ref .right, prop .right)] 1 true [] (extents .result).length) =
      .ok ((List.range (extents .result).length).map fun i => ({ items := broadcastItems extents i } : DimGroup)) := by
    rw [mapM_eq_ok, List.forall₂_map_right_iff, List.forall₂_same]
    intro i mem
    exact site.group_eq (List.mem_range.1 mem)
  simp only [Int.toNat_natCast, List.length_cons, List.length_nil, Nat.zero_add, groups] at returned
  obtain ⟨middle, _, ranGroups, returned⟩ := applyAll_run_eq_ok returned
  obtain ⟨last, _, ranShapes, returned⟩ := applyAll_run_eq_ok returned
  cases returned
  refine ⟨middle, ?_, ranShapes⟩
  rw [List.map_map, List.foldlM_map] at ranGroups
  exact ranGroups

end Site

end Itex.XpuAutoShard.Hsp
