import Itex.XpuAutoShard.BroadcastSplits
import Itex.XpuAutoShard.ReductionTotals

/-!
Contract: elementwise operations on the shards of two tensors that broadcast together.

Owns: the shards that the operation is applied to, and when they give the shards of the
result on the whole tensors.

The total by which sizes are scaled is kept in an `int`.
-/

namespace Itex.XpuAutoShard.Hsp

open Itex.Lib
open Itex.XpuAutoShard.Hsp.ShardingProperty

variable {extent : Nat} {slot : Slot} {α : Type}

/-- The shard of a tensor: all of it where it is single split, and else a slice along the
split dim, whose sizes have to be those of the slices of the dim. -/
def ShardingProperty.shardAt {α : Type} (prop : ShardingProperty) (x : Tensor α) (k : Nat) : Option (Tensor α) :=
  if prop.isSplitSingleOnly then some x
  else
    match prop.orderedSplitDims with
    | [dim] =>
      let sizes := (prop.splitSpecs.getD dim {}).sizes
      if (∀ size ∈ sizes, 0 ≤ size) ∧ x.extents[dim]?.map Int.ofNat = some sizes.sum then
        (parts 0 (sizes.map Int.toNat))[k]?.map fun part => x.slice dim part.1 part.2
      else none
    | _ => none

/-- The operation on the shards of two tensors gives the shards of its result. -/
def ShardsAgree (extents : Slot → List Nat) (after : Slot → ShardingProperty) (count : Nat) : Prop :=
  ∀ (α β γ : Type) (f : α → β → γ) (x : Tensor α) (y : Tensor β), x.extents = extents .left →
    y.extents = extents .right → ∀ k < count, ∃ a b c whole part,
      (after .left).shardAt x k = some a ∧ (after .right).shardAt y k = some b ∧
      Tensor.elementwise f a b = some c ∧ Tensor.elementwise f x y = some whole ∧
      (after .result).shardAt whole k = some part ∧ c.Same part

/-- A dim of size one that is broadcast is not split. -/
def BroadcastDimsWhole (extents : Slot → List Nat) (after : Slot → ShardingProperty) : Prop :=
  ∀ slot back, (extents slot).reverse[back]? = some 1 → (extents .result).reverse[back]? ≠ some 1 →
    ∀ spec, (after slot).splitSpecs[placeOf extents slot back]? = some spec → spec.size ≤ 1

/-- All dims that are aligned with the split one have its size, and the total of the sizes
fits in an `int` or wraps to a number that is not positive. -/
def SplitCarries (extents : Slot → List Nat) (source : Slot) (dim : Nat) (sizes : List Int) : Prop :=
  sizes.length = 1 ∨ (∀ slot extent, (extents slot).reverse[backOf extents source dim]? = some extent →
      (extent : Int) = sizes.sum) ∧
    (accumulateInt sizes ≤ 0 ∨ accumulateInt sizes = sizes.sum)

theorem initialized_specs {prop : ShardingProperty} (initialised : prop.isInitialized = true) {spec : SplitSpec}
    (mem : spec ∈ prop.splitSpecs) : spec.isInitialized = true := by
  obtain ⟨dim, atDim⟩ := List.mem_iff_getElem?.1 mem
  have all := (Bool.and_eq_true_iff.1 initialised).2
  change (!prop.isRanked || (prop.splitSpecs.map SplitSpec.lowered).all _) = true at all
  rw [(isRanked_of_spec atDim).1, Bool.not_true, Bool.false_or, List.all_eq_true] at all
  exact all _ (List.mem_map_of_mem mem)

theorem isSplitSingleOnly_iff {prop : ShardingProperty} (initialised : prop.isInitialized = true) :
    prop.isSplitSingleOnly = true ↔ ∀ spec ∈ prop.splitSpecs, spec.size = 1 := by
  change (prop.isInitialized && (!prop.isRanked || (prop.splitSpecs.map SplitSpec.lowered).all _)) = true ↔ _
  rw [Bool.and_eq_true, and_iff_right initialised, Bool.or_eq_true, List.all_map, List.all_eq_true]
  constructor
  · intro single spec mem
    obtain ⟨dim, atDim⟩ := List.mem_iff_getElem?.1 mem
    rcases single with unranked | all
    · rw [(isRanked_of_spec atDim).1] at unranked
      cases unranked
    · have here := all spec mem
      rw [Function.comp_apply, Bool.and_eq_true, beq_iff_eq] at here
      exact here.2
  · intro all
    right
    intro spec mem
    rw [Function.comp_apply, Bool.and_eq_true, beq_iff_eq]
    exact ⟨initialized_specs initialised mem, all spec mem⟩

/-! ## The rules for shapes and sizes -/

/-- All that describes how a tensor is split is the same. -/
structure SameSplits (prop prop' : ShardingProperty) : Prop where
  tensor : SameTensor prop prop'
  splitSpecs : prop'.splitSpecs = prop.splitSpecs
  orderedSplitDims : prop'.orderedSplitDims = prop.orderedSplitDims

theorem SameSplits.refl (prop : ShardingProperty) : SameSplits prop prop := ⟨⟨rfl, rfl, rfl⟩, rfl, rfl⟩

theorem setShapeTensor_sameSplits {prop set : ShardingProperty} {splitSpecs : List SplitSpec} {changed : Bool}
    (returned : prop.setShapeTensor splitSpecs = .ok (changed, set)) :
    SameSplits prop set ∧ set.postOps = prop.postOps := by
  unfold setShapeTensor at returned
  split at returned
  · cases returned
    exact ⟨.refl prop, rfl⟩
  obtain ⟨maybe, _, returned⟩ := bind_ok.1 returned
  split at returned
  · cases returned
    exact ⟨.refl prop, rfl⟩
  obtain ⟨extent, _, returned⟩ := bind_ok.1 returned
  split at returned
  · cases returned
    exact ⟨.refl prop, rfl⟩
  · cases returned
    exact ⟨⟨⟨rfl, rfl, rfl⟩, rfl, rfl⟩, rfl⟩

theorem setShapeOrSizeTensorWith_sameSplits {prop rhs set : ShardingProperty} {changed : Bool}
    (returned : prop.setShapeOrSizeTensorWith rhs = .ok (changed, set)) : SameSplits prop set := by
  unfold setShapeOrSizeTensorWith at returned
  split at returned
  · exact (setShapeTensor_sameSplits returned).1
  split at returned
  · unfold setSizeTensorSpec at returned
    split at returned
    · cases returned
      exact .refl prop
    · cases returned
      exact ⟨⟨rfl, rfl, rfl⟩, rfl, rfl⟩
  · cases returned
    exact .refl prop

theorem setShapeOrSizeTensorWith_after {heap heap' : Heap} {ref rhs other : Nat} {prop : ShardingProperty}
    (ran : Rule.after heap (.setShapeOrSizeTensorWith ref rhs) = .ok heap') (atOther : heap[other]? = some prop) :
    ∃ prop', heap'[other]? = some prop' ∧ SameSplits prop prop' := by
  obtain ⟨changed, ran⟩ := Rule.after_eq_ok.1 ran
  change (readAt heap rhs >>= fun rhs => onProp heap ref fun prop => prop.setShapeOrSizeTensorWith rhs) = _ at ran
  obtain ⟨rhsProp, _, ran⟩ := bind_ok.1 ran
  unfold onProp at ran
  obtain ⟨old, atRef, ran⟩ := bind_ok.1 ran
  obtain ⟨⟨changed', set⟩, isSet, ran⟩ := bind_ok.1 ran
  cases ran
  rw [readAt_eq_ok] at atRef
  by_cases same : ref = other
  · rw [same] at atRef ⊢
    rw [atOther] at atRef
    cases atRef
    have bound := read_lt atOther
    exact ⟨set, List.getElem?_set_self bound, setShapeOrSizeTensorWith_sameSplits isSet⟩
  · exact ⟨prop, by rw [List.getElem?_set_ne same]; exact atOther, .refl prop⟩

section Site

variable {props : OpProps} {heap heap' : Heap} {ref : Slot → Nat} {prop after : Slot → ShardingProperty}
  {extents : Slot → List Nat} {source : Slot} {dim : Nat} {sizes : List Int} {changed : Bool}

theorem BroadcastSite.group_type (site : BroadcastSite props heap ref prop extents source dim sizes) {i : Nat}
    (bound : i < (extents .result).length) : ({ items := broadcastItems extents i } : DimGroup).type = .identical := by
  have longest := site.length_result
  have hasInput : (broadcastItems extents i).any DimItem.isInput = true := by
    unfold broadcastItems
    grind
  have hasOutput : (broadcastItems extents i).any (fun item => !item.isInput) = true := by
    unfold broadcastItems
    simp
  unfold DimGroup.type
  dsimp only
  rw [hasInput, hasOutput]
  rfl

/-- What an aligned group keeps, and the rules for shapes after it, holds in the end. -/
theorem BroadcastSite.run_invariant (site : BroadcastSite props heap ref prop extents source dim sizes)
    (returned : (elementwiseInfer props 2 1 true [] heap).run heap = .ok (changed, heap'))
    (inv : Nat → Heap → Prop) (initial : inv 0 heap)
    (kept : ∀ n current next changed, n < (extents .result).length → inv n current →
      inferWithIdenticalDimGroup props { items := broadcastItems extents n } current = .ok (changed, next) →
      inv (n + 1) next) : ∃ middle, inv (extents .result).length middle ∧ ∀ slot cur, middle[ref slot]? = some cur →
      ∃ last, heap'[ref slot]? = some last ∧ SameSplits cur last := by
  obtain ⟨middle, ranGroups, ranShapes⟩ := site.run_eq_ok returned
  refine ⟨middle, ?_, ?_⟩
  · apply foldlM_range_invariant inv initial _ ranGroups
    intro n current next bound holds stepped
    obtain ⟨changed, ran⟩ := Rule.after_eq_ok.1 stepped
    change inferWithDimGroup props _ current = _ at ran
    unfold inferWithDimGroup at ran
    rw [site.group_type bound] at ran
    exact kept n current next changed bound holds ran
  · intro slot cur atCur
    rw [List.foldlM_cons, bind_ok] at ranShapes
    obtain ⟨first, ranFirst, ranShapes⟩ := ranShapes
    rw [List.foldlM_cons, bind_ok] at ranShapes
    obtain ⟨second, ranSecond, ranShapes⟩ := ranShapes
    cases ranShapes
    obtain ⟨afterFirst, atFirst, sameFirst⟩ := setShapeOrSizeTensorWith_after ranFirst atCur
    obtain ⟨afterSecond, atSecond, sameSecond⟩ := setShapeOrSizeTensorWith_after ranSecond atFirst
    refine ⟨afterSecond, atSecond, ⟨?_, ?_, ?_⟩, ?_, ?_⟩
    · rw [sameSecond.tensor.rank, sameFirst.tensor.rank]
    · rw [sameSecond.tensor.shape, sameFirst.tensor.shape]
    · rw [sameSecond.tensor.deviceIds, sameFirst.tensor.deviceIds]
    · rw [sameSecond.splitSpecs, sameFirst.splitSpecs]
    · rw [sameSecond.orderedSplitDims, sameFirst.orderedSplitDims]

/-- No operand and no result is split in several pieces. -/
def OnePiece (ref : Slot → Nat) (heap : Heap) : Prop :=
  ∀ slot, ∃ cur, heap[ref slot]? = some cur ∧ ∀ spec ∈ cur.splitSpecs, spec.isInitialized = true → spec.size = 1

theorem BroadcastSite.onePiece_step (site : BroadcastSite props heap ref prop extents source dim sizes) {n : Nat}
    {current next : Heap} (bound : n < (extents .result).length) (before : OnePiece ref current)
    (ran : inferWithIdenticalDimGroup props { items := broadcastItems extents n } current = .ok (changed, next)) :
    OnePiece ref next := by
  have itemSpec : ∀ item ∈ broadcastItems extents n, ∀ spec, props.specAt current item = some spec →
      spec.isInitialized = true → spec.size = 1 := by
    intro item mem spec atItem isSet
    obtain ⟨slot, _, _, isRef⟩ := site.mem_items bound mem
    obtain ⟨cur, atCur, onePiece⟩ := before slot
    rw [OpProps.specAt_eq isRef atCur] at atItem
    exact onePiece spec (List.mem_of_getElem? atItem) isSet
  have aligned : next = current ∨ ∃ splitSpec changed, splitSpec.isInitialized = true ∧ splitSpec.size = 1 ∧
      (broadcastItems extents n).foldlM (alignIdenticalItem props splitSpec) (false, current) = .ok (changed, next) := by
    cases isReference : props.reference current (broadcastItems extents n) with
    | some splitSpec =>
      obtain ⟨changed, aligns⟩ := aligned_with_reference isReference ran
      have found := List.find?_some isReference
      simp only [Bool.and_eq_true] at found
      obtain ⟨item, isItem, atItem⟩ := List.mem_filterMap.1 (List.mem_of_find?_eq_some isReference)
      exact .inr ⟨splitSpec, changed, found.1, itemSpec item isItem splitSpec atItem found.1, aligns⟩
    | none =>
      rcases aligned_with_single isReference ran with same | ⟨single, changed, _, isSet, aligns, item, isItem, atItem⟩
      · exact .inl same
      · exact .inr ⟨single, changed, isSet, itemSpec item isItem single atItem isSet, aligns⟩
  rcases aligned with same | ⟨splitSpec, changed, isSet, isOne, aligns⟩
  · rw [same]
    exact before
  intro slot
  obtain ⟨cur, atCur, onePiece⟩ := before slot
  obtain ⟨set, atSet, ranDims⟩ := (alignItems_props aligns).2 (ref slot) cur atCur
  refine ⟨set, atSet, ?_⟩
  intro spec mem specSet
  obtain ⟨d, atDim⟩ := List.mem_iff_getElem?.1 mem
  rcases alignDims_specs isSet ranDims d spec atDim with old | single | ⟨scaled, _⟩
  · exact onePiece spec (List.mem_of_getElem? old) specSet
  · rw [single]
    rfl
  · rw [scaled, rescaled_size]
    exact isOne

theorem total_of_scaled_sum {sizes : List Int} (nonneg : ∀ size ∈ sizes, 0 ≤ size)
    (pos : 0 < sizes.sum.bmod (2 ^ 32))
    (sums : (sizes.map fun size => (sizes.sum * size).tdiv (sizes.sum.bmod (2 ^ 32))).sum = sizes.sum) :
    sizes.sum.bmod (2 ^ 32) = sizes.sum := by
  by_contra wrapped
  have sumNonneg : 0 ≤ sizes.sum := List.sum_nonneg nonneg
  have twice : 2 * sizes.sum.bmod (2 ^ 32) ≤ sizes.sum := by
    rw [Int.bmod_def] at *
    split at pos <;> omega
  generalize sizes.sum.bmod (2 ^ 32) = total at *
  have atLeast : (sizes.map fun size => 2 * size).sum ≤
      (sizes.map fun size => (sizes.sum * size).tdiv total).sum := by
    apply List.sum_le_sum
    intro size mem
    have := nonneg size mem
    rw [Int.tdiv_eq_ediv_of_nonneg (by positivity), Int.le_ediv_iff_mul_le pos]
    nlinarith
  rw [List.sum_map_mul_left, List.map_id', sums] at atLeast
  omega

section Rescaled

variable {taker : ShardingProperty} {place : Nat} {stageOffsets : List Nat}

/-- A dim of the size of the split one takes its sizes, unless the total wraps. -/
theorem rescaled_same (atPlace : taker.shape[place]? = some sizes.sum)
    (fits : accumulateInt sizes ≤ 0 ∨ accumulateInt sizes = sizes.sum) :
    (taker.rescaled place (.buildFromSizes sizes stageOffsets)).sizes = sizes := by
  unfold rescaled
  rw [atPlace]
  dsimp only
  split
  · rfl
  next scaled =>
    rw [not_or, Int.not_le, Int.not_le] at scaled
    change 0 < sizes.sum ∧ 0 < accumulateInt sizes at scaled
    have isTotal : accumulateInt sizes = sizes.sum := by
      rcases fits with wraps | same
      · omega
      · exact same
    change (sizes.map fun size => (sizes.sum * size).tdiv (accumulateInt sizes)) = sizes
    rw [isTotal]
    apply (List.map_congr_left _).trans (List.map_id' sizes)
    intro size _
    exact Int.mul_tdiv_cancel_left size (by omega)

theorem fits_of_rescaled_sum (nonneg : ∀ size ∈ sizes, 0 ≤ size) (atPlace : taker.shape[place]? = some sizes.sum)
    (sums : (taker.rescaled place (.buildFromSizes sizes stageOffsets)).sizes.sum = sizes.sum) :
    accumulateInt sizes ≤ 0 ∨ accumulateInt sizes = sizes.sum := by
  have sumNonneg : 0 ≤ sizes.sum := List.sum_nonneg nonneg
  by_cases isWrapped : accumulateInt sizes ≤ 0
  · exact .inl isWrapped
  right
  rw [accumulateInt_eq] at isWrapped ⊢
  apply total_of_scaled_sum nonneg (by omega)
  have isPositive : ¬ sizes.sum ≤ 0 := by
    intro notPositive
    have isZero : sizes.sum = 0 := by omega
    rw [isZero] at isWrapped
    exact isWrapped (by decide)
  unfold rescaled at sums
  rw [atPlace] at sums
  dsimp only at sums
  have isTotal : (SplitSpec.buildFromSizes sizes stageOffsets).getTotalSize = sizes.sum.bmod (2 ^ 32) :=
    accumulateInt_eq sizes
  rw [isTotal, if_neg (by omega)] at sums
  exact sums

end Rescaled

section

variable (site : BroadcastSite props heap ref prop extents source dim sizes)

include site

theorem BroadcastSite.shape_at {back : Nat} (atBack : (extents slot).reverse[back]? = some extent) :
    back < (extents slot).length ∧ (extents slot)[placeOf extents slot back]? = some extent ∧
      (prop slot).shape[placeOf extents slot back]? = some (extent : Int) := by
  have bound := read_lt atBack
  rw [List.length_reverse] at bound
  rw [List.getElem?_reverse bound] at atBack
  refine ⟨bound, atBack, ?_⟩
  rw [site.shape slot, List.getElem?_map]
  unfold placeOf
  rw [atBack]
  rfl

theorem BroadcastSite.whole {β γ : Type}
    (f : α → β → γ) {x : Tensor α} {y : Tensor β} (isX : x.extents = extents .left) (isY : y.extents = extents .right) :
    ∃ whole, Tensor.elementwise f x y = some whole ∧ whole.extents = extents .result := by
  unfold Tensor.elementwise
  rw [isX, isY, site.broadcasts]
  exact ⟨_, rfl, rfl⟩

variable (returned : (elementwiseInfer props 2 1 true [] heap).run heap = .ok (changed, heap'))
  (atAfter : ∀ slot, heap'[ref slot]? = some (after slot)) (initialised : ∀ slot, (after slot).isInitialized = true)

include returned atAfter initialised

theorem BroadcastSite.singleOnly_of_onePiece (isOne : sizes.length = 1)
    (slot : Slot) : (after slot).isSplitSingleOnly = true ∧ ∀ spec ∈ (after slot).splitSpecs, spec.size = 1 := by
  have start : OnePiece ref heap := by
    intro slot
    refine ⟨prop slot, site.atRef slot, ?_⟩
    intro spec mem isSet
    obtain ⟨d, atDim⟩ := List.mem_iff_getElem?.1 mem
    by_cases isSource : ref slot = ref source
    · have atSlot := site.atRef slot
      rw [isSource, site.atRef source] at atSlot
      rw [← Option.some.inj atSlot] at atDim
      by_cases isDim : d = dim
      · obtain ⟨stageOffsets, atSplit⟩ := site.split.atDim
        rw [isDim, atSplit] at atDim
        cases atDim
        exact isOne
      · rw [site.split.single d spec atDim isDim]
        rfl
    · rw [(site.fresh slot isSource).1.unset d spec atDim] at isSet
      cases isSet
  obtain ⟨middle, onePiece, kept⟩ := site.run_invariant returned (fun _ current => OnePiece ref current) start
    fun n current next changed bound before ran => site.onePiece_step bound before ran
  obtain ⟨cur, atCur, pieces⟩ := onePiece slot
  obtain ⟨last, atLast, same⟩ := kept slot cur atCur
  rw [atAfter] at atLast
  cases atLast
  have sizesOne : ∀ spec ∈ (after slot).splitSpecs, spec.size = 1 := by
    intro spec mem
    apply pieces spec _ (initialized_specs (initialised slot) mem)
    rwa [← same.splitSpecs]
  exact ⟨(isSplitSingleOnly_iff (initialised slot)).2 sizesOne, sizesOne⟩

structure CarriesSplit (prop after : ShardingProperty) (dim : Nat) (sizes : List Int) (isSource : Prop) : Prop where
  notSingle : after.isSplitSingleOnly = false
  ordered : after.orderedSplitDims = [dim]
  others : ∀ (other : Nat) (spec : SplitSpec), after.splitSpecs[other]? = some spec → other ≠ dim → spec.size = 1
  atDim : ∃ spec, after.splitSpecs[dim]? = some spec ∧ spec.size = sizes.length ∧ ((isSource ∧ spec.sizes = sizes) ∨
      (¬ isSource ∧ ∃ stageOffsets, spec = prop.rescaled dim (.buildFromSizes sizes stageOffsets)))

theorem BroadcastSite.splits_of_several (several : 1 < sizes.length)
    (slot : Slot) : (backOf extents source dim < (extents slot).length → CarriesSplit (prop slot) (after slot)
      (placeOf extents slot (backOf extents source dim)) sizes (ref slot = ref source)) ∧
    (¬ backOf extents source dim < (extents slot).length → (after slot).isSplitSingleOnly = true) := by
  obtain ⟨stageOffsets, atSplit⟩ := site.split.atDim
  obtain ⟨middle, reached, kept⟩ := site.run_invariant returned
    (fun n current => Reached current ref prop extents source (backOf extents source dim)
      (.buildFromSizes sizes stageOffsets) n) (site.start _) (by
    intro n current next changed bound before ran
    by_cases isBack : (extents .result).length - 1 - n = backOf extents source dim
    · exact site.step_here atSplit several before bound isBack ran
    · exact site.step_elsewhere before bound isBack ran)
  have atBack := site.backOf_lt
  have notLonger := site.length_le source
  have early : placeOf extents .result (backOf extents source dim) < (extents .result).length := by
    unfold placeOf
    omega
  have notSingle : ∀ (place : Nat) (spec : SplitSpec), (after slot).splitSpecs[place]? = some spec → spec.size = sizes.length →
      (after slot).isSplitSingleOnly = false := by
    intro place spec atPlace isSize
    rw [← Bool.not_eq_true, isSplitSingleOnly_iff (initialised slot)]
    intro all
    have isOne := all spec (List.mem_of_getElem? atPlace)
    omega
  by_cases isSource : ref slot = ref source
  · have sameLength := site.length_of_ref isSource
    have isPlace : placeOf extents slot (backOf extents source dim) = dim := by
      unfold placeOf at *
      omega
    obtain ⟨last, atLast, same⟩ := kept slot _ (reached.atSource slot isSource)
    rw [atAfter] at atLast
    cases atLast
    have atDim : (after slot).splitSpecs[dim]? = some (.buildFromSizes sizes stageOffsets) := by
      rw [same.splitSpecs, atSplit]
    refine ⟨?_, fun lacks => absurd (by omega) lacks⟩
    intro _
    rw [isPlace]
    refine ⟨notSingle dim _ atDim rfl, ?_, ?_, _, atDim, rfl, .inl ⟨isSource, rfl⟩⟩
    · rw [same.orderedSplitDims, site.split.ordered, if_pos several]
    · intro other spec atOther ne
      rw [same.splitSpecs] at atOther
      rw [site.split.single other spec atOther ne]
      rfl
  · constructor
    · intro has
      obtain ⟨cur, atCur, taken⟩ := reached.taken slot isSource has early
      obtain ⟨last, atLast, same⟩ := kept slot cur atCur
      rw [atAfter] at atLast
      cases atLast
      have atDim := taken.atDim
      rw [← same.splitSpecs] at atDim
      refine ⟨notSingle _ _ atDim rescaled_size, same.orderedSplitDims.trans taken.ordered, ?_, _, atDim,
        rescaled_size, .inr ⟨isSource, stageOffsets, rfl⟩⟩
      intro other spec atOther ne
      rw [same.splitSpecs] at atOther
      rw [taken.single other spec atOther ne]
      rfl
    · intro lacks
      obtain ⟨cur, atCur, untouched⟩ := reached.untouched slot isSource fun both => lacks both.1
      obtain ⟨last, atLast, same⟩ := kept slot cur atCur
      rw [atAfter] at atLast
      cases atLast
      apply (isSplitSingleOnly_iff (initialised slot)).2
      intro spec mem
      have isSet := initialized_specs (initialised slot) mem
      rw [same.splitSpecs] at mem
      obtain ⟨d, atDim⟩ := List.mem_iff_getElem?.1 mem
      rcases untouched.loose d spec atDim with isUnset | isSingle
      · rw [isUnset] at isSet
        cases isSet
      · rw [isSingle]
        rfl

/-! ## When the shards agree -/

theorem BroadcastSite.shardAt_eq (several : 1 < sizes.length)
    (sameExtents : ∀ slot extent, (extents slot).reverse[backOf extents source dim]? = some extent →
      (extent : Int) = sizes.sum)
    (fits : accumulateInt sizes ≤ 0 ∨ accumulateInt sizes = sizes.sum) {x : Tensor α}
    (isExtents : x.extents = extents slot) {k : Nat} {part : Nat × Nat}
    (atPart : (parts 0 (sizes.map Int.toNat))[k]? = some part) :
    (after slot).shardAt x k = some (x.sliceFromLast (backOf extents source dim) part.1 part.2) := by
  have splits := site.splits_of_several returned atAfter initialised several slot
  unfold ShardingProperty.shardAt Tensor.sliceFromLast
  rw [isExtents]
  by_cases has : backOf extents source dim < (extents slot).length
  · have carries := splits.1 has
    obtain ⟨extent, atBack⟩ : ∃ extent, (extents slot).reverse[backOf extents source dim]? = some extent :=
      ⟨_, List.getElem?_eq_getElem (by rwa [List.length_reverse])⟩
    have isSum := sameExtents slot _ atBack
    obtain ⟨_, atPlace, atShape⟩ := site.shape_at atBack
    rw [isSum] at atShape
    obtain ⟨spec, atSpec, _, isSizes⟩ := carries.atDim
    have sameSizes : spec.sizes = sizes := by
      rcases isSizes with ⟨_, same⟩ | ⟨_, stageOffsets, isRescaled⟩
      · exact same
      · rw [isRescaled]
        exact rescaled_same atShape fits
    rw [carries.notSingle, if_neg Bool.false_ne_true, carries.ordered, if_pos has]
    dsimp only
    rw [List.getD_eq_getElem?_getD, atSpec, Option.getD_some, sameSizes, if_pos, atPart]
    · rfl
    · refine ⟨site.split.nonneg, ?_⟩
      rw [atPlace, Option.map_some]
      exact congrArg some isSum
  · rw [splits.2 has, if_pos rfl, if_neg has]

theorem BroadcastSite.agree_of_carries
    (carries : SplitCarries extents source dim sizes) : ShardsAgree extents after sizes.length := by
  intro α β γ f x y isX isY k bound
  obtain ⟨whole, isWhole, wholeExtents⟩ := site.whole f isX isY
  by_cases isOne : sizes.length = 1
  · have single := fun slot => (site.singleOnly_of_onePiece returned atAfter initialised isOne slot).1
    unfold ShardingProperty.shardAt
    refine ⟨x, y, whole, whole, whole, ?_, ?_, isWhole, isWhole, ?_, rfl, fun _ _ => rfl⟩
    · rw [single, if_pos rfl]
    · rw [single, if_pos rfl]
    · rw [single, if_pos rfl]
  have several : 1 < sizes.length := by
    have := List.length_pos_iff.2 site.split.nonempty
    omega
  obtain ⟨sameExtents, fits⟩ : _ ∧ _ := by
    rcases carries with one | both
    · exact absurd one isOne
    · exact both
  obtain ⟨part, atPart⟩ : ∃ part, (parts 0 (sizes.map Int.toNat))[k]? = some part := by
    refine ⟨_, List.getElem?_eq_getElem ?_⟩
    rw [Tensor.length_parts, List.length_map]
    exact bound
  have within := within_parts (List.mem_of_getElem? atPart)
  rw [Nat.zero_add] at within
  have isTotal := sum_toNat site.split.nonneg
  have hasResult : backOf extents source dim < whole.extents.length := by
    rw [wholeExtents]
    exact Nat.lt_of_lt_of_le site.backOf_lt.1 (site.length_le source)
  have sameAs : ∀ slot extent, (extents slot).reverse[backOf extents source dim]? = some extent →
      extent = (sizes.map Int.toNat).sum := by
    intro slot extent atBack
    have isSum := sameExtents slot extent atBack
    omega
  obtain ⟨piece, isPiece, same⟩ := Tensor.elementwise_slice f isWhole hasResult
    (by rw [isX]; exact sameAs .left) (by rw [isY]; exact sameAs .right) within
  refine ⟨_, _, piece, whole, _, site.shardAt_eq returned atAfter initialised several sameExtents fits isX atPart,
    site.shardAt_eq returned atAfter initialised several sameExtents fits isY atPart, isPiece, isWhole,
    site.shardAt_eq returned atAfter initialised several sameExtents fits wholeExtents atPart, ?_⟩
  unfold Tensor.sliceFromLast
  rw [if_pos hasResult]
  exact same

theorem BroadcastSite.extents_of_whole (several : 1 < sizes.length) (whole : BroadcastDimsWhole extents after)
    (atBack : (extents slot).reverse[backOf extents source dim]? = some extent) : (extent : Int) = sizes.sum := by
  obtain ⟨reversed, isReversed, isResult⟩ := Option.map_eq_some_iff.1 site.broadcasts
  have resultReversed : (extents .result).reverse = reversed := by
    rw [← isResult, List.reverse_reverse]
  obtain ⟨_, fromLeft, fromRight⟩ := broadcastFromLast_getElem? isReversed (backOf extents source dim)
  rw [← resultReversed] at fromLeft fromRight
  -- The dim is split in several pieces, so it is not one that is broadcast.
  have sameAsResult : ∀ slot extent, (extents slot).reverse[backOf extents source dim]? = some extent →
      (extents .result).reverse[backOf extents source dim]? = some extent := by
    intro slot extent atSlot
    have oneIsWhole : extent = 1 → (extents .result).reverse[backOf extents source dim]? = some 1 := by
      intro isOne
      by_contra broadcast
      rw [isOne] at atSlot
      obtain ⟨has, _, _⟩ := site.shape_at atSlot
      obtain ⟨spec, atSpec, pieces, _⟩ := ((site.splits_of_several returned atAfter initialised several slot).1 has).atDim
      have few := whole slot _ atSlot broadcast spec atSpec
      omega
    cases slot with
    | result => exact atSlot
    | left =>
      rcases fromLeft extent atSlot with isOne | same
      · rw [isOne]
        exact oneIsWhole isOne
      · exact same
    | right =>
      rcases fromRight extent atSlot with isOne | same
      · rw [isOne]
        exact oneIsWhole isOne
      · exact same
  obtain ⟨sourceExtent, atDim, isSum⟩ := Option.map_eq_some_iff.1 site.sums
  have inSource := site.backOf_lt
  have atSource : (extents source).reverse[backOf extents source dim]? = some sourceExtent := by
    rw [List.getElem?_reverse inSource.1]
    have isPlace := inSource.2
    unfold placeOf at isPlace
    rw [isPlace]
    exact atDim
  have same := (sameAsResult slot extent atBack).symm.trans (sameAsResult source sourceExtent atSource)
  rw [Option.some.inj same]
  exact isSum

theorem BroadcastSite.sum_of_shardAt (several : 1 < sizes.length) (taker : ref slot ≠ ref source)
    (atBack : (extents slot).reverse[backOf extents source dim]? = some extent) (isSum : (extent : Int) = sizes.sum)
    {x shard : Tensor α} (isExtents : x.extents = extents slot) {k : Nat}
    (isShard : (after slot).shardAt x k = some shard) : accumulateInt sizes ≤ 0 ∨ accumulateInt sizes = sizes.sum := by
  obtain ⟨has, atPlace, atShape⟩ := site.shape_at atBack
  have carries := (site.splits_of_several returned atAfter initialised several slot).1 has
  obtain ⟨spec, atSpec, _, ⟨isSource, _⟩ | ⟨_, stageOffsets, isRescaled⟩⟩ := carries.atDim
  · exact absurd isSource taker
  unfold ShardingProperty.shardAt at isShard
  rw [carries.notSingle, if_neg Bool.false_ne_true, carries.ordered] at isShard
  dsimp only at isShard
  rw [List.getD_eq_getElem?_getD, atSpec, Option.getD_some, isExtents, atPlace, Option.map_some] at isShard
  split at isShard
  next sums =>
    rw [isSum] at atShape
    have sameSum := Option.some.inj sums.2
    rw [isRescaled] at sameSum
    apply @fits_of_rescaled_sum _ _ _ stageOffsets site.split.nonneg atShape
    rw [← sameSum]
    exact isSum
  next => cases isShard

/-- An elementwise operation on shards gives the shards of its result, and splits no dim
that is broadcast, exactly where all dims aligned with the split one have its size. -/
theorem BroadcastSite.respects_broadcasting_iff :
    (ShardsAgree extents after sizes.length ∧ BroadcastDimsWhole extents after) ↔
      SplitCarries extents source dim sizes := by
  constructor
  · rintro ⟨agree, whole⟩
    by_cases isOne : sizes.length = 1
    · exact .inl isOne
    have several : 1 < sizes.length := by
      have := List.length_pos_iff.2 site.split.nonempty
      omega
    have sameExtents : ∀ slot extent, (extents slot).reverse[backOf extents source dim]? = some extent →
        (extent : Int) = sizes.sum :=
      fun slot extent => site.extents_of_whole returned atAfter initialised several whole
    refine .inr ⟨sameExtents, ?_⟩
    obtain ⟨a, b, c, result, part, isA, isB, _, isWhole, isPart, _⟩ := agree Unit Unit Unit (fun _ _ => ())
      ⟨extents .left, fun _ => ()⟩ ⟨extents .right, fun _ => ()⟩ rfl rfl 0 (by omega)
    obtain ⟨result', isWhole', resultExtents⟩ := site.whole (fun _ _ => ())
      (x := ⟨extents .left, fun _ => ()⟩) (y := ⟨extents .right, fun _ => ()⟩) rfl rfl
    rw [isWhole] at isWhole'
    cases isWhole'
    have atExtent : ∀ slot, backOf extents source dim < (extents slot).length →
        ∃ extent, (extents slot).reverse[backOf extents source dim]? = some extent :=
      fun slot has => ⟨_, List.getElem?_eq_getElem (by rwa [List.length_reverse])⟩
    have inSource := site.backOf_lt.1
    have longest := site.length_result
    by_cases isResult : ref .result = ref source
    · -- The split is on the result: one of the operands takes it.
      have sameLength := site.length_of_ref isResult
      rcases Nat.lt_or_ge (backOf extents source dim) (extents .left).length with has | lacks
      · obtain ⟨extent, atBack⟩ := atExtent .left has
        have taker : ref .left ≠ ref source := isResult ▸ site.apart.1
        exact site.sum_of_shardAt returned atAfter initialised several taker atBack (sameExtents _ _ atBack) rfl isA
      · obtain ⟨extent, atBack⟩ := atExtent .right (by omega)
        have taker : ref .right ≠ ref source := isResult ▸ site.apart.2
        exact site.sum_of_shardAt returned atAfter initialised several taker atBack (sameExtents _ _ atBack) rfl isB
    · obtain ⟨extent, atBack⟩ := atExtent .result (Nat.lt_of_lt_of_le inSource (site.length_le source))
      exact site.sum_of_shardAt returned atAfter initialised several isResult atBack (sameExtents _ _ atBack)
        resultExtents isPart
  · intro carries
    refine ⟨site.agree_of_carries returned atAfter initialised carries, ?_⟩
    intro slot back isOne notOne spec atSpec
    rcases carries with onePiece | ⟨sameExtents, _⟩
    · exact Nat.le_of_eq ((site.singleOnly_of_onePiece returned atAfter initialised onePiece slot).2 spec
        (List.mem_of_getElem? atSpec))
    have several : 1 < sizes.length ∨ sizes.length = 1 := by
      have := List.length_pos_iff.2 site.split.nonempty
      omega
    rcases several with several | onePiece
    · have splits := site.splits_of_several returned atAfter initialised several slot
      by_cases has : backOf extents source dim < (extents slot).length
      · have carries := splits.1 has
        obtain ⟨hasBack, _, _⟩ := site.shape_at isOne
        apply Nat.le_of_eq
        apply carries.others _ spec atSpec
        intro samePlace
        -- The dim is the split one, which no operand broadcasts.
        have isBack : back = backOf extents source dim := by
          unfold placeOf at samePlace
          omega
        rw [isBack] at isOne notOne
        have longer := site.length_le slot
        obtain ⟨extent, atResult⟩ : ∃ extent, (extents .result).reverse[backOf extents source dim]? = some extent :=
          ⟨_, List.getElem?_eq_getElem (by rw [List.length_reverse]; omega)⟩
        have sameOne := sameExtents slot 1 isOne
        have sameResult := sameExtents .result extent atResult
        apply notOne
        rw [atResult]
        congr 1
        omega
      · exact Nat.le_of_eq ((isSplitSingleOnly_iff (initialised slot)).1 (splits.2 has) spec
          (List.mem_of_getElem? atSpec))
    · exact Nat.le_of_eq ((site.singleOnly_of_onePiece returned atAfter initialised onePiece slot).2 spec
        (List.mem_of_getElem? atSpec))

end

end Site

/-! ## Biases of several elements and of one -/

def vector (extent : Int) (splitSpec : SplitSpec) (orderedSplitDims : List Nat) : ShardingProperty :=
  { rank := 1, shape := [extent], deviceIds := [0, 1], splitSpecs := [splitSpec],
    orderedSplitDims := orderedSplitDims, specsMatchRank := rfl }

/-- Four elements in halves, a bias, and their sum. -/
def biasProp (bias : Nat) : Slot → ShardingProperty
  | .left => vector 4 (.buildFromSizes [2, 2] []) [0]
  | .right => vector bias {} []
  | .result => vector 4 {} []

def biasRef : Slot → Nat
  | .left => 0
  | .right => 1
  | .result => 2

def biasExtents (bias : Nat) : Slot → List Nat
  | .right => [bias]
  | .left | .result => [4]

def biasHeap (bias : Nat) : Heap := [biasProp bias .left, biasProp bias .right, biasProp bias .result]

/-- The properties that the inference leaves. -/
def biasAfter (bias : Nat) (sizes : List Int) : Slot → ShardingProperty
  | .right => vector bias (.buildFromSizes sizes []) [0]
  | .left | .result => vector 4 (.buildFromSizes [2, 2] []) [0]

def biasHeapAfter (bias : Nat) (sizes : List Int) : Heap :=
  [biasAfter bias sizes .left, biasAfter bias sizes .right, biasAfter bias sizes .result]

theorem fresh_vector (extent : Int) : Fresh (vector extent {} []) := by
  refine ⟨(by decide : (0 : Int) ≤ 1), ?_, rfl, rfl, rfl⟩
  intro dim spec atDim
  exact (List.mem_singleton.1 (List.mem_of_getElem? atDim))

theorem bias_site {bias : Nat} (broadcasts : broadcastExtents [4] [bias] = some [4]) :
    BroadcastSite ⟨[0, 1], [2]⟩ (biasHeap bias) biasRef (biasProp bias) (biasExtents bias) .left 0 [2, 2] where
  inputs := rfl
  outputs := rfl
  atRef slot := by cases slot <;> rfl
  apart := by decide
  rank slot := by cases slot <;> rfl
  shape slot := by cases slot <;> rfl
  broadcasts := broadcasts
  split := by
    refine ⟨⟨[], rfl⟩, ?_, rfl, List.cons_ne_nil _ _, rfl, by decide, by decide⟩
    intro other spec atOther ne
    have bound := read_lt atOther
    change other < 1 at bound
    omega
  sums := rfl
  fresh slot other := by
    cases slot with
    | left => exact absurd rfl other
    | right => exact ⟨fresh_vector bias, rfl⟩
    | result => exact ⟨fresh_vector 4, rfl⟩

theorem row_bias_respected : (elementwiseInfer ⟨[0, 1], [2]⟩ 2 1 true [] (biasHeap 4)).run (biasHeap 4) =
        .ok (true, biasHeapAfter 4 [2, 2]) ∧ ShardsAgree (biasExtents 4) (biasAfter 4 [2, 2]) 2 ∧
      BroadcastDimsWhole (biasExtents 4) (biasAfter 4 [2, 2]) := by
  have returned : (elementwiseInfer ⟨[0, 1], [2]⟩ 2 1 true [] (biasHeap 4)).run (biasHeap 4) =
      .ok (true, biasHeapAfter 4 [2, 2]) := by decide +kernel
  refine ⟨returned, ?_⟩
  apply ((bias_site (by decide)).respects_broadcasting_iff returned (by intro slot; cases slot <;> rfl)
    (by intro slot; cases slot <;> decide)).2
  refine .inr ⟨?_, .inr (by decide)⟩
  intro slot extent atBack
  cases slot <;> (cases atBack; rfl)

/-- A bias of one element is split in two empty pieces. -/
theorem one_element_split :
    ¬ ∀ (props : OpProps) (heap heap' : Heap) (ref : Slot → Nat) (prop after : Slot → ShardingProperty)
      (extents : Slot → List Nat) (source : Slot) (dim : Nat) (sizes : List Int) (changed : Bool),
      BroadcastSite props heap ref prop extents source dim sizes →
      (elementwiseInfer props 2 1 true [] heap).run heap = .ok (changed, heap') →
      (∀ slot, heap'[ref slot]? = some (after slot)) → (∀ slot, (after slot).isInitialized = true) →
      ShardsAgree extents after sizes.length ∧ BroadcastDimsWhole extents after := by
  intro respected
  have whole := (respected ⟨[0, 1], [2]⟩ (biasHeap 1) (biasHeapAfter 1 [0, 0]) biasRef (biasProp 1)
    (biasAfter 1 [0, 0]) (biasExtents 1) .left 0 [2, 2] true (bias_site (by decide)) (by decide +kernel)
    (by intro slot; cases slot <;> rfl) (by intro slot; cases slot <;> decide)).2
  have few := whole .right 0 rfl (by decide) (.buildFromSizes [0, 0] []) rfl
  exact absurd few (by decide)

end Itex.XpuAutoShard.Hsp
