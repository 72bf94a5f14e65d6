import Itex.Lib.Reshape
import Itex.XpuAutoShard.Reshape

/-!
Contract: reshapes of the shards of a tensor.

Owns: runs in which `ReshapeInfer` is called for operations that may share their target
shapes, and when the reshaped shards are those of the reshaped tensor.

A call is about one operation, and the shape operand may carry the slice of another one.
-/

namespace Itex.XpuAutoShard.Hsp

open Itex.Lib
open Itex.XpuAutoShard.Hsp.ShardingProperty

variable {changed : Bool} {entry extent k size : Nat} {final : Heap} {shape : ShardingProperty}

/-- A `tfg.Reshape` of a tensor with positive dims to a constant shape. -/
structure ReshapeOp where
  input : Nat
  shape : Nat
  output : Nat
  /-- Control edges. -/
  otherInputs : List Nat := []
  otherOutputs : List Nat := []
  extents : List Nat
  target : List Nat
  fresh : output ≠ input
  positive : ∀ extent ∈ extents ++ target, 0 < extent
  sameCount : extents.prod = target.prod

namespace ReshapeOp

variable (op : ReshapeOp)

def desc : ReshapeDesc :=
  { operandShape := op.extents.map Int.ofNat, constVec := op.target.map Int.ofNat
    resultShape := op.target.map Int.ofNat }

def props : OpProps := ⟨op.input :: op.shape :: op.otherInputs, op.output :: op.otherOutputs⟩

/-- A call gives the split by sizes of a dim of the input to the output. -/
structure Propagates (before after : Heap) (dim : Nat) (input : ShardingProperty) (spec : SplitSpec) : Prop where
  atInput : before[op.input]? = some input
  initialised : input.isInitialized = true
  atDim : input.splitSpecs[dim]? = some spec
  isSize : spec.type = .size
  unset : ∀ output, before[op.output]? = some output →
    ∀ old, output.splitSpecs[dim]? = some old → old.isInitialized = false
  taken : ∃ output placed, after[op.output]? = some output ∧ output.splitSpecs[dim]? = some placed ∧
    placed.type = .size

/-- Each shard is reshaped to its target shape with all its entries, and these are together
the reshape of the tensor. -/
def ReshapesShards (input shape : ShardingProperty) (dim : Nat) : Prop :=
  ∀ (α : Type) (x : Tensor α), x.extents = op.extents → ∃ pieces : List (Tensor α),
    pieces.length = input.getNumLogicalShards ∧
    (∀ k < input.getNumLogicalShards, ∃ shard target, input.shardAt x k = some shard ∧
      slicedShape shape (op.target.map Int.ofNat) k = .ok (target.map Int.ofNat) ∧
      target.prod = shard.extents.prod ∧ pieces[k]? = some (shard.reshape target)) ∧
    Tensor.Concatenates dim pieces (x.reshape op.target)

end ReshapeOp

/-- The sizes of two splits are in the same proportion to their totals. -/
structure SplitSpec.InProportion (other spec : SplitSpec) : Prop where
  isSize : other.type = .size
  total : other.getTotalSize ≠ 0
  sizes : ∀ (k : Nat) (size : Int), spec.sizes[k]? = some size → ∃ size', other.sizes[k]? = some size' ∧
    size' * spec.sizes.sum = size * other.getTotalSize

/-- The tensor is split along one dim, in a slice of it for each shard. -/
structure SplitAlong (extents : List Nat) (input : ShardingProperty) (dim : Nat) (spec : SplitSpec) : Prop where
  alone : input.orderedSplitDims = [dim]
  counted : input.getNumLogicalShards = spec.sizes.length
  nonneg : ∀ size ∈ spec.sizes, 0 ≤ size
  sums : extents[dim]?.map Int.ofNat = some spec.sizes.sum

namespace ReshapeOp

variable (op : ReshapeOp)

/-- The shape operand has no slice yet, or one along the same dim and in the same
proportions, and what is stored of the targets are 32-bit numbers. -/
structure SlicesAlike (before : Heap) (dim : Nat) (input : ShardingProperty) (spec : SplitSpec) : Prop where
  split : SplitAlong op.extents input dim spec
  slice : ∀ shape, before[op.shape]? = some shape → (shape.postOps = [] ∧ spec.sizes.sum < 2 ^ 31) ∨
      ∃ other entry, shape.postOps = [.shapeSlice [dim] [other]] ∧ other.InProportion spec ∧
        op.target[dim]? = some entry ∧ ∀ size ∈ spec.sizes, spec.sizes.sum ∣ entry * size
  othersFit : ∀ place entry, place ≠ dim → op.target[place]? = some entry → entry < 2 ^ 31
  partsFit : ∀ entry, op.target[dim]? = some entry → ∀ size ∈ spec.sizes, entry * size < 2 ^ 31 * spec.sizes.sum

end ReshapeOp

/-- A call for an operation, with the properties before and after it. -/
structure ReshapeCall where
  op : ReshapeOp
  before : Heap
  after : Heap

/-- Calls for the operations of a set in any order, while other rules add to the properties. -/
inductive Reaches (ops : ReshapeOp → Prop) (start : Heap) : List ReshapeCall → Heap → Prop where
  | refl : Reaches ops start [] start
  | call {calls : List ReshapeCall} {heap heap' : Heap} {changed : Bool} (op : ReshapeOp) :
      Reaches ops start calls heap → ops op → reshapeInfer op.desc op.props heap = .ok (changed, heap') →
      Reaches ops start (calls ++ [⟨op, heap, heap'⟩]) heap'
  | other {calls : List ReshapeCall} {heap heap' : Heap} :
      Reaches ops start calls heap → heaps.le heap heap' → Reaches ops start calls heap'

/-- A call of a run returned, and the properties only grew since. -/
theorem Reaches.of_mem {ops : ReshapeOp → Prop} {start : Heap} {calls : List ReshapeCall}
    (run : Reaches ops start calls final) {call : ReshapeCall} (mem : call ∈ calls) :
    (∃ changed, reshapeInfer call.op.desc call.op.props call.before = .ok (changed, call.after)) ∧
      heaps.le call.after final := by
  induction run with
  | refl => cases mem
  | @call calls heap heap' changed op _ _ ran ih =>
    rcases List.mem_append.1 mem with earlier | last
    · have before := ih earlier
      exact ⟨before.1, heaps.trans before.2 (reshapeInfer_grows ran)⟩
    · cases List.mem_singleton.1 last
      exact ⟨⟨changed, ran⟩, heaps.refl heap'⟩
  | other _ grows ih =>
    have before := ih mem
    exact ⟨before.1, heaps.trans before.2 grows⟩

theorem Extends.isShapeTensor {prop prop' : ShardingProperty} (extends_ : Extends prop prop')
    (isShape : prop.isShapeTensor = true) : prop'.isShapeTensor = true := by
  unfold ShardingProperty.isShapeTensor at isShape ⊢
  rw [Bool.and_eq_true] at isShape ⊢
  rw [extends_.rank]
  exact ⟨(extends_.mark isShape.1).1, isShape.2⟩

namespace ReshapeOp

variable {op : ReshapeOp} {before after : Heap} {dim : Nat} {input : ShardingProperty} {spec : SplitSpec}

theorem reshapeVec_eq (op : ReshapeOp) : op.desc.reshapeVec = .ok (op.target.map Int.ofNat) := by
  unfold ReshapeDesc.reshapeVec
  apply if_neg
  change op.target.map Int.ofNat ≠ [-1]
  simp_all

theorem leading_eq (leading : leadingDimsMatch dim op.desc.operandShape (op.target.map Int.ofNat) = .ok true) :
    ∃ lead later later', lead.length = dim ∧ op.extents = lead ++ later ∧ op.target = lead ++ later' := by
  obtain ⟨lead, later, later', isLength, isExtents, isVec⟩ := leadingDimsMatch_eq_true leading
  obtain ⟨lead₁, later₁, isExtents, isLead₁, _⟩ := List.map_eq_append_iff.1 isExtents
  obtain ⟨lead₂, later₂, isTarget, isLead₂, _⟩ := List.map_eq_append_iff.1 isVec
  have sameLead : lead₁ = lead₂ := by
    rw [← isLead₂] at isLead₁
    exact List.map_injective_iff.2 (fun _ _ => Int.ofNat.inj) isLead₁
  refine ⟨lead₁, later₁, later₂, ?_, isExtents, ?_⟩
  · rw [← isLength, ← isLead₁, List.length_map]
  · rw [sameLead]
    exact isTarget

theorem Propagates.allowed_taken (propagates : op.Propagates before after dim input spec)
    {allowed : Nat → Nat → SplitSpec → Prop} (new : NewSpecs allowed before after) :
    ∃ placed, placed.type = .size ∧ allowed op.output dim placed := by
  obtain ⟨output, placed, atOutput, atDim, isSize⟩ := propagates.taken
  refine ⟨placed, isSize, ?_⟩
  obtain ⟨old, atOld, isNew⟩ := new op.output output atOutput
  rcases isNew dim placed atDim with was | isAllowed
  · have unset := propagates.unset old atOld placed was
    have isSet : placed.isInitialized = true := by
      change decide (placed.type ≠ .uninit) = true
      rw [isSize]
      rfl
    rw [unset] at isSet
    cases isSet
  · exact isAllowed

/-- What a call that goes on has checked, and what it leaves at the shape operand. -/
theorem Propagates.sliced (propagates : op.Propagates before after dim input spec)
    (ran : reshapeInfer op.desc op.props before = .ok (changed, after)) : input.isSplitSingleOnly = false ∧
      (∃ lead later later', lead.length = dim ∧ op.extents = lead ++ later ∧ op.target = lead ++ later') ∧
      ∃ shape shape', before[op.shape]? = some shape ∧ after[op.shape]? = some shape' ∧
        shape'.isShapeTensor = true ∧ shape'.postOps ≠ [] ∧
        (shape.postOps = [] → shape'.postOps = [.shapeSlice [dim] [spec]] ∧
          DividesTarget (op.target.map Int.ofNat) spec dim) ∧
        (shape.postOps ≠ [] → shape'.postOps = shape.postOps) := by
  obtain ⟨inputRef, shapeRef, outputRef, marked, middle, report, input', output, isRefs, isOutput, isMarked,
    atInput', _, went⟩ := reshapeInfer_eq_ok ran
  cases isRefs
  cases isOutput
  obtain ⟨found, atFound, same, _⟩ := markShape_at isMarked propagates.atInput
  rw [atInput'] at atFound
  cases atFound
  rcases went with ⟨split, forward⟩ | ⟨split, backward⟩ | default
  · rcases (reshapeForward_spec (isInitialized_of_isSplitInOneDim split) forward).2 with
      new | ⟨place, spec', sliced, slices, grows, new⟩
    · obtain ⟨placed, isSize, isSingle⟩ := propagates.allowed_taken ((markShape_newSpecs isMarked).trans new)
      rw [isSingle] at isSize
      cases isSize
    obtain ⟨placed, isSize, isSingle | ⟨_, isPlace⟩⟩ :=
      propagates.allowed_taken ((markShape_newSpecs isMarked).trans new)
    · rw [isSingle] at isSize
      cases isSize
    obtain ⟨atPlace, reshapeVec, ref, isVec, isRef, leading, slice⟩ := sliceAlong_eq_some slices
    rw [reshapeVec_eq] at isVec
    cases isVec
    cases isRef
    rw [← isPlace, same.splitSpecs, propagates.atDim] at atPlace
    cases atPlace
    rw [← isPlace] at leading slice
    rw [same.isSplitInOneDim] at split
    unfold ShardingProperty.isSplitInOneDim at split
    simp only [Bool.and_eq_true, Bool.not_eq_true'] at split
    refine ⟨split.1.2, leading_eq leading, ?_⟩
    obtain ⟨marked', sliced', atMarked, atSliced, isShape, added⟩ := sliceShape_eq_true propagates.isSize slice
    obtain ⟨shape, atShape, _⟩ :=
      @markShape_newSpecs _ _ _ (fun _ _ _ => False) _ isMarked op.shape marked' atMarked
    obtain ⟨found, atFound, _, sameOps⟩ := markShape_at isMarked atShape
    rw [atMarked] at atFound
    cases atFound
    obtain ⟨shape', atShape', extends_⟩ := heaps_at grows atSliced
    have someOps : sliced'.postOps ≠ [] := by
      rcases added with ⟨some, isSame⟩ | ⟨_, isSlice, _⟩
      · rwa [isSame]
      · rw [isSlice]
        exact List.cons_ne_nil _ _
    have kept := extends_.postOps someOps
    refine ⟨shape, shape', atShape, atShape', extends_.isShapeTensor isShape, by rwa [kept], ?_, ?_⟩
    · grind
    · intro some
      rcases added with ⟨_, isSame⟩ | ⟨none, _⟩
      · rw [kept, isSame, sameOps]
      · rw [sameOps] at none
        exact absurd none some
  · obtain ⟨placed, _, isInput⟩ := propagates.allowed_taken ((markShape_newSpecs isMarked).trans
      (reshapeBackward_spec (isInitialized_of_isSplitInOneDim split) backward).2)
    exact absurd isInput op.fresh
  · obtain ⟨placed, isSize, isSingle⟩ := propagates.allowed_taken ((markShape_newSpecs isMarked).trans
      (allInputsSingleSplitOnly_newSpecs default))
    rw [isSingle] at isSize
    cases isSize

end ReshapeOp

theorem toInt32_of_fits {value : Int} (nonneg : 0 ≤ value) (fits : value < 2 ^ 31) : toInt32 value = value := by
  unfold toInt32
  rcases Int.lt_or_eq_of_le nonneg with positive | isZero
  · exact (bmod_eq_iff positive).2 fits
  · rw [← isZero]
    rfl

theorem SplitSpec.InProportion.tdiv_eq {other spec : SplitSpec} (alike : other.InProportion spec)
    {size size' entry part : Int} (atShard : spec.sizes[k]? = some size) (atOther : other.sizes[k]? = some size')
    (positive : 0 < spec.sizes.sum) (isPart : entry * size = spec.sizes.sum * part) :
    (entry * size').tdiv other.getTotalSize = part := by
  obtain ⟨found, atFound, proportion⟩ := alike.sizes k size atShard
  rw [atOther] at atFound
  cases atFound
  have product : entry * size' = part * other.getTotalSize := by
    apply Int.eq_of_mul_eq_mul_right (Int.ne_of_gt positive)
    calc
      entry * size' * spec.sizes.sum = entry * (size' * spec.sizes.sum) := Int.mul_assoc _ _ _
      _ = entry * size * other.getTotalSize := by rw [proportion, Int.mul_assoc]
      _ = part * other.getTotalSize * spec.sizes.sum := by
          rw [isPart]
          ring
  rw [product, Int.mul_tdiv_cancel _ alike.total]

theorem slicedShape_of_slice {other spec : SplitSpec} {target : List Nat} {dim part : Nat}
    {size : Int} (isShape : shape.isShapeTensor = true) (isSlice : shape.postOps = [.shapeSlice [dim] [other]])
    (alike : other.InProportion spec) (atShard : spec.sizes[k]? = some size) (atEntry : target[dim]? = some entry)
    (positive : 0 < spec.sizes.sum) (isPart : (entry : Int) * size = spec.sizes.sum * part)
    (othersFit : ∀ place value, place ≠ dim → target[place]? = some value → value < 2 ^ 31) (partFits : part < 2 ^ 31) :
    slicedShape shape (target.map Int.ofNat) k = .ok ((target.set dim part).map Int.ofNat) := by
  obtain ⟨size', atOther, _⟩ := alike.sizes k size atShard
  have atValue : (target.map Int.ofNat)[dim]? = some (entry : Int) := by
    rw [List.getElem?_map, atEntry]
    rfl
  have stored : ((target.map Int.ofNat).set dim part).map toInt32 = (target.set dim part).map Int.ofNat := by
    change ((target.map Int.ofNat).set dim (Int.ofNat part)).map toInt32 = _
    rw [← List.map_set, List.map_map]
    apply List.map_congr_left
    intro value mem
    obtain ⟨place, atPlace⟩ := List.mem_iff_getElem?.1 mem
    have fits : value < 2 ^ 31 := by
      grind
    have fitsInt : (value : Int) < 2 ^ 31 := by omega
    rw [Function.comp_apply, Int.ofNat_eq_natCast]
    exact toInt32_of_fits (Int.natCast_nonneg value) fitsInt
  unfold slicedShape
  rw [isSlice, List.foldlM_cons, bind_ok]
  refine ⟨_, ?_, rfl⟩
  unfold slicePostOp
  dsimp only
  rw [isShape, Bool.not_true, if_neg Bool.false_ne_true, if_neg fun several => several rfl]
  refine bind_ok.2 ⟨other, rfl, bind_ok.2 ⟨dim, rfl, bind_ok.2 ⟨entry, readAt_eq_ok.2 atValue, ?_⟩⟩⟩
  rw [alike.isSize]
  refine bind_ok.2 ⟨size', readAt_eq_ok.2 atOther, ?_⟩
  rw [if_neg alike.total, alike.tdiv_eq atShard atOther positive isPart, stored]
  rfl

theorem getElem?_parts {sizes : List Nat} (atShard : sizes[k]? = some size) :
    ∃ offset, (parts 0 sizes)[k]? = some (offset, size) := by
  rw [← map_snd_parts 0 sizes, List.getElem?_map, Option.map_eq_some_iff] at atShard
  obtain ⟨part, atPart, isSize⟩ := atShard
  exact ⟨part.1, by rw [atPart, ← isSize]⟩

theorem SplitAlong.shardAt_eq {α : Type} {extents : List Nat} {input : ShardingProperty} {dim : Nat} {spec : SplitSpec}
    (split : SplitAlong extents input dim spec) (several : input.isSplitSingleOnly = false)
    (atDim : input.splitSpecs[dim]? = some spec) {x : Tensor α} (isExtents : x.extents = extents) (k : Nat) :
    input.shardAt x k = (parts 0 (spec.sizes.map Int.toNat))[k]?.map fun part => x.slice dim part.1 part.2 := by
  unfold ShardingProperty.shardAt
  rw [several, if_neg Bool.false_ne_true, split.alone]
  dsimp only
  rw [List.getD_eq_getElem?_getD, atDim, Option.getD_some, isExtents, if_pos ⟨split.nonneg, split.sums⟩]

namespace ReshapeOp

variable {op : ReshapeOp} {before after : Heap} {dim : Nat} {input : ShardingProperty} {spec : SplitSpec}

theorem SlicesAlike.slice_after (alike : op.SlicesAlike before dim input spec) (isSize : spec.type = .size)
    (positive : 0 < spec.sizes.sum) {postOps : List PostOp}
    (atShape : before[op.shape]? = some shape) (own : shape.postOps = [] → postOps = [.shapeSlice [dim] [spec]] ∧
      DividesTarget (op.target.map Int.ofNat) spec dim) (others : shape.postOps ≠ [] → postOps = shape.postOps) :
    ∃ other entry, postOps = [.shapeSlice [dim] [other]] ∧ other.InProportion spec ∧ op.target[dim]? = some entry ∧
      ∀ size ∈ spec.sizes, spec.sizes.sum ∣ entry * size := by
  rcases alike.slice shape atShape with ⟨none, fits⟩ | ⟨other, entry, isSlice, proportional, atEntry, divides⟩
  · obtain ⟨isSlice, divides⟩ := own none
    have isTotal : spec.getTotalSize = spec.sizes.sum := by
      change accumulateInt spec.sizes = _
      rw [accumulateInt_eq]
      exact (bmod_eq_iff positive).2 fits
    have proportional : spec.InProportion spec := by
      refine ⟨isSize, by omega, ?_⟩
      intro k size atShard
      exact ⟨size, atShard, by rw [isTotal]⟩
    -- The entry is read at some size.
    cases isSizes : spec.sizes with
    | nil =>
      rw [isSizes] at positive
      exact absurd positive (by decide)
    | cons first rest =>
      obtain ⟨_, value, atValue, _⟩ := divides first (by rw [isSizes]; exact List.mem_cons_self)
      rw [List.getElem?_map, Option.map_eq_some_iff] at atValue
      obtain ⟨entry, atEntry, isValue⟩ := atValue
      refine ⟨spec, entry, isSlice, proportional, atEntry, ?_⟩
      intro size mem
      rw [← isSizes] at mem ⊢
      obtain ⟨_, other, atOther, divisible⟩ := divides size mem
      rw [List.getElem?_map, atEntry] at atOther
      cases atOther
      rwa [isTotal] at divisible
  · exact ⟨other, entry, (others (by rw [isSlice]; exact List.cons_ne_nil _ _)).trans isSlice, proportional,
      atEntry, divides⟩

theorem exists_lead (leading : ∃ lead later later', lead.length = dim ∧ op.extents = lead ++ later ∧ op.target = lead ++ later')
    (atExtent : op.extents[dim]? = some extent) (atEntry : op.target[dim]? = some entry) :
    ∃ lead xs ys, lead.length = dim ∧ op.extents = lead ++ extent :: xs ∧ op.target = lead ++ entry :: ys ∧
      0 < extent ∧ 0 < entry ∧ 0 < xs.prod ∧ 0 < ys.prod ∧ extent * xs.prod = entry * ys.prod := by
  obtain ⟨lead, later, later', isLength, isExtents, isTarget⟩ := leading
  rw [isExtents, List.getElem?_append_right (Nat.le_of_eq isLength), isLength, Nat.sub_self] at atExtent
  rw [isTarget, List.getElem?_append_right (Nat.le_of_eq isLength), isLength, Nat.sub_self] at atEntry
  cases later with
  | nil => cases atExtent
  | cons first xs =>
    cases later' with
    | nil => cases atEntry
    | cons first' ys =>
      cases atExtent
      cases atEntry
      have positive := op.positive
      have sameCount := op.sameCount
      rw [isExtents, isTarget] at positive sameCount
      simp only [List.mem_append, List.mem_cons] at positive
      have leadPositive : 0 < lead.prod := CanonicallyOrderedAdd.list_prod_pos.2 fun a mem => positive a (by simp [mem])
      rw [List.prod_append, List.prod_append, List.prod_cons, List.prod_cons] at sameCount
      exact ⟨lead, xs, ys, isLength, isExtents, isTarget, positive extent (by simp), positive entry (by simp),
        CanonicallyOrderedAdd.list_prod_pos.2 fun a mem => positive a (by simp [mem]),
        CanonicallyOrderedAdd.list_prod_pos.2 fun a mem => positive a (by simp [mem]),
        Nat.eq_of_mul_eq_mul_left leadPositive sameCount⟩

theorem part_count {count count' : Nat} (positive : 0 < extent)
    (sameCount : extent * count = entry * count') (divisible : extent ∣ entry * size) :
    size * count = entry * size / extent * count' := by
  obtain ⟨part, isPart⟩ := divisible
  rw [isPart, Nat.mul_div_cancel_left _ positive]
  apply Nat.eq_of_mul_eq_mul_left positive
  calc
    extent * (size * count) = size * (entry * count') := by rw [← sameCount, Nat.mul_left_comm]
    _ = entry * size * count' := by rw [← Nat.mul_assoc, Nat.mul_comm size]
    _ = extent * part * count' := by rw [isPart]
    _ = extent * (part * count') := Nat.mul_assoc _ _ _

theorem Propagates.reshapesShards (propagates : op.Propagates before after dim input spec)
    (ran : reshapeInfer op.desc op.props before = .ok (changed, after))
    (alike : op.SlicesAlike before dim input spec) (grows : heaps.le after final) :
    ∃ shape, final[op.shape]? = some shape ∧ op.ReshapesShards input shape dim := by
  obtain ⟨several, leading, shape, shape', atShape, atShape', isShape, someOps, own, others⟩ :=
    propagates.sliced ran
  obtain ⟨last, atLast, extends_⟩ := heaps_at grows atShape'
  have split := alike.split
  obtain ⟨extent, atExtent, isSum⟩ := Option.map_eq_some_iff.1 split.sums
  have isExtent : (extent : Int) = spec.sizes.sum := isSum
  have extentPositive : 0 < extent := op.positive extent (List.mem_append_left _ (List.mem_of_getElem? atExtent))
  obtain ⟨other, entry, isSlice, proportional, atEntry, divides⟩ :=
    alike.slice_after propagates.isSize (by omega) atShape own others
  obtain ⟨lead, xs, ys, isLength, isExtents, isTarget, _, _, xsPositive, ysPositive, sameCount⟩ :=
    exists_lead leading atExtent atEntry
  have nonneg : ∀ size ∈ spec.sizes, ((size.toNat : Nat) : Int) = size :=
    fun size mem => Int.toNat_of_nonneg (split.nonneg size mem)
  have divisible : ∀ size ∈ spec.sizes, extent ∣ entry * size.toNat := by
    intro size mem
    have divisibleInt := divides size mem
    rw [← isExtent, ← nonneg size mem] at divisibleInt
    exact_mod_cast divisibleInt
  have sumNat : (spec.sizes.map Int.toNat).sum = extent := by
    have isTotal := sum_toNat split.nonneg
    omega
  -- The parts of the entry, for the parts of the dim.
  generalize isParts : ((spec.sizes.map Int.toNat).map fun size => entry * size / extent) = sizes'
  have sameCounts : List.Forall₂ (fun size size' => size * xs.prod = size' * ys.prod)
      (spec.sizes.map Int.toNat) sizes' := by
    rw [← isParts, List.forall₂_map_right_iff, List.forall₂_same]
    intro size mem
    obtain ⟨source, isSource, isSize⟩ := List.mem_map.1 mem
    rw [← isSize]
    exact part_count extentPositive sameCount (divisible source isSource)
  have sumParts : sizes'.sum = entry := by
    apply Nat.eq_of_mul_eq_mul_right ysPositive
    rw [← Tensor.sum_mul_prod sameCounts, sumNat, sameCount]
  refine ⟨last, atLast, ?_⟩
  intro α x isX
  have isX' : x.extents = lead ++ (spec.sizes.map Int.toNat).sum :: xs := by rw [isX, isExtents, sumNat]
  have whole := Tensor.concatenates_reshape isX' xsPositive sameCounts
  rw [sumParts, ← isTarget, isLength] at whole
  refine ⟨_, ?_, ?_, whole⟩
  · rw [List.length_zipWith, Tensor.length_parts, ← sameCounts.length_eq, Nat.min_self, List.length_map, split.counted]
  · intro k bound
    rw [split.counted] at bound
    have atShard := List.getElem?_eq_getElem bound
    generalize spec.sizes[k] = size at atShard
    have mem := List.mem_of_getElem? atShard
    have atSize : (spec.sizes.map Int.toNat)[k]? = some size.toNat := by rw [List.getElem?_map, atShard]; rfl
    have atPart : sizes'[k]? = some (entry * size.toNat / extent) := by
      rw [← isParts, List.getElem?_map, atSize]
      rfl
    obtain ⟨offset, atOffset⟩ := getElem?_parts atSize
    refine ⟨x.slice dim offset size.toNat, lead ++ (entry * size.toNat / extent) :: ys, ?_, ?_, ?_, ?_⟩
    · rw [split.shardAt_eq several propagates.atDim isX, atOffset]
      rfl
    · have isPart : (entry : Int) * size = spec.sizes.sum * (entry * size.toNat / extent : Nat) := by
        rw [← isExtent, ← nonneg size mem]
        exact_mod_cast (Nat.mul_div_cancel' (divisible size mem)).symm
      have partFits : ((entry * size.toNat / extent : Nat) : Int) < 2 ^ 31 := by
        have fits := alike.partsFit entry atEntry size mem
        rw [isPart, Int.mul_comm (2 ^ 31)] at fits
        exact Int.lt_of_mul_lt_mul_left fits (by omega)
      have isTargetSet : op.target.set dim (entry * size.toNat / extent) =
          lead ++ (entry * size.toNat / extent) :: ys := by
        rw [isTarget, List.set_append_right _ _ (Nat.le_of_eq isLength), isLength, Nat.sub_self, List.set_cons_zero]
      rw [← isTargetSet]
      exact slicedShape_of_slice (extends_.isShapeTensor isShape) ((extends_.postOps someOps).trans isSlice)
        proportional atShard atEntry (by omega) isPart alike.othersFit (by omega)
    · change _ = (x.extents.set dim size.toNat).prod
      rw [isX, isExtents, List.set_append_right _ _ (Nat.le_of_eq isLength), isLength, Nat.sub_self, List.set_cons_zero]
      exact (prod_append_cons (part_count extentPositive sameCount (divisible size mem))).symm
    · rw [List.getElem?_zipWith, atOffset, atPart]

end ReshapeOp

/-! ## Runs with a shared constant -/

/-- In a run, what a call gives on is sound from then on, if the slice at the shape operand
is alike. -/
theorem Reaches.shards_of_alike {ops : ReshapeOp → Prop} {start final : Heap} {calls : List ReshapeCall}
    (run : Reaches ops start calls final) {call : ReshapeCall} (member : call ∈ calls) {dim : Nat}
    {input : ShardingProperty} {spec : SplitSpec}
    (propagates : call.op.Propagates call.before call.after dim input spec)
    (alike : call.op.SlicesAlike call.before dim input spec) :
    ∃ shape, final[call.op.shape]? = some shape ∧ call.op.ReshapesShards input shape dim := by
  obtain ⟨⟨changed, returned⟩, grows⟩ := run.of_mem member
  exact propagates.reshapesShards returned alike grows

/-- A tensor of four rows on two devices. -/
def fourRows (rest : List Int) (rows : SplitSpec) (other : SplitSpec) (orderedSplitDims : List Nat) : ShardingProperty :=
  { rank := rest.length + 1, shape := 4 :: rest, deviceIds := [0, 1]
    splitSpecs := rows :: List.replicate rest.length other, orderedSplitDims := orderedSplitDims
    specsMatchRank := by
      rw [List.length_cons, List.length_replicate]
      rfl }

def splitRows (rest sizes : List Int) : ShardingProperty :=
  fourRows rest (.buildFromSizes sizes []) .buildSingleSplit [0]

/-- The constant, with its post-operations. -/
def rowsShape (postOps : List PostOp) : ShardingProperty :=
  { elementType := .integer, rank := 1, shape := [2], deviceIds := [0, 1], splitSpecs := [.buildSingleSplit]
    postOps := postOps, isShapeOrSizeTensor := !postOps.isEmpty
    shapeSplitSpecs := if postOps = [] then [] else [.buildSingleSplit, .buildSingleSplit]
    specsMatchRank := rfl }

/-- Two tensors, the constant that both are reshaped to, and the results. -/
def rowsHeap (first second : List Int) (postOps : List PostOp) (result result' : ShardingProperty) : Heap :=
  [splitRows [2, 3] first, rowsShape postOps, result, splitRows [3, 2] second, result']

def firstRows : ReshapeOp :=
  { input := 0, shape := 1, output := 2, extents := [4, 2, 3], target := [4, 6], fresh := by decide
    positive := by decide, sameCount := by decide }

def secondRows : ReshapeOp :=
  { input := 3, shape := 1, output := 4, extents := [4, 3, 2], target := [4, 6], fresh := by decide
    positive := by decide, sameCount := by decide }

def unsetRows : ShardingProperty := fourRows [6] {} {} []

def rowsBefore (first second : List Int) : Heap := rowsHeap first second [] unsetRows unsetRows

def rowsSlice (sizes : List Int) : PostOp := .shapeSlice [0] [.buildFromSizes sizes []]

def rowsMiddle (first second : List Int) : Heap :=
  rowsHeap first second [rowsSlice first] (splitRows [6] first) unsetRows

def rowsAfter (first second : List Int) : Heap :=
  rowsHeap first second [rowsSlice first] (splitRows [6] first) (splitRows [6] second)

/-- Both operations are called, the second one when the constant is sliced for the first. -/
theorem rows_run {first second : List Int} {changed changed' : Bool}
    (ran : reshapeInfer firstRows.desc firstRows.props (rowsBefore first second) =
      .ok (changed, rowsMiddle first second))
    (ran' : reshapeInfer secondRows.desc secondRows.props (rowsMiddle first second) =
      .ok (changed', rowsAfter first second)) :
    Reaches (fun op => op = firstRows ∨ op = secondRows) (rowsBefore first second)
      [⟨firstRows, rowsBefore first second, rowsMiddle first second⟩,
        ⟨secondRows, rowsMiddle first second, rowsAfter first second⟩] (rowsAfter first second) :=
  .call secondRows (.call firstRows .refl (.inl rfl) ran) (.inr rfl) ran'

theorem secondRows_propagates (first : List Int) {second : List Int}
    (initialised : (splitRows [3, 2] second).isInitialized = true) :
    secondRows.Propagates (rowsMiddle first second) (rowsAfter first second) 0 (splitRows [3, 2] second)
      (.buildFromSizes second []) where
  atInput := rfl
  initialised := initialised
  atDim := rfl
  isSize := rfl
  unset := by
    intro output atOutput old atDim
    cases atOutput
    cases atDim
    rfl
  taken := ⟨splitRows [6] second, .buildFromSizes second [], rfl, rfl, rfl⟩

theorem shared_halves_concatenate : ∃ shape, (rowsAfter [2, 2] [2, 2])[secondRows.shape]? = some shape ∧
      secondRows.ReshapesShards (splitRows [3, 2] [2, 2]) shape 0 := by
  have run := @rows_run [2, 2] [2, 2] true true (by decide +kernel) (by decide +kernel)
  refine run.shards_of_alike (List.mem_cons_of_mem _ List.mem_cons_self)
    (secondRows_propagates [2, 2] (by decide)) ?_
  have proportional : SplitSpec.InProportion (.buildFromSizes [2, 2] []) (.buildFromSizes [2, 2] []) :=
    ⟨rfl, by decide, fun k size atShard => ⟨size, atShard, rfl⟩⟩
  refine ⟨⟨rfl, rfl, by decide, rfl⟩, ?_, ?_, ?_⟩
  · intro shape atShape
    cases atShape
    exact .inr ⟨_, 4, rfl, proportional, rfl, by decide⟩
  · intro place entry different atPlace
    have small : ∀ entry ∈ secondRows.target, entry < 2 ^ 31 := by decide
    exact small entry (List.mem_of_getElem? atPlace)
  · intro entry atEntry
    cases atEntry
    decide

/-- The constant is sliced for a split in one row and three rows. -/
theorem shared_rows_mixed :
    ¬ ∀ (ops : ReshapeOp → Prop) (start final : Heap) (calls : List ReshapeCall) (call : ReshapeCall) (dim : Nat)
      (input : ShardingProperty) (spec : SplitSpec), Reaches ops start calls final → call ∈ calls →
      call.op.Propagates call.before call.after dim input spec →
      ∃ shape, final[call.op.shape]? = some shape ∧ call.op.ReshapesShards input shape dim := by
  intro sound
  have run := @rows_run [1, 3] [2, 2] true true (by decide +kernel) (by decide +kernel)
  obtain ⟨shape, atShape, reshapes⟩ := sound _ _ _ _ _ 0 _ _ run (List.mem_cons_of_mem _ List.mem_cons_self)
    (secondRows_propagates [1, 3] (by decide))
  cases atShape
  obtain ⟨_, _, each, _⟩ := reshapes Unit ⟨[4, 3, 2], fun _ => ()⟩ rfl
  obtain ⟨shard, target, isShard, isTarget, sameCount, _⟩ := each 0 (by decide)
  have sliced : slicedShape (rowsShape [rowsSlice [1, 3]]) (secondRows.target.map Int.ofNat) 0 = .ok [1, 6] := by
    decide
  have isSixth : target = [1, 6] := by
    have same : target.map Int.ofNat = [1, 6].map Int.ofNat := Except.ok.inj (isTarget.symm.trans sliced)
    exact List.map_injective_iff.2 (fun _ _ => Int.ofNat.inj) same
  have isHalf : shard.extents = [2, 3, 2] := by
    cases isShard
    rfl
  rw [isSixth, isHalf] at sameCount
  exact absurd sameCount (by decide)

end Itex.XpuAutoShard.Hsp
