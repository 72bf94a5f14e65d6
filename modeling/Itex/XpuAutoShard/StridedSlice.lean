import Itex.Kernels.StridedSlice
import Itex.XpuAutoShard.Splits
import Itex.XpuAutoShard.Reduction

/-!
Contract: the dim groups of slices
(`common/hsp_inference/tfg_ops.cpp`,
`StridedSliceInfer`).

Owns: when `StridedSlice` and `Slice` have groups, and when these follow the slice.

The bounds are constants, and the shape of the operand is known.
-/

namespace Itex.XpuAutoShard.Hsp

open Itex.Lib
open Itex.Kernels (StridedSliceSpec SlicedDim DimSpec validateStridedSliceOp sharedValidation)

/-! ## Inference -/

inductive SliceName where
  | stridedSlice
  | slice
deriving DecidableEq, Repr

/-- What inference reads of a slice. -/
structure SliceDesc where
  name : SliceName
  shape : List Int
  /-- The constants of the operands after the first. -/
  constOperands : List (List Int)
  attrs : List (String × Int)

/-- `getAttrInt64`. Without the attribute a null pointer is read. -/
def SliceDesc.getAttrInt64 (desc : SliceDesc) (attrName : String) : Except Failure Int :=
  match desc.attrs.lookup attrName with
  | some value => .ok value
  | none => .error (.crash "null attribute")

/-- What `StridedSliceInfer` does. -/
inductive SlicePlan where
  | nothing
  | sizeTensor (selectedDim : Int)
  | dimGroups (rank : Nat)
deriving DecidableEq, Repr

def batchBounds (desc : SliceDesc) : Except Failure (Int × Int × Int) := do
  let beginParam ← readAt desc.constOperands 0
  let endParam ← readAt desc.constOperands 1
  let beginBatchDim ← readAt beginParam 0
  let endBatchDim ← readAt endParam 0
  let strideBatchDim := ((desc.constOperands.getD 2 []).head?).getD 1
  let beginMask ← desc.getAttrInt64 "begin_mask"
  let endMask ← desc.getAttrInt64 "end_mask"
  let dimSize ← readAt desc.shape 0
  return (if beginMask.testBit 0 then 0 else beginBatchDim, if endMask.testBit 0 then dimSize - 1 else endBatchDim,
    strideBatchDim)

/-- The test of the end: a truth value, minus one. -/
def endIsSliced (endBatchDim dimSize : Int) : Bool :=
  (if endBatchDim ≠ 0 ∨ endBatchDim ≠ dimSize then 1 else 0) - 1 ≠ (0 : Int)

def planSlice (desc : SliceDesc) : Except Failure SlicePlan := do
  let (beginBatchDim, endBatchDim, strideBatchDim) ← batchBounds desc
  let dimSize ← readAt desc.shape 0
  if desc.shape.length = 1 ∧ (endBatchDim - beginBatchDim).natAbs ≤ strideBatchDim then
    return .sizeTensor beginBatchDim
  else if beginBatchDim ≠ 0 ∨ endIsSliced endBatchDim dimSize ∨ strideBatchDim ≠ 1 then return .nothing
  else return .dimGroups desc.shape.length

/-- The masks that end inference at once. -/
def hasOtherMasks (desc : SliceDesc) : Except Failure Bool :=
  match desc.name with
  | .slice => .ok false
  | .stridedSlice => do
    let ellipsisMask ← desc.getAttrInt64 "ellipsis_mask"
    if ellipsisMask ≠ 0 then return true
    else do
      let newAxisMask ← desc.getAttrInt64 "new_axis_mask"
      return decide (newAxisMask ≠ 0)

def planStridedSlice (desc : SliceDesc) : Except Failure SlicePlan := do
  let other ← hasOtherMasks desc
  if other then return .nothing else planSlice desc

def SlicePlan.groups : SlicePlan → List DimGroup
  | .dimGroups rank => (List.range rank).map fun dim => identicalPair dim dim
  | .nothing | .sizeTensor _ => []

/-- The size of the first dim of a shape becomes a size tensor. -/
def inferSizeTensor (selectedDim : Int) (props : OpProps) (heap : Heap) : DoInfer :=
  match readFirst props heap with
  | .error failure => .fail failure
  | .ok (input, _, outputRef) =>
    if !input.isShapeTensor then .done
    else if selectedDim < 0 then .fail (.crash "vector index out of range")
    else
      match readAt input.shapeSplitSpecs selectedDim.toNat with
      | .error failure => .fail failure
      | .ok splitSpec => .apply (.setSizeTensorSpec outputRef splitSpec) true fun _ _ => .done

def stridedSliceInfer (desc : SliceDesc) (props : OpProps) (heap : Heap) : DoInfer :=
  match planStridedSlice desc with
  | .error failure => .fail failure
  | .ok (.sizeTensor selectedDim) => inferSizeTensor selectedDim props heap
  | .ok plan => inferWithDimGroups props (.ok plan.groups) heap

/-! ## What the groups should say -/

/-- A slice with its constants; a strided one has no ellipsis and no new axes. -/
inductive SliceOp where
  | stridedSlice (spec : StridedSliceSpec)
  | slice (beginValues sizeValues : List Int)

def SliceOp.desc (shape : List Int) : SliceOp → SliceDesc
  | .stridedSlice spec => ⟨.stridedSlice, shape, [spec.beginValues, spec.endValues, spec.strides],
      [("begin_mask", spec.beginMask), ("end_mask", spec.endMask), ("ellipsis_mask", 0), ("new_axis_mask", 0),
        ("shrink_axis_mask", spec.shrinkAxisMask)]⟩
  | .slice beginValues sizeValues => ⟨.slice, shape, [beginValues, sizeValues], []⟩

/-- What the kernel takes of each dim. -/
def SliceOp.dims (shape : List Int) : SliceOp → Except String (List SlicedDim)
  | .stridedSlice spec => validateStridedSliceOp spec shape
  | .slice beginValues sizeValues => sharedValidation beginValues sizeValues shape

/-- The dim of the output that a dim of the operand becomes. -/
def outputDim (dims : List SlicedDim) (dim : Nat) : Option Nat :=
  match dims[dim]? with
  | none => none
  | some sliced => if sliced.shrinkI then none else some ((dims.take dim).countP fun before => !before.shrinkI)

/-- Inference returns; it relates the first dims exactly where the slice keeps the first dim
whole, and pairs each dim with the one it becomes. -/
def FollowsSlice (op : SliceOp) (shape : List Int) (dims : List SlicedDim) : Prop :=
  ∃ plan, planStridedSlice (op.desc shape) = .ok plan ∧
    ((∃ group ∈ plan.groups, ⟨true, 0, 0⟩ ∈ group.items ∧ ⟨false, 0, 0⟩ ∈ group.items) ↔
      ∃ sliced n, dims[0]? = some sliced ∧ shape[0]? = some n ∧ sliced.KeepsWhole n.toNat) ∧
    ∀ group ∈ plan.groups, ∃ dim output, group = identicalPair dim output ∧ outputDim dims dim = some output

/-- The bounds of the first dim for which groups are made. -/
def TestsWhole (first : DimSpec) (n : Int) : Prop :=
  (first.beginMasked = true ∨ first.beginI = 0) ∧ first.strideI = 1 ∧
    ¬ (n = 0 ∧ first.endMasked = false ∧ first.endI = 0)

/-- Where groups are made, the end of the first dim is reached and no dim is shrunk, and
where none are made, the bounds do not take the whole dim. -/
def SliceOp.Fits (shape : List Int) : SliceOp → Prop
  | .stridedSlice spec => spec.beginValues ≠ [] ∧ ∀ n, shape[0]? = some n →
      (TestsWhole (spec.dimSpec 0) n → (∀ i < spec.strides.length, spec.shrinkAxisMask.testBit i = false) ∧
        (n = 0 ∨ (spec.dimSpec 0).endMasked = true ∨ n ≤ (spec.dimSpec 0).endI)) ∧
      (¬ TestsWhole (spec.dimSpec 0) n → (spec.dimSpec 0).shrinkI = true ∨ ¬ (spec.dimSpec 0).TakesAll n)
  | .slice _ _ => False

instance (first : DimSpec) (n : Int) : Decidable (TestsWhole first n) := by
  unfold TestsWhole
  infer_instance

/-! ## Groups -/

theorem endIsSliced_iff (endBatchDim dimSize : Int) :
    endIsSliced endBatchDim dimSize = true ↔ endBatchDim = 0 ∧ dimSize = 0 := by
  unfold endIsSliced
  rw [decide_eq_true_iff]
  split
  next either => omega
  next neither => omega

section Plan

variable {spec : StridedSliceSpec} {shape : List Int}

theorem planStridedSlice_eq (several : 2 ≤ shape.length) {n : Int} (atFirst : shape[0]? = some n)
    (counted : spec.endValues.length = spec.beginValues.length ∧ spec.strides.length = spec.beginValues.length)
    (someBound : spec.beginValues ≠ []) : planStridedSlice ((SliceOp.stridedSlice spec).desc shape) =
      .ok (if TestsWhole (spec.dimSpec 0) n then .dimGroups shape.length else .nothing) := by
  obtain ⟨b, begins, isBegin⟩ := List.exists_cons_of_ne_nil someBound
  obtain ⟨e, ends, isEnd⟩ := List.exists_cons_of_length_pos (show 0 < spec.endValues.length by
    rw [counted.1]
    exact List.length_pos_iff.2 someBound)
  obtain ⟨s, strides, isStride⟩ := List.exists_cons_of_length_pos (show 0 < spec.strides.length by
    rw [counted.2]
    exact List.length_pos_iff.2 someBound)
  have bounds : batchBounds ((SliceOp.stridedSlice spec).desc shape) = .ok
      (if spec.beginMask.testBit 0 then 0 else b, if spec.endMask.testBit 0 then n - 1 else e, s) := by
    simp [batchBounds, SliceOp.desc, SliceDesc.getAttrInt64, isBegin, isEnd, isStride, readAt, atFirst, List.lookup,
      bind, Except.bind, pure, Except.pure]
  have noOther : hasOtherMasks ((SliceOp.stridedSlice spec).desc shape) = .ok false := by
    unfold hasOtherMasks SliceOp.desc SliceDesc.getAttrInt64
    simp [List.lookup, bind, Except.bind, pure, Except.pure]
  have isFirst : spec.dimSpec 0 = ⟨b, e, s, spec.beginMask.testBit 0, spec.endMask.testBit 0,
      spec.shrinkAxisMask.testBit 0⟩ := by
    unfold StridedSliceSpec.dimSpec
    rw [isBegin, isEnd, isStride]
    rfl
  have isTested : TestsWhole (spec.dimSpec 0) n ↔ ¬ ((if spec.beginMask.testBit 0 then 0 else b) ≠ 0 ∨
      endIsSliced (if spec.endMask.testBit 0 then n - 1 else e) n = true ∨ s ≠ 1) := by
    unfold TestsWhole
    rw [isFirst, endIsSliced_iff]
    dsimp only
    cases spec.beginMask.testBit 0 <;> cases spec.endMask.testBit 0 <;> simp <;> omega
  generalize (if spec.beginMask.testBit 0 then 0 else b) = beginBatchDim at bounds isTested
  generalize (if spec.endMask.testBit 0 then n - 1 else e) = endBatchDim at bounds isTested
  have isShape : ((SliceOp.stridedSlice spec).desc shape).shape = shape := rfl
  have notSingle : ¬ (shape.length = 1 ∧ ((endBatchDim - beginBatchDim).natAbs : Int) ≤ s) := fun single => by omega
  unfold planStridedSlice
  rw [noOther]
  change planSlice _ = _
  simp only [planSlice, bounds, isShape, readAt_eq_ok.2 atFirst, bind, Except.bind]
  rw [if_neg notSingle]
  by_cases tests : TestsWhole (spec.dimSpec 0) n
  · rw [if_pos tests, if_neg (isTested.1 tests)]
    rfl
  · rw [if_neg tests, if_pos (Classical.not_not.1 fun none => tests (isTested.2 none))]
    rfl

/-- Groups of equal dims are right where no dim is shrunk, and only there. -/
theorem outputDim_self_iff {dims : List SlicedDim} :
    (∀ dim < dims.length, outputDim dims dim = some dim) ↔ ∀ sliced ∈ dims, sliced.shrinkI = false := by
  constructor
  · intro same sliced mem
    obtain ⟨dim, atDim⟩ := List.mem_iff_getElem?.1 mem
    have here := same dim (read_lt atDim)
    unfold outputDim at here
    rw [atDim] at here
    dsimp only at here
    by_contra shrunk
    rw [Bool.not_eq_false] at shrunk
    rw [shrunk, if_pos rfl] at here
    cases here
  · intro none dim inside
    have atDim := List.getElem?_eq_getElem inside
    unfold outputDim
    rw [atDim]
    dsimp only
    rw [none _ (List.getElem_mem inside), if_neg Bool.false_ne_true, List.countP_eq_length.2, List.length_take,
      Nat.min_eq_left (Nat.le_of_lt inside)]
    intro sliced mem
    rw [none sliced (List.mem_of_mem_take mem), Bool.not_false]

variable {dims : List SlicedDim}

theorem none_shrunk_iff (valid : validateStridedSliceOp spec shape = .ok dims) (some_ : shape ≠ []) :
    (∀ sliced ∈ dims, sliced.shrinkI = false) ↔ ∀ i < spec.strides.length, spec.shrinkAxisMask.testBit i = false := by
  obtain ⟨_, counted, each⟩ := Kernels.validateStridedSliceOp_eq_ok valid
  constructor
  · intro none i inside
    obtain ⟨n, atFirst⟩ : ∃ n, shape[0]? = some n := ⟨_, List.getElem?_eq_getElem (List.length_pos_iff.2 some_)⟩
    have bound := (each 0 n atFirst).1
    have inShape : i < shape.length := by omega
    obtain ⟨_, sliced, atI, validI⟩ := each i _ (List.getElem?_eq_getElem inShape)
    have shrinks := Kernels.validate_shrinkI validI
    rw [none sliced (List.mem_of_getElem? atI)] at shrinks
    unfold StridedSliceSpec.dense at shrinks
    rw [if_pos inside] at shrinks
    exact shrinks.symm
  · intro none sliced mem
    obtain ⟨i, atI⟩ := List.mem_iff_getElem?.1 mem
    have inDims := read_lt atI
    obtain ⟨_, sliced', atI', validI⟩ := each i _ (List.getElem?_eq_getElem (show i < shape.length by omega))
    rw [atI] at atI'
    rw [Option.some.inj atI', Kernels.validate_shrinkI validI]
    unfold StridedSliceSpec.dense
    split
    next inside => exact none i inside
    next => rfl

theorem takesAll_iff_of_tests {first : DimSpec} {n : Int} (tests : TestsWhole first n) :
    first.TakesAll n ↔ n = 0 ∨ first.endMasked = true ∨ n ≤ first.endI := by
  obtain ⟨atBegin, unit, _⟩ := tests
  unfold DimSpec.TakesAll
  grind

/-- Strided slices: the end of the first dim is not tested, and shrunk dims are not skipped. -/
theorem followsStridedSlice_iff (several : 2 ≤ shape.length) (known : ∀ n ∈ shape, 0 ≤ n)
    (valid : validateStridedSliceOp spec shape = .ok dims) :
    FollowsSlice (.stridedSlice spec) shape dims ↔ (SliceOp.stridedSlice spec).Fits shape := by
  obtain ⟨counted, sameLength, each⟩ := Kernels.validateStridedSliceOp_eq_ok valid
  obtain ⟨n, atFirst⟩ : ∃ n, shape[0]? = some n := ⟨_, List.getElem?_eq_getElem (by omega)⟩
  by_cases noBound : spec.beginValues = []
  · have crashes : planStridedSlice ((SliceOp.stridedSlice spec).desc shape) =
        .error (.crash "vector index out of range") := by
      have noEnd : spec.endValues = [] := List.length_eq_zero_iff.1 (by rw [counted.1, noBound]; rfl)
      simp [planStridedSlice, planSlice, hasOtherMasks, batchBounds, SliceOp.desc, SliceDesc.getAttrInt64, noBound, noEnd,
        readAt, List.lookup, bind, Except.bind, pure, Except.pure]
    constructor
    · rintro ⟨plan, planned, _⟩
      rw [crashes] at planned
      cases planned
    · exact fun fits => absurd noBound fits.1
  have someStride : 0 < spec.strides.length := by
    rw [counted.2]
    exact List.length_pos_iff.2 noBound
  obtain ⟨_, first, atZero, validFirst⟩ := each 0 n atFirst
  unfold StridedSliceSpec.dense at validFirst
  rw [if_pos someStride] at validFirst
  have natural : ((n.toNat : Nat) : Int) = n := Int.toNat_of_nonneg (known n (List.mem_of_getElem? atFirst))
  rw [← natural] at validFirst
  have whole := Kernels.keepsWhole_iff validFirst
  rw [natural] at whole
  have planned := planStridedSlice_eq several atFirst counted noBound
  have keeps : (∃ sliced n, dims[0]? = some sliced ∧ shape[0]? = some n ∧ sliced.KeepsWhole n.toNat) ↔
      (spec.dimSpec 0).shrinkI = false ∧ (spec.dimSpec 0).TakesAll n := by
    rw [← whole]
    constructor
    · rintro ⟨sliced, n', atSliced, atN, isWhole⟩
      rw [atZero] at atSliced
      rw [atFirst] at atN
      rw [Option.some.inj atSliced, Option.some.inj atN]
      exact isWhole
    · exact fun isWhole => ⟨first, n, atZero, atFirst, isWhole⟩
  have relates : (∃ group ∈ (SlicePlan.dimGroups shape.length).groups, ⟨true, 0, 0⟩ ∈ group.items ∧
      ⟨false, 0, 0⟩ ∈ group.items) := by
    refine ⟨identicalPair 0 0, List.mem_map.2 ⟨0, List.mem_range.2 (by omega), rfl⟩, ?_⟩
    unfold identicalPair
    simp
  by_cases tests : TestsWhole (spec.dimSpec 0) n
  · rw [if_pos tests] at planned
    have takesAll := takesAll_iff_of_tests tests
    have shrunk := none_shrunk_iff valid (List.ne_nil_of_length_pos (by omega))
    constructor
    · rintro ⟨plan, planned', first_, pairs⟩
      rw [planned] at planned'
      rw [← Except.ok.inj planned'] at first_ pairs
      rw [keeps] at first_
      have same : ∀ dim < dims.length, outputDim dims dim = some dim := by
        intro dim inside
        obtain ⟨dim', output, isPair, isOutput⟩ := pairs (identicalPair dim dim)
          (List.mem_map.2 ⟨dim, List.mem_range.2 (by omega), rfl⟩)
        unfold identicalPair at isPair
        simp only [DimGroup.mk.injEq, List.cons.injEq, DimItem.mk.injEq, and_true, true_and] at isPair
        rw [isPair.1, isOutput, ← isPair.2, isPair.1]
      refine ⟨noBound, ?_⟩
      intro n' atN
      rw [atFirst] at atN
      rw [← Option.some.inj atN]
      exact ⟨fun _ => ⟨shrunk.1 (outputDim_self_iff.1 same), takesAll.1 (first_.1 relates).2⟩, fun fails => absurd tests fails⟩
    · rintro ⟨_, each_⟩
      obtain ⟨noShrunk, ends⟩ := (each_ n atFirst).1 tests
      refine ⟨_, planned, ?_, ?_⟩
      · rw [keeps]
        exact ⟨fun _ => ⟨noShrunk 0 someStride, takesAll.2 ends⟩, fun _ => relates⟩
      · intro group mem
        obtain ⟨dim, inside, isPair⟩ := List.mem_map.1 mem
        rw [List.mem_range] at inside
        exact ⟨dim, dim, isPair.symm, outputDim_self_iff.2 (shrunk.2 noShrunk) dim (by omega)⟩
  · rw [if_neg tests] at planned
    constructor
    · rintro ⟨plan, planned', first_, _⟩
      rw [planned] at planned'
      rw [← Except.ok.inj planned', keeps] at first_
      refine ⟨noBound, ?_⟩
      intro n' atN
      rw [atFirst] at atN
      rw [← Option.some.inj atN]
      refine ⟨fun passes => absurd passes tests, fun _ => ?_⟩
      by_contra either
      rw [not_or, Bool.not_eq_true, not_not] at either
      obtain ⟨group, mem, _⟩ := first_.2 either
      cases mem
    · rintro ⟨_, each_⟩
      refine ⟨_, planned, ?_, fun group mem => (by cases mem)⟩
      rw [keeps]
      constructor
      · rintro ⟨group, mem, _⟩
        cases mem
      · rintro ⟨notShrunk, takes⟩
        rcases (each_ n atFirst).2 tests with shrinks | fails
        · rw [notShrunk] at shrinks
          cases shrinks
        · exact absurd takes fails

end Plan

theorem planStridedSlice_slice (beginValues sizeValues shape : List Int) :
    ∃ failure, planStridedSlice ((SliceOp.slice beginValues sizeValues).desc shape) = .error failure := by
  simp only [planStridedSlice, hasOtherMasks, SliceOp.desc, planSlice, batchBounds, SliceDesc.getAttrInt64, bind, Except.bind,
    Bool.false_eq_true, if_false]
  cases beginValues with
  | nil => exact ⟨_, rfl⟩
  | cons b begins =>
    cases sizeValues with
    | nil => exact ⟨_, rfl⟩
    | cons size sizes => exact ⟨_, rfl⟩

/-- The groups follow the slice where, and only where, its bounds fit the tests. -/
theorem followsSlice_iff_fits {op : SliceOp} {shape : List Int} {dims : List SlicedDim} (several : 2 ≤ shape.length)
    (known : ∀ n ∈ shape, 0 ≤ n) (valid : op.dims shape = .ok dims) : FollowsSlice op shape dims ↔ op.Fits shape := by
  cases op with
  | stridedSlice spec => exact followsStridedSlice_iff several known valid
  | slice beginValues sizeValues =>
    obtain ⟨failure, fails⟩ := planStridedSlice_slice beginValues sizeValues shape
    constructor
    · rintro ⟨plan, planned, _⟩
      rw [fails] at planned
      cases planned
    · intro fits
      cases fits

/-- `x[:, 1:3]`. -/
def columnsSpec : StridedSliceSpec := ⟨[0, 1], [0, 3], [1, 1], 1, 1, 0⟩

/-- `x[0:1]`. -/
def firstRowSpec : StridedSliceSpec := ⟨[0], [1], [1], 0, 0, 0⟩

theorem columns_follow : FollowsSlice (.stridedSlice columnsSpec) [4, 6] [⟨0, 1, 4, false⟩, ⟨1, 1, 2, false⟩] := by
  apply (followsSlice_iff_fits (by decide) (by decide) (show (SliceOp.stridedSlice columnsSpec).dims [4, 6] = _ by rfl)).2
  refine ⟨by decide, ?_⟩
  intro n isFirst
  cases isFirst
  exact ⟨fun _ => by decide, fun fails => absurd (show TestsWhole _ _ by decide) fails⟩

/-- One row of four is taken for all of them. -/
theorem first_row_misread : ¬ FollowsSlice (.stridedSlice firstRowSpec) [4, 6] [⟨0, 1, 1, false⟩, ⟨0, 1, 6, false⟩] := by
  have valid : validateStridedSliceOp firstRowSpec [4, 6] = .ok [⟨0, 1, 1, false⟩, ⟨0, 1, 6, false⟩] := by rfl
  rw [followsStridedSlice_iff (by decide) (by decide) valid]
  rintro ⟨_, each⟩
  exact absurd ((each 4 rfl).1 (by decide)).2 (by decide)

end Itex.XpuAutoShard.Hsp
