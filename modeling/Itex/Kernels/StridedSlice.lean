import Itex.Lib.Fallible

/-!
Contract: which entries a slice takes
(`itex/core/kernels/gpu/strided_slice_op_util.cc`, `ValidateStridedSliceOp`;
`itex/core/kernels/gpu/slice_op.cc`, `SharedValidation`).

Owns: the canonical interval of each dim and the indices it takes, for a strided slice without
ellipsis and new axes and for a slice by sizes.

All dims and bounds are known. Numbers do not overflow 64 bits.
-/

namespace Itex.Kernels

open Itex.Lib

/-- The operands and masks of a `StridedSlice`. -/
structure StridedSliceSpec where
  beginValues : List Int
  endValues : List Int
  strides : List Int
  beginMask : Int := 0
  endMask : Int := 0
  shrinkAxisMask : Int := 0
deriving DecidableEq, Repr

structure DimSpec where
  beginI : Int := 0
  endI : Int := 0
  strideI : Int := 1
  beginMasked : Bool := true
  endMasked : Bool := true
  shrinkI : Bool := false
deriving DecidableEq, Repr

/-- One dim of a slice: what it takes, and whether it is dropped from the shape. -/
structure SlicedDim where
  beginI : Int
  strideI : Int
  sizeI : Nat
  shrinkI : Bool
deriving DecidableEq, Repr

namespace SlicedDim

def indices (sliced : SlicedDim) : List Int :=
  (List.range sliced.sizeI).map fun (k : Nat) => sliced.beginI + k * sliced.strideI

/-- All indices of a dim of size `n`, in order. -/
def KeepsWhole (sliced : SlicedDim) (n : Nat) : Prop :=
  sliced.shrinkI = false ∧ sliced.indices = (List.range n).map Int.ofNat

end SlicedDim

/-! ## Strided slices -/

def StridedSliceSpec.dimSpec (spec : StridedSliceSpec) (i : Nat) : DimSpec where
  beginI := spec.beginValues.getD i 0
  endI := spec.endValues.getD i 0
  strideI := spec.strides.getD i 0
  beginMasked := spec.beginMask.testBit i
  endMasked := spec.endMask.testBit i
  shrinkI := spec.shrinkAxisMask.testBit i

/-- `BuildDenseSpec`: the ellipsis after the last bound takes all of the remaining dims. -/
def buildDenseSpec (spec : StridedSliceSpec) (dims : Nat) : Except String (List DimSpec) :=
  if dims < spec.strides.length then
    .error s!"Index out of range using input dim {dims}; input has only {dims} dims"
  else
    .ok ((List.range spec.strides.length).map spec.dimSpec ++
      List.replicate (dims - spec.strides.length) ({} : DimSpec))

/-- The least and the greatest canonical bound. -/
def validRange (strideI dimI : Int) : Int × Int :=
  (if 0 < strideI then 0 else -1, if 0 < strideI then dimI else dimI - 1)

def clampTo (range : Int × Int) (dimI x : Int) : Int :=
  let xFwd := if x < 0 then dimI + x else x
  if xFwd < range.1 then range.1 else if range.2 < xFwd then range.2 else xFwd

def DimSpec.canonicalBegin (spec : DimSpec) (dimI : Int) : Int :=
  let range := validRange spec.strideI dimI
  if spec.beginMasked then (if 0 < spec.strideI then range.1 else range.2) else clampTo range dimI spec.beginI

def DimSpec.canonicalEnd (spec : DimSpec) (dimI : Int) : Int :=
  let range := validRange spec.strideI dimI
  if spec.endMasked then (if 0 < spec.strideI then range.2 else range.1) else clampTo range dimI spec.endI

def intervalSize (beginI endI strideI : Int) : Nat :=
  let length := endI - beginI
  if length = 0 ∨ (decide (length < 0) != decide (strideI < 0)) then 0
  else (length.tdiv strideI + if length.tmod strideI ≠ 0 then 1 else 0).toNat

/-- Step 3, for one dim. -/
def DimSpec.validate (spec : DimSpec) (i : Nat) (dimI : Int) : Except String SlicedDim :=
  if spec.strideI = 0 then .error s!"strides[{i}] must be non-zero"
  else if spec.shrinkI && spec.strideI ≤ 0 then .error "only stride 1 allowed on non-range indexing."
  else if spec.shrinkI then
    let xFwd := if spec.beginI < 0 then dimI + spec.beginI else spec.beginI
    if xFwd < 0 ∨ dimI ≤ xFwd then .error s!"slice index {xFwd} of dimension {i} out of bounds."
    else .ok ⟨xFwd, spec.strideI, intervalSize xFwd (xFwd + 1) spec.strideI, true⟩
  else
    let beginI := spec.canonicalBegin dimI
    .ok ⟨beginI, spec.strideI, intervalSize beginI (spec.canonicalEnd dimI) spec.strideI, false⟩

def validateDims (specs : List DimSpec) (shape : List Int) : Except String (List SlicedDim) :=
  (specs.zip shape).zipIdx.mapM fun ((spec, dimI), i) => spec.validate i dimI

def validateStridedSliceOp (spec : StridedSliceSpec) (shape : List Int) : Except String (List SlicedDim) := do
  if spec.beginValues.length ≠ spec.strides.length ∨ spec.endValues.length ≠ spec.strides.length ∨
      32 ≤ spec.strides.length then
    .error "Expected begin, end, and strides to be 1D equal size tensors, "
  let specs ← buildDenseSpec spec shape.length
  validateDims specs shape

/-- `SharedValidation`, for one dim. -/
def validateSlice (i : Nat) (beginI sizeI dimI : Int) : Except String SlicedDim :=
  let sizeI := if sizeI = -1 then dimI - beginI else sizeI
  if dimI = 0 then
    if beginI = 0 ∧ sizeI = 0 then .ok ⟨0, 1, 0, false⟩
    else .error s!"Expected begin[{i}] == 0 (got {beginI}) and size[{i}] == 0 (got {sizeI}) when input.dim_size({i}) == 0"
  else if ¬ (0 ≤ beginI ∧ beginI ≤ dimI) then .error s!"Expected begin[{i}] in [0, {dimI}], but got {beginI}"
  else if ¬ (0 ≤ sizeI ∧ beginI + sizeI ≤ dimI) then
    .error s!"Expected size[{i}] in [0, {dimI - beginI}], but got {sizeI}"
  else .ok ⟨beginI, 1, sizeI.toNat, false⟩

def sharedValidation (beginValues sizeValues shape : List Int) : Except String (List SlicedDim) := do
  if beginValues.length ≠ shape.length ∨ sizeValues.length ≠ shape.length then
    .error s!"Expected begin and size arguments to be 1-D tensors of size {shape.length}"
  (beginValues.zip (sizeValues.zip shape)).zipIdx.mapM fun ((beginI, sizeI, dimI), i) =>
    validateSlice i beginI sizeI dimI

def StridedSliceSpec.dense (spec : StridedSliceSpec) (i : Nat) : DimSpec :=
  if i < spec.strides.length then spec.dimSpec i else {}

theorem buildDenseSpec_at {spec : StridedSliceSpec} {dims i : Nat} {specs : List DimSpec}
    (built : buildDenseSpec spec dims = .ok specs) (inside : i < dims) :
    spec.strides.length ≤ dims ∧ specs[i]? = some (spec.dense i) := by
  unfold buildDenseSpec at built
  obtain ⟨fits, built⟩ := of_guard built
  refine ⟨Nat.le_of_not_lt fits, ?_⟩
  rw [← Except.ok.inj built]
  unfold StridedSliceSpec.dense
  grind

theorem validateStridedSliceOp_eq_ok {spec : StridedSliceSpec} {shape : List Int} {dims : List SlicedDim}
    (valid : validateStridedSliceOp spec shape = .ok dims) :
    (spec.endValues.length = spec.beginValues.length ∧ spec.strides.length = spec.beginValues.length) ∧
      dims.length = shape.length ∧ ∀ (i : Nat) (n : Int), shape[i]? = some n →
        spec.strides.length ≤ shape.length ∧ ∃ sliced, dims[i]? = some sliced ∧ (spec.dense i).validate i n = .ok sliced := by
  unfold validateStridedSliceOp at valid
  by_cases wrong : spec.beginValues.length ≠ spec.strides.length ∨ spec.endValues.length ≠ spec.strides.length ∨
      32 ≤ spec.strides.length
  · rw [if_pos wrong] at valid
    cases valid
  rw [if_neg wrong] at valid
  obtain ⟨specs, built, validated⟩ := bind_ok.1 valid
  have lengths : specs.length = shape.length := by
    unfold buildDenseSpec at built
    split at built
    · cases built
    · rw [← Except.ok.inj built, List.length_append, List.length_map, List.length_range, List.length_replicate]
      omega
  unfold validateDims at validated
  have pairs := mapM_eq_ok.1 validated
  have counted := pairs.length_eq
  rw [List.length_zipIdx, List.length_zip, lengths, Nat.min_self] at counted
  refine ⟨by omega, counted.symm, ?_⟩
  intro i n atI
  have inside := read_lt atI
  obtain ⟨fits, atSpec⟩ := buildDenseSpec_at built inside
  refine ⟨fits, ?_⟩
  have atPair : ((specs.zip shape).zipIdx)[i]? = some ((spec.dense i, n), i) := by
    have both : (specs.zip shape)[i]? = some (spec.dense i, n) := List.getElem?_zip_eq_some.2 ⟨atSpec, atI⟩
    rw [List.getElem?_zipIdx, both, Nat.zero_add]
    rfl
  obtain ⟨inPairs, isPair⟩ := List.getElem?_eq_some_iff.1 atPair
  have inDims : i < dims.length := by omega
  refine ⟨dims[i], List.getElem?_eq_getElem inDims, ?_⟩
  have validI := pairs.get inPairs inDims
  rw [List.get_eq_getElem, List.get_eq_getElem, isPair] at validI
  exact validI

/-! ## Dims that are kept whole -/

/-- The bounds that take all indices of a dim in order, with any stride where there is only
one. -/
def DimSpec.TakesAll (spec : DimSpec) (dimI : Int) : Prop :=
  dimI = 0 ∨ (spec.strideI = 1 ∧ (spec.beginMasked = true ∨ spec.beginI = 0 ∨ spec.beginI ≤ -dimI) ∧
      (spec.endMasked = true ∨ dimI ≤ spec.endI)) ∨
    (dimI = 1 ∧ 1 < spec.strideI ∧ (spec.beginMasked = true ∨ spec.beginI ≤ 0) ∧
      (spec.endMasked = true ∨ 1 ≤ spec.endI)) ∨
    (dimI = 1 ∧ spec.strideI < 0 ∧ (spec.beginMasked = true ∨ -1 ≤ spec.beginI) ∧
      (spec.endMasked = true ∨ spec.endI ≤ -2))

instance (spec : DimSpec) (dimI : Int) : Decidable (spec.TakesAll dimI) := by
  unfold DimSpec.TakesAll
  infer_instance

theorem length_indices (sliced : SlicedDim) : sliced.indices.length = sliced.sizeI := by
  unfold SlicedDim.indices
  rw [List.length_map, List.length_range]

/-- A dim that is not empty is kept from its first index on, one after the other. -/
theorem keepsWhole_succ_iff {sliced : SlicedDim} {n : Nat} : sliced.KeepsWhole (n + 1) ↔
      sliced.shrinkI = false ∧ sliced.beginI = 0 ∧ sliced.sizeI = n + 1 ∧ (n = 0 ∨ sliced.strideI = 1) := by
  unfold SlicedDim.KeepsWhole
  apply and_congr_right
  intro _
  constructor
  · intro same
    have counted := congrArg List.length same
    rw [length_indices, List.length_map, List.length_range] at counted
    have first := congrArg (·[0]?) same
    have second := congrArg (·[1]?) same
    unfold SlicedDim.indices at first second
    grind
  · rintro ⟨isZero, counted, isOne⟩
    unfold SlicedDim.indices
    rw [counted, isZero]
    apply List.map_congr_left
    intro k mem
    rw [List.mem_range] at mem
    rcases isOne with single | isOne
    · have isFirst : k = 0 := by omega
      rw [isFirst]
      simp
    · rw [isOne]
      simp

theorem intervalSize_one (beginI endI : Int) : intervalSize beginI endI 1 = (endI - beginI).toNat := by
  unfold intervalSize
  dsimp only
  split
  next degenerate =>
    simp only [bne_iff_ne, ne_eq, decide_eq_decide] at degenerate
    omega
  next => simp

/-- From zero, one index is taken where the interval has a number, whatever the stride. -/
theorem intervalSize_single {endI strideI : Int} (up : 1 < strideI ∧ 0 ≤ endI ∧ endI ≤ 1 ∨ strideI < 0 ∧ -1 ≤ endI ∧ endI ≤ 0) :
    intervalSize 0 endI strideI = 1 ↔ endI ≠ 0 := by
  unfold intervalSize
  dsimp only
  rw [Int.sub_zero]
  by_cases isZero : endI = 0
  · simp [isZero]
  · rw [if_neg]
    · simp only [ne_eq, isZero, not_false_eq_true, iff_true]
      rcases up with ⟨large, low, high⟩ | ⟨negative, low, high⟩
      · have isOne : endI = 1 := by omega
        have quotient : (1 : Int).tdiv strideI = 0 := Int.tdiv_eq_zero_of_lt (by omega) large
        have remainder : (1 : Int).tmod strideI = 1 := Int.tmod_eq_of_lt (by omega) large
        rw [isOne, quotient, remainder]
        rfl
      · have isMinusOne : endI = -1 := by omega
        rw [isMinusOne, Int.neg_tdiv, Int.neg_tmod]
        by_cases unit : strideI = -1
        · rw [unit]
          rfl
        · have quotient : (1 : Int).tdiv strideI = 0 := by
            have large : (1 : Int).tdiv (-strideI) = 0 := Int.tdiv_eq_zero_of_lt (by omega) (by omega)
            rw [Int.tdiv_neg] at large
            omega
          have remainder : (1 : Int).tmod strideI = 1 := by
            have large : (1 : Int).tmod (-strideI) = 1 := Int.tmod_eq_of_lt (by omega) (by omega)
            rwa [Int.tmod_neg] at large
          rw [quotient, remainder]
          rfl
    · simp only [bne_iff_ne, ne_eq, decide_eq_decide]
      omega

section

variable {spec : DimSpec} {i : Nat} {dimI : Int} {sliced : SlicedDim} (valid : spec.validate i dimI = .ok sliced)

include valid

theorem validate_of_not_shrunk (notShrunk : spec.shrinkI = false) :
    spec.strideI ≠ 0 ∧ sliced = ⟨spec.canonicalBegin dimI, spec.strideI,
      intervalSize (spec.canonicalBegin dimI) (spec.canonicalEnd dimI) spec.strideI, false⟩ := by
  unfold DimSpec.validate at valid
  grind

theorem validate_shrinkI : sliced.shrinkI = spec.shrinkI := by
  cases shrunk : spec.shrinkI with
  | false =>
    rw [(validate_of_not_shrunk valid shrunk).2]
  | true =>
    unfold DimSpec.validate at valid
    rw [shrunk] at valid
    obtain ⟨-, valid⟩ := of_guard valid
    grind

end

section Canonical

variable {spec : DimSpec} {dimI : Int}

theorem canonicalBegin_eq_zero (up : 0 < spec.strideI) (some_ : 0 < dimI) :
    spec.canonicalBegin dimI = 0 ↔ spec.beginMasked = true ∨ spec.beginI = 0 ∨ spec.beginI ≤ -dimI := by
  simp only [DimSpec.canonicalBegin, clampTo, validRange, up, if_true]
  cases spec.beginMasked with
  | true => simp
  | false =>
    simp only [Bool.false_eq_true, if_false, false_or]
    split <;> split <;> (try split) <;> omega

theorem canonicalEnd_eq_dim (up : 0 < spec.strideI) (some_ : 0 < dimI) :
    (spec.canonicalEnd dimI = dimI ↔ spec.endMasked = true ∨ dimI ≤ spec.endI) ∧
      0 ≤ spec.canonicalEnd dimI ∧ spec.canonicalEnd dimI ≤ dimI := by
  simp only [DimSpec.canonicalEnd, clampTo, validRange, up, if_true]
  cases spec.endMasked with
  | true =>
    simp
    omega
  | false =>
    simp only [Bool.false_eq_true, if_false, false_or]
    split <;> split <;> (try split) <;> omega

/-- Downwards, a dim of one is taken from its only index. -/
theorem canonicalBegin_down (down : spec.strideI < 0) :
    spec.canonicalBegin 1 = 0 ↔ spec.beginMasked = true ∨ -1 ≤ spec.beginI := by
  have notUp : ¬ 0 < spec.strideI := by omega
  simp only [DimSpec.canonicalBegin, clampTo, validRange, notUp, if_false]
  cases spec.beginMasked with
  | true => simp
  | false =>
    simp only [Bool.false_eq_true, if_false, false_or]
    split <;> split <;> (try split) <;> omega

theorem canonicalEnd_down (down : spec.strideI < 0) :
    (spec.canonicalEnd 1 ≠ 0 ↔ spec.endMasked = true ∨ spec.endI ≤ -2) ∧
      -1 ≤ spec.canonicalEnd 1 ∧ spec.canonicalEnd 1 ≤ 0 := by
  have notUp : ¬ 0 < spec.strideI := by omega
  simp only [DimSpec.canonicalEnd, clampTo, validRange, notUp, if_false]
  cases spec.endMasked with
  | true => simp
  | false =>
    simp only [Bool.false_eq_true, if_false, false_or]
    split <;> split <;> (try split) <;> omega

end Canonical

/-- A dim is kept whole exactly where its bounds take all of it. -/
theorem keepsWhole_iff {spec : DimSpec} {i n : Nat} {sliced : SlicedDim} (valid : spec.validate i n = .ok sliced) :
    sliced.KeepsWhole n ↔ spec.shrinkI = false ∧ spec.TakesAll n := by
  cases shrunk : spec.shrinkI with
  | true =>
    unfold SlicedDim.KeepsWhole
    rw [validate_shrinkI valid, shrunk]
    simp
  | false =>
    obtain ⟨someStride, isSliced⟩ := validate_of_not_shrunk valid shrunk
    rw [isSliced]
    cases n with
    | zero =>
      have empty : intervalSize (spec.canonicalBegin 0) (spec.canonicalEnd 0) spec.strideI = 0 := by
        have same : spec.canonicalBegin 0 = spec.canonicalEnd 0 := by
          unfold DimSpec.canonicalBegin DimSpec.canonicalEnd clampTo validRange
          dsimp only
          split <;> split <;> split <;> grind
        unfold intervalSize
        rw [same, if_pos (.inl (Int.sub_self _))]
      constructor
      · exact fun _ => ⟨rfl, .inl rfl⟩
      · intro _
        exact ⟨rfl, List.length_eq_zero_iff.1 ((length_indices _).trans empty)⟩
    | succ n =>
      have some_ : (0 : Int) < (n + 1 : Nat) := by omega
      rw [keepsWhole_succ_iff]
      dsimp only
      unfold DimSpec.TakesAll
      by_cases unit : spec.strideI = 1
      · have atBegin := canonicalBegin_eq_zero (show 0 < spec.strideI by omega) some_
        obtain ⟨atEnd, low, high⟩ := canonicalEnd_eq_dim (show 0 < spec.strideI by omega) some_
        rw [unit, intervalSize_one]
        grind
      -- With another stride, only a dim of one is kept whole.
      by_cases single : n = 0
      · rw [single] at some_ ⊢
        by_cases up : 0 < spec.strideI
        · have atBegin := canonicalBegin_eq_zero up some_
          obtain ⟨atEnd, low, high⟩ := canonicalEnd_eq_dim up some_
          have counted := @intervalSize_single (spec.canonicalEnd (0 + 1 : Nat)) spec.strideI (by omega)
          grind
        · have atBegin := @canonicalBegin_down spec (by omega)
          obtain ⟨atEnd, low, high⟩ := @canonicalEnd_down spec (by omega)
          have counted := @intervalSize_single (spec.canonicalEnd 1) spec.strideI (by omega)
          grind
      · have several : ((n + 1 : Nat) : Int) ≠ 1 := by omega
        grind

end Itex.Kernels
