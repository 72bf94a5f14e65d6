import Itex.XpuAutoShard.BroadcastShards

/-!
Contract: `ReshapeInfer`
(`common/hsp_inference/tfg_ops.cpp`)
with the checks on the target shape (`hsp_inference_utils.cpp`), and the slices of a constant
shape in the lowering (`.../tensorflow/passes/hs_to_tfg.cpp`, `handlePostOps`).

Owns: the inference, the target shape of each shard, and what a call leaves when it gives a
split of the input to the output.

The extents of a value are those of its type. The constant is lowered for several shards.
-/

namespace Itex.XpuAutoShard.Hsp

open Itex.Lib
open Itex.XpuAutoShard.Hsp.ShardingProperty

variable {props : OpProps} {result : Bool × Heap}

/-! ## Inference -/

/-- The ops that apply `ReshapeInfer`. -/
inductive ReshapeName where
  | stridedSliceGrad
  | reshape
  | broadcastTo
  | invertPermutation
deriving DecidableEq, Repr

/-- What the inference reads of its op. -/
structure ReshapeDesc where
  name : ReshapeName := .reshape
  /-- The extents of operand 0. -/
  operandShape : List Int
  /-- The entries of operand 1, if it is a constant. -/
  constVec : List Int
  /-- The extents of result 0. -/
  resultShape : List Int
deriving DecidableEq, Repr

/-- `get_reshape_vec`. -/
def ReshapeDesc.reshapeVec (desc : ReshapeDesc) : Except Failure (List Int) :=
  if desc.constVec = [-1] then do
    let extent ← readAt desc.resultShape 0
    return [extent]
  else .ok desc.constVec

/-- `input_data`, and `input_reshape` unless it is null. -/
def ReshapeName.refs (name : ReshapeName) (props : OpProps) : Except Failure (Nat × Option Nat) := do
  match name with
  | .stridedSliceGrad =>
    let data ← readAt props.inputs 4
    let reshape ← readAt props.inputs 0
    return (data, some reshape)
  | .reshape | .broadcastTo =>
    let data ← readAt props.inputs 0
    let reshape ← readAt props.inputs 1
    return (data, some reshape)
  | .invertPermutation =>
    let data ← readAt props.inputs 0
    return (data, none)

def markShape (ref : Option Nat) (heap : Heap) : Except Failure (Bool × Heap) :=
  match ref with
  | none => .ok (false, heap)
  | some ref =>
    onProp heap ref fun prop =>
      if prop.isInitialized && !prop.isShapeTensor then prop.setShapeTensorSingleSplitOnly
      else .ok (false, prop)

/-- One dim is split in several parts. -/
def ShardingProperty.isSplitInOneDim (prop : ShardingProperty) : Bool :=
  prop.isInitialized && !prop.isSplitSingleOnly && prop.orderedSplitDims.length == 1

/-- The dims before `dim` are those of the target. -/
def leadingDimsMatch : Nat → List Int → List Int → Except Failure Bool
  | 0, _, _ => .ok true
  | dim + 1, extents, reshapeVec => do
    let size ← readAt reshapeVec 0
    if size < 0 then return false
    else do
      let extent ← readAt extents 0
      if extent ≠ size then return false
      else leadingDimsMatch dim extents.tail reshapeVec.tail

def isSliceShape (prop : ShardingProperty) : Bool :=
  prop.isShapeTensor && prop.isShapeTensorSingleSplitOnly &&
    match prop.postOps with
    | .shapeSlice _ _ :: _ => true
    | _ => false

/-- `slice_shape_flag`: the target is sliced already, or is from now on. -/
def sliceShape (ref : Nat) (reshapeVec : List Int) (spec : SplitSpec) (dim : Nat) (heap : Heap) :
    Except Failure (Bool × Heap) := do
  let prop ← readAt heap ref
  if isSliceShape prop then return (true, heap)
  else trySliceShape ref reshapeVec [spec] [dim] heap

/-- The first dim of a property that is not single split, with its split, if the target can
be sliced along it. -/
def sliceAlong (desc : ReshapeDesc) (shapeRef : Option Nat) (prop : ShardingProperty) (heap : Heap) :
    Except Failure (Option (Nat × SplitSpec) × Heap) :=
  match prop.splitSpecs.findIdx? fun spec => spec.type ≠ .single with
  | none => .ok (none, heap)
  | some dim => do
    let spec ← prop.getSplitSpec dim
    let reshapeVec ← desc.reshapeVec
    let leading ← leadingDimsMatch dim desc.operandShape reshapeVec
    match shapeRef with
    | none => .error (.crash "null pointer")
    | some ref => do
      let (slices, heap) ← sliceShape ref reshapeVec spec dim heap
      return (if leading && slices then some (dim, spec) else none, heap)

def splitOutputDim (ref dim : Nat) (spec : SplitSpec) (heap : Heap) (outputDim : Nat) : Except Failure Heap := do
  let prop ← readAt heap ref
  let (_, set) ← (if outputDim = dim then prop.splitAt outputDim spec else prop.splitSingleAt outputDim)
  return heap.set ref set

/-- The input is split, and the split goes to the output. -/
def reshapeForward (desc : ReshapeDesc) (shapeRef : Option Nat) (outputRef : Nat) (input : ShardingProperty)
    (heap : Heap) : Except Failure (Bool × Heap) := do
  let (found, heap) ← sliceAlong desc shapeRef input heap
  match found with
  | none => return (false, heap)
  | some (dim, spec) => do
    let output ← readAt heap outputRef
    if output.isInitialized then return (false, heap)
    else do
      let heap ← (List.range output.rank.toNat).foldlM (splitOutputDim outputRef dim spec) heap
      return (true, heap)

def ShardingProperty.isSingleSplitAt (prop : ShardingProperty) (dim : Nat) : Except Failure Bool :=
  if !prop.isInitialized then .ok false
  else do
    let spec ← prop.getSplitSpec dim
    return spec.type == .single

def splitInputDim (ref dim : Nat) (spec : SplitSpec) (state : Bool × Heap) (inputDim : Nat) :
    Except Failure (Bool × Heap) := do
  let prop ← readAt state.2 ref
  if inputDim = dim then
    if prop.isInitialized then do
      let old ← prop.getSplitSpec inputDim
      let equivalent ← isEquivalent old spec
      if equivalent then return state
      else do
        let (changed, set) ← prop.splitAt inputDim spec
        return (state.1 || changed, state.2.set ref set)
    else do
      let (changed, set) ← prop.splitAt inputDim spec
      return (state.1 || changed, state.2.set ref set)
  else do
    let single ← prop.isSingleSplitAt inputDim
    if prop.isInitialized || !single then do
      let (changed, set) ← prop.splitSingleAt inputDim
      return (state.1 || changed, state.2.set ref set)
    else return state

/-- The output is split, and the split goes to the input. -/
def reshapeBackward (desc : ReshapeDesc) (shapeRef : Option Nat) (inputRef : Nat) (output : ShardingProperty)
    (heap : Heap) : Except Failure (Bool × Heap) := do
  let (found, heap) ← sliceAlong desc shapeRef output heap
  match found with
  | none => return (false, heap)
  | some (dim, spec) => do
    let input ← readAt heap inputRef
    if input.isInitialized then return (false, heap)
    else (List.range input.rank.toNat).foldlM (splitInputDim inputRef dim spec) (false, heap)

def reshapeInfer (desc : ReshapeDesc) (props : OpProps) (heap : Heap) : Except Failure (Bool × Heap) := do
  let (inputRef, shapeRef) ← desc.name.refs props
  let (marked, heap) ← markShape shapeRef heap
  let outputRef ← readAt props.outputs 0
  let input ← readAt heap inputRef
  let output ← readAt heap outputRef
  let (changed, heap) ← (if input.isSplitInOneDim then reshapeForward desc shapeRef outputRef input heap
    else if output.isSplitInOneDim then reshapeBackward desc shapeRef inputRef output heap
    else inferWithAllInputsSingleSplitOnly props heap)
  return (marked || changed, heap)

/-- `static_cast<int>` of a product with a ratio. -/
def ratioPart (value : Int) (ratio : Rat) : Int := (value * ratio).num.tdiv (value * ratio).den

/-- A post-operation of `handlePostOps` on the shard `k` of a shape that is a constant. After
another post-operation it is none. -/
def slicePostOp (prop : ShardingProperty) (k : Nat) (values : List Int) : PostOp → Except Failure (List Int)
  | .shapeSlice splitDims splitSpecs => do
    if !prop.isShapeTensor then .error (.crash "Expect a shape tensor")
    else if splitDims.length ≠ 1 then .error (.crash "Expect exactly 1 multiple split dim")
    else do
      let spec ← readAt splitSpecs 0
      let dim ← readAt splitDims 0
      let value ← readAt values dim
      match spec.type with
      | .size => do
        let size ← readAt spec.sizes k
        if spec.getTotalSize = 0 then .error (.crash "division by zero")
        else return (values.set dim ((value * size).tdiv spec.getTotalSize)).map toInt32
      | .ratio => do
        let ratio ← readAt spec.ratios k
        return (values.set dim (ratioPart value ratio)).map toInt32
      | .uninit | .single => .error (.crash "Only support size split and ratio split")
  | _ => .error (.crash "not a constant")

def slicedShape (prop : ShardingProperty) (values : List Int) (k : Nat) : Except Failure (List Int) :=
  prop.postOps.foldlM (slicePostOp prop k) values

theorem markShape_grows {ref : Option Nat} {heap : Heap}
    (ran : markShape ref heap = .ok result) : heaps.Grows heap result := by
  unfold markShape at ran
  cases ref with
  | none =>
    cases ran
    exact .same heap
  | some ref =>
    apply onProp_grows _ ran
    intro prop set isSet
    split at isSet
    · exact setShapeTensorSingleSplitOnly_grows isSet
    · cases isSet
      exact .same prop

theorem sliceShape_grows {ref dim : Nat} {reshapeVec : List Int} {spec : SplitSpec} {heap : Heap}
    (ran : sliceShape ref reshapeVec spec dim heap = .ok result) :
    heaps.le heap result.2 := by
  unfold sliceShape at ran
  obtain ⟨prop, _, ran⟩ := bind_ok.1 ran
  split at ran
  · cases ran
    exact heaps.refl heap
  · exact (trySliceShape_grows ran).1

section Calls

variable {desc : ReshapeDesc} {shapeRef : Option Nat} {prop : ShardingProperty} {heap heap' : Heap}
  {found : Option (Nat × SplitSpec)} {dim : Nat} {spec : SplitSpec}

theorem sliceAlong_grows (ran : sliceAlong desc shapeRef prop heap = .ok (found, heap')) : heaps.le heap heap' := by
  unfold sliceAlong at ran
  split at ran
  · cases ran
    exact heaps.refl heap
  obtain ⟨_, _, ran⟩ := bind_ok.1 ran
  obtain ⟨_, _, ran⟩ := bind_ok.1 ran
  obtain ⟨_, _, ran⟩ := bind_ok.1 ran
  split at ran
  · cases ran
  obtain ⟨⟨slices, next⟩, sliced, ran⟩ := bind_ok.1 ran
  cases ran
  exact sliceShape_grows sliced

theorem sliceAlong_eq_some (ran : sliceAlong desc shapeRef prop heap = .ok (some (dim, spec), heap')) :
    prop.splitSpecs[dim]? = some spec ∧ ∃ reshapeVec ref, desc.reshapeVec = .ok reshapeVec ∧ shapeRef = some ref ∧
      leadingDimsMatch dim desc.operandShape reshapeVec = .ok true ∧
      sliceShape ref reshapeVec spec dim heap = .ok (true, heap') := by
  unfold sliceAlong at ran
  split at ran
  · cases ran
  obtain ⟨here, atDim, ran⟩ := bind_ok.1 ran
  obtain ⟨reshapeVec, isVec, ran⟩ := bind_ok.1 ran
  obtain ⟨leading, matches_, ran⟩ := bind_ok.1 ran
  cases shapeRef with
  | none => cases ran
  | some ref =>
    obtain ⟨⟨slices, next⟩, sliced, ran⟩ := bind_ok.1 ran
    have pair := Except.ok.inj ran
    rw [Prod.mk.injEq] at pair
    obtain ⟨isFound, isHeap⟩ := pair
    split at isFound
    next both =>
      rw [Bool.and_eq_true] at both
      cases isFound
      cases isHeap
      rw [both.1] at matches_
      rw [both.2] at sliced
      exact ⟨readAt_eq_ok.1 atDim, reshapeVec, ref, isVec, rfl, matches_, sliced⟩
    next => cases isFound

end Calls

/-! ## Splits that a call adds -/

def NewSpecs (allowed : Nat → Nat → SplitSpec → Prop) (heap heap' : Heap) : Prop :=
  ∀ (ref : Nat) (prop' : ShardingProperty), heap'[ref]? = some prop' → ∃ prop, heap[ref]? = some prop ∧
    ∀ (dim : Nat) (spec : SplitSpec), prop'.splitSpecs[dim]? = some spec →
      prop.splitSpecs[dim]? = some spec ∨ allowed ref dim spec

section NewSpecs

variable {allowed : Nat → Nat → SplitSpec → Prop} {heap heap' heap'' : Heap}

theorem NewSpecs.refl (heap : Heap) : NewSpecs allowed heap heap :=
  fun _ prop' atRef => ⟨prop', atRef, fun _ _ atDim => .inl atDim⟩

theorem NewSpecs.trans (before : NewSpecs allowed heap heap') (after : NewSpecs allowed heap' heap'') :
    NewSpecs allowed heap heap'' := by
  intro ref prop'' atRef''
  obtain ⟨prop', atRef', new'⟩ := after ref prop'' atRef''
  obtain ⟨prop, atRef, new⟩ := before ref prop' atRef'
  refine ⟨prop, atRef, ?_⟩
  intro dim spec atDim
  rcases new' dim spec atDim with old | isAllowed
  · exact new dim spec old
  · exact .inr isAllowed

theorem NewSpecs.set {ref : Nat} {prop set : ShardingProperty} (atRef : heap[ref]? = some prop)
    (new : ∀ dim spec, set.splitSpecs[dim]? = some spec → prop.splitSpecs[dim]? = some spec ∨ allowed ref dim spec) :
    NewSpecs allowed heap (heap.set ref set) := by
  intro other prop' atOther
  grind

theorem NewSpecs.onProp {ref : Nat} {setter : ShardingProperty → Except Failure (Bool × ShardingProperty)}
    (each : ∀ prop changed set, setter prop = .ok (changed, set) → set.splitSpecs = prop.splitSpecs)
    (ran : Hsp.onProp heap ref setter = .ok result) : NewSpecs allowed heap result.2 := by
  unfold Hsp.onProp at ran
  obtain ⟨prop, atRef, ran⟩ := bind_ok.1 ran
  obtain ⟨⟨changed, set⟩, isSet, ran⟩ := bind_ok.1 ran
  cases ran
  apply NewSpecs.set (readAt_eq_ok.1 atRef)
  intro dim spec atDim
  rw [each prop changed set isSet] at atDim
  exact .inl atDim

end NewSpecs

section Setters

variable {prop set : ShardingProperty} {changed : Bool} {dim : Nat} {spec : SplitSpec}

theorem splitAt_eq_false (ran : prop.splitAt dim spec = .ok (false, set)) : set = prop := by
  unfold splitAt at ran
  obtain ⟨split, _, ran⟩ := bind_ok.1 ran
  split at ran
  · cases ran
    rfl
  obtain ⟨_, _, ran⟩ := bind_ok.1 ran
  dsimp only at ran
  obtain ⟨-, ran⟩ := of_guard ran
  obtain ⟨_, _, ran⟩ := bind_ok.1 ran
  cases ran

theorem splitAt_newSpecs (ran : prop.splitAt dim spec = .ok (changed, set)) (other : Nat) (found : SplitSpec)
    (atOther : set.splitSpecs[other]? = some found) : prop.splitSpecs[other]? = some found ∨ found = .buildSingleSplit ∨
      (other = dim ∧ found = prop.rescaled dim spec) := by
  cases changed with
  | false =>
    rw [splitAt_eq_false ran] at atOther
    exact .inl atOther
  | true =>
    obtain ⟨here, elsewhere⟩ := splitAt_specs ran
    grind

theorem splitSingleAt_newSpecs (ran : prop.splitSingleAt dim = .ok (changed, set)) (other : Nat)
    (found : SplitSpec) (atOther : set.splitSpecs[other]? = some found) :
    prop.splitSpecs[other]? = some found ∨ found = .buildSingleSplit := by
  rcases splitAt_newSpecs ran other found atOther with old | single | ⟨_, isRescaled⟩
  · exact .inl old
  · exact .inr single
  · rw [rescaled_single] at isRescaled
    exact .inr isRescaled

theorem splitSingleOnly_newSpecs {stageOffsets : List Nat}
    (ran : prop.splitSingleOnly stageOffsets = .ok (changed, set)) (other : Nat) (found : SplitSpec)
    (atOther : set.splitSpecs[other]? = some found) :
    prop.splitSpecs[other]? = some found ∨ found = .buildSingleSplit := by
  unfold splitSingleOnly at ran
  obtain ⟨⟨looped, split⟩, loop, ran⟩ := bind_ok.1 ran
  have each : ∀ (other : Nat) (found : SplitSpec), split.splitSpecs[other]? = some found →
      prop.splitSpecs[other]? = some found ∨ found = .buildSingleSplit := by
    apply foldlM_invariant (fun _ (state : Bool × ShardingProperty) => ∀ (other : Nat) (found : SplitSpec),
      state.2.splitSpecs[other]? = some found → prop.splitSpecs[other]? = some found ∨ found = .buildSingleSplit)
      (fun _ _ => .inl) _ loop
    intro seen d rest state next _ before stepped other found atOther
    obtain ⟨⟨report, placed⟩, isPlaced, stepped⟩ := bind_ok.1 stepped
    cases stepped
    rcases splitSingleAt_newSpecs isPlaced other found atOther with old | single
    · exact before other found old
    · exact .inr single
  dsimp only at ran
  split at ran
  · cases ran
    exact each other found atOther
  · cases ran
    exact each other found atOther

theorem setShapeTensorSingleSplitOnly_sameSplits (ran : prop.setShapeTensorSingleSplitOnly = .ok (changed, set)) :
    SameSplits prop set ∧ set.postOps = prop.postOps := by
  unfold setShapeTensorSingleSplitOnly at ran
  split at ran
  · cases ran
    exact ⟨.refl prop, rfl⟩
  obtain ⟨maybe, _, ran⟩ := bind_ok.1 ran
  split at ran
  · cases ran
    exact ⟨.refl prop, rfl⟩
  obtain ⟨extent, _, ran⟩ := bind_ok.1 ran
  exact setShapeTensor_sameSplits ran

end Setters

section Slices

variable {ref dim : Nat} {reshapeVec : List Int} {spec : SplitSpec} {heap heap' : Heap}

theorem sliceShape_newSpecs {allowed : Nat → Nat → SplitSpec → Prop}
    (ran : sliceShape ref reshapeVec spec dim heap = .ok result) : NewSpecs allowed heap result.2 := by
  unfold sliceShape at ran
  obtain ⟨prop, _, ran⟩ := bind_ok.1 ran
  split at ran
  · cases ran
    exact .refl heap
  apply NewSpecs.onProp _ ran
  intro prop changed set isSet
  split at isSet
  · cases isSet
    rfl
  split at isSet
  · cases isSet
    rfl
  split at isSet
  · obtain ⟨extent, _, isSet⟩ := bind_ok.1 isSet
    split at isSet
    · cases isSet
      rfl
    obtain ⟨divides, _, isSet⟩ := bind_ok.1 isSet
    split at isSet
    · cases isSet
      rfl
    · cases isSet
      rfl
  split at isSet
  · cases isSet
    rfl
  · cases isSet
    rfl

theorem sliceAlong_newSpecs {allowed : Nat → Nat → SplitSpec → Prop} {desc : ReshapeDesc} {shapeRef : Option Nat}
    {prop : ShardingProperty} {found : Option (Nat × SplitSpec)}
    (ran : sliceAlong desc shapeRef prop heap = .ok (found, heap')) : NewSpecs allowed heap heap' := by
  unfold sliceAlong at ran
  split at ran
  · cases ran
    exact .refl heap
  obtain ⟨_, _, ran⟩ := bind_ok.1 ran
  obtain ⟨_, _, ran⟩ := bind_ok.1 ran
  obtain ⟨_, _, ran⟩ := bind_ok.1 ran
  split at ran
  · cases ran
  obtain ⟨⟨slices, next⟩, sliced, ran⟩ := bind_ok.1 ran
  cases ran
  exact sliceShape_newSpecs sliced

/-- Each part of the split is a whole number of the target's entry. -/
def DividesTarget (reshapeVec : List Int) (spec : SplitSpec) (dim : Nat) : Prop :=
  ∀ size ∈ spec.sizes, spec.getTotalSize ≠ 0 ∧
    ∃ entry, reshapeVec[dim]? = some entry ∧ spec.getTotalSize ∣ entry * size

theorem dividesShape_eq_true (divides : dividesShape reshapeVec [(spec, dim)] = .ok true) :
    DividesTarget reshapeVec spec dim := by
  intro size mem
  unfold dividesShape at divides
  rw [if_neg (List.ne_nil_of_mem mem)] at divides
  obtain ⟨entry, atDim, divides⟩ := bind_ok.1 divides
  obtain ⟨notZero, divides⟩ := of_guard divides
  obtain ⟨divisible, divides⟩ := of_guard divides
  rw [List.any_eq_true] at divisible
  push Not at divisible
  refine ⟨notZero, entry, readAt_eq_ok.1 atDim, Int.dvd_of_tmod_eq_zero ?_⟩
  simpa using divisible size mem

/-- A target that is sliced along a split by sizes was sliced before, or has no
post-operation and is sliced from now on. -/
theorem sliceShape_eq_true (isSize : spec.type = .size)
    (ran : sliceShape ref reshapeVec spec dim heap = .ok (true, heap')) :
    ∃ prop prop', heap[ref]? = some prop ∧ heap'[ref]? = some prop' ∧ prop'.isShapeTensor = true ∧
      ((prop.postOps ≠ [] ∧ prop' = prop) ∨
        (prop.postOps = [] ∧ prop'.postOps = [.shapeSlice [dim] [spec]] ∧ DividesTarget reshapeVec spec dim)) := by
  unfold sliceShape at ran
  obtain ⟨prop, atRef, ran⟩ := bind_ok.1 ran
  rw [readAt_eq_ok] at atRef
  split at ran
  next sliced =>
    cases ran
    unfold isSliceShape at sliced
    simp only [Bool.and_eq_true] at sliced
    refine ⟨prop, prop, atRef, atRef, sliced.1.1, .inl ⟨?_, rfl⟩⟩
    intro none
    rw [none] at sliced
    cases sliced.2
  next =>
    unfold trySliceShape onProp at ran
    obtain ⟨same, atSame, ran⟩ := bind_ok.1 ran
    rw [readAt_eq_ok, atRef] at atSame
    cases atSame
    obtain ⟨⟨changed, set⟩, isSet, ran⟩ := bind_ok.1 ran
    cases ran
    have bound := read_lt atRef
    beta_reduce at isSet
    obtain ⟨isShape, isSet⟩ := of_guard isSet
    simp only [Bool.or_eq_true, Bool.not_eq_true', not_or, Bool.not_eq_false] at isShape
    obtain ⟨noOps, isSet⟩ := of_guard isSet
    rw [Decidable.not_not] at noOps
    have noPostOps : prop.postOps = [] := List.length_eq_zero_iff.1 noOps
    split at isSet
    · obtain ⟨extent, _, isSet⟩ := bind_ok.1 isSet
      split at isSet
      · cases isSet
      obtain ⟨divides, isDivides, isSet⟩ := bind_ok.1 isSet
      cases divides with
      | false => cases isSet
      | true =>
        cases isSet
        refine ⟨prop, _, atRef, List.getElem?_set_self bound, isShape.1, .inr ⟨noPostOps, ?_, ?_⟩⟩
        · change prop.postOps ++ _ = _
          rw [noPostOps]
          rfl
        · exact dividesShape_eq_true isDivides
    split at isSet
    next ratio =>
      obtain ⟨found, mem, isRatio⟩ := ratio
      rw [List.mem_singleton.1 mem, isSize] at isRatio
      cases isRatio
    next => cases isSet

end Slices

section Dims

variable {ref dim : Nat} {spec : SplitSpec} {heap heap' : Heap}

theorem splitOutputDims_spec {dims : List Nat} (isSet : spec.isInitialized = true)
    (ran : dims.foldlM (splitOutputDim ref dim spec) heap = .ok heap') : heaps.le heap heap' ∧
      NewSpecs (fun r d found => found = .buildSingleSplit ∨ (r = ref ∧ d = dim)) heap heap' := by
  apply foldlM_invariant (fun _ current => heaps.le heap current ∧
    NewSpecs (fun r d found => found = .buildSingleSplit ∨ (r = ref ∧ d = dim)) heap current)
    ⟨heaps.refl heap, .refl heap⟩ _ ran
  intro seen outputDim rest current next _ before stepped
  obtain ⟨prop, atRef, stepped⟩ := bind_ok.1 stepped
  obtain ⟨⟨changed, set⟩, splits, stepped⟩ := bind_ok.1 stepped
  cases stepped
  rw [readAt_eq_ok] at atRef
  split at splits
  next same =>
    refine ⟨heaps.trans before.1 (Growth.Grows.set atRef (splitAt_grows isSet splits)).1, before.2.trans ?_⟩
    apply NewSpecs.set atRef
    intro d found atDim
    rcases splitAt_newSpecs splits d found atDim with old | single | ⟨isDim, _⟩
    · exact .inl old
    · exact .inr (.inl single)
    · exact .inr (.inr ⟨rfl, isDim.trans same⟩)
  next =>
    refine ⟨heaps.trans before.1 (Growth.Grows.set atRef (splitSingleAt_grows splits)).1, before.2.trans ?_⟩
    apply NewSpecs.set atRef
    intro d found atDim
    exact (splitSingleAt_newSpecs splits d found atDim).imp_right .inl

theorem splitInputDims_spec {dims : List Nat} (isSet : spec.isInitialized = true)
    (ran : dims.foldlM (splitInputDim ref dim spec) (false, heap) = .ok result) :
    heaps.le heap result.2 ∧ NewSpecs (fun r _ _ => r = ref) heap result.2 := by
  apply foldlM_invariant (fun _ (state : Bool × Heap) => heaps.le heap state.2 ∧
    NewSpecs (fun r _ _ => r = ref) heap state.2) ⟨heaps.refl heap, .refl heap⟩ _ ran
  intro seen inputDim rest state next _ before stepped
  obtain ⟨prop, atRef, stepped⟩ := bind_ok.1 stepped
  rw [readAt_eq_ok] at atRef
  have placed : ∀ {changed : Bool} {set : ShardingProperty}, properties.Grows prop (changed, set) →
      heaps.le heap (state.2.set ref set) ∧ NewSpecs (fun r _ _ => r = ref) heap (state.2.set ref set) :=
    fun grows => ⟨heaps.trans before.1 (Growth.Grows.set atRef grows).1,
      before.2.trans (.set atRef fun _ _ _ => .inr rfl)⟩
  split at stepped
  · split at stepped
    · obtain ⟨old, _, stepped⟩ := bind_ok.1 stepped
      obtain ⟨equivalent, _, stepped⟩ := bind_ok.1 stepped
      split at stepped
      · cases stepped
        exact before
      · obtain ⟨⟨changed, set⟩, splits, stepped⟩ := bind_ok.1 stepped
        cases stepped
        exact placed (splitAt_grows isSet splits)
    · obtain ⟨⟨changed, set⟩, splits, stepped⟩ := bind_ok.1 stepped
      cases stepped
      exact placed (splitAt_grows isSet splits)
  · obtain ⟨single, _, stepped⟩ := bind_ok.1 stepped
    split at stepped
    · obtain ⟨⟨changed, set⟩, splits, stepped⟩ := bind_ok.1 stepped
      cases stepped
      exact placed (splitSingleAt_grows splits)
    · cases stepped
      exact before

theorem allInputsSingleSplitOnly_newSpecs (ran : inferWithAllInputsSingleSplitOnly props heap = .ok result) :
    NewSpecs (fun _ _ found => found = .buildSingleSplit) heap result.2 := by
  unfold inferWithAllInputsSingleSplitOnly at ran
  obtain ⟨inputs, _, ran⟩ := bind_ok.1 ran
  split at ran
  · cases ran
    exact .refl heap
  split at ran
  · apply foldlM_invariant (fun _ (state : Bool × Heap) =>
      NewSpecs (fun _ _ found => found = .buildSingleSplit) heap state.2) (.refl heap) _ ran
    intro seen ref rest state next _ before stepped
    unfold splitOutputSingleOnly at stepped
    obtain ⟨prop, atRef, stepped⟩ := bind_ok.1 stepped
    split at stepped
    · cases stepped
      exact before
    obtain ⟨⟨success, set⟩, splits, stepped⟩ := bind_ok.1 stepped
    obtain ⟨_, _, stepped⟩ := bind_ok.1 stepped
    cases stepped
    exact before.trans (.set (readAt_eq_ok.1 atRef) (splitSingleOnly_newSpecs splits))
  · cases ran
    exact .refl heap

end Dims

section Branches

variable {desc : ReshapeDesc} {shapeRef : Option Nat} {inputRef outputRef : Nat} {input output : ShardingProperty}
  {heap heap' : Heap} {changed : Bool}

theorem reshapeForward_spec (initialised : input.isInitialized = true)
    (ran : reshapeForward desc shapeRef outputRef input heap = .ok (changed, heap')) :
    heaps.le heap heap' ∧ (NewSpecs (fun _ _ found => found = .buildSingleSplit) heap heap' ∨
      ∃ dim spec middle, sliceAlong desc shapeRef input heap = .ok (some (dim, spec), middle) ∧ heaps.le middle heap' ∧
        NewSpecs (fun r d found => found = .buildSingleSplit ∨ (r = outputRef ∧ d = dim)) heap heap') := by
  unfold reshapeForward at ran
  obtain ⟨⟨found, middle⟩, sliced, ran⟩ := bind_ok.1 ran
  have grows := sliceAlong_grows sliced
  cases found with
  | none =>
    cases ran
    exact ⟨grows, .inl (sliceAlong_newSpecs sliced)⟩
  | some pair =>
    obtain ⟨dim, spec⟩ := pair
    obtain ⟨output, _, ran⟩ := bind_ok.1 ran
    split at ran
    · cases ran
      exact ⟨grows, .inl (sliceAlong_newSpecs sliced)⟩
    · obtain ⟨last, split, ran⟩ := bind_ok.1 ran
      cases ran
      have isSet := initialized_specs initialised (List.mem_of_getElem? (sliceAlong_eq_some sliced).1)
      obtain ⟨more, new⟩ := splitOutputDims_spec isSet split
      exact ⟨heaps.trans grows more, .inr ⟨dim, spec, middle, sliced, more, (sliceAlong_newSpecs sliced).trans new⟩⟩

theorem reshapeBackward_spec (initialised : output.isInitialized = true)
    (ran : reshapeBackward desc shapeRef inputRef output heap = .ok (changed, heap')) :
    heaps.le heap heap' ∧ NewSpecs (fun r _ _ => r = inputRef) heap heap' := by
  unfold reshapeBackward at ran
  obtain ⟨⟨found, middle⟩, sliced, ran⟩ := bind_ok.1 ran
  have grows := sliceAlong_grows sliced
  cases found with
  | none =>
    cases ran
    exact ⟨grows, sliceAlong_newSpecs sliced⟩
  | some pair =>
    obtain ⟨dim, spec⟩ := pair
    obtain ⟨input, _, ran⟩ := bind_ok.1 ran
    split at ran
    · cases ran
      exact ⟨grows, sliceAlong_newSpecs sliced⟩
    · have isSet := initialized_specs initialised (List.mem_of_getElem? (sliceAlong_eq_some sliced).1)
      obtain ⟨more, new⟩ := splitInputDims_spec isSet ran
      exact ⟨heaps.trans grows more, (sliceAlong_newSpecs sliced).trans new⟩

theorem markShape_at {ref : Option Nat} (ran : markShape ref heap = .ok (changed, heap')) {r : Nat}
    {prop : ShardingProperty} (atRef : heap[r]? = some prop) :
    ∃ prop', heap'[r]? = some prop' ∧ SameSplits prop prop' ∧ prop'.postOps = prop.postOps := by
  unfold markShape at ran
  cases ref with
  | none =>
    cases ran
    exact ⟨prop, atRef, .refl prop, rfl⟩
  | some ref =>
    unfold onProp at ran
    obtain ⟨old, atOld, ran⟩ := bind_ok.1 ran
    obtain ⟨⟨marked, set⟩, isSet, ran⟩ := bind_ok.1 ran
    cases ran
    by_cases same : ref = r
    · rw [same] at atOld ⊢
      rw [readAt_eq_ok, atRef] at atOld
      cases atOld
      refine ⟨set, List.getElem?_set_self (read_lt atRef), ?_⟩
      beta_reduce at isSet
      split at isSet
      · exact setShapeTensorSingleSplitOnly_sameSplits isSet
      · cases isSet
        exact ⟨.refl prop, rfl⟩
    · exact ⟨prop, by rw [List.getElem?_set_ne same]; exact atRef, .refl prop, rfl⟩

theorem markShape_newSpecs {allowed : Nat → Nat → SplitSpec → Prop} {ref : Option Nat}
    (ran : markShape ref heap = .ok (changed, heap')) : NewSpecs allowed heap heap' := by
  unfold markShape at ran
  cases ref with
  | none =>
    cases ran
    exact .refl heap
  | some ref =>
    apply NewSpecs.onProp _ ran
    intro prop changed set isSet
    split at isSet
    · exact (setShapeTensorSingleSplitOnly_sameSplits isSet).1.splitSpecs
    · cases isSet
      rfl

/-- A call marks the shape operand, and goes on in one of three ways. -/
theorem reshapeInfer_eq_ok (ran : reshapeInfer desc props heap = .ok (changed, heap')) :
    ∃ inputRef shapeRef outputRef marked middle report input output, desc.name.refs props = .ok (inputRef, shapeRef) ∧
      props.outputs[0]? = some outputRef ∧ markShape shapeRef heap = .ok (marked, middle) ∧
      middle[inputRef]? = some input ∧ middle[outputRef]? = some output ∧ ((input.isSplitInOneDim = true ∧
          reshapeForward desc shapeRef outputRef input middle = .ok (report, heap')) ∨ (output.isSplitInOneDim = true ∧
          reshapeBackward desc shapeRef inputRef output middle = .ok (report, heap')) ∨
        inferWithAllInputsSingleSplitOnly props middle = .ok (report, heap')) := by
  unfold reshapeInfer at ran
  obtain ⟨⟨inputRef, shapeRef⟩, isRefs, ran⟩ := bind_ok.1 ran
  obtain ⟨⟨marked, middle⟩, isMarked, ran⟩ := bind_ok.1 ran
  obtain ⟨outputRef, isOutput, ran⟩ := bind_ok.1 ran
  obtain ⟨input, atInput, ran⟩ := bind_ok.1 ran
  obtain ⟨output, atOutput, ran⟩ := bind_ok.1 ran
  obtain ⟨⟨report, last⟩, went, ran⟩ := bind_ok.1 ran
  cases ran
  rw [readAt_eq_ok] at isOutput atInput atOutput
  grind

theorem SameSplits.isSplitInOneDim {prop prop' : ShardingProperty} (same : SameSplits prop prop') :
    prop'.isSplitInOneDim = prop.isSplitInOneDim := by
  unfold ShardingProperty.isSplitInOneDim ShardingProperty.isSplitSingleOnly ShardingProperty.isInitialized
    XpuAutoShard.ShardingProperty.isSplitSingleOnly XpuAutoShard.ShardingProperty.isInitialized
    XpuAutoShard.ShardingProperty.isRanked lowered
  rw [same.tensor.rank, same.tensor.deviceIds, same.splitSpecs, same.orderedSplitDims]

theorem isInitialized_of_isSplitInOneDim (split : input.isSplitInOneDim = true) : input.isInitialized = true := by
  unfold ShardingProperty.isSplitInOneDim at split
  rw [Bool.and_eq_true, Bool.and_eq_true] at split
  exact split.1.1

theorem reshapeInfer_grows (ran : reshapeInfer desc props heap = .ok (changed, heap')) :
    heaps.le heap heap' := by
  obtain ⟨inputRef, shapeRef, outputRef, marked, middle, report, input, output, _, _, isMarked, _, _, went⟩ :=
    reshapeInfer_eq_ok ran
  apply heaps.trans (markShape_grows isMarked).1
  rcases went with ⟨split, forward⟩ | ⟨split, backward⟩ | default
  · exact (reshapeForward_spec (isInitialized_of_isSplitInOneDim split) forward).1
  · exact (reshapeBackward_spec (isInitialized_of_isSplitInOneDim split) backward).1
  · exact (inferWithAllInputsSingleSplitOnly_grows default).1

end Branches

theorem leadingDimsMatch_eq_true {dim : Nat} {extents reshapeVec : List Int}
    (leading : leadingDimsMatch dim extents reshapeVec = .ok true) :
    ∃ lead later later', lead.length = dim ∧ extents = lead ++ later ∧ reshapeVec = lead ++ later' := by
  induction dim generalizing extents reshapeVec with
  | zero => exact ⟨[], extents, reshapeVec, rfl, rfl, rfl⟩
  | succ dim ih =>
    unfold leadingDimsMatch at leading
    obtain ⟨size, atSize, leading⟩ := bind_ok.1 leading
    split at leading
    · cases leading
    obtain ⟨extent, atExtent, leading⟩ := bind_ok.1 leading
    obtain ⟨same, leading⟩ := of_guard leading
    rw [Decidable.not_not] at same
    obtain ⟨lead, later, later', isLength, isExtents, isVec⟩ := ih leading
    cases extents with
    | nil => cases atExtent
    | cons first extents =>
      cases reshapeVec with
      | nil => cases atSize
      | cons first' reshapeVec =>
        cases atSize
        cases atExtent
        grind

end Itex.XpuAutoShard.Hsp
