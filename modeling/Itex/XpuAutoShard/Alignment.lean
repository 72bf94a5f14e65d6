import Itex.XpuAutoShard.Progress
import Itex.XpuAutoShard.RoundTrip

/-!
Contract: what an identical dim group leaves split.

Owns: proportions of split specs, when rescaling a split keeps them, what aligning a dim
group does to one property, and exactly when the group ends up aligned.
-/

namespace Itex.XpuAutoShard.Hsp

open Itex.Lib

variable {dims : List Nat} {extent sum : Int} {group : DimGroup} {item : DimItem} {ref : Nat}
  {sizes : List Int}

theorem foldl_accumulate_eq (values : List Int) (start : Int) (small : start.bmod (2 ^ 32) = start) :
    values.foldl (fun sum value => (sum + value).bmod (2 ^ 32)) start = (start + values.sum).bmod (2 ^ 32) := by
  induction values generalizing start with
  | nil => simpa using small.symm
  | cons head tail ih =>
    rw [List.foldl_cons, ih _ Int.bmod_bmod, List.sum_cons, Int.bmod_add_bmod, Int.add_assoc]

theorem SplitSpec.getTotalSize_eq (spec : SplitSpec) : spec.getTotalSize = spec.sizes.sum.bmod (2 ^ 32) := by
  unfold getTotalSize accumulateInt
  rw [foldl_accumulate_eq _ _ (by decide), Int.zero_add]

/-- A truncated quotient is off by less than the divisor. -/
theorem sub_mul_tdiv_lt {value total quotient : Int} (pos : 0 < total) (isQuotient : value.tdiv total = quotient) :
    -total < value - total * quotient ∧ value - total * quotient < total := by
  have division := Int.mul_tdiv_add_tmod value total
  have below := Int.tmod_lt_of_pos value pos
  have above := Int.lt_tmod_of_pos value pos
  rw [isQuotient] at division
  constructor <;> omega

/-- Scaling by a total that overflowed never gives the right size. -/
theorem total_eq_of_tdiv {quotient : Int} (pos : 0 < sum.bmod (2 ^ 32)) (nonzero : quotient ≠ 0)
    (exact_ : (quotient * sum).tdiv (sum.bmod (2 ^ 32)) = quotient) : sum.bmod (2 ^ 32) = sum := by
  have small : sum.bmod (2 ^ 32) < 2 ^ 31 := Int.bmod_lt (by decide)
  have wraps := Int.bmod_add_bdiv sum (2 ^ 32)
  have close := sub_mul_tdiv_lt pos exact_
  generalize sum.bmod (2 ^ 32) = total at *
  generalize sum.bdiv (2 ^ 32) = turns at *
  by_contra ne
  have turned : turns ≠ 0 := by
    intro none
    rw [none] at wraps
    omega
  have product : quotient * sum - total * quotient = quotient * turns * 2 ^ 32 := by
    rw [← wraps]
    push_cast
    ring
  have nonzeroProduct : quotient * turns ≠ 0 := mul_ne_zero nonzero turned
  rw [product] at close
  generalize quotient * turns = turnsBy at *
  omega

/-! ## Proportions -/

namespace SplitSpec

/-- The parts of a split, as fractions of the whole. -/
def proportions (spec : SplitSpec) : List Rat :=
  match spec.type with
  | .size => spec.sizes.map fun size : Int => (size : Rat) / spec.sizes.sum
  | .ratio => spec.ratios
  | .uninit | .single => []

/-- Two splits are of one kind, in the same number of parts and in the same proportions. -/
def SameProportions (spec spec' : SplitSpec) : Prop :=
  spec.type = spec'.type ∧ spec.size = spec'.size ∧ spec.proportions = spec'.proportions

theorem SameProportions.refl (spec : SplitSpec) : SameProportions spec spec := ⟨rfl, rfl, rfl⟩

theorem SameProportions.symm {spec spec' : SplitSpec} (same : SameProportions spec spec') :
    SameProportions spec' spec := ⟨same.1.symm, same.2.1.symm, same.2.2.symm⟩

theorem SameProportions.trans {first second third : SplitSpec} (same : SameProportions first second)
    (same' : SameProportions second third) : SameProportions first third :=
  ⟨same.1.trans same'.1, same.2.1.trans same'.2.1, same.2.2.trans same'.2.2⟩

end SplitSpec

/-- A split by sizes sums to the size of its dim. -/
def SumsAt (prop : ShardingProperty) (dim : Nat) (spec : SplitSpec) : Prop :=
  spec.type = .size → prop.shape[dim]? = some spec.sizes.sum

/-- Where `splitAt` has to scale the sizes, their total fits in an `int` and divides each
scaled size; where it copies them, they already sum to the size of the dim. -/
def FitsAt (prop : ShardingProperty) (dim : Nat) (spec : SplitSpec) : Prop :=
  spec.type = .size → ∃ extent, prop.shape[dim]? = some extent ∧
    if extent ≤ 0 ∨ spec.getTotalSize ≤ 0 then spec.sizes.sum = extent
    else spec.getTotalSize = spec.sizes.sum ∧ ∀ size ∈ spec.sizes, spec.sizes.sum ∣ extent * size

section Rescaling

variable {prop : ShardingProperty} {dim : Nat} {spec : SplitSpec}

theorem rescaled_eq_self (notSize : spec.type ≠ .size) : prop.rescaled dim spec = spec := by
  have noTotal : spec.getTotalSize = 0 := by
    unfold SplitSpec.getTotalSize
    rw [spec.sizesOnlyForSize notSize]
    rfl
  unfold ShardingProperty.rescaled
  split
  · rfl
  · rw [if_pos (Or.inr (Int.le_of_eq noTotal))]

theorem rescaled_type : (prop.rescaled dim spec).type = spec.type := by
  by_cases isSize : spec.type = .size
  · unfold ShardingProperty.rescaled
    split
    · rfl
    · split
      · rfl
      · exact isSize.symm
  · rw [rescaled_eq_self isSize]

theorem rescaled_size : (prop.rescaled dim spec).size = spec.size := by
  by_cases isSize : spec.type = .size
  · unfold ShardingProperty.rescaled
    split
    · rfl
    · split
      · rfl
      · unfold SplitSpec.size SplitSpec.lowered XpuAutoShard.SplitSpec.size
        rw [isSize]
        exact List.length_map _
  · rw [rescaled_eq_self isSize]

theorem sum_scaled (divides : ∀ size ∈ sizes, sum ∣ extent * size) :
    (sizes.map fun size => (extent * size).tdiv sum).sum * sum = extent * sizes.sum := by
  induction sizes with
  | nil => simp
  | cons head tail ih =>
    have here := Int.tdiv_mul_cancel (divides head List.mem_cons_self)
    have rest := ih fun size mem => divides size (List.mem_cons_of_mem _ mem)
    rw [List.map_cons, List.sum_cons, List.sum_cons, Int.add_mul, here, rest, Int.mul_add]

theorem scaled_proportion {size scaled : Int} (extentNonzero : extent ≠ 0) (sumNonzero : sum ≠ 0) :
    ((size : Rat) / sum = (scaled : Rat) / extent) ↔ scaled * sum = extent * size := by
  have extentNonzero' : (extent : Rat) ≠ 0 := by exact_mod_cast extentNonzero
  have sumNonzero' : (sum : Rat) ≠ 0 := by exact_mod_cast sumNonzero
  rw [div_eq_div_iff sumNonzero' extentNonzero']
  constructor
  · intro same
    have exact_ : size * extent = scaled * sum := by exact_mod_cast same
    rw [← exact_, Int.mul_comm]
  · intro same
    have exact_ : size * extent = scaled * sum := by rw [same, Int.mul_comm]
    exact_mod_cast exact_

theorem scaled_proportions {total : Int} (extentNonzero : extent ≠ 0)
    (sumNonzero : sizes.sum ≠ 0) (sums : (sizes.map fun size => (extent * size).tdiv total).sum = extent) :
    (sizes.map fun size : Int => (size : Rat) / sizes.sum) =
        ((sizes.map fun size => (extent * size).tdiv total).map fun size : Int =>
          (size : Rat) / (sizes.map fun size => (extent * size).tdiv total).sum) ↔
      ∀ size ∈ sizes, (extent * size).tdiv total * sizes.sum = extent * size := by
  rw [sums, List.map_map, List.map_inj_left]
  constructor
  · intro same size mem
    exact (scaled_proportion extentNonzero sumNonzero).1 (same size mem)
  · intro exact_ size mem
    exact (scaled_proportion extentNonzero sumNonzero).2 (exact_ size mem)

/-- The sizes of a split scale right exactly if their total does not overflow and divides
each of the products. -/
theorem scaled_iff (extentPositive : 0 < extent) (totalPositive : 0 < sizes.sum.bmod (2 ^ 32)) :
    (sizes.sum.bmod (2 ^ 32) = sizes.sum ∧ ∀ size ∈ sizes, sizes.sum ∣ extent * size) ↔
      (sizes.map fun size => (extent * size).tdiv (sizes.sum.bmod (2 ^ 32))).sum = extent ∧
      (1 < sizes.length → ∀ size ∈ sizes,
        (extent * size).tdiv (sizes.sum.bmod (2 ^ 32)) * sizes.sum = extent * size) := by
  have sumNonzero : sizes.sum ≠ 0 := by
    intro isZero
    rw [isZero] at totalPositive
    exact absurd totalPositive (by decide)
  constructor
  · rintro ⟨total, divides⟩
    rw [total]
    constructor
    · exact Int.eq_of_mul_eq_mul_right sumNonzero (sum_scaled divides)
    · intro _ size mem
      exact Int.tdiv_mul_cancel (divides size mem)
  · rintro ⟨sums, scaled⟩
    by_cases several : 1 < sizes.length
    · have scales := scaled several
      obtain ⟨size, mem, nonzero⟩ := List.exists_mem_ne_zero_of_sum_ne_zero sumNonzero
      have here := scales size mem
      have total : sizes.sum.bmod (2 ^ 32) = sizes.sum := by
        apply total_eq_of_tdiv totalPositive _ (by rw [here])
        intro isZero
        rw [isZero, Int.zero_mul] at here
        exact mul_ne_zero (by omega) nonzero here.symm
      refine ⟨total, ?_⟩
      intro other otherMember
      exact ⟨_, by rw [← scales other otherMember, Int.mul_comm]⟩
    · match sizes, several with
      | [], _ => exact absurd rfl sumNonzero
      | [size], _ =>
        rw [List.map_cons, List.map_nil, List.sum_cons, List.sum_nil, Int.add_zero,
          List.sum_cons, List.sum_nil, Int.add_zero] at sums
        rw [List.sum_cons, List.sum_nil, Int.add_zero] at totalPositive ⊢
        refine ⟨total_eq_of_tdiv totalPositive (by omega) sums, ?_⟩
        intro other mem
        rw [List.mem_singleton.1 mem]
        exact Int.dvd_mul_left _ _
      | _ :: _ :: rest, several =>
        rw [List.length_cons, List.length_cons] at several
        omega

theorem fitsAt_iff : FitsAt prop dim spec ↔ SumsAt prop dim (prop.rescaled dim spec) ∧
      (1 < spec.size → spec.SameProportions (prop.rescaled dim spec)) := by
  by_cases isSize : spec.type = .size
  · unfold FitsAt SumsAt
    rw [rescaled_type, imp_iff_right isSize, imp_iff_right isSize]
    unfold ShardingProperty.rescaled
    cases prop.shape[dim]? with
    | none => simp
    | some extent =>
      simp only [Option.some.injEq, exists_eq_left']
      split
      next copied =>
        constructor
        · intro sums
          exact ⟨sums.symm, fun _ => .refl spec⟩
        · intro sums
          exact sums.1.symm
      next scaled =>
        rw [not_or, Int.not_le, Int.not_le, SplitSpec.getTotalSize_eq] at scaled
        have isLength : spec.size = spec.sizes.length := by
          unfold SplitSpec.size SplitSpec.lowered XpuAutoShard.SplitSpec.size
          rw [isSize]
        have sumNonzero : spec.sizes.sum ≠ 0 := by
          intro isZero
          rw [isZero] at scaled
          exact absurd scaled.2 (by decide)
        rw [SplitSpec.getTotalSize_eq, scaled_iff scaled.1 scaled.2, isLength, eq_comm]
        apply and_congr_right
        intro sums
        apply imp_congr_right
        intro _
        rw [← scaled_proportions (by omega) sumNonzero sums.symm]
        unfold SplitSpec.SameProportions SplitSpec.proportions
        rw [isSize]
        constructor
        · intro same
          refine ⟨rfl, ?_, same⟩
          rw [isLength]
          exact (List.length_map _).symm
        · intro same
          exact same.2.2
  · rw [rescaled_eq_self isSize]
    constructor
    · intro _
      exact ⟨fun absurd_ => absurd absurd_ isSize, fun _ => .refl spec⟩
    · intro _ absurd_
      exact absurd absurd_ isSize

end Rescaling

/-! ## One property -/

/-- What the second loop of `inferWithIdenticalDimGroup` does at one dim of a property. -/
def alignDim (splitSpec : SplitSpec) (prop : ShardingProperty) (dim : Nat) : Except Failure ShardingProperty := do
  let split ← prop.isSplitAt dim
  if split then return prop
  else do
    let (success, set) ← prop.splitAt dim splitSpec
    if !success then .error .splitAt else return set

/-- The dim takes the split: the dims of its property that come earlier in the group
leave it unsplit. -/
def Fills (splitSpec : SplitSpec) (prop : ShardingProperty) (earlier : List Nat) (dim : Nat) : Prop :=
  ∃ aligned, earlier.foldlM (alignDim splitSpec) prop = .ok aligned ∧ aligned.isSplitAt dim = .ok false

section OneProperty

variable {splitSpec : SplitSpec} {prop aligned : ShardingProperty}

/-- A successful `splitAt` sets the dim, and of the others at most those that were unset. -/
theorem splitAt_specs {dim : Nat} (returned : prop.splitAt dim splitSpec = .ok (true, aligned)) :
    aligned.splitSpecs[dim]? = some (prop.rescaled dim splitSpec) ∧
      ∀ other spec, other ≠ dim → aligned.splitSpecs[other]? = some spec →
        prop.splitSpecs[other]? = some spec ∨ spec = .buildSingleSplit := by
  unfold ShardingProperty.splitAt at returned
  obtain ⟨split, _, returned⟩ := bind_ok.1 returned
  split at returned
  · cases returned
  obtain ⟨old, atDim, returned⟩ := bind_ok.1 returned
  have bound := read_lt (readAt_eq_ok.1 atDim)
  generalize prop.rescaled dim splitSpec = placed at returned ⊢
  have here : (prop.placeAt dim placed).splitSpecs[dim]? = some placed := List.getElem?_set_self bound
  have elsewhere : ∀ other spec, other ≠ dim → (prop.placeAt dim placed).splitSpecs[other]? = some spec →
      prop.splitSpecs[other]? = some spec := by
    intro other spec ne atOther
    change (prop.splitSpecs.set dim placed)[other]? = some spec at atOther
    rwa [List.getElem?_set_ne ne.symm] at atOther
  dsimp only at returned
  split at returned
  · cases returned
    exact ⟨here, fun other spec ne atOther => .inl (elsewhere other spec ne atOther)⟩
  obtain ⟨complete, _, returned⟩ := bind_ok.1 returned
  cases complete with
  | false =>
    cases returned
    exact ⟨here, fun other spec ne atOther => .inl (elsewhere other spec ne atOther)⟩
  | true =>
    cases returned
    constructor
    · change ((prop.placeAt dim placed).splitSpecs.mapIdx _)[dim]? = _
      rw [List.getElem?_mapIdx, here]
      simp
    · intro other spec ne atOther
      change ((prop.placeAt dim placed).splitSpecs.mapIdx _)[other]? = _ at atOther
      grind

theorem alignDim_eq_ok {dim : Nat} : alignDim splitSpec prop dim = .ok aligned ↔
    (prop.isSplitAt dim = .ok true ∧ aligned = prop) ∨
      (prop.isSplitAt dim = .ok false ∧ prop.splitAt dim splitSpec = .ok (true, aligned)) := by
  unfold alignDim
  constructor
  · intro returned
    obtain ⟨split, isSplit, returned⟩ := bind_ok.1 returned
    cases split with
    | true =>
      cases returned
      exact .inl ⟨isSplit, rfl⟩
    | false =>
      obtain ⟨⟨success, set⟩, splits, returned⟩ := bind_ok.1 returned
      cases success with
      | false => cases returned
      | true =>
        cases returned
        exact .inr ⟨isSplit, splits⟩
  · rintro (⟨isSplit, same⟩ | ⟨unsplit, splits⟩)
    · rw [isSplit, same]
      rfl
    · rw [unsplit]
      change (prop.splitAt dim splitSpec >>= _) = _
      rw [splits]
      rfl

theorem alignDim_extends {dim : Nat} (isSet : splitSpec.isInitialized = true)
    (returned : alignDim splitSpec prop dim = .ok aligned) : Extends prop aligned := by
  obtain ⟨_, same⟩ | ⟨_, splits⟩ := alignDim_eq_ok.1 returned
  · rw [same]
    exact .refl prop
  · exact (ShardingProperty.splitAt_grows isSet splits).1

theorem alignDims_extends (isSet : splitSpec.isInitialized = true)
    (returned : dims.foldlM (alignDim splitSpec) prop = .ok aligned) : Extends prop aligned := by
  apply foldlM_invariant (fun _ reached => Extends prop reached) (.refl prop) _ returned
  intro seen dim rest reached next _ before stepped
  exact before.trans (alignDim_extends isSet stepped)

theorem rescaled_congr {dim : Nat} (extends_ : Extends prop aligned) :
    aligned.rescaled dim splitSpec = prop.rescaled dim splitSpec := by
  unfold ShardingProperty.rescaled
  rw [extends_.shape]

theorem alignDims_specs (isSet : splitSpec.isInitialized = true)
    (returned : dims.foldlM (alignDim splitSpec) prop = .ok aligned) :
    ∀ dim spec, aligned.splitSpecs[dim]? = some spec → prop.splitSpecs[dim]? = some spec ∨ spec = .buildSingleSplit ∨
      (spec = prop.rescaled dim splitSpec ∧
        ∃ earlier later, dims = earlier ++ dim :: later ∧ Fills splitSpec prop earlier dim) := by
  apply foldlM_reached_invariant (fun seen (reached : ShardingProperty) =>
    ∀ dim spec, reached.splitSpecs[dim]? = some spec → prop.splitSpecs[dim]? = some spec ∨ spec = .buildSingleSplit ∨
      (spec = prop.rescaled dim splitSpec ∧
        ∃ earlier later, seen = earlier ++ dim :: later ∧ Fills splitSpec prop earlier dim)) _ _ returned
  · exact fun dim spec atDim => .inl atDim
  · intro seen dim rest reached next _ ran before stepped other spec atOther
    have weaken : ∀ spec, reached.splitSpecs[other]? = some spec →
        prop.splitSpecs[other]? = some spec ∨ spec = .buildSingleSplit ∨
        (spec = prop.rescaled other splitSpec ∧ ∃ earlier later,
          seen ++ [dim] = earlier ++ other :: later ∧ Fills splitSpec prop earlier other) := by
      intro spec atOther
      rcases before other spec atOther with kept | single | ⟨scaled, earlier, later, split, fills⟩
      · exact .inl kept
      · exact .inr (.inl single)
      · exact .inr (.inr ⟨scaled, earlier, later ++ [dim], by simp [split], fills⟩)
    obtain ⟨_, same⟩ | ⟨unsplit, splits⟩ := alignDim_eq_ok.1 stepped
    · rw [same] at atOther
      exact weaken spec atOther
    · have specs := splitAt_specs splits
      by_cases here : other = dim
      · rw [here, specs.1] at atOther
        rw [here, ← Option.some.inj atOther, rescaled_congr (alignDims_extends isSet ran)]
        exact .inr (.inr ⟨rfl, seen, [], rfl, reached, ran, unsplit⟩)
      · rcases specs.2 other spec here atOther with kept | single
        · exact weaken spec kept
        · exact .inr (.inl single)

theorem alignDims_fills {earlier later : List Nat} {dim : Nat} (isSet : splitSpec.isInitialized = true)
    (split : dims = earlier ++ dim :: later) (fills : Fills splitSpec prop earlier dim)
    (returned : dims.foldlM (alignDim splitSpec) prop = .ok aligned) :
    aligned.splitSpecs[dim]? = some (prop.rescaled dim splitSpec) := by
  rw [split] at returned
  obtain ⟨reached, next, ran, stepped, rest⟩ := foldlM_append_cons_eq_ok returned
  obtain ⟨reached', ran', unsplit⟩ := fills
  rw [ran] at ran'
  cases ran'
  obtain ⟨isSplit, _⟩ | ⟨_, splits⟩ := alignDim_eq_ok.1 stepped
  · rw [unsplit] at isSplit
    cases isSplit
  · have here := (splitAt_specs splits).1
    rw [rescaled_congr (alignDims_extends isSet ran)] at here
    exact (alignDims_extends isSet rest).splitSpecs.kept here
      (ShardingProperty.rescaled_isInitialized isSet)

end OneProperty

/-! ## Dim groups -/

namespace OpProps

variable (props : OpProps)

def specAt (heap : Heap) (item : DimItem) : Option SplitSpec :=
  match props.refOf item with
  | .ok ref => heap[ref]?.bind fun prop => prop.splitSpecs[item.dim]?
  | .error _ => none

/-- The split to align with: the first of the group that is not single. -/
def reference (heap : Heap) (items : List DimItem) : Option SplitSpec :=
  (items.filterMap (props.specAt heap)).find? fun spec => spec.isInitialized && spec.type != .single

def isOn (ref : Nat) (item : DimItem) : Bool :=
  match props.refOf item with
  | .ok other => other == ref
  | .error _ => false

/-- The dims of one property in a group. -/
def dimsOn (ref : Nat) (items : List DimItem) : List Nat :=
  (items.filter (props.isOn ref)).map DimItem.dim

/-- Any two dims of the group in several parts are split in the same proportions. -/
def Proportional (items : List DimItem) (heap : Heap) : Prop :=
  ∀ item ∈ items, ∀ other ∈ items, ∀ spec spec', props.specAt heap item = some spec →
    props.specAt heap other = some spec' → 1 < spec.size → 1 < spec'.size → spec.SameProportions spec'

def SizesSum (items : List DimItem) (heap : Heap) : Prop :=
  ∀ item ∈ items, ∀ ref prop spec, props.refOf item = .ok ref → heap[ref]? = some prop →
    prop.splitSpecs[item.dim]? = some spec → SumsAt prop item.dim spec

/-- The split to align with fits each dim that takes it. -/
def FitsFilled (items : List DimItem) (heap : Heap) : Prop :=
  ∀ splitSpec, props.reference heap items = some splitSpec → ∀ ref prop, heap[ref]? = some prop →
    ∀ earlier dim later, props.dimsOn ref items = earlier ++ dim :: later →
      Fills splitSpec prop earlier dim → FitsAt prop dim splitSpec

end OpProps

section Scan

variable {props : OpProps} {heap : Heap}

theorem OpProps.specAt_eq {prop : ShardingProperty}
    (isRef : props.refOf item = .ok ref) (atRef : heap[ref]? = some prop) :
    props.specAt heap item = prop.splitSpecs[item.dim]? := by
  unfold OpProps.specAt
  rw [isRef]
  dsimp only
  rw [atRef]
  rfl

theorem unset_of_isSplitAt {prop : ShardingProperty} {dim : Nat} {spec : SplitSpec}
    (unsplit : prop.isSplitAt dim = .ok false) (atDim : prop.splitSpecs[dim]? = some spec) :
    spec.isInitialized = false := by
  cases ranked : prop.isRanked with
  | true => exact ShardingProperty.isSplitAt_eq_false ranked atDim unsplit
  | false =>
    have noRank : prop.rank < 0 := Int.not_le.1 (of_decide_eq_false ranked)
    have noSpecs := prop.specsMatchRank
    rw [Int.toNat_eq_zero.2 (Int.le_of_lt noRank), List.length_eq_zero_iff] at noSpecs
    rw [noSpecs] at atDim
    cases atDim

/-- What the first loop knows after some of the items. -/
structure Scanned (props : OpProps) (heap : Heap) (seen : List DimItem) (scan : IdenticalScan) : Prop where
  isReference : ∀ spec, props.reference heap seen = some spec → scan.splitSpec = some spec
  isSingle : props.reference heap seen = none → ∀ spec, scan.splitSpec = some spec → spec.type = .single
  isSet : ∀ spec, scan.splitSpec = some spec → spec.isInitialized = true
  numInitialized : scan.numInitialized ≤ seen.length
  allSet : scan.numInitialized = seen.length → ∀ item ∈ seen, ∀ ref prop, props.refOf item = .ok ref →
    heap[ref]? = some prop → prop.isSplitAt item.dim = .ok true
  readable : ∀ item ∈ seen, ∃ ref prop, props.refOf item = .ok ref ∧ heap[ref]? = some prop
  origin : ∀ spec, scan.splitSpec = some spec → ∃ item ∈ seen, props.specAt heap item = some spec

theorem OpProps.reference_append (seen : List DimItem) (item : DimItem) :
    props.reference heap (seen ++ [item]) = (props.reference heap seen).or ((props.specAt heap item).bind fun spec =>
        if spec.isInitialized && spec.type != .single then some spec else none) := by
  unfold OpProps.reference
  grind

theorem Scanned.step {seen : List DimItem} {scan scan' : IdenticalScan}
    (before : Scanned props heap seen scan) (stepped : scanIdenticalItem props heap scan item = .ok scan') :
    Scanned props heap (seen ++ [item]) scan' := by
  obtain ⟨ref, prop, isRef, atRef, scanned⟩ := scanIdenticalItem_eq_ok stepped
  have readable : ∀ other ∈ seen ++ [item], ∃ ref prop, props.refOf other = .ok ref ∧ heap[ref]? = some prop := by
    intro other mem
    rcases List.mem_append.1 mem with earlier | last
    · exact before.readable other earlier
    · rw [List.mem_singleton.1 last]
      exact ⟨ref, prop, isRef, atRef⟩
  have earlier : ∀ spec, scan.splitSpec = some spec →
      ∃ other ∈ seen ++ [item], props.specAt heap other = some spec := by
    intro spec found
    obtain ⟨other, mem, atOther⟩ := before.origin spec found
    exact ⟨other, List.mem_append_left _ mem, atOther⟩
  rcases scanned with ⟨unsplit, same⟩ | ⟨split, spec, atDim, took⟩
  · have sameReference : props.reference heap (seen ++ [item]) = props.reference heap seen := by
      rw [OpProps.reference_append, OpProps.specAt_eq isRef atRef]
      cases atDim : prop.splitSpecs[item.dim]? with
      | none => exact Option.or_none
      | some spec =>
        rw [Option.bind_some, unset_of_isSplitAt unsplit atDim]
        exact Option.or_none
    have few := before.numInitialized
    rw [same]
    refine ⟨?_, ?_, before.isSet, ?_, ?_, readable, earlier⟩
    · rw [sameReference]
      exact before.isReference
    · rw [sameReference]
      exact before.isSingle
    · rw [List.length_append]
      omega
    · intro all
      rw [List.length_append, List.length_singleton] at all
      omega
  · have isSet := set_of_isSplitAt split atDim
    have isReference : props.reference heap (seen ++ [item]) =
        (props.reference heap seen).or (if spec.type != .single then some spec else none) := by
      rw [OpProps.reference_append, OpProps.specAt_eq isRef atRef, atDim, Option.bind_some, isSet, Bool.true_and]
    rw [took]
    have few := before.numInitialized
    have here : props.specAt heap item = some spec := by
      rw [OpProps.specAt_eq isRef atRef, atDim]
    have origin : ∀ found, some (scan.take spec) = some found →
        ∃ other ∈ seen ++ [item], props.specAt heap other = some found := by
      intro found isFound
      rw [← Option.some.inj isFound]
      unfold IdenticalScan.take
      split
      · exact ⟨item, List.mem_append_right _ List.mem_cons_self, here⟩
      next splitSpec present =>
        split
        · exact ⟨item, List.mem_append_right _ List.mem_cons_self, here⟩
        · exact earlier splitSpec present
    refine ⟨?_, ?_, ?_, ?_, ?_, readable, origin⟩
    · intro found isFound
      rw [isReference] at isFound
      cases earlier : props.reference heap seen with
      | some reference =>
        rw [earlier, Option.some_or] at isFound
        rw [← Option.some.inj isFound]
        have kept := before.isReference reference earlier
        have notSingle : reference.type ≠ .single := by
          have := List.find?_some earlier
          simp only [Bool.and_eq_true, bne_iff_ne] at this
          exact this.2
        unfold IdenticalScan.take
        rw [kept]
        dsimp only
        rw [if_neg fun both => notSingle both.1]
      | none =>
        rw [earlier, Option.none_or] at isFound
        split at isFound
        next multi =>
          cases isFound
          rw [bne_iff_ne] at multi
          unfold IdenticalScan.take
          cases present : scan.splitSpec with
          | none => rfl
          | some splitSpec =>
            dsimp only
            rw [if_pos ⟨before.isSingle earlier splitSpec present, multi⟩]
        next => cases isFound
    · intro none found isFound
      rw [isReference, Option.or_eq_none_iff] at none
      have single : spec.type = .single := by
        by_contra multi
        have := none.2
        rw [if_pos (by simpa using multi)] at this
        cases this
      cases isFound
      unfold IdenticalScan.take
      split
      · exact single
      next splitSpec present =>
        rw [if_neg fun both => both.2 single]
        exact before.isSingle none.1 splitSpec present
    · intro found isFound
      cases isFound
      exact IdenticalScan.take_isInitialized before.isSet isSet
    · rw [List.length_append, List.length_singleton]
      exact Nat.succ_le_succ few
    · intro all other mem otherRef otherProp isOther atOther
      rw [List.length_append, List.length_singleton] at all
      rcases List.mem_append.1 mem with earlier | last
      · exact before.allSet (Nat.succ.inj all) other earlier otherRef otherProp isOther atOther
      · rw [List.mem_singleton.1 last] at isOther ⊢
        rw [isRef] at isOther
        cases isOther
        rw [atRef] at atOther
        cases atOther
        exact split

theorem scanned_of_foldlM {items : List DimItem} {scan : IdenticalScan}
    (returned : items.foldlM (scanIdenticalItem props heap) {} = .ok scan) : Scanned props heap items scan := by
  apply foldlM_invariant (Scanned props heap) _ _ returned
  · refine ⟨?_, ?_, ?_, Nat.le_refl _, ?_, ?_, ?_⟩
    · intro spec found
      cases found
    · intro _ spec found
      cases found
    · intro spec found
      cases found
    · intro _ item mem
      cases mem
    · intro item mem
      cases mem
    · intro spec found
      cases found
  · intro seen item rest scan scan' _ before stepped
    exact before.step stepped

end Scan

section Group

variable {props : OpProps} {heap heap' : Heap} {splitSpec : SplitSpec} {items : List DimItem}

theorem OpProps.isOn_iff : props.isOn ref item = true ↔ props.refOf item = .ok ref := by
  unfold OpProps.isOn
  cases props.refOf item with
  | error failure => simp
  | ok other => simp

theorem OpProps.mem_dimsOn {dim : Nat} :
    dim ∈ props.dimsOn ref items ↔ ∃ item ∈ items, props.refOf item = .ok ref ∧ item.dim = dim := by
  unfold OpProps.dimsOn
  rw [List.mem_map]
  constructor
  · rintro ⟨item, mem, isDim⟩
    rw [List.mem_filter, OpProps.isOn_iff] at mem
    exact ⟨item, mem.1, mem.2, isDim⟩
  · rintro ⟨item, mem, isRef, isDim⟩
    exact ⟨item, List.mem_filter.2 ⟨mem, OpProps.isOn_iff.2 isRef⟩, isDim⟩

theorem alignIdenticalItem_eq_ok {state next : Bool × Heap}
    (stepped : alignIdenticalItem props splitSpec state item = .ok next) :
    ∃ ref prop aligned, props.refOf item = .ok ref ∧ state.2[ref]? = some prop ∧
      alignDim splitSpec prop item.dim = .ok aligned ∧ next.2 = state.2.set ref aligned := by
  unfold alignIdenticalItem at stepped
  obtain ⟨ref, isRef, stepped⟩ := bind_ok.1 stepped
  obtain ⟨prop, atRef, stepped⟩ := bind_ok.1 stepped
  obtain ⟨split, isSplit, stepped⟩ := bind_ok.1 stepped
  rw [readAt_eq_ok] at atRef
  cases split with
  | true =>
    cases stepped
    refine ⟨ref, prop, prop, isRef, atRef, alignDim_eq_ok.2 (.inl ⟨isSplit, rfl⟩), ?_⟩
    obtain ⟨bound, here⟩ := List.getElem?_eq_some_iff.1 atRef
    rw [← here, List.set_getElem_self]
  | false =>
    obtain ⟨⟨success, set⟩, splits, stepped⟩ := bind_ok.1 stepped
    cases success with
    | false => cases stepped
    | true =>
      cases stepped
      exact ⟨ref, prop, set, isRef, atRef, alignDim_eq_ok.2 (.inr ⟨isSplit, splits⟩), rfl⟩

theorem alignItems_props {changed : Bool}
    (returned : items.foldlM (alignIdenticalItem props splitSpec) (false, heap) = .ok (changed, heap')) :
    heap'.length = heap.length ∧ ∀ ref prop, heap[ref]? = some prop → ∃ aligned, heap'[ref]? = some aligned ∧
        (props.dimsOn ref items).foldlM (alignDim splitSpec) prop = .ok aligned := by
  apply foldlM_invariant (fun seen (state : Bool × Heap) =>
    state.2.length = heap.length ∧ ∀ ref prop, heap[ref]? = some prop → ∃ aligned, state.2[ref]? = some aligned ∧
        (props.dimsOn ref seen).foldlM (alignDim splitSpec) prop = .ok aligned) _ _ returned
  · exact ⟨rfl, fun ref prop atRef => ⟨prop, atRef, rfl⟩⟩
  · intro seen item rest state next _ before stepped
    obtain ⟨itemRef, reached, set, isRef, atItem, aligns, isNext⟩ := alignIdenticalItem_eq_ok stepped
    rw [isNext]
    refine ⟨by rw [List.length_set, before.1], ?_⟩
    intro ref prop atRef
    obtain ⟨aligned, atAligned, ran⟩ := before.2 ref prop atRef
    unfold OpProps.dimsOn at ran ⊢
    rw [List.filter_append, List.map_append, List.foldlM_append, ran]
    by_cases same : itemRef = ref
    · rw [← same] at atAligned ⊢
      rw [atItem] at atAligned
      cases atAligned
      have bound := read_lt atItem
      refine ⟨set, List.getElem?_set_self bound, ?_⟩
      have on : props.isOn itemRef item = true := OpProps.isOn_iff.2 isRef
      rw [List.filter_cons_of_pos on]
      change List.foldlM (alignDim splitSpec) reached [item.dim] = _
      rw [List.foldlM_cons, aligns]
      rfl
    · refine ⟨aligned, ?_, ?_⟩
      · rw [List.getElem?_set_ne same]
        exact atAligned
      · have off : ¬ props.isOn ref item = true := by
          rw [OpProps.isOn_iff, isRef]
          intro isSame
          exact same (Except.ok.inj isSame)
        rw [List.filter_cons_of_neg off]
        rfl

theorem alignItems_of_allSet (allSet : ∀ item ∈ items, ∀ ref prop, props.refOf item = .ok ref →
      heap[ref]? = some prop → prop.isSplitAt item.dim = .ok true)
    (readable : ∀ item ∈ items, ∃ ref prop, props.refOf item = .ok ref ∧ heap[ref]? = some prop) :
    items.foldlM (alignIdenticalItem props splitSpec) (false, heap) = .ok (false, heap) := by
  induction items with
  | nil => rfl
  | cons item rest ih =>
    obtain ⟨ref, prop, isRef, atRef⟩ := readable item List.mem_cons_self
    have split := allSet item List.mem_cons_self ref prop isRef atRef
    have stepped : alignIdenticalItem props splitSpec (false, heap) item = .ok (false, heap) := by
      unfold alignIdenticalItem
      rw [isRef]
      change (readAt heap ref >>= _) = _
      rw [readAt_eq_ok.2 atRef]
      change (prop.isSplitAt item.dim >>= _) = _
      rw [split]
      rfl
    rw [List.foldlM_cons, stepped]
    exact ih (fun other mem => allSet other (List.mem_cons_of_mem _ mem))
      (fun other mem => readable other (List.mem_cons_of_mem _ mem))

theorem aligned_with_reference {changed : Bool}
    (isReference : props.reference heap group.items = some splitSpec)
    (returned : inferWithIdenticalDimGroup props group heap = .ok (changed, heap')) :
    ∃ changed, group.items.foldlM (alignIdenticalItem props splitSpec) (false, heap) = .ok (changed, heap') := by
  unfold inferWithIdenticalDimGroup at returned
  obtain ⟨scan, scanned, returned⟩ := bind_ok.1 returned
  have known := scanned_of_foldlM scanned
  have notSingle : splitSpec.type ≠ .single := by
    have := List.find?_some isReference
    simp only [Bool.and_eq_true, bne_iff_ne] at this
    exact this.2
  rw [known.isReference splitSpec isReference] at returned
  dsimp only at returned
  split at returned
  · exact ⟨changed, returned⟩
  next complete =>
    cases returned
    have all : scan.numInitialized = group.items.length := by
      have := known.numInitialized
      rw [not_and] at complete
      by_contra fewer
      exact complete (by omega) (.inl notSingle)
    exact ⟨false, alignItems_of_allSet (known.allSet all) known.readable⟩

/-- Without one, only single splits are spread. -/
theorem aligned_with_single {changed : Bool} (noReference : props.reference heap group.items = none)
    (returned : inferWithIdenticalDimGroup props group heap = .ok (changed, heap')) :
    heap' = heap ∨ ∃ single changed, single.type = .single ∧ single.isInitialized = true ∧
      group.items.foldlM (alignIdenticalItem props single) (false, heap) = .ok (changed, heap') ∧
      ∃ item ∈ group.items, props.specAt heap item = some single := by
  unfold inferWithIdenticalDimGroup at returned
  obtain ⟨scan, scanned, returned⟩ := bind_ok.1 returned
  have known := scanned_of_foldlM scanned
  split at returned
  · cases returned
    exact .inl rfl
  next single found =>
    split at returned
    · exact .inr ⟨single, changed, known.isSingle noReference single found, known.isSet single found, returned,
        known.origin single found⟩
    · cases returned
      exact .inl rfl

theorem OpProps.specAt_eq_some {spec : SplitSpec} :
    props.specAt heap item = some spec ↔ ∃ ref prop, props.refOf item = .ok ref ∧ heap[ref]? = some prop ∧
      prop.splitSpecs[item.dim]? = some spec := by
  unfold OpProps.specAt
  cases props.refOf item with
  | error failure => simp
  | ok ref => simp [Option.bind_eq_some_iff]

theorem alignItems_before {changed : Bool} {aligned : ShardingProperty}
    (returned : items.foldlM (alignIdenticalItem props splitSpec) (false, heap) = .ok (changed, heap'))
    (atRef : heap'[ref]? = some aligned) : ∃ prop, heap[ref]? = some prop ∧
      (props.dimsOn ref items).foldlM (alignDim splitSpec) prop = .ok aligned := by
  obtain ⟨sameLength, aligns⟩ := alignItems_props returned
  grind

theorem alignItems_keeps {changed : Bool} {spec : SplitSpec} (isSet : splitSpec.isInitialized = true)
    (returned : items.foldlM (alignIdenticalItem props splitSpec) (false, heap) = .ok (changed, heap'))
    (atItem : props.specAt heap item = some spec) (specSet : spec.isInitialized = true) :
    props.specAt heap' item = some spec := by
  obtain ⟨ref, prop, isRef, atRef, atDim⟩ := OpProps.specAt_eq_some.1 atItem
  obtain ⟨aligned, atAligned, ran⟩ := (alignItems_props returned).2 ref prop atRef
  exact OpProps.specAt_eq_some.2
    ⟨ref, aligned, isRef, atAligned, (alignDims_extends isSet ran).splitSpecs.kept atDim specSet⟩

theorem isInitialized_of_multi {spec : SplitSpec} (multi : 1 < spec.size) : spec.isInitialized = true := by
  apply decide_eq_true
  intro unset
  change spec.type = .uninit at unset
  unfold SplitSpec.size SplitSpec.lowered XpuAutoShard.SplitSpec.size at multi
  rw [unset] at multi
  exact absurd multi (Nat.not_lt_zero 1)

theorem not_multi_of_single {spec : SplitSpec} (single : spec.type = .single) : ¬ 1 < spec.size := by
  unfold SplitSpec.size SplitSpec.lowered XpuAutoShard.SplitSpec.size
  rw [single]
  exact Nat.lt_irrefl 1

section

variable {changed : Bool} (isReference : props.reference heap items = some splitSpec)
  (returned : items.foldlM (alignIdenticalItem props splitSpec) (false, heap) = .ok (changed, heap'))

include isReference returned

theorem aligned_of_fits (proportional : props.Proportional items heap) (sums : props.SizesSum items heap)
    (fits : props.FitsFilled items heap) : props.Proportional items heap' ∧ props.SizesSum items heap' := by
  have found := List.find?_some isReference
  simp only [Bool.and_eq_true, bne_iff_ne] at found
  obtain ⟨referenceItem, mem, atReference⟩ := List.mem_filterMap.1 (List.mem_of_find?_eq_some isReference)
  -- Each split in several parts is an old one, or has the proportions of the reference.
  have origin : ∀ item ∈ items, ∀ spec, props.specAt heap' item = some spec → 1 < spec.size →
      props.specAt heap item = some spec ∨ (1 < splitSpec.size ∧ splitSpec.SameProportions spec) := by
    intro item _ spec atItem multi
    obtain ⟨ref, aligned, isRef, atRef, atDim⟩ := OpProps.specAt_eq_some.1 atItem
    obtain ⟨prop, atProp, ran⟩ := alignItems_before returned atRef
    rcases alignDims_specs found.1 ran item.dim spec atDim with
      kept | single | ⟨scaled, earlier, later, split, fills⟩
    · exact .inl (OpProps.specAt_eq_some.2 ⟨ref, prop, isRef, atProp, kept⟩)
    · rw [single] at multi
      exact absurd multi (not_multi_of_single rfl)
    · rw [scaled, rescaled_size] at multi
      rw [scaled]
      exact .inr ⟨multi, (fitsAt_iff.1 (fits splitSpec isReference ref prop atProp earlier _ later split fills)).2
        multi⟩
  constructor
  · intro item isItem other isOther spec spec' atItem atOther multi multi'
    rcases origin item isItem spec atItem multi with old | ⟨several, same⟩
    · rcases origin other isOther spec' atOther multi' with old' | ⟨several, same'⟩
      · exact proportional item isItem other isOther spec spec' old old' multi multi'
      · exact (proportional item isItem referenceItem mem spec splitSpec old atReference multi several).trans
          same'
    · rcases origin other isOther spec' atOther multi' with old' | ⟨_, same'⟩
      · exact same.symm.trans
          (proportional referenceItem mem other isOther splitSpec spec' atReference old' several multi')
      · exact same.symm.trans same'
  · intro item isItem ref aligned spec isRef atRef atDim
    obtain ⟨prop, atProp, ran⟩ := alignItems_before returned atRef
    have sameShape := (alignDims_extends found.1 ran).shape
    have before : SumsAt prop item.dim spec := by
      rcases alignDims_specs found.1 ran item.dim spec atDim with
        kept | single | ⟨scaled, earlier, later, split, fills⟩
      · exact sums item isItem ref prop spec isRef atProp kept
      · rw [single]
        intro isSize
        cases isSize
      · rw [scaled]
        exact (fitsAt_iff.1 (fits splitSpec isReference ref prop atProp earlier _ later split fills)).1
    unfold SumsAt at before ⊢
    rwa [sameShape]

theorem fits_of_aligned (proportional : props.Proportional items heap') (sums : props.SizesSum items heap') :
    props.Proportional items heap ∧ props.FitsFilled items heap := by
  have found := List.find?_some isReference
  simp only [Bool.and_eq_true, bne_iff_ne] at found
  obtain ⟨referenceItem, mem, atReference⟩ := List.mem_filterMap.1 (List.mem_of_find?_eq_some isReference)
  constructor
  · intro item isItem other isOther spec spec' atItem atOther multi multi'
    exact proportional item isItem other isOther spec spec'
      (alignItems_keeps found.1 returned atItem (isInitialized_of_multi multi))
      (alignItems_keeps found.1 returned atOther (isInitialized_of_multi multi')) multi multi'
  · intro reference isReference' ref prop atRef earlier dim later split fills
    rw [isReference] at isReference'
    cases isReference'
    obtain ⟨aligned, atAligned, ran⟩ := (alignItems_props returned).2 ref prop atRef
    have filled := alignDims_fills found.1 split fills ran
    have sameShape := (alignDims_extends found.1 ran).shape
    obtain ⟨item, isItem, isRef, isDim⟩ : ∃ item ∈ items, props.refOf item = .ok ref ∧ item.dim = dim :=
      OpProps.mem_dimsOn.1 (by rw [split]; simp)
    rw [← isDim] at filled ⊢
    rw [fitsAt_iff]
    constructor
    · have after := sums item isItem ref aligned _ isRef atAligned filled
      unfold SumsAt at after ⊢
      rwa [sameShape] at after
    · intro several
      apply proportional referenceItem mem item isItem _ _
        (alignItems_keeps found.1 returned atReference found.1)
        (OpProps.specAt_eq_some.2 ⟨ref, aligned, isRef, atAligned, filled⟩) several
      rwa [rescaled_size]

end

theorem aligned_without_reference {changed : Bool} (noReference : props.reference heap group.items = none)
    (returned : inferWithIdenticalDimGroup props group heap = .ok (changed, heap')) :
    props.Proportional group.items heap' ∧ props.SizesSum group.items heap' ∧ props.Proportional group.items heap := by
  have unsplit : ∀ item ∈ group.items, ∀ spec, props.specAt heap item = some spec →
      spec.type = .single ∨ spec.isInitialized = false := by
    intro item mem spec atItem
    have notFound := List.find?_eq_none.1 noReference spec (List.mem_filterMap.2 ⟨item, mem, atItem⟩)
    simp only [Bool.and_eq_true, bne_iff_ne, not_and, not_not] at notFound
    by_cases isSet : spec.isInitialized = true
    · exact .inl (notFound isSet)
    · exact .inr (Bool.not_eq_true _ ▸ isSet)
  have unsplit' : ∀ item ∈ group.items, ∀ spec, props.specAt heap' item = some spec →
      spec.type = .single ∨ spec.isInitialized = false := by
    rcases aligned_with_single noReference returned with same | ⟨single, _, isSingle, isSet, aligns, _⟩
    · rw [same]
      exact unsplit
    · intro item mem spec atItem
      obtain ⟨ref, aligned, isRef, atRef, atDim⟩ := OpProps.specAt_eq_some.1 atItem
      obtain ⟨prop, atProp, ran⟩ := alignItems_before aligns atRef
      rcases alignDims_specs isSet ran item.dim spec atDim with kept | spread | ⟨scaled, _⟩
      · exact unsplit item mem spec (OpProps.specAt_eq_some.2 ⟨ref, prop, isRef, atProp, kept⟩)
      · rw [spread]
        exact .inl rfl
      · rw [scaled, rescaled_type]
        exact .inl isSingle
  have notMulti : ∀ spec : SplitSpec, spec.type = .single ∨ spec.isInitialized = false → ¬ 1 < spec.size := by
    intro spec which multi
    rcases which with single | unset
    · exact not_multi_of_single single multi
    · rw [isInitialized_of_multi multi] at unset
      cases unset
  refine ⟨?_, ?_, ?_⟩
  · intro item mem _ _ spec _ atItem _ multi
    exact absurd multi (notMulti spec (unsplit' item mem spec atItem))
  · intro item mem ref aligned spec isRef atRef atDim isSize
    rcases unsplit' item mem spec (OpProps.specAt_eq_some.2 ⟨ref, aligned, isRef, atRef, atDim⟩) with
      single | unset
    · rw [single] at isSize
      cases isSize
    · have isUnset : spec.type = .uninit := Decidable.not_not.1 (of_decide_eq_false unset)
      rw [isUnset] at isSize
      cases isSize
  · intro item mem _ _ spec _ atItem _ multi
    exact absurd multi (notMulti spec (unsplit item mem spec atItem))

/-- When an identical dim group returns, its dims are aligned exactly if those that were
split before were in proportion and the split fits each dim that took it. -/
theorem identicalDimGroup_aligned_iff {group : DimGroup} {changed : Bool} (sums : props.SizesSum group.items heap)
    (returned : inferWithIdenticalDimGroup props group heap = .ok (changed, heap')) :
    (props.Proportional group.items heap' ∧ props.SizesSum group.items heap') ↔
      (props.Proportional group.items heap ∧ props.FitsFilled group.items heap) := by
  cases isReference : props.reference heap group.items with
  | none =>
    obtain ⟨proportional', sums', proportional⟩ := aligned_without_reference isReference returned
    constructor
    · intro _
      refine ⟨proportional, ?_⟩
      intro splitSpec found
      rw [isReference] at found
      cases found
    · intro _
      exact ⟨proportional', sums'⟩
  | some splitSpec =>
    obtain ⟨changed, aligns⟩ := aligned_with_reference isReference returned
    constructor
    · intro aligned
      exact fits_of_aligned isReference aligns aligned.1 aligned.2
    · intro fits
      exact aligned_of_fits isReference aligns fits.1 sums fits.2

end Group

/-! ## Splits in other proportions -/

/-- A row of four on two devices, with its split. -/
def splitRow (sizes : List Int) : ShardingProperty :=
  { rank := 1, shape := [4], deviceIds := [0, 1], splitSpecs := [.buildFromSizes sizes []],
    orderedSplitDims := [0], specsMatchRank := oneSpec }

/-- Two rows of four, the quarter against the rest and in halves. -/
def unevenRows : Heap := [splitRow [1, 3], splitRow [2, 2]]

def rowsProps : OpProps := ⟨[0], [1]⟩

def rowsGroup : DimGroup := { items := [⟨true, 0, 0⟩, ⟨false, 0, 0⟩] }

theorem unevenRows_sizesSum : rowsProps.SizesSum rowsGroup.items unevenRows := by
  have each : ∀ item ∈ rowsGroup.items, ∀ ref ∈ [0, 1], ∀ prop ∈ unevenRows, ∀ spec ∈ prop.splitSpecs,
      prop.splitSpecs[item.dim]? = some spec → SumsAt prop item.dim spec := by
    unfold SumsAt
    decide
  intro item mem ref prop spec isRef atRef atDim
  have bound := read_lt atRef
  have isRef : ref ∈ [0, 1] := by
    change ref < 2 at bound
    rw [List.mem_cons, List.mem_singleton]
    omega
  exact each item mem ref isRef prop (List.mem_of_getElem? atRef) spec (List.mem_of_getElem? atDim) atDim

theorem unevenRows_not_proportional : ¬ rowsProps.Proportional rowsGroup.items unevenRows := by
  intro proportional
  have same := proportional ⟨true, 0, 0⟩ (by decide) ⟨false, 0, 0⟩ (by decide)
    (.buildFromSizes [1, 3] []) (.buildFromSizes [2, 2] []) rfl rfl (by decide) (by decide)
  have first : ((1 : Int) : Rat) / ((4 : Int) : Rat) = ((2 : Int) : Rat) / ((4 : Int) : Rat) :=
    List.head_eq_of_cons_eq same.2.2
  norm_num at first

/-- The quarter and the half pass for equivalent, and nothing is changed. -/
theorem unevenRows_misaligned : ¬ ∀ (props : OpProps) (group : DimGroup) (heap : Heap) (changed : Bool) (heap' : Heap),
      group.type = .identical → (∀ prop ∈ heap, prop.isRanked = true ∧ prop.isDevicesAssigned = true) →
      props.SizesSum group.items heap → inferWithIdenticalDimGroup props group heap = .ok (changed, heap') →
      props.Proportional group.items heap' ∧ props.SizesSum group.items heap' := by
  intro aligned
  have both := aligned rowsProps rowsGroup unevenRows false unevenRows (by decide) (by decide)
    unevenRows_sizesSum (by decide)
  exact unevenRows_not_proportional both.1

/-- A row of four in halves, and a row of eight that is not split yet. -/
def scaledRows : Heap :=
  [splitRow [2, 2], { rank := 1, shape := [8], deviceIds := [0, 1], splitSpecs := [{}], specsMatchRank := oneSpec }]

theorem scaledRows_specAt {spec : SplitSpec} (mem : item ∈ rowsGroup.items)
    (atItem : rowsProps.specAt scaledRows item = some spec) : spec = .buildFromSizes [2, 2] [] ∨ spec = {} := by
  have each : ∀ item ∈ rowsGroup.items, rowsProps.specAt scaledRows item = some (.buildFromSizes [2, 2] []) ∨
      rowsProps.specAt scaledRows item = some {} := by decide
  rcases each item mem with halves | fresh
  · exact .inl (Option.some.inj (atItem.symm.trans halves))
  · exact .inr (Option.some.inj (atItem.symm.trans fresh))

theorem scaledRows_proportional : rowsProps.Proportional rowsGroup.items scaledRows := by
  intro item mem other mem' spec spec' atItem atOther multi multi'
  rcases scaledRows_specAt mem atItem with halves | fresh
  · rcases scaledRows_specAt mem' atOther with halves' | fresh'
    · rw [halves, halves']
      exact .refl _
    · rw [fresh'] at multi'
      exact absurd multi' (by decide)
  · rw [fresh] at multi
    exact absurd multi (by decide)

theorem scaledRows_sizesSum : rowsProps.SizesSum rowsGroup.items scaledRows := by
  have each : ∀ item ∈ rowsGroup.items, ∀ prop ∈ scaledRows, ∀ spec ∈ prop.splitSpecs, SumsAt prop item.dim spec := by
    unfold SumsAt
    decide
  intro item mem ref prop spec _ atRef atDim
  exact each item mem prop (List.mem_of_getElem? atRef) spec (List.mem_of_getElem? atDim)

theorem scaledRows_fitsFilled : rowsProps.FitsFilled rowsGroup.items scaledRows := by
  have isReference : rowsProps.reference scaledRows rowsGroup.items = some (.buildFromSizes [2, 2] []) := by
    decide
  have each : ∀ prop ∈ scaledRows, ∃ extent ∈ [(4 : Int), 8], prop.shape[0]? = some extent := by decide
  intro splitSpec found ref prop atRef earlier dim later split _ _
  rw [isReference] at found
  cases found
  obtain ⟨item, mem, _, isDim⟩ : ∃ item ∈ rowsGroup.items, rowsProps.refOf item = .ok ref ∧ item.dim = dim :=
    OpProps.mem_dimsOn.1 (by rw [split]; simp)
  have isZero : ∀ item ∈ rowsGroup.items, item.dim = 0 := by decide
  rw [isZero item mem] at isDim
  rw [← isDim]
  obtain ⟨extent, isExtent, atZero⟩ := each prop (List.mem_of_getElem? atRef)
  refine ⟨extent, atZero, ?_⟩
  have fits : ∀ extent ∈ [(4 : Int), 8], if extent ≤ 0 ∨ (SplitSpec.buildFromSizes [2, 2] []).getTotalSize ≤ 0 then
        (SplitSpec.buildFromSizes [2, 2] []).sizes.sum = extent
      else (SplitSpec.buildFromSizes [2, 2] []).getTotalSize = (SplitSpec.buildFromSizes [2, 2] []).sizes.sum ∧
        ∀ size ∈ (SplitSpec.buildFromSizes [2, 2] []).sizes,
          (SplitSpec.buildFromSizes [2, 2] []).sizes.sum ∣ extent * size := by decide
  exact fits extent isExtent

theorem scaledRows_aligned : ∃ heap', inferWithIdenticalDimGroup rowsProps rowsGroup scaledRows = .ok (true, heap') ∧
      rowsProps.Proportional rowsGroup.items heap' ∧ rowsProps.SizesSum rowsGroup.items heap' := by
  refine ⟨_, rfl, ?_⟩
  exact (identicalDimGroup_aligned_iff scaledRows_sizesSum rfl).2
    ⟨scaledRows_proportional, scaledRows_fitsFilled⟩

end Itex.XpuAutoShard.Hsp
