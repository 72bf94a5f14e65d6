import Itex.XpuAutoShard.Reduction
import Itex.XpuAutoShard.Splits

/-!
Contract: the property that the result of a reduction is given.

Owns: where a reduction takes place, and the splits, stages and post-operations of its
result once they are inferred.
-/

namespace Itex.XpuAutoShard.Hsp

open Itex.Lib
open Itex.XpuAutoShard.Hsp.ShardingProperty

variable {flags : List Bool} {heap' : Heap} {prop : ShardingProperty} {ref : Nat}

/-- Split by sizes along one dim, with a piece for each shard and a shard on each device. -/
structure SizeSplit (prop : ShardingProperty) (dim : Nat) (sizes : List Int) : Prop where
  atDim : ∃ stageOffsets, prop.splitSpecs[dim]? = some (.buildFromSizes sizes stageOffsets)
  single : ∀ other spec, prop.splitSpecs[other]? = some spec → other ≠ dim → spec = .buildSingleSplit
  ordered : prop.orderedSplitDims = if 1 < sizes.length then [dim] else []
  devices : prop.deviceIds.Nodup
  perDevice : prop.lowered.getNumLogicalShardsPerdevice.length = prop.deviceIds.length
  staged : ∀ count ∈ prop.lowered.getNumLogicalShardsPerdevice, 0 < count
  counted : prop.getNumLogicalShards = sizes.length
  positive : ∀ size ∈ sizes, 0 < size
  nonempty : sizes ≠ []

/-- As the constructor leaves it, with devices. -/
structure Fresh (prop : ShardingProperty) : Prop where
  ranked : 0 ≤ prop.rank
  unset : ∀ (dim : Nat) (spec : SplitSpec), prop.splitSpecs[dim]? = some spec → spec = {}
  unordered : prop.orderedSplitDims = []
  noPostOps : prop.postOps = []
  noStages : prop.singleSplitOnlyStageOffsets = []

/-- The place in the result of a dim of the operand. -/
def Reduction.place (reduction : Reduction) (rank dim : Nat) : Nat :=
  projectDim (if reduction.keeps then some 0 else none) (reduction.reduced rank) dim

/-- The properties of a reduction before inference. The operand with the reduction dims is
single split. -/
structure Site (reduction : Reduction) (props : OpProps) (heap : Heap) (dim : Nat) (sizes : List Int)
    (inputRef outputRef : Nat) (others : List Nat) (input output : ShardingProperty) : Prop where
  inputs : props.inputs = inputRef :: others
  outputs : props.outputs = [outputRef]
  atInput : heap[inputRef]? = some input
  atOutput : heap[outputRef]? = some output
  apart : inputRef ≠ outputRef
  split : SizeSplit input dim sizes
  fresh : Fresh output
  sameDevices : output.deviceIds = input.deviceIds
  constants : ∀ other ∈ others, other ≠ outputRef ∧ ∃ prop, heap[other]? = some prop ∧
    prop.isSplitSingleOnly = true ∧ prop.singleSplitOnlyStageOffsets = [] ∧ prop.deviceIds = input.deviceIds
  someDims : reduction.dims input.rank ≠ []
  inRange : ∀ index ∈ reduction.dims input.rank, -input.rank ≤ index ∧ index < input.rank
  outputRank : output.rank.toNat = if reduction.keeps then input.rank.toNat
    else ((reduction.reduced input.rank.toNat).filter (!·)).length
  /-- The size of the split dim is a 64-bit number, and its partner has it, if it is known. -/
  bounded : sizes.sum < 2 ^ 63
  outputShape : ∀ extent, output.shape[reduction.place input.rank.toNat dim]? = some extent →
    (reduction.reduced input.rank.toNat)[dim]? = some false → 0 < extent → extent = sizes.sum

section

variable {reduction : Reduction} {props : OpProps} {heap : Heap} {dim : Nat} {sizes : List Int} {inputRef outputRef : Nat}
  {others : List Nat} {input output : ShardingProperty}
  (site : Site reduction props heap dim sizes inputRef outputRef others input output)

include site

theorem Site.isInput : readAt props.inputs 0 = .ok inputRef := by
  rw [site.inputs]
  rfl

theorem Site.isOutput : readAt props.outputs 0 = .ok outputRef := by
  rw [site.outputs]
  rfl

end

/-! ## Runs of rules -/

def Rule.after (heap : Heap) (rule : Rule) : Except Failure Heap := Prod.snd <$> rule.run heap

theorem Rule.after_eq_ok {rule : Rule} {heap : Heap} :
    rule.after heap = .ok heap' ↔ ∃ changed, rule.run heap = .ok (changed, heap') := by
  unfold Rule.after
  cases rule.run heap with
  | error failure => simp [Functor.map, Except.map]
  | ok result => simp [Functor.map, Except.map, Prod.ext_iff]

theorem Rule.after_eq {rule : Rule} {heap : Heap} {changed : Bool} (ran : rule.run heap = .ok (changed, heap')) :
    rule.after heap = .ok heap' := Rule.after_eq_ok.2 ⟨changed, ran⟩

theorem applyAll_run {rules : List Rule} {next : Heap → DoInfer} {heap : Heap} {result : Bool × Heap}
    (ran : rules.foldlM Rule.after heap = .ok heap') (finished : (next heap').run heap' = .ok result) :
    ∃ changed, (applyAll rules next heap).run heap = .ok (changed, result.2) := by
  induction rules generalizing heap with
  | nil =>
    cases ran
    exact ⟨result.1, finished⟩
  | cons rule rules ih =>
    rw [List.foldlM_cons, bind_ok] at ran
    obtain ⟨middle, first, ran⟩ := ran
    unfold Rule.after at first
    cases ranFirst : rule.run heap with
    | error failure =>
      rw [ranFirst] at first
      cases first
    | ok pair =>
      rw [ranFirst] at first
      cases first
      obtain ⟨changed, rest⟩ := ih ran
      refine ⟨(true && pair.1) || changed, ?_⟩
      unfold applyAll DoInfer.run
      exact bind_ok.2 ⟨pair, ranFirst, bind_ok.2 ⟨(changed, result.2), rest, rfl⟩⟩

/-- Unset or single. -/
def Loose (prop : ShardingProperty) (dim : Nat) : Prop :=
  ∃ spec, prop.splitSpecs[dim]? = some spec ∧ (spec = {} ∨ spec = .buildSingleSplit)

def MakesSingle (heap : Heap) (ref : Nat) (rule : Rule) (dim : Nat) : Prop :=
  ∀ prop : ShardingProperty, Loose prop dim → prop.deviceIds ≠ [] →
    rule.after (heap.set ref prop) = .ok (heap.set ref (prop.placeAt dim .buildSingleSplit))

theorem Loose.placeAt {dim other : Nat} (loose : Loose prop dim) :
    Loose (prop.placeAt other .buildSingleSplit) dim := by
  obtain ⟨spec, atDim, isLoose⟩ := loose
  by_cases same : other = dim
  · have bound := read_lt atDim
    refine ⟨.buildSingleSplit, ?_, .inr rfl⟩
    rw [same]
    exact List.getElem?_set_self bound
  · refine ⟨spec, ?_, isLoose⟩
    change (prop.splitSpecs.set other _)[dim]? = _
    rwa [List.getElem?_set_ne same]

theorem Loose.singles {dim : Nat} (loose : Loose prop dim) (dims : List Nat) :
    Loose (prop.singles dims) dim := by
  unfold ShardingProperty.singles
  induction dims generalizing prop with
  | nil => exact loose
  | cons first dims ih => exact ih loose.placeAt

theorem run_singles {heap : Heap} {entries : List (Rule × Nat)}
    (each : ∀ entry ∈ entries, MakesSingle heap ref entry.1 entry.2)
    (loose : ∀ entry ∈ entries, Loose prop entry.2) (hasDevices : prop.deviceIds ≠ []) :
    (entries.map Prod.fst).foldlM Rule.after (heap.set ref prop) =
      .ok (heap.set ref (prop.singles (entries.map Prod.snd))) := by
  induction entries generalizing prop with
  | nil => rfl
  | cons entry entries ih =>
    rw [List.map_cons, List.foldlM_cons, bind_ok]
    refine ⟨_, each entry List.mem_cons_self prop (loose entry List.mem_cons_self) hasDevices, ?_⟩
    exact ih (fun other mem => each other (List.mem_cons_of_mem _ mem))
      (fun other mem => (loose other (List.mem_cons_of_mem _ mem)).placeAt) hasDevices

theorem makesSingle_trySplitSingleOnly {heap : Heap} (inHeap : ref < heap.length) (dim : Nat) :
    MakesSingle heap ref (.trySplitSingleOnly ref (some dim)) dim := by
  rintro prop ⟨spec, atDim, isLoose⟩ hasDevices
  obtain ⟨changed, ran⟩ := trySplitSingleOnly_eq (List.getElem?_set_self inHeap) atDim isLoose hasDevices
  rw [List.set_set] at ran
  exact Rule.after_eq ran

theorem makesSingle_identicalPair {props : OpProps} {heap : Heap} {inputRef inputDim : Nat}
    {input : ShardingProperty} (isInput : readAt props.inputs 0 = .ok inputRef)
    (isOutput : readAt props.outputs 0 = .ok ref) (atInput : heap[inputRef]? = some input)
    (apart : inputRef ≠ ref) (inHeap : ref < heap.length)
    (atInputDim : input.splitSpecs[inputDim]? = some .buildSingleSplit) (dim : Nat) :
    MakesSingle heap ref (.dimGroup props (identicalPair inputDim dim)) dim := by
  rintro prop ⟨spec, atDim, isLoose⟩ hasDevices
  have atInput' : (heap.set ref prop)[inputRef]? = some input := by
    rwa [List.getElem?_set_ne apart.symm]
  have atOutput : (heap.set ref prop)[ref]? = some prop := List.getElem?_set_self inHeap
  have isGroup : Rule.run (.dimGroup props (identicalPair inputDim dim)) (heap.set ref prop) =
      inferWithIdenticalDimGroup props (identicalPair inputDim dim) (heap.set ref prop) := rfl
  rcases isLoose with isUnset | isSingle
  · rw [isUnset] at atDim
    have ran := identicalPair_of_unset isInput isOutput atInput' atOutput atInputDim rfl atDim rfl
      (splitAt_of_unset atDim rfl hasDevices (by decide))
    rw [rescaled_single, List.set_set, ← isGroup] at ran
    exact Rule.after_eq ran
  · rw [isSingle] at atDim
    have ran := identicalPair_of_set isInput isOutput atInput' atOutput atInputDim rfl atDim rfl (.inl rfl)
    rw [← isGroup] at ran
    rw [placeAt_self atDim]
    exact Rule.after_eq ran

/-- The dims without a flag, in order. -/
def keptDims : List Bool → List Nat
  | [] => []
  | flag :: flags => (if flag then [] else [0]) ++ (keptDims flags).map (· + 1)

theorem keptDims_map_range (isReduced : Nat → Bool) (count : Nat) :
    keptDims ((List.range count).map isReduced) = (List.range count).filter fun dim => !isReduced dim := by
  induction count generalizing isReduced with
  | zero => rfl
  | succ count ih =>
    have later := ih fun dim => isReduced (dim + 1)
    rw [List.range_succ_eq_map, List.map_cons, List.map_map, keptDims, List.filter_cons, List.filter_map]
    change (if isReduced 0 then [] else [0]) ++ (keptDims ((List.range count).map fun dim => isReduced (dim + 1))).map _ = _
    rw [later]
    cases isReduced 0 <;> rfl

theorem length_keptDims (flags : List Bool) : (keptDims flags).length = (flags.filter (!·)).length := by
  induction flags with
  | nil => rfl
  | cons flag flags ih =>
    rw [keptDims, List.length_append, List.length_map, ih]
    cases flag
    · simp [Nat.add_comm]
    · simp

theorem mem_keptDims {dim : Nat} : dim ∈ keptDims flags ↔ flags[dim]? = some false := by
  induction flags generalizing dim with
  | nil => simp [keptDims]
  | cons flag flags ih =>
    rw [keptDims, List.mem_append, List.mem_map]
    cases dim with
    | zero => cases flag <;> simp
    | succ dim =>
      rw [List.getElem?_cons_succ, ← ih]
      cases flag <;> simp

theorem projectDim_none {place dim : Nat} (atPlace : (keptDims flags)[place]? = some dim) :
    projectDim none flags dim = place := by
  induction flags generalizing place dim with
  | nil => cases atPlace
  | cons flag flags ih =>
    rw [keptDims] at atPlace
    cases flag with
    | true =>
      rw [if_pos rfl, List.nil_append, List.getElem?_map, Option.map_eq_some_iff] at atPlace
      obtain ⟨before, atBefore, isDim⟩ := atPlace
      rw [← isDim, projectDim, ih atBefore]
      exact Nat.zero_add place
    | false =>
      rw [if_neg Bool.false_ne_true, List.singleton_append] at atPlace
      cases place with
      | zero =>
        cases Option.some.inj atPlace
        rfl
      | succ place =>
        rw [List.getElem?_cons_succ, List.getElem?_map, Option.map_eq_some_iff] at atPlace
        obtain ⟨before, atBefore, isDim⟩ := atPlace
        rw [← isDim, projectDim, ih atBefore]

theorem projectDim_some {dim filler : Nat} (inside : dim < flags.length) :
    projectDim (some filler) flags dim = dim := by
  induction flags generalizing dim with
  | nil => cases inside
  | cons flag flags ih =>
    cases dim with
    | zero => cases flag <;> rfl
    | succ dim =>
      have rest := ih (Nat.lt_of_succ_lt_succ inside)
      cases flag with
      | true =>
        rw [projectDim, rest]
        exact Nat.add_comm 1 dim
      | false => rw [projectDim, rest]

/-! ## Reduction dims -/

theorem tmod_add {index rank : Int} (low : -rank ≤ index) (high : index < rank) :
    (index + rank).tmod rank = if index < 0 then index + rank else index := by
  rw [Int.tmod_eq_emod_of_nonneg (by omega)]
  split
  · exact Int.emod_eq_of_lt (by omega) (by omega)
  · rw [Int.add_emod_right]
    exact Int.emod_eq_of_lt (by omega) high

theorem isContractionDim_eq {rank : Int} {dims : List Int} (inRange : ∀ index ∈ dims, -rank ≤ index ∧ index < rank)
    (dim : Nat) : isContractionDim rank dims dim =
      dims.any fun index => (dim : Int) == if index < 0 then index + rank else index := by
  unfold isContractionDim
  rw [Bool.eq_iff_iff, List.any_eq_true, List.any_eq_true]
  apply exists_congr
  intro index
  apply and_congr_right
  intro mem
  rw [tmod_add (inRange index mem).1 (inRange index mem).2]

section Groups

variable {reduction : Reduction} {props : OpProps} {heap : Heap} {dim : Nat} {sizes : List Int}
  {inputRef outputRef : Nat} {others : List Nat} {input output : ShardingProperty}

theorem SizeSplit.rank_eq (split : SizeSplit input dim sizes) : (input.rank.toNat : Int) = input.rank := by
  obtain ⟨_, atDim⟩ := split.atDim
  have bound := read_lt atDim
  rw [input.specsMatchRank] at bound
  omega

theorem SizeSplit.lt_rank (split : SizeSplit input dim sizes) : dim < input.rank.toNat := by
  obtain ⟨_, atDim⟩ := split.atDim
  have bound := read_lt atDim
  rwa [input.specsMatchRank] at bound

theorem SizeSplit.spec_of_ne (split : SizeSplit input dim sizes) {other : Nat} (inside : other < input.rank.toNat)
    (ne : other ≠ dim) : input.splitSpecs[other]? = some .buildSingleSplit := by
  rw [← input.specsMatchRank] at inside
  have atOther := List.getElem?_eq_getElem inside
  rw [split.single other _ atOther ne] at atOther
  exact atOther

theorem Site.reduced_eq (site : Site reduction props heap dim sizes inputRef outputRef others input output) :
    reduction.reduced input.rank.toNat =
      (List.range input.rank.toNat).map (isContractionDim input.rank (reduction.dims input.rank)) := by
  unfold Reduction.reduced
  rw [site.split.rank_eq]
  apply List.map_congr_left
  intro other _
  exact (isContractionDim_eq site.inRange other).symm

theorem Site.keptDims_eq (site : Site reduction props heap dim sizes inputRef outputRef others input output) :
    keptDims (reduction.reduced input.rank.toNat) = (List.range input.rank.toNat).filter fun other =>
      !isContractionDim input.rank (reduction.dims input.rank) other := by
  rw [site.reduced_eq, keptDims_map_range]

theorem Reduction.length_reduced (reduction : Reduction) (rank : Nat) : (reduction.reduced rank).length = rank := by
  unfold Reduction.reduced
  rw [List.length_map, List.length_range]

theorem Site.identicalOutputDims (site : Site reduction props heap dim sizes inputRef outputRef others input output) :
    ((List.range output.rank.toNat).filter fun other =>
      !(reduction.keeps && isContractionDim input.rank (reduction.dims input.rank) other)) =
      (keptDims (reduction.reduced input.rank.toNat)).map (reduction.place input.rank.toNat) := by
  rw [site.outputRank]
  unfold Reduction.place
  cases reduction.keeps with
  | true =>
    simp only [if_true, Bool.true_and]
    rw [← site.keptDims_eq]
    have same : ∀ kept ∈ keptDims (reduction.reduced input.rank.toNat),
        projectDim (some 0) (reduction.reduced input.rank.toNat) kept = kept := by
      intro kept isKept
      exact projectDim_some (read_lt (mem_keptDims.1 isKept))
    rw [List.map_congr_left same, List.map_id']
  | false =>
    simp only [Bool.false_eq_true, if_false, Bool.false_and, Bool.not_false, List.filter_true]
    rw [← length_keptDims]
    apply List.ext_getElem?
    intro place
    rw [List.getElem?_map]
    cases atPlace : (keptDims (reduction.reduced input.rank.toNat))[place]? with
    | none =>
      rw [List.getElem?_eq_none_iff] at atPlace
      rw [List.getElem?_eq_none (by rwa [List.length_range])]
      rfl
    | some kept =>
      rw [Option.map_some, projectDim_none atPlace]
      exact List.getElem?_range (read_lt atPlace)

theorem Site.identicalGroups (site : Site reduction props heap dim sizes inputRef outputRef others input output) :
    (keptDims (reduction.reduced input.rank.toNat)).zipIdx.mapM (identicalGroup
      ((List.range output.rank.toNat).filter fun other =>
        !(reduction.keeps && isContractionDim input.rank (reduction.dims input.rank) other))) =
      .ok ((keptDims (reduction.reduced input.rank.toNat)).map fun kept =>
        identicalPair kept (reduction.place input.rank.toNat kept)) := by
  have firsts : (keptDims (reduction.reduced input.rank.toNat)).map (fun kept =>
      identicalPair kept (reduction.place input.rank.toNat kept)) =
      (keptDims (reduction.reduced input.rank.toNat)).zipIdx.map fun entry =>
        identicalPair entry.1 (reduction.place input.rank.toNat entry.1) := by
    rw [← Function.comp_def (fun kept => identicalPair kept (reduction.place input.rank.toNat kept)) Prod.fst,
      ← List.map_map, List.zipIdx_map_fst]
  rw [firsts, mapM_eq_ok, List.forall₂_map_right_iff, List.forall₂_same]
  rintro ⟨kept, place⟩ mem
  have atPlace := List.mem_zipIdx_iff_getElem?.1 mem
  unfold identicalGroup
  refine bind_ok.2 ⟨reduction.place input.rank.toNat kept, readAt_eq_ok.2 ?_, rfl⟩
  rw [site.identicalOutputDims, List.getElem?_map, atPlace]
  rfl

section

variable (split : SizeSplit input dim sizes)

include split

theorem SizeSplit.contractionSplitDims {indices : List Int}
    (inRange : ∀ index ∈ indices, -input.rank ≤ index ∧ index < input.rank) :
    ∃ splitDims, Hsp.contractionSplitDims input indices = .ok splitDims ∧ (∀ other ∈ splitDims, other = dim) ∧
      (splitDims = [] ↔ isContractionDim input.rank indices dim = false) := by
  have positive : 0 < input.rank := by
    have := split.rank_eq
    have := split.lt_rank
    omega
  induction indices with
  | nil => exact ⟨[], rfl, by simp, by simp [isContractionDim]⟩
  | cons index indices ih =>
    obtain ⟨splitDims, returned, areDim, isNil⟩ := ih fun other mem =>
      inRange other (List.mem_cons_of_mem _ mem)
    obtain ⟨low, high⟩ := inRange index List.mem_cons_self
    have normalized := tmod_add low high
    generalize isDim : (index + input.rank).tmod input.rank = normal at normalized
    have inside : 0 ≤ normal ∧ normal < input.rank := by
      split at normalized <;> omega
    have isDimOf : contractionDimOf input.rank index = .ok normal.toNat := by
      unfold contractionDimOf
      rw [if_neg (by omega), isDim, if_neg (by omega)]
    have reducesDim : isContractionDim input.rank (index :: indices) dim =
        (decide ((dim : Int) = normal) || isContractionDim input.rank indices dim) := by
      unfold isContractionDim
      rw [List.any_cons, isDim]
      rfl
    unfold Hsp.contractionSplitDims
    by_cases same : normal.toNat = dim
    · obtain ⟨stageOffsets, atDim⟩ := split.atDim
      refine ⟨dim :: splitDims, ?_, ?_, ?_⟩
      · refine bind_ok.2 ⟨dim, same ▸ isDimOf, bind_ok.2 ⟨_, readAt_eq_ok.2 atDim, ?_⟩⟩
        exact bind_ok.2 ⟨splitDims, returned, rfl⟩
      · intro other mem
        rcases List.mem_cons.1 mem with isFirst | later
        · exact isFirst
        · exact areDim other later
      · rw [reducesDim, decide_eq_true (by omega)]
        simp
    · refine ⟨splitDims, ?_, areDim, ?_⟩
      · refine bind_ok.2 ⟨normal.toNat, isDimOf,
          bind_ok.2 ⟨_, readAt_eq_ok.2 (split.spec_of_ne (by omega) same), ?_⟩⟩
        exact bind_ok.2 ⟨splitDims, returned, rfl⟩
      · rw [isNil, reducesDim, decide_eq_false (by omega), Bool.false_or]

theorem SizeSplit.hasDevices : input.deviceIds ≠ [] := by
  intro noDevices
  have noCounts : input.lowered.getNumLogicalShardsPerdevice = [] := by
    rw [← List.length_eq_zero_iff, split.perDevice, noDevices]
    rfl
  have counted : input.lowered.getNumLogicalShardsPerdevice.sum = sizes.length := split.counted
  rw [noCounts] at counted
  exact split.nonempty (List.length_eq_zero_iff.1 counted.symm)

theorem SizeSplit.specs {spec : SplitSpec} (mem : spec ∈ input.splitSpecs) :
    spec = .buildSingleSplit ∨ ∃ stageOffsets, spec = .buildFromSizes sizes stageOffsets := by
  obtain ⟨other, atOther⟩ := List.mem_iff_getElem?.1 mem
  by_cases same : other = dim
  · obtain ⟨stageOffsets, atDim⟩ := split.atDim
    rw [same, atDim] at atOther
    exact .inr ⟨stageOffsets, (Option.some.inj atOther).symm⟩
  · exact .inl (split.single other spec atOther same)

theorem SizeSplit.isInitialized : input.isInitialized = true := by
  unfold ShardingProperty.isInitialized XpuAutoShard.ShardingProperty.isInitialized
  rw [Bool.and_eq_true, Bool.or_eq_true]
  constructor
  · rw [Bool.not_eq_true', List.isEmpty_eq_false_iff]
    exact split.hasDevices
  · right
    rw [List.all_eq_true]
    intro spec mem
    obtain ⟨found, isFound, isLowered⟩ := List.mem_map.1 mem
    rw [← isLowered]
    rcases split.specs isFound with isSingle | ⟨stageOffsets, isSize⟩
    · rw [isSingle]
      rfl
    · rw [isSize]
      rfl

theorem SizeSplit.isSplitSingleOnly_iff : input.isSplitSingleOnly = true ↔ sizes.length = 1 := by
  have initialized : input.lowered.isInitialized = true := split.isInitialized
  obtain ⟨stageOffsets, atDim⟩ := split.atDim
  have ranked : input.lowered.isRanked = true := (isRanked_of_spec atDim).1
  unfold ShardingProperty.isSplitSingleOnly XpuAutoShard.ShardingProperty.isSplitSingleOnly
  rw [initialized, ranked, Bool.true_and, Bool.not_true, Bool.false_or, List.all_eq_true]
  constructor
  · intro all
    have isOne := all _ (List.mem_map_of_mem (List.mem_of_getElem? atDim))
    rw [Bool.and_eq_true, beq_iff_eq] at isOne
    exact isOne.2
  · intro isOne spec mem
    obtain ⟨found, isFound, isLowered⟩ := List.mem_map.1 mem
    rw [← isLowered]
    rcases split.specs isFound with isSingle | ⟨offsets, isSize⟩
    · rw [isSingle]
      rfl
    · rw [isSize, Bool.and_eq_true, beq_iff_eq]
      exact ⟨rfl, isOne⟩

end

def contractingGroup (type : ContractionType) (splitDims : List Nat) : DimGroup :=
  { items := splitDims.map (⟨true, 0, ·⟩), contractionType := type }

theorem Site.groups (site : Site reduction props heap dim sizes inputRef outputRef others input output)
    {current : ShardingProperty} (sameRank : current.rank = output.rank) (type : ContractionType) :
    ∃ contracting, contractionGroups input current (reduction.dims input.rank) type reduction.keeps =
        .ok ((keptDims (reduction.reduced input.rank.toNat)).map
          (fun kept => identicalPair kept (reduction.place input.rank.toNat kept)) ++ contracting) ∧
      if (reduction.reduced input.rank.toNat)[dim]? = some true then
        ∃ dims, contracting = [contractingGroup type (dim :: dims)]
      else contracting = [] := by
  obtain ⟨splitDims, returned, areDim, isNil⟩ := site.split.contractionSplitDims site.inRange
  have flag : (reduction.reduced input.rank.toNat)[dim]? =
      some (isContractionDim input.rank (reduction.dims input.rank) dim) := by
    rw [site.reduced_eq, List.getElem?_map, List.getElem?_range site.split.lt_rank]
    rfl
  have identical := site.identicalGroups
  rw [site.keptDims_eq, ← sameRank] at identical
  unfold contractionGroups
  rw [site.keptDims_eq, flag]
  cases splitDims with
  | nil =>
    have notReduced := isNil.1 rfl
    refine ⟨[], bind_ok.2 ⟨_, identical, ?_⟩, by rw [notReduced, if_neg (by simp)]⟩
    rw [site.split.isInitialized, if_pos rfl, List.append_nil]
    exact bind_ok.2 ⟨[], returned, rfl⟩
  | cons first splitDims =>
    have isReduced : isContractionDim input.rank (reduction.dims input.rank) dim = true := by
      by_contra notReduced
      rw [Bool.not_eq_true] at notReduced
      cases isNil.2 notReduced
    refine ⟨[contractingGroup type (first :: splitDims)], bind_ok.2 ⟨_, identical, ?_⟩, ?_⟩
    · rw [site.split.isInitialized, if_pos rfl]
      exact bind_ok.2 ⟨first :: splitDims, returned, rfl⟩
    · rw [isReduced, if_pos rfl, areDim first List.mem_cons_self]
      exact ⟨splitDims, rfl⟩

end Groups

theorem splitSingleAt_of_loose {dim : Nat} (loose : Loose prop dim) (hasDevices : prop.deviceIds ≠ []) :
    ∃ changed, prop.splitSingleAt dim = .ok (changed, prop.placeAt dim .buildSingleSplit) ∧
      (prop.splitSpecs[dim]? = some {} → changed = true) := by
  obtain ⟨spec, atDim, isUnset | isSingle⟩ := loose
  · rw [isUnset] at atDim
    refine ⟨true, ?_, fun _ => rfl⟩
    unfold splitSingleAt
    rw [splitAt_of_unset atDim rfl hasDevices (by decide), rescaled_single]
  · rw [isSingle] at atDim
    refine ⟨false, ?_, ?_⟩
    · rw [placeAt_self atDim]
      exact splitAt_of_set atDim rfl _
    · rw [atDim]
      intro isUnset
      cases isUnset

theorem splitSingleSteps_of_loose {dims : List Nat} (loose : ∀ dim ∈ dims, Loose prop dim)
    (hasDevices : prop.deviceIds ≠ []) (changed : Bool) :
    ∃ changed', dims.foldlM splitSingleStep (changed, prop) = .ok (changed', prop.singles dims) ∧
      (changed = true → changed' = true) ∧ (∀ dim ∈ dims.head?, prop.splitSpecs[dim]? = some {} → changed' = true) := by
  induction dims generalizing prop changed with
  | nil => exact ⟨changed, rfl, id, by simp⟩
  | cons dim dims ih =>
    obtain ⟨first, splits, isFirst⟩ := splitSingleAt_of_loose (loose dim List.mem_cons_self) hasDevices
    obtain ⟨changed', ran, kept, _⟩ := @ih (prop.placeAt dim .buildSingleSplit)
      (fun other mem => (loose other (List.mem_cons_of_mem _ mem)).placeAt) hasDevices (changed || first)
    refine ⟨changed', ?_, ?_, ?_⟩
    · rw [List.foldlM_cons, bind_ok]
      exact ⟨_, bind_ok.2 ⟨_, splits, rfl⟩, ran⟩
    · intro before
      exact kept (by rw [before, Bool.true_or])
    · intro other isHead unset
      cases isHead
      exact kept (by rw [isFirst unset, Bool.or_true])

theorem Fresh.spec (fresh : Fresh prop) {dim : Nat} (inside : dim < prop.rank.toNat) :
    prop.splitSpecs[dim]? = some {} := by
  rw [← prop.specsMatchRank] at inside
  have atDim := List.getElem?_eq_getElem inside
  rw [fresh.unset dim _ atDim] at atDim
  exact atDim

theorem Fresh.loose (fresh : Fresh prop) {dim : Nat} (inside : dim < prop.rank.toNat) :
    Loose prop dim := ⟨{}, fresh.spec inside, .inl rfl⟩

theorem splitOutputSingleOnly_of_fresh {heap : Heap} {output : ShardingProperty}
    (atOutput : heap[ref]? = some output) (fresh : Fresh output) (hasDevices : output.deviceIds ≠ []) :
    ∃ changed, splitOutputSingleOnly (false, heap) ref =
      .ok (changed, heap.set ref (output.singles (List.range output.rank.toNat))) := by
  unfold splitOutputSingleOnly
  cases isRank : output.rank.toNat with
  | zero =>
    have noSpecs : output.splitSpecs = [] := List.length_eq_zero_iff.1 (output.specsMatchRank.trans isRank)
    have initialized : output.isInitialized = true := by
      unfold ShardingProperty.isInitialized XpuAutoShard.ShardingProperty.isInitialized
      rw [Bool.and_eq_true, Bool.or_eq_true]
      constructor
      · rw [Bool.not_eq_true', List.isEmpty_eq_false_iff]
        exact hasDevices
      · right
        change (output.splitSpecs.map SplitSpec.lowered).all _ = true
        rw [noSpecs]
        rfl
    refine ⟨false, bind_ok.2 ⟨output, readAt_eq_ok.2 atOutput, ?_⟩⟩
    rw [initialized, if_pos rfl]
    change _ = Except.ok (false, heap.set ref output)
    rw [set_self_of_getElem? atOutput]
    rfl
  | succ count =>
    have unset : output.splitSpecs[0]? = some ({} : SplitSpec) := fresh.spec (by omega)
    have notInitialized : output.isInitialized = false := by
      by_contra initialized
      rw [Bool.not_eq_false] at initialized
      have all := (Bool.and_eq_true_iff.1 initialized).2
      change (!output.isRanked || _) = true at all
      rw [(isRanked_of_spec unset).1, Bool.not_true, Bool.false_or, List.all_eq_true] at all
      cases all _ (List.mem_map_of_mem (List.mem_of_getElem? unset))
    have loose : ∀ dim ∈ List.range output.rank.toNat, Loose output dim := fun dim mem =>
      fresh.loose (List.mem_range.1 mem)
    obtain ⟨changed, ran, _, isChanged⟩ := splitSingleSteps_of_loose loose hasDevices false
    have isTrue : changed = true := by
      apply isChanged 0 _ unset
      rw [isRank, List.range_succ_eq_map]
      rfl
    have single : output.splitSingleOnly [] = .ok (true, output.singles (List.range output.rank.toNat)) := by
      unfold splitSingleOnly
      refine bind_ok.2 ⟨_, ran, ?_⟩
      dsimp only
      rw [if_neg (by simp), isTrue]
      rfl
    refine ⟨true, bind_ok.2 ⟨output, readAt_eq_ok.2 atOutput, ?_⟩⟩
    rw [notInitialized, if_neg Bool.false_ne_true, ← isRank]
    exact bind_ok.2 ⟨_, single, bind_ok.2 ⟨(), rfl, rfl⟩⟩

end Itex.XpuAutoShard.Hsp
