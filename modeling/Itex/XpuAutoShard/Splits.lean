import Itex.XpuAutoShard.Alignment

/-!
Contract: what the setters and the rules do to a property whose splits are known.

Owns: setting a dim that is unset, setting dims to single splits one after the other, and
one identical pair of dims.
-/

namespace Itex.XpuAutoShard.Hsp

open Itex.Lib

namespace ShardingProperty

variable {prop : ShardingProperty} {dim : Nat} {spec : SplitSpec}

theorem isRanked_of_spec (atDim : prop.splitSpecs[dim]? = some spec) :
    prop.isRanked = true ∧ prop.isScalar = false := by
  have bound := read_lt atDim
  rw [prop.specsMatchRank] at bound
  constructor
  · change decide (0 ≤ prop.rank) = true
    rw [decide_eq_true_eq]
    omega
  · unfold isScalar
    rw [Bool.and_eq_false_iff, beq_eq_false_iff_ne]
    right
    omega

theorem isSplitAt_of_spec (atDim : prop.splitSpecs[dim]? = some spec) :
    prop.isSplitAt dim = .ok spec.isInitialized := by
  obtain ⟨ranked, notScalar⟩ := isRanked_of_spec atDim
  unfold isSplitAt
  rw [ranked, notScalar, readAt_eq_ok.2 atDim]
  rfl

theorem splitAt_of_set (atDim : prop.splitSpecs[dim]? = some spec) (isSet : spec.isInitialized = true)
    (other : SplitSpec) : prop.splitAt dim other = .ok (false, prop) := by
  unfold splitAt
  rw [isSplitAt_of_spec atDim, isSet]
  simp [bind, Except.bind, pure, Except.pure]

theorem isSplitSingleOnly_of_onePiece {prop : ShardingProperty} (hasDevices : prop.deviceIds ≠ [])
    (onePiece : ∀ spec ∈ prop.splitSpecs, spec.isInitialized = true ∧ spec.size = 1) : prop.isSplitSingleOnly = true := by
  have assigned : prop.lowered.deviceIds.isEmpty = false := by
    rw [List.isEmpty_eq_false_iff]
    exact hasDevices
  unfold isSplitSingleOnly XpuAutoShard.ShardingProperty.isSplitSingleOnly XpuAutoShard.ShardingProperty.isInitialized
  rw [assigned, Bool.not_false, Bool.true_and, Bool.and_eq_true, Bool.or_eq_true, Bool.or_eq_true]
  constructor
  · right
    rw [List.all_eq_true]
    intro lowered mem
    obtain ⟨spec, isSpec, isLowered⟩ := List.mem_map.1 mem
    rw [← isLowered]
    exact (onePiece spec isSpec).1
  · right
    rw [List.all_eq_true]
    intro lowered mem
    obtain ⟨spec, isSpec, isLowered⟩ := List.mem_map.1 mem
    rw [← isLowered, Bool.and_eq_true, beq_iff_eq]
    exact onePiece spec isSpec

theorem splitAt_of_unset {old : SplitSpec} (atDim : prop.splitSpecs[dim]? = some old)
    (unset : old.isInitialized = false) (hasDevices : prop.deviceIds ≠ []) (onePiece : spec.size ≤ 1) :
    prop.splitAt dim spec = .ok (true, prop.placeAt dim (prop.rescaled dim spec)) := by
  have assigned : prop.isDevicesAssigned = true := by
    unfold isDevicesAssigned
    rw [Bool.not_eq_true', List.isEmpty_eq_false_iff]
    exact hasDevices
  unfold splitAt
  rw [isSplitAt_of_spec atDim, unset, (isRanked_of_spec atDim).1, assigned, readAt_eq_ok.2 atDim]
  simp [bind, Except.bind, pure, Except.pure, onePiece]

theorem placeAt_self (atDim : prop.splitSpecs[dim]? = some spec) : prop.placeAt dim spec = prop := by
  unfold placeAt
  obtain ⟨bound, isSpec⟩ := List.getElem?_eq_some_iff.1 atDim
  have same : prop.splitSpecs.set dim spec = prop.splitSpecs := by
    rw [← isSpec]
    exact List.set_getElem_self bound
  simp only [same]

def singles (prop : ShardingProperty) (dims : List Nat) : ShardingProperty :=
  dims.foldl (fun prop dim => prop.placeAt dim .buildSingleSplit) prop

theorem singles_append (prop : ShardingProperty) (dims others : List Nat) :
    prop.singles (dims ++ others) = (prop.singles dims).singles others := List.foldl_append

theorem singles_eq (prop : ShardingProperty) (dims : List Nat) : prop.singles dims = { prop with
        splitSpecs := dims.foldl (fun specs dim => specs.set dim .buildSingleSplit) prop.splitSpecs
        specsMatchRank := by
          rw [← prop.specsMatchRank]
          generalize prop.splitSpecs = specs
          induction dims generalizing specs with
          | nil => rfl
          | cons dim dims ih => rw [List.foldl_cons, ih, List.length_set] } := by
  unfold singles
  induction dims generalizing prop with
  | nil => rfl
  | cons dim dims ih =>
    rw [List.foldl_cons, ih]
    rfl

theorem getElem?_singles (prop : ShardingProperty) (dims : List Nat) (dim : Nat) :
    (prop.singles dims).splitSpecs[dim]? =
      if dim ∈ dims then prop.splitSpecs[dim]?.map fun _ => .buildSingleSplit else prop.splitSpecs[dim]? := by
  unfold singles
  induction dims generalizing prop with
  | nil => simp
  | cons first dims ih =>
    rw [List.foldl_cons, ih]
    change (if dim ∈ dims then (prop.splitSpecs.set first _)[dim]?.map _ else (prop.splitSpecs.set first _)[dim]?) = _
    by_cases isFirst : first = dim
    · grind
    · grind

/-! ## Stages -/

theorem getStageOffsets_of_only (atDim : prop.splitSpecs[dim]? = some spec) (several : 1 < spec.size)
    (only : ∀ other found, prop.splitSpecs[other]? = some found → other ≠ dim → found.stageOffsets = []) :
    prop.getStageOffsets = spec.stageOffsets := by
  have notSingle : prop.lowered.isSplitSingleOnly = false := by
    by_contra single
    rw [Bool.not_eq_false] at single
    have all := (Bool.and_eq_true_iff.1 single).2
    change (!prop.isRanked || _) = true at all
    rw [(isRanked_of_spec atDim).1, Bool.not_true, Bool.false_or, List.all_eq_true] at all
    have isOne := (Bool.and_eq_true_iff.1 (all _ (List.mem_map_of_mem (List.mem_of_getElem? atDim)))).2
    rw [beq_iff_eq] at isOne
    change spec.size = 1 at isOne
    omega
  unfold getStageOffsets XpuAutoShard.ShardingProperty.getStageOffsets
  rw [notSingle, if_neg Bool.false_ne_true]
  cases found : prop.lowered.splitSpecs.find? (fun spec => spec.isInitialized && !spec.stageOffsets.isEmpty) with
  | none =>
    have unstaged := List.find?_eq_none.1 found _ (List.mem_map_of_mem (List.mem_of_getElem? atDim))
    rw [Bool.and_eq_true, not_and] at unstaged
    have isEmpty := unstaged (isInitialized_of_multi several)
    have noStages : spec.stageOffsets = [] := by simpa [SplitSpec.lowered] using isEmpty
    rw [noStages]
  | some staged =>
    have holds := List.find?_some found
    have isStaged := (Bool.and_eq_true_iff.1 holds).2
    obtain ⟨found, isFound, isLowered⟩ := List.mem_map.1 (List.mem_of_find?_eq_some found)
    obtain ⟨other, atOther⟩ := List.mem_iff_getElem?.1 isFound
    by_cases same : other = dim
    · rw [same, atDim] at atOther
      cases atOther
      rw [← isLowered]
      rfl
    · rw [← isLowered] at isStaged
      change (!found.stageOffsets.isEmpty) = true at isStaged
      rw [only other found atOther same] at isStaged
      cases isStaged

section

variable {other : ShardingProperty} (sameDevices : prop.deviceIds = other.deviceIds)
  (sameStages : prop.getStageOffsets = other.getStageOffsets)

include sameDevices sameStages

theorem getNumLogicalShardsPerdevice_congr :
    prop.lowered.getNumLogicalShardsPerdevice = other.lowered.getNumLogicalShardsPerdevice := by
  have stages : prop.lowered.getStageOffsets = other.lowered.getStageOffsets := sameStages
  have devices : prop.lowered.deviceIds = other.lowered.deviceIds := sameDevices
  unfold XpuAutoShard.ShardingProperty.getNumLogicalShardsPerdevice
  rw [stages, devices]

theorem getNumLogicalShards_congr : prop.getNumLogicalShards = other.getNumLogicalShards :=
  congrArg List.sum (getNumLogicalShardsPerdevice_congr sameDevices sameStages)

end

def splitAlong (prop : ShardingProperty) (dim : Nat) (spec : SplitSpec) : ShardingProperty :=
  ({ prop.placeAt dim (prop.rescaled dim spec) with
      orderedSplitDims := prop.orderedSplitDims ++ [dim] } : ShardingProperty).singleElsewhere dim

theorem rescaled_stageOffsets (prop : ShardingProperty) (dim : Nat) (spec : SplitSpec) :
    (prop.rescaled dim spec).stageOffsets = spec.stageOffsets := by
  unfold rescaled
  split
  · rfl
  · split
    · rfl
    · rfl

theorem splitAt_of_several {old : SplitSpec} {shards : Nat} (atDim : prop.splitSpecs[dim]? = some old)
    (unset : old.isInitialized = false) (hasDevices : prop.deviceIds ≠ []) (several : 1 < spec.size)
    (unstaged : ∀ other found, prop.splitSpecs[other]? = some found → other ≠ dim → found.stageOffsets = [])
    (counted : ∀ other : ShardingProperty, other.deviceIds = prop.deviceIds →
      other.getStageOffsets = spec.stageOffsets → other.getNumLogicalShards = shards) (complete : shards ≤ spec.size) :
    prop.splitAt dim spec = .ok (true, prop.splitAlong dim spec) := by
  have bound := read_lt atDim
  have assigned : prop.isDevicesAssigned = true := by
    unfold isDevicesAssigned
    rw [Bool.not_eq_true', List.isEmpty_eq_false_iff]
    exact hasDevices
  generalize isOrdered : ({ prop.placeAt dim (prop.rescaled dim spec) with
      orderedSplitDims := prop.orderedSplitDims ++ [dim] } : ShardingProperty) = ordered
  have atOrdered : ordered.splitSpecs[dim]? = some (prop.rescaled dim spec) := by
    rw [← isOrdered]
    exact List.getElem?_set_self bound
  have isSet : (prop.rescaled dim spec).isInitialized = true := rescaled_isInitialized (isInitialized_of_multi several)
  have stages : ordered.getStageOffsets = spec.stageOffsets := by
    rw [getStageOffsets_of_only atOrdered (by rwa [rescaled_size]), rescaled_stageOffsets]
    intro other found atOther ne
    rw [← isOrdered] at atOther
    change (prop.splitSpecs.set dim _)[other]? = _ at atOther
    rw [List.getElem?_set_ne ne.symm] at atOther
    exact unstaged other found atOther ne
  have isComplete : ordered.isCompleteSplitAt dim = .ok true := by
    unfold isCompleteSplitAt
    refine bind_ok.2 ⟨true, by rw [isSplitAt_of_spec atOrdered, isSet], ?_⟩
    refine bind_ok.2 ⟨_, readAt_eq_ok.2 atOrdered, ?_⟩
    have sameDevices : ordered.deviceIds = prop.deviceIds := by
      rw [← isOrdered]
      rfl
    rw [counted ordered sameDevices stages, rescaled_size, decide_eq_true complete]
    rfl
  unfold splitAt
  refine bind_ok.2 ⟨false, by rw [isSplitAt_of_spec atDim, unset], ?_⟩
  rw [(isRanked_of_spec atDim).1, assigned, if_neg (by simp)]
  refine bind_ok.2 ⟨old, readAt_eq_ok.2 atDim, ?_⟩
  dsimp only
  rw [if_neg (by omega)]
  refine bind_ok.2 ⟨true, ?_, ?_⟩
  · exact isOrdered ▸ isComplete
  · rfl

theorem rescaled_single (prop : ShardingProperty) (dim : Nat) :
    prop.rescaled dim .buildSingleSplit = .buildSingleSplit := by
  apply rescaled_eq_self
  decide

end ShardingProperty

/-! ## Rules on one property -/

open Itex.XpuAutoShard.Hsp.ShardingProperty

theorem set_self_of_getElem? {α : Type} {l : List α} {k : Nat} {a : α} (atK : l[k]? = some a) : l.set k a = l := by
  obtain ⟨bound, isA⟩ := List.getElem?_eq_some_iff.1 atK
  rw [← isA]
  exact List.set_getElem_self bound

section Rules

variable {heap : Heap} {ref dim : Nat} {prop : ShardingProperty} {old : SplitSpec}

theorem trySplitSingleOnly_eq (atRef : heap[ref]? = some prop) (atDim : prop.splitSpecs[dim]? = some old)
    (isOld : old = {} ∨ old = .buildSingleSplit) (hasDevices : prop.deviceIds ≠ []) :
    ∃ changed, trySplitSingleOnly ref (some dim) heap =
      .ok (changed, heap.set ref (prop.placeAt dim .buildSingleSplit)) := by
  unfold trySplitSingleOnly onProp
  rw [readAt_eq_ok.2 atRef]
  rcases isOld with isUnset | isSingle
  · rw [isUnset] at atDim
    have notInitialized : prop.isInitialized = false := by
      by_contra initialized
      rw [Bool.not_eq_false] at initialized
      have all := (Bool.and_eq_true_iff.1 initialized).2
      change (!prop.isRanked || _) = true at all
      rw [(isRanked_of_spec atDim).1, Bool.not_true, Bool.false_or, List.all_eq_true] at all
      have isSet := all _ (List.mem_map_of_mem (List.mem_of_getElem? atDim))
      cases isSet
    have single : prop.splitSingleAt dim = .ok (true, prop.placeAt dim .buildSingleSplit) := by
      unfold splitSingleAt
      rw [splitAt_of_unset atDim rfl hasDevices (by decide), rescaled_single]
    refine ⟨true, ?_⟩
    simp [bind, Except.bind, pure, Except.pure, notInitialized, isSplitAt_of_spec atDim, single, itexCheck,
      SplitSpec.isInitialized, SplitSpec.lowered, XpuAutoShard.SplitSpec.isInitialized]
  · rw [isSingle] at atDim
    have isSplit : prop.isSplitAt dim = .ok true := isSplitAt_of_spec atDim
    refine ⟨false, ?_⟩
    rw [placeAt_self atDim]
    by_cases initialized : prop.isInitialized = true
    · simp [bind, Except.bind, pure, Except.pure, initialized]
    · simp [bind, Except.bind, pure, Except.pure, initialized, isSplit]

variable {props : OpProps} {input : ShardingProperty} {inputRef inputDim : Nat} {spec : SplitSpec}

/-- The pair of a dim of the first operand and one of the first result. -/
def identicalPair (inputDim outputDim : Nat) : DimGroup :=
  { items := [⟨true, 0, inputDim⟩, ⟨false, 0, outputDim⟩] }

theorem scanIdenticalItem_of_set {scan : IdenticalScan} {item : DimItem} (isRef : props.refOf item = .ok ref)
    (atRef : heap[ref]? = some prop) (atDim : prop.splitSpecs[item.dim]? = some spec)
    (isSet : spec.isInitialized = true) (compatible : ∀ found, scan.splitSpec = some found →
      found.type = .single ∨ spec.type = .single) :
    scanIdenticalItem props heap scan item = .ok ⟨some (scan.take spec), scan.numInitialized + 1⟩ := by
  unfold scanIdenticalItem
  refine bind_ok.2 ⟨ref, isRef, bind_ok.2 ⟨prop, readAt_eq_ok.2 atRef, bind_ok.2 ⟨true, ?_, ?_⟩⟩⟩
  · rw [isSplitAt_of_spec atDim, isSet]
  refine bind_ok.2 ⟨spec, readAt_eq_ok.2 atDim, ?_⟩
  unfold IdenticalScan.take
  cases found : scan.splitSpec with
  | none => rfl
  | some splitSpec =>
    rcases compatible splitSpec found with single | single
    · by_cases isSingle : spec.type = .single
      · simp [single, isSingle, pure, Except.pure]
      · simp [single, isSingle, pure, Except.pure]
    · by_cases isSingle : splitSpec.type = .single
      · simp [single, isSingle, pure, Except.pure]
      · simp [single, isSingle, pure, Except.pure]

theorem scanIdenticalItem_of_sizes {scan : IdenticalScan} {item : DimItem} {found : SplitSpec}
    (isRef : props.refOf item = .ok ref) (atRef : heap[ref]? = some prop)
    (atDim : prop.splitSpecs[item.dim]? = some spec) (isScan : scan.splitSpec = some found)
    (isSize : found.type = .size) (isSize' : spec.type = .size) :
    scanIdenticalItem props heap scan item = (do
      let equivalent ← isEquivalent found spec
      if equivalent then return { scan with numInitialized := scan.numInitialized + 1 }
      else .error .splitSpecMismatch) := by
  have isSet : spec.isInitialized = true := by
    unfold SplitSpec.isInitialized XpuAutoShard.SplitSpec.isInitialized
    rw [show spec.lowered.type = .size from isSize']
    rfl
  unfold scanIdenticalItem
  rw [isRef]
  change (readAt heap ref >>= fun _ => _) = _
  rw [readAt_eq_ok.2 atRef]
  change (prop.isSplitAt item.dim >>= fun _ => _) = _
  rw [isSplitAt_of_spec atDim, isSet]
  change (prop.getSplitSpec item.dim >>= fun _ => _) = _
  rw [show prop.getSplitSpec item.dim = .ok spec from readAt_eq_ok.2 atDim]
  simp only [isScan]
  change (if found.type = .single then _ else _) = _
  rw [if_neg (by simp [isSize]), if_neg (by simp [isSize'])]

theorem scanIdenticalItem_of_unset {scan : IdenticalScan} {item : DimItem} (isRef : props.refOf item = .ok ref)
    (atRef : heap[ref]? = some prop) (atDim : prop.splitSpecs[item.dim]? = some old)
    (unset : old.isInitialized = false) : scanIdenticalItem props heap scan item = .ok scan := by
  unfold scanIdenticalItem
  refine bind_ok.2 ⟨ref, isRef, bind_ok.2 ⟨prop, readAt_eq_ok.2 atRef, bind_ok.2 ⟨false, ?_, rfl⟩⟩⟩
  rw [isSplitAt_of_spec atDim, unset]

theorem alignIdenticalItem_of_set {state : Bool × Heap} {item : DimItem} (isRef : props.refOf item = .ok ref)
    (atRef : state.2[ref]? = some prop) (atDim : prop.splitSpecs[item.dim]? = some old)
    (isSet : old.isInitialized = true) : alignIdenticalItem props spec state item = .ok state := by
  unfold alignIdenticalItem
  refine bind_ok.2 ⟨ref, isRef, bind_ok.2 ⟨prop, readAt_eq_ok.2 atRef, bind_ok.2 ⟨true, ?_, rfl⟩⟩⟩
  rw [isSplitAt_of_spec atDim, isSet]

theorem alignIdenticalItem_of_unset {state : Bool × Heap} {item : DimItem} {set : ShardingProperty}
    (isRef : props.refOf item = .ok ref) (atRef : state.2[ref]? = some prop)
    (atDim : prop.splitSpecs[item.dim]? = some old) (unset : old.isInitialized = false)
    (splits : prop.splitAt item.dim spec = .ok (true, set)) :
    alignIdenticalItem props spec state item = .ok (true, state.2.set ref set) := by
  unfold alignIdenticalItem
  refine bind_ok.2 ⟨ref, isRef, bind_ok.2 ⟨prop, readAt_eq_ok.2 atRef, bind_ok.2 ⟨false, ?_, ?_⟩⟩⟩
  · rw [isSplitAt_of_spec atDim, unset]
  exact bind_ok.2 ⟨(true, set), splits, rfl⟩

section Pair

variable (isInput : readAt props.inputs 0 = .ok inputRef) (isOutput : readAt props.outputs 0 = .ok ref)
  (atInput : heap[inputRef]? = some input) (atOutput : heap[ref]? = some prop)
  (atInputDim : input.splitSpecs[inputDim]? = some spec) (isSet : spec.isInitialized = true)
  (atOutputDim : prop.splitSpecs[dim]? = some old)

include isInput isOutput atInput atOutput atInputDim isSet atOutputDim

theorem identicalPair_of_unset {set : ShardingProperty} (unset : old.isInitialized = false)
    (splits : prop.splitAt dim spec = .ok (true, set)) :
    inferWithIdenticalDimGroup props (identicalPair inputDim dim) heap = .ok (true, heap.set ref set) := by
  unfold inferWithIdenticalDimGroup
  have scanned : (identicalPair inputDim dim).items.foldlM (scanIdenticalItem props heap) {} =
      .ok ⟨some spec, 1⟩ := by
    unfold identicalPair
    rw [List.foldlM_cons, bind_ok]
    refine ⟨⟨some spec, 1⟩, scanIdenticalItem_of_set isInput atInput atInputDim isSet (by simp), ?_⟩
    rw [List.foldlM_cons, bind_ok]
    exact ⟨_, scanIdenticalItem_of_unset isOutput atOutput atOutputDim unset, rfl⟩
  refine bind_ok.2 ⟨_, scanned, ?_⟩
  dsimp only
  rw [if_pos ⟨by simp [identicalPair], .inr rfl⟩]
  unfold identicalPair
  rw [List.foldlM_cons, bind_ok]
  refine ⟨(false, heap), alignIdenticalItem_of_set isInput atInput atInputDim isSet, ?_⟩
  rw [List.foldlM_cons, bind_ok]
  exact ⟨_, alignIdenticalItem_of_unset isOutput atOutput atOutputDim unset splits, rfl⟩

theorem identicalPair_of_set (isSet' : old.isInitialized = true)
    (compatible : spec.type = .single ∨ old.type = .single) :
    inferWithIdenticalDimGroup props (identicalPair inputDim dim) heap = .ok (false, heap) := by
  unfold inferWithIdenticalDimGroup
  have scanned : ∃ found, (identicalPair inputDim dim).items.foldlM (scanIdenticalItem props heap) {} =
      .ok ⟨some found, 2⟩ := by
    unfold identicalPair
    refine ⟨IdenticalScan.take ⟨some spec, 1⟩ old, ?_⟩
    rw [List.foldlM_cons, bind_ok]
    refine ⟨⟨some spec, 1⟩, scanIdenticalItem_of_set isInput atInput atInputDim isSet (by simp), ?_⟩
    rw [List.foldlM_cons, bind_ok]
    refine ⟨_, scanIdenticalItem_of_set isOutput atOutput atOutputDim isSet' ?_, rfl⟩
    intro found isFound
    cases isFound
    exact compatible
  obtain ⟨found, scanned⟩ := scanned
  refine bind_ok.2 ⟨_, scanned, ?_⟩
  dsimp only
  rw [if_neg (by simp [identicalPair])]
  rfl

theorem identicalPair_of_sizes (isSize : spec.type = .size) (isSize' : old.type = .size) :
    inferWithIdenticalDimGroup props (identicalPair inputDim dim) heap = (do
      let equivalent ← isEquivalent spec old
      if equivalent then return (false, heap) else .error .splitSpecMismatch) := by
  have scannedFirst := @scanIdenticalItem_of_set heap inputRef input props spec {} ⟨true, 0, inputDim⟩ isInput atInput
    atInputDim isSet (by simp)
  have scannedSecond := @scanIdenticalItem_of_sizes heap ref prop props old ⟨some spec, 1⟩ ⟨false, 0, dim⟩ spec isOutput
    atOutput atOutputDim rfl isSize isSize'
  have scanned : (identicalPair inputDim dim).items.foldlM (scanIdenticalItem props heap) {} = (do
      let equivalent ← isEquivalent spec old
      if equivalent then return ⟨some spec, 2⟩ else .error .splitSpecMismatch) := by
    unfold identicalPair
    rw [List.foldlM_cons, scannedFirst]
    change (scanIdenticalItem props heap ⟨some spec, 1⟩ _ >>= fun _ => _) = _
    rw [scannedSecond]
    cases isEquivalent spec old with
    | error failure => rfl
    | ok equivalent => cases equivalent <;> rfl
  unfold inferWithIdenticalDimGroup
  rw [scanned]
  cases isEquivalent spec old with
  | error failure => rfl
  | ok equivalent =>
    cases equivalent with
    | false => rfl
    | true =>
      refine bind_ok.2 ⟨⟨some spec, 2⟩, rfl, ?_⟩
      dsimp only
      rw [if_neg (by simp [identicalPair])]
      rfl

end Pair

end Rules

end Itex.XpuAutoShard.Hsp
