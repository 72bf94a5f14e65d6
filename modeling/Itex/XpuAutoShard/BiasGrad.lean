import Itex.XpuAutoShard.ReductionTotals

/-!
Contract: the inference of a bias gradient
(`common/hsp_inference/tfg_ops.cpp`,
`BiasAddGradInfer`).

Owns: its dim groups, calls of inference until nothing changes, and when the gradient is
reduced over the split dim.

The channels are the last dim. A bias gradient is the sum over all other dims. The operands
after the first are control edges.
-/

namespace Itex.XpuAutoShard.Hsp

open Itex.Lib
open Itex.XpuAutoShard.Hsp.ShardingProperty

variable {before heap' : Heap} {current result : ShardingProperty} {rank : Int} {spec : SplitSpec}

/-! ## Inference -/

def biasAddGradGroups (numInputs : Nat) (inputRank outputRank : Int) : List DimGroup :=
  if 1 ≤ inputRank ∧ outputRank = 1 then
    let channelDim := (inputRank - 1).toNat
    -- The loop over the other dims ends at the number of operands.
    let dimItems : List DimItem := ((List.range numInputs).filter (· ≠ channelDim)).map (⟨true, 0, ·⟩)
    { items := [⟨true, 0, channelDim⟩, ⟨false, 0, 0⟩] } :: if dimItems = [] then [] else [{ items := dimItems }]
  else []

def biasAddGradInfer (props : OpProps) (heap : Heap) : DoInfer :=
  match readFirst props heap with
  | .error failure => .fail failure
  | .ok (input, output, _) =>
    inferWithDimGroups props (.ok (biasAddGradGroups props.inputs.length input.rank output.rank)) heap

/-- `HspInference::infer` of a bias gradient. -/
def inferBiasAddGrad (props : OpProps) (heap : Heap) : Except Failure (Bool × Heap) :=
  infer (biasAddGradInfer props) props heap

/-- What the op computes: the sum over all dims but the last. -/
def biasAddGrad (rank : Int) : Reduction :=
  { op := .sum, contractionDims := (List.range (rank.toNat - 1)).map Int.ofNat }

/-- Calls of inference until nothing changes. -/
inductive Settles (step : Heap → Except Failure (Bool × Heap)) : Heap → Heap → Prop where
  | last {heap heap' : Heap} (unchanged : step heap = .ok (false, heap')) : Settles step heap heap'
  | again {heap middle heap' : Heap} (changed : step heap = .ok (true, middle))
      (rest : Settles step middle heap') : Settles step heap heap'

/-- Inference comes to an end. The result is then split like the operand, if the channels
are split, and is else all-reduced, and the shards have the gradient. -/
def ReducesBias (props : OpProps) (heap : Heap) (dim : Nat) (sizes : List Int) : Prop :=
  ∃ heap' input constants outputRef result, Settles (inferBiasAddGrad props) heap heap' ∧
    props.inputs.mapM (readAt heap') = .ok (input :: constants) ∧
    readAt props.outputs 0 = .ok outputRef ∧ readAt heap' outputRef = .ok result ∧
    (if dim + 1 = input.rank.toNat then result.splitSpecs[0]? = input.splitSpecs[dim]?
      else .allReduceSum ∈ result.postOps) ∧
    AllExact (biasAddGrad input.rank) dim sizes input result constants

def ChannelTotalFits (sizes : List Int) (output : ShardingProperty) : Prop :=
  sizes.sum.bmod (2 ^ 32) ≠ 0 ∧
    ∀ extent, output.shape[0]? = some extent → 0 < extent → sizes.sum < 2 ^ 31 ∨ sizes.sum.bmod (2 ^ 32) ≤ 0

theorem biasAddGradGroups_eq {numInputs : Nat} {inputRank outputRank : Int} (someInput : 0 < numInputs)
    (ranked : 2 ≤ inputRank) (isVector : outputRank = 1) : ∃ dims, biasAddGradGroups numInputs inputRank outputRank =
      [identicalPair (inputRank.toNat - 1) 0, contractingGroup .sum (0 :: dims)] := by
  have channelDim : (inputRank - 1).toNat = inputRank.toNat - 1 := by omega
  obtain ⟨count, isCount⟩ := Nat.exists_eq_succ_of_ne_zero (Nat.ne_of_gt someInput)
  have notFirst : decide (0 ≠ inputRank.toNat - 1) = true := by
    rw [decide_eq_true_iff]
    omega
  unfold biasAddGradGroups
  rw [if_pos ⟨by omega, isVector⟩, isCount, List.range_succ_eq_map]
  dsimp only
  rw [channelDim, List.filter_cons, if_pos notFirst, List.map_cons, if_neg (by simp)]
  exact ⟨_, rfl⟩

theorem biasAddGrad_reduced (dim : Nat) (inside : dim < rank.toNat) :
    ((biasAddGrad rank).reduced rank.toNat)[dim]? = some (decide (dim + 1 < rank.toNat)) := by
  have same : (rank.toNat : Int).toNat = rank.toNat := by omega
  unfold Reduction.reduced Reduction.dims biasAddGrad
  rw [List.getElem?_map, List.getElem?_range inside, Option.map_some, if_neg (by simp), List.any_map, Option.some.injEq,
    Bool.eq_iff_iff, List.any_eq_true, decide_eq_true_iff]
  constructor
  · grind
  · intro before
    refine ⟨dim, List.mem_range.2 (by omega), ?_⟩
    rw [Function.comp, beq_iff_eq, if_neg (by simp)]
    rfl

/-- The channels become the only dim. -/
theorem biasAddGrad_kept (ranked : 2 ≤ rank) :
    keptDims ((biasAddGrad rank).reduced rank.toNat) = [rank.toNat - 1] := by
  have isMap : (biasAddGrad rank).reduced rank.toNat = (List.range rank.toNat).map fun dim => decide (dim + 1 < rank.toNat) := by
    apply List.ext_getElem?
    intro dim
    by_cases inside : dim < rank.toNat
    · rw [biasAddGrad_reduced dim inside, List.getElem?_map, List.getElem?_range inside]
      rfl
    · rw [List.getElem?_eq_none, List.getElem?_eq_none]
      · rw [List.length_map, List.length_range]
        omega
      · rw [Reduction.length_reduced]
        omega
  obtain ⟨count, isCount⟩ : ∃ count, rank.toNat = count + 1 := ⟨rank.toNat - 1, by omega⟩
  rw [isMap, keptDims_map_range, isCount, List.range_succ, List.filter_append, List.filter_eq_nil_iff.2]
  · simp
  · intro dim mem
    rw [List.mem_range] at mem
    simp only [Bool.not_eq_true', decide_eq_false_iff_not, not_not]
    omega

theorem biasAddGrad_place (ranked : 2 ≤ rank) : (biasAddGrad rank).place rank.toNat (rank.toNat - 1) = 0 := by
  apply projectDim_none
  rw [biasAddGrad_kept ranked]
  rfl

section Site

variable {props : OpProps} {heap : Heap} {dim : Nat} {sizes : List Int} {inputRef outputRef : Nat} {others : List Nat}
  {input output : ShardingProperty}
  (site : Site (biasAddGrad input.rank) props heap dim sizes inputRef outputRef others input output)
  (ranked : 2 ≤ input.rank)

include site ranked

theorem Site.isVector : output.rank = 1 := by
  have counted := site.outputRank
  have keeps : (biasAddGrad input.rank).keeps = false := by
    unfold Reduction.keeps biasAddGrad
    rfl
  rw [keeps, if_neg (by simp), ← length_keptDims, biasAddGrad_kept ranked, List.length_singleton] at counted
  omega

theorem Site.biasAddGradInfer_run {middle after : Heap} {first second : Bool}
    (atInput : before[inputRef]? = some input) (atOutput : before[outputRef]? = some current) (sameRank : current.rank = 1)
    (ranPair : inferWithIdenticalDimGroup props (identicalPair (input.rank.toNat - 1) 0) before = .ok (first, middle))
    (ranContracting : ∀ dims, inferWithDimGroup props (contractingGroup .sum (0 :: dims)) middle = .ok (second, after)) :
    (biasAddGradInfer props before).run before = .ok (first || second, after) := by
  have someInput : 0 < props.inputs.length := by
    rw [site.inputs]
    exact Nat.succ_pos _
  obtain ⟨dims, isGroups⟩ := biasAddGradGroups_eq someInput ranked sameRank
  unfold biasAddGradInfer
  rw [site.readFirst_eq atInput atOutput]
  dsimp only
  rw [isGroups]
  have ranRest : (DoInfer.apply (.dimGroup props (contractingGroup .sum (0 :: dims))) true fun _ _ => .done).run middle =
      .ok (second, after) := by
    unfold DoInfer.run
    refine bind_ok.2 ⟨(second, after), ranContracting dims, bind_ok.2 ⟨(false, after), rfl, ?_⟩⟩
    dsimp only
    rw [Bool.true_and, Bool.or_false]
    rfl
  change (DoInfer.apply (.dimGroup props (identicalPair (input.rank.toNat - 1) 0)) true fun _ _ =>
    DoInfer.apply (.dimGroup props (contractingGroup .sum (0 :: dims))) true fun _ _ => .done).run before = _
  rw [DoInfer.run]
  refine bind_ok.2 ⟨(first, middle), ranPair, bind_ok.2 ⟨(second, after), ranRest, ?_⟩⟩
  rw [Bool.true_and]
  rfl

theorem Site.biasAddGradInfer_idle
    (atInput : before[inputRef]? = some input) (atOutput : before[outputRef]? = some current) (sameRank : current.rank = 1)
    (ranPair : inferWithIdenticalDimGroup props (identicalPair (input.rank.toNat - 1) 0) before = .ok (false, before))
    (ranContracting : ∀ dims, inferWithDimGroup props (contractingGroup .sum (0 :: dims)) before = .ok (false, before)) :
    (biasAddGradInfer props before).run before = .ok (false, before) :=
  site.biasAddGradInfer_run ranked atInput atOutput sameRank ranPair ranContracting

omit ranked in
theorem Site.contracting_idle (dims : List Nat)
    (atInput : before[inputRef]? = some input) (atOutput : before[outputRef]? = some current)
    (atFirst : input.splitSpecs[0]? = some spec) (isSet : spec.isInitialized = true)
    (idle : spec.type = .single ∨ current.postOps ≠ []) :
    inferWithDimGroup props (contractingGroup .sum (0 :: dims)) before = .ok (false, before) := by
  have isContracting : (contractingGroup .sum (0 :: dims)).type = .contracting := by
    unfold DimGroup.type contractingGroup
    simp
  have isInput := site.isInput
  unfold inferWithDimGroup
  rw [isContracting]
  dsimp only
  unfold inferWithContractingDimGroup
  refine bind_ok.2 ⟨⟨true, 0, 0⟩, rfl, bind_ok.2 ⟨inputRef, isInput,
    bind_ok.2 ⟨input, readAt_eq_ok.2 atInput, ?_⟩⟩⟩
  rw [site.split.isInitialized, if_neg (by simp)]
  refine bind_ok.2 ⟨true, (isSplitAt_of_spec atFirst).trans (congrArg Except.ok isSet), ?_⟩
  rw [if_neg (by simp)]
  refine bind_ok.2 ⟨spec, readAt_eq_ok.2 atFirst, ?_⟩
  by_cases isSingle : spec.type = .single
  · rw [if_pos isSingle]
    rfl
  · have hasPostOps : current.getNumPostOps ≠ 0 := by
      unfold getNumPostOps
      rw [Ne, List.length_eq_zero_iff]
      exact idle.resolve_left isSingle
    rw [if_neg isSingle]
    refine bind_ok.2 ⟨outputRef, site.isOutput, bind_ok.2 ⟨current, readAt_eq_ok.2 atOutput, ?_⟩⟩
    rw [if_pos hasPostOps]
    rfl

omit ranked in
/-- Where one call ends with stages that the next call keeps, inference settles there. -/
theorem Site.settles {inferred : ShardingProperty} {changed : Bool}
    (ran : (biasAddGradInfer props heap).run heap = .ok (changed, heap.set outputRef inferred))
    (follows : Follows input inferred)
    (again : ∀ heap', heap'[inputRef]? = some input → heap'[outputRef]? = some (inferred.restaged input.getStageOffsets) →
      (biasAddGradInfer props heap').run heap' = .ok (false, heap')) :
    ∃ heap', Settles (inferBiasAddGrad props) heap heap' ∧
      (∀ other, Settles (inferBiasAddGrad props) heap other → other = heap') ∧
      heap'[inputRef]? = some input ∧ heap'[outputRef]? = some (inferred.restaged input.getStageOffsets) ∧
      ∀ other ∈ others, ∃ prop, heap'[other]? = some prop ∧ prop.deviceIds = input.deviceIds ∧
        prop.getStageOffsets = input.getStageOffsets := by
  obtain ⟨aligned, heap', aligns, atInput, atOutput, agree, alignsAgain⟩ := site.align follows
  have firstCall : inferBiasAddGrad props heap = .ok ((changed || aligned), heap') :=
    bind_ok.2 ⟨_, ran, bind_ok.2 ⟨_, aligns, rfl⟩⟩
  have secondCall : inferBiasAddGrad props heap' = .ok (false, heap') :=
    bind_ok.2 ⟨_, again heap' atInput atOutput, bind_ok.2 ⟨_, alignsAgain, rfl⟩⟩
  refine ⟨heap', ?_, ?_, atInput, atOutput, agree⟩
  · generalize (changed || aligned) = report at firstCall
    cases report with
    | false => exact .last firstCall
    | true => exact .again firstCall (.last secondCall)
  · intro other settles
    cases settles with
    | last unchanged =>
      rw [firstCall] at unchanged
      exact (congrArg Prod.snd (Except.ok.inj unchanged)).symm
    | again changed rest =>
      rw [firstCall] at changed
      obtain ⟨_, isMiddle⟩ := Prod.mk.inj (Except.ok.inj changed)
      rw [← isMiddle] at rest
      cases rest with
      | last unchanged =>
        rw [secondCall] at unchanged
        exact (congrArg Prod.snd (Except.ok.inj unchanged)).symm
      | again changed _ =>
        rw [secondCall] at changed
        cases changed

theorem Site.reducedFlag (notChannel : dim + 1 ≠ input.rank.toNat) :
    ((biasAddGrad input.rank).reduced input.rank.toNat)[dim]? = some true := by
  have inside := site.split.lt_rank
  rw [biasAddGrad_reduced dim inside, decide_eq_true (by omega)]

/-- The result is single split, and only a split of the first dim gives it a post-operation. -/
theorem Site.settles_of_other (notChannel : dim + 1 ≠ input.rank.toNat) :
    ∃ heap' result, Settles (inferBiasAddGrad props) heap heap' ∧
      (∀ other, Settles (inferBiasAddGrad props) heap other → other = heap') ∧
      heap'[inputRef]? = some input ∧ heap'[outputRef]? = some result ∧
      result.postOps = (if dim = 0 then [.allReduceSum] else []) ∧
      (∀ spec, dim = 0 → Inferred (biasAddGrad input.rank) dim spec input output result) ∧
      result.getStageOffsets = input.getStageOffsets ∧
      ∀ other ∈ others, ∃ prop, heap'[other]? = some prop ∧ prop.deviceIds = input.deviceIds ∧
        prop.getStageOffsets = input.getStageOffsets := by
  have inside := site.split.lt_rank
  have isVector := site.isVector ranked
  have inHeap := read_lt site.atOutput
  have isInput := site.isInput
  have isOutput := site.isOutput
  have hasDevices : output.deviceIds ≠ [] := site.sameDevices ▸ site.split.hasDevices
  have atChannel := site.split.spec_of_ne (show input.rank.toNat - 1 < input.rank.toNat by omega) (by omega)
  have unset : output.splitSpecs[0]? = some ({} : SplitSpec) := site.fresh.spec (by omega)
  obtain ⟨rank, devices, postOps, unstaged, _, _⟩ := singles_frame output [0]
  have single : (output.singles [0]).splitSpecs[0]? = some .buildSingleSplit := by
    apply singles_spec (by omega) List.mem_cons_self
  -- The first call.
  have ranPair : ∃ changed, inferWithIdenticalDimGroup props (identicalPair (input.rank.toNat - 1) 0) heap =
      .ok (changed, heap.set outputRef (output.singles [0])) := by
    have after := makesSingle_identicalPair isInput isOutput site.atInput site.apart inHeap atChannel 0 output
      ⟨_, unset, .inl rfl⟩ hasDevices
    rw [set_self_of_getElem? site.atOutput] at after
    exact Rule.after_eq_ok.1 after
  have atInput : (heap.set outputRef (output.singles [0]))[inputRef]? = some input := by
    rw [List.getElem?_set_ne site.apart.symm, site.atInput]
  have atOutput : (heap.set outputRef (output.singles [0]))[outputRef]? = some (output.singles [0]) :=
    List.getElem?_set_self inHeap
  have ranContracting : ∃ changed, ∀ dims, inferWithDimGroup props (contractingGroup .sum (0 :: dims))
      (heap.set outputRef (output.singles [0])) = .ok (changed, heap.set outputRef
        ((output.singles [0]).appendPostOps (if dim = 0 then [.allReduceSum] else []))) := by
    by_cases isFirst : dim = 0
    · rw [if_pos isFirst]
      refine ⟨true, fun dims => ?_⟩
      have split := site.split
      rw [isFirst] at split
      have ran := split.contracting_run isInput isOutput atInput atOutput (postOps.trans site.fresh.noPostOps) .sum dims
      rwa [List.set_set] at ran
    · rw [if_neg isFirst]
      have unchanged : (output.singles [0]).appendPostOps [] = output.singles [0] := by
        unfold appendPostOps
        rw [List.append_nil]
      rw [unchanged]
      exact ⟨false, fun dims => site.contracting_idle dims atInput atOutput
        (site.split.spec_of_ne (by omega) (Ne.symm isFirst)) rfl (.inl rfl)⟩
  obtain ⟨first, ranPair⟩ := ranPair
  obtain ⟨second, ranContracting⟩ := ranContracting
  have ran := site.biasAddGradInfer_run ranked site.atInput site.atOutput isVector ranPair ranContracting
  generalize isResult : (output.singles [0]).appendPostOps (if dim = 0 then [.allReduceSum] else []) = result at ran
  have resultSpecs : result.splitSpecs = (output.singles [0]).splitSpecs := by
    rw [← isResult]
    rfl
  have resultPostOps : result.postOps = if dim = 0 then [.allReduceSum] else [] := by
    rw [← isResult]
    unfold appendPostOps
    rw [postOps, site.fresh.noPostOps, List.nil_append]
  have onePiece : result.isSplitSingleOnly = true := by
    apply isSplitSingleOnly_of_onePiece
    · rw [← isResult]
      exact devices ▸ hasDevices
    · intro spec mem
      obtain ⟨place, atPlace⟩ := List.mem_iff_getElem?.1 mem
      have bound := read_lt atPlace
      rw [resultSpecs, (output.singles [0]).specsMatchRank, rank, isVector] at bound
      have isFirst : place = 0 := by
        have : (1 : Int).toNat = 1 := rfl
        omega
      rw [resultSpecs, isFirst, single] at atPlace
      rw [← Option.some.inj atPlace]
      exact ⟨rfl, rfl⟩
  have follows : Follows input result := by
    refine ⟨?_, .inr ⟨onePiece, ?_⟩⟩
    · rw [← isResult]
      exact devices.trans site.sameDevices
    · rw [← isResult]
      exact unstaged.trans site.fresh.noStages
  obtain ⟨specsKept, _, postOpsKept, rankKept, _⟩ := @restaged_frame result input.getStageOffsets
  -- The second call.
  obtain ⟨heap', settles, unique, atInput', atOutput', agree⟩ := site.settles ran follows (by
    intro heap' atInput' atOutput'
    have atSingle : (result.restaged input.getStageOffsets).splitSpecs[0]? = some .buildSingleSplit := by
      rw [specsKept, resultSpecs, single]
    apply site.biasAddGradInfer_idle ranked atInput' atOutput'
    · rw [rankKept, ← isResult]
      exact rank.trans isVector
    · exact identicalPair_of_set isInput isOutput atInput' atOutput' atChannel rfl atSingle rfl (.inl rfl)
    · intro dims
      by_cases isFirst : dim = 0
      · obtain ⟨stageOffsets, atDim⟩ := site.split.atDim
        rw [isFirst] at atDim
        apply site.contracting_idle dims atInput' atOutput' atDim rfl
        right
        rw [postOpsKept, resultPostOps, if_pos isFirst]
        simp
      · exact site.contracting_idle dims atInput' atOutput' (site.split.spec_of_ne (by omega) (Ne.symm isFirst)) rfl
          (.inl rfl))
  refine ⟨heap', _, settles, unique, atInput', atOutput', postOpsKept.trans resultPostOps, ?_, follows.restaged, agree⟩
  intro spec isFirst
  have flag := site.reducedFlag ranked notChannel
  have inferred := (@Site.inferred_of_singles _ _ _ _ _ _ _ _ _ _ site spec [0] (by
    intro place isPlace
    rw [isVector] at isPlace
    exact List.mem_singleton.2 (Nat.lt_one_iff.1 isPlace)) (by
    rw [flag]
    exact fun kept => absurd kept.2 (by simp))).1
  have isSum : contractionPostOps (biasAddGrad input.rank).op.contractionType input.shardRatios = [.allReduceSum] := rfl
  rw [if_pos flag, isSum] at inferred
  rw [if_pos isFirst] at isResult
  rw [← isResult]
  exact inferred.restaged _

omit site in
theorem biasAddGrad_channel (isChannel : dim + 1 = input.rank.toNat) :
    ((biasAddGrad input.rank).reduced input.rank.toNat)[dim]? = some false ∧
      (biasAddGrad input.rank).place input.rank.toNat dim = 0 := by
  have isLast : dim = input.rank.toNat - 1 := by omega
  constructor
  · rw [biasAddGrad_reduced dim (by omega), decide_eq_false (by omega)]
  · rw [isLast, biasAddGrad_place ranked]

theorem Site.channel_run (isChannel : dim + 1 = input.rank.toNat) (atDim : input.splitSpecs[dim]? = some spec) :
    ∃ result, (biasAddGradInfer props heap).run heap = .ok (true, heap.set outputRef result) ∧
      Follows input result ∧ result.rank = 1 ∧ result.splitSpecs[0]? = some (output.rescaled 0 spec) ∧
      (1 < sizes.length → Inferred (biasAddGrad input.rank) dim spec input output result) ∧
      (sizes.length = 1 → result.isSplitSingleOnly = true) := by
  obtain ⟨flag, place⟩ := biasAddGrad_channel ranked isChannel
  have isLast : dim = input.rank.toNat - 1 := by omega
  have isVector := site.isVector ranked
  have inHeap := read_lt site.atOutput
  have isInput := site.isInput
  have isOutput := site.isOutput
  have hasDevices : output.deviceIds ≠ [] := site.sameDevices ▸ site.split.hasDevices
  have unset : output.splitSpecs[0]? = some ({} : SplitSpec) := site.fresh.spec (by omega)
  obtain ⟨stageOffsets, isSpec⟩ := site.split.atDim
  rw [atDim] at isSpec
  have isSize : spec.size = sizes.length := by rw [Option.some.inj isSpec]; rfl
  have isSet : spec.isInitialized = true := by rw [Option.some.inj isSpec]; rfl
  have atFirst := site.split.spec_of_ne (show 0 < input.rank.toNat by omega) (show 0 ≠ dim by omega)
  -- Once the pair is aligned, the other group changes nothing.
  have runs : ∀ result : ShardingProperty, inferWithIdenticalDimGroup props (identicalPair dim 0) heap =
      .ok (true, heap.set outputRef result) →
      (biasAddGradInfer props heap).run heap = .ok (true, heap.set outputRef result) := by
    intro result ranPair
    rw [isLast] at ranPair
    apply site.biasAddGradInfer_run ranked site.atInput site.atOutput isVector ranPair
    intro dims
    refine site.contracting_idle dims ?_ (List.getElem?_set_self inHeap) atFirst rfl (.inl rfl)
    rw [List.getElem?_set_ne site.apart.symm, site.atInput]
  by_cases several : 1 < sizes.length
  · have ranPair := site.run_split several atDim unset (fun other inside => site.fresh.loose inside) rfl
    rw [set_self_of_getElem? site.atOutput] at ranPair
    have inferred : Inferred (biasAddGrad input.rank) dim spec input output (output.splitAlong 0 spec) := by
      refine ⟨rfl, rfl, ?_, ?_, ?_⟩
      · rw [if_pos ⟨by omega, flag⟩, place]
        change output.orderedSplitDims ++ [0] = [0]
        rw [site.fresh.unordered, List.nil_append]
      · rw [if_neg (by rw [flag]; simp)]
        exact site.fresh.noPostOps
      · intro other inside
        have isZero : other = 0 := by omega
        rw [isZero, if_pos ⟨by omega, flag, place.symm⟩]
        exact splitAlong_self (by omega)
    refine ⟨_, runs _ ranPair, inferred.follows site atDim site.fresh.noStages, isVector, splitAlong_self (by omega),
      fun _ => inferred, fun isOne => by omega⟩
  · have isOne : sizes.length = 1 := by
      have := List.length_pos_iff.2 site.split.nonempty
      omega
    have splits := splitAt_of_unset unset rfl hasDevices (show spec.size ≤ 1 by omega)
    have ranPair := identicalPair_of_unset isInput isOutput site.atInput site.atOutput atDim isSet unset rfl splits
    have atZero : (output.placeAt 0 (output.rescaled 0 spec)).splitSpecs[0]? = some (output.rescaled 0 spec) :=
      List.getElem?_set_self (read_lt unset)
    have single : (output.placeAt 0 (output.rescaled 0 spec)).isSplitSingleOnly = true := by
      apply @isSplitSingleOnly_of_onePiece (output.placeAt 0 (output.rescaled 0 spec)) hasDevices
      intro found mem
      obtain ⟨other, atOther⟩ := List.mem_iff_getElem?.1 mem
      have bound := read_lt atOther
      rw [ShardingProperty.specsMatchRank] at bound
      have isZero : other = 0 := by
        have sameRank : (output.placeAt 0 (output.rescaled 0 spec)).rank = 1 := isVector
        omega
      rw [isZero, atZero] at atOther
      rw [← Option.some.inj atOther]
      exact ⟨rescaled_isInitialized isSet, rescaled_size.trans (by omega)⟩
    exact ⟨_, runs _ ranPair, ⟨site.sameDevices, .inr ⟨single, site.fresh.noStages⟩⟩, isVector, atZero,
      fun more => absurd more several, fun _ => single⟩

omit site ranked in
theorem isEquivalent_self (nonempty : spec.sizes ≠ []) :
    isEquivalent spec spec = if spec.getTotalSize = 0 then .error (.crash "division by zero") else .ok true := by
  unfold isEquivalent
  rw [if_neg (by simp), if_neg (by simp)]
  by_cases noTotal : spec.getTotalSize = 0
  · rw [if_pos ⟨nonempty, .inl noTotal⟩, if_pos noTotal]
  · rw [if_neg fun crash => noTotal (or_self_iff.1 crash.2), if_neg noTotal]
    congr 1
    rw [List.all_eq_true]
    rintro ⟨size, other⟩ mem
    obtain ⟨place, atPlace⟩ := List.mem_iff_getElem?.1 mem
    grind

omit ranked in
/-- What the result is given is the operand's spec exactly where it has its sizes. -/
theorem Site.rescaled_eq_iff (atDim : input.splitSpecs[dim]? = some spec)
    (kept : ((biasAddGrad input.rank).reduced input.rank.toNat)[dim]? = some false)
    (place : (biasAddGrad input.rank).place input.rank.toNat dim = 0) :
    output.rescaled 0 spec = spec ↔ ∀ extent, output.shape[0]? = some extent → 0 < extent →
      sizes.sum < 2 ^ 31 ∨ sizes.sum.bmod (2 ^ 32) ≤ 0 := by
  obtain ⟨result, found, constants, lowers, _⟩ := site.reducesExactly_iff_allExact
  have isFound : found = spec := Option.some.inj (lowers.atDim.symm.trans atDim)
  obtain ⟨sameIff, sameSizes⟩ := lowers.sameSizes_iff kept
  rw [place, isFound] at sameIff sameSizes
  obtain ⟨stageOffsets, isSpec⟩ := site.split.atDim
  rw [atDim] at isSpec
  have isSpec := Option.some.inj isSpec
  rw [← sameIff]
  constructor
  · intro same
    rw [same, isSpec]
    rfl
  · intro same
    have sizesSame := sameSizes same
    rw [isSpec] at sizesSame ⊢
    unfold rescaled at sizesSame ⊢
    split
    · rfl
    next extent isExtent =>
      rw [isExtent] at sizesSame
      dsimp only at sizesSame
      split
      · rfl
      next scaled =>
        rw [if_neg scaled] at sizesSame
        unfold SplitSpec.buildFromSizes at sizesSame ⊢
        dsimp only at sizesSame
        simp only [sizesSame]

/-! ## All calls -/

omit ranked in
theorem Site.operand_eq {input' : ShardingProperty} {constants : List ShardingProperty}
    (atInput : heap'[inputRef]? = some input) (operands : props.inputs.mapM (readAt heap') = .ok (input' :: constants)) :
    input' = input := by
  rw [site.inputs, mapM_eq_ok, List.forall₂_cons] at operands
  exact Option.some.inj ((readAt_eq_ok.1 operands.1).symm.trans atInput)

omit ranked in
theorem Site.output_eq {outputRef' : Nat} {result' : ShardingProperty}
    (atOutput : heap'[outputRef]? = some result) (isOutput : readAt props.outputs 0 = .ok outputRef')
    (isRead : readAt heap' outputRef' = .ok result') : result' = result := by
  rw [site.outputs] at isOutput
  rw [← Except.ok.inj isOutput] at isRead
  exact Option.some.inj ((readAt_eq_ok.1 isRead).symm.trans atOutput)

omit ranked in
theorem Site.reducesBias_of
    (settles : Settles (inferBiasAddGrad props) heap heap') (atInput : heap'[inputRef]? = some input)
    (atOutput : heap'[outputRef]? = some result)
    (agree : ∀ other ∈ others, ∃ prop, heap'[other]? = some prop ∧ prop.deviceIds = input.deviceIds ∧
      prop.getStageOffsets = input.getStageOffsets)
    (inferred : if dim + 1 = input.rank.toNat then result.splitSpecs[0]? = input.splitSpecs[dim]?
      else .allReduceSum ∈ result.postOps)
    (exact_ : ∀ constants : List ShardingProperty, (∀ prop ∈ constants, prop.deviceIds = input.deviceIds ∧
      prop.getStageOffsets = input.getStageOffsets) → AllExact (biasAddGrad input.rank) dim sizes input result constants) :
    ReducesBias props heap dim sizes := by
  obtain ⟨constants, operands, same⟩ := exists_mapM_readAt atInput agree
  rw [← site.inputs] at operands
  exact ⟨heap', input, constants, outputRef, result, settles, operands, site.isOutput, readAt_eq_ok.2 atOutput, inferred,
    exact_ constants same⟩

/-- Channels that are not split: the loop reaches the first dim only. -/
theorem Site.reducesBias_iff_of_other (notChannel : dim + 1 ≠ input.rank.toNat) :
    ReducesBias props heap dim sizes ↔ dim = 0 := by
  obtain ⟨heap', result, settles, unique, atInput, atOutput, postOps, inferred, stages, agree⟩ :=
    site.settles_of_other ranked notChannel
  obtain ⟨stageOffsets, atDim⟩ := site.split.atDim
  constructor
  · rintro ⟨other, input', constants, outputRef', result', settles', operands, isOutput, isRead, reduces, _⟩
    rw [unique other settles'] at operands isRead
    rw [site.operand_eq atInput operands, if_neg notChannel, site.output_eq atOutput isOutput isRead, postOps] at reduces
    by_contra notFirst
    rw [if_neg notFirst] at reduces
    cases reduces
  · intro isFirst
    apply site.reducesBias_of settles atInput atOutput agree
    · rw [if_neg notChannel, postOps, if_pos isFirst]
      exact List.mem_singleton.2 rfl
    · intro constants agreed
      have lowers : Lowers (biasAddGrad input.rank) props heap dim sizes inputRef outputRef others input output result _
          constants := ⟨site, atDim, inferred _ isFirst, stages, agreed⟩
      apply lowers.allExact_iff.2
      intro _
      have flag := site.reducedFlag ranked notChannel
      constructor
      · intro _ isMean
        cases isMean
      · rw [flag]
        intro isKept
        cases isKept

omit site ranked in
theorem Settles.grows (settles : Settles (inferBiasAddGrad props) heap heap') : heaps.le heap heap' := by
  induction settles with
  | last unchanged => exact (infer_grows unchanged).1
  | again changed _ ih => exact heaps.trans (infer_grows changed).1 ih

theorem Site.channel_again {spec' : SplitSpec}
    (isChannel : dim + 1 = input.rank.toNat) (atDim : input.splitSpecs[dim]? = some spec)
    (atInput : heap'[inputRef]? = some input) (atOutput : heap'[outputRef]? = some result) (sameRank : result.rank = 1)
    (atZero : result.splitSpecs[0]? = some spec') (isSize : spec'.type = .size) :
    (isEquivalent spec spec' = .ok true → (biasAddGradInfer props heap').run heap' = .ok (false, heap')) ∧
      (∀ failure, isEquivalent spec spec' = .error failure →
        (biasAddGradInfer props heap').run heap' = .error failure) := by
  have isLast : dim = input.rank.toNat - 1 := by omega
  have isInput := site.isInput
  have isOutput := site.isOutput
  have atFirst := site.split.spec_of_ne (show 0 < input.rank.toNat by omega) (show 0 ≠ dim by omega)
  obtain ⟨stageOffsets, isSpec⟩ := site.split.atDim
  rw [atDim] at isSpec
  have isSet : spec.isInitialized = true := by rw [Option.some.inj isSpec]; rfl
  have compared := identicalPair_of_sizes isInput isOutput atInput atOutput atDim isSet atZero
    (by rw [Option.some.inj isSpec]; rfl) isSize
  rw [isLast] at compared
  constructor
  · intro equivalent
    rw [equivalent] at compared
    exact site.biasAddGradInfer_idle ranked atInput atOutput sameRank compared
      fun dims => site.contracting_idle dims atInput atOutput atFirst rfl (.inl rfl)
  · intro failure fails
    rw [fails] at compared
    have someInput : 0 < props.inputs.length := by
      rw [site.inputs]
      exact Nat.succ_pos _
    obtain ⟨dims, isGroups⟩ := biasAddGradGroups_eq someInput ranked sameRank
    unfold biasAddGradInfer
    rw [site.readFirst_eq atInput atOutput]
    dsimp only
    rw [isGroups]
    change (inferWithIdenticalDimGroup props (identicalPair (input.rank.toNat - 1) 0) heap' >>= fun _ => _) = _
    rw [compared]
    rfl

/-- Channels that are split: the result has their split, unless a total is lost. -/
theorem Site.reducesBias_iff_of_channel (isChannel : dim + 1 = input.rank.toNat) :
    ReducesBias props heap dim sizes ↔ ChannelTotalFits sizes output := by
  obtain ⟨stageOffsets, atDim⟩ := site.split.atDim
  obtain ⟨kept, place⟩ := biasAddGrad_channel ranked isChannel
  obtain ⟨result, ran, follows, sameRank, atZero, inferred, single⟩ := site.channel_run ranked isChannel atDim
  have sameIff := site.rescaled_eq_iff atDim kept place
  have isTotal : (SplitSpec.buildFromSizes sizes stageOffsets).getTotalSize = sizes.sum.bmod (2 ^ 32) :=
    SplitSpec.getTotalSize_eq _
  have selfEquivalent := @isEquivalent_self (.buildFromSizes sizes stageOffsets) site.split.nonempty
  rw [isTotal] at selfEquivalent
  obtain ⟨specsKept, _, _, rankKept, _⟩ := @restaged_frame result input.getStageOffsets
  rw [← specsKept] at atZero
  rw [← rankKept] at sameRank
  obtain ⟨aligned, heap', aligns, atInput, atOutput, agree, _⟩ := site.align follows
  have firstCall : inferBiasAddGrad props heap = .ok (true, heap') :=
    bind_ok.2 ⟨_, ran, bind_ok.2 ⟨_, aligns, rfl⟩⟩
  constructor
  · rintro ⟨other, input', constants, outputRef', result', settles, operands, isOutput, isRead, reduces, _⟩
    have rest : Settles (inferBiasAddGrad props) heap' other := by
      cases settles with
      | last unchanged =>
        rw [firstCall] at unchanged
        cases unchanged
      | again changed rest =>
        rw [firstCall] at changed
        obtain ⟨_, isMiddle⟩ := Prod.mk.inj (Except.ok.inj changed)
        rwa [isMiddle]
    obtain ⟨finalInput, atFinal, inputExtends⟩ := heaps_at rest.grows atInput
    obtain ⟨finalOutput, atFinalOutput, outputExtends⟩ := heaps_at rest.grows atOutput
    have isInput' : input' = finalInput := by
      rw [site.inputs, mapM_eq_ok, List.forall₂_cons] at operands
      exact Option.some.inj ((readAt_eq_ok.1 operands.1).symm.trans atFinal)
    have isResult' := site.output_eq atFinalOutput isOutput isRead
    rw [isInput', isResult', inputExtends.rank, if_pos isChannel,
      outputExtends.splitSpecs.kept atZero (rescaled_isInitialized rfl), inputExtends.splitSpecs.kept atDim rfl] at reduces
    refine ⟨?_, sameIff.1 (Option.some.inj reduces)⟩
    intro noTotal
    rw [if_pos noTotal] at selfEquivalent
    rw [Option.some.inj reduces] at atZero
    have crashes := (site.channel_again ranked isChannel atDim atInput atOutput sameRank atZero rfl).2 _ selfEquivalent
    have secondCall : inferBiasAddGrad props heap' = .error (.crash "division by zero") := by
      unfold inferBiasAddGrad Hsp.infer
      rw [crashes]
      rfl
    cases rest with
    | last unchanged =>
      rw [secondCall] at unchanged
      cases unchanged
    | again changed _ =>
      rw [secondCall] at changed
      cases changed
  · rintro ⟨someTotal, fits⟩
    rw [if_neg someTotal] at selfEquivalent
    have same := sameIff.2 fits
    rw [same] at atZero
    obtain ⟨heap'', settles, _, atInput', atOutput', agree'⟩ := site.settles ran follows fun heap'' atInput' atOutput' =>
      (site.channel_again ranked isChannel atDim atInput' atOutput' sameRank atZero rfl).1 selfEquivalent
    apply site.reducesBias_of settles atInput' atOutput' agree'
    · rw [if_pos isChannel, atZero, atDim]
    · intro constants agreed
      by_cases isOne : sizes.length = 1
      · intro limits x _ _
        have stages : (result.restaged input.getStageOffsets).deviceIds = input.deviceIds :=
          restaged_frame.2.1.trans follows.devices
        refine ⟨[(biasAddGrad input.rank).eval limits x], ?_, exact_of_single ?_ ?_ limits x⟩
        · rw [site.split.lowerReduction, if_pos isOne]
          intro prop mem
          rcases List.mem_append.1 mem with isConstant | isResult
          · exact agreed prop isConstant
          · rw [List.mem_singleton.1 isResult]
            exact ⟨stages, follows.restaged⟩
        · rw [restaged_frame.2.2.2.2.2]
          exact single isOne
        · rw [getNumLogicalShards_congr stages follows.restaged, site.split.counted, isOne]
      · have several : 1 < sizes.length := by
          have := List.length_pos_iff.2 site.split.nonempty
          omega
        have lowers : Lowers (biasAddGrad input.rank) props heap dim sizes inputRef outputRef others input output _ _
            constants := ⟨site, atDim, (inferred several).restaged _, follows.restaged, agreed⟩
        apply lowers.allExact_iff.2
        intro _
        rw [kept]
        refine ⟨fun isReduced => (by cases isReduced), fun _ => ?_⟩
        rw [place]
        exact fits

/-- A bias gradient is reduced over the split dim where, and only where, it is the first one,
or holds the channels and its total is not lost. -/
theorem reducesBias_iff_first_or_channel : ReducesBias props heap dim sizes ↔
      dim = 0 ∨ (dim + 1 = input.rank.toNat ∧ ChannelTotalFits sizes output) := by
  by_cases isChannel : dim + 1 = input.rank.toNat
  · rw [site.reducesBias_iff_of_channel ranked isChannel]
    constructor
    · exact fun fits => .inr ⟨isChannel, fits⟩
    · rintro (isFirst | ⟨_, fits⟩)
      · omega
      · exact fits
  · rw [site.reducesBias_iff_of_other ranked isChannel]
    exact ⟨.inl, fun either => either.resolve_right fun channel => isChannel channel.1⟩

end Site

/-- The operand and the result of a gradient with three dims, one of them in two halves. -/
def biasGradHeap (dim : Nat) : Heap :=
  [{ rank := 3, deviceIds := [0, 1],
      splitSpecs := (List.replicate 3 .buildSingleSplit).set dim (.buildFromSizes [2, 2] []),
      orderedSplitDims := [dim], specsMatchRank := List.length_set },
    { rank := 1, deviceIds := [0, 1], splitSpecs := [{}], specsMatchRank := oneSpec }]

theorem biasGradHeap_site {dim : Nat} (inside : dim < 3) :
    ∃ input output, biasGradHeap dim = [input, output] ∧ input.rank = 3 ∧
      Site (biasAddGrad input.rank) ⟨[0], [1]⟩ (biasGradHeap dim) dim [2, 2] 0 1 [] input output := by
  have dims : dim = 0 ∨ dim = 1 ∨ dim = 2 := by omega
  refine ⟨_, _, rfl, rfl, ?_⟩
  exact
    { inputs := rfl
      outputs := rfl
      atInput := rfl
      atOutput := rfl
      apart := by decide
      split :=
        { atDim := ⟨[], List.getElem?_set_self inside⟩
          single := by
            grind
          ordered := rfl
          devices := show [0, 1].Nodup by decide
          perDevice := by rcases dims with isDim | isDim | isDim <;> subst isDim <;> rfl
          staged := by rcases dims with isDim | isDim | isDim <;> subst isDim <;> decide
          counted := by rcases dims with isDim | isDim | isDim <;> subst isDim <;> rfl
          positive := by decide
          nonempty := by simp }
      fresh := by
        refine ⟨by decide, fun dim spec atDim => ?_, rfl, rfl, rfl⟩
        exact (List.mem_singleton.1 (List.mem_of_getElem? atDim))
      sameDevices := rfl
      constants := by
        intro other mem
        cases mem
      someDims := show (biasAddGrad 3).dims 3 ≠ [] by decide
      inRange := show ∀ index ∈ (biasAddGrad 3).dims 3, -3 ≤ index ∧ index < 3 by decide
      outputRank := rfl
      bounded := by decide
      outputShape := by
        intro extent atPlace
        cases atPlace }

theorem first_dim_reduces : ReducesBias ⟨[0], [1]⟩ (biasGradHeap 0) 0 [2, 2] := by
  obtain ⟨input, output, _, isRank, site⟩ := @biasGradHeap_site 0 (by decide)
  exact (reducesBias_iff_first_or_channel site (by rw [isRank]; decide)).2 (.inl rfl)

/-- The sums of the halves of the second dim are never added. -/
theorem second_dim_not_reduced : ¬ ReducesBias ⟨[0], [1]⟩ (biasGradHeap 1) 1 [2, 2] := by
  obtain ⟨input, output, _, isRank, site⟩ := @biasGradHeap_site 1 (by decide)
  rw [site.reducesBias_iff_of_other (by rw [isRank]; decide) (by rw [isRank]; decide)]
  decide

end Itex.XpuAutoShard.Hsp
