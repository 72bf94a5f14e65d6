import Itex.XpuAutoShard.ReductionInference
import Itex.XpuAutoShard.Stages

/-!
Contract: the inference of a reduction, from its first rule to the aligned stages.

Owns: what the rules leave in the result, and that all properties of the op end with the
devices and stages of the operand.
-/

namespace Itex.XpuAutoShard.Hsp

open Itex.Lib
open Itex.XpuAutoShard.Hsp.ShardingProperty

variable {place : Nat} {result : ShardingProperty}

/-- What the rules leave in the result. -/
structure Inferred (reduction : Reduction) (dim : Nat) (spec : SplitSpec) (input output result : ShardingProperty) :
    Prop where
  rank : result.rank = output.rank
  devices : result.deviceIds = output.deviceIds
  ordered : result.orderedSplitDims = if 1 < spec.size ∧ (reduction.reduced input.rank.toNat)[dim]? = some false then
      [reduction.place input.rank.toNat dim] else []
  postOps : result.postOps = if (reduction.reduced input.rank.toNat)[dim]? = some true then
    contractionPostOps reduction.op.contractionType input.shardRatios else []
  specs : ∀ place < output.rank.toNat, result.splitSpecs[place]? = some
    (if 1 < spec.size ∧ (reduction.reduced input.rank.toNat)[dim]? = some false ∧
        place = reduction.place input.rank.toNat dim then output.rescaled place spec
    else .buildSingleSplit)

section Run

variable {reduction : Reduction} {props : OpProps} {heap : Heap} {dim : Nat} {sizes : List Int}
  {inputRef outputRef : Nat} {others : List Nat} {input output : ShardingProperty}

/-- The dims of the result that a reduction leaves with one entry. -/
def fillerDims (reduction : Reduction) (input output : ShardingProperty) : List Nat :=
  (List.range output.rank.toNat).filter fun dim =>
    reduction.keeps && isContractionDim input.rank (reduction.dims input.rank) dim

section

variable (site : Site reduction props heap dim sizes inputRef outputRef others input output)

include site

theorem Site.readFirst_eq {heap' : Heap} {current : ShardingProperty} (atInput : heap'[inputRef]? = some input)
    (atOutput : heap'[outputRef]? = some current) : readFirst props heap' = .ok (input, current, outputRef) := by
  unfold readFirst
  refine bind_ok.2 ⟨inputRef, site.isInput, bind_ok.2 ⟨input, readAt_eq_ok.2 atInput, ?_⟩⟩
  exact bind_ok.2 ⟨outputRef, site.isOutput, bind_ok.2 ⟨current, readAt_eq_ok.2 atOutput, rfl⟩⟩

theorem Site.read (current : ShardingProperty) : readFirst props (heap.set outputRef current) = .ok (input, current, outputRef) := by
  have inHeap := read_lt site.atOutput
  apply site.readFirst_eq
  · rw [List.getElem?_set_ne site.apart.symm, site.atInput]
  · exact List.getElem?_set_self inHeap

theorem Site.run_of {first second third : ShardingProperty} {groups : List DimGroup}
    (ranFirst : Rule.after heap (.allInputsSingleSplitOnly props) = .ok (heap.set outputRef first))
    (sameRank : first.rank = output.rank)
    (ranFillers : ((fillerDims reduction input output).map fun place => Rule.trySplitSingleOnly outputRef (some place)).foldlM
      Rule.after (heap.set outputRef first) = .ok (heap.set outputRef second))
    (isGroups : contractionGroups input first (reduction.dims input.rank) reduction.op.contractionType reduction.keeps =
      .ok groups) (ranGroups : (groups.map (Rule.dimGroup props)).foldlM Rule.after (heap.set outputRef second) =
      .ok (heap.set outputRef third)) :
    ∃ changed, (reductionInfer reduction props heap).run heap = .ok (changed, heap.set outputRef third) := by
  have readAtFirst : readFirst props heap = .ok (input, output, outputRef) := by
    have read := site.read output
    rwa [set_self_of_getElem? site.atOutput] at read
  have lastRun : DoInfer.done.run (heap.set outputRef third) = .ok (false, heap.set outputRef third) := rfl
  obtain ⟨changedGroups, ranRest⟩ := @applyAll_run _ _ (fun _ => .done) _ _ ranGroups lastRun
  have ranNext : (inferWithDimGroups props (contractionGroups input first (reduction.dims input.rank)
      reduction.op.contractionType reduction.keeps) (heap.set outputRef second)).run (heap.set outputRef second) =
      .ok (changedGroups, heap.set outputRef third) := by
    rw [isGroups]
    exact ranRest
  obtain ⟨changedFillers, ranRules⟩ := applyAll_run ranFillers ranNext
  unfold Rule.after at ranFirst
  cases ranRule : Rule.run (.allInputsSingleSplitOnly props) heap with
  | error failure =>
    rw [ranRule] at ranFirst
    cases ranFirst
  | ok pair =>
    rw [ranRule] at ranFirst
    have isSecond : pair.2 = heap.set outputRef first := Except.ok.inj ranFirst
    refine ⟨(true && pair.1) || changedFillers, ?_⟩
    unfold reductionInfer
    rw [readAtFirst]
    unfold contractionInfer DoInfer.run
    refine bind_ok.2 ⟨pair, ranRule, bind_ok.2 ⟨(changedFillers, heap.set outputRef third), ?_, rfl⟩⟩
    dsimp only
    rw [if_neg site.someDims, isSecond]
    unfold contractionRules
    rw [site.read first]
    unfold fillerDims at ranRules
    rw [← sameRank] at ranRules
    exact ranRules

theorem Site.ranFirst : Rule.after heap (.allInputsSingleSplitOnly props) = .ok (heap.set outputRef
      (if sizes.length = 1 then output.singles (List.range output.rank.toNat) else output)) := by
  have each : ∀ other ∈ others, ∃ prop, heap[other]? = some prop ∧
      prop.isSplitSingleOnly = true ∧ prop.deviceIds = input.deviceIds := by
    intro other mem
    obtain ⟨_, constant, atOther, single, _, sameDevices⟩ := site.constants other mem
    exact ⟨constant, atOther, single, sameDevices⟩
  obtain ⟨found, operands, eachFound⟩ := exists_mapM_readAt site.atInput each
  rw [← site.inputs] at operands
  have restSingle : found.all ShardingProperty.isSplitSingleOnly = true :=
    List.all_eq_true.2 fun prop mem => (eachFound prop mem).1
  have restDevices : found.all (fun prop => input.deviceIds == prop.deviceIds) = true := by
    rw [List.all_eq_true]
    intro prop mem
    rw [beq_iff_eq, (eachFound prop mem).2]
  have isRule : Rule.run (.allInputsSingleSplitOnly props) heap = inferWithAllInputsSingleSplitOnly props heap := rfl
  by_cases isOne : sizes.length = 1
  · obtain ⟨changed, ran⟩ := splitOutputSingleOnly_of_fresh site.atOutput site.fresh
      (site.sameDevices ▸ site.split.hasDevices)
    rw [if_pos isOne]
    apply @Rule.after_eq _ _ _ changed
    rw [isRule]
    unfold inferWithAllInputsSingleSplitOnly
    refine bind_ok.2 ⟨_, operands, ?_⟩
    dsimp only
    rw [List.all_cons, site.split.isSplitSingleOnly_iff.2 isOne, restSingle, restDevices, Bool.and_self, Bool.and_self, if_pos rfl, site.outputs,
      List.foldlM_cons, ran]
    rfl
  · have notSingle : input.isSplitSingleOnly = false := by
      rw [← Bool.not_eq_true]
      exact fun single => isOne (site.split.isSplitSingleOnly_iff.1 single)
    rw [if_neg isOne, set_self_of_getElem? site.atOutput]
    apply @Rule.after_eq _ _ _ false
    rw [isRule]
    unfold inferWithAllInputsSingleSplitOnly
    refine bind_ok.2 ⟨_, operands, ?_⟩
    dsimp only
    rw [List.all_cons, notSingle, Bool.false_and, Bool.false_and, if_neg Bool.false_ne_true]
    rfl

end

section

variable (split : SizeSplit input dim sizes) {current : ShardingProperty} {heap : Heap}
  (isInput : readAt props.inputs 0 = .ok inputRef) (isOutput : readAt props.outputs 0 = .ok outputRef)
  (atInput : heap[inputRef]? = some input) (atOutput : heap[outputRef]? = some current)
  (noPostOps : current.postOps = []) (type : ContractionType) (dims : List Nat)

include split isInput isOutput atInput atOutput noPostOps type dims

theorem SizeSplit.contracting_run :
    inferWithDimGroup props (contractingGroup type (dim :: dims)) heap = .ok (true, heap.set outputRef
      (current.appendPostOps (contractionPostOps type input.shardRatios))) := by
  obtain ⟨stageOffsets, atDim⟩ := split.atDim
  have isContracting : (contractingGroup type (dim :: dims)).type = .contracting := by
    unfold DimGroup.type contractingGroup
    simp
  have onlyDim : (input.splitSpecs.zipIdx.any fun entry => entry.2 != dim && entry.1.type != .single) = false := by
    rw [List.any_eq_false]
    rintro ⟨other, place⟩ mem
    have atPlace := List.mem_zipIdx_iff_getElem?.1 mem
    rw [Bool.and_eq_true, not_and, bne_iff_ne, bne_iff_ne, Decidable.not_not]
    intro ne
    rw [split.single place other atPlace ne]
    rfl
  unfold inferWithDimGroup
  rw [isContracting]
  dsimp only
  unfold inferWithContractingDimGroup
  refine bind_ok.2 ⟨⟨true, 0, dim⟩, rfl, bind_ok.2 ⟨inputRef, isInput,
    bind_ok.2 ⟨input, readAt_eq_ok.2 atInput, ?_⟩⟩⟩
  rw [split.isInitialized, if_neg (by simp)]
  refine bind_ok.2 ⟨true, isSplitAt_of_spec atDim, ?_⟩
  rw [if_neg (by simp)]
  refine bind_ok.2 ⟨_, readAt_eq_ok.2 atDim, ?_⟩
  rw [if_neg (by simp [SplitSpec.buildFromSizes])]
  refine bind_ok.2 ⟨outputRef, isOutput, bind_ok.2 ⟨current, readAt_eq_ok.2 atOutput, ?_⟩⟩
  rw [if_neg (by simp [getNumPostOps, noPostOps])]
  refine (if_neg ?_).trans rfl
  rw [Bool.not_eq_true]
  exact onlyDim

theorem SizeSplit.contracting :
    Rule.after heap (.dimGroup props (contractingGroup type (dim :: dims))) = .ok (heap.set outputRef
      (current.appendPostOps (contractionPostOps type input.shardRatios))) :=
  Rule.after_eq (split.contracting_run isInput isOutput atInput atOutput noPostOps type dims)

end

section

variable (site : Site reduction props heap dim sizes inputRef outputRef others input output)

include site

theorem Site.places_nodup :
    ((keptDims (reduction.reduced input.rank.toNat)).map (reduction.place input.rank.toNat)).Nodup := by
  rw [← site.identicalOutputDims]
  exact List.nodup_range.filter _

theorem Site.place_of_kept {kept : Nat} (isKept : kept ∈ keptDims (reduction.reduced input.rank.toNat)) :
    reduction.place input.rank.toNat kept < output.rank.toNat ∧
      reduction.place input.rank.toNat kept ∉ fillerDims reduction input output := by
  have mem := List.mem_map_of_mem (f := reduction.place input.rank.toNat) isKept
  rw [← site.identicalOutputDims, List.mem_filter] at mem
  refine ⟨List.mem_range.1 mem.1, ?_⟩
  intro isFiller
  have fills := (List.mem_filter.1 isFiller).2
  rw [fills] at mem
  cases mem.2

theorem Site.covered (inside : place < output.rank.toNat) : place ∈ fillerDims reduction input output ∨
      place ∈ (keptDims (reduction.reduced input.rank.toNat)).map (reduction.place input.rank.toNat) := by
  rw [← site.identicalOutputDims]
  unfold fillerDims
  grind

end

theorem Reduction.kept_lt {reduction : Reduction} {rank kept : Nat}
    (isKept : kept ∈ keptDims (reduction.reduced rank)) : kept < rank := by
  have inside := read_lt (mem_keptDims.1 isKept)
  rwa [Reduction.length_reduced] at inside

theorem singles_spec {prop : ShardingProperty} {dims : List Nat} (inside : place < prop.rank.toNat)
    (listed : place ∈ dims) : (prop.singles dims).splitSpecs[place]? = some .buildSingleSplit := by
  rw [← prop.specsMatchRank] at inside
  rw [getElem?_singles, if_pos listed, List.getElem?_eq_getElem inside]
  rfl

theorem foldlM_after_self {rules : List Rule} {heap : Heap} (each : ∀ rule ∈ rules, rule.after heap = .ok heap) :
    rules.foldlM Rule.after heap = .ok heap := by
  induction rules with
  | nil => rfl
  | cons rule rules ih =>
    rw [List.foldlM_cons, each rule List.mem_cons_self]
    exact ih fun other mem => each other (List.mem_cons_of_mem _ mem)

theorem Site.ran_onePiece (site : Site reduction props heap dim sizes inputRef outputRef others input output)
    {current : ShardingProperty} (singles : ∀ place < output.rank.toNat,
      current.splitSpecs[place]? = some .buildSingleSplit) (hasDevices : current.deviceIds ≠ []) :
    ((fillerDims reduction input output).map fun place => Rule.trySplitSingleOnly outputRef (some place)).foldlM
        Rule.after (heap.set outputRef current) = .ok (heap.set outputRef current) ∧
      (((keptDims (reduction.reduced input.rank.toNat)).map (fun kept =>
        identicalPair kept (reduction.place input.rank.toNat kept))).map (Rule.dimGroup props)).foldlM
        Rule.after (heap.set outputRef current) = .ok (heap.set outputRef current) := by
  have inHeap := read_lt site.atOutput
  constructor
  · apply foldlM_after_self
    intro rule mem
    obtain ⟨place, isFiller, isRule⟩ := List.mem_map.1 mem
    have atPlace := singles place (List.mem_range.1 (List.mem_filter.1 isFiller).1)
    rw [← isRule, makesSingle_trySplitSingleOnly inHeap place current ⟨_, atPlace, .inr rfl⟩ hasDevices,
      placeAt_self atPlace]
  · apply foldlM_after_self
    intro rule mem
    obtain ⟨group, isGroup, isRule⟩ := List.mem_map.1 mem
    obtain ⟨kept, isKept, isPair⟩ := List.mem_map.1 isGroup
    have inside := Reduction.kept_lt isKept
    rw [← input.specsMatchRank] at inside
    have atKept := List.getElem?_eq_getElem inside
    have isSet : (input.splitSpecs.get ⟨kept, inside⟩).isInitialized = true := by
      rcases site.split.specs (List.mem_of_getElem? atKept) with isSingle | ⟨stageOffsets, isSize⟩
      · exact congrArg SplitSpec.isInitialized isSingle
      · exact congrArg SplitSpec.isInitialized isSize
    have atInput : (heap.set outputRef current)[inputRef]? = some input := by
      rw [List.getElem?_set_ne site.apart.symm, site.atInput]
    rw [← isRule, ← isPair]
    exact Rule.after_eq (identicalPair_of_set site.isInput site.isOutput atInput
      (List.getElem?_set_self inHeap) atKept isSet (singles _ (site.place_of_kept isKept).1) rfl (.inr rfl))

/-! ## Several pieces -/

section

variable (site : Site reduction props heap dim sizes inputRef outputRef others input output)

include site

theorem Site.ran_fillers :
    ((fillerDims reduction input output).map fun place => Rule.trySplitSingleOnly outputRef (some place)).foldlM
      Rule.after (heap.set outputRef output) =
      .ok (heap.set outputRef (output.singles (fillerDims reduction input output))) := by
  have inHeap := read_lt site.atOutput
  have ran := @run_singles output outputRef heap
    ((fillerDims reduction input output).map fun place => (Rule.trySplitSingleOnly outputRef (some place), place))
    (by
      intro entry mem
      obtain ⟨place, _, isEntry⟩ := List.mem_map.1 mem
      rw [← isEntry]
      exact makesSingle_trySplitSingleOnly inHeap place)
    (by
      intro entry mem
      obtain ⟨place, isFiller, isEntry⟩ := List.mem_map.1 mem
      rw [← isEntry]
      exact site.fresh.loose (List.mem_range.1 (List.mem_filter.1 isFiller).1))
    (site.sameDevices ▸ site.split.hasDevices)
  rw [List.map_map, List.map_map] at ran
  have snds : (fillerDims reduction input output).map
      (Prod.snd ∘ fun place => (Rule.trySplitSingleOnly outputRef (some place), place)) =
      fillerDims reduction input output := List.map_id _
  rw [snds] at ran
  exact ran

theorem Site.ran_pairs {current : ShardingProperty} {kepts : List Nat}
    (areKept : ∀ kept ∈ kepts, kept ∈ keptDims (reduction.reduced input.rank.toNat) ∧ kept ≠ dim)
    (loose : ∀ kept ∈ kepts, Loose current (reduction.place input.rank.toNat kept))
    (hasDevices : current.deviceIds ≠ []) :
    ((kepts.map fun kept => identicalPair kept (reduction.place input.rank.toNat kept)).map (Rule.dimGroup props)).foldlM
      Rule.after (heap.set outputRef current) =
      .ok (heap.set outputRef (current.singles (kepts.map (reduction.place input.rank.toNat)))) := by
  have inHeap := read_lt site.atOutput
  have ran := @run_singles current outputRef heap
    (kepts.map fun kept => (Rule.dimGroup props (identicalPair kept (reduction.place input.rank.toNat kept)),
      reduction.place input.rank.toNat kept))
    (by
      intro entry mem
      obtain ⟨kept, isMember, isEntry⟩ := List.mem_map.1 mem
      obtain ⟨isKept, ne⟩ := areKept kept isMember
      rw [← isEntry]
      exact makesSingle_identicalPair site.isInput site.isOutput site.atInput site.apart
        inHeap (site.split.spec_of_ne (Reduction.kept_lt isKept) ne) _)
    (by
      intro entry mem
      obtain ⟨kept, isMember, isEntry⟩ := List.mem_map.1 mem
      rw [← isEntry]
      exact loose kept isMember)
    hasDevices
  rw [List.map_map, List.map_map] at ran
  rw [List.map_map]
  exact ran

theorem Site.run_split {current : ShardingProperty} {spec : SplitSpec} (several : 1 < sizes.length)
    (atDim : input.splitSpecs[dim]? = some spec) (unset : current.splitSpecs[place]? = some {})
    (loose : ∀ other < current.rank.toNat, Loose current other) (sameDevices : current.deviceIds = output.deviceIds) :
    inferWithIdenticalDimGroup props (identicalPair dim place) (heap.set outputRef current) =
      .ok (true, heap.set outputRef (current.splitAlong place spec)) := by
  have inHeap := read_lt site.atOutput
  obtain ⟨stageOffsets, isSpec⟩ := site.split.atDim
  rw [atDim] at isSpec
  have isSize : spec.size = sizes.length := by rw [Option.some.inj isSpec]; rfl
  have isSet : spec.isInitialized = true := by rw [Option.some.inj isSpec]; rfl
  have stages : input.getStageOffsets = spec.stageOffsets := by
    apply getStageOffsets_of_only atDim (by omega)
    intro other found atOther ne
    rw [site.split.single other found atOther ne]
    rfl
  have splits : current.splitAt place spec = .ok (true, current.splitAlong place spec) := by
    apply splitAt_of_several unset rfl _ (by omega) _ _ (Nat.le_of_eq isSize.symm)
    · rw [sameDevices, site.sameDevices]
      exact site.split.hasDevices
    · intro other found atOther _
      have inside := read_lt atOther
      rw [current.specsMatchRank] at inside
      obtain ⟨old, atOld, isUnset | isSingle⟩ := loose other inside
      · rw [atOther] at atOld
        rw [Option.some.inj atOld, isUnset]
      · rw [atOther] at atOld
        rw [Option.some.inj atOld, isSingle]
        rfl
    · intro other isDevices isStages
      rw [← site.split.counted]
      exact getNumLogicalShards_congr (by rw [isDevices, sameDevices, site.sameDevices]) (by rw [isStages, stages])
  have atInput : (heap.set outputRef current)[inputRef]? = some input := by
    rw [List.getElem?_set_ne site.apart.symm, site.atInput]
  have ran := identicalPair_of_unset site.isInput site.isOutput atInput
    (List.getElem?_set_self inHeap) atDim isSet unset rfl splits
  rwa [List.set_set] at ran

theorem Site.ran_split {current : ShardingProperty} {spec : SplitSpec} (several : 1 < sizes.length)
    (atDim : input.splitSpecs[dim]? = some spec) (unset : current.splitSpecs[place]? = some {})
    (loose : ∀ other < current.rank.toNat, Loose current other) (sameDevices : current.deviceIds = output.deviceIds) :
    Rule.after (heap.set outputRef current) (.dimGroup props (identicalPair dim place)) =
      .ok (heap.set outputRef (current.splitAlong place spec)) :=
  Rule.after_eq (site.run_split several atDim unset loose sameDevices)

end

theorem splitAlong_self {current : ShardingProperty} {spec : SplitSpec} (inside : place < current.rank.toNat) :
    (current.splitAlong place spec).splitSpecs[place]? = some (current.rescaled place spec) := by
  rw [← current.specsMatchRank] at inside
  change ((current.splitSpecs.set place _).mapIdx _)[place]? = _
  rw [List.getElem?_mapIdx, List.getElem?_set_self inside]
  simp

theorem splitAlong_other {current : ShardingProperty} {other : Nat} {spec : SplitSpec}
    (loose : Loose current other) (ne : other ≠ place) :
    (current.splitAlong place spec).splitSpecs[other]? = some .buildSingleSplit := by
  obtain ⟨old, atOther, isLoose⟩ := loose
  change ((current.splitSpecs.set place _).mapIdx _)[other]? = _
  rw [List.getElem?_mapIdx, List.getElem?_set_ne ne.symm, atOther, Option.map_some]
  rcases isLoose with isUnset | isSingle
  · rw [isUnset, if_pos ⟨ne, rfl⟩]
  · rw [isSingle]
    simp

section

variable (site : Site reduction props heap dim sizes inputRef outputRef others input output)

include site

theorem Site.ran_contracting {current : ShardingProperty} {contracting : List DimGroup} (noPostOps : current.postOps = [])
    (isContracting : if (reduction.reduced input.rank.toNat)[dim]? = some true then
        ∃ dims, contracting = [contractingGroup reduction.op.contractionType (dim :: dims)]
      else contracting = []) :
    (contracting.map (Rule.dimGroup props)).foldlM Rule.after (heap.set outputRef current) =
      .ok (heap.set outputRef (current.appendPostOps
        (if (reduction.reduced input.rank.toNat)[dim]? = some true then
          contractionPostOps reduction.op.contractionType input.shardRatios else []))) := by
  have inHeap := read_lt site.atOutput
  by_cases isReduced : (reduction.reduced input.rank.toNat)[dim]? = some true
  · rw [if_pos isReduced] at isContracting ⊢
    obtain ⟨dims, isGroup⟩ := isContracting
    have atInput : (heap.set outputRef current)[inputRef]? = some input := by
      rw [List.getElem?_set_ne site.apart.symm, site.atInput]
    have ran := site.split.contracting site.isInput site.isOutput atInput
      (List.getElem?_set_self inHeap) noPostOps reduction.op.contractionType dims
    rw [List.set_set] at ran
    rw [isGroup, List.map_singleton, List.foldlM_cons, ran]
    rfl
  · rw [if_neg isReduced] at isContracting ⊢
    have unchanged : current.appendPostOps [] = current := by
      unfold appendPostOps
      rw [List.append_nil]
    rw [isContracting, unchanged]
    rfl

theorem Site.ran_of {first second third : ShardingProperty}
    (ranFirst : Rule.after heap (.allInputsSingleSplitOnly props) = .ok (heap.set outputRef first))
    (sameRank : first.rank = output.rank)
    (ranFillers : ((fillerDims reduction input output).map fun place => Rule.trySplitSingleOnly outputRef (some place)).foldlM
      Rule.after (heap.set outputRef first) = .ok (heap.set outputRef second))
    (ranPairs : (((keptDims (reduction.reduced input.rank.toNat)).map (fun kept =>
      identicalPair kept (reduction.place input.rank.toNat kept))).map (Rule.dimGroup props)).foldlM
      Rule.after (heap.set outputRef second) = .ok (heap.set outputRef third))
    (noPostOps : third.postOps = []) :
    ∃ changed, (reductionInfer reduction props heap).run heap = .ok (changed, heap.set outputRef
      (third.appendPostOps (if (reduction.reduced input.rank.toNat)[dim]? = some true then
        contractionPostOps reduction.op.contractionType input.shardRatios else []))) := by
  obtain ⟨contracting, isGroups, isContracting⟩ := site.groups sameRank reduction.op.contractionType
  apply site.run_of ranFirst sameRank ranFillers isGroups
  rw [List.map_append, List.foldlM_append, ranPairs]
  exact site.ran_contracting noPostOps isContracting

theorem Site.loose_singles (dims : List Nat) (inside : place < output.rank.toNat) : Loose (output.singles dims) place :=
  (site.fresh.loose inside).singles dims

end

theorem singles_frame (prop : ShardingProperty) (dims : List Nat) :
    (prop.singles dims).rank = prop.rank ∧ (prop.singles dims).deviceIds = prop.deviceIds ∧
      (prop.singles dims).postOps = prop.postOps ∧
      (prop.singles dims).singleSplitOnlyStageOffsets = prop.singleSplitOnlyStageOffsets ∧
      (prop.singles dims).shape = prop.shape ∧ (prop.singles dims).orderedSplitDims = prop.orderedSplitDims := by
  rw [singles_eq]
  exact ⟨rfl, rfl, rfl, rfl, rfl, rfl⟩

section

variable (site : Site reduction props heap dim sizes inputRef outputRef others input output) {spec : SplitSpec}

include site

theorem Site.inferred_of_singles {dims : List Nat} (covered : ∀ place < output.rank.toNat, place ∈ dims)
    (notSplit : ¬ (1 < spec.size ∧ (reduction.reduced input.rank.toNat)[dim]? = some false)) :
    Inferred reduction dim spec input output ((output.singles dims).appendPostOps
      (if (reduction.reduced input.rank.toNat)[dim]? = some true then
        contractionPostOps reduction.op.contractionType input.shardRatios else [])) ∧
      ((output.singles dims).appendPostOps (if (reduction.reduced input.rank.toNat)[dim]? = some true then
        contractionPostOps reduction.op.contractionType input.shardRatios else [])).singleSplitOnlyStageOffsets = [] := by
  obtain ⟨rank, devices, postOps, unstaged, _, ordered⟩ := singles_frame output dims
  refine ⟨⟨rank, devices, ?_, ?_, ?_⟩, unstaged.trans site.fresh.noStages⟩
  · rw [if_neg notSplit]
    exact ordered.trans site.fresh.unordered
  · unfold appendPostOps
    rw [postOps, site.fresh.noPostOps, List.nil_append]
  · intro place inside
    change (output.singles dims).splitSpecs[place]? = _
    rw [if_neg fun split => notSplit ⟨split.1, split.2.1⟩]
    exact singles_spec inside (covered place inside)

theorem Site.inferred_of_kept (atDim : input.splitSpecs[dim]? = some spec) (several : 1 < sizes.length)
    (flag : (reduction.reduced input.rank.toNat)[dim]? = some false)
    (ranFirst : Rule.after heap (.allInputsSingleSplitOnly props) = .ok (heap.set outputRef output)) :
    ∃ changed result, (reductionInfer reduction props heap).run heap = .ok (changed, heap.set outputRef result) ∧
      Inferred reduction dim spec input output result ∧ result.singleSplitOnlyStageOffsets = [] := by
  have hasDevices : output.deviceIds ≠ [] := site.sameDevices ▸ site.split.hasDevices
  have isSize : spec.size = sizes.length := by
    obtain ⟨stageOffsets, isSpec⟩ := site.split.atDim
    rw [atDim] at isSpec
    rw [Option.some.inj isSpec]
    rfl
  have isKept : dim ∈ keptDims (reduction.reduced input.rank.toNat) := mem_keptDims.2 flag
  obtain ⟨before, after, parted⟩ := List.append_of_mem isKept
  have areKept : ∀ kept ∈ before ++ dim :: after, kept ∈ keptDims (reduction.reduced input.rank.toNat) := by
    rw [parted]
    exact fun kept => id
  have nodup := site.places_nodup
  rw [parted, List.map_append, List.map_cons, List.nodup_append, List.nodup_cons] at nodup
  have beforeNe : ∀ kept ∈ before, reduction.place input.rank.toNat kept ≠ reduction.place input.rank.toNat dim :=
    fun kept mem => nodup.2.2 _ (List.mem_map_of_mem mem) _ List.mem_cons_self
  have afterNe : reduction.place input.rank.toNat dim ∉ after.map (reduction.place input.rank.toNat) := nodup.2.1.1
  obtain ⟨inside, notFiller⟩ := site.place_of_kept isKept
  generalize isPlace : reduction.place input.rank.toNat dim = place at inside notFiller beforeNe afterNe
  -- The dims before the split one.
  have ranBefore := @Site.ran_pairs reduction props heap dim sizes inputRef outputRef others input output site
    (output.singles (fillerDims reduction input output)) before
    (by
      intro kept mem
      refine ⟨areKept kept (List.mem_append_left _ mem), fun same => ?_⟩
      exact beforeNe kept mem (by rw [same, isPlace]))
    (fun kept mem => site.loose_singles _ (site.place_of_kept (areKept kept (List.mem_append_left _ mem))).1)
    (by
      rw [(singles_frame _ _).2.1]
      exact hasDevices)
  rw [← singles_append] at ranBefore
  generalize isListed : fillerDims reduction input output ++ before.map (reduction.place input.rank.toNat) = listed
    at ranBefore
  obtain ⟨rank, devices, postOps, unstaged, shape, ordered⟩ := singles_frame output listed
  have unset : (output.singles listed).splitSpecs[place]? = some {} := by
    rw [getElem?_singles, if_neg, site.fresh.spec inside]
    grind
  have loose : ∀ other < output.rank.toNat, Loose (output.singles listed) other := fun other => site.loose_singles listed
  have ranSplit := site.ran_split several atDim unset (fun other isInside => loose other (rank ▸ isInside)) devices
  -- The dims after it are single by now.
  have looseAfter : ∀ kept ∈ after, Loose ((output.singles listed).splitAlong place spec)
      (reduction.place input.rank.toNat kept) := by
    intro kept mem
    refine ⟨_, splitAlong_other (loose _ ?_) ?_, .inr rfl⟩
    · exact (site.place_of_kept (areKept kept (List.mem_append_right _ (List.mem_cons_of_mem _ mem)))).1
    · intro same
      exact afterNe (same ▸ List.mem_map_of_mem mem)
  have ranAfter := @Site.ran_pairs reduction props heap dim sizes inputRef outputRef others input output site
    ((output.singles listed).splitAlong place spec) after
    (by
      intro kept mem
      refine ⟨areKept kept (List.mem_append_right _ (List.mem_cons_of_mem _ mem)), fun same => ?_⟩
      apply afterNe
      rw [← isPlace, ← same]
      exact List.mem_map_of_mem mem)
    looseAfter (devices ▸ hasDevices)
  have ranPairs : (((keptDims (reduction.reduced input.rank.toNat)).map (fun kept =>
      identicalPair kept (reduction.place input.rank.toNat kept))).map (Rule.dimGroup props)).foldlM Rule.after
      (heap.set outputRef (output.singles (fillerDims reduction input output))) = .ok (heap.set outputRef
        (((output.singles listed).splitAlong place spec).singles (after.map (reduction.place input.rank.toNat)))) := by
    rw [parted, List.map_append, List.map_append, List.map_cons, List.map_cons, List.foldlM_append, ranBefore, isPlace]
    change List.foldlM _ (heap.set outputRef (output.singles listed)) _ = _
    rw [List.foldlM_cons, ranSplit]
    exact ranAfter
  obtain ⟨changed, ran⟩ := site.ran_of ranFirst rfl site.ran_fillers ranPairs
    ((singles_frame _ _).2.2.1.trans (postOps.trans site.fresh.noPostOps))
  refine ⟨changed, _, ran, ?_⟩
  obtain ⟨rank', devices', postOps', unstaged', _, ordered'⟩ := singles_frame ((output.singles listed).splitAlong place spec)
    (after.map (reduction.place input.rank.toNat))
  refine ⟨⟨rank'.trans rank, devices'.trans devices, ?_, ?_, ?_⟩, (unstaged'.trans unstaged).trans site.fresh.noStages⟩
  · have isSplit : 1 < spec.size ∧ (reduction.reduced input.rank.toNat)[dim]? = some false := ⟨by omega, flag⟩
    rw [if_pos isSplit, isPlace]
    apply ordered'.trans
    change (output.singles listed).orderedSplitDims ++ [place] = [place]
    rw [ordered, site.fresh.unordered, List.nil_append]
  · unfold appendPostOps
    rw [postOps', show ((output.singles listed).splitAlong place spec).postOps = [] from
      postOps.trans site.fresh.noPostOps, List.nil_append]
  · intro other isInside
    change (ShardingProperty.singles _ _).splitSpecs[other]? = _
    rw [getElem?_singles]
    by_cases isOther : other = place
    · rw [if_neg (isOther ▸ afterNe), if_pos ⟨by omega, flag, by rw [isOther, isPlace]⟩, isOther,
        splitAlong_self (by rw [rank]; exact inside)]
      unfold rescaled
      rw [shape]
    · have notSplit : ¬ (1 < spec.size ∧ (reduction.reduced input.rank.toNat)[dim]? = some false ∧
          other = reduction.place input.rank.toNat dim) := fun split => isOther (split.2.2.trans isPlace)
      rw [splitAlong_other (loose other isInside) isOther, if_neg notSplit]
      split
      · rfl
      · rfl

theorem Site.inferred (atDim : input.splitSpecs[dim]? = some spec) :
    ∃ changed result, (reductionInfer reduction props heap).run heap = .ok (changed, heap.set outputRef result) ∧
      Inferred reduction dim spec input output result ∧ result.singleSplitOnlyStageOffsets = [] := by
  have isSize : spec.size = sizes.length := by
    obtain ⟨stageOffsets, isSpec⟩ := site.split.atDim
    rw [atDim] at isSpec
    rw [Option.some.inj isSpec]
    rfl
  have hasDevices : output.deviceIds ≠ [] := site.sameDevices ▸ site.split.hasDevices
  have ranFirst := site.ranFirst
  by_cases isOne : sizes.length = 1
  · rw [if_pos isOne] at ranFirst
    have singles : ∀ place < output.rank.toNat,
        (output.singles (List.range output.rank.toNat)).splitSpecs[place]? = some .buildSingleSplit :=
      fun place inside => singles_spec inside (List.mem_range.2 inside)
    obtain ⟨rank, devices, postOps, _⟩ := singles_frame output (List.range output.rank.toNat)
    obtain ⟨ranFillers, ranPairs⟩ := site.ran_onePiece singles (devices ▸ hasDevices)
    obtain ⟨changed, ran⟩ := site.ran_of ranFirst rank ranFillers ranPairs (postOps.trans site.fresh.noPostOps)
    refine ⟨changed, _, ran, site.inferred_of_singles (fun place => List.mem_range.2) ?_⟩
    rw [isSize, isOne]
    exact fun split => absurd split.1 (Nat.lt_irrefl 1)
  rw [if_neg isOne] at ranFirst
  have several : 1 < sizes.length := by
    have := List.length_pos_iff.2 site.split.nonempty
    omega
  have ranFillers := site.ran_fillers
  obtain ⟨rank, devices, _⟩ := singles_frame output (fillerDims reduction input output)
  cases flag : (reduction.reduced input.rank.toNat)[dim]? with
  | none =>
    rw [List.getElem?_eq_none_iff, Reduction.length_reduced] at flag
    exact absurd site.split.lt_rank (Nat.not_lt.2 flag)
  | some isReduced =>
    cases isReduced with
    | true =>
      have ranPairs := @Site.ran_pairs reduction props heap dim sizes inputRef outputRef others input output site
        (output.singles (fillerDims reduction input output)) (keptDims (reduction.reduced input.rank.toNat))
        (by
          intro kept isKept
          refine ⟨isKept, fun same => ?_⟩
          rw [mem_keptDims, same, flag] at isKept
          cases isKept)
        (fun kept isKept => site.loose_singles _ (site.place_of_kept isKept).1) (devices ▸ hasDevices)
      rw [← singles_append] at ranPairs
      obtain ⟨changed, ran⟩ := site.ran_of ranFirst rfl ranFillers ranPairs
        ((singles_frame _ _).2.2.1.trans site.fresh.noPostOps)
      refine ⟨changed, _, ran, site.inferred_of_singles ?_ ?_⟩
      · intro place inside
        exact List.mem_append.2 (site.covered inside)
      · rw [flag]
        exact fun split => absurd split.2 (by simp)
    | false => exact site.inferred_of_kept atDim several flag ranFirst

end

section

variable (site : Site reduction props heap dim sizes inputRef outputRef others input output)

include site

theorem Inferred.isSplitSingleOnly {spec : SplitSpec} (inferred : Inferred reduction dim spec input output result)
    (notSplit : ¬ (1 < spec.size ∧ (reduction.reduced input.rank.toNat)[dim]? = some false)) :
    result.isSplitSingleOnly = true := by
  have singles : ∀ found ∈ result.splitSpecs, found = .buildSingleSplit := by
    intro found mem
    obtain ⟨place, atPlace⟩ := List.mem_iff_getElem?.1 mem
    have bound := read_lt atPlace
    rw [result.specsMatchRank, inferred.rank] at bound
    rw [inferred.specs place bound, if_neg fun isSplit => notSplit ⟨isSplit.1, isSplit.2.1⟩] at atPlace
    exact (Option.some.inj atPlace).symm
  apply isSplitSingleOnly_of_onePiece
  · rw [inferred.devices, site.sameDevices]
    exact site.split.hasDevices
  · intro found mem
    rw [singles found mem]
    exact ⟨rfl, rfl⟩

theorem Inferred.follows {spec : SplitSpec} (atDim : input.splitSpecs[dim]? = some spec)
    (inferred : Inferred reduction dim spec input output result)
    (unstaged : result.singleSplitOnlyStageOffsets = []) : Follows input result := by
  refine ⟨inferred.devices.trans site.sameDevices, ?_⟩
  by_cases split : 1 < spec.size ∧ (reduction.reduced input.rank.toNat)[dim]? = some false
  · left
    have inside := (site.place_of_kept (mem_keptDims.2 split.2)).1
    have atPlace := inferred.specs _ inside
    rw [if_pos ⟨split.1, split.2, rfl⟩] at atPlace
    have stages : input.getStageOffsets = spec.stageOffsets := by
      apply getStageOffsets_of_only atDim split.1
      intro other found atOther ne
      rw [site.split.single other found atOther ne]
      rfl
    rw [stages, getStageOffsets_of_only atPlace (by rw [rescaled_size]; exact split.1), rescaled_stageOffsets]
    intro other found atOther ne
    have bound := read_lt atOther
    rw [result.specsMatchRank, inferred.rank] at bound
    rw [inferred.specs other bound, if_neg fun isPlace => ne isPlace.2.2] at atOther
    rw [← Option.some.inj atOther]
    rfl
  · exact .inr ⟨inferred.isSplitSingleOnly site split, unstaged⟩

/-- Aligning gives a result that follows the operand its stages, and nothing changes after
that. -/
theorem Site.align {inferred : ShardingProperty} (follows : Follows input inferred) :
    ∃ aligned heap', alignSingleSplitStageOffsets props (heap.set outputRef inferred) = .ok (aligned, heap') ∧
      heap'[inputRef]? = some input ∧ heap'[outputRef]? = some (inferred.restaged input.getStageOffsets) ∧
      (∀ other ∈ others, ∃ prop, heap'[other]? = some prop ∧ prop.deviceIds = input.deviceIds ∧
        prop.getStageOffsets = input.getStageOffsets) ∧
      alignSingleSplitStageOffsets props heap' = .ok (false, heap') := by
  have inHeap := read_lt site.atOutput
  have atInput : (heap.set outputRef inferred)[inputRef]? = some input := by
    rw [List.getElem?_set_ne site.apart.symm, site.atInput]
  have atOutput : (heap.set outputRef inferred)[outputRef]? = some inferred := List.getElem?_set_self inHeap
  have followers : ∀ ref ∈ others ++ [outputRef], ∃ prop, (heap.set outputRef inferred)[ref]? = some prop ∧
      Follows input prop := by
    intro ref mem
    rcases List.mem_append.1 mem with isOther | isOutput
    · obtain ⟨apart, prop, atOther, single, noStages, sameDevices⟩ := site.constants ref isOther
      refine ⟨prop, ?_, sameDevices, .inr ⟨single, noStages⟩⟩
      rw [List.getElem?_set_ne apart.symm, atOther]
    · rw [List.mem_singleton.1 isOutput]
      exact ⟨inferred, atOutput, follows⟩
  have refs : props.inputs ++ props.outputs = inputRef :: (others ++ [outputRef]) := by
    rw [site.inputs, site.outputs]
    rfl
  have pos : 0 < input.getNumLogicalShards := by
    rw [site.split.counted]
    exact List.length_pos_iff.2 site.split.nonempty
  obtain ⟨aligned, heap', aligns, atRef⟩ := alignSingleSplitStageOffsets_of_leader refs atInput
    site.split.isInitialized pos (by
      intro ref mem
      obtain ⟨prop, found, isFollower⟩ := followers ref mem
      exact ⟨prop, found, isFollower.fewer site.split.perDevice site.split.staged⟩)
  have restagedInput : input.restaged input.getStageOffsets = input := by
    by_cases single : input.isSplitSingleOnly = true ∧ input.singleSplitOnlyStageOffsets = []
    · rw [(getStageOffsets_of_single single.1).trans single.2, restaged_nil]
    · exact if_neg single
  have atInput' : heap'[inputRef]? = some input := by
    rw [atRef, atInput, Option.map_some, if_pos List.mem_cons_self, restagedInput]
  have agree : ∀ ref ∈ others ++ [outputRef], ∃ prop, heap'[ref]? = some prop ∧ prop.deviceIds = input.deviceIds ∧
      prop.getStageOffsets = input.getStageOffsets := by
    intro ref mem
    obtain ⟨prop, found, isFollower⟩ := followers ref mem
    refine ⟨prop.restaged input.getStageOffsets, ?_, restaged_frame.2.1.trans isFollower.devices, isFollower.restaged⟩
    rw [atRef, found, Option.map_some, if_pos (List.mem_cons_of_mem _ mem)]
  refine ⟨aligned, heap', aligns, atInput', ?_, fun other mem => agree other (List.mem_append_left _ mem), ?_⟩
  · rw [atRef, atOutput, Option.map_some, if_pos (by simp)]
  · obtain ⟨changed, heap'', aligns', atRef'⟩ := alignSingleSplitStageOffsets_of_leader refs atInput'
      site.split.isInitialized pos (by
        intro ref mem
        obtain ⟨prop, found, sameDevices, sameStages⟩ := agree ref mem
        exact ⟨prop, found, Nat.le_of_eq (getNumLogicalShards_congr sameDevices sameStages)⟩)
    have unchanged : heap'' = heap' := by
      apply List.ext_getElem?
      intro ref
      rw [atRef', atRef]
      cases (heap.set outputRef inferred)[ref]? with
      | none => rfl
      | some prop =>
        rw [Option.map_some, Option.map_some]
        split
        · rw [restaged_restaged]
        · rfl
    have grows := alignSingleSplitStageOffsets_grows aligns'
    cases changed with
    | false => rw [aligns', unchanged]
    | true =>
      rw [unchanged] at grows
      exact absurd (grows.2 rfl) (Nat.lt_irrefl _)

end

theorem Inferred.restaged {spec : SplitSpec}
    (inferred : Inferred reduction dim spec input output result) (stageOffsets : List Nat) :
    Inferred reduction dim spec input output (result.restaged stageOffsets) := by
  obtain ⟨specs, devices, postOps, rank, ordered, _⟩ := @restaged_frame result stageOffsets
  refine ⟨rank.trans inferred.rank, devices.trans inferred.devices, ordered.trans inferred.ordered,
    postOps.trans inferred.postOps, ?_⟩
  intro place inside
  rw [specs]
  exact inferred.specs place inside

/-- Inference returns: the result is split like the operand or single split, and all
properties of the op have the devices and the stages of the operand. -/
theorem Site.infer (site : Site reduction props heap dim sizes inputRef outputRef others input output)
    {spec : SplitSpec} (atDim : input.splitSpecs[dim]? = some spec) :
    ∃ changed heap' result, Hsp.infer (reductionInfer reduction props) props heap = .ok (changed, heap') ∧
      heap'[inputRef]? = some input ∧ heap'[outputRef]? = some result ∧
      Inferred reduction dim spec input output result ∧ result.getStageOffsets = input.getStageOffsets ∧
      ∀ other ∈ others, ∃ prop, heap'[other]? = some prop ∧ prop.deviceIds = input.deviceIds ∧
        prop.getStageOffsets = input.getStageOffsets := by
  obtain ⟨changed, inferred, ran, isInferred, unstaged⟩ := site.inferred atDim
  obtain ⟨aligned, heap', aligns, atInput, atOutput, agree, _⟩ := site.align (isInferred.follows site atDim unstaged)
  refine ⟨changed || aligned, heap', inferred.restaged input.getStageOffsets,
    bind_ok.2 ⟨_, ran, bind_ok.2 ⟨_, aligns, rfl⟩⟩, atInput, atOutput, isInferred.restaged _,
    (isInferred.follows site atDim unstaged).restaged, agree⟩

end Run

end Itex.XpuAutoShard.Hsp
