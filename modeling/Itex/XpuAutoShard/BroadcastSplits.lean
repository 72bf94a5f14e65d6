import Itex.XpuAutoShard.Elementwise

/-!
Contract: the splits that an elementwise operation gives to the dims that broadcast
together.

Owns: one dim group of the operation, and the splits once all groups are aligned.
-/

namespace Itex.XpuAutoShard.Hsp

open Itex.Lib
open Itex.XpuAutoShard.Hsp.ShardingProperty

section OneProperty

variable {prop aligned set : ShardingProperty} {splitSpec old : SplitSpec} {dims : List Nat} {dim : Nat}

theorem alignDim_of_set (atDim : prop.splitSpecs[dim]? = some old) (isSet : old.isInitialized = true) :
    alignDim splitSpec prop dim = .ok prop :=
  alignDim_eq_ok.2 (.inl ⟨by rw [isSplitAt_of_spec atDim, isSet], rfl⟩)

theorem alignDims_of_set (only : ∀ d ∈ dims, d = dim) (atDim : prop.splitSpecs[dim]? = some old)
    (isSet : old.isInitialized = true) : dims.foldlM (alignDim splitSpec) prop = .ok prop := by
  induction dims with
  | nil => rfl
  | cons first dims ih =>
    rw [List.foldlM_cons, only first List.mem_cons_self, bind_ok]
    exact ⟨prop, alignDim_of_set atDim isSet, ih fun d mem => only d (List.mem_cons_of_mem _ mem)⟩

/-- The first of the dims takes the split, and the others find it there. -/
theorem alignDims_of_unset (only : ∀ d ∈ dims, d = dim) (nonempty : dims ≠ [])
    (atDim : prop.splitSpecs[dim]? = some old) (unset : old.isInitialized = false)
    (splits : prop.splitAt dim splitSpec = .ok (true, set)) {placed : SplitSpec}
    (atPlaced : set.splitSpecs[dim]? = some placed) (isSet : placed.isInitialized = true) :
    dims.foldlM (alignDim splitSpec) prop = .ok set := by
  cases dims with
  | nil => exact absurd rfl nonempty
  | cons first dims =>
    rw [List.foldlM_cons, only first List.mem_cons_self, bind_ok]
    refine ⟨set, alignDim_eq_ok.2 (.inr ⟨by rw [isSplitAt_of_spec atDim, unset], splits⟩), ?_⟩
    exact alignDims_of_set (fun d mem => only d (List.mem_cons_of_mem _ mem)) atPlaced isSet

theorem alignDims_single (only : ∀ d ∈ dims, d = dim) (atDim : prop.splitSpecs[dim]? = some old)
    (isOld : old = {} ∨ old = .buildSingleSplit) (hasDevices : prop.deviceIds ≠ [])
    (ran : dims.foldlM (alignDim .buildSingleSplit) prop = .ok aligned) :
    aligned = prop ∨ aligned = prop.placeAt dim .buildSingleSplit := by
  by_cases isEmpty : dims = []
  · rw [isEmpty] at ran
    cases ran
    exact .inl rfl
  rcases isOld with isUnset | isSingle
  · rw [isUnset] at atDim
    have splits := @splitAt_of_unset _ _ .buildSingleSplit _ atDim rfl hasDevices (by decide)
    rw [rescaled_single] at splits
    have bound := read_lt atDim
    rw [alignDims_of_unset only isEmpty atDim rfl splits (List.getElem?_set_self bound) rfl] at ran
    cases ran
    exact .inr rfl
  · rw [isSingle] at atDim
    rw [alignDims_of_set only atDim rfl] at ran
    cases ran
    exact .inl rfl

end OneProperty

/-- All but the splits is as before. -/
structure SameTensor (start cur : ShardingProperty) : Prop where
  rank : cur.rank = start.rank
  shape : cur.shape = start.shape
  deviceIds : cur.deviceIds = start.deviceIds

/-- The split has not reached the property; it has single splits at most. -/
structure Untouched (start cur : ShardingProperty) (awaits : Nat → Prop) : Prop where
  same : SameTensor start cur
  unordered : cur.orderedSplitDims = []
  loose : ∀ (dim : Nat) (spec : SplitSpec), cur.splitSpecs[dim]? = some spec → spec = {} ∨ spec = .buildSingleSplit
  unset : ∀ dim, awaits dim → cur.splitSpecs[dim]? = some {}

structure Taken (start cur : ShardingProperty) (dim : Nat) (splitSpec : SplitSpec) : Prop where
  same : SameTensor start cur
  ordered : cur.orderedSplitDims = [dim]
  atDim : cur.splitSpecs[dim]? = some (start.rescaled dim splitSpec)
  single : ∀ (other : Nat) (spec : SplitSpec), cur.splitSpecs[other]? = some spec → other ≠ dim → spec = .buildSingleSplit

section OneStep

variable {start cur : ShardingProperty} {awaits : Nat → Prop} {dim : Nat} {splitSpec : SplitSpec}

theorem Untouched.placeAt (before : Untouched start cur awaits) (notAwaited : ¬ awaits dim) :
    Untouched start (cur.placeAt dim .buildSingleSplit) awaits := by
  refine ⟨⟨before.same.rank, before.same.shape, before.same.deviceIds⟩, before.unordered, ?_, ?_⟩
  · intro other spec atOther
    change (cur.splitSpecs.set dim _)[other]? = _ at atOther
    rw [List.getElem?_set] at atOther
    split at atOther
    · split at atOther
      · exact .inr (Option.some.inj atOther).symm
      · cases atOther
    · exact before.loose other spec atOther
  · intro other awaited
    change (cur.splitSpecs.set dim _)[other]? = _
    rw [List.getElem?_set_ne]
    · exact before.unset other awaited
    · rintro rfl
      exact notAwaited awaited

theorem Untouched.splitAt (before : Untouched start cur awaits) (awaited : awaits dim)
    (hasDevices : start.deviceIds ≠ []) (several : 1 < splitSpec.size)
    (counted : ∀ other : ShardingProperty, other.deviceIds = start.deviceIds →
      other.getStageOffsets = splitSpec.stageOffsets → other.getNumLogicalShards = splitSpec.size) :
    ∃ set, cur.splitAt dim splitSpec = .ok (true, set) ∧ Taken start set dim splitSpec := by
  have atDim := before.unset dim awaited
  have bound := read_lt atDim
  have rescaledSame : cur.rescaled dim splitSpec = start.rescaled dim splitSpec := by
    unfold rescaled
    rw [before.same.shape]
  refine ⟨cur.splitAlong dim splitSpec, ?_, ⟨before.same.rank, before.same.shape, before.same.deviceIds⟩, ?_, ?_, ?_⟩
  · apply splitAt_of_several atDim rfl _ several _ _ (Nat.le_refl splitSpec.size)
    · rwa [before.same.deviceIds]
    · intro other found atOther _
      rcases before.loose other found atOther with isUnset | isSingle
      · rw [isUnset]
      · rw [isSingle]
        rfl
    · intro other sameDevices
      rw [before.same.deviceIds] at sameDevices
      exact counted other sameDevices
  · change cur.orderedSplitDims ++ [dim] = [dim]
    rw [before.unordered]
    rfl
  · change ((cur.splitSpecs.set dim _).mapIdx _)[dim]? = _
    rw [List.getElem?_mapIdx, List.getElem?_set_self bound, rescaledSame]
    simp
  · intro other spec atOther ne
    change ((cur.splitSpecs.set dim _).mapIdx _)[other]? = _ at atOther
    rw [List.getElem?_mapIdx, List.getElem?_set_ne ne.symm, Option.map_eq_some_iff] at atOther
    obtain ⟨found, atFound, isSpec⟩ := atOther
    rw [← isSpec]
    rcases before.loose other found atFound with isUnset | isSingle
    · rw [isUnset, if_pos ⟨ne, rfl⟩]
    · rw [isSingle]
      split <;> rfl

end OneStep

section Groups

variable {props : OpProps} {heap : Heap} {ref : Slot → Nat} {prop : Slot → ShardingProperty}
  {extents : Slot → List Nat} {source : Slot} {dim : Nat} {sizes : List Int}

/-- The dim of an operand or of the result that is `back` dims before its last one. -/
def placeOf (extents : Slot → List Nat) (slot : Slot) (back : Nat) : Nat := (extents slot).length - 1 - back

/-- The properties after the groups of the first dims. -/
structure Reached (heap : Heap) (ref : Slot → Nat) (prop : Slot → ShardingProperty) (extents : Slot → List Nat)
    (source : Slot) (back : Nat) (splitSpec : SplitSpec) (n : Nat) : Prop where
  atSource : ∀ slot, ref slot = ref source → heap[ref slot]? = some (prop source)
  taken : ∀ slot, ref slot ≠ ref source → back < (extents slot).length → placeOf extents .result back < n →
    ∃ cur, heap[ref slot]? = some cur ∧ Taken (prop slot) cur (placeOf extents slot back) splitSpec
  untouched : ∀ slot, ref slot ≠ ref source → ¬ (back < (extents slot).length ∧ placeOf extents .result back < n) →
    ∃ cur, heap[ref slot]? = some cur ∧
      Untouched (prop slot) cur fun d => back < (extents slot).length ∧ d = placeOf extents slot back

section

variable (site : BroadcastSite props heap ref prop extents source dim sizes)

include site

theorem BroadcastSite.mem_items {i : Nat}
    (bound : i < (extents .result).length) {item : DimItem} (mem : item ∈ broadcastItems extents i) :
    ∃ slot, (extents .result).length - 1 - i < (extents slot).length ∧
      item.dim = placeOf extents slot ((extents .result).length - 1 - i) ∧ props.refOf item = .ok (ref slot) := by
  unfold broadcastItems at mem
  simp only [List.mem_append, List.mem_singleton] at mem
  rcases mem with (isLeft | isRight) | isResult
  · split at isLeft
    next has =>
      rw [List.mem_singleton.1 isLeft]
      refine ⟨.left, has, rfl, ?_⟩
      unfold OpProps.refOf
      rw [site.inputs]
      rfl
    next => cases isLeft
  · split at isRight
    next has =>
      rw [List.mem_singleton.1 isRight]
      refine ⟨.right, has, rfl, ?_⟩
      unfold OpProps.refOf
      rw [site.inputs]
      rfl
    next => cases isRight
  · rw [isResult]
    refine ⟨.result, by omega, ?_, ?_⟩
    · unfold placeOf
      dsimp only
      omega
    · unfold OpProps.refOf
      rw [site.outputs]
      rfl

theorem BroadcastSite.exists_item {i : Nat} (bound : i < (extents .result).length) {slot : Slot}
    (has : (extents .result).length - 1 - i < (extents slot).length) :
    ∃ item ∈ broadcastItems extents i, item.dim = placeOf extents slot ((extents .result).length - 1 - i) ∧
      props.refOf item = .ok (ref slot) := by
  unfold broadcastItems OpProps.refOf
  rw [site.inputs, site.outputs]
  cases slot with
  | left => exact ⟨⟨true, 0, placeOf extents .left _⟩, by simp [has, placeOf], rfl, rfl⟩
  | right => exact ⟨⟨true, 1, placeOf extents .right _⟩, by simp [has, placeOf], rfl, rfl⟩
  | result =>
    refine ⟨⟨false, 0, i⟩, by simp, ?_, rfl⟩
    unfold placeOf
    dsimp only
    omega

theorem BroadcastSite.length_of_ref {slot other : Slot} (same : ref slot = ref other) : (extents slot).length = (extents other).length := by
  have atSlot := site.atRef slot
  rw [same, site.atRef other] at atSlot
  have ranks := site.rank slot
  rw [← Option.some.inj atSlot, site.rank other] at ranks
  exact_mod_cast ranks.symm

theorem BroadcastSite.dimsOn_items {i : Nat}
    (bound : i < (extents .result).length) (slot : Slot) : (∀ d ∈ props.dimsOn (ref slot) (broadcastItems extents i),
      (extents .result).length - 1 - i < (extents slot).length ∧
        d = placeOf extents slot ((extents .result).length - 1 - i)) ∧
    ((extents .result).length - 1 - i < (extents slot).length →
      props.dimsOn (ref slot) (broadcastItems extents i) ≠ []) := by
  constructor
  · intro d mem
    obtain ⟨item, isItem, isRef, isDim⟩ := OpProps.mem_dimsOn.1 mem
    obtain ⟨other, has, atPlace, otherRef⟩ := site.mem_items bound isItem
    rw [isRef] at otherRef
    have sameLength := site.length_of_ref (Except.ok.inj otherRef)
    unfold placeOf at atPlace ⊢
    omega
  · intro has isEmpty
    obtain ⟨item, isItem, isDim, isRef⟩ := site.exists_item bound has
    have mem := OpProps.mem_dimsOn.2 ⟨item, isItem, isRef, rfl⟩
    rw [isEmpty] at mem
    cases mem

theorem BroadcastSite.backOf_lt :
    backOf extents source dim < (extents source).length ∧ placeOf extents source (backOf extents source dim) = dim := by
  have sums := site.sums
  rw [Option.map_eq_some_iff] at sums
  obtain ⟨extent, atDim, _⟩ := sums
  have bound := read_lt atDim
  unfold placeOf backOf
  omega

theorem BroadcastSite.start (splitSpec : SplitSpec) : Reached heap ref prop extents source (backOf extents source dim) splitSpec 0 := by
  refine ⟨?_, ?_, ?_⟩
  · intro slot same
    rw [same]
    exact site.atRef source
  · intro slot _ _ early
    omega
  · intro slot other _
    have fresh := (site.fresh slot other).1
    refine ⟨prop slot, site.atRef slot, ⟨rfl, rfl, rfl⟩, fresh.unordered, ?_, ?_⟩
    · intro d spec atDim
      exact .inl (fresh.unset d spec atDim)
    · intro d awaited
      apply fresh.spec
      have isRank := site.rank slot
      unfold placeOf at awaited
      omega

end

section Step

variable {heap' : Heap} {n : Nat} {stageOffsets : List Nat}

section

variable (site : BroadcastSite props heap ref prop extents source dim sizes) {current : Heap}
  (reached : Reached current ref prop extents source (backOf extents source dim) (.buildFromSizes sizes stageOffsets) n)

include site reached

theorem BroadcastSite.spec_elsewhere {slot : Slot} {back : Nat} (has : back < (extents slot).length) (ne : back ≠ backOf extents source dim) :
    ∃ cur spec, current[ref slot]? = some cur ∧ cur.splitSpecs[placeOf extents slot back]? = some spec ∧
      (spec = {} ∨ spec = .buildSingleSplit) ∧ cur.deviceIds = (prop source).deviceIds ∧
      (spec = {} → ref slot ≠ ref source ∧
        Untouched (prop slot) cur fun d => backOf extents source dim < (extents slot).length ∧
          d = placeOf extents slot (backOf extents source dim)) := by
  have atBack := site.backOf_lt
  have specAt : ∀ cur : ShardingProperty, cur.rank = (prop slot).rank →
      ∃ spec, cur.splitSpecs[placeOf extents slot back]? = some spec := by
    intro cur sameRank
    have isLength := cur.specsMatchRank
    have isRank := site.rank slot
    have bound : placeOf extents slot back < cur.splitSpecs.length := by
      unfold placeOf
      omega
    exact ⟨_, List.getElem?_eq_getElem bound⟩
  by_cases isSource : ref slot = ref source
  · have sameLength := site.length_of_ref isSource
    have sameProp : prop slot = prop source := by
      have atSlot := site.atRef slot
      rw [isSource, site.atRef source] at atSlot
      exact (Option.some.inj atSlot).symm
    obtain ⟨spec, atPlace⟩ := specAt (prop source) (by rw [sameProp])
    have notDim : placeOf extents slot back ≠ dim := by
      unfold placeOf backOf at *
      omega
    have isSingle := site.split.single _ spec atPlace notDim
    refine ⟨prop source, spec, reached.atSource slot isSource, atPlace, .inr isSingle, rfl, ?_⟩
    intro isUnset
    rw [isUnset] at isSingle
    cases isSingle
  · have sameDevices := (site.fresh slot isSource).2
    by_cases isTaken : backOf extents source dim < (extents slot).length ∧
        placeOf extents .result (backOf extents source dim) < n
    · obtain ⟨cur, atCur, taken⟩ := reached.taken slot isSource isTaken.1 isTaken.2
      obtain ⟨spec, atPlace⟩ := specAt cur taken.same.rank
      have notPlace : placeOf extents slot back ≠ placeOf extents slot (backOf extents source dim) := by
        unfold placeOf
        omega
      have isSingle := taken.single _ spec atPlace notPlace
      refine ⟨cur, spec, atCur, atPlace, .inr isSingle, taken.same.deviceIds.trans sameDevices, ?_⟩
      intro isUnset
      rw [isUnset] at isSingle
      cases isSingle
    · obtain ⟨cur, atCur, untouched⟩ := reached.untouched slot isSource isTaken
      obtain ⟨spec, atPlace⟩ := specAt cur untouched.same.rank
      exact ⟨cur, spec, atCur, atPlace, untouched.loose _ spec atPlace,
        untouched.same.deviceIds.trans sameDevices, fun _ => ⟨isSource, untouched⟩⟩

/-- Aligning another dim with a single split leaves the split where it is. -/
theorem BroadcastSite.step_elsewhere (bound : n < (extents .result).length)
    (ne : (extents .result).length - 1 - n ≠ backOf extents source dim) {changed : Bool}
    (ran : inferWithIdenticalDimGroup props { items := broadcastItems extents n } current = .ok (changed, heap')) :
    Reached heap' ref prop extents source (backOf extents source dim) (.buildFromSizes sizes stageOffsets) (n + 1) := by
  have atBack := site.backOf_lt
  have notLonger := site.length_le source
  have notNow : placeOf extents .result (backOf extents source dim) < n + 1 ↔
      placeOf extents .result (backOf extents source dim) < n := by
    unfold placeOf at *
    omega
  have later : ∀ next : Heap, Reached next ref prop extents source (backOf extents source dim)
      (.buildFromSizes sizes stageOffsets) n → Reached next ref prop extents source (backOf extents source dim)
      (.buildFromSizes sizes stageOffsets) (n + 1) := by
    intro next holds
    refine ⟨holds.atSource, ?_, ?_⟩
    · intro slot other has early
      exact holds.taken slot other has (notNow.1 early)
    · intro slot other notTaken
      exact holds.untouched slot other (fun both => notTaken ⟨both.1, notNow.2 both.2⟩)
  apply later
  have itemSpec : ∀ item ∈ broadcastItems extents n, ∀ spec, props.specAt current item = some spec →
      spec = {} ∨ spec = .buildSingleSplit := by
    intro item mem spec atItem
    obtain ⟨slot, has, isDim, isRef⟩ := site.mem_items bound mem
    obtain ⟨cur, found, atCur, atPlace, isLoose, _⟩ := site.spec_elsewhere reached has ne
    rw [OpProps.specAt_eq isRef atCur, isDim, atPlace] at atItem
    cases atItem
    exact isLoose
  have noReference : props.reference current (broadcastItems extents n) = none := by
    apply List.find?_eq_none.2
    intro spec mem
    obtain ⟨item, isItem, atItem⟩ := List.mem_filterMap.1 mem
    rcases itemSpec item isItem spec atItem with isUnset | isSingle
    · rw [isUnset]
      decide
    · rw [isSingle]
      decide
  rcases aligned_with_single noReference ran with same | ⟨single, _, isSingle, isSet, aligns, item, isItem, atItem⟩
  · rw [same]
    exact reached
  have isBuilt : single = .buildSingleSplit := by
    rcases itemSpec item isItem single atItem with isUnset | isSingle
    · rw [isUnset] at isSet
      cases isSet
    · exact isSingle
  rw [isBuilt] at aligns
  -- Each property keeps its splits, or has the dim of the group set to a single one.
  have effect : ∀ slot cur, current[ref slot]? = some cur → ∃ aligned, heap'[ref slot]? = some aligned ∧
      (aligned = cur ∨ ((extents .result).length - 1 - n < (extents slot).length ∧ ref slot ≠ ref source ∧
        (Untouched (prop slot) cur fun d => backOf extents source dim < (extents slot).length ∧
          d = placeOf extents slot (backOf extents source dim)) ∧
        aligned = cur.placeAt (placeOf extents slot ((extents .result).length - 1 - n)) .buildSingleSplit)) := by
    intro slot cur atCur
    obtain ⟨aligned, atAligned, ranDims⟩ := (alignItems_props aligns).2 (ref slot) cur atCur
    refine ⟨aligned, atAligned, ?_⟩
    have dims := site.dimsOn_items bound slot
    by_cases has : (extents .result).length - 1 - n < (extents slot).length
    · obtain ⟨cur', spec, atCur', atPlace, isLoose, sameDevices, unset⟩ := site.spec_elsewhere reached has ne
      rw [atCur] at atCur'
      cases atCur'
      rcases isLoose with isUnset | isSingle
      · obtain ⟨other, untouched⟩ := unset isUnset
        have hasDevices : cur.deviceIds ≠ [] := by
          rw [sameDevices]
          exact site.split.hasDevices
        rcases alignDims_single (fun d mem => (dims.1 d mem).2) atPlace (.inl isUnset) hasDevices ranDims with
          same | placed
        · exact .inl same
        · exact .inr ⟨has, other, untouched, placed⟩
      · rw [isSingle] at atPlace
        rw [alignDims_of_set (fun d mem => (dims.1 d mem).2) atPlace rfl] at ranDims
        exact .inl (Except.ok.inj ranDims).symm
    · have noDims : props.dimsOn (ref slot) (broadcastItems extents n) = [] := by
        apply List.eq_nil_iff_forall_not_mem.2
        intro d mem
        exact has (dims.1 d mem).1
      rw [noDims] at ranDims
      exact .inl (Except.ok.inj ranDims).symm
  refine ⟨?_, ?_, ?_⟩
  · intro slot isSource
    obtain ⟨aligned, atAligned, same | ⟨_, other, _⟩⟩ := effect slot _ (reached.atSource slot isSource)
    · rw [atAligned, same]
    · exact absurd isSource other
  · intro slot other has early
    obtain ⟨cur, atCur, taken⟩ := reached.taken slot other has early
    obtain ⟨aligned, atAligned, same | ⟨_, _, untouched, _⟩⟩ := effect slot cur atCur
    · exact ⟨aligned, atAligned, same ▸ taken⟩
    · have ordered := untouched.unordered
      rw [taken.ordered] at ordered
      cases ordered
  · intro slot other notTaken
    obtain ⟨cur, atCur, untouched⟩ := reached.untouched slot other notTaken
    obtain ⟨aligned, atAligned, same | ⟨has, _, _, placed⟩⟩ := effect slot cur atCur
    · exact ⟨aligned, atAligned, same ▸ untouched⟩
    · refine ⟨aligned, atAligned, ?_⟩
      rw [placed]
      apply untouched.placeAt
      intro awaited
      apply ne
      unfold placeOf at awaited
      omega

end

theorem BroadcastSite.step_here (site : BroadcastSite props heap ref prop extents source dim sizes)
    (atSplit : (prop source).splitSpecs[dim]? = some (.buildFromSizes sizes stageOffsets)) (several : 1 < sizes.length)
    {current : Heap} (reached : Reached current ref prop extents source (backOf extents source dim)
      (.buildFromSizes sizes stageOffsets) n) (bound : n < (extents .result).length)
    (isBack : (extents .result).length - 1 - n = backOf extents source dim) {changed : Bool}
    (ran : inferWithIdenticalDimGroup props { items := broadcastItems extents n } current = .ok (changed, heap')) :
    Reached heap' ref prop extents source (backOf extents source dim) (.buildFromSizes sizes stageOffsets) (n + 1) := by
  have atBack := site.backOf_lt
  have notYet : ¬ placeOf extents .result (backOf extents source dim) < n := by
    unfold placeOf
    omega
  have now : placeOf extents .result (backOf extents source dim) < n + 1 := by
    unfold placeOf
    omega
  have counted : ∀ other : ShardingProperty, other.deviceIds = (prop source).deviceIds →
      other.getStageOffsets = stageOffsets → other.getNumLogicalShards = sizes.length := by
    intro other sameDevices sameStages
    have stages : (prop source).getStageOffsets = stageOffsets := by
      apply getStageOffsets_of_only atSplit several
      intro elsewhere found atFound ne
      rw [site.split.single elsewhere found atFound ne]
      rfl
    rw [← site.split.counted]
    exact getNumLogicalShards_congr sameDevices (sameStages.trans stages.symm)
  have awaiting : ∀ slot, ref slot ≠ ref source → ∃ cur, current[ref slot]? = some cur ∧
      Untouched (prop slot) cur fun d => backOf extents source dim < (extents slot).length ∧
        d = placeOf extents slot (backOf extents source dim) :=
    fun slot other => reached.untouched slot other fun both => notYet both.2
  have sourceItem : ∀ slot, ref slot = ref source → placeOf extents slot (backOf extents source dim) = dim := by
    intro slot isSource
    have sameLength := site.length_of_ref isSource
    unfold placeOf at *
    omega
  have itemSpec : ∀ item ∈ broadcastItems extents n, ∀ spec, props.specAt current item = some spec →
      spec = {} ∨ spec = .buildFromSizes sizes stageOffsets := by
    intro item mem spec atItem
    obtain ⟨slot, has, isDim, isRef⟩ := site.mem_items bound mem
    rw [isBack] at has isDim
    by_cases isSource : ref slot = ref source
    · rw [OpProps.specAt_eq isRef (reached.atSource slot isSource), isDim, sourceItem slot isSource, atSplit] at atItem
      exact .inr (Option.some.inj atItem).symm
    · obtain ⟨cur, atCur, untouched⟩ := awaiting slot isSource
      rw [OpProps.specAt_eq isRef atCur, isDim, untouched.unset _ ⟨has, rfl⟩] at atItem
      exact .inl (Option.some.inj atItem).symm
  have isReference : props.reference current (broadcastItems extents n) = some (.buildFromSizes sizes stageOffsets) := by
    cases found : props.reference current (broadcastItems extents n) with
    | none =>
      obtain ⟨item, isItem, isDim, isRef⟩ := @BroadcastSite.exists_item _ _ _ _ _ _ _ _ site n bound source (by rw [isBack]; exact atBack.1)
      rw [isBack, atBack.2] at isDim
      have atItem : props.specAt current item = some (.buildFromSizes sizes stageOffsets) := by
        rw [OpProps.specAt_eq isRef (reached.atSource source rfl), isDim, atSplit]
      have missed := List.find?_eq_none.1 found _ (List.mem_filterMap.2 ⟨item, isItem, atItem⟩)
      exact absurd rfl missed
    | some spec =>
      obtain ⟨item, isItem, atItem⟩ := List.mem_filterMap.1 (List.mem_of_find?_eq_some found)
      rcases itemSpec item isItem spec atItem with isUnset | same
      · have holds := List.find?_some found
        rw [isUnset] at holds
        cases holds
      · rw [same]
  obtain ⟨_, aligns⟩ := aligned_with_reference isReference ran
  refine ⟨?_, ?_, ?_⟩
  · intro slot isSource
    have atCur := reached.atSource slot isSource
    obtain ⟨aligned, atAligned, ranDims⟩ := (alignItems_props aligns).2 (ref slot) _ atCur
    have dims := site.dimsOn_items bound slot
    rw [isBack, sourceItem slot isSource] at dims
    rw [alignDims_of_set (fun d mem => (dims.1 d mem).2) atSplit rfl] at ranDims
    rw [atAligned, ← Except.ok.inj ranDims]
  · intro slot other has _
    obtain ⟨cur, atCur, untouched⟩ := awaiting slot other
    obtain ⟨aligned, atAligned, ranDims⟩ := (alignItems_props aligns).2 (ref slot) cur atCur
    have dims := site.dimsOn_items bound slot
    rw [isBack] at dims
    have fresh := site.fresh slot other
    obtain ⟨set, splits, taken⟩ := @Untouched.splitAt _ _ _ _ (.buildFromSizes sizes stageOffsets) untouched ⟨has, rfl⟩
      (by rw [fresh.2]; exact site.split.hasDevices) several (by rw [fresh.2]; exact counted)
    rw [alignDims_of_unset (fun d mem => (dims.1 d mem).2) (dims.2 has) (untouched.unset _ ⟨has, rfl⟩) rfl
      splits taken.atDim (rescaled_isInitialized rfl)] at ranDims
    exact ⟨aligned, atAligned, Except.ok.inj ranDims ▸ taken⟩
  · intro slot other notTaken
    have lacks : ¬ backOf extents source dim < (extents slot).length := fun has => notTaken ⟨has, now⟩
    obtain ⟨cur, atCur, untouched⟩ := awaiting slot other
    obtain ⟨aligned, atAligned, ranDims⟩ := (alignItems_props aligns).2 (ref slot) cur atCur
    have noDims : props.dimsOn (ref slot) (broadcastItems extents n) = [] := by
      apply List.eq_nil_iff_forall_not_mem.2
      intro d mem
      have dims := (site.dimsOn_items bound slot).1 d mem
      rw [isBack] at dims
      exact lacks dims.1
    rw [noDims] at ranDims
    exact ⟨aligned, atAligned, Except.ok.inj ranDims ▸ untouched⟩

end Step

end Groups

end Itex.XpuAutoShard.Hsp
