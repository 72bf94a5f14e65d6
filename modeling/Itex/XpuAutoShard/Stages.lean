import Itex.XpuAutoShard.Splits

/-!
Contract: stages of the properties of one op.

Owns: what aligning stages does when one property has the most shards, and the devices of
the shards of a property.
-/

namespace Itex.XpuAutoShard.Hsp

open Itex.Lib
open Itex.XpuAutoShard.Hsp.ShardingProperty

section Restaged

variable {prop : ShardingProperty} {stageOffsets : List Nat}

/-- A property after it is given stages, if it is single split and has none. -/
def ShardingProperty.restaged (prop : ShardingProperty) (stageOffsets : List Nat) : ShardingProperty :=
  if prop.isSplitSingleOnly = true ∧ prop.singleSplitOnlyStageOffsets = [] then
    { prop with singleSplitOnlyStageOffsets := stageOffsets }
  else prop

theorem restaged_nil : prop.restaged [] = prop := by
  unfold restaged
  split
  next isSingle =>
    have unstaged := isSingle.2
    cases prop
    cases unstaged
    rfl
  next => rfl

theorem restaged_restaged : (prop.restaged stageOffsets).restaged stageOffsets = prop.restaged stageOffsets := by
  cases stageOffsets with
  | nil => rw [restaged_nil]
  | cons offset offsets =>
    unfold restaged
    split
    · rw [if_neg]
      rintro ⟨_, unstaged⟩
      cases unstaged
    next => rfl

theorem restaged_frame : (prop.restaged stageOffsets).splitSpecs = prop.splitSpecs ∧
    (prop.restaged stageOffsets).deviceIds = prop.deviceIds ∧ (prop.restaged stageOffsets).postOps = prop.postOps ∧
    (prop.restaged stageOffsets).rank = prop.rank ∧
    (prop.restaged stageOffsets).orderedSplitDims = prop.orderedSplitDims ∧
    (prop.restaged stageOffsets).isSplitSingleOnly = prop.isSplitSingleOnly := by
  unfold restaged
  split
  · exact ⟨rfl, rfl, rfl, rfl, rfl, rfl⟩
  · exact ⟨rfl, rfl, rfl, rfl, rfl, rfl⟩

theorem splitSingleOnly_of_single (single : prop.isSplitSingleOnly = true) (staged : stageOffsets ≠ []) :
    ∃ changed, prop.splitSingleOnly stageOffsets = .ok (changed, prop.restaged stageOffsets) := by
  have unchanged : (List.range prop.rank.toNat).foldlM splitSingleStep (false, prop) = .ok (false, prop) := by
    generalize isDims : List.range prop.rank.toNat = dims
    have inside : ∀ dim ∈ dims, dim < prop.rank.toNat := fun dim mem => List.mem_range.1 (isDims ▸ mem)
    clear isDims
    induction dims with
    | nil => rfl
    | cons dim dims ih =>
      have bound := inside dim List.mem_cons_self
      rw [← prop.specsMatchRank] at bound
      have atDim := List.getElem?_eq_getElem bound
      have all := (Bool.and_eq_true_iff.1 single).2
      change (!prop.isRanked || _) = true at all
      rw [(isRanked_of_spec atDim).1, Bool.not_true, Bool.false_or, List.all_eq_true] at all
      have isSet := (Bool.and_eq_true_iff.1 (all _ (List.mem_map_of_mem (List.mem_of_getElem? atDim)))).1
      rw [List.foldlM_cons, bind_ok]
      refine ⟨(false, prop), bind_ok.2 ⟨(false, prop), splitAt_of_set atDim isSet _, rfl⟩, ?_⟩
      exact ih fun other mem => inside other (List.mem_cons_of_mem _ mem)
  unfold splitSingleOnly restaged
  by_cases unstaged : prop.singleSplitOnlyStageOffsets = []
  · refine ⟨true, bind_ok.2 ⟨_, unchanged, ?_⟩⟩
    dsimp only
    rw [if_pos ⟨unstaged, staged⟩, if_pos ⟨single, unstaged⟩]
    rfl
  · refine ⟨false, bind_ok.2 ⟨_, unchanged, ?_⟩⟩
    dsimp only
    rw [if_neg fun both => unstaged both.1, if_neg fun both => unstaged both.2]
    rfl

theorem updateStageOffsets_eq {state : Bool × Heap} {ref : Nat} (atRef : state.2[ref]? = some prop)
    (staged : stageOffsets ≠ []) : ∃ changed, updateStageOffsets stageOffsets state ref =
      .ok (changed, state.2.set ref (prop.restaged stageOffsets)) := by
  unfold updateStageOffsets
  by_cases single : prop.isSplitSingleOnly = true
  · obtain ⟨changed, splits⟩ := splitSingleOnly_of_single single staged
    refine ⟨state.1 || changed, bind_ok.2 ⟨prop, readAt_eq_ok.2 atRef, ?_⟩⟩
    rw [if_pos single]
    exact bind_ok.2 ⟨_, splits, rfl⟩
  · refine ⟨state.1, bind_ok.2 ⟨prop, readAt_eq_ok.2 atRef, ?_⟩⟩
    have same : prop.restaged stageOffsets = prop := if_neg fun both => single both.1
    rw [if_neg single, same, set_self_of_getElem? atRef]
    rfl

theorem updateAll_eq {refs : List Nat} {state : Bool × Heap} (inHeap : ∀ ref ∈ refs, ref < state.2.length)
    (staged : stageOffsets ≠ []) :
    ∃ changed heap, refs.foldlM (updateStageOffsets stageOffsets) state = .ok (changed, heap) ∧
      ∀ ref, heap[ref]? = state.2[ref]?.map fun prop => if ref ∈ refs then prop.restaged stageOffsets else prop := by
  induction refs generalizing state with
  | nil =>
    refine ⟨state.1, state.2, rfl, ?_⟩
    intro ref
    simp
  | cons first refs ih =>
    have atFirst := List.getElem?_eq_getElem (inHeap first List.mem_cons_self)
    obtain ⟨changed, updated⟩ := @updateStageOffsets_eq _ stageOffsets state first atFirst staged
    have inUpdated : ∀ ref ∈ refs, ref < (state.2.set first ((state.2.get ⟨first, inHeap first List.mem_cons_self⟩).restaged
        stageOffsets)).length := by
      intro ref mem
      rw [List.length_set]
      exact inHeap ref (List.mem_cons_of_mem _ mem)
    obtain ⟨changed', heap, rest, atRef⟩ := @ih (changed, _) inUpdated
    refine ⟨changed', heap, ?_, ?_⟩
    · rw [List.foldlM_cons, bind_ok]
      exact ⟨_, updated, rest⟩
    · intro ref
      rw [atRef]
      by_cases same : first = ref
      · rw [← same, List.getElem?_set_self (inHeap first List.mem_cons_self), atFirst, Option.map_some, Option.map_some,
          if_pos List.mem_cons_self]
        split
        · rw [List.get_eq_getElem, restaged_restaged]
        · rfl
      · grind

end Restaged

theorem exists_mapM_readAt {α : Type} {vector : List α} {first : Nat} {rest : List Nat} {element : α} {holds : α → Prop}
    (atFirst : vector[first]? = some element) (each : ∀ index ∈ rest, ∃ other, vector[index]? = some other ∧ holds other) :
    ∃ others, (first :: rest).mapM (readAt vector) = .ok (element :: others) ∧ ∀ other ∈ others, holds other := by
  have found : ∃ others, rest.mapM (readAt vector) = .ok others := by
    apply exists_mapM_eq_ok
    intro index mem
    obtain ⟨other, atIndex, _⟩ := each index mem
    exact ⟨other, readAt_eq_ok.2 atIndex⟩
  obtain ⟨others, areOthers⟩ := found
  refine ⟨others, mapM_eq_ok.2 (.cons (readAt_eq_ok.2 atFirst) (mapM_eq_ok.1 areOthers)), ?_⟩
  intro other mem
  obtain ⟨index, isIndex, isRead⟩ := mem_source_of_mapM areOthers mem
  obtain ⟨read, atIndex, isHeld⟩ := each index isIndex
  rw [readAt_eq_ok, atIndex] at isRead
  cases isRead
  exact isHeld

theorem alignSingleSplitStageOffsets_of_leader {props : OpProps} {heap : Heap} {first : Nat} {rest : List Nat}
    {leader : ShardingProperty} (refs : props.inputs ++ props.outputs = first :: rest)
    (atFirst : heap[first]? = some leader) (initialized : leader.isInitialized = true)
    (pos : 0 < leader.getNumLogicalShards)
    (fewer : ∀ ref ∈ rest, ∃ prop, heap[ref]? = some prop ∧ prop.getNumLogicalShards ≤ leader.getNumLogicalShards) :
    ∃ changed heap', alignSingleSplitStageOffsets props heap = .ok (changed, heap') ∧
      ∀ ref, heap'[ref]? = heap[ref]?.map fun prop =>
        if ref ∈ first :: rest then prop.restaged leader.getStageOffsets else prop := by
  obtain ⟨others, all, notMore⟩ := exists_mapM_readAt atFirst fewer
  rw [← refs] at all
  have best : (leader :: others).foldl initStageOffsets (0, []) =
      (leader.getNumLogicalShards, leader.getStageOffsets) := by
    have isFirst : initStageOffsets (0, []) leader = (leader.getNumLogicalShards, leader.getStageOffsets) := by
      unfold initStageOffsets
      rw [if_pos ⟨initialized, pos⟩]
    rw [List.foldl_cons, isFirst]
    clear all
    induction others with
    | nil => rfl
    | cons prop others ih =>
      have kept : initStageOffsets (leader.getNumLogicalShards, leader.getStageOffsets) prop =
          (leader.getNumLogicalShards, leader.getStageOffsets) := by
        unfold initStageOffsets
        rw [if_neg]
        rintro ⟨_, more⟩
        exact absurd more (Nat.not_lt.2 (notMore prop List.mem_cons_self))
      rw [List.foldl_cons, kept]
      exact ih fun other mem => notMore other (List.mem_cons_of_mem _ mem)
  unfold alignSingleSplitStageOffsets
  by_cases unstaged : leader.getStageOffsets = []
  · refine ⟨false, heap, bind_ok.2 ⟨_, all, ?_⟩, ?_⟩
    · dsimp only
      rw [best, if_pos unstaged]
      rfl
    · intro ref
      simp [unstaged, restaged_nil]
  · have inHeap : ∀ ref ∈ first :: rest, ref < heap.length := by
      grind
    obtain ⟨changed, heap', updated, atRef⟩ := @updateAll_eq _ _ (false, heap) inHeap unstaged
    refine ⟨changed, heap', bind_ok.2 ⟨_, all, ?_⟩, atRef⟩
    dsimp only
    rw [best, if_neg unstaged, refs]
    exact updated

/-- On the devices of another property, with its stages or with none yet. -/
structure Follows (leader prop : ShardingProperty) : Prop where
  devices : prop.deviceIds = leader.deviceIds
  stages : prop.getStageOffsets = leader.getStageOffsets ∨
    (prop.isSplitSingleOnly = true ∧ prop.singleSplitOnlyStageOffsets = [])

theorem getStageOffsets_of_single {prop : ShardingProperty} (single : prop.isSplitSingleOnly = true) :
    prop.getStageOffsets = prop.singleSplitOnlyStageOffsets := by
  have isSingle : prop.lowered.isSplitSingleOnly = true := single
  unfold ShardingProperty.getStageOffsets XpuAutoShard.ShardingProperty.getStageOffsets
  rw [isSingle, if_pos rfl]
  rfl

section Follows

variable {leader prop : ShardingProperty}
  (perDevice : leader.lowered.getNumLogicalShardsPerdevice.length = leader.deviceIds.length)
  (staged : ∀ count ∈ leader.lowered.getNumLogicalShardsPerdevice, 0 < count)

include perDevice staged

theorem Follows.fewer (follows : Follows leader prop) : prop.getNumLogicalShards ≤ leader.getNumLogicalShards := by
  rcases follows.stages with same | ⟨single, unstaged⟩
  · rw [getNumLogicalShards_congr follows.devices same]
  · have noStages : prop.lowered.getStageOffsets = [] := (getStageOffsets_of_single single).trans unstaged
    have counts : prop.getNumLogicalShards = leader.deviceIds.length := by
      change prop.lowered.getNumLogicalShardsPerdevice.sum = _
      unfold XpuAutoShard.ShardingProperty.getNumLogicalShardsPerdevice
      rw [if_pos noStages, List.sum_replicate, Nat.nsmul_eq_mul, Nat.mul_one]
      exact congrArg List.length follows.devices
    rw [counts, ← perDevice]
    change _ ≤ leader.lowered.getNumLogicalShardsPerdevice.sum
    generalize leader.lowered.getNumLogicalShardsPerdevice = counts at staged
    induction counts with
    | nil => exact Nat.le_refl 0
    | cons count counts ih =>
      have first := staged count List.mem_cons_self
      have rest := ih fun other mem => staged other (List.mem_cons_of_mem _ mem)
      rw [List.length_cons, List.sum_cons]
      omega

omit perDevice staged in
theorem Follows.restaged (follows : Follows leader prop) :
    (prop.restaged leader.getStageOffsets).getStageOffsets = leader.getStageOffsets := by
  by_cases isSingle : prop.isSplitSingleOnly = true ∧ prop.singleSplitOnlyStageOffsets = []
  · have single : (prop.restaged leader.getStageOffsets).isSplitSingleOnly = true := by
      rw [restaged_frame.2.2.2.2.2]
      exact isSingle.1
    rw [getStageOffsets_of_single single]
    unfold ShardingProperty.restaged
    rw [if_pos isSingle]
  · unfold ShardingProperty.restaged
    rw [if_neg isSingle]
    exact follows.stages.resolve_right isSingle

end Follows

theorem devices_of_offsets (fallback : DeviceId) (previous : Nat) (offsets : List Nat) (devices : List DeviceId)
    (perDevice : offsets.length = devices.length)
    (staged : ∀ count ∈ XpuAutoShard.ShardingProperty.stageCounts previous offsets, 0 < count) :
    (List.range (XpuAutoShard.ShardingProperty.stageCounts previous offsets).sum).map
      (fun shardNum => match offsets.findIdx? fun offset => previous + shardNum < offset with
        | some device => devices.getD device 0
        | none => fallback) =
      identityDevices devices (XpuAutoShard.ShardingProperty.stageCounts previous offsets) := by
  induction offsets generalizing previous devices with
  | nil =>
    cases devices with
    | nil => rfl
    | cons device devices => cases perDevice
  | cons offset offsets ih =>
    cases devices with
    | nil => cases perDevice
    | cons device devices =>
      rw [XpuAutoShard.ShardingProperty.stageCounts] at staged ⊢
      have pos := staged (offset - previous) List.mem_cons_self
      have rest := ih offset devices (Nat.succ.inj perDevice)
        fun count mem => staged count (List.mem_cons_of_mem _ mem)
      rw [List.sum_cons, List.range_add, List.map_append, List.map_map, identityDevices, ← rest]
      congr 1
      · rw [List.eq_replicate_iff, List.length_map, List.length_range]
        grind
      · apply List.map_congr_left
        intro shardNum _
        dsimp only [Function.comp]
        have shifted : previous + (offset - previous + shardNum) = offset + shardNum := by omega
        rw [shifted, List.findIdx?_cons, decide_eq_false (show ¬ offset + shardNum < offset by omega),
          if_neg Bool.false_ne_true]
        cases offsets.findIdx? (fun later => decide (offset + shardNum < later)) with
        | none => rfl
        | some index => rfl

theorem identityDevices_ones (devices : List DeviceId) :
    identityDevices devices (List.replicate devices.length 1) = devices := by
  induction devices with
  | nil => rfl
  | cons device devices ih =>
    rw [List.length_cons, List.replicate_succ, identityDevices, ih]
    rfl

theorem shardDevices_eq {prop : XpuAutoShard.ShardingProperty}
    (perDevice : prop.getNumLogicalShardsPerdevice.length = prop.deviceIds.length)
    (staged : ∀ count ∈ prop.getNumLogicalShardsPerdevice, 0 < count) :
    (List.range prop.getNumLogicalShards).map prop.getDeviceIdPerShardNum =
      identityDevices prop.deviceIds prop.getNumLogicalShardsPerdevice := by
  unfold XpuAutoShard.ShardingProperty.getNumLogicalShards
  unfold XpuAutoShard.ShardingProperty.getNumLogicalShardsPerdevice at perDevice staged ⊢
  by_cases unstaged : prop.getStageOffsets = []
  · rw [if_pos unstaged, identityDevices_ones, List.sum_replicate, Nat.nsmul_eq_mul, Nat.mul_one]
    apply List.ext_getElem?
    intro shardNum
    rw [List.getElem?_map]
    by_cases inside : shardNum < prop.deviceIds.length
    · rw [List.getElem?_range inside, List.getElem?_eq_getElem inside, Option.map_some]
      unfold XpuAutoShard.ShardingProperty.getDeviceIdPerShardNum
      simp [unstaged, inside]
    · rw [List.getElem?_eq_none (Nat.not_lt.1 inside), List.getElem?_eq_none (by rw [List.length_range]; omega)]
      rfl
  · rw [if_neg unstaged] at perDevice staged ⊢
    rw [SplitAlong.length_stageCounts] at perDevice
    have same := devices_of_offsets (prop.deviceIds.getD (prop.deviceIds.length - 1) 0) 0 prop.getStageOffsets
      prop.deviceIds perDevice staged
    rw [← same]
    apply List.map_congr_left
    intro shardNum _
    unfold XpuAutoShard.ShardingProperty.getDeviceIdPerShardNum
    rw [Nat.zero_add]
    cases prop.getStageOffsets.findIdx? (fun offset => decide (shardNum < offset)) with
    | some device => rfl
    | none => rw [if_neg unstaged]

end Itex.XpuAutoShard.Hsp
