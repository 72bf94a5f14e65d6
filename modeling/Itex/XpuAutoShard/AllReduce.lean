import Itex.XpuAutoShard.Reduction
import Itex.XpuAutoShard.Stages

/-!
Contract: what the reduce post-operations compute.

Owns: the shards of a tensor that a property describes, and that reducing on each device and
then across devices gives every shard the combination of all shards.
-/

namespace Itex.XpuAutoShard.Hsp

open Itex.Lib

variable {counts : List Nat} {values : List (Tensor Rat)}

/-- The shards of a tensor: copies where it is single split, and else the slices along the
split dim. -/
def ShardingProperty.shards {α : Type} (prop : ShardingProperty) (x : Tensor α) : List (Tensor α) :=
  if prop.isSplitSingleOnly then List.replicate prop.getNumLogicalShards x
  else
    match prop.orderedSplitDims with
    | [dim] => (parts 0 ((prop.splitSpecs.getD dim {}).sizes.map Int.toNat)).map fun part => x.slice dim part.1 part.2
    | _ => []

structure Placed (prop : ShardingProperty) (devices : List DeviceId) (counts : List Nat) : Prop where
  onDevices : prop.deviceIds = devices
  numShards : prop.lowered.getNumLogicalShardsPerdevice = counts
  different : devices.Nodup
  perDevice : counts.length = devices.length
  staged : ∀ count ∈ counts, 0 < count

section Groups

variable {α : Type}

theorem labelled_devices (devices : List DeviceId) (counts : List Nat) (values : List α)
    (perDevice : counts.length = devices.length) (counted : values.length = counts.sum) :
    labelled (devices.zip (counts.splitLengths values)) = (identityDevices devices counts).zip values := by
  induction counts generalizing devices values with
  | nil =>
    cases devices with
    | nil => rfl
    | cons device devices => cases perDevice
  | cons count counts ih =>
    cases devices with
    | nil => cases perDevice
    | cons device devices =>
      rw [List.sum_cons] at counted
      have rest := ih devices (values.drop count) (Nat.succ.inj perDevice)
        (by rw [List.length_drop]; omega)
      have firsts : (values.take count).map (device, ·) = (List.replicate count device).zip (values.take count) := by
        have isLength : (values.take count).length = count := by
          rw [List.length_take]
          omega
        apply List.ext_getElem
        · rw [List.length_map, List.length_zip, List.length_replicate, isLength, Nat.min_self]
        · intro k _ _
          simp
      have parted : (List.replicate count device ++ identityDevices devices counts).zip values =
          (List.replicate count device).zip (values.take count) ++
            (identityDevices devices counts).zip (values.drop count) := by
        conv_lhs => rw [← List.take_append_drop count values]
        apply List.zip_append
        rw [List.length_replicate, List.length_take]
        omega
      rw [List.splitLengths_cons, List.zip_cons_cons, identityDevices, parted, ← firsts, ← rest]
      rfl

theorem length_identityDevices {devices : List DeviceId}
    (perDevice : counts.length = devices.length) : (identityDevices devices counts).length = counts.sum := by
  induction counts generalizing devices with
  | nil =>
    cases devices with
    | nil => rfl
    | cons device devices => cases perDevice
  | cons count counts ih =>
    cases devices with
    | nil => cases perDevice
    | cons device devices =>
      rw [identityDevices, List.length_append, List.length_replicate, ih (Nat.succ.inj perDevice), List.sum_cons]

theorem nonempty_splitLengths {values : List α} (staged : ∀ count ∈ counts, 0 < count)
    (counted : values.length = counts.sum) : ∀ group ∈ counts.splitLengths values, group ≠ [] := by
  intro group mem isEmpty
  have isCount := List.mem_map_of_mem (f := List.length) mem
  rw [List.map_splitLengths_length _ _ (Nat.le_of_eq counted.symm), isEmpty] at isCount
  exact absurd (staged _ isCount) (Nat.lt_irrefl 0)

end Groups

section AllReduce

variable {op : Rat → Rat → Rat} {extents : List Nat}

def entriesAt (values : List (Tensor Rat)) (index : List Nat) : List Rat := values.map fun value => value.entry index

/-- One tensor with the combined entries of several. -/
def Combines (op : Rat → Rat → Rat) (empty : Rat) (extents : List Nat) (values : List (Tensor Rat))
    (value : Tensor Rat) : Prop :=
  value.extents = extents ∧ ∀ index, value.entry index = combine op empty (entriesAt values index)

theorem TfgOp.run_combines {kind : TfgOp} (isOp : kind.apply = op) (empty : Rat) {first : Tensor Rat}
    {others : List (Tensor Rat)} (alike : first.extents = extents) :
    Combines op empty extents (first :: others) (kind.run first others) := by
  refine ⟨alike, ?_⟩
  intro index
  unfold TfgOp.run entriesAt
  rw [isOp, List.map_cons, combine, List.foldl_map]

/-- One tensor for several. -/
def TfgOp.runAll (kind : TfgOp) : List (Tensor Rat) → Tensor Rat
  | [] => ⟨[], fun _ => 0⟩
  | first :: others => kind.run first others

theorem TfgOp.runAll_combines {kind : TfgOp} (isOp : kind.apply = op) (empty : Rat)
    (nonempty : values ≠ []) (alike : ∀ value ∈ values, value.extents = extents) :
    Combines op empty extents values (kind.runAll values) := by
  cases values with
  | nil => exact absurd rfl nonempty
  | cons first others => exact TfgOp.run_combines isOp empty (alike first List.mem_cons_self)

theorem reduceRun_eq (kind : TfgOp) (device : DeviceId) (nonempty : values ≠ []) :
    reduceRun kind (values.map (device, ·)) = .ok (kind.runAll values) := by
  cases values with
  | nil => exact absurd rfl nonempty
  | cons first others =>
    have unlabelled : (others.map (device, ·)).map Prod.snd = others := by
      rw [List.map_map]
      exact List.map_id others
    rw [List.map_cons]
    change Except.ok (kind.run first ((others.map (device, ·)).map Prod.snd)) = _
    rw [unlabelled]
    rfl

theorem buildAllReducePostOp_combines [Std.Associative op] {intra inter : TfgOp} (isIntra : intra.apply = op)
    (isInter : inter.apply = op) {prop : ShardingProperty} {devices : List DeviceId}
    (placed : Placed prop devices counts) (counted : values.length = counts.sum)
    (nonempty : values ≠ []) (alike : ∀ value ∈ values, value.extents = extents) (empty : Rat) :
    ∃ value, buildAllReducePostOp intra inter values prop (identityDevices devices counts) =
        .ok (List.replicate counts.sum value) ∧ Combines op empty extents values value := by
  generalize isGroups : counts.splitLengths values = groups
  have groupCount : groups.length = devices.length := by
    rw [← isGroups, List.length_splitLengths, placed.perDevice]
  have groupsNonempty : ∀ group ∈ groups, group ≠ [] := isGroups ▸ nonempty_splitLengths placed.staged counted
  have joined : groups.flatten = values := isGroups ▸ List.flatten_splitLengths _ _ (Nat.le_of_eq counted)
  -- The runs of one device are its shards.
  have runs : (((identityDevices devices counts).zip values).splitBy fun shard next => shard.1 == next.1) =
      (devices.zip groups).map fun group => group.2.map (group.1, ·) := by
    rw [← labelled_devices devices counts values placed.perDevice counted, isGroups]
    apply splitBy_labelled
    · rw [List.map_fst_zip (Nat.le_of_eq groupCount.symm)]
      exact placed.different
    · intro group mem
      exact groupsNonempty group.2 (List.of_mem_zip mem).2
  have perDevice : addIntraDeviceReducePostOp intra values (identityDevices devices counts) =
      .ok (groups.map intra.runAll) := by
    have sameLength : values.length = (identityDevices devices counts).length := by
      rw [counted, length_identityDevices placed.perDevice]
    have unlabelled : (devices.zip groups).map (fun group => intra.runAll group.2) = groups.map intra.runAll := by
      conv_rhs => rw [← List.map_snd_zip (Nat.le_of_eq groupCount), List.map_map]
      rfl
    unfold addIntraDeviceReducePostOp
    refine bind_ok.2 ⟨(), if_pos sameLength, ?_⟩
    rw [runs, mapM_eq_ok, ← unlabelled, List.forall₂_map_left_iff, List.forall₂_map_right_iff, List.forall₂_same]
    intro group mem
    exact reduceRun_eq intra group.1 (groupsNonempty group.2 (List.of_mem_zip mem).2)
  have groupsCombine : ∀ group ∈ groups, Combines op empty extents group (intra.runAll group) := by
    intro group isGroup
    apply TfgOp.runAll_combines isIntra empty (groupsNonempty group isGroup)
    intro value isValue
    apply alike
    rw [← joined]
    exact List.mem_flatten.2 ⟨group, isGroup, isValue⟩
  have someGroup : groups ≠ [] := by
    intro noGroups
    rw [noGroups] at joined
    exact nonempty joined.symm
  have deviceValues : Combines op empty extents (groups.map intra.runAll) (inter.runAll (groups.map intra.runAll)) := by
    apply TfgOp.runAll_combines isInter empty (by simpa using someGroup)
    intro value isValue
    obtain ⟨group, isGroup, isRun⟩ := List.mem_map.1 isValue
    rw [← isRun]
    exact (groupsCombine group isGroup).1
  refine ⟨inter.runAll (groups.map intra.runAll), ?_, deviceValues.1, ?_⟩
  · unfold buildAllReducePostOp
    refine bind_ok.2 ⟨_, perDevice, ?_⟩
    have isLength : (groups.map intra.runAll).length = devices.length := by rw [List.length_map, groupCount]
    unfold addInterDeviceReducePostOp
    refine bind_ok.2 ⟨(), if_pos (by rw [isLength, placed.onDevices]), ?_⟩
    dsimp only
    refine bind_ok.2 ⟨(), if_pos (by rw [isLength, placed.numShards, placed.perDevice]), ?_⟩
    have allCounts : (prop.lowered.getNumLogicalShardsPerdevice.take (groups.map intra.runAll).length).sum = counts.sum := by
      rw [isLength, placed.numShards, ← placed.perDevice, List.take_length]
    cases isValues : groups.map intra.runAll with
    | nil => exact absurd (List.map_eq_nil_iff.1 isValues) someGroup
    | cons first others =>
      rw [isValues] at allCounts
      dsimp only
      rw [allCounts]
      rfl
  · intro index
    have entries : entriesAt (groups.map intra.runAll) index =
        (groups.map fun group => entriesAt group index).map (combine op empty) := by
      unfold entriesAt
      rw [List.map_map, List.map_map]
      apply List.map_congr_left
      intro group isGroup
      exact (groupsCombine group isGroup).2 index
    have flattened : (groups.map fun group => entriesAt group index).flatten = entriesAt values index := by
      unfold entriesAt
      rw [← joined, List.map_flatten]
    rw [deviceValues.2 index, entries, combine_flatten, flattened]
    intro entriesOf mem
    obtain ⟨group, isGroup, isEntries⟩ := List.mem_map.1 mem
    rw [← isEntries]
    unfold entriesAt
    simpa using groupsNonempty group isGroup

end AllReduce

end Itex.XpuAutoShard.Hsp
