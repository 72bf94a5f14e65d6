import Itex.Graph.Types

/-!
Contract: the four operator lists of automatic mixed precision
(`itex/core/graph/auto_mixed_precision/auto_mixed_precision_lists.h`).

Owns: the built-in lists of either device, their update from the options, and
`ValidateLists`.
-/

namespace Itex.AutoMixedPrecision

open Itex.Graph

/-- `AutoMixedPrecisionMode`. -/
inductive Mode where
  | gpuFloat16
  | gpuBfloat16
  | cpuFloat16
  | cpuBfloat16
deriving DecidableEq, Repr

def Mode.targetDtype : Mode → DataType
  | .gpuFloat16 | .cpuFloat16 => .half
  | .gpuBfloat16 | .cpuBfloat16 => .bfloat16

def Mode.deviceType : Mode → String
  | .gpuFloat16 | .gpuBfloat16 => "XPU"
  | .cpuFloat16 | .cpuBfloat16 => "CPU"

def tensorListOps : List String :=
  ["TensorListConcat", "TensorListConcatLists", "TensorListConcatV2", "TensorListFromTensor",
    "TensorListGather", "TensorListGetItem", "TensorListPopBack", "TensorListPushBack",
    "TensorListPushBackBatch", "TensorListScatter", "TensorListScatterIntoExistingList",
    "TensorListScatterV2", "TensorListSetItem", "TensorListSplit", "TensorListStack"]

/-- `allow_list_ops`. Two adjacent literals of the source are one entry. -/
def allowListOps : List String :=
  ["BatchMatMul", "BatchMatMulV2", "Conv2D", "Conv2DBackpropFilter", "Conv2DBackpropInput",
    "Conv3D", "Conv3DBackpropFilter", "Conv3DBackpropFilterV2", "Conv3DBackpropInput",
    "Conv3DBackpropInputV2", "DepthwiseConv2dNative", "DepthwiseConv2dNativeBackpropFilter",
    "DepthwiseConv2dNativeBackpropInput", "Einsum", "MatMul", "MklAUGRU", "MklGRU", "_FusedMatMul",
    "_ITEXConv2DBackpropFilterWithBias", "_ITEXConv2DBackpropInputWithSlice",
    "_ITEXConv3DBackpropFilterWithBias", "_ITEXConv3DBackpropInputV2WithSlice",
    "_ITEXForwardAUGRU", "_ITEXForwardGRU", "_ITEXFusedBatchMatMulV2", "_ITEXFusedConv2D",
    "_ITEXFusedConv2DWithSum", "_ITEXFusedConv3D", "_ITEXFusedDepthwiseConv2dNative",
    "_ITEXFusedMatMul", "_ITEXFusedMatMulGrad", "_ITEXFusedMatMulWithSum", "_ITEXPadWithConv2D",
    "_ITEXPadWithConv3D", "_ITEXPadWithDepthwiseConv2dNative_ITEXPadWithFusedConv2D",
    "_ITEXPadWithFusedConv3D", "_ITEXConv3D", "ScaledDotProductAttention",
    "ScaledDotProductAttentionInference", "ScaledDotProductAttentionGrad", "FusedDenseBiasAddGelu",
    "FusedDenseBiasAddGeluGrad"]

def inferListOps : List String :=
  ["Add", "AddN", "AddV2", "AvgPool", "AvgPool3D", "AvgPool3DGrad", "AvgPoolGrad", "BiasAdd",
    "BiasAddGrad", "BiasAddV1", "Elu", "EluGrad", "Erf", "Erfc", "FloorDiv", "FusedBatchNormV2",
    "FusedBatchNormGradV2", "FusedBatchNormV3", "FusedBatchNormGradV3", "Gelu", "GeluGrad", "Inv",
    "ITEXGelu", "ITEXGeluGrad", "ITEXLayerNorm", "ITEXLayerNormGrad", "LayerNorm", "LayerNormGrad",
    "LeakyRelu", "LeakyReluGrad", "Log", "Log1p", "LogSoftmax", "Mul", "Prod", "RealDiv",
    "Reciprocal", "Selu", "SeluGrad", "Sigmoid", "SigmoidGrad", "Softmax", "Softplus",
    "SoftplusGrad", "Softsign", "SoftsignGrad", "Sqrt", "Sub", "SwishGrad", "Tanh", "TanhGrad",
    "_FusedBatchNormEx", "_ITEXFusedBatchNormGradEx", "_ITEXFusedBinary", "_ITEXFusedInstanceNorm",
    "_ITEXInstanceNorm", "_ITEXMish", "_ITEXSwish", "_MklLayerNorm"]

def denyListOps : List String :=
  ["Exp", "Expm1", "L2Loss", "Mean", "Pow", "SaveV2", "SoftmaxCrossEntropyWithLogits",
    "SparseSoftmaxCrossEntropyWithLogits", "Sum"]

def clearListOps : List String :=
  ["Abs", "ArgMax", "ArgMin", "BatchToSpace", "BatchToSpaceND", "BroadcastTo", "Ceil",
    "CheckNumerics", "ClipByValue", "Concat", "ConcatV2", "DepthToSpace", "DynamicPartition",
    "DynamicStitch", "EnsureShape", "Enter", "Equal", "Exit", "ExpandDims", "Fill", "Floor",
    "Gather", "GatherNd", "GatherV2", "Greater", "GreaterEqual", "Identity", "IdentityN",
    "IsFinite", "IsInf", "IsNan", "Less", "LessEqual", "Max", "MaxPool", "MaxPool3D",
    "MaxPool3DGrad", "MaxPool3DGradGrad", "MaxPoolGrad", "MaxPoolGradGrad", "MaxPoolGradGradV2",
    "MaxPoolGradV2", "MaxPoolV2", "Maximum", "Merge", "Min", "Minimum", "MirrorPad",
    "MirrorPadGrad", "Neg", "NextIteration", "NotEqual", "OneHot", "OnesLike", "Pack", "Pad",
    "PadV2", "PreventGradient", "Rank", "Relu", "Relu6", "Relu6Grad", "ReluGrad", "Reshape",
    "ResizeNearestNeighbor", "ResizeNearestNeighborGrad", "Reverse", "ReverseSequence",
    "ReverseV2", "Round", "Select", "SelectV2", "Shape", "ShapeN", "Sign", "Size", "Slice",
    "Snapshot", "SpaceToBatch", "SpaceToBatchND", "SpaceToDepth", "Split", "SplitV", "Squeeze",
    "StopGradient", "StridedSlice", "StridedSliceGrad", "Switch", "Tile", "TopK", "TopKV2",
    "Transpose", "Unpack", "Where", "ZerosLike"]

/-- `f16_allowlist_`, `f16_denylist_`, `f16_inferlist_` and `f16_clearlist_`. -/
structure OpLists where
  allow : List String
  deny : List String
  infer : List String
  clear : List String
deriving DecidableEq, Repr

/-- The operators that the options add to and remove from each list. -/
structure ListUpdates where
  allowAdd : List String := []
  allowRemove : List String := []
  denyAdd : List String := []
  denyRemove : List String := []
  inferAdd : List String := []
  inferRemove : List String := []
  clearAdd : List String := []
  clearRemove : List String := []
deriving DecidableEq, Repr

def insertAll (list added : List String) : List String :=
  added.foldl (fun ops op => ops.insert op) list

def updateList (list toAdd toRemove : List String) : List String :=
  toRemove.foldl List.erase (insertAll list toAdd)

/-- `AutoMixedPrecisionListsGPU` and `AutoMixedPrecisionListsCPU`, before the
options. -/
def builtinLists : Mode → OpLists
  | .gpuFloat16 | .gpuBfloat16 =>
    { allow := insertAll allowListOps ["_ITEXFusedAddV2WithSoftmax"]
      deny := insertAll denyListOps ["_ITEXFusedAddN"]
      infer := inferListOps
      clear := insertAll clearListOps tensorListOps }
  | .cpuFloat16 | .cpuBfloat16 =>
    { allow := allowListOps
      deny := denyListOps.erase "Sum"
      infer := insertAll inferListOps ["Sum", "Square"]
      clear := insertAll clearListOps tensorListOps }

/-- `get_mixed_precision_lists` and its four getters. -/
def mixedPrecisionLists (mode : Mode) (updates : ListUpdates) : OpLists :=
  let lists := builtinLists mode
  { allow := updateList lists.allow updates.allowAdd updates.allowRemove
    deny := updateList lists.deny updates.denyAdd updates.denyRemove
    infer := updateList lists.infer updates.inferAdd updates.inferRemove
    clear := updateList lists.clear updates.clearAdd updates.clearRemove }

def validateLists (lists : OpLists) : Except Failure Unit :=
  if (lists.allow ++ lists.deny ++ lists.infer ++ lists.clear).Nodup then .ok ()
  else .error (.status .invalidArgument "Op lists have conflicting entries")

/-- No operator is on two lists. -/
structure OpLists.Disjoint (lists : OpLists) : Prop where
  allow_deny : ∀ op ∈ lists.allow, op ∉ lists.deny
  allow_infer : ∀ op ∈ lists.allow, op ∉ lists.infer
  allow_clear : ∀ op ∈ lists.allow, op ∉ lists.clear
  deny_infer : ∀ op ∈ lists.deny, op ∉ lists.infer
  deny_clear : ∀ op ∈ lists.deny, op ∉ lists.clear
  infer_clear : ∀ op ∈ lists.infer, op ∉ lists.clear

theorem disjoint_of_validateLists {lists : OpLists} {u : Unit}
    (valid : validateLists lists = .ok u) : lists.Disjoint := by
  unfold validateLists at valid
  split at valid
  next nodup =>
    simp only [List.nodup_append, List.mem_append] at nodup
    obtain ⟨⟨⟨-, -, allowDeny⟩, -, allowInfer⟩, -, allowClear⟩ := nodup
    exact
      { allow_deny := fun op left right => allowDeny op left op right rfl
        allow_infer := fun op left right => allowInfer op (.inl left) op right rfl
        allow_clear := fun op left right => allowClear op (.inl (.inl left)) op right rfl
        deny_infer := fun op left right => allowInfer op (.inr left) op right rfl
        deny_clear := fun op left right => allowClear op (.inl (.inr left)) op right rfl
        infer_clear := fun op left right => allowClear op (.inr left) op right rfl }
  · cases valid

/-- The operators that the colour-forcing passes treat specially are placed as
those passes expect: loop operators are on the clear list, `Cast` on no list. -/
structure OpLists.Forcible (lists : OpLists) : Prop where
  disjoint : lists.Disjoint
  nextIteration : "NextIteration" ∈ lists.clear
  merge : "Merge" ∈ lists.clear
  cast : "Cast" ∉ lists.deny ∧ "Cast" ∉ lists.infer ∧ "Cast" ∉ lists.clear

/-- A number for each operator name, so that names are compared by arithmetic. -/
def opCode (op : String) : Nat :=
  op.toByteArray.data.toList.foldl (fun code byte => code * 256 + byte.toNat) 0

/-- Every operator that some built-in list names. -/
def builtinOps : List String :=
  allowListOps ++ denyListOps ++ inferListOps ++ clearListOps ++ tensorListOps ++
    ["_ITEXFusedAddV2WithSoftmax", "_ITEXFusedAddN", "Square", "Cast"]

theorem builtinOps_nodup : builtinOps.Nodup :=
  List.Nodup.of_map opCode (by decide +kernel)

theorem mem_insertAll {list added : List String} {op : String} :
    op ∈ insertAll list added ↔ op ∈ list ∨ op ∈ added := by
  unfold insertAll
  induction added generalizing list with
  | nil => simp
  | cons head tail ih =>
    rw [List.foldl_cons, ih, List.mem_insert_iff]
    simp only [List.mem_cons]
    tauto

theorem builtinLists_forcible (mode : Mode) : (builtinLists mode).Forcible := by
  have nodup := builtinOps_nodup
  have denyNodup : denyListOps.Nodup := by
    refine List.Nodup.sublist ?_ nodup
    simp only [builtinOps, List.append_assoc]
    exact (List.sublist_append_left _ _).trans (List.sublist_append_right _ _)
  have sumDenied : "Sum" ∈ denyListOps := by decide
  have loopOps : "NextIteration" ∈ clearListOps ∧ "Merge" ∈ clearListOps := by decide +kernel
  simp only [builtinOps, List.nodup_append, List.mem_append, List.mem_cons, List.not_mem_nil, or_false] at nodup
  obtain ⟨⟨⟨⟨⟨-, -, denied⟩, -, inferred⟩, -, cleared⟩, -, listed⟩, -, extra⟩ := nodup
  have memErase : ∀ op, op ∈ denyListOps.erase "Sum" ↔ op ≠ "Sum" ∧ op ∈ denyListOps :=
    fun op => denyNodup.mem_erase_iff
  have names : "_ITEXFusedAddV2WithSoftmax" ≠ "_ITEXFusedAddN" ∧ "Cast" ≠ "_ITEXFusedAddN" ∧
      "Cast" ≠ "Sum" ∧ "Cast" ≠ "Square" := by decide +kernel
  have apart : (builtinLists mode).Disjoint := by
    cases mode <;> constructor <;> intro op left right <;>
      simp only [builtinLists, mem_insertAll, memErase, List.mem_cons, List.not_mem_nil, or_false] at left right <;>
      grind
  refine ⟨apart, ?_, ?_, ?_⟩ <;> cases mode <;>
    simp only [builtinLists, mem_insertAll, memErase, List.mem_cons, List.not_mem_nil, or_false] <;>
    grind

theorem insertAll_nodup {list : List String} (nodup : list.Nodup) (added : List String) :
    (insertAll list added).Nodup := by
  unfold insertAll
  induction added generalizing list with
  | nil => exact nodup
  | cons head tail ih => exact ih nodup.insert

theorem validateLists_builtinLists (mode : Mode) : validateLists (builtinLists mode) = .ok () := by
  have nodup := builtinOps_nodup
  simp only [builtinOps, List.nodup_append] at nodup
  obtain ⟨⟨⟨⟨⟨allowNodup, denyNodup, -⟩, inferNodup, -⟩, clearNodup, -⟩, -, -⟩, -, -⟩ := nodup
  have apart := (builtinLists_forcible mode).disjoint
  have ownNodup : (builtinLists mode).allow.Nodup ∧ (builtinLists mode).deny.Nodup ∧
      (builtinLists mode).infer.Nodup ∧ (builtinLists mode).clear.Nodup := by
    have eraseNodup : (denyListOps.erase "Sum").Nodup := denyNodup.erase _
    have clear := insertAll_nodup clearNodup tensorListOps
    cases mode with
    | gpuFloat16 | gpuBfloat16 =>
      exact ⟨insertAll_nodup allowNodup _, insertAll_nodup denyNodup _, inferNodup, clear⟩
    | cpuFloat16 | cpuBfloat16 =>
      exact ⟨allowNodup, eraseNodup, insertAll_nodup inferNodup _, clear⟩
  unfold validateLists
  rw [if_pos]
  simp only [List.nodup_append, List.mem_append]
  refine ⟨⟨⟨ownNodup.1, ownNodup.2.1, ?_⟩, ownNodup.2.2.1, ?_⟩, ownNodup.2.2.2, ?_⟩
  · rintro op left _ right rfl
    exact apart.allow_deny op left right
  · rintro op (left | left) _ right rfl
    · exact apart.allow_infer op left right
    · exact apart.deny_infer op left right
  · rintro op ((left | left) | left) _ right rfl
    · exact apart.allow_clear op left right
    · exact apart.deny_clear op left right
    · exact apart.infer_clear op left right

end Itex.AutoMixedPrecision
