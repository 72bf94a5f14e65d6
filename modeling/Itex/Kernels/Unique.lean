import Itex.Kernels.GroupRadixSort
import Itex.Kernels.Scan
import Itex.Lib.Fallible

/-!
Contract: the `UniqueWithCounts` op (`kernels/gpu/unique_op.{h,cc}`).

Owns: the six stages of `UniqueOp::Compute` with the memory they share: tensors hold whatever
was there until they are written, and an access outside of one has no result.
-/

namespace Itex.Kernels.Unique

open Itex.Lib Itex.Utils

inductive Stop where
  | invalidArgument (message : String)
  /-- `exit(-1)` in the scan. -/
  | exit
  /-- A kernel reads or writes outside of a tensor. -/
  | outOfBounds
  deriving DecidableEq, Repr

/-- The key types the op is registered for; a key is its 32 bits. -/
inductive KeyType where
  | int32
  | float32
  deriving DecidableEq, Repr

namespace KeyType

def kind : KeyType → KeyKind
  | int32 => .signed
  | float32 => .floating

def isFloatingPoint : KeyType → Bool
  | int32 => false
  | float32 => true

/-- `std::numeric_limits<KeyT>::max()`. -/
def maxValue : KeyType → BitVec 32
  | int32 => 0x7FFFFFFF#32
  | float32 => 0x7F7FFFFF#32

def isNaN : KeyType → BitVec 32 → Bool
  | int32, _ => false
  | float32, key => decide (0x7F800000#32 < key &&& 0x7FFFFFFF#32)

/-- `==` of two keys: floats compare by value, so the two zeros are equal. -/
def equal : KeyType → BitVec 32 → BitVec 32 → Bool
  | int32, first, second => first == second
  | float32, first, second => !float32.isNaN first && !float32.isNaN second &&
      (first == second || (first &&& 0x7FFFFFFF#32 == 0 && second &&& 0x7FFFFFFF#32 == 0))

end KeyType

/-- The tensors `Compute` allocates, and the registers of the two sorts. -/
inductive Buffer where
  | itemBoxIds
  | sortedInput
  | sortedInputInds
  | sortedInputUniqueIds
  | uniqueInputInds
  | segmentEnds
  | uniqueItemBoxIds
  | sortedUniqueInputInds
  | sortedUniquePerm
  | output
  | invSortedUniquePerm
  | count
  | idx
  deriving DecidableEq, Repr

/-- What the buffers hold before they are written. -/
abbrev Uninit : Type := Buffer → Nat → BitVec 32

def allocate (uninit : Uninit) (buffer : Buffer) (size : Nat) : List (BitVec 32) :=
  (List.range size).map (uninit buffer)

def load (memory : List (BitVec 32)) (address : Nat) : Except Stop (BitVec 32) :=
  match memory[address]? with
  | some value => .ok value
  | none => .error .outOfBounds

def store (memory : List (BitVec 32)) (address : Nat) (value : BitVec 32) : Except Stop (List (BitVec 32)) :=
  if address < memory.length then .ok (memory.set address value) else .error .outOfBounds

abbrev Pair : Type := BitVec 32 × BitVec 32

/-- `DispatchDeviceRadixSort` of pairs with integer keys. -/
abbrev DeviceRadixSort : Type := List Pair → List Pair

/-- `GroupRadixSortor` with 8 keys for each of 256 work items, in sub-groups of 16. -/
def sortor (keyType : KeyType) : GroupRadixSortor where
  radixRank := { groupScan := { subGroupSize := 16, subGroupRange := 16 }, keysPerItem := 8, laneBits := 3 }
  kind := keyType.kind

def keysPerGroup : Nat := 2048

/-- The registers of `RadixSortKernel`: behind the instances the keys are padded, and the values are
not set. -/
def padded (keyType : KeyType) (boxIds : Nat → BitVec 32) (instances : List Pair) : List Pair :=
  (List.range keysPerGroup).map fun i =>
    match instances[i]? with
    | some instance_ => instance_
    | none => (keyType.maxValue, boxIds i)

/-- `DispatchRadixSort` with the range of indices as values. The outputs are those of the sort; only
the group sort can leave some of what was in them. -/
def dispatchRadixSort (deviceSort : DeviceRadixSort) (keyType : KeyType) (keysIn : List (BitVec 32))
    (boxIds : Nat → BitVec 32) (keysOut indicesOut : List (BitVec 32)) : Except Stop (List Pair) :=
  let size := keysIn.length
  if size = 0 then .error (.invalidArgument "Invalid Value")
  else
    let pairs := keysIn.zip ((List.range size).map (BitVec.ofNat 32))
    if keysPerGroup < size ∧ keyType.isFloatingPoint = false then .ok (deviceSort pairs)
    else .ok ((sortor keyType).sort false (padded keyType boxIds pairs) (keysOut.zip indicesOut) size 0 32)

/-- `SegmentIndicatorFunctor`. -/
def segmentIndicator (keyType : KeyType) (sortedInput : List (BitVec 32)) (i : Nat) : BitVec 32 :=
  if 0 < i ∧ keyType.equal (sortedInput.getD i 0) (sortedInput.getD (i - 1) 0) = false then 1 else 0

/-- `DispatchScan`: inclusive, forward, from 0. -/
def uniqueIds (keyType : KeyType) (sortedInput result : List (BitVec 32)) : Except Stop (List (BitVec 32)) :=
  match Scan.scanKernel false false (segmentIndicator keyType sortedInput) (fun i => result.getD i 0) 0
      result.length with
  | some out => .ok ((List.range result.length).map out)
  | none => .error .exit

/-- `ExtractFirstOccurrenceIndicesKernel`, one index. -/
def extractAt (inputSize uniqSize : Nat) (sortedInputInds sortedInputUniqueIds : List (BitVec 32))
    (state : List (BitVec 32) × List (BitVec 32)) (i : Nat) :
    Except Stop (List (BitVec 32) × List (BitVec 32)) := do
  let uniqueId ← load sortedInputUniqueIds i
  let isFirst ← if i = 0 then pure true else do
    let before ← load sortedInputUniqueIds (i - 1)
    pure (uniqueId != before)
  if isFirst then
    let inputInd ← load sortedInputInds i
    let uniqueInputInds ← store state.1 uniqueId.toNat inputInd
    let segmentEnds ←
      if i = 0 then store state.2 (uniqSize - 1) (BitVec.ofNat 32 inputSize)
      else store state.2 (uniqueId - 1).toNat (BitVec.ofNat 32 i)
    pure (uniqueInputInds, segmentEnds)
  else pure state

/-- The memory `GatherOutputsAndInvertPermutationKernel` writes. -/
structure Gathered where
  output : List (BitVec 32)
  invSortedUniquePerm : List (BitVec 32)
  count : List (BitVec 32)

/-- `GatherOutputsAndInvertPermutationKernel`, one index. -/
def gatherAt (input segmentEnds : List (BitVec 32)) (sortedUnique : List Pair) (state : Gathered) (i : Nat) :
    Except Stop Gathered := do
  let inputInd ← load (sortedUnique.map Prod.fst) i
  let value ← load input inputInd.toNat
  let output ← store state.output i value
  let j ← load (sortedUnique.map Prod.snd) i
  let invSortedUniquePerm ← store state.invSortedUniquePerm j.toNat (BitVec.ofNat 32 i)
  let beg ← if j = 0 then pure 0 else load segmentEnds (j - 1).toNat
  let end_ ← load segmentEnds j.toNat
  let count ← store state.count i (end_ - beg)
  pure { output, invSortedUniquePerm, count }

/-- `LookupAndScatterUniqueIdsKernel`, one index. -/
def lookupAt (sortedInputInds sortedInputUniqueIds invSortedUniquePerm : List (BitVec 32))
    (idx : List (BitVec 32)) (i : Nat) : Except Stop (List (BitVec 32)) := do
  let uniqueId ← load sortedInputUniqueIds i
  let unique ← load invSortedUniquePerm uniqueId.toNat
  let inputInd ← load sortedInputInds i
  store idx inputInd.toNat unique

structure Outputs where
  output : List (BitVec 32)
  idx : List (BitVec 32)
  count : List (BitVec 32)
  deriving DecidableEq, Repr

/-- `UniqueOp::Compute` on a tensor of the given shape. -/
def compute (deviceSort : DeviceRadixSort) (keyType : KeyType) (uninit : Uninit) (shape : List Nat)
    (input : List (BitVec 32)) : Except Stop Outputs := do
  if 2 ^ 31 - 1 < input.length then
    throw (.invalidArgument "unique does not support input tensors larger than 2147483647 elements")
  if shape.length ≠ 1 then throw (.invalidArgument "unique expects a 1D vector.")
  let inputSize := input.length
  if inputSize = 0 then return { output := [], idx := [], count := [] }
  let sorted ← dispatchRadixSort deviceSort keyType input (uninit .itemBoxIds)
    (allocate uninit .sortedInput inputSize) (allocate uninit .sortedInputInds inputSize)
  let sortedInputInds := sorted.map Prod.snd
  let sortedInputUniqueIds ← uniqueIds keyType (sorted.map Prod.fst)
    (allocate uninit .sortedInputUniqueIds inputSize)
  let last ← load sortedInputUniqueIds (inputSize - 1)
  let uniqSize := (last + 1).toNat
  let extracted ← (List.range inputSize).foldlM
    (extractAt inputSize uniqSize sortedInputInds sortedInputUniqueIds)
    (allocate uninit .uniqueInputInds uniqSize, allocate uninit .segmentEnds uniqSize)
  let sortedUnique ← dispatchRadixSort deviceSort .int32 extracted.1 (uninit .uniqueItemBoxIds)
    (allocate uninit .sortedUniqueInputInds uniqSize) (allocate uninit .sortedUniquePerm uniqSize)
  let gathered ← (List.range uniqSize).foldlM (gatherAt input extracted.2 sortedUnique)
    { output := allocate uninit .output uniqSize
      invSortedUniquePerm := allocate uninit .invSortedUniquePerm uniqSize
      count := allocate uninit .count uniqSize }
  let idx ← (List.range inputSize).foldlM
    (lookupAt sortedInputInds sortedInputUniqueIds gathered.invSortedUniquePerm)
    (allocate uninit .idx inputSize)
  return { output := gathered.output, idx, count := gathered.count }

end Itex.Kernels.Unique
