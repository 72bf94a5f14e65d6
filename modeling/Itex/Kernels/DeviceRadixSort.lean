import Itex.Kernels.GroupRadixSort
import Itex.Lib.Strides

/-!
Contract: the radix sort of a whole device (`utils/device_radix_sort.h`).

Owns: the traits of integral keys, the shares of the work groups, the two sweeps of a pass, and
the passes between the three pairs of arrays.

The scan of the bins is a parameter. Offsets and counts stay below 2^31. Work items run in lock step between
barriers, and work groups in any order.
-/

namespace Itex.Kernels.DeviceRadixSort

open Itex.Lib Itex.Utils

/-- The integral types, on the bits of their objects: a `bool` is 0 or 1 in a byte. -/
inductive Integral where
  | bool
  | unsigned
  | signed
  deriving DecidableEq, Repr

namespace Integral

variable {w : Nat}

/-- `~key` of a `bool`, which is promoted to `int` and converted back. -/
def boolNot (key : BitVec w) : BitVec w := if ~~~key.setWidth 32 = 0 then 0 else 1

/-- `KeyTraits::Convert`; a `bool` is unsigned. -/
def convert : Integral → Bool → BitVec w → BitVec w
  | bool, false, key => key
  | bool, true, key => boolNot key
  | unsigned, descending, key => KeyKind.unsigned.convert descending key
  | signed, descending, key => KeyKind.signed.convert descending key

def convertBack : Integral → Bool → BitVec w → BitVec w
  | bool, false, key => key
  | bool, true, key => boolNot key
  | unsigned, descending, key => KeyKind.unsigned.convertBack descending key
  | signed, descending, key => KeyKind.signed.convertBack descending key

/-- `PADDING_KEY`; the mask of a `bool` is `true`. -/
def paddingKey : Integral → BitVec w
  | bool => 1 ^^^ (1 - 1)
  | unsigned => KeyKind.mask1 w ^^^ (KeyKind.mask1 w - 1)
  | signed => KeyKind.mask1 w ^^^ (KeyKind.mask1 w - 1)

end Integral

/-! ## Geometry -/

def radixBits : Nat := 4

def radixDigits : Nat := 2 ^ radixBits

def elemsPerItem : Nat := 4

/-- What the dispatcher asks the device for. -/
structure Device where
  maxWorkGroupSize : Nat
  maxSubGroupSize : Nat
  physicalWorkItems : Nat

/-- The template parameters `GROUP_SIZE` and `SUBGROUP_SIZE`. -/
structure Sizes where
  groupSize : Nat
  subGroupSize : Nat

def Device.sizes (device : Device) : Sizes :=
  if device.maxWorkGroupSize < 512 then { groupSize := 256, subGroupSize := 16 }
  else if device.maxSubGroupSize = 32 then { groupSize := 512, subGroupSize := 32 }
  else { groupSize := 512, subGroupSize := 16 }

def Device.maxWorkgroupNum (device : Device) : Nat := device.physicalWorkItems / device.sizes.groupSize

namespace Sizes

def sliceSize (sizes : Sizes) : Nat := elemsPerItem * sizes.groupSize

def subGroupNum (sizes : Sizes) : Nat := (sizes.groupSize + sizes.subGroupSize - 1) / sizes.subGroupSize

def radixRank (sizes : Sizes) : GroupRadixRank where
  groupScan := { subGroupSize := sizes.subGroupSize, subGroupRange := sizes.subGroupNum }
  keysPerItem := elemsPerItem
  laneBits := radixBits - 1

end Sizes

/-- What both sweeps compute from the size. -/
structure Launch where
  sizes : Sizes
  sortSize : Nat
  maxWorkgroupNum : Nat

namespace Launch

def totalSlices (launch : Launch) : Nat :=
  (launch.sortSize + launch.sizes.sliceSize - 1) / launch.sizes.sliceSize

def workgroupNum (launch : Launch) : Nat := min launch.totalSlices launch.maxWorkgroupNum

def avgSlicesPerWg (launch : Launch) : Nat := launch.totalSlices / launch.workgroupNum

def bigShares (launch : Launch) : Nat := launch.totalSlices - launch.avgSlicesPerWg * launch.workgroupNum

def normalShareElems (launch : Launch) : Nat := launch.avgSlicesPerWg * launch.sizes.sliceSize

def normalBaseOffset (launch : Launch) : Nat := launch.bigShares * launch.sizes.sliceSize

def bigShareElems (launch : Launch) : Nat := launch.normalShareElems + launch.sizes.sliceSize

def wgOffset (launch : Launch) (wgId : Nat) : Nat :=
  if wgId < launch.bigShares then wgId * launch.bigShareElems
  else launch.normalBaseOffset + wgId * launch.normalShareElems

def wgEnd (launch : Launch) (wgId : Nat) : Nat :=
  if wgId < launch.bigShares then launch.wgOffset wgId + launch.bigShareElems
  else min launch.sortSize (launch.wgOffset wgId + launch.normalShareElems)

end Launch

/-! ## Upsweep -/

/-- `digit_counters[row][work item][sub_counter]`, and the unpacked counters of each work item. One
lane is left for each of the first sub-groups, as there are more sub-groups than lanes. -/
structure Counting where
  digitCounters : Nat → Nat → Nat → Nat
  localCounters : Nat → Nat → Nat

namespace Counting

def counterLanes : Nat := radixDigits / 4

def packingRatio : Nat := 4

def reset : Nat → Nat → Nat → Nat := fun _ _ _ => 0

/-- Every work item that has a key counts its digit, in a byte. -/
def countDigits (digitOf : Nat → Option Nat) (counting : Counting) : Counting :=
  { counting with
    digitCounters := fun row item sub =>
      match digitOf item with
      | some digit =>
        if digit / packingRatio = row ∧ digit % packingRatio = sub then
          (counting.digitCounters row item sub + 1) % 2 ^ 8
        else counting.digitCounters row item sub
      | none => counting.digitCounters row item sub }

def processFullSlice (sizes : Sizes) (digitAt : Nat → Nat) (offset : Nat) (counting : Counting) : Counting :=
  (List.range elemsPerItem).foldl
    (fun counting elem => counting.countDigits fun item => some (digitAt (offset + (item + elem * sizes.groupSize))))
    counting

/-- The work items go on by the size of the group until they are behind the end. -/
def processPartialSlice (sizes : Sizes) (digitAt : Nat → Nat) (offset stop : Nat) (counting : Counting) : Counting :=
  (List.range ((stop - offset + sizes.groupSize - 1) / sizes.groupSize)).foldl
    (fun counting round => counting.countDigits fun item =>
      if offset + (item + round * sizes.groupSize) < stop then
        some (digitAt (offset + (item + round * sizes.groupSize)))
      else none)
    counting

def unpackDigitCounts (sizes : Sizes) (counting : Counting) : Counting :=
  { counting with
    localCounters := fun item sub =>
      if item / sizes.subGroupSize < counterLanes then
        (List.range sizes.subGroupNum).foldl
          (fun sum column => sum + counting.digitCounters (item / sizes.subGroupSize)
            (item % sizes.subGroupSize + column * sizes.subGroupSize) sub)
          (counting.localCounters item sub)
      else counting.localCounters item sub }

def resetDigitCounters (counting : Counting) : Counting := { counting with digitCounters := reset }

/-- `ExtractCounts`: the work items of sub-group `bin / 4` have the counts of the bin. -/
def binCount (sizes : Sizes) (counting : Counting) (bin : Nat) : Nat :=
  (List.range sizes.subGroupSize).foldl
    (fun sum i => sum + counting.localCounters (bin / packingRatio * sizes.subGroupSize + i) (bin % packingRatio)) 0

end Counting

def unrollCount : Nat := 255 / elemsPerItem

/-- The batch of slices after which the counters are unpacked. -/
def processBatch (sizes : Sizes) (digitAt : Nat → Nat) (offset : Nat) (counting : Counting) : Counting :=
  let counted := (List.range unrollCount).foldl
    (fun counting i => counting.processFullSlice sizes digitAt (offset + i * sizes.sliceSize)) counting
  (counted.unpackDigitCounts sizes).resetDigitCounters

/-- The counts of a work group. -/
def upsweepGroup (launch : Launch) (digitAt : Nat → Nat) (wgId : Nat) : Nat → Nat :=
  let wgEnd := launch.wgEnd wgId
  let batches := strides (unrollCount * launch.sizes.sliceSize) wgEnd (processBatch launch.sizes digitAt)
    (launch.wgOffset wgId) { digitCounters := Counting.reset, localCounters := fun _ _ => 0 }
  let slices := strides launch.sizes.sliceSize wgEnd
    (fun offset counting => counting.processFullSlice launch.sizes digitAt offset) batches.1 batches.2
  let counted := slices.2.processPartialSlice launch.sizes digitAt slices.1 wgEnd
  (counted.unpackDigitCounts launch.sizes).binCount launch.sizes

/-- What a group writes to `counts[RADIX_DIGITS][WORKGROUP_NUM]`. -/
def upsweepWrites (launch : Launch) (digitAt : Nat → Nat) (wgId : Nat) : List (Nat × Nat) :=
  (List.range radixDigits).map fun bin =>
    (launch.workgroupNum * bin + wgId, upsweepGroup launch digitAt wgId bin)

section Rank

variable (sizes : Sizes) (digits : List Nat)

/-- `digit_counters[lane][work item][sub_counter]` in the flat memory of the scan. -/
def counterAt (digit item : Nat) : Nat :=
  (digit % sizes.radixRank.counterLanes * sizes.groupSize + item) * 2 + digit / sizes.radixRank.counterLanes

def counterPos (key : Nat) : Nat := counterAt sizes (digits.getD key 0) (key / elemsPerItem)

/-- `GroupExclusiveSum` of the packed counters, with the sum of the low halves added to the high. -/
def scanPacked (counters : Nat → Nat) (index : Nat) : BitVec 32 :=
  let itemSum := fun item => sizes.radixRank.laneSum counters item sizes.radixRank.counterLanes 0
  let lanes := sizes.radixRank.counterLanes
  let groupAllSum := sizes.radixRank.groupScan.groupSum itemSum 0
  sizes.radixRank.groupScan.exclusiveSum itemSum 0 (index / lanes) +
    sizes.radixRank.laneSum counters (index / lanes) (index % lanes) 0 + (0 + groupAllSum <<< 16)

def scanCounters (counters : Nat → Nat) (position : Nat) : Nat :=
  (scanPacked sizes counters (position / 2)).toNat / 2 ^ (16 * (position % 2)) % 2 ^ 16

def rankKeys : List Nat :=
  let counted := GroupRadixRank.countKeys (counterPos sizes digits) digits.length
  counted.2.mapIdx fun key localRank => localRank + scanCounters sizes counted.1 (counterPos sizes digits key)

/-- `RankKeys`: the keys of lower digits. -/
def exclusiveDigitPrefix (bin : Nat) : Nat :=
  scanCounters sizes (GroupRadixRank.countKeys (counterPos sizes digits) digits.length).1 (counterAt sizes bin 0)

end Rank

section Pass

variable {w : Nat} {V : Type}

abbrev Pair (w : Nat) (V : Type) : Type := BitVec w × V

structure Pass (w : Nat) (V : Type) where
  launch : Launch
  integral : Integral
  descending : Bool
  currentBit : Nat
  /-- The values of the registers behind the last one. -/
  unset : Nat → V

def Pass.digit (pass : Pass w V) (key : BitVec w) : Nat := bucket pass.currentBit radixBits key

def Pass.convertKey (pass : Pass w V) (pair : Pair w V) : Pair w V :=
  (pass.integral.convert pass.descending pair.1, pair.2)

def Pass.convertKeyBack (pass : Pass w V) (pair : Pair w V) : Pair w V :=
  (pass.integral.convertBack pass.descending pair.1, pair.2)

/-- `LoadKeys` and `LoadValues`. -/
def Pass.loadSlice (pass : Pass w V) (valid : List (Pair w V)) : List (Pair w V) :=
  (List.range pass.launch.sizes.sliceSize).map fun i =>
    match valid[i]? with
    | some pair => pass.convertKey pair
    | none => (pass.integral.paddingKey, pass.unset i)

/-- The offsets of the bins, and what was written so far, each with its address. -/
structure Scattering (w : Nat) (V : Type) where
  binOffset : Nat → Int
  writes : List (Int × Pair w V)

def Pass.processSlice (pass : Pass w V) (valid : List (Pair w V)) (scattering : Scattering w V) : Scattering w V :=
  let items := pass.loadSlice valid
  let digits := items.map fun item => pass.digit item.1
  let exclusive := exclusiveDigitPrefix pass.launch.sizes digits
  let inclusive := fun bin =>
    if bin = radixDigits - 1 then pass.launch.sizes.groupSize * elemsPerItem else exclusive (bin + 1)
  let relativeBinOffsets : Nat → Int := fun bin => scattering.binOffset bin - exclusive bin
  let exchanged := GroupRadixSortor.exchange (rankKeys pass.launch.sizes digits) items
  { binOffset := fun bin => relativeBinOffsets bin + inclusive bin
    writes := scattering.writes ++ (exchanged.take valid.length).mapIdx fun j item =>
      (relativeBinOffsets (pass.digit item.1) + j, pass.convertKeyBack item) }

/-- `ProcessRegion`: the slices of a group. -/
def Pass.processRegion (pass : Pass w V) (pairs : List (Pair w V)) (wgOffset wgEnd : Nat)
    (binOffset : Nat → Int) : List (Int × Pair w V) :=
  let sliceSize := pass.launch.sizes.sliceSize
  let full := strides sliceSize wgEnd
    (fun offset => pass.processSlice ((pairs.drop offset).take sliceSize)) wgOffset
    { binOffset, writes := [] }
  if full.1 < wgEnd then
    (pass.processSlice ((pairs.drop full.1).take (wgEnd - full.1)) full.2).writes
  else full.2.writes

def Pass.downsweepWrites (pass : Pass w V) (pairs : List (Pair w V)) (counts : List Nat) (wgId : Nat) :
    List (Int × Pair w V) :=
  pass.processRegion pairs (pass.launch.wgOffset wgId) (pass.launch.wgEnd wgId)
    fun bin => (counts.getD (pass.launch.workgroupNum * bin + wgId) 0 : Nat)

/-! ## Passes -/

/-- Writes to memory; `none` where one is outside of it. -/
def storeAll {α : Type} (memory : List α) (writes : List (Int × α)) : Option (List α) :=
  if ∀ write ∈ writes, 0 ≤ write.1 ∧ write.1 < memory.length then
    some (scatter memory (writes.map fun write => (write.1.toNat, write.2)))
  else none

/-- `DeviceRadixSortIterationImpl`: the counts it leaves and the output. The groups of both sweeps
run in the order of `schedule`. -/
def Pass.run (pass : Pass w V) (scanBins : List Nat → List Nat) (schedule : List Nat)
    (counts : List Nat) (pairs out : List (Pair w V)) : Option (List Nat × List (Pair w V)) :=
  let digitAt := fun i => ((pairs.map fun pair => pass.digit (pass.convertKey pair).1).getD i 0)
  let scanned := scanBins
    (scatter counts (schedule.flatMap fun wgId => upsweepWrites pass.launch digitAt wgId))
  (storeAll out (schedule.flatMap fun wgId => pass.downsweepWrites pairs scanned wgId)).map (scanned, ·)

/-- The arguments of `DispatchDeviceRadixSort` that all passes share, and what its memory held. -/
structure Dispatch (w : Nat) (V : Type) where
  device : Device
  integral : Integral
  descending : Bool
  scanBins : List Nat → List Nat
  /-- The order in which the groups of a pass run. -/
  schedule : Nat → List Nat
  unset : Nat → V

def Dispatch.pass (dispatch : Dispatch w V) (sortSize radixIter : Nat) : Pass w V where
  launch := { sizes := dispatch.device.sizes, sortSize, maxWorkgroupNum := dispatch.device.maxWorkgroupNum }
  integral := dispatch.integral
  descending := dispatch.descending
  currentBit := radixIter * radixBits
  unset := dispatch.unset

/-- The counts, `keys_tmp`/`vals_tmp` and `keys_out`/`vals_out`. -/
structure Arrays (w : Nat) (V : Type) where
  counts : List Nat
  tmp : List (Pair w V)
  out : List (Pair w V)

/-- A later pass of `DispatchDeviceRadixSort`. -/
def Dispatch.nextPass (dispatch : Dispatch w V) (sortSize : Nat) (arrays : Arrays w V) (radixIter : Nat) :
    Option (Arrays w V) :=
  if radixIter % 2 = 0 then
    ((dispatch.pass sortSize radixIter).run dispatch.scanBins (dispatch.schedule radixIter) arrays.counts arrays.out
      arrays.tmp).map fun result => { arrays with counts := result.1, tmp := result.2 }
  else
    ((dispatch.pass sortSize radixIter).run dispatch.scanBins (dispatch.schedule radixIter) arrays.counts arrays.tmp
      arrays.out).map fun result => { arrays with counts := result.1, out := result.2 }

/-- `DispatchDeviceRadixSort`: the output arrays, from the input and what the others held. -/
def Dispatch.deviceRadixSort (dispatch : Dispatch w V) (pairs tmp out : List (Pair w V)) : Option (List (Pair w V)) := do
  let sortSize := pairs.length
  let radixIters := w / radixBits
  let counts := List.replicate (dispatch.device.maxWorkgroupNum * radixDigits) 0
  let first ← (dispatch.pass sortSize 0).run dispatch.scanBins (dispatch.schedule 0) counts pairs tmp
  let second ← dispatch.nextPass sortSize { counts := first.1, tmp := first.2, out } 1
  let last ← (List.range' 2 (radixIters - 2)).foldlM (dispatch.nextPass sortSize) second
  return last.out

end Pass

end Itex.Kernels.DeviceRadixSort
