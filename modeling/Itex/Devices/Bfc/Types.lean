import Mathlib

/-!
Contract: data model of the best-fit-with-coalescing device allocator
(`itex/core/devices/bfc_allocator.h`).

Owns: the constants, chunks, allocation regions and the region manager, size
rounding and bin numbering, and the ways a call can stop without returning.

`size_t` values and addresses are natural numbers below `2 ^ 64`; arithmetic on
`size_t` is reduced modulo `2 ^ 64`. `ITEX_DCHECK` is compiled out.
-/

namespace Itex.Devices.Bfc

/-- Number of values of a `size_t`. -/
abbrev sizeRange : Nat := 18446744073709551616

/-- Reduction of a `size_t` result. -/
def wrap (value : Nat) : Nat := value % sizeRange

/-- `left - right` on `size_t`. -/
def wrapSub (left right : Nat) : Nat := (left + sizeRange - right) % sizeRange

abbrev kMinAllocationBits : Nat := 8

abbrev kMinAllocationSize : Nat := 256

abbrev kNumBins : Nat := 21

abbrev kInvalidBinNum : Int := -1

abbrev kInvalidChunkHandle : Nat := 18446744073709551615

/-- Why a call aborts the process or leaves defined behaviour. -/
inductive Crash where
  /-- An `ITEX_CHECK` failed. -/
  | checkFailed
  /-- `RegionFor` found no region for the pointer and logged `FATAL`. -/
  | noRegion
  /-- A handle outside `chunks_`, or a bin outside `bins_space_`. -/
  | badHandle
  /-- A slot outside `handles_` of the region. -/
  | badSlot
deriving DecidableEq, Repr

/-- The ways a call can fail to return. -/
inductive Stop where
  | crash (reason : Crash)
  /-- The region-doubling loop of `ExtendLarge` runs forever. -/
  | hang
  /-- The call is waiting for an answer of `ITEX_GPUMalloc`. -/
  | pending
  /-- The environment broke its side of the contract: an answer of
  `ITEX_GPUMalloc` that is no free block, a size that is no `size_t`, or a
  deallocated pointer that is not live. -/
  | refused
deriving DecidableEq, Repr

/-- `ITEX_CHECK`. -/
def check (condition : Bool) : Except Stop Unit :=
  if condition then .ok () else .error (.crash .checkFailed)

/-- `BFCAllocator::Chunk`. -/
structure Chunk where
  size : Nat := 0
  requestedSize : Nat := 0
  allocationId : Int := -1
  ptr : Nat := 0
  prev : Nat := kInvalidChunkHandle
  next : Nat := kInvalidChunkHandle
  binNum : Int := kInvalidBinNum
deriving DecidableEq, Repr

def Chunk.inUse (chunk : Chunk) : Bool := chunk.allocationId != -1

/-- `BFCAllocator::RoundedBytes`. -/
def roundedBytes (bytes : Nat) : Nat :=
  wrap (kMinAllocationSize * (wrap (bytes + kMinAllocationSize - 1) / kMinAllocationSize))

/-- `BFCAllocator::BinNumToSize`. -/
def binNumToSize (index : Nat) : Nat := wrap (256 * 2 ^ index)

/-- `BFCAllocator::BinNumForSize`; `Log2FloorNonZero` is the floor of the
binary logarithm. -/
def binNumForSize (bytes : Nat) : Nat :=
  min (kNumBins - 1) (Nat.log2 (max bytes 256 / kMinAllocationSize))

theorem binNumForSize_lt (bytes : Nat) : binNumForSize bytes < kNumBins := by
  unfold binNumForSize kNumBins
  omega

theorem roundedBytes_of_le {bytes : Nat} (small : bytes ≤ sizeRange - kMinAllocationSize) :
    roundedBytes bytes = 256 * ((bytes + 255) / 256) := by
  unfold roundedBytes wrap kMinAllocationSize sizeRange at *
  omega

theorem dvd_roundedBytes (bytes : Nat) : kMinAllocationSize ∣ roundedBytes bytes := by
  unfold roundedBytes wrap kMinAllocationSize sizeRange
  omega

theorem roundedBytes_lt (bytes : Nat) : roundedBytes bytes < sizeRange :=
  Nat.mod_lt _ (by decide)

structure AllocationRegion where
  ptr : Nat
  memorySize : Nat
  endPtr : Nat
  handles : List Nat
deriving DecidableEq, Repr

namespace AllocationRegion

def make (ptr memorySize : Nat) : AllocationRegion where
  ptr := ptr
  memorySize := memorySize
  endPtr := wrap (ptr + memorySize)
  handles := List.replicate (wrap (memorySize + kMinAllocationSize - 1) / kMinAllocationSize)
    kInvalidChunkHandle

def indexFor (region : AllocationRegion) (p : Nat) : Nat :=
  wrapSub p region.ptr / 2 ^ kMinAllocationBits

def getHandle (region : AllocationRegion) (p : Nat) : Except Stop Nat :=
  match region.handles[region.indexFor p]? with
  | some h => .ok h
  | none => .error (.crash .badSlot)

def setHandle (region : AllocationRegion) (p h : Nat) : Except Stop AllocationRegion :=
  if region.indexFor p < region.handles.length then
    .ok { region with handles := region.handles.set (region.indexFor p) h }
  else .error (.crash .badSlot)

end AllocationRegion

/-! ## Region manager

`regions_` is kept sorted by `end_ptr`. `std::upper_bound` with `Comparator`
is the first region that ends after the pointer. -/

def addAllocationRegion (ptr memorySize : Nat) : List AllocationRegion → List AllocationRegion
  | [] => [AllocationRegion.make ptr memorySize]
  | region :: rest =>
    if ptr < region.endPtr then AllocationRegion.make ptr memorySize :: region :: rest
    else region :: addAllocationRegion ptr memorySize rest

/-- `RegionManager::get_handle`, through `RegionFor`. -/
def getHandle (p : Nat) : List AllocationRegion → Except Stop Nat
  | [] => .error (.crash .noRegion)
  | region :: rest => if p < region.endPtr then region.getHandle p else getHandle p rest

/-- `RegionManager::set_handle`, through `MutableRegionFor`. -/
def setHandle (p h : Nat) : List AllocationRegion → Except Stop (List AllocationRegion)
  | [] => .error (.crash .noRegion)
  | region :: rest =>
    if p < region.endPtr then do
      let region ← region.setHandle p h
      return region :: rest
    else do
      let rest ← setHandle p h rest
      return region :: rest

/-- `RegionManager::erase`. -/
def eraseHandle (p : Nat) (regions : List AllocationRegion) : Except Stop (List AllocationRegion) :=
  setHandle p kInvalidChunkHandle regions

end Itex.Devices.Bfc
