import Itex.Lib.Binary32
import Itex.Lib.OrderedSet
import Itex.Devices.Bfc.Types

/-!
Contract: the operations of `BFCAllocator` (`itex/core/devices/bfc_allocator.cc`)
as state-passing functions.

Owns: chunk-table access, bins, splitting, merging, extending the pool, allocation
and deallocation, and the constructor.

`ITEX_GPUMalloc` answers from a list: with null or the base of a block disjoint from
every one granted before (each a region). A bin's `std::set` is the list of its
handles in comparator order.
-/

namespace Itex.Devices.Bfc

open Itex.Lib

/-- Process-wide settings the allocator reads: the device and two environment
variables. -/
structure Config where
  /-- `device_->get_info<global_mem_size>()`. -/
  globalMemSize : Nat
  globalMemSize_lt : globalMemSize < sizeRange
  isXeHPC : Bool
  /-- `ITEX_ALLOC_MODE`, 1 by default. -/
  allocMode : Int
  /-- `ITEX_LIMIT_MEMORY_SIZE_IN_MB`, if it is set. -/
  limitMemorySizeInMb : Option Int

/-- The mutable state of `BFCAllocator`. -/
structure BFCAllocator where
  memoryLimit : Nat
  chunks : List Chunk
  /-- `free_chunks` of each bin. -/
  bins : List (List Nat)
  regions : List AllocationRegion
  freeChunksList : Nat
  currRegionAllocationBytes : Nat
  totalRegionAllocatedBytes : Nat
deriving DecidableEq, Repr

namespace BFCAllocator

/-- The chunk a handle names; a default chunk outside the table. -/
def chunkAt (s : BFCAllocator) (h : Nat) : Chunk := s.chunks.getD h {}

def chunkFromHandle (s : BFCAllocator) (h : Nat) : Except Stop Chunk :=
  if h < s.chunks.length then .ok (s.chunkAt h) else .error (.crash .badHandle)

/-- Writing through the pointer `ChunkFromHandle` returns. -/
def modifyChunk (s : BFCAllocator) (h : Nat) (f : Chunk → Chunk) : Except Stop BFCAllocator :=
  if h < s.chunks.length then .ok { s with chunks := s.chunks.modify h f }
  else .error (.crash .badHandle)

def allocateChunk (s : BFCAllocator) : Except Stop (Nat × BFCAllocator) :=
  if s.freeChunksList ≠ kInvalidChunkHandle then do
    let c ← s.chunkFromHandle s.freeChunksList
    return (s.freeChunksList, { s with freeChunksList := c.next })
  else
    .ok (s.chunks.length, { s with chunks := s.chunks ++ [{}] })

def deallocateChunk (s : BFCAllocator) (h : Nat) : Except Stop BFCAllocator := do
  let s ← s.modifyChunk h fun c =>
    { c with allocationId := -1, binNum := kInvalidBinNum, next := s.freeChunksList }
  return { s with freeChunksList := h }

def deleteChunk (s : BFCAllocator) (h : Nat) : Except Stop BFCAllocator := do
  let c ← s.chunkFromHandle h
  let regions ← eraseHandle c.ptr s.regions
  { s with regions := regions }.deallocateChunk h

/-- `Bin::ChunkComparator`: by size, then by address. -/
def chunkLess (s : BFCAllocator) (ha hb : Nat) : Bool :=
  if (s.chunkAt ha).size != (s.chunkAt hb).size then
    decide ((s.chunkAt ha).size < (s.chunkAt hb).size)
  else decide ((s.chunkAt ha).ptr < (s.chunkAt hb).ptr)

def freeChunks (s : BFCAllocator) (binNum : Nat) : List Nat := s.bins.getD binNum []

def binFromIndex (s : BFCAllocator) (index : Int) : Except Stop (List Nat) :=
  if 0 ≤ index ∧ index.toNat < s.bins.length then .ok (s.freeChunks index.toNat)
  else .error (.crash .badHandle)

def insertFreeChunkIntoBin (s : BFCAllocator) (h : Nat) : Except Stop BFCAllocator := do
  let c ← s.chunkFromHandle h
  check (!c.inUse && c.binNum == kInvalidBinNum)
  let binNum := binNumForSize c.size
  let newBin ← s.binFromIndex binNum
  let s ← s.modifyChunk h fun c => { c with binNum := binNum }
  return { s with bins := s.bins.set binNum (OrderedSet.insert s.chunkLess h newBin) }

def removeFreeChunkFromBin (s : BFCAllocator) (h : Nat) : Except Stop BFCAllocator := do
  let c ← s.chunkFromHandle h
  check (!c.inUse && c.binNum != kInvalidBinNum)
  let bin ← s.binFromIndex c.binNum
  let rest := OrderedSet.erase s.chunkLess h bin
  check (rest.length < bin.length)
  let s := { s with bins := s.bins.set c.binNum.toNat rest }
  s.modifyChunk h fun c => { c with binNum := kInvalidBinNum }

def removeFreeChunkIterFromBin (s : BFCAllocator) (binNum h : Nat) : Except Stop BFCAllocator := do
  let c ← s.chunkFromHandle h
  check (!c.inUse && c.binNum != kInvalidBinNum)
  let s := { s with bins := s.bins.set binNum ((s.freeChunks binNum).erase h) }
  s.modifyChunk h fun c => { c with binNum := kInvalidBinNum }

/-- The write `neighbor->prev = prev` of `SplitChunk` and `Merge`, if there is a
neighbour. -/
def setPrev (s : BFCAllocator) (hNeighbor prev : Nat) : Except Stop BFCAllocator :=
  if hNeighbor ≠ kInvalidChunkHandle then
    s.modifyChunk hNeighbor fun neighbor => { neighbor with prev := prev }
  else .ok s

def splitChunk (s : BFCAllocator) (h numBytes : Nat) : Except Stop BFCAllocator := do
  let (hNewChunk, s) ← s.allocateChunk
  let c ← s.chunkFromHandle h
  check (!c.inUse && c.binNum == kInvalidBinNum)
  let newPtr := wrap (c.ptr + numBytes)
  let regions ← setHandle newPtr hNewChunk s.regions
  let hNeighbor := c.next
  let s ← { s with regions := regions }.modifyChunk hNewChunk fun new =>
    { new with
      ptr := newPtr, size := wrapSub c.size numBytes, allocationId := -1,
      prev := h, next := hNeighbor }
  let s ← s.modifyChunk h fun c => { c with size := numBytes, next := hNewChunk }
  let s ← s.setPrev hNeighbor hNewChunk
  s.insertFreeChunkIntoBin hNewChunk

/-- `Merge`: the chunk of `h2` is absorbed into the chunk of `h1`. -/
def merge (s : BFCAllocator) (h1 h2 : Nat) : Except Stop BFCAllocator := do
  let c1 ← s.chunkFromHandle h1
  let c2 ← s.chunkFromHandle h2
  check (!c1.inUse && !c2.inUse)
  let h3 := c2.next
  let s ← s.modifyChunk h1 fun c => { c with next := h3 }
  check (c2.prev == h1)
  let s ← s.setPrev h3 h1
  let s ← s.modifyChunk h1 fun c => { c with size := wrap (c.size + c2.size) }
  s.deleteChunk h2

/-- The first half of `TryToCoalesce`: absorb a free right neighbour. -/
def coalesceNext (s : BFCAllocator) (h : Nat) : Except Stop BFCAllocator := do
  let c ← s.chunkFromHandle h
  if c.next ≠ kInvalidChunkHandle then
    let n ← s.chunkFromHandle c.next
    if !n.inUse then
      let s ← s.removeFreeChunkFromBin c.next
      s.merge h c.next
    else .ok s
  else .ok s

/-- The second half of `TryToCoalesce`: let a free left neighbour absorb the
chunk. Returns the handle that survives. -/
def coalescePrev (s : BFCAllocator) (h : Nat) : Except Stop (Nat × BFCAllocator) := do
  let c ← s.chunkFromHandle h
  if c.prev ≠ kInvalidChunkHandle then
    let n ← s.chunkFromHandle c.prev
    if !n.inUse then
      let s ← s.removeFreeChunkFromBin c.prev
      let s ← s.merge c.prev h
      return (c.prev, s)
    else return (h, s)
  else return (h, s)

def tryToCoalesce (s : BFCAllocator) (h : Nat) : Except Stop (Nat × BFCAllocator) := do
  let s ← s.coalesceNext h
  s.coalescePrev h

/-- `kMaxInternalFragmentation` of `FindChunkPtr`. -/
abbrev kMaxInternalFragmentation : Nat := 134217728

/-- The two loops of `FindChunkPtr`: the first chunk that fits, from bin
`binNum` on. Returns the bin and the handle. -/
def findFreeChunk (s : BFCAllocator) (binNum roundedBytes : Nat) : Option (Nat × Nat) :=
  ((List.range kNumBins).drop binNum).findSome? fun b =>
    ((s.freeChunks b).find? fun h => decide (roundedBytes ≤ (s.chunkAt h).size)).map fun h =>
      (b, h)

/-- The split condition of `FindChunkPtr`, in the unsigned arithmetic the
comparison is carried out in. -/
def shouldSplit (size roundedBytes : Nat) : Bool :=
  decide (wrap (roundedBytes * 2) ≤ size) ||
    decide (kMaxInternalFragmentation ≤ wrapSub size roundedBytes)

/-- The split step of `FindChunkPtr`; `size` is the size of the chunk. -/
def splitToFit (s : BFCAllocator) (h size roundedBytes : Nat) : Except Stop BFCAllocator :=
  if shouldSplit size roundedBytes then s.splitChunk h roundedBytes else .ok s

/-- `FindChunkPtr`; the pointer is null when no chunk fits. -/
def findChunkPtr (s : BFCAllocator) (binNum roundedBytes numBytes : Nat) : Except Stop (Nat × BFCAllocator) :=
  match s.findFreeChunk binNum roundedBytes with
  | none => .ok (0, s)
  | some (b, h) => do
      let size := (s.chunkAt h).size
      let s ← s.removeFreeChunkIterFromBin b h
      let s ← s.splitToFit h size roundedBytes
      let s ← s.modifyChunk h fun c => { c with requestedSize := numBytes, allocationId := 0 }
      return ((s.chunkAt h).ptr, s)

/-! ## Growing the pool -/

/-- The device can grant `bytes` bytes at `p`: a block of at least one byte, in
the address space, that shares no byte with a block granted before. -/
def Grantable (s : BFCAllocator) (bytes p : Nat) : Prop :=
  0 < p ∧ 0 < bytes ∧ p + bytes < sizeRange ∧
    ∀ region ∈ s.regions, p + bytes ≤ region.ptr ∨ region.ptr + region.memorySize ≤ p

instance (s : BFCAllocator) (bytes p : Nat) : Decidable (s.Grantable bytes p) := by
  unfold Grantable
  infer_instance

/-- `ITEX_GPUMalloc`: the next answer of the device, null or a free block. -/
def gpuMalloc (s : BFCAllocator) (bytes : Nat) : List Nat → Except Stop (Nat × List Nat)
  | [] => .error .pending
  | p :: answers => if p = 0 ∨ s.Grantable bytes p then .ok (p, answers) else .error .refused

/-- `GetLimitAlloc`: 4095 MiB, or three quarters of the device on XeHPC, unless
the environment says otherwise. -/
def getLimitAlloc (config : Config) (s : BFCAllocator) : Nat :=
  let limitSize : Int :=
    if config.isXeHPC then ((s.memoryLimit / 1024 / 1024 * 3 / 4 : Nat) : Int) else 4095
  ((config.limitMemorySizeInMb.getD limitSize * 1024 * 1024) % (sizeRange : Int)).toNat

/-- `bytes * kBackpedalFactor` in binary32, truncated back to `size_t`. The
factor `0.9f` is `15099494 / 2 ^ 24`. -/
def backpedal (bytes : Nat) : Nat :=
  Binary32.roundSignificand 24 (Binary32.roundSignificand 24 bytes * 15099494) / 2 ^ 24

/-- The doubling loop of `ExtendLarge`. Sixty-four doublings clear a `size_t`,
so a loop that is still running then never ends. -/
def growRegion (roundedBytes : Nat) : Nat → Nat → Bool → Except Stop (Nat × Bool)
  | 0, _, _ => .error .hang
  | fuel + 1, bytes, increased =>
    if bytes < roundedBytes then growRegion roundedBytes fuel (wrap (bytes * 2)) true
    else .ok (bytes, increased)

/-- The back-off loop of `ExtendLarge`, entered after a null answer for
`bytes`. Returns the block (null if the loop gave up) and its size. -/
def backOff (s : BFCAllocator) (requested : Nat) : Nat → List Nat → Except Stop (Nat × Nat × List Nat)
  | bytes, answers =>
    let bytes := roundedBytes (backpedal bytes)
    if bytes < requested then .ok (0, bytes, answers)
    else
      match answers with
      | [] => .error .pending
      | p :: rest =>
        if p = 0 then backOff s requested bytes rest
        else if s.Grantable bytes p then .ok (p, bytes, rest)
        else .error .refused

/-- The allocation step of `ExtendLarge`: ask for `bytes`, then back off. -/
def mallocBackingOff (s : BFCAllocator) (requested bytes : Nat) (answers : List Nat) :
    Except Stop (Nat × Nat × List Nat) := do
  let (first, answers) ← s.gpuMalloc bytes answers
  if first = 0 then s.backOff requested bytes answers else return (first, bytes, answers)

/-- `available_bytes` of both extension modes. -/
def availableBytes (s : BFCAllocator) : Nat :=
  wrapSub s.memoryLimit s.totalRegionAllocatedBytes / kMinAllocationSize * kMinAllocationSize

/-- The common tail of both extension modes: enter the block as a region with
one free chunk. -/
def addRegion (s : BFCAllocator) (memAddr bytes : Nat) : Except Stop BFCAllocator := do
  let s := { s with
    totalRegionAllocatedBytes := wrap (s.totalRegionAllocatedBytes + bytes)
    regions := addAllocationRegion memAddr bytes s.regions }
  let (h, s) ← s.allocateChunk
  let s ← s.modifyChunk h fun c =>
    { c with
      ptr := memAddr, size := bytes, allocationId := -1,
      prev := kInvalidChunkHandle, next := kInvalidChunkHandle }
  let regions ← setHandle memAddr h s.regions
  { s with regions := regions }.insertFreeChunkIntoBin h

def extendLarge (config : Config) (s : BFCAllocator) (requested : Nat) (answers : List Nat) :
    Except Stop (Bool × BFCAllocator × List Nat) := do
  let available := s.availableBytes
  if available < requested then return (false, s, answers)
  let (curr, increased) ← growRegion requested 65 s.currRegionAllocationBytes false
  let s := { s with currRegionAllocationBytes := curr }
  let bytes := min (min curr available) (getLimitAlloc config s)
  let (memAddr, bytes, answers) ← s.mallocBackingOff requested bytes answers
  if memAddr = 0 then return (false, s, answers)
  let s := if increased then s else { s with currRegionAllocationBytes := wrap (curr * 2) }
  let s ← s.addRegion memAddr bytes
  return (true, s, answers)

/-- The region size `ExtendSmall` asks for. -/
def smallRegionBytes (requested : Nat) : Nat :=
  if requested ≤ 1048576 then 2097152
  else if requested < 10485760 then 20971520
  else wrap (2097152 * (wrap (requested + 2097152 - 1) / 2097152))

def extendSmall (s : BFCAllocator) (requested : Nat) (answers : List Nat) :
    Except Stop (Bool × BFCAllocator × List Nat) := do
  if s.availableBytes < requested then return (false, s, answers)
  let bytes := smallRegionBytes requested
  let (memAddr, answers) ← s.gpuMalloc bytes answers
  if memAddr = 0 then return (false, s, answers)
  let s ← s.addRegion memAddr bytes
  return (true, s, answers)

def extend (config : Config) (s : BFCAllocator) (requested : Nat) (answers : List Nat) :
    Except Stop (Bool × BFCAllocator × List Nat) :=
  if config.allocMode = 1 then s.extendLarge config requested answers
  else if config.allocMode = 2 then s.extendSmall requested answers
  else .ok (false, s, answers)

/-- `AllocateRaw`; returns the pointer and the answers it did not use. -/
def allocateRaw (config : Config) (s : BFCAllocator) (numBytes : Nat) (answers : List Nat) :
    Except Stop (Nat × BFCAllocator × List Nat) := do
  if numBytes = 0 then return (0, s, answers)
  let rounded := roundedBytes numBytes
  let binNum := binNumForSize rounded
  let (ptr, s) ← s.findChunkPtr binNum rounded numBytes
  if ptr ≠ 0 then return (ptr, s, answers)
  let (extended, s, answers) ← s.extend config rounded answers
  if extended then
    let (ptr, s) ← s.findChunkPtr binNum rounded numBytes
    return (ptr, s, answers)
  return (0, s, answers)

def deallocateRaw (s : BFCAllocator) (ptr : Nat) : Except Stop BFCAllocator := do
  if ptr = 0 then return s
  let h ← getHandle ptr s.regions
  check (h != kInvalidChunkHandle)
  let s ← s.modifyChunk h fun c => { c with allocationId := -1 }
  let (coalesced, s) ← s.tryToCoalesce h
  s.insertFreeChunkIntoBin coalesced

end BFCAllocator

def systemReservedMemory (isXeHPC : Bool) : Nat :=
  if isXeHPC then 1800 * 1024 * 1024 else 800 * 1024 * 1024

def binsChecked : Bool :=
  (List.range kNumBins).all fun b =>
    binNumForSize (binNumToSize b) == b && binNumForSize (binNumToSize b + 255) == b &&
      binNumForSize (binNumToSize b * 2 - 1) == b &&
      (decide (kNumBins ≤ b + 1) || binNumForSize (binNumToSize b * 2) != b)

/-- The value the constructor gives `memory_limit_`. -/
def initialMemoryLimit (config : Config) : Except Stop Nat :=
  if config.allocMode = 1 then do
    check (decide (systemReservedMemory config.isXeHPC < config.globalMemSize))
    return config.globalMemSize - systemReservedMemory config.isXeHPC
  else .ok config.globalMemSize

def construct (config : Config) : Except Stop BFCAllocator := do
  let memoryLimit ← initialMemoryLimit config
  check binsChecked
  return {
    memoryLimit := memoryLimit
    chunks := []
    bins := List.replicate kNumBins []
    regions := []
    freeChunksList := kInvalidChunkHandle
    currRegionAllocationBytes := roundedBytes memoryLimit
    totalRegionAllocatedBytes := 0 }

end Itex.Devices.Bfc
