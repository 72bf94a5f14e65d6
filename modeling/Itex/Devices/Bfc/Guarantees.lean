import Itex.Devices.Bfc.System

/-!
Contract: what `BFCAllocator` guarantees over whole runs.

Owns: the representation invariant in the terms of the source, disjointness of
live allocations, recovery of memory, and the memory limit; each with the runs
on which the code departs from it.
-/

namespace Itex.Devices.Bfc

open Itex.Lib Itex.Lib.Segments

variable {allocator' allocator s : BFCAllocator} {event : Event} {numBytes : Nat} {region : AllocationRegion}
  {config : Config} {recycled : List Nat} {system : System}

/-! ## Representation -/

namespace BFCAllocator

/-- Following `next` through these chunks covers the addresses from `start` to
`stop` without gap or overlap; `prev` is the inverse of `next`, and every size
is a positive multiple of the granule. -/
def Walk (s : BFCAllocator) : Nat → Nat → List Nat → Nat → Prop
  | start, _, [], stop => start = stop
  | start, before, h :: rest, stop =>
    h < s.chunks.length ∧ (s.chunkAt h).ptr = start ∧ (s.chunkAt h).prev = before ∧
      (s.chunkAt h).next = rest.head?.getD kInvalidChunkHandle ∧
      0 < (s.chunkAt h).size ∧ kMinAllocationSize ∣ (s.chunkAt h).size ∧
      Walk s (start + (s.chunkAt h).size) h rest stop

/-- The representation invariant. `chunksOf` lists the chunks of each region and
`recycled` the handles on `free_chunks_list_`. -/
structure Represented (s : BFCAllocator) (recycled : List Nat)
    (chunksOf : AllocationRegion → List Nat) : Prop where
  tiled : ∀ region ∈ s.regions, chunksOf region ≠ [] ∧
    s.Walk region.ptr kInvalidChunkHandle (chunksOf region) region.endPtr
  slots : ∀ region ∈ s.regions, ∀ h ∈ chunksOf region, getHandle (s.chunkAt h).ptr s.regions = .ok h
  otherSlots : ∀ region ∈ s.regions, ∀ i h, region.handles[i]? = some h → h = kInvalidChunkHandle ∨
      h ∈ chunksOf region ∧ (s.chunkAt h).ptr = region.ptr + kMinAllocationSize * i
  binned : ∀ b h, h ∈ s.freeChunks b ↔ (∃ region ∈ s.regions, h ∈ chunksOf region) ∧
    (s.chunkAt h).inUse = false ∧ b = binNumForSize (s.chunkAt h).size
  once : ∀ b, (s.freeChunks b).Nodup
  separated : ∀ region ∈ s.regions, ∀ h ∈ chunksOf region,
    (s.chunkAt h).next ≠ kInvalidChunkHandle → (s.chunkAt h).inUse = false →
      (s.chunkAt (s.chunkAt h).next).inUse = true
  chain : Chain s s.freeChunksList recycled
  acyclic : recycled.Nodup
  apart : ∀ h ∈ recycled, ∀ region ∈ s.regions, h ∉ chunksOf region
  complete : ∀ h < s.chunks.length, h ∈ recycled ∨ ∃ region ∈ s.regions, h ∈ chunksOf region

theorem walk_of_tiles (shape : Shape s recycled) {hs : List Nat} {start stop : Nat} {before : Option Nat}
    (each : ∀ k ∈ hs, (s.graph recycled).live k) (tiles : Tiles (s.graph recycled) start hs stop)
    (linked : Linked (s.graph recycled) before hs) : s.Walk start (before.getD kInvalidChunkHandle) hs stop := by
  have field : ∀ {h : Nat} {link : Option Nat}, optHandle h = link → h = link.getD kInvalidChunkHandle := by
    rintro h link rfl
    unfold optHandle
    split <;> simp_all
  induction hs generalizing start before with
  | nil => exact tiles
  | cons h rest ih =>
    obtain ⟨address, restTiles⟩ := tiles
    obtain ⟨back, forward, restLinked⟩ := linked
    have hLive := each h (by simp)
    refine ⟨hLive.1, address, field back, field forward, shape.wellFormed.sizePos h hLive,
      shape.wellFormed.sizeUnit h hLive, ?_⟩
    exact ih (fun k member => each k (by simp [member])) restTiles restLinked

theorem Shape.slot_live (shape : Shape s recycled) (member : region ∈ s.regions) {i h : Nat}
    (stored : region.handles[i]? = some h) (valid : h ≠ kInvalidChunkHandle) :
    (s.graph recycled).live h ∧ (s.chunkAt h).ptr = region.ptr + kMinAllocationSize * i := by
  have ok := shape.regionsOk.each region member
  have inTable : i < region.handles.length := read_lt stored
  have slots := ok.slots
  have onGrid := ok.onGrid
  have ends := ok.ends
  have hasSlot : region.HasSlot (region.ptr + kMinAllocationSize * i) := by
    simp only [AllocationRegion.HasSlot, kMinAllocationSize] at *
    omega
  have index : (region.ptr + kMinAllocationSize * i - region.ptr) / kMinAllocationSize = i := by
    simp only [kMinAllocationSize]
    omega
  apply (shape.indexes _ h).1
  rw [slotAt_of_hasSlot shape.regionsOk member hasSlot, AllocationRegion.slot, if_pos hasSlot,
    index, List.getD_eq_getElem?_getD, stored, Option.getD_some, optHandle_of_ne valid]

theorem represented_of_inv (inv : Inv s recycled []) :
    ∃ chunksOf, Represented s recycled chunksOf := by
  have each : ∀ region : AllocationRegion, ∃ hs : List Nat, region ∈ s.regions →
      (∀ k ∈ hs, (s.graph recycled).live k) ∧
      Tiles (s.graph recycled) region.span.base hs region.span.stop ∧
      Linked (s.graph recycled) none hs ∧
      ∀ h, (s.graph recycled).live h → (s.graph recycled).Inside region.span h → h ∈ hs := by
    intro region
    by_cases member : region ∈ s.regions
    · obtain ⟨hs, found⟩ := exists_tiling inv.wellFormed
        (show region.span ∈ spansOf s.regions from ⟨region, member, rfl⟩)
      exact ⟨hs, fun _ => found⟩
    · exact ⟨[], fun isMember => absurd isMember member⟩
  choose chunksOf found using each
  have physical : ∀ h, (s.graph recycled).live h ↔ ∃ region ∈ s.regions, h ∈ chunksOf region := by
    intro h
    constructor
    · intro hLive
      obtain ⟨span, ⟨region, member, rfl⟩, located⟩ := inv.wellFormed.located h hLive
      exact ⟨region, member, (found region member).2.2.2 h hLive located.inside⟩
    · rintro ⟨region, member, inList⟩
      exact (found region member).1 h inList
  refine ⟨chunksOf,
    { tiled := ?_, slots := ?_, otherSlots := ?_, binned := ?_, once := ?_, separated := ?_,
      chain := inv.chain, acyclic := inv.nodup, apart := ?_, complete := ?_ }⟩
  · intro region member
    obtain ⟨live, tiles, linked, -⟩ := found region member
    have ok := inv.regionsOk.each region member
    have stop : region.span.stop = region.endPtr := ok.ends.symm
    refine ⟨?_, ?_⟩
    · intro empty
      rw [empty] at tiles
      have same : region.span.base = region.span.stop := tiles
      have nonempty := ok.nonempty
      simp only [AllocationRegion.span, Span.stop] at same
      omega
    · rw [stop] at tiles
      exact walk_of_tiles inv.toShape live tiles linked
  · intro region member h inList
    exact inv.toShape.getHandle_eq ((found region member).1 h inList)
  · intro region member i h stored
    by_cases valid : h = kInvalidChunkHandle
    · exact Or.inl valid
    · obtain ⟨hLive, address⟩ := inv.toShape.slot_live member stored valid
      refine Or.inr ⟨?_, address⟩
      have ok := inv.regionsOk.each region member
      have inTable : i < region.handles.length := read_lt stored
      have slots := ok.slots
      have onGrid := ok.onGrid
      have located := inv.wellFormed.inside_of_meets hLive
        (show region.span ∈ spansOf s.regions from ⟨region, member, rfl⟩)
        (by
          show region.ptr ≤ (s.chunkAt h).ptr
          omega)
        (by
          show (s.chunkAt h).ptr < region.ptr + region.memorySize
          simp only [kMinAllocationSize] at *
          omega)
      exact (found region member).2.2.2 h hLive located.inside
  · intro b h
    rw [inv.binned.mem b h, physical h]
    grind
  · intro b
    exact Itex.Lib.OrderedSet.nodup_of_sorted inv.linear (fun k inBin => inv.mem_live inBin)
      (inv.binned.sorted b)
  · intro region member h inList valid free
    exact inv.neighbour_used ((found region member).1 h inList) free
      (Or.inl (optHandle_of_ne valid))
  · intro h inRecycled region member inList
    exact ((found region member).1 h inList).2 inRecycled
  · intro h inTable
    by_cases inRecycled : h ∈ recycled
    · exact Or.inl inRecycled
    · exact Or.inr ((physical h).1 ⟨inTable, inRecycled⟩)

end BFCAllocator

namespace System

/-- Requests below `2 ^ 62` bytes. -/
def Moderate : Event → Prop
  | .allocateRaw numBytes _ => numBytes < 2 ^ 62
  | .deallocateRaw _ => True

theorem safe_of_moderate (moderate : Moderate event) (allocator : BFCAllocator) : Safe allocator event := by
  cases event with
  | allocateRaw numBytes answers =>
    have small : numBytes < 2 ^ 62 := moderate
    have rounds : roundedBytes numBytes = 256 * ((numBytes + 255) / 256) :=
      roundedBytes_of_le (by
        simp only [sizeRange, kMinAllocationSize]
        omega)
    refine ⟨?_, Or.inl ?_⟩
    · simp only [sizeRange, kMinAllocationSize]
      omega
    · rw [rounds]
      omega
  | deallocateRaw ptr => trivial

/-- In every run of requests below `2 ^ 62` bytes the representation invariant
holds in every state, and no call crashes: no `ITEX_CHECK` fails, no region is
missing and no handle or slot is out of range. -/
theorem represented_of_reachable {config : Config} {system : System}
    (reachable : Reachable config (fun _ event => Moderate event) system) :
    (∃ recycled chunksOf, system.allocator.Represented recycled chunksOf) ∧
      ∀ event, Moderate event → ∀ reason, step config system event ≠ .error (.crash reason) := by
  have safe := reachable.mono fun allocator event moderate => safe_of_moderate moderate allocator
  obtain ⟨recycled, tracks⟩ := tracks_of_reachable safe
  refine ⟨⟨recycled, BFCAllocator.represented_of_inv tracks.inv⟩, ?_⟩
  intro event moderate reason crashed
  have returns := step_returns config tracks (safe_of_moderate moderate system.allocator)
  rw [crashed] at returns
  exact returns

/-- A device that leaves a pool of two granules. -/
def tinyDevice : Config where
  globalMemSize := 838861312
  globalMemSize_lt := by decide
  isXeHPC := false
  allocMode := 1
  limitMemorySizeInMb := none

theorem represented_after_one_allocation : ∃ system, run tinyDevice [.allocateRaw 1 [4096]] = .ok system ∧
      system.live = [(4096, 1)] ∧ (∃ recycled chunksOf, system.allocator.Represented recycled chunksOf) ∧
      ∀ event, Moderate event → ∀ reason, step tinyDevice system event ≠ .error (.crash reason) := by
  have served : ∃ system, run tinyDevice [.allocateRaw 1 [4096]] = .ok system ∧
      system.live = [(4096, 1)] := ⟨_, rfl, rfl⟩
  obtain ⟨system, done, live⟩ := served
  have reachable : Reachable tinyDevice (fun _ event => Moderate event) system :=
    reachable_run (by simp [Moderate]) done
  exact ⟨system, done, live, represented_of_reachable reachable⟩

/-! ## Disjointness -/

/-- Two allocations share no byte. -/
def Apart (left right : Nat × Nat) : Prop :=
  left.1 + left.2 ≤ right.1 ∨ right.1 + right.2 ≤ left.1

def InRegion (allocator : BFCAllocator) (allocation : Nat × Nat) : Prop :=
  ∃ region ∈ allocator.regions, region.ptr ≤ allocation.1 ∧
    allocation.1 + allocation.2 ≤ region.ptr + region.memorySize

instance (left right : Nat × Nat) : Decidable (Apart left right) := by
  unfold Apart
  infer_instance

theorem Tracks.inRegion (tracks : Tracks system recycled)
    {allocation : Nat × Nat} (member : allocation ∈ system.live) : InRegion system.allocator allocation := by
  obtain ⟨size, enough, h, hLive, -, ptr, sizeIs⟩ := tracks.held allocation member
  obtain ⟨span, ⟨region, inRegions, rfl⟩, located⟩ := tracks.inv.wellFormed.located h hLive
  obtain ⟨lower, upper⟩ := located.inside
  simp only [AllocationRegion.span, Span.stop] at lower upper
  exact ⟨region, inRegions, by omega, by omega⟩

theorem Tracks.apart (tracks : Tracks system recycled) :
    system.live.Pairwise Apart := by
  have ne : system.live.Pairwise fun left right => left.1 ≠ right.1 :=
    List.pairwise_map.1 tracks.single
  refine List.Pairwise.imp_of_mem ?_ ne
  intro left right leftMember rightMember pointers
  obtain ⟨m, mEnough, h, hLive, -, hPtr, hSize⟩ := tracks.held left leftMember
  obtain ⟨n, nEnough, k, kLive, -, kPtr, kSize⟩ := tracks.held right rightMember
  have handles : h ≠ k := by
    rintro rfl
    exact pointers (hPtr.symm.trans kPtr)
  have beside := tracks.inv.wellFormed.disjoint h k hLive kLive handles
  unfold Apart
  omega

/-- In every run of safe requests the live allocations are pairwise disjoint and
each lies inside one region. -/
theorem live_disjoint_of_safe {config : Config} {system : System} (reachable : Reachable config Safe system) :
    system.live.Pairwise Apart ∧ ∀ allocation ∈ system.live, InRegion system.allocator allocation := by
  obtain ⟨recycled, tracks⟩ := tracks_of_reachable reachable
  exact ⟨tracks.apart, fun allocation member => tracks.inRegion member⟩

theorem live_disjoint_after_two_allocations :
    ∃ system, run tinyDevice [.allocateRaw 1 [4096], .allocateRaw 256 []] = .ok system ∧
      system.live = [(4352, 256), (4096, 1)] ∧ system.live.Pairwise Apart ∧
      ∀ allocation ∈ system.live, InRegion system.allocator allocation := by
  have served : ∃ system, run tinyDevice [.allocateRaw 1 [4096], .allocateRaw 256 []] =
      .ok system ∧ system.live = [(4352, 256), (4096, 1)] := ⟨_, rfl, rfl⟩
  obtain ⟨system, done, live⟩ := served
  have moderate : Reachable tinyDevice (fun _ event => Moderate event) system :=
    reachable_run (by simp [Moderate]) done
  have reachable : Reachable tinyDevice Safe system :=
    moderate.mono fun allocator event meets => safe_of_moderate meets allocator
  exact ⟨system, done, live, live_disjoint_of_safe reachable⟩

/-- A request of `2 ^ 64 - 1` bytes is rounded to none: the allocator hands out
an empty chunk, and hands out the same address again for the next request. -/
theorem live_overlap_after_wrapped_request :
    ¬ ∀ (config : Config) (system : System), Reachable config (fun _ _ => True) system → system.live.Pairwise Apart ∧
        ∀ allocation ∈ system.live, InRegion system.allocator allocation := by
  intro all
  have served : ∃ system, run tinyDevice [.allocateRaw 18446744073709551615 [4096],
      .allocateRaw 256 []] = .ok system ∧
      system.live = [(4096, 256), (4096, 18446744073709551615)] := ⟨_, rfl, rfl⟩
  obtain ⟨system, done, live⟩ := served
  have disjoint := (all tinyDevice system (reachable_run (by simp) done)).1
  rw [live] at disjoint
  revert disjoint
  decide

/-! ## Recovery of memory -/

/-- The free chunks, as address and size. -/
def freeIntervals (allocator : BFCAllocator) : Set (Nat × Nat) :=
  { interval | ∃ b, ∃ h ∈ allocator.freeChunks b, (allocator.chunkAt h).ptr = interval.1 ∧
    (allocator.chunkAt h).size = interval.2 }

/-- The region is one free chunk, in the bin of its size. -/
def Whole (allocator : BFCAllocator) (region : AllocationRegion) : Prop :=
  ∃ h, getHandle region.ptr allocator.regions = .ok h ∧ (allocator.chunkAt h).ptr = region.ptr ∧
    (allocator.chunkAt h).size = region.memorySize ∧
    (allocator.chunkAt h).prev = kInvalidChunkHandle ∧
    (allocator.chunkAt h).next = kInvalidChunkHandle ∧
    (allocator.chunkAt h).inUse = false ∧
    h ∈ allocator.freeChunks (binNumForSize region.memorySize)

/-- Giving back an allocation that was served from the pool restores the free
intervals. -/
def Restores (config : Config) (allocator : BFCAllocator) (numBytes : Nat) : Prop :=
  ∀ p allocator' answers, numBytes ≠ 0 → p ≠ 0 →
    allocator.findChunkPtr (binNumForSize (roundedBytes numBytes)) (roundedBytes numBytes)
      numBytes = .ok (p, allocator') →
    allocator.allocateRaw config numBytes answers = .ok (p, allocator', answers) ∧
      ∃ allocator'', allocator'.deallocateRaw p = .ok allocator'' ∧
        freeIntervals allocator'' = freeIntervals allocator

theorem mem_freeIntervals
    (inv : allocator.Inv recycled []) (interval : Nat × Nat) : interval ∈ freeIntervals allocator ↔
      Occupies (allocator.graph recycled) (fun h => (allocator.chunkAt h).inUse = false) interval.1 interval.2 := by
  constructor
  · rintro ⟨b, h, member, ptr, size⟩
    obtain ⟨⟨hLive, -⟩, free, -⟩ := (inv.binned.mem b h).1 member
    exact ⟨h, hLive, free, ptr, size⟩
  · rintro ⟨h, hLive, free, ptr, size⟩
    exact ⟨_, h, (inv.binned.mem _ h).2 ⟨⟨hLive, by simp⟩, free, rfl⟩, ptr, size⟩

theorem separated_of_inv (inv : allocator.Inv recycled []) :
    Separated (allocator.graph recycled) fun h => (allocator.chunkAt h).inUse = false := by
  rintro h k hLive link ⟨hFree, kFree⟩
  simpa using inv.separated h k hLive link hFree kFree

theorem freeIntervals_of_used {recycled' : List Nat}
    (inv : allocator.Inv recycled []) (inv' : allocator'.Inv recycled' [])
    (sameShapes : shapes allocator'.regions = shapes allocator.regions)
    (used : ∀ p n, allocator'.Used recycled' p n ↔ allocator.Used recycled p n) :
    freeIntervals allocator' = freeIntervals allocator := by
  have wf' := inv'.wellFormed
  rw [spansOf_congr sameShapes] at wf'
  ext interval
  rw [mem_freeIntervals inv', mem_freeIntervals inv]
  apply free_determined wf' inv.wellFormed (separated_of_inv inv') (separated_of_inv inv)
  intro p n
  simp only [Bool.not_eq_false]
  exact used p n

theorem Tracks.whole (tracks : Tracks system recycled) (empty : system.live = [])
    (member : region ∈ system.allocator.regions) : Whole system.allocator region := by
  have unused : ∀ h, (system.allocator.graph recycled).live h → (system.allocator.chunkAt h).inUse = false := by
    intro h hLive
    by_contra notFree
    have known := tracks.known _ _ ⟨h, hLive, by simpa using notFree, rfl, rfl⟩
    rw [empty] at known
    cases known
  obtain ⟨h, hLive, free, ptr, size, prev, next⟩ :=
    single_of_unused tracks.inv.wellFormed (separated_of_inv tracks.inv)
      (show region.span ∈ spansOf system.allocator.regions from ⟨region, member, rfl⟩)
      fun h hLive _ => unused h hLive
  have base : (system.allocator.chunkAt h).ptr = region.ptr := ptr
  have length : (system.allocator.chunkAt h).size = region.memorySize := size
  refine ⟨h, ?_, base, length, optHandle_eq_none.1 prev, optHandle_eq_none.1 next, free, ?_⟩
  · rw [← base]
    exact tracks.inv.toShape.getHandle_eq hLive
  · rw [← length]
    exact (tracks.inv.binned.mem _ h).2 ⟨⟨hLive, by simp⟩, free, rfl⟩

theorem Tracks.restores (config : Config)
    (tracks : Tracks system recycled) (safe : system.allocator.SafeRequest numBytes) :
    Restores config system.allocator numBytes := by
  intro p allocator' answers nonzero nonNull found
  refine ⟨?_, ?_⟩
  · simp only [BFCAllocator.allocateRaw, if_neg nonzero]
    rw [ok_bind found]
    simp only [ne_eq, nonNull, not_false_eq_true, if_true]
    rfl
  · have rounds := roundedBytes_of_le safe.1
    obtain ⟨q, s', recycled', done, inv', shapes', outcome⟩ :=
      BFCAllocator.findChunkPtr_spec tracks.inv (binNumForSize (roundedBytes numBytes)) numBytes
        (by omega) (dvd_roundedBytes numBytes) (safe.cutsProperly tracks.inv)
    rw [found] at done
    cases done
    rcases outcome with ⟨null, -⟩ | ⟨-, fresh, size, -, used⟩
    · exact absurd null nonNull
    · obtain ⟨allocator'', recycled'', done, inv'', used'', shapes''⟩ :=
        BFCAllocator.deallocateRaw_spec inv' ((used p size).2 (Or.inr ⟨rfl, rfl⟩))
      refine ⟨allocator'', done, freeIntervals_of_used tracks.inv inv'' (shapes''.trans shapes') ?_⟩
      grind

/-- In every run of safe requests, memory is recovered: without live allocations
every region is one free chunk, and an allocation from the pool that is given
back at once leaves the free intervals as they were. -/
theorem memory_recovered_of_safe {config : Config} {system : System} (reachable : Reachable config Safe system) :
    (system.live = [] → ∀ region ∈ system.allocator.regions, Whole system.allocator region) ∧
      ∀ numBytes, system.allocator.SafeRequest numBytes → Restores config system.allocator numBytes := by
  obtain ⟨recycled, tracks⟩ := tracks_of_reachable reachable
  exact ⟨fun empty region member => tracks.whole empty member, fun numBytes safe => tracks.restores config safe⟩

theorem memory_recovered_after_one_allocation :
    ∃ system, run tinyDevice [.allocateRaw 1 [4096], .deallocateRaw 4096] = .ok system ∧ system.live = [] ∧
      (∀ region ∈ system.allocator.regions, Whole system.allocator region) ∧
      Restores tinyDevice system.allocator 512 := by
  have served : ∃ system, run tinyDevice [.allocateRaw 1 [4096], .deallocateRaw 4096] =
      .ok system ∧ system.live = [] ∧ system.allocator.SafeRequest 512 :=
    ⟨_, rfl, rfl, by decide, Or.inl (by decide)⟩
  obtain ⟨system, done, live, safe⟩ := served
  have moderate : Reachable tinyDevice (fun _ event => Moderate event) system :=
    reachable_run (by simp [Moderate]) done
  have reachable : Reachable tinyDevice Safe system :=
    moderate.mono fun allocator event meets => safe_of_moderate meets allocator
  obtain ⟨whole, restores⟩ := memory_recovered_of_safe reachable
  exact ⟨system, done, live, whole live, restores 512 safe⟩

/-- After a request of `2 ^ 64 - 1` bytes was served from the pool, giving it
back fails a check in `InsertFreeChunkIntoBin`. -/
theorem memory_lost_after_wrapped_request :
    ¬ ∀ (config : Config) (system : System), Reachable config (fun _ _ => True) system →
      (system.live = [] → ∀ region ∈ system.allocator.regions, Whole system.allocator region) ∧
      ∀ numBytes, numBytes < sizeRange → Restores config system.allocator numBytes := by
  intro all
  have served : ∃ system, run tinyDevice [.allocateRaw 256 [4096]] = .ok system ∧
      ∃ allocator', system.allocator.findChunkPtr
        (binNumForSize (roundedBytes 18446744073709551615)) (roundedBytes 18446744073709551615)
        18446744073709551615 = .ok (4352, allocator') ∧
        allocator'.deallocateRaw 4352 = .error (.crash .checkFailed) := ⟨_, rfl, _, rfl, rfl⟩
  obtain ⟨system, done, allocator', found, crashed⟩ := served
  have restores := (all tinyDevice system (reachable_run (by simp) done)).2
    18446744073709551615 (by decide)
  obtain ⟨-, allocator'', returned, -⟩ := restores 4352 allocator' [] (by decide) (by decide) found
  rw [crashed] at returned
  cases returned

/-! ## The memory limit -/

/-- In mode 2 a request that the pool cannot serve and that passes the check
against `available_bytes` asks for a buffer that fits under the limit. -/
def BufferFits (config : Config) (allocator : BFCAllocator) : Event → Prop
  | .allocateRaw numBytes _ =>
    config.allocMode = 2 → numBytes ≠ 0 →
      (∃ allocator', allocator.findChunkPtr (binNumForSize (roundedBytes numBytes))
        (roundedBytes numBytes) numBytes = .ok (0, allocator')) →
      roundedBytes numBytes ≤ allocator.availableBytes →
      allocator.totalRegionAllocatedBytes +
        BFCAllocator.smallRegionBytes (roundedBytes numBytes) ≤ allocator.memoryLimit
  | .deallocateRaw _ => True

theorem ledger_start (built : construct config = .ok allocator) : allocator.Ledger := by
  obtain ⟨-, -, regions, -, total, curr, limit⟩ := construct_eq built
  refine ⟨?_, ?_, ?_, ?_⟩
  · simp [total, BFCAllocator.regionBytes, regions]
  · omega
  · have inRange := config.globalMemSize_lt
    omega
  · rw [curr]
    exact dvd_roundedBytes _

theorem ledger_allocateRaw (ledger : allocator.Ledger) {p : Nat} {answers rest : List Nat}
    (fits : BufferFits config allocator (.allocateRaw numBytes answers))
    (run : allocator.allocateRaw config numBytes answers = .ok (p, allocator', rest)) : allocator'.Ledger := by
  unfold BFCAllocator.allocateRaw at run
  split at run
  · cases run
    exact ledger
  · next nonzero =>
    obtain ⟨⟨first, s₁⟩, found, run⟩ := bind_ok.1 run
    have books := BFCAllocator.books_findChunkPtr found
    have ledger₁ := ledger.congr books
    dsimp only at run
    split at run
    · cases run
      exact ledger₁
    · next null =>
      obtain ⟨⟨extended, s₂, rest'⟩, grown, run⟩ := bind_ok.1 run
      have ledger₂ : s₂.Ledger := by
        unfold BFCAllocator.extend at grown
        split at grown
        · exact BFCAllocator.ledger_extendLarge ledger₁ grown
        · split at grown
          · next mode =>
            refine BFCAllocator.ledger_extendSmall ledger₁ ?_ grown
            intro available
            have isNull : first = 0 := by simpa using null
            rw [BFCAllocator.availableBytes, books.limit, books.total] at available
            rw [books.total, books.limit]
            exact fits mode nonzero ⟨s₁, isNull ▸ found⟩ available
          · cases grown
            exact ledger₁
      dsimp only at run
      split at run
      · obtain ⟨⟨second, s₃⟩, found₃, ran⟩ := bind_ok.1 run
        cases ran
        exact ledger₂.congr (BFCAllocator.books_findChunkPtr found₃)
      · cases run
        exact ledger₂

theorem ledger_step {system' : System}
    (ledger : system.allocator.Ledger) (fits : BufferFits config system.allocator event)
    (taken : step config system event = .ok system') : system'.allocator.Ledger := by
  refine step_allocator (fun _ _ _ _ _ isEvent run => ?_) (fun _ _ run => ?_) taken
  · exact ledger_allocateRaw ledger (isEvent ▸ fits) run
  · exact ledger.congr (BFCAllocator.framed_books.deallocateRaw run)

/-- In every run in which no mode 2 buffer exceeds the limit, the booked total is
the sum of the region sizes and stays within the limit, so that the available
bytes never wrap. -/
theorem limit_respected_of_fits {config : Config} {system : System}
    (reachable : Reachable config (BufferFits config) system) :
    system.allocator.totalRegionAllocatedBytes = system.allocator.regionBytes ∧
      system.allocator.totalRegionAllocatedBytes ≤ system.allocator.memoryLimit ∧
      wrapSub system.allocator.memoryLimit system.allocator.totalRegionAllocatedBytes =
        system.allocator.memoryLimit - system.allocator.totalRegionAllocatedBytes := by
  have ledger : system.allocator.Ledger := by
    induction reachable with
    | start built => exact ledger_start built
    | step _ fits taken ih => exact ledger_step ih fits taken
  refine ⟨ledger.balanced, ledger.within, ?_⟩
  have within := ledger.within
  have limited := ledger.limited
  simp only [wrapSub, sizeRange] at *
  omega

theorem limit_respected_after_one_allocation : ∃ system, run tinyDevice [.allocateRaw 1 [4096]] = .ok system ∧
      system.allocator.totalRegionAllocatedBytes = 512 ∧
      system.allocator.totalRegionAllocatedBytes = system.allocator.regionBytes ∧
      system.allocator.totalRegionAllocatedBytes ≤ system.allocator.memoryLimit := by
  have served : ∃ system, run tinyDevice [.allocateRaw 1 [4096]] = .ok system ∧
      system.allocator.totalRegionAllocatedBytes = 512 := ⟨_, rfl, rfl⟩
  obtain ⟨system, done, total⟩ := served
  have reachable : Reachable tinyDevice (BufferFits tinyDevice) system :=
    reachable_run (by
      intro event member allocator
      rw [List.mem_singleton.1 member]
      intro mode
      exact absurd mode (by decide)) done
  obtain ⟨balanced, within, -⟩ := limit_respected_of_fits reachable
  exact ⟨system, done, total, balanced, within⟩

/-- A device of one mebibyte in mode 2. -/
def smallBufferDevice : Config where
  globalMemSize := 1048576
  globalMemSize_lt := by decide
  isXeHPC := false
  allocMode := 2
  limitMemorySizeInMb := none

/-- In mode 2 the first request of one byte books a buffer of two mebibytes,
whatever the limit is. -/
theorem limit_exceeded_by_small_buffer :
    ¬ ∀ (config : Config) (system : System), config.allocMode = 1 ∨ config.allocMode = 2 →
      Reachable config (fun _ _ => True) system →
      system.allocator.totalRegionAllocatedBytes = system.allocator.regionBytes ∧
        system.allocator.totalRegionAllocatedBytes ≤ system.allocator.memoryLimit := by
  intro all
  have booked : (run smallBufferDevice [.allocateRaw 1 [4096]]).toOption.map (fun system =>
      (system.allocator.totalRegionAllocatedBytes, system.allocator.memoryLimit)) =
      some (2097152, 1048576) := by decide +kernel
  cases done : run smallBufferDevice [.allocateRaw 1 [4096]] with
  | error stop =>
    rw [done] at booked
    cases booked
  | ok system =>
    rw [done] at booked
    have within := (all smallBufferDevice system (Or.inr rfl) (reachable_run (by simp) done)).2
    simp only [Except.toOption, Option.map_some, Option.some.injEq, Prod.mk.injEq] at booked
    omega

end System

end Itex.Devices.Bfc
