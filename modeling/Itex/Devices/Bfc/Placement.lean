import Itex.Devices.Bfc.Accounting
import Itex.Devices.Bfc.Invariant

/-!
Contract: what every call keeps of the allocator's representation, whatever the
client asks for.

Owns: the frame rule for addresses, bins and regions, and the invariant that
the bins are there, the regions are sound and no chunk sits at the null address,
for any run.
-/

namespace Itex.Devices.Bfc

open Itex.Lib

variable {binNum numBytes rounded : Nat} {f : Chunk → Chunk} {regions : List AllocationRegion}

theorem AllocationRegion.setHandle_ok {region region' : AllocationRegion} (ok : region.Ok)
    {p h : Nat} (stored : region.setHandle p h = .ok region') :
    region'.Ok ∧ region'.ptr = region.ptr ∧ region'.endPtr = region.endPtr ∧ p ≠ 0 := by
  unfold AllocationRegion.setHandle at stored
  split at stored
  · next inTable =>
    cases stored
    refine ⟨⟨ok.based, ok.nonempty, ok.onGrid, ok.ends, ok.inRange, by simpa using ok.slots⟩, rfl, rfl, ?_⟩
    -- The null address is below the region, so its index is beyond the table.
    rintro rfl
    have based := ok.based
    have onGrid := ok.onGrid
    have ends := ok.ends
    have inRange := ok.inRange
    rw [ok.slots, AllocationRegion.indexFor] at inTable
    simp only [wrapSub, sizeRange, kMinAllocationSize, kMinAllocationBits] at *
    omega
  · cases stored

/-- `set_handle` keeps the regions sound, and never succeeds at the null
address. -/
theorem RegionsOk.setHandle {regions' : List AllocationRegion} (ok : RegionsOk regions)
    {p h : Nat} (stored : setHandle p h regions = .ok regions') : RegionsOk regions' ∧ p ≠ 0 := by
  induction regions generalizing regions' with
  | nil => cases stored
  | cons region rest ih =>
    obtain ⟨firstBefore, restSorted⟩ := List.pairwise_cons.1 ok.sorted
    have regionOk := ok.each region List.mem_cons_self
    unfold Bfc.setHandle at stored
    split at stored
    · obtain ⟨region', written, ran⟩ := bind_ok.1 stored
      cases ran
      obtain ⟨regionOk', -, sameEnd, nonNull⟩ := AllocationRegion.setHandle_ok regionOk written
      refine ⟨⟨?_, List.pairwise_cons.2 ⟨?_, restSorted⟩⟩, nonNull⟩
      · intro other mem
        rcases List.mem_cons.1 mem with rfl | inRest
        · exact regionOk'
        · exact ok.tail.each other inRest
      · intro other inRest
        rw [sameEnd]
        exact firstBefore other inRest
    · obtain ⟨rest', written, ran⟩ := bind_ok.1 stored
      cases ran
      obtain ⟨restOk, nonNull⟩ := ih ok.tail written
      have sameShapes := shapes_setHandle written
      refine ⟨⟨?_, List.pairwise_cons.2 ⟨?_, restOk.sorted⟩⟩, nonNull⟩
      · intro other mem
        rcases List.mem_cons.1 mem with rfl | inRest
        · exact regionOk
        · exact restOk.each other inRest
      · intro other inRest
        have shape : (other.ptr, other.memorySize, other.endPtr) ∈ shapes rest := by
          rw [← sameShapes]
          exact List.mem_map.2 ⟨other, inRest, rfl⟩
        obtain ⟨old, oldMember, same⟩ := List.mem_map.1 shape
        simp only [Prod.mk.injEq] at same
        rw [← same.1]
        exact firstBefore old oldMember

namespace BFCAllocator

variable {s s' s'' : BFCAllocator} {h k n p : Nat}

/-! ## Frame -/

/-- No chunk moves, none is added, and the bins and regions stay in shape. -/
structure SamePlaces (s s' : BFCAllocator) : Prop where
  length : s'.chunks.length = s.chunks.length
  bins : s'.bins.length = s.bins.length
  ptr : ∀ k, (s'.chunkAt k).ptr = (s.chunkAt k).ptr
  regions : RegionsOk s.regions → RegionsOk s'.regions

theorem SamePlaces.refl (s : BFCAllocator) : SamePlaces s s :=
  ⟨rfl, rfl, fun _ => rfl, fun ok => ok⟩

theorem SamePlaces.trans (first : SamePlaces s s') (second : SamePlaces s' s'') : SamePlaces s s'' :=
  ⟨second.length.trans first.length, second.bins.trans first.bins,
    fun k => (second.ptr k).trans (first.ptr k), fun ok => second.regions (first.regions ok)⟩

/-- The handle is in the table whenever a write through it succeeds. -/
theorem modifyChunk_inTable (run : s.modifyChunk h f = .ok s') :
    h < s.chunks.length ∧ s' = s.setChunk h (f (s.chunkAt h)) := by
  by_cases inTable : h < s.chunks.length
  · rw [modifyChunk_eq inTable] at run
    cases run
    exact ⟨inTable, rfl⟩
  · unfold modifyChunk at run
    rw [if_neg inTable] at run
    cases run

theorem framed_places : Framed SamePlaces where
  refl := SamePlaces.refl
  trans := SamePlaces.trans
  modifyChunk run kept := by
    obtain ⟨inTable, rfl⟩ := modifyChunk_inTable run
    refine ⟨setChunk_length _ _ _, rfl, ?_, fun ok => ok⟩
    intro k
    rw [chunkAt_setChunk inTable, Function.update_apply]
    split
    · next same => rw [kept, same]
    · rfl
  setBin _ _ _ := ⟨rfl, List.length_set, fun _ => rfl, fun ok => ok⟩
  setRegions stored := ⟨rfl, rfl, fun _ => rfl, fun ok => (ok.setHandle stored).1⟩
  free _ _ := ⟨rfl, rfl, fun _ => rfl, fun ok => ok⟩

/-! ## The invariant -/

/-- The bins are there, the regions are sound, and no chunk outside `pending`
sits at the null address. -/
structure Placed (s : BFCAllocator) (pending : Nat → Prop) : Prop where
  bins : s.bins.length = kNumBins
  regionsOk : RegionsOk s.regions
  nonNull : ∀ k, k < s.chunks.length → ¬ pending k → (s.chunkAt k).ptr ≠ 0

variable {pending : Nat → Prop}

theorem Placed.congr (placed : Placed s pending) (same : SamePlaces s s') : Placed s' pending where
  bins := same.bins.trans placed.bins
  regionsOk := same.regions placed.regionsOk
  nonNull k inTable settled := by
    rw [same.ptr]
    rw [same.length] at inTable
    exact placed.nonNull k inTable settled

theorem Placed.allocateChunk (placed : Placed s fun _ => False)
    (run : s.allocateChunk = .ok (h, s')) : Placed s' (· = h) := by
  unfold BFCAllocator.allocateChunk at run
  split at run
  · obtain ⟨c, -, ran⟩ := bind_ok.1 run
    cases ran
    exact ⟨placed.bins, placed.regionsOk, fun k inTable _ => placed.nonNull k inTable id⟩
  · cases run
    refine ⟨placed.bins, placed.regionsOk, ?_⟩
    intro k inTable old
    have inOld : k < s.chunks.length := by
      simp only [List.length_append, List.length_cons, List.length_nil] at inTable
      omega
    have same : ({ s with chunks := s.chunks ++ [{}] } : BFCAllocator).chunkAt k = s.chunkAt k := by
      simp [chunkAt, List.getElem?_append_left inOld]
    rw [same]
    exact placed.nonNull k inOld id

theorem Placed.settle (placed : Placed s (· = h))
    (run : s.modifyChunk h f = .ok s') (nonNull : ∀ c, (f c).ptr ≠ 0) : Placed s' fun _ => False := by
  obtain ⟨inTable, rfl⟩ := modifyChunk_inTable run
  refine ⟨placed.bins, placed.regionsOk, ?_⟩
  intro k kInTable _
  rw [setChunk_length] at kInTable
  rw [chunkAt_setChunk inTable, Function.update_apply]
  split
  · exact nonNull _
  · next other => exact placed.nonNull k kInTable other

theorem Placed.splitChunk (placed : Placed s fun _ => False) (run : s.splitChunk h n = .ok s') :
    Placed s' fun _ => False := by
  obtain ⟨⟨new, s₁⟩, allocated, run⟩ := bind_ok.1 run
  obtain ⟨c, -, run⟩ := bind_ok.1 run
  obtain ⟨-, -, run⟩ := bind_ok.1 run
  obtain ⟨regions, stored, run⟩ := bind_ok.1 run
  obtain ⟨s₂, first, run⟩ := bind_ok.1 run
  obtain ⟨s₃, second, run⟩ := bind_ok.1 run
  obtain ⟨s₄, third, run⟩ := bind_ok.1 run
  have placed₁ := placed.allocateChunk allocated
  obtain ⟨-, nonNull⟩ := placed₁.regionsOk.setHandle stored
  have placed₂ := (placed₁.congr (framed_places.setRegions stored)).settle first fun _ => nonNull
  exact placed₂.congr ((framed_places.modifyChunk second fun _ => rfl).trans
    ((framed_places.setPrev third).trans (framed_places.insertFreeChunkIntoBin run)))

theorem Placed.findChunkPtr (placed : Placed s fun _ => False)
    (run : s.findChunkPtr binNum rounded numBytes = .ok (p, s')) : Placed s' fun _ => False := by
  unfold BFCAllocator.findChunkPtr at run
  split at run
  · cases run
    exact placed
  · obtain ⟨s₁, removed, run⟩ := bind_ok.1 run
    have placed₁ := placed.congr (framed_places.removeFreeChunkIterFromBin removed)
    obtain ⟨s₂, cut, run⟩ := bind_ok.1 run
    obtain ⟨s₃, marked, ran⟩ := bind_ok.1 run
    cases ran
    have placed₂ : Placed s₂ fun _ => False := by
      unfold splitToFit at cut
      split at cut
      · exact placed₁.splitChunk cut
      · cases cut
        exact placed₁
    exact placed₂.congr (framed_places.modifyChunk marked fun _ => rfl)

theorem Placed.findChunkPtr_nonNull {found : Nat × Nat}
    (placed : Placed s fun _ => False) (located : s.findFreeChunk binNum rounded = some found)
    (run : s.findChunkPtr binNum rounded numBytes = .ok (p, s')) : p ≠ 0 := by
  have placed' := placed.findChunkPtr run
  unfold BFCAllocator.findChunkPtr at run
  rw [located] at run
  obtain ⟨s₁, -, run⟩ := bind_ok.1 run
  obtain ⟨s₂, -, run⟩ := bind_ok.1 run
  obtain ⟨s₃, marked, ran⟩ := bind_ok.1 run
  cases ran
  obtain ⟨inTable, rfl⟩ := modifyChunk_inTable marked
  exact placed'.nonNull _ (by rw [setChunk_length]; exact inTable) id

end BFCAllocator

end Itex.Devices.Bfc
