import Itex.Devices.Bfc.Regions

/-!
Contract: `RegionManager` as one map from slots to handles, for any disjoint regions
(`itex/core/devices/bfc_allocator.h`).

Owns: `RegionFor`, sequences of calls that enter regions and store and erase handles, and the
map that they leave.

A slot is named by its first address. The last slot of a region may be cut short by its end.
-/

namespace Itex.Devices.Bfc

/-- `RegionManager::RegionFor`. -/
def regionFor (p : Nat) (regions : List AllocationRegion) : Except Stop AllocationRegion :=
  match regions.find? (p < ·.endPtr) with
  | some region => .ok region
  | none => .error (.crash .noRegion)

theorem getHandle_eq_regionFor (p : Nat) (regions : List AllocationRegion) :
    getHandle p regions = regionFor p regions >>= (·.getHandle p) := by
  induction regions with
  | nil => rfl
  | cons region rest ih =>
    rw [getHandle, regionFor, List.find?_cons]
    by_cases before : p < region.endPtr
    · rw [if_pos before, decide_eq_true before]
      rfl
    · rw [if_neg before, decide_eq_false before, ih]
      rfl

/-- Memory for a region. Neither its end nor the number of its handles wraps. -/
structure MemoryRange where
  ptr : Nat
  memorySize : Nat
  nonempty : 0 < memorySize
  inRange : ptr + memorySize < sizeRange
  fewSlots : memorySize + kMinAllocationSize ≤ sizeRange

namespace MemoryRange

def Contains (range : MemoryRange) (p : Nat) : Prop := range.ptr ≤ p ∧ p < range.ptr + range.memorySize

def Before (range other : MemoryRange) : Prop := range.ptr + range.memorySize ≤ other.ptr

def Apart (range other : MemoryRange) : Prop := range.Before other ∨ other.Before range

def slotOf (range : MemoryRange) (p : Nat) : Nat :=
  range.ptr + kMinAllocationSize * ((p - range.ptr) / kMinAllocationSize)

/-- The region with the handles of a map. -/
def region (range : MemoryRange) (handleOf : Nat → Nat) : AllocationRegion where
  ptr := range.ptr
  memorySize := range.memorySize
  endPtr := range.ptr + range.memorySize
  handles := (List.range ((range.memorySize + kMinAllocationSize - 1) / kMinAllocationSize)).map
    fun k => handleOf (range.ptr + kMinAllocationSize * k)

section

variable {range other : MemoryRange} {p : Nat} {handleOf : Nat → Nat}

theorem contains_slot {k : Nat} (bound : k < (range.memorySize + kMinAllocationSize - 1) / kMinAllocationSize) :
    range.Contains (range.ptr + kMinAllocationSize * k) := by
  have nonempty := range.nonempty
  simp only [Contains, kMinAllocationSize] at *
  omega

theorem make_eq (fresh : ∀ p, range.Contains p → handleOf p = kInvalidChunkHandle) :
    AllocationRegion.make range.ptr range.memorySize = range.region handleOf := by
  have fewSlots := range.fewSlots
  have counts : wrap (range.memorySize + kMinAllocationSize - 1) = range.memorySize + kMinAllocationSize - 1 :=
    Nat.mod_eq_of_lt (by simp only [kMinAllocationSize, sizeRange] at *; omega)
  have invalid : (range.region handleOf).handles =
      List.replicate ((range.memorySize + kMinAllocationSize - 1) / kMinAllocationSize) kInvalidChunkHandle := by
    apply List.eq_replicate_iff.2
    refine ⟨by rw [region, List.length_map, List.length_range], ?_⟩
    intro h mem
    obtain ⟨k, inside, rfl⟩ := List.mem_map.1 mem
    exact fresh _ (contains_slot (List.mem_range.1 inside))
  unfold AllocationRegion.make
  rw [counts, ← invalid, show wrap (range.ptr + range.memorySize) = _ from Nat.mod_eq_of_lt range.inRange]
  rfl

instance : Std.Symm Apart := ⟨fun _ _ => Or.symm⟩

theorem Apart.not_contains (apart : range.Apart other) (contains : range.Contains p) : ¬ other.Contains p := by
  simp only [Apart, Before, Contains] at *
  omega

section

variable (contains : range.Contains p)

include contains

theorem contains_slotOf : range.Contains (range.slotOf p) := by
  simp only [Contains, slotOf, kMinAllocationSize] at *
  omega

theorem indexFor_region : (range.region handleOf).indexFor p = (p - range.ptr) / kMinAllocationSize := by
  have inRange := range.inRange
  have difference : wrapSub p range.ptr = p - range.ptr := by
    simp only [Contains, wrapSub, sizeRange] at *
    omega
  exact congrArg (· / 2 ^ kMinAllocationBits) difference

theorem index_lt : (p - range.ptr) / kMinAllocationSize <
    (range.memorySize + kMinAllocationSize - 1) / kMinAllocationSize := by
  simp only [Contains, kMinAllocationSize] at *
  omega

theorem getHandle_region : (range.region handleOf).getHandle p = .ok (handleOf (range.slotOf p)) := by
  have stored : (range.region handleOf).handles[(p - range.ptr) / kMinAllocationSize]? =
      some (handleOf (range.slotOf p)) := by
    rw [region, List.getElem?_map, List.getElem?_range (index_lt contains)]
    rfl
  rw [AllocationRegion.getHandle, indexFor_region contains, stored]

theorem setHandle_region (h : Nat) : (range.region handleOf).setHandle p h =
    .ok (range.region (Function.update handleOf (range.slotOf p) h)) := by
  have bound := index_lt contains
  rw [AllocationRegion.setHandle, indexFor_region contains, if_pos (by simpa [region] using bound)]
  apply congrArg Except.ok
  apply congrArg (AllocationRegion.mk range.ptr range.memorySize (range.ptr + range.memorySize))
  apply List.ext_getElem (by simp [region])
  intro k _ _
  simp only [region, List.getElem_set, List.getElem_map, List.getElem_range, Function.update_apply, slotOf]
  by_cases same : (p - range.ptr) / kMinAllocationSize = k
  · rw [if_pos same, if_pos (by rw [same])]
  · rw [if_neg same, if_neg (by simp only [kMinAllocationSize] at *; omega)]

theorem region_update (apart : range.Apart other) (h : Nat) :
    other.region (Function.update handleOf (range.slotOf p) h) = other.region handleOf := by
  apply congrArg (AllocationRegion.mk other.ptr other.memorySize (other.ptr + other.memorySize))
  apply List.map_congr_left
  intro k inside
  apply Function.update_of_ne
  intro same
  exact apart.not_contains (contains_slotOf contains) (same ▸ contains_slot (List.mem_range.1 inside))

theorem slotOf_eq_iff {q : Nat} (contains' : other.Contains q) (apart : range ≠ other → range.Apart other) :
    range.slotOf p = other.slotOf q ↔
      range = other ∧ (p - range.ptr) / kMinAllocationSize = (q - range.ptr) / kMinAllocationSize := by
  constructor
  · intro sameSlot
    have same : range = other := by
      by_contra differ
      exact (apart differ).not_contains (contains_slotOf contains) (sameSlot ▸ contains_slotOf contains')
    subst same
    refine ⟨rfl, ?_⟩
    simp only [slotOf, kMinAllocationSize] at *
    omega
  · rintro ⟨rfl, sameIndex⟩
    rw [slotOf, slotOf, sameIndex]

end

end

end MemoryRange

section Sorted

variable {ranges : List MemoryRange} (sorted : ranges.Pairwise MemoryRange.Before) {range : MemoryRange}
  {handleOf : Nat → Nat}

include sorted

theorem addAllocationRegion_ranges (apart : ∀ other ∈ ranges, range.Apart other)
    (fresh : ∀ p, range.Contains p → handleOf p = kInvalidChunkHandle) : ∃ ranges' : List MemoryRange,
      addAllocationRegion range.ptr range.memorySize (ranges.map (·.region handleOf)) =
        ranges'.map (·.region handleOf) ∧
      ranges'.Perm (range :: ranges) ∧ ranges'.Pairwise MemoryRange.Before := by
  induction ranges with
  | nil => exact ⟨[range], congrArg (fun region => [region]) (MemoryRange.make_eq fresh), List.Perm.refl _,
      List.pairwise_singleton _ _⟩
  | cons first rest ih =>
    obtain ⟨firstBefore, restSorted⟩ := List.pairwise_cons.1 sorted
    have firstApart := apart first List.mem_cons_self
    have nonempty := range.nonempty
    rw [List.map_cons, addAllocationRegion]
    by_cases before : range.ptr < (first.region handleOf).endPtr
    · rw [if_pos before, MemoryRange.make_eq fresh]
      refine ⟨range :: first :: rest, rfl, List.Perm.refl _, List.pairwise_cons.2 ⟨?_, sorted⟩⟩
      have ends : range.Before first := by
        simp only [MemoryRange.Apart, MemoryRange.Before, MemoryRange.region] at *
        omega
      intro other mem
      rcases List.mem_cons.1 mem with rfl | inRest
      · exact ends
      · have next := firstBefore other inRest
        have nonempty' := first.nonempty
        simp only [MemoryRange.Before] at *
        omega
    · rw [if_neg before]
      obtain ⟨ranges', added, perm, sorted'⟩ := ih restSorted fun other mem => apart other (List.mem_cons_of_mem _ mem)
      refine ⟨first :: ranges', by rw [added, List.map_cons],
        (perm.cons first).trans (List.Perm.swap _ _ _), List.pairwise_cons.2 ⟨?_, sorted'⟩⟩
      intro other mem
      rcases List.mem_cons.1 (perm.mem_iff.1 mem) with rfl | inRest
      · exact Nat.le_of_not_lt before
      · exact firstBefore other inRest

section

variable (mem : range ∈ ranges) {p : Nat} (contains : range.Contains p)

include mem contains

theorem regionFor_ranges : regionFor p (ranges.map (·.region handleOf)) = .ok (range.region handleOf) := by
  have found : (ranges.map (·.region handleOf)).find? (p < ·.endPtr) = some (range.region handleOf) := by
    induction ranges with
    | nil => cases mem
    | cons first rest ih =>
      obtain ⟨firstBefore, restSorted⟩ := List.pairwise_cons.1 sorted
      rw [List.map_cons]
      rcases List.mem_cons.1 mem with rfl | inRest
      · exact List.find?_cons_of_pos (decide_eq_true contains.2)
      · rw [List.find?_cons_of_neg]
        · exact ih restSorted inRest
        · rw [decide_eq_true_eq]
          exact Nat.not_lt.2 (Nat.le_trans (firstBefore range inRest) contains.1)
  rw [regionFor, found]

theorem setHandle_ranges (h : Nat) : setHandle p h (ranges.map (·.region handleOf)) =
    .ok (ranges.map (·.region (Function.update handleOf (range.slotOf p) h))) := by
  induction ranges with
  | nil => cases mem
  | cons first rest ih =>
    obtain ⟨firstBefore, restSorted⟩ := List.pairwise_cons.1 sorted
    rw [List.map_cons, List.map_cons, setHandle]
    rcases List.mem_cons.1 mem with rfl | inRest
    · rw [if_pos (show p < (range.region handleOf).endPtr from contains.2), MemoryRange.setHandle_region contains]
      have others : rest.map (·.region (Function.update handleOf (range.slotOf p) h)) =
          rest.map (·.region handleOf) := List.map_congr_left fun other inRest =>
        MemoryRange.region_update contains (Or.inl (firstBefore other inRest)) h
      rw [others]
      rfl
    · have before := firstBefore range inRest
      have later : ¬ p < (first.region handleOf).endPtr := Nat.not_lt.2 (Nat.le_trans before contains.1)
      rw [if_neg later, ih restSorted inRest, MemoryRange.region_update contains (Or.inr before)]
      rfl

end

end Sorted

/-! ## Runs -/

inductive RegionCall where
  | add (range : MemoryRange)
  | set (p h : Nat)
  | erase (p : Nat)

def RegionCall.run (regions : List AllocationRegion) : RegionCall → Except Stop (List AllocationRegion)
  | .add range => .ok (addAllocationRegion range.ptr range.memorySize regions)
  | .set p h => setHandle p h regions
  | .erase p => eraseHandle p regions

/-- The ranges entered, and the handle of each slot. -/
structure SlotMap where
  ranges : List MemoryRange := []
  handleOf : Nat → Nat := fun _ => kInvalidChunkHandle

/-- Calls with ranges apart from each other and pointers into them, and their map. -/
inductive SlotMap.Reached : List RegionCall → SlotMap → Prop
  | none : Reached [] {}
  | add {calls : List RegionCall} {map : SlotMap} (reached : Reached calls map) (range : MemoryRange)
      (apart : ∀ other ∈ map.ranges, range.Apart other) :
      Reached (calls ++ [.add range]) { map with ranges := range :: map.ranges }
  | set {calls : List RegionCall} {map : SlotMap} (reached : Reached calls map) {range : MemoryRange}
      (mem : range ∈ map.ranges) {p : Nat} (contains : range.Contains p) (h : Nat) :
      Reached (calls ++ [.set p h]) { map with handleOf := Function.update map.handleOf (range.slotOf p) h }
  | erase {calls : List RegionCall} {map : SlotMap} (reached : Reached calls map) {range : MemoryRange}
      (mem : range ∈ map.ranges) {p : Nat} (contains : range.Contains p) :
      Reached (calls ++ [.erase p])
        { map with handleOf := Function.update map.handleOf (range.slotOf p) kInvalidChunkHandle }

/-- `regions_` holds the map, in the order of the addresses. -/
structure SlotMap.HeldBy (map : SlotMap) (regions : List AllocationRegion) : Prop where
  sorted : ∃ ranges : List MemoryRange, ranges.Perm map.ranges ∧ ranges.Pairwise MemoryRange.Before ∧
    regions = ranges.map (·.region map.handleOf)
  outside : ∀ p, (∀ range ∈ map.ranges, ¬ range.Contains p) → map.handleOf p = kInvalidChunkHandle

section Run

variable {map : SlotMap} {regions : List AllocationRegion} (held : map.HeldBy regions) {range : MemoryRange}

include held

theorem SlotMap.HeldBy.add (apart : ∀ other ∈ map.ranges, range.Apart other) :
    SlotMap.HeldBy { map with ranges := range :: map.ranges }
      (addAllocationRegion range.ptr range.memorySize regions) := by
  obtain ⟨ranges, perm, sorted, rfl⟩ := held.sorted
  have fresh : ∀ p, range.Contains p → map.handleOf p = kInvalidChunkHandle := fun p contains =>
    held.outside p fun other mem => (apart other mem).not_contains contains
  obtain ⟨ranges', added, perm', sorted'⟩ :=
    addAllocationRegion_ranges sorted (fun other mem => apart other (perm.mem_iff.1 mem)) fresh
  exact ⟨⟨ranges', perm'.trans (perm.cons range), sorted', added⟩,
    fun p outside => held.outside p fun other mem => outside other (List.mem_cons_of_mem _ mem)⟩

theorem SlotMap.HeldBy.set (mem : range ∈ map.ranges) {p : Nat} (contains : range.Contains p) (h : Nat) :
    ∃ regions', setHandle p h regions = .ok regions' ∧
      SlotMap.HeldBy { map with handleOf := Function.update map.handleOf (range.slotOf p) h } regions' := by
  obtain ⟨ranges, perm, sorted, rfl⟩ := held.sorted
  refine ⟨_, setHandle_ranges sorted (perm.mem_iff.2 mem) contains h, ⟨ranges, perm, sorted, rfl⟩, ?_⟩
  intro q outside
  have differs : q ≠ range.slotOf p := fun same =>
    outside range mem (same ▸ MemoryRange.contains_slotOf contains)
  exact (Function.update_of_ne differs _ _).trans (held.outside q outside)

end Run

theorem SlotMap.Reached.held {calls : List RegionCall} {map : SlotMap} (reached : SlotMap.Reached calls map) :
    ∃ regions, calls.foldlM RegionCall.run [] = .ok regions ∧ map.HeldBy regions := by
  induction reached with
  | none => exact ⟨[], rfl, ⟨[], List.Perm.refl _, List.Pairwise.nil, rfl⟩, fun _ _ => rfl⟩
  | add reached range apart ih =>
    obtain ⟨regions, ran, held⟩ := ih
    refine ⟨_, ?_, held.add apart⟩
    rw [List.foldlM_append, ran]
    rfl
  | set reached mem contains h ih =>
    obtain ⟨regions, ran, held⟩ := ih
    obtain ⟨regions', stored, held'⟩ := held.set mem contains h
    refine ⟨regions', ?_, held'⟩
    rw [List.foldlM_append, ran]
    exact (bind_pure _).trans stored
  | erase reached mem contains ih =>
    obtain ⟨regions, ran, held⟩ := ih
    obtain ⟨regions', stored, held'⟩ := held.set mem contains kInvalidChunkHandle
    refine ⟨regions', ?_, held'⟩
    rw [List.foldlM_append, ran]
    exact (bind_pure _).trans stored

/-- After any calls the regions are in the order of their ends, every pointer finds the region of its
range, and the handle read for it is the one last stored for its slot. -/
theorem regionManager_holds {calls : List RegionCall} {map : SlotMap} (reached : SlotMap.Reached calls map) :
    ∃ regions, calls.foldlM RegionCall.run [] = .ok regions ∧
      regions.Pairwise (·.endPtr ≤ ·.endPtr) ∧ regions.Perm (map.ranges.map (·.region map.handleOf)) ∧
      ∀ range ∈ map.ranges, ∀ p, range.Contains p → regionFor p regions = .ok (range.region map.handleOf) ∧
        getHandle p regions = .ok (map.handleOf (range.slotOf p)) ∧
        ∀ other ∈ map.ranges, ∀ q, other.Contains q → (range.slotOf p = other.slotOf q ↔
          range = other ∧ (p - range.ptr) / kMinAllocationSize = (q - range.ptr) / kMinAllocationSize) := by
  obtain ⟨regions, ran, held⟩ := reached.held
  obtain ⟨ranges, perm, sorted, rfl⟩ := held.sorted
  refine ⟨_, ran, ?_, perm.map _, ?_⟩
  · rw [List.pairwise_map]
    exact sorted.imp fun {range other} before => Nat.le_trans before (Nat.le_add_right other.ptr other.memorySize)
  · intro range mem p contains
    have finds : regionFor p (ranges.map (·.region map.handleOf)) = _ := regionFor_ranges sorted (perm.mem_iff.2 mem) contains
    refine ⟨finds, ?_, ?_⟩
    · rw [getHandle_eq_regionFor, finds]
      exact MemoryRange.getHandle_region contains
    · intro other mem' q contains'
      apply MemoryRange.slotOf_eq_iff contains contains'
      have apart : ranges.Pairwise MemoryRange.Apart := sorted.imp Or.inl
      exact apart.forall (perm.mem_iff.2 mem) (perm.mem_iff.2 mem')

/-- Two ranges that touch, the later one entered first. -/
theorem regionManager_holds_touching : ∃ regions,
    [.add ⟨1280, 300, by decide, by decide, by decide⟩, .add ⟨1024, 256, by decide, by decide, by decide⟩,
      .set 1540 7].foldlM RegionCall.run [] = .ok regions ∧ getHandle 1579 regions = .ok 7 := by
  have later := SlotMap.Reached.none.add ⟨1280, 300, by decide, by decide, by decide⟩ (by simp)
  have both := later.add ⟨1024, 256, by decide, by decide, by decide⟩ (by simp [MemoryRange.Apart, MemoryRange.Before])
  have stored := both.set (List.mem_cons_of_mem _ List.mem_cons_self) (p := 1540) (by simp [MemoryRange.Contains]) 7
  obtain ⟨regions, ran, -, -, looks⟩ := regionManager_holds stored
  refine ⟨regions, ran, (looks _ (List.mem_cons_of_mem _ List.mem_cons_self) 1579 ?_).2.1⟩
  simp [MemoryRange.Contains]

end Itex.Devices.Bfc
