import Itex.Lib.Segments
import Itex.Devices.Bfc.Types

/-!
Contract: the region manager as one partial map from slot addresses to handles.

Owns: the map `slotAt` that the region list denotes, and what lookup, update and
insertion of a region do to it.

A slot address is a region base plus a multiple of the granule. The manager agrees
with `slotAt` on those only; the allocator never asks for others.
-/

namespace Itex.Devices.Bfc

open Itex.Lib.Segments (Span)

def optHandle (h : Nat) : Option Nat := if h = kInvalidChunkHandle then none else some h

@[simp] theorem optHandle_invalid : optHandle kInvalidChunkHandle = none := rfl

theorem optHandle_eq_some {h k : Nat} : optHandle h = some k ↔ h = k ∧ h ≠ kInvalidChunkHandle := by
  unfold optHandle
  split <;> simp_all

theorem optHandle_eq_none {h : Nat} : optHandle h = none ↔ h = kInvalidChunkHandle := by
  unfold optHandle
  split <;> simp_all

theorem optHandle_of_ne {h : Nat} (valid : h ≠ kInvalidChunkHandle) : optHandle h = some h := by
  simp [optHandle, valid]

namespace AllocationRegion

def span (region : AllocationRegion) : Span := ⟨region.ptr, region.memorySize⟩

/-- The fields of one region fit together. -/
structure Ok (region : AllocationRegion) : Prop where
  based : 0 < region.ptr
  nonempty : 0 < region.memorySize
  onGrid : kMinAllocationSize ∣ region.memorySize
  ends : region.endPtr = region.ptr + region.memorySize
  inRange : region.endPtr < sizeRange
  slots : region.handles.length = region.memorySize / kMinAllocationSize

def HasSlot (region : AllocationRegion) (p : Nat) : Prop :=
  region.ptr ≤ p ∧ p < region.endPtr ∧ kMinAllocationSize ∣ p - region.ptr

instance (region : AllocationRegion) (p : Nat) : Decidable (region.HasSlot p) := by
  unfold HasSlot
  infer_instance

/-- The handle stored for a slot of the region. -/
def slot (region : AllocationRegion) (p : Nat) : Option Nat :=
  if region.HasSlot p then
    optHandle (region.handles.getD ((p - region.ptr) / kMinAllocationSize) kInvalidChunkHandle)
  else none

section

variable {region : AllocationRegion} (ok : region.Ok) {p : Nat}

include ok

theorem indexFor_eq (above : region.ptr ≤ p) (below : p < region.endPtr) :
    region.indexFor p = (p - region.ptr) / kMinAllocationSize := by
  have inRange := ok.inRange
  have difference : wrapSub p region.ptr = p - region.ptr := by
    simp only [wrapSub, sizeRange] at *
    omega
  rw [indexFor, difference]
  rfl

theorem indexFor_lt (above : region.ptr ≤ p) (below : p < region.endPtr) : region.indexFor p < region.handles.length := by
  have ends := ok.ends
  have onGrid := ok.onGrid
  rw [indexFor_eq ok above below, ok.slots]
  simp only [kMinAllocationSize] at *
  omega

theorem getHandle_eq (hasSlot : region.HasSlot p) :
    ∃ h, region.getHandle p = .ok h ∧ optHandle h = region.slot p := by
  have bound := indexFor_lt ok hasSlot.1 hasSlot.2.1
  refine ⟨region.handles[region.indexFor p], ?_, ?_⟩
  · simp [getHandle, bound]
  · rw [indexFor_eq ok hasSlot.1 hasSlot.2.1] at bound
    simp [slot, hasSlot, indexFor_eq ok hasSlot.1 hasSlot.2.1, bound]

end

theorem hasSlot_handles (region : AllocationRegion) (handles : List Nat) (p : Nat) :
    ({ region with handles := handles } : AllocationRegion).HasSlot p ↔ region.HasSlot p :=
  Iff.rfl

theorem setHandle_eq {region : AllocationRegion} (ok : region.Ok) {p : Nat} (hasSlot : region.HasSlot p) (h : Nat) :
    ∃ region', region.setHandle p h = .ok region' ∧ region'.Ok ∧
      region'.ptr = region.ptr ∧ region'.memorySize = region.memorySize ∧ region'.endPtr = region.endPtr ∧
      region'.slot = Function.update region.slot p (optHandle h) := by
  have bound := indexFor_lt ok hasSlot.1 hasSlot.2.1
  refine ⟨{ region with handles := region.handles.set (region.indexFor p) h }, ?_, ?_, rfl, rfl, rfl, ?_⟩
  · simp [setHandle, bound]
  · exact ⟨ok.based, ok.nonempty, ok.onGrid, ok.ends, ok.inRange, by simpa using ok.slots⟩
  · rw [indexFor_eq ok hasSlot.1 hasSlot.2.1] at bound ⊢
    funext q
    by_cases same : q = p
    · subst same
      simp [slot, hasSlot_handles, hasSlot, bound]
    · rw [Function.update_of_ne same]
      by_cases other : region.HasSlot q
      · have apart : (p - region.ptr) / kMinAllocationSize ≠
            (q - region.ptr) / kMinAllocationSize := by
          obtain ⟨pAbove, -, pGrid⟩ := hasSlot
          obtain ⟨qAbove, -, qGrid⟩ := other
          simp only [kMinAllocationSize] at *
          omega
        simp [slot, hasSlot_handles, other, List.getElem?_set_ne apart]
      · simp [slot, hasSlot_handles, other]

end AllocationRegion

/-- `regions_` is sorted, disjoint and each region is well formed. -/
structure RegionsOk (regions : List AllocationRegion) : Prop where
  each : ∀ region ∈ regions, region.Ok
  sorted : regions.Pairwise fun left right => left.endPtr ≤ right.ptr

theorem RegionsOk.tail {region : AllocationRegion} {rest : List AllocationRegion}
    (ok : RegionsOk (region :: rest)) : RegionsOk rest :=
  ⟨fun other mem => ok.each other (List.mem_cons_of_mem region mem), (List.pairwise_cons.1 ok.sorted).2⟩

/-- The handle stored for a slot address, over all regions. -/
def slotAt : List AllocationRegion → Nat → Option Nat
  | [], _ => none
  | region :: rest, p => if region.HasSlot p then region.slot p else slotAt rest p

def spansOf (regions : List AllocationRegion) : Set Span :=
  { span | ∃ region ∈ regions, region.span = span }

theorem slotAt_eq_some {regions : List AllocationRegion} {p h : Nat}
    (found : slotAt regions p = some h) : ∃ region ∈ regions, region.HasSlot p := by
  induction regions with
  | nil => cases found
  | cons region rest ih =>
    unfold slotAt at found
    grind

/-- A slot of a later region ends after none of the earlier ones. -/
theorem RegionsOk.head_before {region : AllocationRegion} {rest : List AllocationRegion}
    (ok : RegionsOk (region :: rest)) {other : AllocationRegion} (mem : other ∈ rest) {p : Nat}
    (above : other.ptr ≤ p) : ¬ p < region.endPtr := by
  have before := (List.pairwise_cons.1 ok.sorted).1 other mem
  omega

section

variable {regions : List AllocationRegion} (ok : RegionsOk regions) {region : AllocationRegion}
  (mem : region ∈ regions) {p : Nat} (hasSlot : region.HasSlot p)

include ok mem hasSlot

theorem slotAt_of_hasSlot : slotAt regions p = region.slot p := by
  induction regions with
  | nil => cases mem
  | cons first rest ih =>
    rcases List.mem_cons.1 mem with rfl | inRest
    · simp [slotAt, hasSlot]
    · have notFirst : ¬ first.HasSlot p := fun other =>
        ok.head_before inRest hasSlot.1 other.2.1
      rw [slotAt, if_neg notFirst]
      exact ih ok.tail inRest

theorem getHandle_slotAt : ∃ h, getHandle p regions = .ok h ∧ optHandle h = slotAt regions p := by
  rw [slotAt_of_hasSlot ok mem hasSlot]
  induction regions with
  | nil => cases mem
  | cons first rest ih =>
    rcases List.mem_cons.1 mem with rfl | inRest
    · rw [getHandle, if_pos hasSlot.2.1]
      exact AllocationRegion.getHandle_eq (ok.each region (by simp)) hasSlot
    · rw [getHandle, if_neg (ok.head_before inRest hasSlot.1)]
      exact ih ok.tail inRest

end

/-- The base, size and end of every region, in order. -/
def shapes (regions : List AllocationRegion) : List (Nat × Nat × Nat) :=
  regions.map fun region => (region.ptr, region.memorySize, region.endPtr)

theorem mem_spansOf_iff {regions : List AllocationRegion} {span : Span} :
    span ∈ spansOf regions ↔ ∃ stop, (span.base, span.length, stop) ∈ shapes regions := by
  constructor
  · rintro ⟨region, mem, rfl⟩
    exact ⟨region.endPtr, List.mem_map.2 ⟨region, mem, rfl⟩⟩
  · rintro ⟨stop, mem⟩
    obtain ⟨region, inRegions, same⟩ := List.mem_map.1 mem
    simp only [Prod.mk.injEq] at same
    exact ⟨region, inRegions, by simp [AllocationRegion.span, same]⟩

theorem spansOf_congr {left right : List AllocationRegion} (same : shapes left = shapes right) :
    spansOf left = spansOf right := by
  ext span
  rw [mem_spansOf_iff, mem_spansOf_iff, same]

theorem setHandle_slotAt {regions : List AllocationRegion} (ok : RegionsOk regions)
    {region : AllocationRegion} (mem : region ∈ regions) {p : Nat} (hasSlot : region.HasSlot p) (h : Nat) :
    ∃ regions', setHandle p h regions = .ok regions' ∧ RegionsOk regions' ∧ shapes regions' = shapes regions ∧
      slotAt regions' = Function.update (slotAt regions) p (optHandle h) := by
  induction regions with
  | nil => cases mem
  | cons first rest ih =>
    obtain ⟨firstBefore, -⟩ := List.pairwise_cons.1 ok.sorted
    rcases List.mem_cons.1 mem with rfl | inRest
    · obtain ⟨region', stored, regionOk, samePtr, sameSize, sameEnd, slots⟩ :=
        AllocationRegion.setHandle_eq (ok.each region (by simp)) hasSlot h
      refine ⟨region' :: rest, ?_, ?_, ?_, ?_⟩
      · rw [setHandle, if_pos hasSlot.2.1, stored]
        rfl
      · refine ⟨?_, List.pairwise_cons.2 ⟨?_, ok.tail.sorted⟩⟩
        · intro other inList
          rcases List.mem_cons.1 inList with rfl | inTail
          · exact regionOk
          · exact ok.tail.each other inTail
        · intro other inTail
          rw [sameEnd]
          exact firstBefore other inTail
      · simp [shapes, samePtr, sameSize, sameEnd]
      · funext q
        have sameSlots : region'.HasSlot q ↔ region.HasSlot q := by
          simp [AllocationRegion.HasSlot, samePtr, sameEnd]
        by_cases same : q = p
        · subst same
          simp [slotAt, sameSlots, hasSlot, slots]
        · rw [Function.update_of_ne same]
          simp [slotAt, sameSlots, slots, Function.update_of_ne same]
    · obtain ⟨rest', stored, restOk, sameShapes, slots⟩ := ih ok.tail inRest
      have notFirst : ¬ p < first.endPtr := ok.head_before inRest hasSlot.1
      refine ⟨first :: rest', ?_, ⟨?_, List.pairwise_cons.2 ⟨?_, restOk.sorted⟩⟩, ?_, ?_⟩
      · rw [setHandle, if_neg notFirst, stored]
        rfl
      · intro other inList
        rcases List.mem_cons.1 inList with rfl | inTail
        · exact ok.each other (by simp)
        · exact restOk.each other inTail
      · intro other inTail
        -- A region of the updated tail starts where its old version starts.
        have shape : (other.ptr, other.memorySize, other.endPtr) ∈ shapes rest := by
          rw [← sameShapes]
          exact List.mem_map.2 ⟨other, inTail, rfl⟩
        obtain ⟨old, oldMember, same⟩ := List.mem_map.1 shape
        simp only [Prod.mk.injEq] at same
        rw [← same.1]
        exact firstBefore old oldMember
      · simpa [shapes] using sameShapes
      · funext q
        by_cases same : q = p
        · subst same
          have notSlot : ¬ first.HasSlot q := fun other => notFirst other.2.1
          simp [slotAt, notSlot, slots]
        · rw [Function.update_of_ne same]
          simp [slotAt, slots, Function.update_of_ne same]

section AddRegion

variable {regions : List AllocationRegion} {p bytes : Nat}

theorem AllocationRegion.make_ok (based : 0 < p) (nonempty : 0 < bytes)
    (onGrid : kMinAllocationSize ∣ bytes) (inRange : p + bytes < sizeRange) : (AllocationRegion.make p bytes).Ok := by
  have ends : wrap (p + bytes) = p + bytes := Nat.mod_eq_of_lt inRange
  have slots : wrap (bytes + kMinAllocationSize - 1) / kMinAllocationSize = bytes / kMinAllocationSize := by
    simp only [wrap, kMinAllocationSize, sizeRange] at *
    omega
  refine ⟨based, nonempty, onGrid, ends, Nat.mod_lt _ (by decide), ?_⟩
  exact List.length_replicate.trans slots

theorem AllocationRegion.make_slot (q : Nat) : (AllocationRegion.make p bytes).slot q = none := by
  unfold slot
  split
  · have same : (AllocationRegion.make p bytes).handles.getD
        ((q - p) / kMinAllocationSize) kInvalidChunkHandle = kInvalidChunkHandle := by
      simp only [make, List.getD_eq_getElem?_getD, List.getElem?_replicate]
      split <;> rfl
    exact congrArg optHandle same
  · rfl

theorem mem_addAllocationRegion {region : AllocationRegion} : region ∈ addAllocationRegion p bytes regions ↔
      region = AllocationRegion.make p bytes ∨ region ∈ regions := by
  induction regions with
  | nil => simp [addAllocationRegion]
  | cons first rest ih =>
    unfold addAllocationRegion
    split
    · simp
    · rw [List.mem_cons, ih, List.mem_cons]
      exact or_left_comm

section

variable (ok : RegionsOk regions) (newOk : (AllocationRegion.make p bytes).Ok)
  (apart : ∀ region ∈ regions, p + bytes ≤ region.ptr ∨ region.ptr + region.memorySize ≤ p)

include ok newOk apart

theorem addAllocationRegion_ok : RegionsOk (addAllocationRegion p bytes regions) := by
  have newEnds : (AllocationRegion.make p bytes).endPtr = p + bytes := newOk.ends
  refine ⟨?_, ?_⟩
  · intro region mem
    rcases mem_addAllocationRegion.1 mem with rfl | old
    · exact newOk
    · exact ok.each region old
  · induction regions with
    | nil => simp [addAllocationRegion]
    | cons first rest ih =>
      obtain ⟨firstBefore, restSorted⟩ := List.pairwise_cons.1 ok.sorted
      have firstOk := ok.each first (by simp)
      have firstApart := apart first (by simp)
      have firstEnds := firstOk.ends
      unfold addAllocationRegion
      split
      · next before =>
        -- The block ends before the first region that ends after its base.
        refine List.pairwise_cons.2 ⟨?_, ok.sorted⟩
        intro other mem
        rw [newEnds]
        rcases List.mem_cons.1 mem with rfl | inRest
        · omega
        · have := firstBefore other inRest
          omega
      · next after =>
        refine List.pairwise_cons.2 ⟨?_, ih ok.tail
          (fun region mem => apart region (by simp [mem]))⟩
        intro other mem
        rcases mem_addAllocationRegion.1 mem with rfl | inRest
        · exact Nat.not_lt.1 after
        · exact firstBefore other inRest

theorem slotAt_addAllocationRegion : slotAt (addAllocationRegion p bytes regions) = slotAt regions := by
  have bigger := addAllocationRegion_ok ok newOk apart
  funext q
  cases found : slotAt regions q with
  | some h =>
    obtain ⟨region, mem, hasSlot⟩ := slotAt_eq_some found
    rw [slotAt_of_hasSlot bigger (mem_addAllocationRegion.2 (Or.inr mem)) hasSlot,
      ← slotAt_of_hasSlot ok mem hasSlot, found]
  | none =>
    cases found' : slotAt (addAllocationRegion p bytes regions) q with
    | none => rfl
    | some h =>
      obtain ⟨region, mem, hasSlot⟩ := slotAt_eq_some found'
      rw [slotAt_of_hasSlot bigger mem hasSlot] at found'
      rcases mem_addAllocationRegion.1 mem with rfl | old
      · rw [AllocationRegion.make_slot] at found'
        cases found'
      · rw [slotAt_of_hasSlot ok old hasSlot, found'] at found
        cases found

end

theorem spansOf_addAllocationRegion :
    spansOf (addAllocationRegion p bytes regions) = insert ⟨p, bytes⟩ (spansOf regions) := by
  ext span
  simp only [spansOf, Set.mem_ofPred_eq, Set.mem_insert_iff, mem_addAllocationRegion]
  constructor
  · rintro ⟨region, rfl | old, rfl⟩
    · exact Or.inl rfl
    · exact Or.inr ⟨region, old, rfl⟩
  · rintro (rfl | ⟨region, old, rfl⟩)
    · exact ⟨AllocationRegion.make p bytes, Or.inl rfl, rfl⟩
    · exact ⟨region, Or.inr old, rfl⟩

end AddRegion

end Itex.Devices.Bfc
