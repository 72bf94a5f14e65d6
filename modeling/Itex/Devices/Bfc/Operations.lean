import Itex.Devices.Bfc.Edits
import Itex.Devices.Bfc.Accounting

/-!
Contract: the public operations of `BFCAllocator` against the invariant.

Owns: coalescing, `DeallocateRaw`, `FindChunkPtr`, both extension modes and
`AllocateRaw`, each with its effect on the set of chunks in use and on the
regions.
-/

namespace Itex.Devices.Bfc.BFCAllocator

open Itex.Lib Itex.Lib.Segments

variable {numBytes p rounded size h k : Nat} {s s' : BFCAllocator} {recycled recycled' detached : List Nat}

theorem used_merge (hFree : (s.chunkAt h).inUse = false) (kFree : (s.chunkAt k).inUse = false)
    (agree : (Segments.merge (s.graph recycled) h k).Agree (s'.graph recycled'))
    (inUse : ∀ m, (s'.chunkAt m).inUse = (s.chunkAt m).inUse) (p n : Nat) :
    s'.Used recycled' p n ↔ s.Used recycled p n := by
  have apart : ∀ m, (s.chunkAt m).inUse = true → m ≠ h ∧ m ≠ k := by
    intro m used
    refine ⟨?_, ?_⟩
    · rintro rfl
      rw [hFree] at used
      cases used
    · rintro rfl
      rw [kFree] at used
      cases used
  apply used_congr
  · intro m
    rw [agree.live m, inUse m]
    constructor
    · rintro ⟨⟨mLive, -⟩, used⟩
      exact ⟨mLive, used⟩
    · rintro ⟨mLive, used⟩
      exact ⟨⟨mLive, (apart m used).2⟩, used⟩
  · intro m mLive used
    obtain ⟨mH, mK⟩ := apart m used
    have ptr := agree.ptr m ⟨mLive, mK⟩
    have size := agree.size m ⟨mLive, mK⟩
    simp only [graph, Segments.merge, if_neg mH] at ptr size
    exact ⟨ptr, size⟩

/-- After the first half of coalescing the right neighbour is in use. -/
theorem coalesceNext_spec (inv : Inv s recycled [h]) :
    ∃ s' recycled', s.coalesceNext h = .ok s' ∧ Inv s' recycled' [h] ∧
      (∀ p n, s'.Used recycled' p n ↔ s.Used recycled p n) ∧ shapes s'.regions = shapes s.regions ∧
      ∀ k, (s'.graph recycled').next h = some k → (s'.chunkAt k).inUse = true := by
  obtain ⟨hLive, hFree, -⟩ := inv.parked h (by simp)
  by_cases valid : (s.chunkAt h).next = kInvalidChunkHandle
  · refine ⟨s, recycled, ?_, inv, fun _ _ => Iff.rfl, rfl, ?_⟩
    · rw [coalesceNext, ok_bind (chunkFromHandle_eq hLive.1)]
      simp [valid]
    · intro k link
      simp [graph, valid] at link
  · have link : (s.graph recycled).next h = some (s.chunkAt h).next := optHandle_of_ne valid
    generalize nextIs : (s.chunkAt h).next = k at *
    obtain ⟨kLive, kH, -, beyond⟩ := merge_link_facts inv.wellFormed hLive link
    by_cases kFree : (s.chunkAt k).inUse = false
    · obtain ⟨s₁, removed, inv₁, quiet⟩ :=
        removeFreeChunkFromBin_spec inv kLive (by simpa using kH) kFree
      have link₁ : (s₁.graph recycled).next h = some k := by
        rw [quiet.graph]
        exact link
      have rest : ∀ m, m ∈ [h] ↔ m ∈ [k, h] ∧ m ≠ k := by
        grind
      obtain ⟨s₂, merged, inv₂, agree, inUse, sameShapes⟩ :=
        merge_spec inv₁ (by simp) (by simp) rest link₁
      rw [quiet.graph] at agree
      refine ⟨s₂, k :: recycled, ?_, inv₂, ?_, ?_, ?_⟩
      · rw [coalesceNext, ok_bind (chunkFromHandle_eq hLive.1)]
        simp only [nextIs, ne_eq, valid, not_false_eq_true, if_true]
        rw [ok_bind (chunkFromHandle_eq kLive.1)]
        simp only [kFree, Bool.not_false, if_true]
        rw [ok_bind removed]
        exact merged
      · intro p n
        rw [← quiet.used recycled p n]
        apply used_merge (h := h) (k := k)
        · rw [quiet.inUse]
          exact hFree
        · rw [quiet.inUse]
          exact kFree
        · rw [quiet.graph]
          exact agree
        · exact inUse
      · rw [sameShapes, quiet.regions]
      · intro m forward
        rw [agree.next h ⟨hLive, Ne.symm kH⟩] at forward
        simp only [Segments.merge, if_true] at forward
        obtain ⟨-, mH, -, -⟩ := beyond m forward
        rw [inUse, quiet.inUse]
        by_contra notUsed
        have clash := inv.separated k m kLive forward kFree (by simpa using notUsed)
        simp [kH, mH] at clash
    · refine ⟨s, recycled, ?_, inv, fun _ _ => Iff.rfl, rfl, ?_⟩
      · rw [coalesceNext, ok_bind (chunkFromHandle_eq hLive.1)]
        simp only [nextIs, ne_eq, valid, not_false_eq_true, if_true]
        rw [ok_bind (chunkFromHandle_eq kLive.1)]
        simp [kFree]
      · intro m forward
        rw [link] at forward
        cases forward
        simpa using kFree

/-- After the second half both neighbours of the surviving chunk are in use. -/
theorem coalescePrev_spec (inv : Inv s recycled [h])
    (rightUsed : ∀ k, (s.graph recycled).next h = some k → (s.chunkAt k).inUse = true) :
    ∃ h' s' recycled', s.coalescePrev h = .ok (h', s') ∧ Inv s' recycled' [h'] ∧
      (∀ p n, s'.Used recycled' p n ↔ s.Used recycled p n) ∧ shapes s'.regions = shapes s.regions ∧
      ∀ k, ((s'.graph recycled').next h' = some k ∨
        (s'.graph recycled').live k ∧ (s'.graph recycled').next k = some h') → (s'.chunkAt k).inUse = true := by
  obtain ⟨hLive, hFree, -⟩ := inv.parked h (by simp)
  by_cases valid : (s.chunkAt h).prev = kInvalidChunkHandle
  · refine ⟨h, s, recycled, ?_, inv, fun _ _ => Iff.rfl, rfl, ?_⟩
    · rw [coalescePrev, ok_bind (chunkFromHandle_eq hLive.1)]
      simp [valid, pure, Except.pure]
    · rintro k (link | ⟨kLive, link⟩)
      · exact rightUsed k link
      · have back := (inv.wellFormed.nextLink k h kLive link).2.2
        simp [graph, valid] at back
  · have back : (s.graph recycled).prev h = some (s.chunkAt h).prev := optHandle_of_ne valid
    generalize prevIs : (s.chunkAt h).prev = j at *
    obtain ⟨jLive, link⟩ := inv.wellFormed.prevLink h j hLive back
    obtain ⟨-, hJ, -, beyond⟩ := merge_link_facts inv.wellFormed jLive link
    by_cases jFree : (s.chunkAt j).inUse = false
    · obtain ⟨s₁, removed, inv₁, quiet⟩ :=
        removeFreeChunkFromBin_spec inv jLive (by simpa using Ne.symm hJ) jFree
      have link₁ : (s₁.graph recycled).next j = some h := by
        rw [quiet.graph]
        exact link
      have rest : ∀ m, m ∈ [j] ↔ m ∈ [j, h] ∧ m ≠ h := by
        grind
      obtain ⟨s₂, merged, inv₂, agree, inUse, sameShapes⟩ :=
        merge_spec inv₁ (by simp) (by simp) rest link₁
      rw [quiet.graph] at agree
      refine ⟨j, s₂, h :: recycled, ?_, inv₂, ?_, ?_, ?_⟩
      · rw [coalescePrev, ok_bind (chunkFromHandle_eq hLive.1)]
        simp only [prevIs, ne_eq, valid, not_false_eq_true, if_true]
        rw [ok_bind (chunkFromHandle_eq jLive.1)]
        simp only [jFree, Bool.not_false, if_true]
        rw [ok_bind removed, ok_bind merged]
        rfl
      · intro p n
        rw [← quiet.used recycled p n]
        apply used_merge (h := j) (k := h)
        · rw [quiet.inUse]
          exact jFree
        · rw [quiet.inUse]
          exact hFree
        · rw [quiet.graph]
          exact agree
        · exact inUse
      · rw [sameShapes, quiet.regions]
      · rintro m (forward | ⟨mLive, forward⟩)
        · rw [agree.next j ⟨jLive, Ne.symm hJ⟩] at forward
          simp only [Segments.merge, if_true] at forward
          rw [inUse, quiet.inUse]
          exact rightUsed m forward
        · obtain ⟨mOld, mH⟩ := (agree.live m).1 mLive
          rw [agree.next m ⟨mOld, mH⟩] at forward
          by_cases mJ : m = j
          · subst mJ
            simp only [Segments.merge, if_true] at forward
            exact absurd rfl (beyond m forward).2.1
          · simp only [Segments.merge, if_neg mJ] at forward
            rw [inUse, quiet.inUse]
            by_contra notUsed
            have clash := inv.separated m j mOld forward (by simpa using notUsed) jFree
            simp [mH, Ne.symm hJ] at clash
    · refine ⟨h, s, recycled, ?_, inv, fun _ _ => Iff.rfl, rfl, ?_⟩
      · rw [coalescePrev, ok_bind (chunkFromHandle_eq hLive.1)]
        simp only [prevIs, ne_eq, valid, not_false_eq_true, if_true]
        rw [ok_bind (chunkFromHandle_eq jLive.1)]
        simp [jFree, pure, Except.pure]
      · rintro m (forward | ⟨mLive, forward⟩)
        · exact rightUsed m forward
        · have back' := (inv.wellFormed.nextLink m h mLive forward).2.2
          rw [back] at back'
          cases back'
          simpa using jFree

theorem used_release (inv : Inv s recycled detached) (hLive : (s.graph recycled).live h) (q n : Nat) :
    (s.setChunk h { s.chunkAt h with allocationId := -1 }).Used recycled q n ↔
      s.Used recycled q n ∧ q ≠ (s.chunkAt h).ptr := by
  have chunks := chunkAt_setChunk hLive.1 { s.chunkAt h with allocationId := -1 }
  have graphs := mark_graph recycled hLive.1 (s.chunkAt h).requestedSize (-1)
  unfold Used
  rw [graphs, chunks]
  constructor
  · rintro ⟨m, mLive, mUsed, ptr, size⟩
    have mH : m ≠ h := by
      rintro rfl
      rw [Function.update_self] at mUsed
      cases mUsed
    rw [Function.update_of_ne mH] at mUsed
    refine ⟨⟨m, mLive, mUsed, ptr, size⟩, ?_⟩
    intro same
    exact mH (inv.wellFormed.ptr_injective mLive hLive (ptr.trans same))
  · rintro ⟨⟨m, mLive, mUsed, ptr, size⟩, away⟩
    have mH : m ≠ h := by
      rintro rfl
      exact away ptr.symm
    refine ⟨m, mLive, ?_, ptr, size⟩
    show (Function.update s.chunkAt h _ m).inUse = true
    rw [Function.update_of_ne mH]
    exact mUsed

theorem Shape.getHandle_eq (shape : Shape s recycled) (hLive : (s.graph recycled).live h) :
    getHandle (s.chunkAt h).ptr s.regions = .ok h := by
  obtain ⟨region, member, hasSlot⟩ := shape.hasSlot (n := 0) hLive
    (shape.wellFormed.sizePos h hLive) (Nat.dvd_zero _)
  rw [Nat.add_zero] at hasSlot
  obtain ⟨found, looked, isHandle⟩ := getHandle_slotAt shape.regionsOk member hasSlot
  have indexed : slotAt s.regions (s.chunkAt h).ptr = some h :=
    (shape.indexes _ h).2 ⟨hLive, rfl⟩
  rw [indexed] at isHandle
  rw [looked, (optHandle_eq_some.1 isHandle).1]

/-- `DeallocateRaw` of a chunk in use returns, and removes exactly that chunk
from those in use. -/
theorem deallocateRaw_spec (inv : Inv s recycled []) (used : s.Used recycled p size) :
    ∃ s' recycled', s.deallocateRaw p = .ok s' ∧ Inv s' recycled' [] ∧
      (∀ q n, s'.Used recycled' q n ↔ s.Used recycled q n ∧ q ≠ p) ∧ shapes s'.regions = shapes s.regions := by
  obtain ⟨h, hLive, hUsed, address, -⟩ := used
  have hPtr : (s.chunkAt h).ptr = p := address
  obtain ⟨region, member, lower, -⟩ := inv.toShape.region_of_live hLive
  have nonNull : p ≠ 0 := by
    have based := (inv.regionsOk.each region member).based
    omega
  have looked := inv.toShape.getHandle_eq hLive
  rw [hPtr] at looked
  have valid := inv.toShape.valid hLive.1
  have inv₁ := inv.release hLive hUsed
  obtain ⟨s₂, recycled₂, right, inv₂, used₂, shapes₂, rightUsed⟩ := coalesceNext_spec inv₁
  obtain ⟨h', s₃, recycled₃, left, inv₃, used₃, shapes₃, beside⟩ :=
    coalescePrev_spec inv₂ rightUsed
  obtain ⟨s', inserted, inv', quiet⟩ := insertFreeChunkIntoBin_spec inv₃ (by simp)
    fun k adjacent => Or.inl (beside k adjacent)
  refine ⟨s', recycled₃, ?_, inv', ?_, ?_⟩
  · rw [deallocateRaw, if_neg nonNull, ok_bind looked,
      ok_bind (check_ok (by simpa using valid)), ok_bind (modifyChunk_eq hLive.1 _),
      tryToCoalesce, ok_bind (ok_bind right _ |>.trans left)]
    exact inserted
  · intro q n
    rw [quiet.used recycled₃ q n, used₃, used₂, used_release inv hLive, hPtr]
  · rw [quiet.regions, shapes₃, shapes₂]
    rfl

theorem used_take (hLive : (s.graph recycled).live h) (free : (s.chunkAt h).inUse = false)
    (requested q n : Nat) :
    (s.setChunk h { s.chunkAt h with requestedSize := requested, allocationId := 0 }).Used
      recycled q n ↔
      s.Used recycled q n ∨ (q = (s.chunkAt h).ptr ∧ n = (s.chunkAt h).size) := by
  have chunks := chunkAt_setChunk hLive.1
    { s.chunkAt h with requestedSize := requested, allocationId := 0 }
  have graphs := mark_graph recycled hLive.1 requested 0
  unfold Used
  rw [graphs, chunks]
  constructor
  · rintro ⟨m, mLive, mUsed, ptr, size⟩
    by_cases mH : m = h
    · subst mH
      exact Or.inr ⟨ptr.symm, size.symm⟩
    · rw [Function.update_of_ne mH] at mUsed
      exact Or.inl ⟨m, mLive, mUsed, ptr, size⟩
  · rintro (⟨m, mLive, mUsed, ptr, size⟩ | ⟨ptr, size⟩)
    · have mH : m ≠ h := by
        rintro rfl
        rw [free] at mUsed
        cases mUsed
      refine ⟨m, mLive, ?_, ptr, size⟩
      show (Function.update s.chunkAt h _ m).inUse = true
      rw [Function.update_of_ne mH]
      exact mUsed
    · refine ⟨h, hLive, ?_, ptr.symm, size.symm⟩
      show (Function.update s.chunkAt h _ h).inUse = true
      rw [Function.update_self]
      rfl

/-- `FindChunkPtr` will cut off a chunk that is longer than the request, if it
cuts at all: either the request is below half the address space, or no free
chunk has exactly its size. -/
def CutsProperly (s : BFCAllocator) (recycled : List Nat) (rounded : Nat) : Prop :=
  rounded < 2 ^ 63 ∨ ∀ h, (s.graph recycled).live h → (s.chunkAt h).inUse = false → (s.chunkAt h).size ≠ rounded

theorem shouldSplit_lt (pos : 0 < rounded) (fits : rounded ≤ size)
    (inRange : size < sizeRange) (proper : rounded < 2 ^ 63 ∨ size ≠ rounded)
    (cut : shouldSplit size rounded = true) : rounded < size := by
  rw [shouldSplit, Bool.or_eq_true, decide_eq_true_eq, decide_eq_true_eq] at cut
  simp only [wrap, wrapSub, sizeRange, kMaxInternalFragmentation] at cut inRange
  omega

theorem findFreeChunk_some {binNum b : Nat} (found : s.findFreeChunk binNum rounded = some (b, h)) :
    h ∈ s.freeChunks b ∧ rounded ≤ (s.chunkAt h).size := by
  obtain ⟨c, -, here⟩ := List.exists_of_findSome?_eq_some found
  obtain ⟨k, first, same⟩ := Option.map_eq_some_iff.1 here
  cases same
  exact ⟨List.mem_of_find?_eq_some first, by simpa using List.find?_some first⟩

/-- `FindChunkPtr` returns; it either finds nothing and changes nothing, or
takes one free chunk that is large enough. -/
theorem findChunkPtr_spec (inv : Inv s recycled []) (binNum : Nat) (numBytes : Nat)
    (pos : 0 < rounded) (onGrid : kMinAllocationSize ∣ rounded) (proper : CutsProperly s recycled rounded) :
    ∃ p s' recycled', s.findChunkPtr binNum rounded numBytes = .ok (p, s') ∧
      Inv s' recycled' [] ∧ shapes s'.regions = shapes s.regions ∧ ((p = 0 ∧ s' = s ∧ recycled' = recycled) ∨
        (p ≠ 0 ∧ (∀ n, ¬ s.Used recycled p n) ∧ ∃ size, rounded ≤ size ∧
          ∀ q n, s'.Used recycled' q n ↔ s.Used recycled q n ∨ (q = p ∧ n = size))) := by
  unfold findChunkPtr
  cases located : s.findFreeChunk binNum rounded with
  | none => exact ⟨0, s, recycled, rfl, inv, rfl, Or.inl ⟨rfl, rfl, rfl⟩⟩
  | some found =>
    obtain ⟨b, h⟩ := found
    obtain ⟨member, fits⟩ := findFreeChunk_some located
    obtain ⟨⟨hLive, -⟩, free, -⟩ := (inv.binned.mem b h).1 member
    obtain ⟨region, inRegions, lower, upper, inRange, -⟩ := inv.toShape.region_of_live hLive
    have based := (inv.regionsOk.each region inRegions).based
    obtain ⟨s₁, removed, inv₁, quiet⟩ := removeFreeChunkIterFromBin_spec inv member
    have ptr₁ : (s₁.chunkAt h).ptr = (s.chunkAt h).ptr :=
      congrArg (fun g : Graph Nat => g.ptr h) (quiet.graph recycled)
    have size₁ : (s₁.chunkAt h).size = (s.chunkAt h).size :=
      congrArg (fun g : Graph Nat => g.size h) (quiet.graph recycled)
    -- The chunk that is taken: the whole free chunk, or its head after a split.
    have cut : ∃ s₂ recycled₂, s₁.splitToFit h (s.chunkAt h).size rounded = .ok s₂ ∧
        Inv s₂ recycled₂ [h] ∧ (∀ q n, s₂.Used recycled₂ q n ↔ s.Used recycled q n) ∧
        shapes s₂.regions = shapes s.regions ∧
        (s₂.chunkAt h).ptr = (s.chunkAt h).ptr ∧ rounded ≤ (s₂.chunkAt h).size := by
      unfold splitToFit
      split
      · next cutting =>
        have shorter : rounded < (s.chunkAt h).size := by
          refine shouldSplit_lt pos fits (by omega) ?_ cutting
          rcases proper with small | odd
          · exact Or.inl small
          · exact Or.inr (odd h hLive free)
        obtain ⟨s₂, recycled₂, done, inv₂, used₂, shapes₂, ptr₂, size₂, -⟩ :=
          splitChunk_spec inv₁ pos (by rw [size₁]; exact shorter) onGrid (by
            intro k link
            rw [quiet.graph] at link
            rw [quiet.inUse]
            exact inv.neighbour_used hLive free (Or.inl link))
        refine ⟨s₂, recycled₂, done, inv₂, ?_, ?_, ptr₂.trans ptr₁, Nat.le_of_eq size₂.symm⟩
        · intro q n
          rw [used₂, quiet.used]
        · rw [shapes₂, quiet.regions]
      · refine ⟨s₁, recycled, rfl, inv₁, fun q n => quiet.used recycled q n, ?_, ptr₁, ?_⟩
        · rw [quiet.regions]
        · rw [size₁]
          exact fits
    obtain ⟨s₂, recycled₂, done, inv₂, used₂, shapes₂, ptr₂, size₂⟩ := cut
    obtain ⟨hLive₂, free₂, -⟩ := inv₂.parked h (by simp)
    have chunks := chunkAt_setChunk hLive₂.1
      { s₂.chunkAt h with requestedSize := numBytes, allocationId := 0 }
    refine ⟨(s.chunkAt h).ptr, _, recycled₂, ?_, inv₂.take (by simp) numBytes, shapes₂,
      Or.inr ⟨by omega, ?_, (s₂.chunkAt h).size, size₂, ?_⟩⟩
    · dsimp only
      rw [ok_bind removed, ok_bind done, ok_bind (modifyChunk_eq hLive₂.1 _), chunks, Function.update_self, ← ptr₂]
      rfl
    · rintro n ⟨m, mLive, mUsed, mPtr, -⟩
      rw [inv.wellFormed.ptr_injective mLive hLive mPtr, free] at mUsed
      cases mUsed
    · intro q n
      rw [used_take hLive₂ free₂, used₂, ptr₂]

/-! ## Growing the pool -/

/-- What an extension may do: the invariant survives, no chunk changes its use
and no region disappears. -/
def Grew (s : BFCAllocator) (recycled : List Nat) (s' : BFCAllocator) : Prop :=
  ∃ recycled', Inv s' recycled' [] ∧ (∀ q n, s'.Used recycled' q n ↔ s.Used recycled q n) ∧
    spansOf s.regions ⊆ spansOf s'.regions

/-- The result of an operation is a return with this property, or one of the
stops that are not a crash. -/
def Returns {α : Type} (result : Except Stop α) (property : α → Prop) : Prop :=
  match result with
  | .ok value => property value
  | .error (.crash _) => False
  | .error _ => True

theorem Returns.bind {α β : Type} {x : Except Stop α} {f : α → Except Stop β}
    {property : α → Prop} {property' : β → Prop} (first : Returns x property)
    (second : ∀ a, x = .ok a → property a → Returns (f a) property') : Returns (x >>= f) property' := by
  cases x with
  | ok a => exact second a rfl first
  | error stop =>
    cases stop with
    | crash reason => exact first.elim
    | hang => trivial
    | pending => trivial
    | refused => trivial

theorem growRegion_returns (requested fuel curr : Nat) (increased : Bool) :
    Returns (growRegion requested fuel curr increased) fun _ => True := by
  induction fuel generalizing curr increased with
  | zero => trivial
  | succ fuel ih =>
    unfold growRegion
    split
    · exact ih _ _
    · trivial

theorem gpuMalloc_returns (s : BFCAllocator) (bytes : Nat) (answers : List Nat) :
    Returns (s.gpuMalloc bytes answers) fun result => result.1 ≠ 0 → s.Grantable bytes result.1 := by
  unfold gpuMalloc
  cases answers with
  | nil => trivial
  | cons p rest =>
    dsimp only
    split
    · next granted => exact fun nonNull => granted.resolve_left nonNull
    · trivial

theorem backOff_returns (s : BFCAllocator) (requested bytes : Nat) (answers : List Nat) :
    Returns (s.backOff requested bytes answers) fun _ => True := by
  induction answers generalizing bytes with
  | nil =>
    unfold backOff
    dsimp only
    split <;> trivial
  | cons p rest ih =>
    unfold backOff
    dsimp only
    split
    · trivial
    · split
      · exact ih _
      · split <;> trivial

theorem mallocBackingOff_returns (s : BFCAllocator) (requested bytes : Nat)
    (answers : List Nat) : Returns (s.mallocBackingOff requested bytes answers) fun _ => True := by
  apply (gpuMalloc_returns s bytes answers).bind
  rintro ⟨first, rest⟩ - -
  dsimp only
  split
  · exact backOff_returns s requested bytes rest
  · trivial

section

variable (inv : Inv s recycled [])

include inv

theorem Inv.setCurr (curr : Nat) : Inv { s with currRegionAllocationBytes := curr } recycled [] where
  regionsOk := inv.regionsOk
  wellFormed := inv.wellFormed
  indexes := inv.indexes
  chain := inv.chain.congr (Nat.le_refl _) fun _ _ => rfl
  nodup := inv.nodup
  bounded := inv.bounded
  idle := inv.idle
  binned := inv.binned.congr rfl (fun _ => Iff.rfl) fun _ _ => ⟨rfl, rfl, rfl, rfl⟩
  parked := inv.parked
  separated := inv.separated

theorem Grew.refl : Grew s recycled s :=
  ⟨recycled, inv, fun _ _ => Iff.rfl, Set.Subset.rfl⟩

theorem addRegion_returns {bytes : Nat} (grant : s.Grantable bytes p)
    (onGrid : kMinAllocationSize ∣ bytes) : Returns (s.addRegion p bytes) (Grew s recycled) := by
  obtain ⟨s', recycled', done, inv', used, spans⟩ := addRegion_spec inv grant onGrid
  rw [done]
  refine ⟨recycled', inv', used, ?_⟩
  rw [spans]
  exact Set.subset_insert _ _

theorem extendLarge_returns (ledger : kMinAllocationSize ∣
    s.currRegionAllocationBytes) (config : Config) (requested : Nat) (answers : List Nat) :
    Returns (s.extendLarge config requested answers) fun result => Grew s recycled result.2.1 := by
  unfold extendLarge
  dsimp only
  split
  · exact Grew.refl inv
  · apply (growRegion_returns requested 65 _ false).bind
    rintro ⟨curr, increased⟩ grown -
    obtain ⟨currGrid, -⟩ := growRegion_spec ledger grown
    obtain ⟨asked, inRange⟩ :=
      askedBytes_spec (s := { s with currRegionAllocationBytes := curr }) config currGrid
    apply (mallocBackingOff_returns { s with currRegionAllocationBytes := curr } requested _
      answers).bind
    rintro ⟨memAddr, bytes, rest⟩ answered -
    obtain ⟨-, onGrid, granted⟩ := mallocBackingOff_spec asked inRange answered
    dsimp only
    split
    · exact Grew.refl (inv.setCurr curr)
    · next nonNull =>
      split
      · apply (addRegion_returns (inv.setCurr curr) (granted nonNull) onGrid).bind
        intro s' _ grew
        exact grew
      · apply (addRegion_returns ((inv.setCurr curr).setCurr (wrap (curr * 2)))
          (granted nonNull) onGrid).bind
        intro s' _ grew
        exact grew

theorem extendSmall_returns (requested : Nat) (answers : List Nat) :
    Returns (s.extendSmall requested answers) fun result => Grew s recycled result.2.1 := by
  unfold extendSmall
  dsimp only
  split
  · exact Grew.refl inv
  · apply (gpuMalloc_returns s (smallRegionBytes requested) answers).bind
    rintro ⟨memAddr, rest⟩ - granted
    dsimp only
    split
    · exact Grew.refl inv
    · next nonNull =>
      apply (addRegion_returns inv (granted nonNull) (dvd_smallRegionBytes requested)).bind
      intro s' _ grew
      exact grew

theorem extend_returns (ledger : kMinAllocationSize ∣
    s.currRegionAllocationBytes) (config : Config) (requested : Nat) (answers : List Nat) :
    Returns (s.extend config requested answers) fun result => Grew s recycled result.2.1 := by
  unfold extend
  split
  · exact extendLarge_returns inv ledger config requested answers
  · split
    · exact extendSmall_returns inv requested answers
    · exact Grew.refl inv

end

theorem extend_of_unavailable (config : Config) {requested : Nat} (answers : List Nat)
    (unavailable : s.availableBytes < requested) : s.extend config requested answers = .ok (false, s, answers) := by
  unfold extend extendLarge extendSmall
  simp only [unavailable, if_true]
  split_ifs <;> rfl

/-- The request keeps clear of the two places where size arithmetic goes wrong:
rounding up wraps above `2 ^ 64 - 256`, and doubling wraps from `2 ^ 63` on,
which cuts a chunk of exactly the requested size into two. -/
def SafeRequest (s : BFCAllocator) (numBytes : Nat) : Prop :=
  numBytes ≤ sizeRange - kMinAllocationSize ∧ (roundedBytes numBytes < 2 ^ 63 ∨
      (∀ handles ∈ s.bins, ∀ h ∈ handles, (s.chunkAt h).size ≠ roundedBytes numBytes) ∧
        s.availableBytes < roundedBytes numBytes)

instance (s : BFCAllocator) (numBytes : Nat) : Decidable (s.SafeRequest numBytes) := by
  unfold SafeRequest
  infer_instance

theorem SafeRequest.cutsProperly (inv : Inv s recycled [])
    (safe : s.SafeRequest numBytes) : CutsProperly s recycled (roundedBytes numBytes) := by
  rcases safe.2 with small | ⟨odd, -⟩
  · exact Or.inl small
  · refine Or.inr fun h hLive free => ?_
    have member : h ∈ s.freeChunks (binNumForSize (s.chunkAt h).size) :=
      (inv.binned.mem _ h).2 ⟨⟨hLive, by simp⟩, free, rfl⟩
    have inTable : binNumForSize (s.chunkAt h).size < s.bins.length := by
      rw [inv.binned.count]
      exact binNumForSize_lt _
    rw [freeChunks, List.getD_eq_getElem?_getD, List.getElem?_eq_getElem inTable, Option.getD_some] at member
    exact odd _ (List.getElem_mem inTable) h member

/-- What `AllocateRaw` may do: nothing, or put one chunk of at least the
requested size into use. -/
def Served (s : BFCAllocator) (recycled : List Nat) (numBytes p : Nat) (s' : BFCAllocator) : Prop :=
  ∃ recycled', Inv s' recycled' [] ∧ spansOf s.regions ⊆ spansOf s'.regions ∧
    ((p = 0 ∧ ∀ q n, s'.Used recycled' q n ↔ s.Used recycled q n) ∨
      (p ≠ 0 ∧ (∀ n, ¬ s.Used recycled p n) ∧ ∃ size, numBytes ≤ size ∧
        ∀ q n, s'.Used recycled' q n ↔ s.Used recycled q n ∨ (q = p ∧ n = size)))

theorem findChunkPtr_served (inv : Inv s recycled []) (binNum : Nat)
    (nonzero : numBytes ≠ 0) (small : numBytes ≤ sizeRange - kMinAllocationSize)
    (proper : CutsProperly s recycled (roundedBytes numBytes)) :
    ∃ p s', s.findChunkPtr binNum (roundedBytes numBytes) numBytes = .ok (p, s') ∧
      Served s recycled numBytes p s' ∧ (p = 0 → s' = s) := by
  have exact := roundedBytes_of_le small
  obtain ⟨p, s', recycled', done, inv', sameShapes, cases⟩ := findChunkPtr_spec inv binNum
    numBytes (by omega) (dvd_roundedBytes numBytes) proper
  have spans : spansOf s.regions ⊆ spansOf s'.regions := by
    rw [spansOf_congr sameShapes]
  refine ⟨p, s', done, ⟨recycled', inv', spans, ?_⟩, ?_⟩
  · rcases cases with ⟨null, rfl, rfl⟩ | ⟨nonNull, fresh, size, enough, used⟩
    · exact Or.inl ⟨null, fun _ _ => Iff.rfl⟩
    · exact Or.inr ⟨nonNull, fresh, size, by omega, used⟩
  · intro null
    rcases cases with ⟨-, same, -⟩ | ⟨nonNull, -⟩
    · exact same
    · exact absurd null nonNull

theorem allocateRaw_returns (inv : Inv s recycled [])
    (onGrid : kMinAllocationSize ∣ s.currRegionAllocationBytes) (config : Config)
    (answers : List Nat) (safe : s.SafeRequest numBytes) :
    Returns (s.allocateRaw config numBytes answers) fun result => Served s recycled numBytes result.1 result.2.1 := by
  unfold allocateRaw
  split
  · exact ⟨recycled, inv, Set.Subset.rfl, Or.inl ⟨rfl, fun _ _ => Iff.rfl⟩⟩
  · next nonzero =>
    obtain ⟨p, s₁, found, served, unchanged⟩ := findChunkPtr_served inv
      (binNumForSize (roundedBytes numBytes)) nonzero safe.1 (safe.cutsProperly inv)
    dsimp only
    rw [ok_bind found]
    dsimp only
    split
    · exact served
    · next null =>
      rw [unchanged (by simpa using null)]
      apply (extend_returns inv onGrid config (roundedBytes numBytes) answers).bind
      rintro ⟨extended, s₂, rest⟩ run ⟨recycled₂, inv₂, used₂, spans₂⟩
      dsimp only at *
      split
      · next isExtended =>
        have small : roundedBytes numBytes < 2 ^ 63 := by
          rcases safe.2 with small | ⟨-, unavailable⟩
          · exact small
          · rw [extend_of_unavailable config answers unavailable] at run
            cases run
            cases isExtended
        obtain ⟨p₃, s₃, found₃, ⟨recycled₃, inv₃, spans₃, cases₃⟩, -⟩ := findChunkPtr_served inv₂
          (binNumForSize (roundedBytes numBytes)) nonzero safe.1 (Or.inl small)
        rw [ok_bind found₃]
        refine ⟨recycled₃, inv₃, spans₂.trans spans₃, ?_⟩
        simpa only [used₂] using cases₃
      · exact ⟨recycled₂, inv₂, spans₂, Or.inl ⟨rfl, used₂⟩⟩

end Itex.Devices.Bfc.BFCAllocator
