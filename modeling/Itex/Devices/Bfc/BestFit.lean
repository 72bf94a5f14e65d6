import Itex.Devices.Bfc.Promise

/-!
Contract: `FindChunkPtr` is a complete best fit.

Owns: the order in which the search meets the free chunks of all bins, the chunk
it takes, and what the cut leaves of it.

A free chunk of a bin further on is larger than every chunk of an earlier bin,
because bin numbers grow with sizes; inside a bin the set is in the order of the
comparator.
-/

namespace Itex.Devices.Bfc

open Itex.Lib Itex.Lib.Segments

namespace BFCAllocator

variable {s s' : BFCAllocator} {recycled recycled' : List Nat} {h k b c rounded binNum : Nat}

theorem findFreeChunk_none (missed : s.findFreeChunk binNum rounded = none) (searched : binNum ≤ c)
    (inRange : c < kNumBins) (member : k ∈ s.freeChunks c) : (s.chunkAt k).size < rounded := by
  by_contra fits
  obtain ⟨found, located⟩ := exists_findFreeChunk inRange searched member (Nat.not_lt.1 fits)
  rw [missed] at located
  cases located

theorem findFreeChunk_first (located : s.findFreeChunk binNum rounded = some (b, h))
    (sorted : OrderedSet.Sorted s.chunkLess (s.freeChunks b)) (searched : binNum ≤ c)
    (inRange : c < kNumBins) (member : k ∈ s.freeChunks c) (fits : rounded ≤ (s.chunkAt k).size) :
    b < c ∨ (b = c ∧ (k = h ∨ s.chunkLess h k = true)) := by
  obtain ⟨before, d, after, split, here, skipped⟩ := List.findSome?_eq_some_iff.1 located
  obtain ⟨first, found, same⟩ := Option.map_eq_some_iff.1 here
  cases same
  have ordered : ((List.range kNumBins).drop binNum).Pairwise (· < ·) :=
    List.Pairwise.sublist (List.drop_sublist _ _) List.pairwise_lt_range
  have listed : c ∈ (List.range kNumBins).drop binNum := by
    rw [List.mem_drop_iff_getElem]
    exact ⟨c - binNum, by simp; omega, by simp; omega⟩
  rw [split] at ordered listed
  rcases List.mem_append.1 listed with inBefore | inRest
  · have none := skipped c inBefore
    rw [Option.map_eq_none_iff, List.find?_eq_none] at none
    exact absurd (by simpa using fits) (none k member)
  · rcases List.mem_cons.1 inRest with rfl | inAfter
    · exact Or.inr ⟨rfl, OrderedSet.find?_least sorted found member (by simpa using fits)⟩
    · exact Or.inl ((List.pairwise_cons.1 (List.pairwise_append.1 ordered).2.1).1 c inAfter)

/-- A free live chunk with this address and size. -/
def Free (s : BFCAllocator) (recycled : List Nat) (p n : Nat) : Prop :=
  Occupies (s.graph recycled) (fun h => (s.chunkAt h).inUse = false) p n

theorem Inv.mem_freeChunks (inv : Inv s recycled []) (hLive : (s.graph recycled).live h)
    (free : (s.chunkAt h).inUse = false) : h ∈ s.freeChunks (binNumForSize (s.chunkAt h).size) :=
  (inv.binned.mem _ h).2 ⟨⟨hLive, by simp⟩, free, rfl⟩

theorem Inv.free_short (inv : Inv s recycled [])
    (missed : s.findFreeChunk (binNumForSize rounded) rounded = none) {p n : Nat}
    (free : s.Free recycled p n) : n < rounded := by
  obtain ⟨k, kLive, kFree, -, rfl⟩ := free
  by_contra fits
  have size : (s.chunkAt k).size < rounded :=
    findFreeChunk_none missed (binNumForSize_mono (Nat.not_lt.1 fits)) (binNumForSize_lt _)
      (inv.mem_freeChunks kLive kFree)
  exact fits size

theorem Inv.free_least (inv : Inv s recycled [])
    (located : s.findFreeChunk (binNumForSize rounded) rounded = some (b, h)) {p n : Nat}
    (free : s.Free recycled p n) (fits : rounded ≤ n) :
    (s.chunkAt h).size < n ∨ ((s.chunkAt h).size = n ∧ (s.chunkAt h).ptr ≤ p) := by
  obtain ⟨k, kLive, kFree, rfl, rfl⟩ := free
  obtain ⟨member, -⟩ := findFreeChunk_some located
  have hBin := ((inv.binned.mem b h).1 member).2.2
  rcases findFreeChunk_first located (inv.binned.sorted b) (binNumForSize_mono fits)
    (binNumForSize_lt _) (inv.mem_freeChunks kLive kFree) fits with earlier | ⟨-, same | before⟩
  · left
    by_contra larger
    have bins := binNumForSize_mono (Nat.not_lt.1 larger)
    simp only [graph] at earlier bins
    omega
  · subst same
    exact Or.inr ⟨rfl, Nat.le_refl _⟩
  · simp only [chunkLess, bne_iff_ne, graph] at *
    split at before
    · exact Or.inl (of_decide_eq_true before)
    · next sameSize =>
      exact Or.inr ⟨by omega, Nat.le_of_lt (of_decide_eq_true before)⟩

/-- `size` bytes at `p` were taken into use out of a free chunk of `n` bytes, and
the rest, if any, is one free chunk right behind them. -/
structure Taken (s : BFCAllocator) (recycled : List Nat) (s' : BFCAllocator) (recycled' : List Nat)
    (p n size : Nat) : Prop where
  used : ∀ q m, s'.Used recycled' q m ↔ s.Used recycled q m ∨ (q = p ∧ m = size)
  free : ∀ q m, s'.Free recycled' q m ↔ (s.Free recycled q m ∧ q ≠ p) ∨ (size < n ∧ q = p + size ∧ m = n - size)

theorem free_take (hLive : (s.graph recycled).live h) (requested q m : Nat) :
    (s.setChunk h { s.chunkAt h with requestedSize := requested, allocationId := 0 }).Free
      recycled q m ↔
      ∃ k, k ≠ h ∧ (s.graph recycled).live k ∧ (s.chunkAt k).inUse = false ∧
        (s.graph recycled).ptr k = q ∧ (s.graph recycled).size k = m := by
  have chunks := chunkAt_setChunk hLive.1
    { s.chunkAt h with requestedSize := requested, allocationId := 0 }
  have graphs := mark_graph recycled hLive.1 requested 0
  unfold Free
  rw [graphs, chunks]
  constructor
  · rintro ⟨k, kLive, kFree, ptr, size⟩
    have kH : k ≠ h := by
      rintro rfl
      rw [Function.update_self] at kFree
      cases kFree
    rw [Function.update_of_ne kH] at kFree
    exact ⟨k, kH, kLive, kFree, ptr, size⟩
  · rintro ⟨k, kH, kLive, kFree, ptr, size⟩
    refine ⟨k, kLive, ?_, ptr, size⟩
    show (Function.update s.chunkAt h _ k).inUse = false
    rw [Function.update_of_ne kH]
    exact kFree

/-- Among well-formed chunks, leaving out a free handle is leaving out its
address. -/
theorem Inv.free_except {detached : List Nat} (inv : Inv s recycled detached)
    (hLive : (s.graph recycled).live h) (q m : Nat) :
    (∃ k, k ≠ h ∧ (s.graph recycled).live k ∧ (s.chunkAt k).inUse = false ∧
      (s.graph recycled).ptr k = q ∧ (s.graph recycled).size k = m) ↔ s.Free recycled q m ∧ q ≠ (s.chunkAt h).ptr := by
  constructor
  · rintro ⟨k, kH, kLive, kFree, rfl, rfl⟩
    refine ⟨⟨k, kLive, kFree, rfl, rfl⟩, fun same => kH ?_⟩
    exact inv.wellFormed.ptr_injective kLive hLive same
  · rintro ⟨⟨k, kLive, kFree, rfl, rfl⟩, away⟩
    refine ⟨k, ?_, kLive, kFree, rfl, rfl⟩
    rintro rfl
    exact away rfl

/-- After the cut the free chunks other than the part taken are the old ones and
the rest. -/
theorem Halves.free {n new : Nat} (halves : Halves s recycled h n new s' recycled')
    (inv : Inv s recycled [h]) (hLive : (s.graph recycled).live h) (q m : Nat) :
    (∃ k, k ≠ h ∧ (s'.graph recycled').live k ∧ (s'.chunkAt k).inUse = false ∧
      (s'.graph recycled').ptr k = q ∧ (s'.graph recycled').size k = m) ↔
      (s.Free recycled q m ∧ q ≠ (s.chunkAt h).ptr) ∨ (q = (s.chunkAt h).ptr + n ∧ m = (s.chunkAt h).size - n) := by
  obtain ⟨isNew, agree, newFree, inUse⟩ := halves
  have newH : new ≠ h := fun same => isNew (same ▸ hLive)
  have newFields : (s'.graph recycled').ptr new = (s.chunkAt h).ptr + n ∧
      (s'.graph recycled').size new = (s.chunkAt h).size - n := by
    rw [agree.ptr new (Or.inl rfl), agree.size new (Or.inl rfl)]
    simp [Segments.split, graph]
  have oldFields : ∀ k, k ≠ h → (s.graph recycled).live k → (s'.graph recycled').ptr k = (s.graph recycled).ptr k ∧
        (s'.graph recycled').size k = (s.graph recycled).size k := by
    intro k kH kLive
    have kNew : k ≠ new := fun same => isNew (same ▸ kLive)
    rw [agree.ptr k (Or.inr kLive), agree.size k (Or.inr kLive)]
    simp [Segments.split, kNew, kH]
  rw [← inv.free_except hLive]
  constructor
  · rintro ⟨k, kH, kLive, kFree, rfl, rfl⟩
    rcases (agree.live k).1 kLive with rfl | kOld
    · exact Or.inr newFields
    · obtain ⟨ptr, size⟩ := oldFields k kH kOld
      rw [inUse k kOld] at kFree
      exact Or.inl ⟨k, kH, kOld, kFree, ptr.symm, size.symm⟩
  · rintro (⟨k, kH, kLive, kFree, rfl, rfl⟩ | ⟨rfl, rfl⟩)
    · obtain ⟨ptr, size⟩ := oldFields k kH kLive
      rw [← inUse k kLive] at kFree
      exact ⟨k, kH, (agree.live k).2 (Or.inr kLive), kFree, ptr, size⟩
    · exact ⟨new, newH, (agree.live new).2 (Or.inl rfl), newFree, newFields.1, newFields.2⟩

/-- A chunk that is not split is less than twice the request and less than the
fragmentation bound above it. -/
theorem size_of_not_split {size : Nat} (small : rounded < 2 ^ 62)
    (inRange : size < sizeRange) (whole : ¬ shouldSplit size rounded = true) :
    size < 2 * rounded ∧ size < rounded + kMaxInternalFragmentation := by
  rw [shouldSplit, Bool.or_eq_true, decide_eq_true_eq, decide_eq_true_eq, not_or] at whole
  simp only [wrap, wrapSub, sizeRange, kMaxInternalFragmentation] at whole inRange ⊢
  omega

/-- `FindChunkPtr` takes the chunk the search found, cuts it if it is much too
long, and gives the rest back. -/
theorem findChunkPtr_takes (inv : Inv s recycled []) (numBytes : Nat) (pos : 0 < rounded)
    (onGrid : kMinAllocationSize ∣ rounded) (small : rounded < 2 ^ 62)
    (located : s.findFreeChunk binNum rounded = some (b, h)) :
    ∃ s' recycled' size, s.findChunkPtr binNum rounded numBytes = .ok ((s.chunkAt h).ptr, s') ∧
      Inv s' recycled' [] ∧ rounded ≤ size ∧ size < 2 * rounded ∧ size < rounded + kMaxInternalFragmentation ∧
      Taken s recycled s' recycled' (s.chunkAt h).ptr (s.chunkAt h).size size := by
  obtain ⟨member, fits⟩ := findFreeChunk_some located
  obtain ⟨⟨hLive, -⟩, free, -⟩ := (inv.binned.mem b h).1 member
  obtain ⟨region, inRegions, lower, upper, inRange, -⟩ := inv.toShape.region_of_live hLive
  obtain ⟨s₁, removed, inv₁, quiet⟩ := removeFreeChunkIterFromBin_spec inv member
  have ptr₁ : (s₁.chunkAt h).ptr = (s.chunkAt h).ptr :=
    congrArg (fun g : Graph Nat => g.ptr h) (quiet.graph recycled)
  have size₁ : (s₁.chunkAt h).size = (s.chunkAt h).size :=
    congrArg (fun g : Graph Nat => g.size h) (quiet.graph recycled)
  have hLive₁ : (s₁.graph recycled).live h := by
    rw [quiet.graph]
    exact hLive
  have free₁ : ∀ q m, s₁.Free recycled q m ↔ s.Free recycled q m := by
    intro q m
    simp only [Free, quiet.graph, quiet.inUse]
  -- The chunk that is taken, with what is free beside it.
  have cut : ∃ s₂ recycled₂, s₁.splitToFit h (s.chunkAt h).size rounded = .ok s₂ ∧
      Inv s₂ recycled₂ [h] ∧ (∀ q n, s₂.Used recycled₂ q n ↔ s.Used recycled q n) ∧
      (s₂.chunkAt h).ptr = (s.chunkAt h).ptr ∧ rounded ≤ (s₂.chunkAt h).size ∧
      (s₂.chunkAt h).size < 2 * rounded ∧
      (s₂.chunkAt h).size < rounded + kMaxInternalFragmentation ∧
      ∀ q m, (∃ k, k ≠ h ∧ (s₂.graph recycled₂).live k ∧ (s₂.chunkAt k).inUse = false ∧
        (s₂.graph recycled₂).ptr k = q ∧ (s₂.graph recycled₂).size k = m) ↔
        (s.Free recycled q m ∧ q ≠ (s.chunkAt h).ptr) ∨ ((s₂.chunkAt h).size < (s.chunkAt h).size ∧
            q = (s.chunkAt h).ptr + (s₂.chunkAt h).size ∧
            m = (s.chunkAt h).size - (s₂.chunkAt h).size) := by
    unfold splitToFit
    split
    · next cutting =>
      have shorter := shouldSplit_lt pos fits (by omega) (Or.inl (by omega)) cutting
      obtain ⟨s₂, recycled₂, done, inv₂, used₂, -, ptr₂, size₂, new, halves⟩ :=
        splitChunk_spec inv₁ pos (by rw [size₁]; exact shorter) onGrid (by
          intro k link
          rw [quiet.graph] at link
          rw [quiet.inUse]
          exact inv.neighbour_used hLive free (Or.inl link))
      refine ⟨s₂, recycled₂, done, inv₂, ?_, ptr₂.trans ptr₁, ?_⟩
      · intro q n
        rw [used₂, quiet.used]
      · rw [size₂]
        refine ⟨Nat.le_refl _, by omega, Nat.lt_add_of_pos_right (by decide), ?_⟩
        intro q m
        rw [halves.free inv₁ hLive₁, free₁, ptr₁, size₁]
        simp only [shorter, true_and]
    · next whole =>
      obtain ⟨short, slack⟩ := size_of_not_split small (by omega) whole
      refine ⟨s₁, recycled, rfl, inv₁, fun q n => quiet.used recycled q n, ptr₁, ?_⟩
      rw [size₁]
      refine ⟨fits, short, slack, ?_⟩
      intro q m
      rw [inv₁.free_except hLive₁, free₁, ptr₁]
      simp only [Nat.lt_irrefl, false_and, or_false]
  obtain ⟨s₂, recycled₂, done, inv₂, used₂, ptr₂, enough, short, slack, free₂⟩ := cut
  obtain ⟨hLive₂, hFree₂, -⟩ := inv₂.parked h (by simp)
  have chunks := chunkAt_setChunk hLive₂.1
    { s₂.chunkAt h with requestedSize := numBytes, allocationId := 0 }
  refine ⟨_, recycled₂, (s₂.chunkAt h).size, ?_, inv₂.take (by simp) numBytes, enough, short, slack, ?_, ?_⟩
  · unfold findChunkPtr
    rw [located]
    dsimp only
    rw [ok_bind removed, ok_bind done, ok_bind (modifyChunk_eq hLive₂.1 _), chunks, Function.update_self, ← ptr₂]
    rfl
  · intro q m
    rw [used_take hLive₂ hFree₂, used₂, ptr₂]
  · intro q m
    rw [free_take hLive₂, free₂]

/-! ## Chunks of the regions -/

/-- The handle is entered in the table of a region. -/
def InRegions (s : BFCAllocator) (h : Nat) : Prop :=
  h ≠ kInvalidChunkHandle ∧ ∃ region ∈ s.regions, h ∈ region.handles

/-- A free chunk of some region, with this address and size. -/
def FreeChunk (s : BFCAllocator) (p n : Nat) : Prop :=
  ∃ h, s.InRegions h ∧ (s.chunkAt h).inUse = false ∧ (s.chunkAt h).ptr = p ∧ (s.chunkAt h).size = n

/-- A chunk in use of some region, with this address and size. -/
def UsedChunk (s : BFCAllocator) (p n : Nat) : Prop :=
  ∃ h, s.InRegions h ∧ (s.chunkAt h).inUse = true ∧ (s.chunkAt h).ptr = p ∧ (s.chunkAt h).size = n

theorem Shape.inRegions_iff (shape : Shape s recycled) : s.InRegions h ↔ (s.graph recycled).live h := by
  constructor
  · rintro ⟨valid, region, member, entered⟩
    obtain ⟨i, stored⟩ := List.mem_iff_getElem?.1 entered
    exact (shape.slot_live member stored valid).1
  · intro hLive
    refine ⟨shape.valid hLive.1, ?_⟩
    obtain ⟨region, member, hasSlot⟩ := shape.hasSlot (n := 0) hLive
      (shape.wellFormed.sizePos h hLive) (Nat.dvd_zero _)
    rw [Nat.add_zero] at hasSlot
    have indexed : slotAt s.regions (s.chunkAt h).ptr = some h :=
      (shape.indexes _ h).2 ⟨hLive, rfl⟩
    rw [slotAt_of_hasSlot shape.regionsOk member hasSlot, AllocationRegion.slot, if_pos hasSlot]
      at indexed
    obtain ⟨stored, -⟩ := optHandle_eq_some.1 indexed
    refine ⟨region, member, ?_⟩
    have inTable := AllocationRegion.indexFor_lt (shape.regionsOk.each region member) hasSlot.1
      hasSlot.2.1
    rw [AllocationRegion.indexFor_eq (shape.regionsOk.each region member) hasSlot.1 hasSlot.2.1]
      at inTable
    rw [List.getD_eq_getElem?_getD, List.getElem?_eq_getElem inTable, Option.getD_some] at stored
    rw [← stored]
    exact List.getElem_mem inTable

theorem Shape.freeChunk_iff (shape : Shape s recycled) (p n : Nat) : s.FreeChunk p n ↔ s.Free recycled p n := by
  simp only [FreeChunk, shape.inRegions_iff]
  exact Iff.rfl

theorem Shape.usedChunk_iff (shape : Shape s recycled) (p n : Nat) : s.UsedChunk p n ↔ s.Used recycled p n := by
  simp only [UsedChunk, shape.inRegions_iff]
  exact Iff.rfl

/-- `size` bytes at `p` went into use, out of a free chunk that was the least of
those that fit, without wasting much; what the cut left of it is one new free
chunk right behind them, and no other chunk changed. -/
structure TookBest (s s' : BFCAllocator) (rounded p n size : Nat) : Prop where
  wasFree : s.FreeChunk p n
  fits : rounded ≤ n
  least : ∀ q m, s.FreeChunk q m → rounded ≤ m → n < m ∨ (n = m ∧ p ≤ q)
  enough : rounded ≤ size
  tight : size < min (2 * rounded) (rounded + kMaxInternalFragmentation)
  used : ∀ q m, s'.UsedChunk q m ↔ s.UsedChunk q m ∨ (q = p ∧ m = size)
  free : ∀ q m, s'.FreeChunk q m ↔ (s.FreeChunk q m ∧ q ≠ p) ∨ (size < n ∧ q = p + size ∧ m = n - size)

end BFCAllocator

namespace System

open BFCAllocator

/-- `FindChunkPtr`, started in the bin of the request, returns null exactly if no
free chunk fits, and otherwise takes the least free chunk that does. -/
theorem findChunkPtr_best_fit {config : Config} {system : System}
    (reachable : Reachable config Safe system) {rounded : Nat} (numBytes : Nat)
    (positive : 0 < rounded) (onGrid : kMinAllocationSize ∣ rounded) (small : rounded < 2 ^ 62) :
    ∃ p s', system.allocator.findChunkPtr (binNumForSize rounded) rounded numBytes = .ok (p, s') ∧
      (p = 0 ↔ ∀ q n, system.allocator.FreeChunk q n → n < rounded) ∧
      (p ≠ 0 → ∃ n size, TookBest system.allocator s' rounded p n size) := by
  obtain ⟨recycled, tracks⟩ := tracks_of_reachable reachable
  have inv := tracks.inv
  cases located : system.allocator.findFreeChunk (binNumForSize rounded) rounded with
  | none =>
    refine ⟨0, system.allocator, ?_, ?_, fun nonNull => absurd rfl nonNull⟩
    · unfold BFCAllocator.findChunkPtr
      rw [located]
    · refine iff_of_true rfl ?_
      intro q n free
      exact inv.free_short located ((inv.toShape.freeChunk_iff q n).1 free)
  | some found =>
    obtain ⟨b, h⟩ := found
    obtain ⟨s', recycled', size, done, inv', enough, short, slack, taken⟩ :=
      findChunkPtr_takes inv numBytes positive onGrid small located
    obtain ⟨member, fits⟩ := findFreeChunk_some located
    obtain ⟨⟨hLive, -⟩, hFree, -⟩ := (inv.binned.mem b h).1 member
    have isFree : system.allocator.FreeChunk (system.allocator.chunkAt h).ptr
        (system.allocator.chunkAt h).size :=
      ⟨h, inv.toShape.inRegions_iff.2 hLive, hFree, rfl, rfl⟩
    have nonNull : (system.allocator.chunkAt h).ptr ≠ 0 := by
      obtain ⟨region, inRegions, lower, -⟩ := inv.toShape.region_of_live hLive
      have based := (inv.regionsOk.each region inRegions).based
      omega
    refine ⟨_, s', done, ?_, ?_⟩
    · refine iff_of_false nonNull ?_
      intro none
      exact absurd (none _ _ isFree) (Nat.not_lt.2 fits)
    · intro _
      refine ⟨_, size, isFree, fits, ?_, enough, lt_min short slack, ?_, ?_⟩
      · intro q m free large
        exact inv.free_least located ((inv.toShape.freeChunk_iff q m).1 free) large
      · intro q m
        rw [inv'.toShape.usedChunk_iff, inv.toShape.usedChunk_iff]
        exact taken.used q m
      · intro q m
        rw [inv'.toShape.freeChunk_iff, inv.toShape.freeChunk_iff]
        exact taken.free q m

theorem findChunkPtr_best_fit_after_one_allocation : ∃ system, run tinyDevice [.allocateRaw 1 [4096]] = .ok system ∧
      ∃ p s', system.allocator.findChunkPtr (binNumForSize 256) 256 200 = .ok (p, s') ∧
        (p = 0 ↔ ∀ q n, system.allocator.FreeChunk q n → n < 256) ∧
        (p ≠ 0 → ∃ n size, TookBest system.allocator s' 256 p n size) := by
  have served : ∃ system, run tinyDevice [.allocateRaw 1 [4096]] = .ok system := ⟨_, rfl⟩
  obtain ⟨system, done⟩ := served
  have moderate : Reachable tinyDevice (fun _ event => Moderate event) system :=
    reachable_run (by simp [Moderate]) done
  have reachable : Reachable tinyDevice Safe system :=
    moderate.mono fun allocator event meets => safe_of_moderate meets allocator
  exact ⟨system, done, findChunkPtr_best_fit reachable 200 (by decide) (by decide) (by decide)⟩

end System

end Itex.Devices.Bfc
