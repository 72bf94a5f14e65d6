import Itex.Lib.Fallible
import Itex.Devices.Bfc.Regions
import Itex.Devices.Bfc.Allocator

/-!
Contract: the memory ledger of `BFCAllocator`: `memory_limit_`,
`total_region_allocated_bytes_`, `curr_region_allocation_bytes_` and the sizes
of the regions.

Owns: the edits that move no chunk, the frame rule that everything but `Extend`
leaves the ledger alone, and what `Extend` does to it in either mode.
-/

namespace Itex.Devices.Bfc

open Itex.Lib

variable {config : Config} {extended : Bool} {got requested : Nat}

theorem shapes_setHandle {p h : Nat} {regions regions' : List AllocationRegion}
    (stored : setHandle p h regions = .ok regions') : shapes regions' = shapes regions := by
  induction regions generalizing regions' with
  | nil => cases stored
  | cons region rest ih =>
    unfold setHandle at stored
    split at stored
    · obtain ⟨region', written, rfl⟩ := by
        simpa only [bind_ok, pure, Except.pure, Except.ok.injEq] using stored
      unfold AllocationRegion.setHandle at written
      split at written
      · cases written
        rfl
      · cases written
    · obtain ⟨rest', written, rfl⟩ := by
        simpa only [bind_ok, pure, Except.pure, Except.ok.injEq] using stored
      show _ :: shapes rest' = _ :: shapes rest
      rw [ih written]

namespace BFCAllocator

/-- A relation that holds of every edit which moves no chunk. -/
structure Framed (rel : BFCAllocator → BFCAllocator → Prop) : Prop where
  refl (s : BFCAllocator) : rel s s
  trans {s s' s'' : BFCAllocator} : rel s s' → rel s' s'' → rel s s''
  modifyChunk {s s' : BFCAllocator} {h : Nat} {f : Chunk → Chunk} :
    s.modifyChunk h f = .ok s' → (∀ c, (f c).ptr = c.ptr) → rel s s'
  setBin (s : BFCAllocator) (number : Nat) (handles : List Nat) : rel s { s with bins := s.bins.set number handles }
  setRegions {s : BFCAllocator} {p h : Nat} {regions : List AllocationRegion} :
    setHandle p h s.regions = .ok regions → rel s { s with regions := regions }
  free (s : BFCAllocator) (h : Nat) : rel s { s with freeChunksList := h }

section Frame

variable {s s' : BFCAllocator} {h k n : Nat}

namespace Framed

variable {rel : BFCAllocator → BFCAllocator → Prop} (framed : Framed rel)

include framed

theorem insertFreeChunkIntoBin (run : s.insertFreeChunkIntoBin h = .ok s') : rel s s' := by
  obtain ⟨c, -, run⟩ := bind_ok.1 run
  obtain ⟨-, -, run⟩ := bind_ok.1 run
  obtain ⟨newBin, -, run⟩ := bind_ok.1 run
  obtain ⟨s₁, written, ran⟩ := bind_ok.1 run
  cases ran
  exact framed.trans (framed.modifyChunk written fun _ => rfl) (framed.setBin s₁ _ _)

theorem removeFreeChunkFromBin (run : s.removeFreeChunkFromBin h = .ok s') : rel s s' := by
  obtain ⟨c, -, run⟩ := bind_ok.1 run
  obtain ⟨-, -, run⟩ := bind_ok.1 run
  obtain ⟨bin, -, run⟩ := bind_ok.1 run
  obtain ⟨-, -, run⟩ := bind_ok.1 run
  exact framed.trans (framed.setBin s _ _) (framed.modifyChunk run fun _ => rfl)

theorem removeFreeChunkIterFromBin (run : s.removeFreeChunkIterFromBin n h = .ok s') : rel s s' := by
  obtain ⟨c, -, run⟩ := bind_ok.1 run
  obtain ⟨-, -, run⟩ := bind_ok.1 run
  exact framed.trans (framed.setBin s _ _) (framed.modifyChunk run fun _ => rfl)

theorem setPrev (run : s.setPrev h n = .ok s') : rel s s' := by
  unfold BFCAllocator.setPrev at run
  split at run
  · exact framed.modifyChunk run fun _ => rfl
  · cases run
    exact framed.refl s

theorem deleteChunk (run : s.deleteChunk h = .ok s') : rel s s' := by
  obtain ⟨c, -, run⟩ := bind_ok.1 run
  obtain ⟨regions, erased, run⟩ := bind_ok.1 run
  obtain ⟨s₁, written, ran⟩ := bind_ok.1 run
  cases ran
  exact framed.trans (framed.setRegions erased) (framed.trans (framed.modifyChunk written fun _ => rfl)
    (framed.free s₁ h))

theorem merge (run : s.merge h k = .ok s') : rel s s' := by
  obtain ⟨c₁, -, run⟩ := bind_ok.1 run
  obtain ⟨c₂, -, run⟩ := bind_ok.1 run
  obtain ⟨-, -, run⟩ := bind_ok.1 run
  obtain ⟨s₁, first, run⟩ := bind_ok.1 run
  obtain ⟨-, -, run⟩ := bind_ok.1 run
  obtain ⟨s₂, second, run⟩ := bind_ok.1 run
  obtain ⟨s₃, third, run⟩ := bind_ok.1 run
  exact framed.trans (framed.modifyChunk first fun _ => rfl) (framed.trans (framed.setPrev second)
    (framed.trans (framed.modifyChunk third fun _ => rfl) (framed.deleteChunk run)))

theorem coalesceNext (run : s.coalesceNext h = .ok s') : rel s s' := by
  obtain ⟨c, -, run⟩ := bind_ok.1 run
  split at run
  · obtain ⟨m, -, run⟩ := bind_ok.1 run
    split at run
    · obtain ⟨s₁, removed, run⟩ := bind_ok.1 run
      exact framed.trans (framed.removeFreeChunkFromBin removed) (framed.merge run)
    · cases run
      exact framed.refl s
  · cases run
    exact framed.refl s

theorem coalescePrev (run : s.coalescePrev h = .ok (k, s')) : rel s s' := by
  obtain ⟨c, -, run⟩ := bind_ok.1 run
  split at run
  · obtain ⟨m, -, run⟩ := bind_ok.1 run
    split at run
    · obtain ⟨s₁, removed, run⟩ := bind_ok.1 run
      obtain ⟨s₂, merged, ran⟩ := bind_ok.1 run
      cases ran
      exact framed.trans (framed.removeFreeChunkFromBin removed) (framed.merge merged)
    · cases run
      exact framed.refl s
  · cases run
    exact framed.refl s

theorem deallocateRaw (run : s.deallocateRaw n = .ok s') : rel s s' := by
  unfold BFCAllocator.deallocateRaw at run
  split at run
  · cases run
    exact framed.refl s
  · obtain ⟨h, -, run⟩ := bind_ok.1 run
    obtain ⟨-, -, run⟩ := bind_ok.1 run
    obtain ⟨s₁, released, run⟩ := bind_ok.1 run
    obtain ⟨⟨coalesced, s₂⟩, joined, run⟩ := bind_ok.1 run
    obtain ⟨s₃, right, left⟩ := bind_ok.1 joined
    exact framed.trans (framed.modifyChunk released fun _ => rfl) (framed.trans (framed.coalesceNext right)
      (framed.trans (framed.coalescePrev left) (framed.insertFreeChunkIntoBin run)))

end Framed

/-- The two states agree on the ledger. -/
structure Books (s s' : BFCAllocator) : Prop where
  limit : s'.memoryLimit = s.memoryLimit
  total : s'.totalRegionAllocatedBytes = s.totalRegionAllocatedBytes
  curr : s'.currRegionAllocationBytes = s.currRegionAllocationBytes
  shapes : shapes s'.regions = shapes s.regions

theorem Books.refl (s : BFCAllocator) : Books s s := ⟨rfl, rfl, rfl, rfl⟩

theorem Books.trans {s s' s'' : BFCAllocator} (first : Books s s') (second : Books s' s'') : Books s s'' :=
  ⟨second.limit.trans first.limit, second.total.trans first.total,
    second.curr.trans first.curr, second.shapes.trans first.shapes⟩

theorem books_modifyChunk {f : Chunk → Chunk} (run : s.modifyChunk h f = .ok s') : Books s s' := by
  unfold modifyChunk at run
  split at run
  · cases run
    exact ⟨rfl, rfl, rfl, rfl⟩
  · cases run

theorem framed_books : Framed Books where
  refl := Books.refl
  trans := Books.trans
  modifyChunk written _ := books_modifyChunk written
  setBin _ _ _ := ⟨rfl, rfl, rfl, rfl⟩
  setRegions stored := ⟨rfl, rfl, rfl, shapes_setHandle stored⟩
  free _ _ := ⟨rfl, rfl, rfl, rfl⟩

theorem books_allocateChunk (run : s.allocateChunk = .ok (h, s')) : Books s s' := by
  unfold allocateChunk at run
  split at run
  · obtain ⟨c, -, ran⟩ := bind_ok.1 run
    cases ran
    exact ⟨rfl, rfl, rfl, rfl⟩
  · cases run
    exact ⟨rfl, rfl, rfl, rfl⟩

theorem books_splitChunk (run : s.splitChunk h n = .ok s') : Books s s' := by
  obtain ⟨⟨new, s₁⟩, allocated, run⟩ := bind_ok.1 run
  obtain ⟨c, -, run⟩ := bind_ok.1 run
  obtain ⟨-, -, run⟩ := bind_ok.1 run
  obtain ⟨regions, stored, run⟩ := bind_ok.1 run
  obtain ⟨s₂, first, run⟩ := bind_ok.1 run
  obtain ⟨s₃, second, run⟩ := bind_ok.1 run
  obtain ⟨s₄, third, run⟩ := bind_ok.1 run
  exact (books_allocateChunk allocated).trans ((framed_books.setRegions stored).trans ((books_modifyChunk first).trans
    ((books_modifyChunk second).trans ((framed_books.setPrev third).trans
      (framed_books.insertFreeChunkIntoBin run)))))

theorem books_findChunkPtr {binNum rounded numBytes p : Nat}
    (run : s.findChunkPtr binNum rounded numBytes = .ok (p, s')) : Books s s' := by
  unfold findChunkPtr at run
  split at run
  · cases run
    exact Books.refl s
  · obtain ⟨s₁, removed, run⟩ := bind_ok.1 run
    have first := framed_books.removeFreeChunkIterFromBin removed
    obtain ⟨s₂, cut, run⟩ := bind_ok.1 run
    obtain ⟨s₃, marked, ran⟩ := bind_ok.1 run
    cases ran
    have second : Books s₁ s₂ := by
      unfold splitToFit at cut
      split at cut
      · exact books_splitChunk cut
      · cases cut
        exact Books.refl s₁
    exact first.trans (second.trans (books_modifyChunk marked))

end Frame

/-! ## Growing the pool -/

def regionBytes (s : BFCAllocator) : Nat := (s.regions.map AllocationRegion.memorySize).sum

theorem Books.regionBytes {s s' : BFCAllocator} (books : Books s s') : s'.regionBytes = s.regionBytes := by
  have sizes : ∀ regions : List AllocationRegion, regions.map AllocationRegion.memorySize =
      (Bfc.shapes regions).map fun shape => shape.2.1 := by
    intro regions
    simp [Bfc.shapes]
  simp only [BFCAllocator.regionBytes, sizes, books.shapes]

theorem sum_addAllocationRegion (p bytes : Nat) (regions : List AllocationRegion) :
    ((addAllocationRegion p bytes regions).map AllocationRegion.memorySize).sum =
      (regions.map AllocationRegion.memorySize).sum + bytes := by
  induction regions with
  | nil => simp [addAllocationRegion, AllocationRegion.make]
  | cons region rest ih =>
    unfold addAllocationRegion
    split
    · simp only [List.map_cons, List.sum_cons, AllocationRegion.make]
      omega
    · simp only [List.map_cons, List.sum_cons, ih]
      omega

/-- The ledger balances and stays within the limit; the next region size is on
the grid. -/
structure Ledger (s : BFCAllocator) : Prop where
  balanced : s.totalRegionAllocatedBytes = s.regionBytes
  within : s.totalRegionAllocatedBytes ≤ s.memoryLimit
  limited : s.memoryLimit < sizeRange
  onGrid : kMinAllocationSize ∣ s.currRegionAllocationBytes

section Grow

variable {s s' : BFCAllocator} {bytes p : Nat} {answers answers' : List Nat}

theorem Ledger.congr (ledger : Ledger s) (books : Books s s') : Ledger s' := by
  refine ⟨?_, ?_, ?_, ?_⟩
  · rw [books.total, books.regionBytes]
    exact ledger.balanced
  · rw [books.total, books.limit]
    exact ledger.within
  · rw [books.limit]
    exact ledger.limited
  · rw [books.curr]
    exact ledger.onGrid

theorem Ledger.availableBytes_le (ledger : Ledger s) :
    s.totalRegionAllocatedBytes + s.availableBytes ≤ s.memoryLimit := by
  have within := ledger.within
  have limited := ledger.limited
  simp only [availableBytes, wrapSub, sizeRange, kMinAllocationSize] at *
  omega

theorem books_addRegion (run : s.addRegion p bytes = .ok s') : Books { s with
      totalRegionAllocatedBytes := wrap (s.totalRegionAllocatedBytes + bytes)
      regions := addAllocationRegion p bytes s.regions } s' := by
  obtain ⟨⟨h, s₁⟩, allocated, run⟩ := bind_ok.1 run
  obtain ⟨s₂, written, run⟩ := bind_ok.1 run
  obtain ⟨regions, stored, run⟩ := bind_ok.1 run
  exact (books_allocateChunk allocated).trans ((books_modifyChunk written).trans
    ((framed_books.setRegions stored).trans (framed_books.insertFreeChunkIntoBin run)))

theorem ledger_addRegion (ledger : Ledger s) (fits : s.totalRegionAllocatedBytes + bytes ≤ s.memoryLimit)
    (run : s.addRegion p bytes = .ok s') : Ledger s' := by
  refine Ledger.congr ?_ (books_addRegion run)
  have limited := ledger.limited
  have noWrap : wrap (s.totalRegionAllocatedBytes + bytes) =
      s.totalRegionAllocatedBytes + bytes := Nat.mod_eq_of_lt (by omega)
  refine ⟨?_, ?_, ledger.limited, ledger.onGrid⟩
  · simp only [regionBytes, noWrap, sum_addAllocationRegion]
    rw [ledger.balanced]
    rfl
  · simp only [noWrap]
    exact fits

/-- Nine tenths of a size in binary32 never exceed the size. -/
theorem backpedal_le (bytes : Nat) : backpedal bytes ≤ bytes := by
  have first := Itex.Lib.Binary32.roundSignificand_mul_le 24 bytes
  have second := Itex.Lib.Binary32.roundSignificand_mul_le 24
    (Itex.Lib.Binary32.roundSignificand 24 bytes * 15099494)
  unfold backpedal
  omega

theorem roundedBytes_le {n : Nat} (onGrid : kMinAllocationSize ∣ bytes) (below : n ≤ bytes)
    (inRange : bytes < sizeRange) : roundedBytes n ≤ bytes := by
  have exact : roundedBytes n = 256 * ((n + 255) / 256) := roundedBytes_of_le (by
    simp only [kMinAllocationSize, sizeRange] at *
    omega)
  rw [exact]
  simp only [kMinAllocationSize] at *
  omega

theorem backOff_spec (run : s.backOff requested bytes answers = .ok (p, got, answers')) :
    (kMinAllocationSize ∣ bytes → bytes < sizeRange → got ≤ bytes) ∧ kMinAllocationSize ∣ got ∧
      (p ≠ 0 → s.Grantable got p ∧ requested ≤ got ∧ p ∈ answers) := by
  have shrunk : ∀ n, kMinAllocationSize ∣ n → n < sizeRange → roundedBytes (backpedal n) ≤ n :=
    fun n onGrid inRange => roundedBytes_le onGrid (backpedal_le n) inRange
  induction answers generalizing bytes with
  | nil =>
    unfold backOff at run
    dsimp only at run
    split at run
    · cases run
      exact ⟨shrunk _, dvd_roundedBytes _, fun nonNull => absurd rfl nonNull⟩
    · cases run
  | cons first rest ih =>
    unfold backOff at run
    dsimp only at run
    split at run
    · cases run
      exact ⟨shrunk _, dvd_roundedBytes _, fun nonNull => absurd rfl nonNull⟩
    · next enough =>
      split at run
      · obtain ⟨below, dvd, granted⟩ := ih run
        refine ⟨?_, dvd, fun nonNull => ?_⟩
        · intro onGrid inRange
          exact Nat.le_trans (below (dvd_roundedBytes _) (roundedBytes_lt _)) (shrunk _ onGrid inRange)
        · obtain ⟨grantable, covered, mem⟩ := granted nonNull
          exact ⟨grantable, covered, List.mem_cons_of_mem _ mem⟩
      · split at run
        · next granted =>
          cases run
          exact ⟨shrunk _, dvd_roundedBytes _, fun _ => ⟨granted, Nat.not_lt.1 enough, List.mem_cons_self⟩⟩
        · cases run

theorem mallocBackingOff_spec (onGrid : kMinAllocationSize ∣ bytes) (inRange : bytes < sizeRange)
    (run : s.mallocBackingOff requested bytes answers = .ok (p, got, answers')) :
    got ≤ bytes ∧ kMinAllocationSize ∣ got ∧ (p ≠ 0 → s.Grantable got p) := by
  obtain ⟨⟨first, rest⟩, asked, run⟩ := bind_ok.1 run
  dsimp only at run
  split at run
  · obtain ⟨below, dvd, granted⟩ := backOff_spec run
    exact ⟨below onGrid inRange, dvd, fun nonNull => (granted nonNull).1⟩
  · next nonNull =>
    cases run
    refine ⟨Nat.le_refl _, onGrid, fun _ => ?_⟩
    unfold gpuMalloc at asked
    split at asked
    · cases asked
    · split at asked
      · next granted =>
        cases asked
        exact granted.resolve_left nonNull
      · cases asked

theorem growRegion_spec {curr fuel : Nat} {increased increased' : Bool}
    (onGrid : kMinAllocationSize ∣ curr) (run : growRegion requested fuel curr increased = .ok (got, increased')) :
    kMinAllocationSize ∣ got ∧ requested ≤ got := by
  induction fuel generalizing curr increased with
  | zero => cases run
  | succ fuel ih =>
    unfold growRegion at run
    split at run
    · refine ih ?_ run
      simp only [wrap, sizeRange, kMinAllocationSize] at *
      omega
    · next enough =>
      cases run
      exact ⟨onGrid, Nat.not_lt.1 enough⟩

theorem dvd_getLimitAlloc (config : Config) : kMinAllocationSize ∣ getLimitAlloc config s := by
  simp only [getLimitAlloc, kMinAllocationSize, sizeRange]
  omega

theorem dvd_availableBytes (s : BFCAllocator) : kMinAllocationSize ∣ s.availableBytes :=
  Nat.dvd_mul_left _ _

theorem dvd_smallRegionBytes (requested : Nat) : kMinAllocationSize ∣ smallRegionBytes requested := by
  unfold smallRegionBytes wrap
  simp only [kMinAllocationSize, sizeRange]
  split_ifs <;> omega

theorem askedBytes_spec (config : Config) {curr : Nat} (onGrid : kMinAllocationSize ∣ curr) :
    kMinAllocationSize ∣ min (min curr s.availableBytes) (getLimitAlloc config s) ∧
      min (min curr s.availableBytes) (getLimitAlloc config s) < sizeRange := by
  have available := dvd_availableBytes s
  have limit := dvd_getLimitAlloc (s := s) config
  have inRange : getLimitAlloc config s < sizeRange := by
    simp only [getLimitAlloc, sizeRange]
    omega
  simp only [kMinAllocationSize] at *
  omega

theorem curr_extend (onGrid : kMinAllocationSize ∣ s.currRegionAllocationBytes)
    (run : s.extend config requested answers = .ok (extended, s', answers')) :
    kMinAllocationSize ∣ s'.currRegionAllocationBytes := by
  unfold extend at run
  split at run
  · unfold extendLarge at run
    dsimp only at run
    split at run
    · cases run
      exact onGrid
    · obtain ⟨⟨curr, increased⟩, grown, run⟩ := bind_ok.1 run
      obtain ⟨⟨memAddr, bytes, rest⟩, answered, run⟩ := bind_ok.1 run
      obtain ⟨currGrid, -⟩ := growRegion_spec onGrid grown
      dsimp only at run
      split at run
      · cases run
        exact currGrid
      · obtain ⟨s₁, entered, ran⟩ := bind_ok.1 run
        cases ran
        rw [(books_addRegion entered).curr]
        split
        · exact currGrid
        · simp only [wrap, sizeRange, kMinAllocationSize] at *
          omega
  · split at run
    · unfold extendSmall at run
      dsimp only at run
      split at run
      · cases run
        exact onGrid
      · obtain ⟨⟨memAddr, rest⟩, answered, run⟩ := bind_ok.1 run
        dsimp only at run
        split at run
        · cases run
          exact onGrid
        · obtain ⟨s₁, entered, ran⟩ := bind_ok.1 run
          cases ran
          rw [(books_addRegion entered).curr]
          exact onGrid
    · cases run
      exact onGrid

theorem curr_allocateRaw {numBytes : Nat} (onGrid : kMinAllocationSize ∣ s.currRegionAllocationBytes)
    (run : s.allocateRaw config numBytes answers = .ok (p, s', answers')) :
    kMinAllocationSize ∣ s'.currRegionAllocationBytes := by
  unfold allocateRaw at run
  split at run
  · cases run
    exact onGrid
  · obtain ⟨⟨first, s₁⟩, found, run⟩ := bind_ok.1 run
    have grid₁ : kMinAllocationSize ∣ s₁.currRegionAllocationBytes := by
      rw [(books_findChunkPtr found).curr]
      exact onGrid
    dsimp only at run
    split at run
    · cases run
      exact grid₁
    · obtain ⟨⟨extended, s₂, rest⟩, grown, run⟩ := bind_ok.1 run
      have grid₂ := curr_extend grid₁ grown
      dsimp only at run
      split at run
      · obtain ⟨⟨second, s₃⟩, found₃, ran⟩ := bind_ok.1 run
        cases ran
        rw [(books_findChunkPtr found₃).curr]
        exact grid₂
      · cases run
        exact grid₂

theorem ledger_extendLarge (ledger : Ledger s)
    (run : s.extendLarge config requested answers = .ok (extended, s', answers')) : Ledger s' := by
  have available := ledger.availableBytes_le
  unfold extendLarge at run
  dsimp only at run
  split at run
  · cases run
    exact ledger
  · obtain ⟨⟨curr, increased⟩, grown, run⟩ := bind_ok.1 run
    obtain ⟨⟨memAddr, bytes, rest⟩, answered, run⟩ := bind_ok.1 run
    obtain ⟨currGrid, -⟩ := growRegion_spec ledger.onGrid grown
    have grownLedger : Ledger { s with currRegionAllocationBytes := curr } :=
      ⟨ledger.balanced, ledger.within, ledger.limited, currGrid⟩
    obtain ⟨asked, inRange⟩ :=
      askedBytes_spec (s := { s with currRegionAllocationBytes := curr }) config currGrid
    obtain ⟨below, -, -⟩ := mallocBackingOff_spec asked inRange answered
    have capped : bytes ≤ s.availableBytes :=
      Nat.le_trans below (Nat.le_trans (Nat.min_le_left _ _) (Nat.min_le_right _ _))
    dsimp only at run
    split at run
    · cases run
      exact grownLedger
    · obtain ⟨s₁, entered, ran⟩ := bind_ok.1 run
      cases ran
      refine ledger_addRegion ?_ ?_ entered
      · split
        · exact grownLedger
        · refine ⟨ledger.balanced, ledger.within, ledger.limited, ?_⟩
          simp only [wrap, sizeRange, kMinAllocationSize] at *
          omega
      · split
        · exact Nat.le_trans (Nat.add_le_add_left capped _) available
        · exact Nat.le_trans (Nat.add_le_add_left capped _) available

theorem ledger_extendSmall (ledger : Ledger s)
    (fits : requested ≤ s.availableBytes → s.totalRegionAllocatedBytes + smallRegionBytes requested ≤ s.memoryLimit)
    (run : s.extendSmall requested answers = .ok (extended, s', answers')) : Ledger s' := by
  unfold extendSmall at run
  dsimp only at run
  split at run
  · cases run
    exact ledger
  · next enough =>
    obtain ⟨⟨memAddr, rest⟩, answered, run⟩ := bind_ok.1 run
    dsimp only at run
    split at run
    · cases run
      exact ledger
    · obtain ⟨s₁, entered, ran⟩ := bind_ok.1 run
      cases ran
      exact ledger_addRegion ledger (fits (Nat.not_lt.1 enough)) entered

end Grow

end BFCAllocator

end Itex.Devices.Bfc
