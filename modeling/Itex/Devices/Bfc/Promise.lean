import Itex.Devices.Bfc.Guarantees
import Itex.Devices.Bfc.Placement

/-!
Contract: what `Extend` promises to `AllocateRaw`.

Owns: the outcomes of both extension modes, the region and chunk an extension
adds, the condition under which that chunk covers the request, and the effect on
the regions of an allocation that fails.

Every statement is about any run and any request.
-/

namespace Itex.Devices.Bfc

open Itex.Lib

variable {binNum got h numBytes rounded : Nat}

theorem binNumForSize_mono {small large : Nat} (below : small ≤ large) : binNumForSize small ≤ binNumForSize large := by
  unfold binNumForSize
  rw [Nat.log2_eq_log_two, Nat.log2_eq_log_two]
  have quotients : max small 256 / kMinAllocationSize ≤ max large 256 / kMinAllocationSize :=
    Nat.div_le_div_right (by omega)
  have logs := Nat.log_mono_right (b := 2) quotients
  omega

namespace BFCAllocator

variable {s s' : BFCAllocator} {requested bytes p : Nat} {answers answers' : List Nat}
  {extended : Bool}

theorem exists_findFreeChunk {b : Nat} (inRange : b < kNumBins)
    (searched : binNum ≤ b) (mem : h ∈ s.freeChunks b) (fits : rounded ≤ (s.chunkAt h).size) :
    ∃ found, s.findFreeChunk binNum rounded = some found := by
  rw [← Option.isSome_iff_exists, findFreeChunk, List.findSome?_isSome_iff]
  refine ⟨b, ?_, ?_⟩
  · rw [List.mem_drop_iff_getElem]
    exact ⟨b - binNum, by simp; omega, by simp; omega⟩
  · rw [Option.isSome_map, List.find?_isSome]
    exact ⟨h, mem, by simpa using fits⟩

theorem insertFreeChunkIntoBin_mem (count : s.bins.length = kNumBins)
    (run : s.insertFreeChunkIntoBin h = .ok s') : ∃ k ∈ s'.freeChunks (binNumForSize (s.chunkAt h).size),
      (s'.chunkAt k).size = (s.chunkAt h).size := by
  obtain ⟨c, taken, run⟩ := bind_ok.1 run
  obtain ⟨-, -, run⟩ := bind_ok.1 run
  obtain ⟨newBin, -, run⟩ := bind_ok.1 run
  obtain ⟨s₁, written, ran⟩ := bind_ok.1 run
  obtain ⟨inTable, rfl⟩ := modifyChunk_inTable written
  rw [chunkFromHandle_eq inTable] at taken
  cases taken
  cases ran
  have inBins : binNumForSize (s.chunkAt h).size < s.bins.length := by
    rw [count]
    exact binNumForSize_lt _
  have sizes : ∀ k, ((s.setChunk h { s.chunkAt h with
      binNum := (binNumForSize (s.chunkAt h).size : Int) }).chunkAt k).size =
      (s.chunkAt k).size := by
    intro k
    rw [chunkAt_setChunk inTable, Function.update_apply]
    split
    · next same => rw [same]
    · rfl
  rw [freeChunks_set (by exact inBins), if_pos rfl]
  rcases OrderedSet.mem_insert_or_equivalent (s.setChunk h { s.chunkAt h with
      binNum := (binNumForSize (s.chunkAt h).size : Int) }).chunkLess h newBin with
    inserted | ⟨k, mem, notBefore, notAfter⟩
  · exact ⟨h, inserted, sizes h⟩
  · refine ⟨k, mem, ?_⟩
    by_contra ne
    have sizeK := sizes k
    have sizeH := sizes h
    have apart : (s.chunkAt k).size ≠ (s.chunkAt h).size := fun same =>
      ne (sizeK.trans same)
    simp only [chunkLess, sizeK, sizeH, bne_iff_ne, ne_eq, apart, Ne.symm apart, if_true,
      not_false_eq_true, decide_eq_false_iff_not] at notBefore notAfter
    omega

/-- The state has one more region, which is one free chunk. -/
structure Added (s s' : BFCAllocator) (p bytes h : Nat) : Prop where
  regions : shapes s'.regions = shapes (addAllocationRegion p bytes s.regions)
  ptr : (s'.chunkAt h).ptr = p
  size : (s'.chunkAt h).size = bytes
  free : (s'.chunkAt h).inUse = false
  alone : (s'.chunkAt h).prev = kInvalidChunkHandle ∧ (s'.chunkAt h).next = kInvalidChunkHandle

theorem Added.regionBytes (added : Added s s' p bytes h) : s'.regionBytes = s.regionBytes + bytes := by
  have books : Books { s with regions := addAllocationRegion p bytes s.regions }
      { s with regions := s'.regions } := ⟨rfl, rfl, rfl, added.regions⟩
  calc s'.regionBytes = { s with regions := s'.regions }.regionBytes := rfl
    _ = { s with regions := addAllocationRegion p bytes s.regions }.regionBytes :=
        books.regionBytes
    _ = s.regionBytes + bytes := sum_addAllocationRegion p bytes s.regions

theorem length_addAllocationRegion (p bytes : Nat) (regions : List AllocationRegion) :
    (addAllocationRegion p bytes regions).length = regions.length + 1 := by
  induction regions with
  | nil => rfl
  | cons region rest ih =>
    unfold addAllocationRegion
    split
    · rfl
    · simp only [List.length_cons, ih]

theorem Added.regions_ne (added : Added s s' p bytes h) : s'.regions ≠ s.regions := by
  intro same
  have lengths := congrArg List.length added.regions
  simp only [shapes, List.length_map, length_addAllocationRegion, same] at lengths
  omega

theorem insertFreeChunkIntoBin_chunk (run : s.insertFreeChunkIntoBin h = .ok s') :
    ∃ number, s'.chunkAt h = { s.chunkAt h with binNum := number } := by
  obtain ⟨c, -, run⟩ := bind_ok.1 run
  obtain ⟨-, -, run⟩ := bind_ok.1 run
  obtain ⟨newBin, -, run⟩ := bind_ok.1 run
  obtain ⟨s₁, written, ran⟩ := bind_ok.1 run
  cases ran
  obtain ⟨inTable, rfl⟩ := modifyChunk_inTable written
  have chunk := congrFun (chunkAt_setChunk inTable
    { s.chunkAt h with binNum := (binNumForSize c.size : Int) }) h
  rw [Function.update_self] at chunk
  exact ⟨_, chunk⟩

theorem Placed.addRegion (placed : Placed s fun _ => False) (grant : s.Grantable bytes p)
    (onGrid : kMinAllocationSize ∣ bytes) (run : s.addRegion p bytes = .ok s') :
    (Placed s' fun _ => False) ∧ (∃ h, Added s s' p bytes h) ∧
      ∀ rounded ≤ bytes, ∃ found, s'.findFreeChunk (binNumForSize rounded) rounded = some found := by
  obtain ⟨based, pos, inRange, apart⟩ := grant
  have newOk := AllocationRegion.make_ok based pos onGrid inRange
  have entered : Placed ({ s with
      totalRegionAllocatedBytes := wrap (s.totalRegionAllocatedBytes + bytes)
      regions := addAllocationRegion p bytes s.regions } : BFCAllocator) fun _ => False :=
    ⟨placed.bins, addAllocationRegion_ok placed.regionsOk newOk apart, placed.nonNull⟩
  obtain ⟨⟨h, s₁⟩, allocated, run⟩ := bind_ok.1 run
  obtain ⟨s₂, written, run⟩ := bind_ok.1 run
  obtain ⟨regions, stored, inserted⟩ := bind_ok.1 run
  have placed₂ := (entered.allocateChunk allocated).settle written fun _ => Nat.ne_of_gt based
  have placed₃ := placed₂.congr (framed_places.setRegions stored)
  have sameRegions := (framed_books.insertFreeChunkIntoBin inserted).shapes.trans
    ((shapes_setHandle stored).trans ((books_modifyChunk written).shapes.trans
      (books_allocateChunk allocated).shapes))
  obtain ⟨inTable, rfl⟩ := modifyChunk_inTable written
  have chunk := congrFun (chunkAt_setChunk inTable { s₁.chunkAt h with
    ptr := p, size := bytes, allocationId := -1, prev := kInvalidChunkHandle,
    next := kInvalidChunkHandle }) h
  rw [Function.update_self] at chunk
  obtain ⟨number, newChunk⟩ := insertFreeChunkIntoBin_chunk inserted
  have fields : s'.chunkAt h = { s₁.chunkAt h with
      ptr := p, size := bytes, allocationId := -1, prev := kInvalidChunkHandle,
      next := kInvalidChunkHandle, binNum := number } := by
    rw [newChunk]
    exact congrArg (fun c : Chunk => { c with binNum := number }) chunk
  refine ⟨placed₃.congr (framed_places.insertFreeChunkIntoBin inserted), ⟨h, ?_⟩, ?_⟩
  · refine ⟨sameRegions, ?_, ?_, ?_, ?_, ?_⟩
    all_goals
      rw [fields]
    rfl
  · intro rounded fits
    obtain ⟨k, mem, sizeK⟩ := insertFreeChunkIntoBin_mem placed₃.bins inserted
    have sizeH : ({ s₁.setChunk h { s₁.chunkAt h with
        ptr := p, size := bytes, allocationId := -1, prev := kInvalidChunkHandle,
        next := kInvalidChunkHandle } with regions := regions }.chunkAt h).size = bytes :=
      congrArg Chunk.size chunk
    rw [sizeH] at mem sizeK
    exact exists_findFreeChunk (binNumForSize_lt bytes) (binNumForSize_mono fits) mem
      (by rw [sizeK]; exact fits)

/-- The allocation step keeps a size that covers the request above it. -/
theorem mallocBackingOff_enough (nonNull : p ≠ 0) (enough : requested ≤ bytes)
    (run : s.mallocBackingOff requested bytes answers = .ok (p, got, answers')) : requested ≤ got := by
  obtain ⟨⟨first, rest⟩, -, followed⟩ := bind_ok.1 run
  dsimp only at followed
  split at followed
  · exact ((backOff_spec followed).2.2 nonNull).2.1
  · cases followed
    exact enough

/-- A size below the request is asked for once, and never shrunk. -/
theorem mallocBackingOff_of_short (onGrid : kMinAllocationSize ∣ bytes)
    (inRange : bytes < sizeRange) (short : bytes < requested)
    (run : s.mallocBackingOff requested bytes answers = .ok (p, got, answers')) :
    (answers.head? = some 0 ∧ p = 0) ∨ (answers.head? ≠ some 0 ∧ p ≠ 0 ∧ got = bytes) := by
  obtain ⟨⟨first, rest⟩, asked, followed⟩ := bind_ok.1 run
  have heads : answers.head? = some first := by
    unfold gpuMalloc at asked
    split at asked
    · cases asked
    · split at asked
      · cases asked
        rfl
      · cases asked
  dsimp only at followed
  split at followed
  · next null =>
    subst null
    have shrunk := roundedBytes_le onGrid (backpedal_le bytes) inRange
    unfold backOff at followed
    dsimp only at followed
    rw [if_pos (by omega)] at followed
    cases followed
    exact Or.inl ⟨heads, rfl⟩
  · next nonNull =>
    cases followed
    refine Or.inr ⟨?_, nonNull, rfl⟩
    rw [heads]
    simpa using nonNull

/-- What `ExtendLarge` can do: refuse, fail to obtain a block, or enter one. -/
theorem extendLarge_cases {config : Config}
    (run : s.extendLarge config requested answers = .ok (extended, s', answers')) :
    (s.availableBytes < requested ∧ extended = false ∧ s' = s) ∨
      (requested ≤ s.availableBytes ∧ ∃ curr increased memAddr got,
        growRegion requested 65 s.currRegionAllocationBytes false = .ok (curr, increased) ∧
        ({ s with currRegionAllocationBytes := curr } : BFCAllocator).mallocBackingOff requested
          (min (min curr s.availableBytes) (getLimitAlloc config s)) answers =
          .ok (memAddr, got, answers') ∧
        ((memAddr = 0 ∧ extended = false ∧ s' = { s with currRegionAllocationBytes := curr }) ∨
          (memAddr ≠ 0 ∧ extended = true ∧ ∃ next,
            ({ s with currRegionAllocationBytes := next } : BFCAllocator).addRegion memAddr got = .ok s'))) := by
  unfold extendLarge at run
  dsimp only at run
  split at run
  · next unavailable =>
    cases run
    exact Or.inl ⟨unavailable, rfl, rfl⟩
  · next available =>
    obtain ⟨⟨curr, increased⟩, grown, run⟩ := bind_ok.1 run
    obtain ⟨⟨memAddr, got, rest⟩, answered, run⟩ := bind_ok.1 run
    refine Or.inr ⟨Nat.not_lt.1 available, curr, increased, memAddr, got, grown, ?_⟩
    dsimp only at run
    split at run
    · next null =>
      cases run
      exact ⟨answered, Or.inl ⟨null, rfl, rfl⟩⟩
    · next nonNull =>
      obtain ⟨s₁, entered, ran⟩ := bind_ok.1 run
      cases ran
      refine ⟨answered, Or.inr ⟨nonNull, rfl, ?_⟩⟩
      split at entered
      · exact ⟨_, entered⟩
      · exact ⟨_, entered⟩

theorem extendSmall_cases (run : s.extendSmall requested answers = .ok (extended, s', answers')) :
    (extended = false ∧ s' = s) ∨ (extended = true ∧ ∃ memAddr, s.Grantable (smallRegionBytes requested) memAddr ∧
        s.addRegion memAddr (smallRegionBytes requested) = .ok s') := by
  unfold extendSmall at run
  dsimp only at run
  split at run
  · cases run
    exact Or.inl ⟨rfl, rfl⟩
  · obtain ⟨⟨memAddr, rest⟩, answered, run⟩ := bind_ok.1 run
    dsimp only at run
    split at run
    · cases run
      exact Or.inl ⟨rfl, rfl⟩
    · next nonNull =>
      obtain ⟨s₁, entered, ran⟩ := bind_ok.1 run
      cases ran
      have granted := gpuMalloc_returns s (smallRegionBytes requested) answers
      rw [answered] at granted
      exact Or.inr ⟨rfl, memAddr, granted nonNull, entered⟩

/-- A buffer of `ExtendSmall` covers the request, unless rounding the request up
wraps and leaves no buffer at all. -/
theorem le_smallRegionBytes (inRange : requested < sizeRange)
    (nonempty : 0 < smallRegionBytes requested) : requested ≤ smallRegionBytes requested := by
  unfold smallRegionBytes at *
  split
  · omega
  · split
    · omega
    · next large huge =>
      rw [if_neg large, if_neg huge] at nonempty
      simp only [wrap, sizeRange] at *
      omega

/-! ## The promise -/

/-- The extension added a free chunk that covers the request, and the search
that follows does not come back empty-handed. -/
def KeepsPromise (s s' : BFCAllocator) (requested : Nat) : Prop :=
  (∃ p bytes h, Added s s' p bytes h ∧ requested ≤ bytes) ∧
    ∀ numBytes p s'', s'.findChunkPtr (binNumForSize requested) requested numBytes = .ok (p, s'') → p ≠ 0

/-- The cap on the region size leaves room for the request, or no region is
added: the request is not available, or the device refuses the one block it is
asked for. -/
def Covered (config : Config) (s : BFCAllocator) (requested : Nat) (answers : List Nat) : Prop :=
  config.allocMode = 1 → requested ≤ getLimitAlloc config s ∨ s.availableBytes < requested ∨ answers.head? = some 0

theorem Placed.setCurr (placed : Placed s fun _ => False) (curr : Nat) :
    Placed { s with currRegionAllocationBytes := curr } fun _ => False :=
  ⟨placed.bins, placed.regionsOk, placed.nonNull⟩

theorem Placed.promise_of_addRegion (placed : Placed s fun _ => False)
    (grant : s.Grantable bytes p) (onGrid : kMinAllocationSize ∣ bytes)
    (enough : requested ≤ bytes) (run : s.addRegion p bytes = .ok s') : KeepsPromise s s' requested := by
  obtain ⟨placed', ⟨h, added⟩, found⟩ := placed.addRegion grant onGrid run
  refine ⟨⟨p, bytes, h, added, enough⟩, ?_⟩
  intro numBytes q s'' searched
  obtain ⟨chunk, located⟩ := found requested enough
  exact placed'.findChunkPtr_nonNull located searched

theorem KeepsPromise.congr {before : BFCAllocator} (kept : KeepsPromise s s' requested)
    (regions : before.regions = s.regions) : KeepsPromise before s' requested := by
  obtain ⟨⟨p, bytes, h, added, enough⟩, searched⟩ := kept
  refine ⟨⟨p, bytes, h, ⟨?_, added.ptr, added.size, added.free, added.alone⟩, enough⟩, searched⟩
  rw [regions]
  exact added.regions

/-- What an extension does to the regions and to the promise, in either mode. -/
structure Outcome (s : BFCAllocator) (covered : Prop) (requested : Nat) (extended : Bool)
    (s' : BFCAllocator) : Prop where
  placed : Placed s' fun _ => False
  kept : extended = true → covered → KeepsPromise s s' requested
  unchanged : extended = false → s'.regions = s.regions
  broken : ¬ covered → extended = true ∧ ∃ p bytes h, Added s s' p bytes h ∧ bytes < requested

section

variable {config : Config} (placed : Placed s fun _ => False)
  (onGrid : kMinAllocationSize ∣ s.currRegionAllocationBytes)

include placed onGrid

theorem outcome_extendLarge (mode : config.allocMode = 1)
    (run : s.extendLarge config requested answers = .ok (extended, s', answers')) :
    Outcome s (Covered config s requested answers) requested extended s' := by
  rcases extendLarge_cases run with ⟨unavailable, rfl, rfl⟩ |
    ⟨available, curr, increased, memAddr, got, grown, answered, outcome⟩
  · exact ⟨placed, nofun, fun _ => rfl, fun uncovered => absurd (fun _ => Or.inr (Or.inl unavailable)) uncovered⟩
  · obtain ⟨currGrid, enough⟩ := growRegion_spec onGrid grown
    obtain ⟨askedGrid, inRange⟩ :=
      askedBytes_spec (s := { s with currRegionAllocationBytes := curr }) config currGrid
    obtain ⟨-, gotGrid, granted⟩ := mallocBackingOff_spec askedGrid inRange answered
    -- Below the cap the region covers the request; above it the cap is asked for once.
    have short : ¬ Covered config s requested answers →
        min (min curr s.availableBytes) (getLimitAlloc config s) < requested := by
      intro uncovered
      by_contra covers
      exact uncovered fun _ => Or.inl (by omega)
    have heads : ¬ Covered config s requested answers → answers.head? ≠ some 0 := by
      intro uncovered null
      exact uncovered fun _ => Or.inr (Or.inr null)
    rcases outcome with ⟨null, rfl, rfl⟩ | ⟨nonNull, rfl, next, entered⟩
    · refine ⟨placed.setCurr curr, nofun, fun _ => rfl, ?_⟩
      intro uncovered
      rcases mallocBackingOff_of_short askedGrid inRange (short uncovered) answered with
        ⟨head, -⟩ | ⟨-, notNull, -⟩
      · exact absurd head (heads uncovered)
      · exact absurd null notNull
    · have placed₁ := placed.setCurr next
      have grant : ({ s with currRegionAllocationBytes := next } : BFCAllocator).Grantable got
          memAddr := granted nonNull
      obtain ⟨placed', ⟨h, added⟩, -⟩ := placed₁.addRegion grant gotGrid entered
      refine ⟨placed', ?_, nofun, ?_⟩
      · intro _ covered
        have covers : requested ≤ got := by
          rcases covered mode with below | unavailable | head
          · exact mallocBackingOff_enough nonNull (by omega) answered
          · omega
          · by_cases capped : min (min curr s.availableBytes) (getLimitAlloc config s) < requested
            · rcases mallocBackingOff_of_short askedGrid inRange capped answered with
                ⟨-, null⟩ | ⟨notHead, -, -⟩
              · exact absurd null nonNull
              · exact absurd head notHead
            · exact mallocBackingOff_enough nonNull (Nat.not_lt.1 capped) answered
        exact (placed₁.promise_of_addRegion grant gotGrid covers entered).congr rfl
      · intro uncovered
        refine ⟨rfl, memAddr, got, h, ⟨added.regions, added.ptr, added.size, added.free, added.alone⟩, ?_⟩
        rcases mallocBackingOff_of_short askedGrid inRange (short uncovered) answered with
          ⟨-, null⟩ | ⟨-, -, asked⟩
        · exact absurd null nonNull
        · rw [asked]
          exact short uncovered

theorem outcome_extend (inRange : requested < sizeRange)
    (run : s.extend config requested answers = .ok (extended, s', answers')) :
    Outcome s (Covered config s requested answers) requested extended s' := by
  unfold extend at run
  split at run
  · next mode => exact outcome_extendLarge placed onGrid mode run
  · next otherMode =>
    have covered : Covered config s requested answers := fun mode => absurd mode otherMode
    split at run
    · rcases extendSmall_cases run with ⟨rfl, rfl⟩ | ⟨rfl, memAddr, grant, entered⟩
      · exact ⟨placed, nofun, fun _ => rfl, fun un => absurd covered un⟩
      · obtain ⟨placed', -, -⟩ := placed.addRegion grant (dvd_smallRegionBytes requested) entered
        refine ⟨placed', fun _ _ => ?_, nofun, fun un => absurd covered un⟩
        exact placed.promise_of_addRegion grant (dvd_smallRegionBytes requested)
          (le_smallRegionBytes inRange grant.2.1) entered
    · cases run
      exact ⟨placed, nofun, fun _ => rfl, fun un => absurd covered un⟩

end

/-- A search of the pool that comes back with null found nothing and changed
nothing. -/
theorem Placed.findChunkPtr_null (placed : Placed s fun _ => False)
    (run : s.findChunkPtr binNum rounded numBytes = .ok (0, s')) : s' = s := by
  cases located : s.findFreeChunk binNum rounded with
  | none =>
    unfold BFCAllocator.findChunkPtr at run
    rw [located] at run
    cases run
    rfl
  | some found => exact absurd rfl (placed.findChunkPtr_nonNull located run)

/-- `AllocateRaw` keeps the invariant, and if it returns null the regions are
the old ones exactly under the condition of the promise. -/
theorem Placed.allocateRaw {config : Config} (placed : Placed s fun _ => False)
    (onGrid : kMinAllocationSize ∣ s.currRegionAllocationBytes)
    (run : s.allocateRaw config numBytes answers = .ok (p, s', answers')) : (Placed s' fun _ => False) ∧ (p = 0 →
      (s'.regions = s.regions ↔ Covered config s (roundedBytes numBytes) answers)) := by
  unfold BFCAllocator.allocateRaw at run
  split at run
  · next empty =>
    cases run
    subst empty
    exact ⟨placed, fun _ => iff_of_true rfl fun _ => Or.inl (Nat.zero_le _)⟩
  · obtain ⟨⟨first, s₁⟩, found, afterPool⟩ := bind_ok.1 run
    dsimp only at afterPool
    split at afterPool
    · next nonNull =>
      cases afterPool
      exact ⟨placed.findChunkPtr found, fun null => absurd null nonNull⟩
    · next null =>
      have isNull : first = 0 := by simpa using null
      subst isNull
      rw [placed.findChunkPtr_null found] at afterPool
      obtain ⟨⟨extended, s₂, rest⟩, grown, afterGrowth⟩ := bind_ok.1 afterPool
      have outcome := outcome_extend placed onGrid (roundedBytes_lt numBytes) grown
      dsimp only at afterGrowth
      split at afterGrowth
      · next isExtended =>
        obtain ⟨⟨second, s₃⟩, searched, ran⟩ := bind_ok.1 afterGrowth
        cases ran
        refine ⟨outcome.placed.findChunkPtr searched, fun stillNull => ?_⟩
        subst stillNull
        rw [outcome.placed.findChunkPtr_null searched]
        constructor
        · intro regions
          by_contra uncovered
          obtain ⟨-, q, bytes, h, added, -⟩ := outcome.broken uncovered
          exact added.regions_ne regions
        · intro covered
          exact absurd rfl ((outcome.kept isExtended covered).2 numBytes 0 _ searched)
      · next notExtended =>
        cases afterGrowth
        have isFalse : extended = false := by simpa using notExtended
        refine ⟨outcome.placed, fun _ => iff_of_true (outcome.unchanged isFalse) ?_⟩
        by_contra uncovered
        have isTrue := (outcome.broken uncovered).1
        rw [isFalse] at isTrue
        cases isTrue

end BFCAllocator

namespace System

open BFCAllocator

variable {config : Config} {system system' : System}

/-! ## Runs -/

/-- What holds of the allocator after any calls at all. -/
structure Sound (allocator : BFCAllocator) : Prop where
  placed : Placed allocator fun _ => False
  onGrid : kMinAllocationSize ∣ allocator.currRegionAllocationBytes

theorem sound_start {allocator : BFCAllocator} (built : construct config = .ok allocator) : Sound allocator := by
  obtain ⟨chunks, bins, regions, -, -, curr, -⟩ := construct_eq built
  refine ⟨⟨?_, ?_, ?_⟩, ?_⟩
  · rw [bins]
    exact List.length_replicate
  · rw [regions]
    exact ⟨by simp, List.Pairwise.nil⟩
  · intro k inTable
    rw [chunks] at inTable
    cases inTable
  · rw [curr]
    exact dvd_roundedBytes _

theorem sound_step {event : Event} (sound : Sound system.allocator)
    (taken : step config system event = .ok system') : Sound system'.allocator := by
  refine step_allocator (fun _ _ _ _ _ _ run => ?_) (fun _ _ run => ?_) taken
  · exact ⟨(sound.placed.allocateRaw sound.onGrid run).1, curr_allocateRaw sound.onGrid run⟩
  · refine ⟨sound.placed.congr (framed_places.deallocateRaw run), ?_⟩
    rw [(framed_books.deallocateRaw run).curr]
    exact sound.onGrid

theorem sound_of_reachable {allowed : BFCAllocator → Event → Prop}
    (reachable : Reachable config allowed system) : Sound system.allocator := by
  induction reachable with
  | start built => exact sound_start built
  | step _ _ taken ih => exact sound_step ih taken

/-- After any calls, an extension that returns keeps its promise, and an
allocation that comes back with null leaves the regions alone, exactly when the
cap on the region size leaves room for the request or no region is added. -/
theorem extension_promise_iff (reachable : Reachable config (fun _ _ => True) system) :
    (∀ requested answers extended s' rest, requested < sizeRange →
      system.allocator.extend config requested answers = .ok (extended, s', rest) →
      ((extended = true → KeepsPromise system.allocator s' requested) ↔
        Covered config system.allocator requested answers)) ∧ ∀ numBytes answers s' rest,
        system.allocator.allocateRaw config numBytes answers = .ok (0, s', rest) →
        (s'.regions = system.allocator.regions ↔ Covered config system.allocator (roundedBytes numBytes) answers) := by
  have sound := sound_of_reachable reachable
  refine ⟨?_, ?_⟩
  · intro requested answers extended s' rest inRange run
    have outcome := outcome_extend sound.placed sound.onGrid inRange run
    constructor
    · intro promise
      by_contra uncovered
      obtain ⟨isExtended, p, bytes, h, added, short⟩ := outcome.broken uncovered
      obtain ⟨⟨p', bytes', h', added', enough⟩, -⟩ := promise isExtended
      have total := added.regionBytes
      have total' := added'.regionBytes
      omega
    · intro covered isExtended
      exact outcome.kept isExtended covered
  · intro numBytes answers s' rest run
    exact (sound.placed.allocateRaw sound.onGrid run).2 rfl

theorem extension_promise_on_tiny_device : ∃ system, run tinyDevice [] = .ok system ∧
      (∃ s' rest, system.allocator.extend tinyDevice 256 [4096] = .ok (true, s', rest) ∧
        KeepsPromise system.allocator s' 256) ∧
      ∃ s', system.allocator.allocateRaw tinyDevice 1024 [] = .ok (0, s', []) ∧
        s'.regions = system.allocator.regions := by
  have served : ∃ system, run tinyDevice [] = .ok system ∧
      ((system.allocator.extend tinyDevice 256 [4096]).toOption.map Prod.fst = some true ∧
        256 ≤ getLimitAlloc tinyDevice system.allocator) ∧
      ∃ s', system.allocator.allocateRaw tinyDevice 1024 [] = .ok (0, s', []) ∧
        roundedBytes 1024 ≤ getLimitAlloc tinyDevice system.allocator :=
    ⟨_, rfl, ⟨by decide +kernel, by decide +kernel⟩, ⟨_, rfl, by decide +kernel⟩⟩
  obtain ⟨system, done, ⟨grown, fits⟩, ⟨s'', refused, fits'⟩⟩ := served
  have reachable : Reachable tinyDevice (fun _ _ => True) system :=
    reachable_run (by simp) done
  obtain ⟨promise, failure⟩ := extension_promise_iff reachable
  refine ⟨system, done, ?_, ⟨s'', refused, ?_⟩⟩
  · cases extension : system.allocator.extend tinyDevice 256 [4096] with
    | error stop =>
      rw [extension] at grown
      cases grown
    | ok result =>
      obtain ⟨extended, s', rest⟩ := result
      rw [extension] at grown
      simp only [Except.toOption, Option.map_some, Option.some.injEq] at grown
      subst grown
      have kept := promise 256 [4096] true s' rest (by decide) extension
      exact ⟨s', rest, rfl, kept.2 (fun _ => Or.inl fits) rfl⟩
  · exact (failure 1024 [] s'' [] refused).2 fun _ => Or.inl fits'

/-- A device with a pool of two mebibytes and regions of at most one. -/
def halvedDevice : Config where
  globalMemSize := 840957952
  globalMemSize_lt := by decide
  isXeHPC := false
  allocMode := 1
  limitMemorySizeInMb := some 1

/-- A request for two mebibytes gets a region of one, and then fails. -/
theorem extension_promise_broken : ¬ ∀ (config : Config) (system : System), Reachable config (fun _ _ => True) system →
      (∀ requested answers s' rest, 0 < requested → requested < sizeRange → kMinAllocationSize ∣ requested →
        system.allocator.extend config requested answers = .ok (true, s', rest) →
        KeepsPromise system.allocator s' requested) ∧ ∀ numBytes answers s' rest,
        system.allocator.allocateRaw config numBytes answers = .ok (0, s', rest) →
        s'.regions = system.allocator.regions := by
  intro all
  have failed : (do
      let allocator ← construct halvedDevice
      let result ← allocator.allocateRaw halvedDevice 2097152 [4096]
      return (allocator.regions.length, result.1, result.2.1.regions.length)).toOption = some (0, 0, 1) := by
    decide +kernel
  cases built : construct halvedDevice with
  | error stop =>
    rw [built] at failed
    cases failed
  | ok allocator =>
    rw [built] at failed
    cases refused : allocator.allocateRaw halvedDevice 2097152 [4096] with
    | error stop =>
      simp only [ok_bind rfl, refused] at failed
      cases failed
    | ok result =>
      obtain ⟨p, s', rest⟩ := result
      simp only [ok_bind rfl, refused] at failed
      simp only [pure, Except.pure, Except.toOption, Option.some.injEq, Prod.mk.injEq]
        at failed
      obtain ⟨before, null, after⟩ := failed
      subst null
      have same := (all halvedDevice ⟨allocator, []⟩ (.start built)).2 2097152 [4096] s' rest
        refused
      rw [same] at after
      exact absurd (before.symm.trans after) (by decide)

end System

end Itex.Devices.Bfc
