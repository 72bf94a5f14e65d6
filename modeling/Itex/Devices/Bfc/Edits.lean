import Itex.Devices.Bfc.Bins

/-!
Contract: the operations that change the segment graph, against the invariant.

Owns: handle allocation, `SplitChunk`, `Merge` with `DeleteChunk`, and the
common tail of the extension modes (`addRegion`).
-/

namespace Itex.Devices.Bfc.BFCAllocator

open Itex.Lib Itex.Lib.Segments

variable {s s' : BFCAllocator} {recycled recycled' detached : List Nat} {h : Nat}

theorem Shape.region_of_live (shape : Shape s recycled) (hLive : (s.graph recycled).live h) :
    ∃ region ∈ s.regions, region.ptr ≤ (s.chunkAt h).ptr ∧
      (s.chunkAt h).ptr + (s.chunkAt h).size ≤ region.endPtr ∧ region.endPtr < sizeRange ∧
      kMinAllocationSize ∣ (s.chunkAt h).ptr - region.ptr := by
  obtain ⟨span, ⟨region, mem, rfl⟩, located⟩ := shape.wellFormed.located h hLive
  have ok := shape.regionsOk.each region mem
  obtain ⟨lower, upper⟩ := located.inside
  refine ⟨region, mem, lower, ?_, ok.inRange, located.aligned⟩
  rw [ok.ends]
  exact upper

theorem Shape.hasSlot (shape : Shape s recycled) (hLive : (s.graph recycled).live h) {n : Nat}
    (inside : n < (s.chunkAt h).size) (onGrid : kMinAllocationSize ∣ n) :
    ∃ region ∈ s.regions, region.HasSlot ((s.chunkAt h).ptr + n) := by
  obtain ⟨region, mem, lower, upper, -, aligned⟩ := shape.region_of_live hLive
  refine ⟨region, mem, by omega, by omega, ?_⟩
  rw [show (s.chunkAt h).ptr + n - region.ptr = ((s.chunkAt h).ptr - region.ptr) + n by omega]
  exact Nat.dvd_add aligned onGrid

theorem used_congr (same : ∀ k, ((s'.graph recycled').live k ∧ (s'.chunkAt k).inUse = true) ↔
      ((s.graph recycled).live k ∧ (s.chunkAt k).inUse = true))
    (place : ∀ k, (s.graph recycled).live k → (s.chunkAt k).inUse = true →
      (s'.chunkAt k).ptr = (s.chunkAt k).ptr ∧ (s'.chunkAt k).size = (s.chunkAt k).size)
    (p n : Nat) : s'.Used recycled' p n ↔ s.Used recycled p n := by
  constructor
  · rintro ⟨k, kLive, inUse, ptr, size⟩
    obtain ⟨oldLive, oldUse⟩ := (same k).1 ⟨kLive, inUse⟩
    obtain ⟨samePtr, sameSize⟩ := place k oldLive oldUse
    exact ⟨k, oldLive, oldUse, samePtr.symm.trans ptr, sameSize.symm.trans size⟩
  · rintro ⟨k, kLive, inUse, ptr, size⟩
    obtain ⟨newLive, newUse⟩ := (same k).2 ⟨kLive, inUse⟩
    obtain ⟨samePtr, sameSize⟩ := place k kLive inUse
    exact ⟨k, newLive, newUse, samePtr.trans ptr, sameSize.trans size⟩

/-- `AllocateChunk` handed out `new`, from the recycled handles or at the end of
the table. A handle outside the table reads as a default chunk, so the chunks
look the same in both cases. -/
structure Fresh (s : BFCAllocator) (recycled : List Nat) (new : Nat) (s' : BFCAllocator)
    (recycled' : List Nat) : Prop where
  chunkAt : s'.chunkAt = s.chunkAt
  regions : s'.regions = s.regions
  bins : s'.bins = s.bins
  isNew : ¬ (s.graph recycled).live new
  inTable : new < s'.chunks.length
  valid : new ≠ kInvalidChunkHandle
  live : ∀ k, (s'.graph recycled').live k ↔ k = new ∨ (s.graph recycled).live k
  chain : Chain s' s'.freeChunksList recycled'
  nodup : recycled'.Nodup
  idle : (s.chunkAt new).inUse = false ∧ (s.chunkAt new).binNum = kInvalidBinNum
  fewer : ∀ k ∈ recycled', k ∈ recycled
  bounded : s'.chunks.length ≤ 2 ^ 56 ∨ recycled' = []

theorem allocateChunk_spec (inv : Inv s recycled detached) :
    ∃ new s' recycled', s.allocateChunk = .ok (new, s') ∧ Fresh s recycled new s' recycled' := by
  have chain := inv.chain
  have bounded := inv.bounded
  cases recycled with
  | nil =>
    have atEnd : s.freeChunksList = kInvalidChunkHandle := chain
    have beyond : s.chunkAt s.chunks.length = {} := by simp [BFCAllocator.chunkAt]
    have same : ({ s with chunks := s.chunks ++ [{}] } : BFCAllocator).chunkAt = s.chunkAt := by
      funext k
      rcases Nat.lt_trichotomy k s.chunks.length with less | rfl | more
      · simp [BFCAllocator.chunkAt, List.getElem?_append_left less]
      · simp [BFCAllocator.chunkAt]
      · have out : (s.chunks ++ [({} : Chunk)])[k]? = none := by
          apply List.getElem?_eq_none
          simp only [List.length_append, List.length_singleton]
          omega
        have out' : s.chunks[k]? = none := List.getElem?_eq_none (by omega)
        simp only [BFCAllocator.chunkAt, List.getD_eq_getElem?_getD, out, out']
    refine ⟨s.chunks.length, { s with chunks := s.chunks ++ [{}] }, [], by simp [allocateChunk, atEnd], ?_⟩
    refine
      { chunkAt := same, regions := rfl, bins := rfl, isNew := ?_, inTable := by simp,
        valid := ?_, live := ?_, chain := atEnd, nodup := List.nodup_nil, idle := ?_,
        fewer := fun k mem => mem, bounded := Or.inr rfl }
    · intro live
      exact Nat.lt_irrefl _ live.1
    · simp only [kInvalidChunkHandle]
      omega
    · intro k
      simp only [graph, List.length_append, List.length_singleton, List.not_mem_nil, not_false_eq_true, and_true]
      omega
    · rw [beyond]
      exact ⟨rfl, rfl⟩
  | cons first rest =>
    obtain ⟨atFirst, inTable, restChain⟩ := chain
    have valid := inv.toShape.valid inTable
    obtain ⟨notInRest, restNodup⟩ := List.nodup_cons.1 inv.nodup
    refine ⟨first, { s with freeChunksList := (s.chunkAt first).next }, rest, ?_, ?_⟩
    · simp only [allocateChunk, atFirst, ne_eq, valid, not_false_eq_true, if_true, chunkFromHandle_eq inTable]
      rfl
    · refine
        { chunkAt := rfl, regions := rfl, bins := rfl, isNew := ?_, inTable := inTable,
          valid := valid, live := ?_, chain := ?_, nodup := restNodup,
          idle := inv.idle first (by simp),
          fewer := fun k mem => List.mem_cons_of_mem _ mem, bounded := Or.inl bounded }
      · intro live
        exact live.2 (by simp)
      · intro k
        by_cases same : k = first
        · subst same
          simp [graph, inTable, notInRest]
        · simp [graph, same]
      · exact restChain.congr (Nat.le_refl _) fun _ _ => rfl

/-- A state built over a fresh handle has a short table. -/
theorem Fresh.length_le {new : Nat} {s₁ : BFCAllocator}
    (fresh : Fresh s recycled new s₁ recycled') (length : s'.chunks.length = s₁.chunks.length)
    (ok : RegionsOk s'.regions) (wf : WellFormed kMinAllocationSize (spansOf s'.regions) (s'.graph recycled')) :
    s'.chunks.length ≤ 2 ^ 56 := by
  rcases fresh.bounded with short | rfl
  · rw [length]
    exact short
  · exact length_le_of_wellFormed ok wf

/-- Only chunks were rewritten. -/
structure Rewritten (s s' : BFCAllocator) : Prop where
  length : s'.chunks.length = s.chunks.length
  bins : s'.bins = s.bins
  regions : s'.regions = s.regions
  list : s'.freeChunksList = s.freeChunksList

theorem Rewritten.of_setChunk {chunk : Chunk} (rewritten : Rewritten (s.setChunk h chunk) s') : Rewritten s s' :=
  ⟨rewritten.length.trans (setChunk_length s h chunk), rewritten.bins, rewritten.regions, rewritten.list⟩

theorem setPrev_spec (hNeighbor prev : Nat)
    (inTable : hNeighbor ≠ kInvalidChunkHandle → hNeighbor < s.chunks.length) :
    ∃ s', s.setPrev hNeighbor prev = .ok s' ∧ s'.chunkAt = (fun k => if optHandle hNeighbor = some k then
        { s.chunkAt k with prev := prev } else s.chunkAt k) ∧ Rewritten s s' := by
  by_cases absent : hNeighbor = kInvalidChunkHandle
  · refine ⟨s, by simp [setPrev, absent], ?_, rfl, rfl, rfl, rfl⟩
    simp [absent]
  · have inside := inTable absent
    refine ⟨s.setChunk hNeighbor { s.chunkAt hNeighbor with prev := prev }, ?_, ?_,
      setChunk_length s hNeighbor _, rfl, rfl, rfl⟩
    · rw [setPrev, if_pos absent]
      exact modifyChunk_eq inside _
    · rw [chunkAt_setChunk inside, optHandle_of_ne absent]
      funext k
      by_cases same : k = hNeighbor
      · subst same
        simp
      · rw [Function.update_of_ne same, if_neg]
        exact fun other => same (Option.some.inj other).symm

/-! ## Splitting -/

/-- The chunks after `SplitChunk` cut `h` and before the rest is binned. -/
def splitChunks (c : Nat → Chunk) (h n new : Nat) (k : Nat) : Chunk :=
  if k = new then
    { c new with ptr := (c h).ptr + n, size := (c h).size - n, allocationId := -1, prev := h, next := (c h).next }
  else if k = h then { c h with size := n, next := new }
  else if optHandle (c h).next = some k then { c k with prev := new }
  else c k

section Split

variable {n new : Nat} {s₁ s₂ : BFCAllocator}

theorem split_agree (inv : Inv s recycled [h]) (fresh : Fresh s recycled new s₁ recycled')
    (chunks : s₂.chunkAt = splitChunks s.chunkAt h n new) (length : s₂.chunks.length = s₁.chunks.length) :
    (split (s.graph recycled) h n new).Agree (s₂.graph recycled') := by
  obtain ⟨hLive, -, -⟩ := inv.parked h (by simp)
  have hValid := inv.toShape.valid hLive.1
  have hNew : h ≠ new := fun same => fresh.isNew (same ▸ hLive)
  refine ⟨?_, ?_, ?_, ?_, ?_⟩
  · intro k
    have live := fresh.live k
    simp only [graph, length] at *
    exact live
  all_goals intro k kCase
  · simp only [graph, split, chunks, splitChunks, Function.update_apply]
    split_ifs <;> simp_all
  · simp only [graph, split, chunks, splitChunks]
    split_ifs <;> simp_all
  · have selfLink : optHandle (s.chunkAt h).next ≠ some h := fun link =>
      inv.wellFormed.next_ne_self hLive link rfl
    simp only [graph, split, chunks, splitChunks]
    split_ifs <;> simp_all [optHandle_of_ne, fresh.valid]
  · simp only [graph, split, chunks, splitChunks]
    split_ifs <;> simp_all [optHandle_of_ne, fresh.valid]

theorem splitChunks_other (c : Nat → Chunk) {k : Nat} (kNew : k ≠ new) (kH : k ≠ h) :
    (splitChunks c h n new k).ptr = (c k).ptr ∧ (splitChunks c h n new k).size = (c k).size ∧
      (splitChunks c h n new k).inUse = (c k).inUse ∧ (splitChunks c h n new k).binNum = (c k).binNum ∧
      (splitChunks c h n new k).next = (c k).next := by
  simp only [splitChunks, if_neg kNew, if_neg kH]
  split <;> simp [Chunk.inUse]

theorem Inv.split (inv : Inv s recycled [h]) (fresh : Fresh s recycled new s₁ recycled')
    (pos : 0 < n) (shorter : n < (s.chunkAt h).size) (onGrid : kMinAllocationSize ∣ n)
    (chunks : s₂.chunkAt = splitChunks s.chunkAt h n new)
    (length : s₂.chunks.length = s₁.chunks.length) (bins : s₂.bins = s.bins)
    (list : s₂.freeChunksList = s₁.freeChunksList) (regionsOk : RegionsOk s₂.regions)
    (sameShapes : shapes s₂.regions = shapes s.regions) (slots : slotAt s₂.regions =
      Function.update (slotAt s.regions) ((s.chunkAt h).ptr + n) (some new)) :
    Inv s₂ recycled' [new, h] ∧ ∀ p m, s₂.Used recycled' p m ↔ s.Used recycled p m := by
  obtain ⟨hLive, hFree, hNumber⟩ := inv.parked h (by simp)
  have hNew : h ≠ new := fun same => fresh.isNew (same ▸ hLive)
  have agree := split_agree inv fresh chunks length
  have liveIff : ∀ k, (s₂.graph recycled').live k ↔ k = new ∨ (s.graph recycled).live k :=
    agree.live
  have newFree : (s₂.chunkAt new).inUse = false := by
    rw [chunks]
    simp [splitChunks, Chunk.inUse]
  have hFree' : (s₂.chunkAt h).inUse = false := by
    rw [chunks]
    simpa [splitChunks, hNew, Chunk.inUse] using hFree
  have wf : WellFormed kMinAllocationSize (spansOf s₂.regions) (s₂.graph recycled') := by
    rw [spansOf_congr sameShapes]
    exact (split_wellFormed inv.wellFormed hLive fresh.isNew pos shorter onGrid).congr agree
  have others : ∀ k, (s.graph recycled).live k → k ≠ h → k ≠ new ∧
      (s₂.chunkAt k).ptr = (s.chunkAt k).ptr ∧ (s₂.chunkAt k).size = (s.chunkAt k).size ∧
      (s₂.chunkAt k).inUse = (s.chunkAt k).inUse ∧
      (s₂.chunkAt k).binNum = (s.chunkAt k).binNum ∧
      (s₂.chunkAt k).next = (s.chunkAt k).next := by
    intro k kLive kH
    have kNew : k ≠ new := fun same => fresh.isNew (same ▸ kLive)
    refine ⟨kNew, ?_⟩
    rw [chunks]
    exact splitChunks_other s.chunkAt kNew kH
  refine ⟨?_, ?_⟩
  · refine
      { regionsOk := regionsOk, wellFormed := wf, indexes := ?_, chain := ?_,
        nodup := fresh.nodup, bounded := fresh.length_le length regionsOk wf, idle := ?_,
        binned := ?_, parked := ?_, separated := ?_ }
    · rw [slots]
      exact (split_indexes inv.wellFormed inv.indexes hLive fresh.isNew pos shorter).congr
        agree
    · rw [list]
      refine fresh.chain.congr (Nat.le_of_eq length.symm) ?_
      intro k mem
      have kNew : k ≠ new := by
        rintro rfl
        exact ((fresh.live k).2 (Or.inl rfl)).2 mem
      have kH : k ≠ h := fun same => hLive.2 (same ▸ fresh.fewer k mem)
      rw [chunks, fresh.chunkAt]
      exact (splitChunks_other s.chunkAt kNew kH).2.2.2.2
    · intro k mem
      have kNew : k ≠ new := by
        rintro rfl
        exact ((fresh.live k).2 (Or.inl rfl)).2 mem
      have kH : k ≠ h := fun same => hLive.2 (same ▸ fresh.fewer k mem)
      obtain ⟨-, -, inUse, number, -⟩ := splitChunks_other (n := n) s.chunkAt kNew kH
      rw [chunks, inUse, number]
      exact inv.idle k (fresh.fewer k mem)
    · refine inv.binned.congr bins ?_ ?_
      · grind
      · rintro k ⟨kLive, notH⟩
        obtain ⟨-, ptr, size, inUse, number, -⟩ := others k kLive (by simpa using notH)
        exact ⟨ptr, size, inUse, number⟩
    · intro k mem
      rcases List.mem_cons.1 mem with rfl | atH
      · refine ⟨(liveIff k).2 (Or.inl rfl), newFree, ?_⟩
        rw [chunks]
        simpa [splitChunks] using fresh.idle.2
      · rw [List.mem_singleton.1 atH]
        refine ⟨(liveIff h).2 (Or.inr hLive), hFree', ?_⟩
        rw [chunks]
        simpa [splitChunks, hNew] using hNumber
    · intro j k jLive link jFree kFree
      by_cases jNew : j = new
      · exact Or.inl (by simp [jNew])
      by_cases jH : j = h
      · exact Or.inl (by simp [jH])
      have jOld : (s.graph recycled).live j := by
        rcases (liveIff j).1 jLive with same | old
        · exact absurd same jNew
        · exact old
      obtain ⟨-, -, -, jUse, -, jNext⟩ := others j jOld jH
      have oldLink : (s.graph recycled).next j = some k := by
        rw [← link]
        simp only [graph, jNext]
      have kOld := (inv.wellFormed.nextLink j k jOld oldLink).1
      by_cases kH : k = h
      · exact Or.inr (by simp [kH])
      obtain ⟨-, -, -, kUse, -, -⟩ := others k kOld kH
      rw [jUse] at jFree
      rw [kUse] at kFree
      have := inv.separated j k jOld oldLink jFree kFree
      simp [jH, kH] at this
  · apply used_congr
    · grind
    · grind

theorem split_writes (inv : Inv s recycled [h]) (isNew : ¬ (s.graph recycled).live new)
    (s₀ : BFCAllocator) (base : s₀.chunkAt = s.chunkAt)
    (live : ∀ k, k = new ∨ (s.graph recycled).live k → k < s₀.chunks.length) :
    ∃ s₂, ((s₀.setChunk new (splitChunks s.chunkAt h n new new)).setChunk h
        { s.chunkAt h with size := n, next := new }).setPrev (s.chunkAt h).next new = .ok s₂ ∧
      s₂.chunkAt = splitChunks s.chunkAt h n new ∧ Rewritten s₀ s₂ := by
  obtain ⟨hLive, -, -⟩ := inv.parked h (by simp)
  have hNew : h ≠ new := fun same => isNew (same ▸ hLive)
  have newIn := live new (Or.inl rfl)
  have hIn := live h (Or.inr hLive)
  obtain ⟨s₂, relinked, chunks, rewritten⟩ := setPrev_spec
    (s := (s₀.setChunk new (splitChunks s.chunkAt h n new new)).setChunk h
      { s.chunkAt h with size := n, next := new }) (s.chunkAt h).next new (by
      intro valid
      have link : (s.graph recycled).next h = some (s.chunkAt h).next := optHandle_of_ne valid
      simpa using live _ (Or.inr (inv.wellFormed.nextLink h _ hLive link).1))
  refine ⟨s₂, relinked, ?_, rewritten.of_setChunk.of_setChunk⟩
  have linkNe : ∀ k, optHandle (s.chunkAt h).next = some k → k ≠ h ∧ k ≠ new := by
    intro k link
    have kLive := (inv.wellFormed.nextLink h k hLive link).1
    exact ⟨inv.wellFormed.next_ne_self hLive link, fun same => isNew (same ▸ kLive)⟩
  funext k
  rw [chunks, chunkAt_setChunk (by simpa using hIn), chunkAt_setChunk newIn, base]
  by_cases kLink : optHandle (s.chunkAt h).next = some k
  · obtain ⟨kH, kNew⟩ := linkNe k kLink
    simp only [splitChunks, kLink, if_true, Function.update_of_ne kH, Function.update_of_ne kNew,
      if_neg kH, if_neg kNew]
  · by_cases kNew : k = new
    · subst kNew
      simp only [kLink, if_false, Function.update_of_ne (Ne.symm hNew), Function.update_self]
    · by_cases kH : k = h
      · subst kH
        simp only [splitChunks, kLink, if_false, Function.update_self, if_neg kNew, if_true]
      · simp only [splitChunks, kLink, if_false, Function.update_of_ne kH,
          Function.update_of_ne kNew, if_neg kH, if_neg kNew]

/-- Chunk `h` was cut at `n`, and the rest is the free chunk `new`. -/
structure Halves (s : BFCAllocator) (recycled : List Nat) (h n new : Nat) (s' : BFCAllocator)
    (recycled' : List Nat) : Prop where
  isNew : ¬ (s.graph recycled).live new
  agree : (Segments.split (s.graph recycled) h n new).Agree (s'.graph recycled')
  newFree : (s'.chunkAt new).inUse = false
  inUse : ∀ k, (s.graph recycled).live k → (s'.chunkAt k).inUse = (s.chunkAt k).inUse

theorem splitChunk_spec (inv : Inv s recycled [h]) (pos : 0 < n)
    (shorter : n < (s.chunkAt h).size) (onGrid : kMinAllocationSize ∣ n)
    (rightUsed : ∀ k, (s.graph recycled).next h = some k → (s.chunkAt k).inUse = true) :
    ∃ s' recycled', s.splitChunk h n = .ok s' ∧ Inv s' recycled' [h] ∧
      (∀ p m, s'.Used recycled' p m ↔ s.Used recycled p m) ∧
      shapes s'.regions = shapes s.regions ∧ (s'.chunkAt h).ptr = (s.chunkAt h).ptr ∧
      (s'.chunkAt h).size = n ∧ ∃ new, Halves s recycled h n new s' recycled' := by
  obtain ⟨hLive, hFree, hNumber⟩ := inv.parked h (by simp)
  obtain ⟨new, s₁, recycled', allocated, fresh⟩ := allocateChunk_spec inv
  have hNew : h ≠ new := fun same => fresh.isNew (same ▸ hLive)
  have hIn : h < s₁.chunks.length := ((fresh.live h).2 (Or.inr hLive)).1
  obtain ⟨region, mem, -, upper, inRange, -⟩ := inv.toShape.region_of_live hLive
  obtain ⟨region', mem', hasSlot⟩ := inv.toShape.hasSlot hLive shorter onGrid
  obtain ⟨regions, stored, regionsOk, sameShapes, slots⟩ :=
    setHandle_slotAt inv.regionsOk mem' hasSlot new
  have newPtr : wrap ((s.chunkAt h).ptr + n) = (s.chunkAt h).ptr + n :=
    Nat.mod_eq_of_lt (by omega)
  have newSize : wrapSub (s.chunkAt h).size n = (s.chunkAt h).size - n := by
    simp only [wrapSub, sizeRange] at *
    omega
  obtain ⟨s₂, written, chunks, rewritten⟩ :=
    split_writes (n := n) inv fresh.isNew { s₁ with regions := regions } fresh.chunkAt
      fun k kCase => ((fresh.live k).2 kCase).1
  have sameRegions : s₂.regions = regions := rewritten.regions
  have slots₂ : slotAt s₂.regions = Function.update (slotAt s.regions) ((s.chunkAt h).ptr + n) (some new) := by
    rw [sameRegions, ← optHandle_of_ne fresh.valid]
    exact slots
  have shapes₂ : shapes s₂.regions = shapes s.regions := by
    rw [sameRegions]
    exact sameShapes
  obtain ⟨inv₂, used₂⟩ := inv.split fresh pos shorter onGrid chunks rewritten.length
    (rewritten.bins.trans fresh.bins) rewritten.list (by rw [sameRegions]; exact regionsOk) shapes₂ slots₂
  have nextNew : (s₂.graph recycled').next new = (s.graph recycled).next h := by
    simp [graph, chunks, splitChunks]
  have prevNew : (s₂.graph recycled').prev new = some h := by
    simp [graph, chunks, splitChunks, optHandle_of_ne (inv.toShape.valid hLive.1)]
  obtain ⟨s', inserted, inv', quiet⟩ := insertFreeChunkIntoBin_spec inv₂
    (by simpa using Ne.symm hNew) (by
      rintro k (link | ⟨kLive, link⟩)
      · left
        rw [nextNew] at link
        have kOld := (inv.wellFormed.nextLink h k hLive link).1
        have kNew : k ≠ new := fun same => fresh.isNew (same ▸ kOld)
        rw [chunks, (splitChunks_other s.chunkAt kNew
          (inv.wellFormed.next_ne_self hLive link)).2.2.1]
        exact rightUsed k link
      · right
        have back := (inv₂.wellFormed.nextLink k new kLive link).2.2
        rw [prevNew] at back
        simp [Option.some.inj back])
  have fields : (s'.graph recycled').ptr h = (s₂.graph recycled').ptr h ∧
      (s'.graph recycled').size h = (s₂.graph recycled').size h := by
    rw [quiet.graph]
    exact ⟨rfl, rfl⟩
  have halves : Halves s recycled h n new s' recycled' := by
    refine ⟨fresh.isNew, ?_, ?_, ?_⟩
    · rw [quiet.graph]
      exact split_agree inv fresh chunks rewritten.length
    · rw [quiet.inUse, chunks]
      simp [splitChunks, Chunk.inUse]
    · intro k kLive
      have kNew : k ≠ new := fun same => fresh.isNew (same ▸ kLive)
      rw [quiet.inUse, chunks]
      by_cases kH : k = h
      · subst kH
        simp [splitChunks, kNew, Chunk.inUse]
      · exact (splitChunks_other s.chunkAt kNew kH).2.2.1
  refine ⟨s', recycled', ?_, inv', ?_, ?_, ?_, ?_, new, halves⟩
  · have newWrite : ({ s₁ with regions := regions } : BFCAllocator).modifyChunk new (fun c =>
        { c with
          ptr := (s.chunkAt h).ptr + n, size := (s.chunkAt h).size - n, allocationId := -1,
          prev := h, next := (s.chunkAt h).next }) =
        .ok (({ s₁ with regions := regions } : BFCAllocator).setChunk new
          (splitChunks s.chunkAt h n new new)) := by
      rw [modifyChunk_eq (by exact fresh.inTable)]
      have same : ({ s₁ with regions := regions } : BFCAllocator).chunkAt new = s.chunkAt new :=
        congrFun fresh.chunkAt new
      rw [same]
      simp [splitChunks]
    have hWrite : (({ s₁ with regions := regions } : BFCAllocator).setChunk new
        (splitChunks s.chunkAt h n new new)).modifyChunk h (fun c =>
          { c with size := n, next := new }) =
        .ok ((({ s₁ with regions := regions } : BFCAllocator).setChunk new
          (splitChunks s.chunkAt h n new new)).setChunk h
          { s.chunkAt h with size := n, next := new }) := by
      rw [modifyChunk_eq (by simpa using hIn), chunkAt_setChunk (by exact fresh.inTable), Function.update_of_ne hNew]
      have same : ({ s₁ with regions := regions } : BFCAllocator).chunkAt h = s.chunkAt h :=
        congrFun fresh.chunkAt h
      rw [same]
    rw [splitChunk, ok_bind allocated]
    dsimp only
    rw [ok_bind (chunkFromHandle_eq hIn), fresh.chunkAt, newPtr, newSize, fresh.regions,
      ok_bind (check_ok (by simp [hFree, hNumber])), ok_bind stored, ok_bind newWrite,
      ok_bind hWrite, ok_bind written]
    exact inserted
  · intro p m
    rw [quiet.used recycled' p m]
    exact used₂ p m
  · rw [quiet.regions]
    exact shapes₂
  · refine fields.1.trans ?_
    simp [graph, chunks, splitChunks, hNew]
  · refine fields.2.trans ?_
    simp [graph, chunks, splitChunks, hNew]

end Split

/-! ## Merging -/

/-- The chunks after `Merge` absorbed `k` into `h`; `list` was the head of the
recycled handles. -/
def mergeChunks (c : Nat → Chunk) (h k list : Nat) (m : Nat) : Chunk :=
  if m = k then { c k with allocationId := -1, binNum := kInvalidBinNum, next := list }
  else if m = h then { c h with next := (c k).next, size := (c h).size + (c k).size }
  else if optHandle (c k).next = some m then { c m with prev := h }
  else c m

section Merge

variable {k list : Nat} {detached' : List Nat} {s₂ : BFCAllocator}

theorem mergeChunks_other (c : Nat → Chunk) {m : Nat} (mK : m ≠ k) (mH : m ≠ h) :
    (mergeChunks c h k list m).ptr = (c m).ptr ∧ (mergeChunks c h k list m).size = (c m).size ∧
      (mergeChunks c h k list m).inUse = (c m).inUse ∧ (mergeChunks c h k list m).binNum = (c m).binNum ∧
      (mergeChunks c h k list m).next = (c m).next := by
  simp only [mergeChunks, if_neg mK, if_neg mH]
  split <;> simp [Chunk.inUse]

theorem merge_agree (inv : Inv s recycled detached) (hLive : (s.graph recycled).live h)
    (link : (s.graph recycled).next h = some k) (chunks : s₂.chunkAt = mergeChunks s.chunkAt h k list)
    (length : s₂.chunks.length = s.chunks.length) :
    (Segments.merge (s.graph recycled) h k).Agree (s₂.graph (k :: recycled)) := by
  obtain ⟨kLive, kH, -, beyond⟩ := merge_link_facts inv.wellFormed hLive link
  have hValid := inv.toShape.valid hLive.1
  refine ⟨?_, ?_, ?_, ?_, ?_⟩
  · intro m
    simp only [graph, Segments.merge, length, List.mem_cons]
    tauto
  all_goals intro m mCase
  all_goals have mK : m ≠ k := mCase.2
  · simp only [graph, Segments.merge, chunks, mergeChunks, if_neg mK]
    split_ifs <;> simp_all
  · simp only [graph, Segments.merge, chunks, mergeChunks, if_neg mK]
    split_ifs <;> simp_all
  · have notSelf : optHandle (s.chunkAt k).next ≠ some h := fun back => (beyond h back).2.1 rfl
    simp only [graph, Segments.merge, chunks, mergeChunks, if_neg mK]
    split_ifs <;> simp_all [optHandle_of_ne]
  · simp only [graph, Segments.merge, chunks, mergeChunks, if_neg mK]
    split_ifs <;> simp_all

theorem Inv.merge (inv : Inv s recycled detached) (hIn : h ∈ detached) (kIn : k ∈ detached)
    (rest : ∀ m, m ∈ detached' ↔ m ∈ detached ∧ m ≠ k) (link : (s.graph recycled).next h = some k)
    (chunks : s₂.chunkAt = mergeChunks s.chunkAt h k s.freeChunksList)
    (length : s₂.chunks.length = s.chunks.length) (bins : s₂.bins = s.bins)
    (listed : s₂.freeChunksList = k) (regionsOk : RegionsOk s₂.regions)
    (sameShapes : shapes s₂.regions = shapes s.regions)
    (slots : slotAt s₂.regions = Function.update (slotAt s.regions) (s.chunkAt k).ptr none) :
    Inv s₂ (k :: recycled) detached' := by
  obtain ⟨hLive, hFree, hNumber⟩ := inv.parked h hIn
  obtain ⟨kLive, kFree, kNumber⟩ := inv.parked k kIn
  have kH : k ≠ h := inv.wellFormed.next_ne_self hLive link
  have agree := merge_agree inv hLive link chunks length
  have others : ∀ m, m ≠ k → m ≠ h →
      (s₂.chunkAt m).ptr = (s.chunkAt m).ptr ∧ (s₂.chunkAt m).size = (s.chunkAt m).size ∧
      (s₂.chunkAt m).inUse = (s.chunkAt m).inUse ∧
      (s₂.chunkAt m).binNum = (s.chunkAt m).binNum ∧
      (s₂.chunkAt m).next = (s.chunkAt m).next := by
    intro m mK mH
    rw [chunks]
    exact mergeChunks_other s.chunkAt mK mH
  have recycledOther : ∀ m ∈ recycled, m ≠ k ∧ m ≠ h := fun m mem =>
    ⟨fun same => kLive.2 (same ▸ mem), fun same => hLive.2 (same ▸ mem)⟩
  refine
    { regionsOk := regionsOk, wellFormed := ?_, indexes := ?_, chain := ?_,
      nodup := List.nodup_cons.2 ⟨kLive.2, inv.nodup⟩, bounded := ?_, idle := ?_,
      binned := ?_, parked := ?_, separated := ?_ }
  · rw [spansOf_congr sameShapes]
    exact (merge_wellFormed inv.wellFormed hLive link).congr agree
  · rw [slots]
    exact (merge_indexes inv.wellFormed inv.indexes kLive).congr agree
  · refine ⟨listed, ?_, ?_⟩
    · rw [length]
      exact kLive.1
    · have atK : (s₂.chunkAt k).next = s.freeChunksList := by simp [chunks, mergeChunks]
      rw [atK]
      refine inv.chain.congr (Nat.le_of_eq length.symm) ?_
      intro m mem
      obtain ⟨mK, mH⟩ := recycledOther m mem
      exact (others m mK mH).2.2.2.2
  · rw [length]
    exact inv.bounded
  · intro m mem
    rcases List.mem_cons.1 mem with rfl | old
    · rw [chunks]
      simp [mergeChunks, Chunk.inUse]
    · obtain ⟨mK, mH⟩ := recycledOther m old
      obtain ⟨-, -, inUse, number, -⟩ := others m mK mH
      rw [inUse, number]
      exact inv.idle m old
  · refine inv.binned.congr bins ?_ ?_
    · intro m
      rw [agree.live m, rest m]
      simp only [Segments.merge]
      grind
    · grind
  · intro m mem
    obtain ⟨old, mK⟩ := (rest m).1 mem
    obtain ⟨mLive, mFree, mNumber⟩ := inv.parked m old
    refine ⟨(agree.live m).2 ⟨mLive, mK⟩, ?_⟩
    by_cases mH : m = h
    · subst mH
      rw [chunks]
      simpa [mergeChunks, mK, Chunk.inUse] using And.intro hFree hNumber
    · obtain ⟨-, -, inUse, number, -⟩ := others m mK mH
      rw [inUse, number]
      exact ⟨mFree, mNumber⟩
  · intro i j iLive forward iFree jFree
    obtain ⟨iOld, iK⟩ := (agree.live i).1 iLive
    by_cases iH : i = h
    · exact Or.inl ((rest i).2 ⟨iH ▸ hIn, iK⟩)
    obtain ⟨-, -, iUse, -, iNext⟩ := others i iK iH
    have oldLink : (s.graph recycled).next i = some j := by
      rw [← forward]
      simp only [graph, iNext]
    have jK : j ≠ k := by
      rintro rfl
      have back := (inv.wellFormed.nextLink i j iOld oldLink).2.2
      rw [(inv.wellFormed.nextLink h j hLive link).2.2] at back
      exact iH (Option.some.inj back).symm
    by_cases jH : j = h
    · exact Or.inr ((rest j).2 ⟨jH ▸ hIn, jK⟩)
    rw [iUse] at iFree
    rw [(others j jK jH).2.2.1] at jFree
    rcases inv.separated i j iOld oldLink iFree jFree with found | found
    · exact Or.inl ((rest i).2 ⟨found, iK⟩)
    · exact Or.inr ((rest j).2 ⟨found, jK⟩)

theorem merge_inUse (hFree : (s.chunkAt h).inUse = false) (kFree : (s.chunkAt k).inUse = false)
    (chunks : s₂.chunkAt = mergeChunks s.chunkAt h k list) (m : Nat) : (s₂.chunkAt m).inUse = (s.chunkAt m).inUse := by
  rw [chunks]
  by_cases mK : m = k
  · subst mK
    rw [kFree]
    simp [mergeChunks, Chunk.inUse]
  · by_cases mH : m = h
    · subst mH
      simp [mergeChunks, mK, Chunk.inUse]
    · exact (mergeChunks_other s.chunkAt mK mH).2.2.1

theorem merge_writes (inv : Inv s recycled detached) (hLive : (s.graph recycled).live h)
    (link : (s.graph recycled).next h = some k) (list : Nat) :
    ∃ s₁, (s.setChunk h { s.chunkAt h with next := (s.chunkAt k).next }).setPrev
        (s.chunkAt k).next h = .ok s₁ ∧
      (∀ m, (s₁.setChunk h { s₁.chunkAt h with
          size := (s.chunkAt h).size + (s.chunkAt k).size }).chunkAt m =
        if m = k then s.chunkAt k else mergeChunks s.chunkAt h k list m) ∧
      s₁.chunkAt h = { s.chunkAt h with next := (s.chunkAt k).next } ∧ Rewritten s s₁ := by
  obtain ⟨kLive, kH, -, beyond⟩ := merge_link_facts inv.wellFormed hLive link
  obtain ⟨s₁, relinked, chunks, rewritten⟩ := setPrev_spec
    (s := s.setChunk h { s.chunkAt h with next := (s.chunkAt k).next })
    (s.chunkAt k).next h (by
      intro valid
      simpa using (beyond _ (optHandle_of_ne valid)).1.1)
  have atH : s₁.chunkAt h = { s.chunkAt h with next := (s.chunkAt k).next } := by
    have notSelf : optHandle (s.chunkAt k).next ≠ some h := fun back => (beyond h back).2.1 rfl
    rw [chunks, chunkAt_setChunk hLive.1]
    simp only [if_neg notSelf, Function.update_self]
  have hIn : h < s₁.chunks.length := by
    rw [rewritten.of_setChunk.length]
    exact hLive.1
  refine ⟨s₁, relinked, ?_, atH, rewritten.of_setChunk⟩
  intro m
  rw [chunkAt_setChunk hIn, atH]
  by_cases mH : m = h
  · subst mH
    simp only [Function.update_self, mergeChunks, if_neg (Ne.symm kH), if_true]
  · rw [Function.update_of_ne mH, chunks, chunkAt_setChunk hLive.1]
    simp only [Function.update_of_ne mH, mergeChunks, if_neg mH]
    by_cases mK : m = k
    · have notSelf : optHandle (s.chunkAt k).next ≠ some k := fun back =>
        (beyond k back).2.2.1 rfl
      subst mK
      simp only [if_neg notSelf, if_true]
    · simp only [if_neg mK]

/-- `Merge` absorbs the right one of two detached neighbours into the left one. -/
theorem merge_spec (inv : Inv s recycled detached) (hIn : h ∈ detached) (kIn : k ∈ detached)
    (rest : ∀ m, m ∈ detached' ↔ m ∈ detached ∧ m ≠ k) (link : (s.graph recycled).next h = some k) :
    ∃ s', s.merge h k = .ok s' ∧ Inv s' (k :: recycled) detached' ∧
      (Segments.merge (s.graph recycled) h k).Agree (s'.graph (k :: recycled)) ∧
      (∀ m, (s'.chunkAt m).inUse = (s.chunkAt m).inUse) ∧ shapes s'.regions = shapes s.regions := by
  obtain ⟨hLive, hFree, hNumber⟩ := inv.parked h hIn
  obtain ⟨kLive, kH, kAddress, beyond⟩ := merge_link_facts inv.wellFormed hLive link
  obtain ⟨-, kFree, kNumber⟩ := inv.parked k kIn
  obtain ⟨region, mem, -, upper, inRange, -⟩ := inv.toShape.region_of_live kLive
  obtain ⟨region', mem', hasSlot⟩ := inv.toShape.hasSlot (n := 0) kLive
    (inv.wellFormed.sizePos k kLive) (Nat.dvd_zero _)
  obtain ⟨regions, stored, regionsOk, sameShapes, slots⟩ :=
    setHandle_slotAt inv.regionsOk mem' hasSlot kInvalidChunkHandle
  have back : (s.chunkAt k).prev = h :=
    (optHandle_eq_some.1 (inv.wellFormed.nextLink h k hLive link).2.2).1
  have total : wrap ((s.chunkAt h).size + (s.chunkAt k).size) = (s.chunkAt h).size + (s.chunkAt k).size := by
    apply Nat.mod_eq_of_lt
    simp only [graph] at kAddress
    omega
  obtain ⟨s₁, relinked, chunks, atH, rewritten⟩ :=
    merge_writes inv hLive link s.freeChunksList
  have hIn₁ : h < s₁.chunks.length := by
    rw [rewritten.length]
    exact hLive.1
  have atK := chunks k
  rw [if_pos rfl] at atK
  have kIn₁ : k < (s₁.setChunk h { s₁.chunkAt h with
      size := (s.chunkAt h).size + (s.chunkAt k).size }).chunks.length := by
    rw [setChunk_length, rewritten.length]
    exact kLive.1
  have kIn₂ : k < ({ s₁.setChunk h { s₁.chunkAt h with
      size := (s.chunkAt h).size + (s.chunkAt k).size } with
      regions := regions } : BFCAllocator).chunks.length := kIn₁
  have finalChunks : ({ ({ s₁.setChunk h { s₁.chunkAt h with
      size := (s.chunkAt h).size + (s.chunkAt k).size } with
      regions := regions } : BFCAllocator).setChunk k { s.chunkAt k with
        allocationId := -1, binNum := kInvalidBinNum, next := s.freeChunksList } with
      freeChunksList := k } : BFCAllocator).chunkAt = mergeChunks s.chunkAt h k s.freeChunksList := by
    funext m
    refine (congrFun (chunkAt_setChunk kIn₂ _) m).trans ?_
    by_cases mK : m = k
    · subst mK
      rw [Function.update_self]
      simp only [mergeChunks, if_true]
    · rw [Function.update_of_ne mK]
      exact (chunks m).trans (if_neg mK)
  refine ⟨_, ?_, inv.merge hIn kIn rest link finalChunks ?_ rewritten.bins rfl regionsOk
    sameShapes slots, merge_agree inv hLive link finalChunks ?_,
    merge_inUse hFree kFree finalChunks, sameShapes⟩
  · have kWrite := modifyChunk_eq kIn₂ fun c =>
      { c with allocationId := -1, binNum := kInvalidBinNum, next := s.freeChunksList }
    have erased : eraseHandle ((s₁.setChunk h { s₁.chunkAt h with
        size := (s.chunkAt h).size + (s.chunkAt k).size }).chunkAt k).ptr
        (s₁.setChunk h { s₁.chunkAt h with
          size := (s.chunkAt h).size + (s.chunkAt k).size }).regions = .ok regions := by
      rw [atK]
      show setHandle _ _ s₁.regions = _
      rw [rewritten.regions]
      exact stored
    have sizeWrite : s₁.modifyChunk h (fun c =>
        { c with size := wrap (c.size + (s.chunkAt k).size) }) =
        .ok (s₁.setChunk h { s₁.chunkAt h with
          size := (s.chunkAt h).size + (s.chunkAt k).size }) := by
      rw [modifyChunk_eq hIn₁, ← total, atH]
    rw [BFCAllocator.merge, ok_bind (chunkFromHandle_eq hLive.1),
      ok_bind (chunkFromHandle_eq kLive.1), ok_bind (check_ok (by simp [hFree, kFree])),
      ok_bind (modifyChunk_eq hLive.1 _), ok_bind (check_ok (by simp [back])), ok_bind relinked,
      ok_bind sizeWrite, deleteChunk, ok_bind (chunkFromHandle_eq kIn₁), ok_bind erased,
      deallocateChunk]
    have sameList : s₁.freeChunksList = s.freeChunksList := rewritten.list
    simp only [setChunk, sameList] at kWrite ⊢
    rw [ok_bind kWrite]
    have sameK : ({ s₁ with
        chunks := s₁.chunks.set h { s₁.chunkAt h with
          size := (s.chunkAt h).size + (s.chunkAt k).size },
        regions := regions, freeChunksList := s.freeChunksList } : BFCAllocator).chunkAt k =
        s.chunkAt k := atK
    rw [sameK]
    rfl
  · simp [setChunk, rewritten.length]
  · simp [setChunk, rewritten.length]

end Merge

section AddRegion

variable {p bytes new : Nat} {s₁ : BFCAllocator}

theorem allocateChunk_frame (allocated : s.allocateChunk = .ok (new, s₁))
    (total : Nat) (regions : List AllocationRegion) :
    ({ s with totalRegionAllocatedBytes := total, regions := regions } : BFCAllocator).allocateChunk =
      .ok (new, { s₁ with totalRegionAllocatedBytes := total, regions := regions }) := by
  by_cases atEnd : s.freeChunksList = kInvalidChunkHandle
  · simp only [allocateChunk, atEnd, ne_eq, not_true_eq_false, if_false, Except.ok.injEq, Prod.mk.injEq] at allocated ⊢
    obtain ⟨rfl, rfl⟩ := allocated
    exact ⟨rfl, rfl⟩
  · by_cases inTable : s.freeChunksList < s.chunks.length
    · simp only [allocateChunk, ne_eq, atEnd, not_false_eq_true, if_true] at allocated ⊢
      rw [ok_bind (chunkFromHandle_eq inTable)] at allocated
      rw [ok_bind (chunkFromHandle_eq (by exact inTable))]
      cases allocated
      rfl
    · simp only [allocateChunk, ne_eq, atEnd, not_false_eq_true, if_true, chunkFromHandle,
        inTable, if_false] at allocated
      cases allocated

theorem Inv.addSpan (inv : Inv s recycled []) (s₂ : BFCAllocator) (fresh : Fresh s recycled new s₁ recycled')
    (grant : s.Grantable bytes p) (onGrid : kMinAllocationSize ∣ bytes)
    (chunks : s₂.chunkAt = Function.update s.chunkAt new { s.chunkAt new with
      ptr := p, size := bytes, allocationId := -1, prev := kInvalidChunkHandle,
      next := kInvalidChunkHandle })
    (length : s₂.chunks.length = s₁.chunks.length) (bins : s₂.bins = s.bins)
    (list : s₂.freeChunksList = s₁.freeChunksList) (regionsOk : RegionsOk s₂.regions)
    (spans : spansOf s₂.regions = insert ⟨p, bytes⟩ (spansOf s.regions))
    (slots : slotAt s₂.regions = Function.update (slotAt s.regions) p (some new)) :
    Inv s₂ recycled' [new] ∧ (∀ q m, s₂.Used recycled' q m ↔ s.Used recycled q m) ∧
      (s₂.graph recycled').next new = none ∧ (s₂.graph recycled').prev new = none := by
  obtain ⟨-, pos, -, apart⟩ := grant
  have agree : (Segments.addSpan (s.graph recycled) new ⟨p, bytes⟩).Agree
      (s₂.graph recycled') := by
    refine ⟨?_, ?_, ?_, ?_, ?_⟩
    · intro k
      have live := fresh.live k
      simp only [graph, length] at *
      exact live
    all_goals
      intro k _
      simp only [graph, Segments.addSpan, chunks, Function.update_apply]
      split_ifs <;> simp
  have spansApart : ∀ other ∈ spansOf s.regions, other.Disjoint ⟨p, bytes⟩ := by
    rintro other ⟨region, mem, rfl⟩
    exact (apart region mem).symm
  have wf : WellFormed kMinAllocationSize (spansOf s₂.regions) (s₂.graph recycled') := by
    rw [spans]
    exact (addSpan_wellFormed inv.wellFormed fresh.isNew spansApart pos onGrid).congr agree
  have liveIff : ∀ k, (s₂.graph recycled').live k ↔ k = new ∨ (s.graph recycled).live k :=
    agree.live
  have others : ∀ k, k ≠ new → s₂.chunkAt k = s.chunkAt k := by
    intro k kNew
    rw [chunks, Function.update_of_ne kNew]
  have newOf : ∀ k, (s.graph recycled).live k → k ≠ new := fun k kLive same =>
    fresh.isNew (same ▸ kLive)
  have recycledOther : ∀ k ∈ recycled', k ≠ new := by
    rintro k mem rfl
    exact ((fresh.live k).2 (Or.inl rfl)).2 mem
  have newFree : (s₂.chunkAt new).inUse = false := by
    simp [chunks, Chunk.inUse]
  refine ⟨?_, ?_, by simp [graph, chunks], by simp [graph, chunks]⟩
  · refine
      { regionsOk := regionsOk, wellFormed := wf, indexes := ?_, chain := ?_,
        nodup := fresh.nodup, bounded := fresh.length_le length regionsOk wf, idle := ?_,
        binned := ?_, parked := ?_, separated := ?_ }
    · rw [slots]
      exact (addSpan_indexes inv.wellFormed inv.indexes fresh.isNew spansApart pos).congr
        agree
    · rw [list]
      refine fresh.chain.congr (Nat.le_of_eq length.symm) ?_
      intro k mem
      rw [others k (recycledOther k mem), fresh.chunkAt]
    · intro k mem
      rw [others k (recycledOther k mem)]
      exact inv.idle k (fresh.fewer k mem)
    · refine inv.binned.congr bins ?_ ?_
      · grind
      · rintro k ⟨kLive, -⟩
        rw [others k (newOf k kLive)]
        exact ⟨rfl, rfl, rfl, rfl⟩
    · intro k mem
      rw [List.mem_singleton.1 mem]
      refine ⟨(liveIff new).2 (Or.inl rfl), newFree, ?_⟩
      simpa [chunks] using fresh.idle.2
    · intro j k jLive link jFree kFree
      rcases (liveIff j).1 jLive with jNew | jOld
      · exact Or.inl (by simp [jNew])
      · have oldLink : (s.graph recycled).next j = some k := by
          rw [← link]
          simp only [graph, others j (newOf j jOld)]
        have kOld := (inv.wellFormed.nextLink j k jOld oldLink).1
        rw [others j (newOf j jOld)] at jFree
        rw [others k (newOf k kOld)] at kFree
        simpa using inv.separated j k jOld oldLink jFree kFree
  · apply used_congr
    · grind
    · intro k kLive _
      rw [others k (newOf k kLive)]
      exact ⟨rfl, rfl⟩

theorem addRegion_spec (inv : Inv s recycled []) (grant : s.Grantable bytes p) (onGrid : kMinAllocationSize ∣ bytes) :
    ∃ s' recycled', s.addRegion p bytes = .ok s' ∧ Inv s' recycled' [] ∧
      (∀ q m, s'.Used recycled' q m ↔ s.Used recycled q m) ∧
      spansOf s'.regions = insert ⟨p, bytes⟩ (spansOf s.regions) := by
  obtain ⟨new, s₁, recycled', allocated, fresh⟩ := allocateChunk_spec inv
  obtain ⟨based, pos, inRange, apart⟩ := grant
  have newOk := AllocationRegion.make_ok based pos onGrid inRange
  have addedOk := addAllocationRegion_ok inv.regionsOk newOk apart
  have hasSlot : (AllocationRegion.make p bytes).HasSlot p := by
    refine ⟨Nat.le_refl p, ?_, ?_⟩
    · rw [newOk.ends]
      exact Nat.lt_add_of_pos_right pos
    · simp [AllocationRegion.make]
  obtain ⟨regions, stored, regionsOk, sameShapes, slots⟩ :=
    setHandle_slotAt addedOk (mem_addAllocationRegion.2 (Or.inl rfl)) hasSlot new
  rw [slotAt_addAllocationRegion inv.regionsOk newOk apart, optHandle_of_ne fresh.valid] at slots
  have allocated' := allocateChunk_frame allocated
    (wrap (s.totalRegionAllocatedBytes + bytes)) (addAllocationRegion p bytes s.regions)
  have newIn := fresh.inTable
  have written := chunkAt_setChunk (s := ({ s₁ with
      totalRegionAllocatedBytes := wrap (s.totalRegionAllocatedBytes + bytes)
      regions := addAllocationRegion p bytes s.regions } : BFCAllocator)) newIn
    { s.chunkAt new with
      ptr := p, size := bytes, allocationId := -1, prev := kInvalidChunkHandle,
      next := kInvalidChunkHandle }
  have sameChunks : ({ s₁ with
      totalRegionAllocatedBytes := wrap (s.totalRegionAllocatedBytes + bytes)
      regions := addAllocationRegion p bytes s.regions } : BFCAllocator).chunkAt = s.chunkAt :=
    fresh.chunkAt
  have spans : spansOf regions = insert ⟨p, bytes⟩ (spansOf s.regions) := by
    rw [spansOf_congr sameShapes]
    exact spansOf_addAllocationRegion
  obtain ⟨inv₂, used₂, noNext, noPrev⟩ := inv.addSpan { ({ s₁ with
      totalRegionAllocatedBytes := wrap (s.totalRegionAllocatedBytes + bytes)
      regions := addAllocationRegion p bytes s.regions } : BFCAllocator).setChunk new
        { s.chunkAt new with
          ptr := p, size := bytes, allocationId := -1, prev := kInvalidChunkHandle,
          next := kInvalidChunkHandle } with regions := regions }
    fresh ⟨based, pos, inRange, apart⟩ onGrid (written.trans (by rw [sameChunks]))
    (by simp [setChunk]) fresh.bins rfl regionsOk spans slots
  obtain ⟨s', inserted, inv', quiet⟩ := insertFreeChunkIntoBin_spec inv₂ (by simp) (by
    rintro k (link | ⟨kLive, link⟩)
    · rw [noNext] at link
      cases link
    · have back := (inv₂.wellFormed.nextLink k new kLive link).2.2
      rw [noPrev] at back
      cases back)
  refine ⟨s', recycled', ?_, inv', ?_, ?_⟩
  · rw [addRegion]
    dsimp only
    rw [ok_bind allocated']
    dsimp only
    rw [ok_bind (modifyChunk_eq (by exact newIn) _), sameChunks]
    dsimp only [setChunk] at inserted ⊢
    rw [ok_bind stored]
    exact inserted
  · intro q m
    rw [quiet.used recycled' q m]
    exact used₂ q m
  · rw [quiet.regions]
    exact spans

end AddRegion

end Itex.Devices.Bfc.BFCAllocator
