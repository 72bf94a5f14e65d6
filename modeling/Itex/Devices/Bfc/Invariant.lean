import Itex.Devices.Bfc.Regions
import Itex.Devices.Bfc.Allocator

/-!
Contract: the representation invariant of `BFCAllocator` between and inside its
operations.

Owns: the segment graph of a state, the recycled-handle chain, the bin
discipline, and the combined invariant `Inv`.

Inside an operation some free chunks are outside every bin. `Inv` carries them
as the list `detached`; it is empty between operations. `recycled` lists the
handles on `free_chunks_list_`.
-/

namespace Itex.Devices.Bfc

open Itex.Lib Itex.Lib.Segments

theorem ok_bind {α β : Type} {x : Except Stop α} {a : α} (done : x = .ok a)
    (f : α → Except Stop β) : (x >>= f) = f a := by
  rw [done]
  rfl

theorem check_ok {condition : Bool} (holds : condition = true) : check condition = .ok () :=
  if_pos holds

namespace BFCAllocator

/-- The state after one chunk is overwritten. -/
def setChunk (s : BFCAllocator) (h : Nat) (chunk : Chunk) : BFCAllocator :=
  { s with chunks := s.chunks.set h chunk }

@[simp] theorem setChunk_length (s : BFCAllocator) (h : Nat) (chunk : Chunk) :
    (s.setChunk h chunk).chunks.length = s.chunks.length := by
  simp [setChunk]

section

variable {s : BFCAllocator} {h : Nat} (inTable : h < s.chunks.length)

include inTable

theorem chunkAt_setChunk (chunk : Chunk) : (s.setChunk h chunk).chunkAt = Function.update s.chunkAt h chunk := by
  funext k
  by_cases same : k = h
  · subst same
    simp [setChunk, chunkAt, inTable]
  · rw [Function.update_of_ne same]
    simp [setChunk, chunkAt, List.getElem?_set_ne (Ne.symm same)]

theorem chunkFromHandle_eq : s.chunkFromHandle h = .ok (s.chunkAt h) :=
  if_pos inTable

theorem modifyChunk_eq (f : Chunk → Chunk) : s.modifyChunk h f = .ok (s.setChunk h (f (s.chunkAt h))) := by
  have same : s.chunks.modify h f = s.chunks.set h (f (s.chunkAt h)) := by
    rw [List.modify_eq_set_getElem?]
    simp [chunkAt, inTable]
  rw [modifyChunk, if_pos inTable, setChunk, same]

end

/-! ## The segment graph of a state -/

/-- The physical chunks: every handle of the table that is not recycled. -/
def graph (s : BFCAllocator) (recycled : List Nat) : Graph Nat where
  live h := h < s.chunks.length ∧ h ∉ recycled
  ptr h := (s.chunkAt h).ptr
  size h := (s.chunkAt h).size
  prev h := optHandle (s.chunkAt h).prev
  next h := optHandle (s.chunkAt h).next

/-- `free_chunks_list_` started at `head` runs through exactly these handles. -/
def Chain (s : BFCAllocator) : Nat → List Nat → Prop
  | head, [] => head = kInvalidChunkHandle
  | head, h :: rest => head = h ∧ h < s.chunks.length ∧ Chain s (s.chunkAt h).next rest

theorem Chain.congr {s s' : BFCAllocator} {head : Nat} {recycled : List Nat}
    (chain : Chain s head recycled) (longer : s.chunks.length ≤ s'.chunks.length)
    (agree : ∀ h ∈ recycled, (s'.chunkAt h).next = (s.chunkAt h).next) : Chain s' head recycled := by
  induction recycled generalizing head with
  | nil => exact chain
  | cons first rest ih =>
    obtain ⟨atHead, inTable, restChain⟩ := chain
    refine ⟨atHead, Nat.lt_of_lt_of_le inTable longer, ?_⟩
    rw [agree first (by simp)]
    exact ih restChain fun h member => agree h (by simp [member])

/-- The graph half of the invariant: regions, links, slots and recycling. -/
structure Shape (s : BFCAllocator) (recycled : List Nat) : Prop where
  regionsOk : RegionsOk s.regions
  wellFormed : WellFormed kMinAllocationSize (spansOf s.regions) (s.graph recycled)
  indexes : Indexes (s.graph recycled) (slotAt s.regions)
  chain : Chain s s.freeChunksList recycled
  nodup : recycled.Nodup
  bounded : s.chunks.length ≤ 2 ^ 56

/-- Chunks are disjoint granules of a `size_t` address space, so a table without
recycled handles is short. -/
theorem length_le_of_wellFormed {s : BFCAllocator} (ok : RegionsOk s.regions)
    (wf : WellFormed kMinAllocationSize (spansOf s.regions) (s.graph [])) : s.chunks.length ≤ 2 ^ 56 := by
  have live : ∀ h ∈ Finset.range s.chunks.length, (s.graph []).live h := by
    intro h member
    exact ⟨Finset.mem_range.1 member, by simp⟩
  have granule : ∀ h, (s.graph []).live h → 256 ≤ (s.graph []).size h := by
    intro h hLive
    exact Nat.le_of_dvd (wf.sizePos h hLive) (wf.sizeUnit h hLive)
  have injective := Finset.card_le_card_of_injOn (s := Finset.range s.chunks.length)
    (t := Finset.range (2 ^ 56)) (fun h => (s.graph []).ptr h / 256) ?_ ?_
  · simpa using injective
  · intro h member
    obtain ⟨span, spanMember, located⟩ := wf.located h (live h member)
    obtain ⟨region, inRegions, rfl⟩ := spanMember
    have regionOk := ok.each region inRegions
    have ends := regionOk.ends
    have inRange := regionOk.inRange
    have upper := located.inside.2
    simp only [AllocationRegion.span, Span.stop, sizeRange] at *
    apply Finset.mem_coe.2
    apply Finset.mem_range.2
    omega
  · intro h member k kMember same
    by_contra ne
    have hLive := live h member
    have kLive := live k kMember
    have hSize := granule h hLive
    have kSize := granule k kLive
    have apart := wf.disjoint h k hLive kLive ne
    simp only at same
    omega

section Shape

variable {s s' : BFCAllocator} {recycled : List Nat}

theorem Shape.valid (shape : Shape s recycled) {h : Nat} (inTable : h < s.chunks.length) : h ≠ kInvalidChunkHandle := by
  have bounded := shape.bounded
  simp only [kInvalidChunkHandle]
  omega

theorem Shape.congr (shape : Shape s recycled) (regions : s'.regions = s.regions)
    (length : s'.chunks.length = s.chunks.length) (list : s'.freeChunksList = s.freeChunksList)
    (agree : ∀ h, (s'.chunkAt h).ptr = (s.chunkAt h).ptr ∧
      (s'.chunkAt h).size = (s.chunkAt h).size ∧ (s'.chunkAt h).prev = (s.chunkAt h).prev ∧
      (s'.chunkAt h).next = (s.chunkAt h).next) : Shape s' recycled := by
  have same : s'.graph recycled = s.graph recycled := by
    simp only [graph, length]
    congr <;> funext h <;> simp [agree h]
  refine ⟨?_, ?_, ?_, ?_, shape.nodup, ?_⟩
  · rw [regions]
    exact shape.regionsOk
  · rw [regions, same]
    exact shape.wellFormed
  · rw [regions, same]
    exact shape.indexes
  · rw [list]
    exact shape.chain.congr (Nat.le_of_eq length.symm) fun h _ => (agree h).2.2.2
  · rw [length]
    exact shape.bounded

end Shape

/-! ## Bins -/

/-- Every settled chunk is in the bin of its size if it is free and in no bin if
it is in use, and the bins hold nothing else. -/
structure Binned (s : BFCAllocator) (settled : Nat → Prop) : Prop where
  count : s.bins.length = kNumBins
  sorted : ∀ b, OrderedSet.Sorted s.chunkLess (s.freeChunks b)
  mem : ∀ b h, h ∈ s.freeChunks b ↔ settled h ∧ (s.chunkAt h).inUse = false ∧ binNumForSize (s.chunkAt h).size = b
  binNum : ∀ h, settled h → (s.chunkAt h).binNum =
    if (s.chunkAt h).inUse then kInvalidBinNum else (binNumForSize (s.chunkAt h).size : Int)

theorem chunkLess_linear (s : BFCAllocator) {carrier : Nat → Prop}
    (injective : ∀ h k, carrier h → carrier k → (s.chunkAt h).ptr = (s.chunkAt k).ptr → h = k) :
    OrderedSet.Linear s.chunkLess carrier where
  irrefl h _ := by
    simp [chunkLess]
  trans x y z _ _ _ before after := by
    simp only [chunkLess, bne_iff_ne] at *
    split_ifs at * <;> simp only [decide_eq_true_eq] at * <;> omega
  connected x y xIn yIn ne := by
    have ptrs : (s.chunkAt x).ptr ≠ (s.chunkAt y).ptr := fun same =>
      ne (injective x y xIn yIn same)
    simp only [chunkLess, bne_iff_ne]
    split_ifs <;> simp only [decide_eq_true_eq] <;> omega

theorem chunkLess_congr {s s' : BFCAllocator} {x y : Nat} (xSize : (s'.chunkAt x).size = (s.chunkAt x).size)
    (ySize : (s'.chunkAt y).size = (s.chunkAt y).size) (xPtr : (s'.chunkAt x).ptr = (s.chunkAt x).ptr)
    (yPtr : (s'.chunkAt y).ptr = (s.chunkAt y).ptr) : s.chunkLess x y = s'.chunkLess x y := by
  simp only [chunkLess, xSize, ySize, xPtr, yPtr]

theorem freeChunks_set {s : BFCAllocator} {b : Nat} (inTable : b < s.bins.length)
    (handles : List Nat) (c : Nat) :
    ({ s with bins := s.bins.set b handles } : BFCAllocator).freeChunks c =
      if c = b then handles else s.freeChunks c := by
  by_cases same : c = b
  · subst same
    simp [freeChunks, inTable]
  · simp [freeChunks, same, List.getElem?_set_ne (Ne.symm same)]

section Binned

variable {s s' : BFCAllocator} {settled settled' : Nat → Prop}

theorem Binned.congr (binned : Binned s settled) (bins : s'.bins = s.bins) (same : ∀ h, settled' h ↔ settled h)
    (agree : ∀ h, settled h → (s'.chunkAt h).ptr = (s.chunkAt h).ptr ∧ (s'.chunkAt h).size = (s.chunkAt h).size ∧
      (s'.chunkAt h).inUse = (s.chunkAt h).inUse ∧
      (s'.chunkAt h).binNum = (s.chunkAt h).binNum) : Binned s' settled' where
  count := by
    rw [bins]
    exact binned.count
  sorted b := by
    have sorted := binned.sorted b
    unfold freeChunks at *
    rw [bins]
    refine OrderedSet.sorted_congr ?_ sorted
    intro x xMember y yMember
    obtain ⟨xPtr, xSize, -, -⟩ := agree x ((binned.mem b x).1 xMember).1
    obtain ⟨yPtr, ySize, -, -⟩ := agree y ((binned.mem b y).1 yMember).1
    exact chunkLess_congr xSize ySize xPtr yPtr
  mem b h := by
    have old := binned.mem b h
    unfold freeChunks at *
    simp_all
  binNum h inSettled := by
    have old := (same h).1 inSettled
    obtain ⟨-, size, inUse, number⟩ := agree h old
    rw [number, size, inUse]
    exact binned.binNum h old

theorem Binned.used (binned : Binned s settled) {h : Nat} (bins : s'.bins = s.bins)
    (same : ∀ k, k ≠ h → (settled' k ↔ settled k)) (out : settled h → (s.chunkAt h).inUse = true)
    (out' : settled' h → (s'.chunkAt h).inUse = true ∧ (s'.chunkAt h).binNum = kInvalidBinNum)
    (agree : ∀ k, k ≠ h → s'.chunkAt k = s.chunkAt k) : Binned s' settled' := by
  have absent : ∀ b, h ∉ s.freeChunks b := by
    intro b member
    obtain ⟨inSettled, free, -⟩ := (binned.mem b h).1 member
    rw [out inSettled] at free
    cases free
  have others : ∀ b, ∀ k ∈ s.freeChunks b, k ≠ h := fun b k member same =>
    absent b (same ▸ member)
  refine ⟨?_, ?_, ?_, ?_⟩
  · rw [bins]
    exact binned.count
  · intro b
    have sorted := binned.sorted b
    have notHere := others b
    unfold freeChunks at *
    rw [bins]
    refine OrderedSet.sorted_congr ?_ sorted
    intro x xMember y yMember
    simp only [chunkLess, agree x (notHere x xMember), agree y (notHere y yMember)]
  · intro b k
    have old := binned.mem b k
    have notHere := absent b
    unfold freeChunks at *
    grind
  · intro k inSettled
    by_cases kH : k = h
    · subst kH
      simp [out' inSettled]
    · rw [agree k kH]
      exact binned.binNum k ((same k kH).1 inSettled)

theorem Binned.update (binned : Binned s settled) {h : Nat} {handles : List Nat} (free : (s.chunkAt h).inUse = false)
    (count : s'.bins.length = s.bins.length) (same : ∀ k, k ≠ h → (settled' k ↔ settled k))
    (bins : ∀ b, s'.freeChunks b = if b = binNumForSize (s.chunkAt h).size then handles else s.freeChunks b)
    (others : ∀ k, k ≠ h → s'.chunkAt k = s.chunkAt k)
    (kept : (s'.chunkAt h).ptr = (s.chunkAt h).ptr ∧ (s'.chunkAt h).size = (s.chunkAt h).size ∧
      (s'.chunkAt h).inUse = (s.chunkAt h).inUse)
    (number : settled' h → (s'.chunkAt h).binNum = (binNumForSize (s.chunkAt h).size : Int)) (mem : ∀ k, k ∈ handles ↔
      if k = h then settled' h else k ∈ s.freeChunks (binNumForSize (s.chunkAt h).size))
    (sorted : OrderedSet.Sorted s.chunkLess handles)
    (elsewhere : ∀ b, b ≠ binNumForSize (s.chunkAt h).size → h ∉ s.freeChunks b) : Binned s' settled' := by
  have order : ∀ x y, s'.chunkLess x y = s.chunkLess x y := by
    have size : ∀ k, (s'.chunkAt k).size = (s.chunkAt k).size := by
      intro k
      by_cases kH : k = h
      · rw [kH, kept.2.1]
      · rw [others k kH]
    have ptr : ∀ k, (s'.chunkAt k).ptr = (s.chunkAt k).ptr := by
      intro k
      by_cases kH : k = h
      · rw [kH, kept.1]
      · rw [others k kH]
    intro x y
    exact (chunkLess_congr (size x) (size y) (ptr x) (ptr y)).symm
  refine ⟨count.trans binned.count, ?_, ?_, ?_⟩
  · intro b
    rw [bins b]
    have reorder : ∀ ys, OrderedSet.Sorted s.chunkLess ys → OrderedSet.Sorted s'.chunkLess ys :=
      fun ys old => OrderedSet.sorted_congr (fun x _ y _ => (order x y).symm) old
    split
    · exact reorder _ sorted
    · exact reorder _ (binned.sorted b)
  · intro b k
    rw [bins b]
    by_cases kH : k = h
    · grind
    · rw [same k kH, others k kH, ← binned.mem b k]
      split
      · next here =>
        rw [mem k, if_neg kH, here]
      · rfl
  · intro k inSettled
    by_cases kH : k = h
    · subst kH
      rw [number inSettled, kept.2.2, kept.2.1, free]
      rfl
    · rw [others k kH]
      exact binned.binNum k ((same k kH).1 inSettled)

end Binned

/-- The allocator's invariant while the free chunks `detached` are outside the
bins. -/
structure Inv (s : BFCAllocator) (recycled detached : List Nat) : Prop
    extends Shape s recycled where
  idle : ∀ h ∈ recycled, (s.chunkAt h).inUse = false ∧ (s.chunkAt h).binNum = kInvalidBinNum
  binned : Binned s fun h => (s.graph recycled).live h ∧ h ∉ detached
  parked : ∀ h ∈ detached, (s.graph recycled).live h ∧ (s.chunkAt h).inUse = false ∧
    (s.chunkAt h).binNum = kInvalidBinNum
  separated : ∀ h k, (s.graph recycled).live h → (s.graph recycled).next h = some k →
    (s.chunkAt h).inUse = false → (s.chunkAt k).inUse = false → h ∈ detached ∨ k ∈ detached

/-- A live chunk in use with this address and size. -/
def Used (s : BFCAllocator) (recycled : List Nat) (p n : Nat) : Prop :=
  Occupies (s.graph recycled) (fun h => (s.chunkAt h).inUse = true) p n

/-- The two states differ in the bins only, as far as chunks are concerned. -/
structure Quiet (s s' : BFCAllocator) : Prop where
  graph : ∀ recycled, s'.graph recycled = s.graph recycled
  inUse : ∀ h, (s'.chunkAt h).inUse = (s.chunkAt h).inUse
  regions : s'.regions = s.regions

theorem Quiet.used {s s' : BFCAllocator} (quiet : Quiet s s') (recycled : List Nat) (p n : Nat) :
    s'.Used recycled p n ↔ s.Used recycled p n := by
  simp only [Used, quiet.graph, quiet.inUse]

end BFCAllocator

end Itex.Devices.Bfc
