import Itex.Devices.Bfc.Invariant

/-!
Contract: the bin operations and the in-use mark, against the invariant.

Owns: one specification each for `RemoveFreeChunkFromBin`,
`RemoveFreeChunkIterFromBin`, `InsertFreeChunkIntoBin`, and for marking a chunk
as in use or free.
-/

namespace Itex.Devices.Bfc.BFCAllocator

open Itex.Lib Itex.Lib.Segments

variable {s s' : BFCAllocator} {recycled detached : List Nat} {h : Nat}

theorem Inv.linear (inv : Inv s recycled detached) : OrderedSet.Linear s.chunkLess (s.graph recycled).live :=
  chunkLess_linear s fun _ _ hLive kLive same => inv.wellFormed.ptr_injective hLive kLive same

theorem Inv.mem_live (inv : Inv s recycled detached) {b k : Nat} (member : k ∈ s.freeChunks b) :
    (s.graph recycled).live k :=
  ((inv.binned.mem b k).1 member).1.1

theorem Inv.neighbour_used (inv : Inv s recycled []) (hLive : (s.graph recycled).live h)
    (free : (s.chunkAt h).inUse = false) {k : Nat} (beside : (s.graph recycled).next h = some k ∨
      (s.graph recycled).live k ∧ (s.graph recycled).next k = some h) : (s.chunkAt k).inUse = true := by
  by_contra notUsed
  have kFree : (s.chunkAt k).inUse = false := by simpa using notUsed
  rcases beside with link | ⟨kLive, link⟩
  · simpa using inv.separated h k hLive link free kFree
  · simpa using inv.separated k h kLive link kFree free

/-! ## Rewriting one bin -/

/-- One bin gets new contents and the chunk a new bin number. -/
def rebin (s : BFCAllocator) (h : Nat) (number : Int) (handles : List Nat) : BFCAllocator :=
  { s.setChunk h { s.chunkAt h with binNum := number } with
    bins := s.bins.set (binNumForSize (s.chunkAt h).size) handles }

section

variable (inTable : h < s.chunks.length) (number : Int) (handles : List Nat)

include inTable number handles

theorem chunkAt_rebin : (s.rebin h number handles).chunkAt =
      Function.update s.chunkAt h { s.chunkAt h with binNum := number } :=
  chunkAt_setChunk inTable _

theorem rebin_fields (k : Nat) : ((s.rebin h number handles).chunkAt k).ptr = (s.chunkAt k).ptr ∧
      ((s.rebin h number handles).chunkAt k).size = (s.chunkAt k).size ∧
      ((s.rebin h number handles).chunkAt k).prev = (s.chunkAt k).prev ∧
      ((s.rebin h number handles).chunkAt k).next = (s.chunkAt k).next ∧
      ((s.rebin h number handles).chunkAt k).inUse = (s.chunkAt k).inUse := by
  rw [chunkAt_rebin inTable]
  by_cases same : k = h
  · subst same
    simp [Chunk.inUse]
  · simp [Function.update_of_ne same]

theorem rebin_quiet : Quiet s (s.rebin h number handles) where
  graph recycled := by
    have length : (s.rebin h number handles).chunks.length = s.chunks.length :=
      setChunk_length s h _
    simp only [graph, length]
    congr <;> funext k <;> simp [rebin_fields inTable number handles k]
  inUse k := (rebin_fields inTable number handles k).2.2.2.2
  regions := rfl

end

theorem rebin_freeChunks (count : s.bins.length = kNumBins) (number : Int) (handles : List Nat) (b : Nat) :
    (s.rebin h number handles).freeChunks b =
      if b = binNumForSize (s.chunkAt h).size then handles else s.freeChunks b := by
  have inTable : binNumForSize (s.chunkAt h).size < s.bins.length := by
    rw [count]
    exact binNumForSize_lt _
  exact freeChunks_set (s := s.setChunk h _) inTable handles b

theorem rebin_shape (shape : Shape s recycled) (inTable : h < s.chunks.length) (number : Int)
    (handles : List Nat) : Shape (s.rebin h number handles) recycled := by
  have length : (s.rebin h number handles).chunks.length = s.chunks.length :=
    setChunk_length s h _
  refine Shape.congr shape (show (s.rebin h number handles).regions = s.regions from rfl) length
    rfl ?_
  intro k
  obtain ⟨ptr, size, prev, next, -⟩ := rebin_fields inTable number handles k
  exact ⟨ptr, size, prev, next⟩

theorem Inv.idle_of_update {s' : BFCAllocator} {c : Chunk} (inv : Inv s recycled detached)
    (hLive : (s.graph recycled).live h) (chunks : s'.chunkAt = Function.update s.chunkAt h c) :
    ∀ k ∈ recycled, (s'.chunkAt k).inUse = false ∧ (s'.chunkAt k).binNum = kInvalidBinNum := by
  intro k member
  have apart : k ≠ h := fun same => hLive.2 (same ▸ member)
  rw [chunks, Function.update_of_ne apart]
  exact inv.idle k member

theorem Inv.detach (inv : Inv s recycled detached) (hLive : (s.graph recycled).live h)
    (settled : h ∉ detached) (free : (s.chunkAt h).inUse = false) {handles : List Nat}
    (mem : ∀ k, k ∈ handles ↔ k ∈ s.freeChunks (binNumForSize (s.chunkAt h).size) ∧ k ≠ h)
    (sorted : OrderedSet.Sorted s.chunkLess handles) :
    Inv (s.rebin h kInvalidBinNum handles) recycled (h :: detached) := by
  have quiet := rebin_quiet hLive.1 kInvalidBinNum handles
  have chunks := chunkAt_rebin hLive.1 kInvalidBinNum handles
  refine { rebin_shape inv.toShape hLive.1 kInvalidBinNum handles with
    idle := inv.idle_of_update hLive chunks, binned := ?_, parked := ?_, separated := ?_ }
  · rw [quiet.graph]
    refine inv.binned.update (h := h) free (by simp [rebin]) ?_
      (rebin_freeChunks inv.binned.count kInvalidBinNum handles) ?_ ?_ ?_ ?_ sorted ?_
    · intro k kH
      simp [kH]
    · intro k kH
      rw [chunks, Function.update_of_ne kH]
    · obtain ⟨ptr, size, -, -, inUse⟩ := rebin_fields hLive.1 kInvalidBinNum handles h
      exact ⟨ptr, size, inUse⟩
    · intro impossible
      simp at impossible
    · intro k
      rw [mem k]
      split
      · next same => simp [same]
      · next kH => simp [kH]
    · intro b away member
      exact away ((inv.binned.mem b h).1 member).2.2.symm
  · intro k member
    rw [quiet.graph, quiet.inUse, chunks]
    rcases List.mem_cons.1 member with rfl | old
    · simp only [Function.update_self]
      exact ⟨hLive, free, trivial⟩
    · have apart : k ≠ h := fun same => settled (same ▸ old)
      rw [Function.update_of_ne apart]
      exact inv.parked k old
  · intro j k jLive link jFree kFree
    rw [quiet.graph] at jLive link
    rw [quiet.inUse] at jFree kFree
    rcases inv.separated j k jLive link jFree kFree with found | found
    · exact Or.inl (List.mem_cons_of_mem h found)
    · exact Or.inr (List.mem_cons_of_mem h found)

theorem Inv.attach (inv : Inv s recycled (h :: detached)) (single : h ∉ detached)
    (beside : ∀ k, ((s.graph recycled).next h = some k ∨
      (s.graph recycled).live k ∧ (s.graph recycled).next k = some h) → (s.chunkAt k).inUse = true ∨ k ∈ detached)
    {handles : List Nat} (mem : ∀ k, k ∈ handles ↔ k = h ∨ k ∈ s.freeChunks (binNumForSize (s.chunkAt h).size))
    (sorted : OrderedSet.Sorted s.chunkLess handles) :
    Inv (s.rebin h (binNumForSize (s.chunkAt h).size) handles) recycled detached := by
  obtain ⟨hLive, free, -⟩ := inv.parked h (by simp)
  have quiet := rebin_quiet hLive.1 (binNumForSize (s.chunkAt h).size) handles
  have chunks := chunkAt_rebin hLive.1 (binNumForSize (s.chunkAt h).size) handles
  refine { rebin_shape inv.toShape hLive.1 _ handles with
    idle := inv.idle_of_update hLive chunks, binned := ?_, parked := ?_, separated := ?_ }
  · rw [quiet.graph]
    refine inv.binned.update (h := h) free (by simp [rebin]) ?_
      (rebin_freeChunks inv.binned.count _ handles) ?_ ?_ ?_ ?_ sorted ?_
    · intro k kH
      simp [kH]
    · intro k kH
      rw [chunks, Function.update_of_ne kH]
    · obtain ⟨ptr, size, -, -, inUse⟩ := rebin_fields hLive.1 _ handles h
      exact ⟨ptr, size, inUse⟩
    · intro _
      rw [chunks, Function.update_self]
    · intro k
      rw [mem k]
      split
      · next same => simp [same, hLive, single]
      · next kH => simp [kH]
    · intro b _ member
      simpa using ((inv.binned.mem b h).1 member).1.2
  · intro k member
    have apart : k ≠ h := fun same => single (same ▸ member)
    rw [quiet.graph, quiet.inUse, chunks, Function.update_of_ne apart]
    exact inv.parked k (List.mem_cons_of_mem h member)
  · intro j k jLive link jFree kFree
    rw [quiet.graph] at jLive link
    rw [quiet.inUse] at jFree kFree
    by_cases jH : j = h
    · subst jH
      rcases beside k (Or.inl link) with used | found
      · rw [used] at kFree
        cases kFree
      · exact Or.inr found
    · by_cases kH : k = h
      · subst kH
        rcases beside j (Or.inr ⟨jLive, link⟩) with used | found
        · rw [used] at jFree
          cases jFree
        · exact Or.inl found
      · simpa [jH, kH] using inv.separated j k jLive link jFree kFree

theorem Inv.binFromIndex_eq (inv : Inv s recycled detached) (bytes : Nat) :
    s.binFromIndex (binNumForSize bytes) = .ok (s.freeChunks (binNumForSize bytes)) := by
  have inTable : binNumForSize bytes < s.bins.length := by
    rw [inv.binned.count]
    exact binNumForSize_lt bytes
  simp [binFromIndex, inTable]

theorem removeFreeChunkFromBin_spec (inv : Inv s recycled detached)
    (hLive : (s.graph recycled).live h) (settled : h ∉ detached) (free : (s.chunkAt h).inUse = false) :
    ∃ s', s.removeFreeChunkFromBin h = .ok s' ∧ Inv s' recycled (h :: detached) ∧ Quiet s s' := by
  have number := inv.binned.binNum h ⟨hLive, settled⟩
  simp only [free, Bool.false_eq_true, if_false] at number
  have member : h ∈ s.freeChunks (binNumForSize (s.chunkAt h).size) :=
    (inv.binned.mem _ h).2 ⟨⟨hLive, settled⟩, free, rfl⟩
  have shorter := OrderedSet.length_erase_lt inv.linear hLive member
  refine ⟨s.rebin h kInvalidBinNum
    (OrderedSet.erase s.chunkLess h (s.freeChunks (binNumForSize (s.chunkAt h).size))), ?_, ?_,
    rebin_quiet hLive.1 _ _⟩
  · have valid : ((binNumForSize (s.chunkAt h).size : Int) != kInvalidBinNum) = true := by
      simp only [kInvalidBinNum, bne_iff_ne]
      omega
    simp only [removeFreeChunkFromBin, chunkFromHandle_eq hLive.1, number, free, valid,
      inv.binFromIndex_eq, check, shorter, Bool.not_false, Bool.true_and, decide_true, if_true,
      bind, Except.bind, Int.toNat_natCast]
    rw [modifyChunk_eq (by exact hLive.1)]
    rfl
  · apply inv.detach hLive settled free
    · exact OrderedSet.mem_erase inv.linear hLive fun k inBin => inv.mem_live inBin
    · exact (inv.binned.sorted _).filter _

theorem removeFreeChunkIterFromBin_spec (inv : Inv s recycled detached) {b : Nat} (member : h ∈ s.freeChunks b) :
    ∃ s', s.removeFreeChunkIterFromBin b h = .ok s' ∧ Inv s' recycled (h :: detached) ∧ Quiet s s' := by
  obtain ⟨⟨hLive, settled⟩, free, here⟩ := (inv.binned.mem b h).1 member
  have number := inv.binned.binNum h ⟨hLive, settled⟩
  simp only [free, Bool.false_eq_true, if_false] at number
  have nodup := OrderedSet.nodup_of_sorted inv.linear
    (fun k inBin => inv.mem_live inBin) (inv.binned.sorted (binNumForSize (s.chunkAt h).size))
  refine ⟨s.rebin h kInvalidBinNum
    ((s.freeChunks (binNumForSize (s.chunkAt h).size)).erase h), ?_, ?_,
    rebin_quiet hLive.1 _ _⟩
  · have valid : ((binNumForSize (s.chunkAt h).size : Int) != kInvalidBinNum) = true := by
      simp only [kInvalidBinNum, bne_iff_ne]
      omega
    simp only [removeFreeChunkIterFromBin, chunkFromHandle_eq hLive.1, number, free, valid, check,
      Bool.not_false, Bool.true_and, if_true, bind, Except.bind, ← here]
    rw [modifyChunk_eq (by exact hLive.1)]
    rfl
  · apply inv.detach hLive settled free
    · intro k
      rw [nodup.mem_erase_iff]
      exact and_comm
    · exact (inv.binned.sorted _).sublist List.erase_sublist

theorem insertFreeChunkIntoBin_spec (inv : Inv s recycled (h :: detached)) (single : h ∉ detached)
    (beside : ∀ k, ((s.graph recycled).next h = some k ∨
      (s.graph recycled).live k ∧ (s.graph recycled).next k = some h) → (s.chunkAt k).inUse = true ∨ k ∈ detached) :
    ∃ s', s.insertFreeChunkIntoBin h = .ok s' ∧ Inv s' recycled detached ∧ Quiet s s' := by
  obtain ⟨hLive, free, number⟩ := inv.parked h (by simp)
  have order : (s.setChunk h { s.chunkAt h with
      binNum := (binNumForSize (s.chunkAt h).size : Int) }).chunkLess = s.chunkLess := by
    have fields := rebin_fields hLive.1 (binNumForSize (s.chunkAt h).size : Int) []
    funext x y
    obtain ⟨xPtr, xSize, -⟩ := fields x
    obtain ⟨yPtr, ySize, -⟩ := fields y
    exact (chunkLess_congr xSize ySize xPtr yPtr).symm
  refine ⟨s.rebin h (binNumForSize (s.chunkAt h).size)
    (OrderedSet.insert s.chunkLess h (s.freeChunks (binNumForSize (s.chunkAt h).size))), ?_, ?_,
    rebin_quiet hLive.1 _ _⟩
  · simp only [insertFreeChunkIntoBin, chunkFromHandle_eq hLive.1, number, free, check,
      inv.binFromIndex_eq, modifyChunk_eq hLive.1, Bool.not_false, Bool.true_and, beq_self_eq_true,
      if_true, bind, Except.bind, order]
    rfl
  · apply inv.attach single beside
    · exact OrderedSet.mem_insert inv.linear hLive fun k inBin => inv.mem_live inBin
    · exact OrderedSet.sorted_insert inv.linear hLive (fun k inBin => inv.mem_live inBin)
        (inv.binned.sorted _)

theorem mark_shape (shape : Shape s recycled) (inTable : h < s.chunks.length) (requested : Nat)
    (id : Int) : Shape (s.setChunk h { s.chunkAt h with
      requestedSize := requested, allocationId := id }) recycled := by
  refine Shape.congr shape (show (s.setChunk h _).regions = s.regions from rfl)
    (setChunk_length s h _) rfl ?_
  intro k
  rw [chunkAt_setChunk inTable]
  by_cases same : k = h
  · subst same
    simp
  · simp [Function.update_of_ne same]

theorem mark_graph (recycled : List Nat) (inTable : h < s.chunks.length) (requested : Nat) (id : Int) :
    (s.setChunk h { s.chunkAt h with
      requestedSize := requested, allocationId := id }).graph recycled = s.graph recycled := by
  simp only [graph, setChunk_length]
  congr <;> funext k <;> rw [chunkAt_setChunk inTable] <;> by_cases same : k = h
  all_goals first
    | (subst same; simp)
    | simp [Function.update_of_ne same]

theorem Inv.take (inv : Inv s recycled (h :: detached)) (single : h ∉ detached) (requested : Nat) :
    Inv (s.setChunk h { s.chunkAt h with requestedSize := requested, allocationId := 0 })
      recycled detached := by
  obtain ⟨hLive, free, number⟩ := inv.parked h (by simp)
  have chunks := chunkAt_setChunk hLive.1
    { s.chunkAt h with requestedSize := requested, allocationId := 0 }
  have graphs := mark_graph recycled hLive.1 requested 0
  refine { mark_shape inv.toShape hLive.1 requested 0 with
    idle := inv.idle_of_update hLive chunks, binned := ?_, parked := ?_, separated := ?_ }
  · rw [graphs]
    refine inv.binned.used (h := h) rfl ?_ ?_ ?_ ?_
    · intro k kH
      simp [kH]
    · intro impossible
      simp at impossible
    · intro _
      rw [chunks, Function.update_self]
      exact ⟨rfl, number⟩
    · intro k kH
      rw [chunks, Function.update_of_ne kH]
  · intro k member
    have apart : k ≠ h := fun same => single (same ▸ member)
    rw [graphs, chunks, Function.update_of_ne apart]
    exact inv.parked k (List.mem_cons_of_mem h member)
  · intro j k jLive link jFree kFree
    rw [graphs] at jLive link
    rw [chunks] at jFree kFree
    have jH : j ≠ h := by
      rintro rfl
      rw [Function.update_self] at jFree
      cases jFree
    have kH : k ≠ h := by
      rintro rfl
      rw [Function.update_self] at kFree
      cases kFree
    rw [Function.update_of_ne jH] at jFree
    rw [Function.update_of_ne kH] at kFree
    simpa [jH, kH] using inv.separated j k jLive link jFree kFree

theorem Inv.release (inv : Inv s recycled detached) (hLive : (s.graph recycled).live h)
    (used : (s.chunkAt h).inUse = true) :
    Inv (s.setChunk h { s.chunkAt h with allocationId := -1 }) recycled (h :: detached) := by
  have chunks := chunkAt_setChunk hLive.1 { s.chunkAt h with allocationId := -1 }
  have graphs := mark_graph recycled hLive.1 (s.chunkAt h).requestedSize (-1)
  have settled : h ∉ detached := by
    intro member
    rw [(inv.parked h member).2.1] at used
    cases used
  have number := inv.binned.binNum h ⟨hLive, settled⟩
  rw [used, if_pos rfl] at number
  refine { mark_shape inv.toShape hLive.1 (s.chunkAt h).requestedSize (-1) with
    idle := inv.idle_of_update hLive chunks, binned := ?_, parked := ?_, separated := ?_ }
  · rw [graphs]
    refine inv.binned.used (h := h) rfl ?_ ?_ ?_ ?_
    · intro k kH
      simp [kH]
    · intro _
      exact used
    · intro impossible
      simp at impossible
    · intro k kH
      rw [chunks, Function.update_of_ne kH]
  · intro k member
    rw [graphs, chunks]
    rcases List.mem_cons.1 member with rfl | old
    · rw [Function.update_self]
      exact ⟨hLive, rfl, number⟩
    · have apart : k ≠ h := fun same => settled (same ▸ old)
      rw [Function.update_of_ne apart]
      exact inv.parked k old
  · intro j k jLive link jFree kFree
    rw [graphs] at jLive link
    by_cases jH : j = h
    · exact Or.inl (by simp [jH])
    · by_cases kH : k = h
      · exact Or.inr (by simp [kH])
      · rw [chunks, Function.update_of_ne jH] at jFree
        rw [chunks, Function.update_of_ne kH] at kFree
        rcases inv.separated j k jLive link jFree kFree with found | found
        · exact Or.inl (List.mem_cons_of_mem h found)
        · exact Or.inr (List.mem_cons_of_mem h found)

end Itex.Devices.Bfc.BFCAllocator
