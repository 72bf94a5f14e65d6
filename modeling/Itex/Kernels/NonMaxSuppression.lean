import Mathlib

/-!
Contract: the bit mask of the suppression kernel (`kernels/gpu/image/non_max_suppression_op_gpu.{h,cc}`).

Owns: `DoNms` for a work group whose items run in any order between barriers, and the group size that
the functor and `DoNMSReduce` leave it.

Does not own: the overlap of two boxes, which is a parameter, and how the candidates are chosen.
-/

namespace Itex.Kernels

/-- The checks of `NonMaxSuppressionFunctor`; a work item takes 8 keys. -/
structure Admits (maxGroupSize numBoxes numCandidates : Nat) : Prop where
  candidates : numCandidates ≤ numBoxes
  capacity : numCandidates * 2 ≤ maxGroupSize * 8 ∨ numBoxes ≤ maxGroupSize * 8

/-- The halving of `DoNMSReduce`. -/
def halve (numCandidates groupSize : Nat) : Nat :=
  if 2 * numCandidates < groupSize then halve numCandidates (groupSize / 2) else groupSize
termination_by groupSize

/-- `DoNMSReduce`: the first kernel whose group is not smaller. -/
def kernelSize (maxGroupSize numCandidates : Nat) : Option Nat :=
  [32, 64, 128, 256, 512, 1024, 2048].find? (max 32 (halve numCandidates maxGroupSize) ≤ ·)

section GroupSize

theorem halve_spec (numCandidates groupSize : Nat) : halve numCandidates groupSize ≤ groupSize ∧
    (numCandidates ≤ groupSize * 8 → numCandidates ≤ halve numCandidates groupSize * 8) := by
  fun_induction halve numCandidates groupSize with
  | case1 groupSize larger ih =>
    obtain ⟨smaller, capacity⟩ := ih
    exact ⟨by omega, fun _ => capacity (by omega)⟩
  | case2 groupSize _ => exact ⟨Nat.le_refl _, id⟩

theorem kernelSize_spec {maxGroupSize : Nat} (fits : maxGroupSize ≤ 2048) (numCandidates : Nat) :
    ∃ groupSize, kernelSize maxGroupSize numCandidates = some groupSize ∧ 32 ≤ groupSize ∧
      halve numCandidates maxGroupSize ≤ groupSize := by
  obtain ⟨groupSize, isKernel⟩ : ∃ groupSize, kernelSize maxGroupSize numCandidates = some groupSize := by
    have enough := (halve_spec numCandidates maxGroupSize).1.trans fits
    exact Option.isSome_iff_exists.1 (List.find?_isSome.2 ⟨2048, by simp, by simp [enough]⟩)
  have enough := List.find?_some isKernel
  rw [decide_eq_true_eq, Nat.max_le] at enough
  exact ⟨groupSize, isKernel, enough⟩

/-- No eight boxes of an item reach the top of a mask word or of an index. -/
theorem Admits.bounds {maxGroupSize numBoxes numCandidates groupSize idx : Nat} (fits : maxGroupSize ≤ 2048)
    (admits : Admits maxGroupSize numBoxes numCandidates) (enough : halve numCandidates maxGroupSize ≤ groupSize)
    (below : idx < numCandidates) : idx / groupSize < 32 ∧ (BitVec.ofNat 16 idx).toNat = idx := by
  have capacity : numCandidates ≤ maxGroupSize * 8 := by
    have := admits.candidates
    rcases admits.capacity with fits | fits <;> omega
  have held := (halve_spec numCandidates maxGroupSize).2 capacity
  refine ⟨?_, ?_⟩
  · exact (Nat.div_lt_of_lt_mul (show idx < groupSize * 8 by omega)).trans (by decide)
  · rw [BitVec.toNat_ofNat, Nat.mod_eq_of_lt]
    omega

end GroupSize

/-- With the arguments of `DoNms`. -/
structure NMSReduce where
  groupSize : Nat
  numElements : Nat
  maxOutputSize : Nat
  overThreshold : Nat → Nat → Bool

namespace NMSReduce

/-- What a work item keeps between barriers. -/
structure Item where
  i : Nat
  numAccepted : Nat
  stopped : Bool

/-- The local memory, and the work items. -/
structure Group where
  bitMask : Nat → BitVec 32
  outIndices : Nat → BitVec 16
  items : Nat → Item

def checkMask (nms : NMSReduce) (bitMask : Nat → BitVec 32) (idx : Nat) : Bool :=
  (bitMask (idx % nms.groupSize) >>> (idx / nms.groupSize)).getLsbD 0

def setMaskZero (nms : NMSReduce) (bitMask : Nat → BitVec 32) (idx : Nat) : Nat → BitVec 32 :=
  Function.update bitMask (idx % nms.groupSize)
    (bitMask (idx % nms.groupSize) &&& ~~~(1#32 <<< (idx / nms.groupSize)))

/-- The boxes that a work item compares with an accepted one. -/
def leftBoxes (nms : NMSReduce) (localId i : Nat) : List Nat :=
  List.range' (localId + i + 1) ((nms.numElements - (localId + i + 1) + (nms.groupSize - 1)) / nms.groupSize)
    nms.groupSize

/-- The bits that a work item clears when it finds a box: none behind the last one accepted. -/
def cleared (nms : NMSReduce) (item : Item) (localId : Nat) : Option Nat → List Nat
  | none => []
  | some i =>
    if nms.maxOutputSize ≤ item.numAccepted + 1 then [] else (nms.leftBoxes localId i).filter (nms.overThreshold i)

def record (item : Item) (localId : Nat) (outIndices : Nat → BitVec 16) : Option Nat → Nat → BitVec 16
  | none => outIndices
  | some i => if localId = 0 then Function.update outIndices item.numAccepted (BitVec.ofNat 16 i) else outIndices

def next (nms : NMSReduce) (item : Item) : Option Nat → Item
  | none => { item with stopped := true }
  | some i => ⟨i + 1, item.numAccepted + 1, decide (nms.maxOutputSize ≤ item.numAccepted + 1)⟩

/-- The next box that no earlier one masks. -/
def nextBox (nms : NMSReduce) (bitMask : Nat → BitVec 32) (i : Nat) : Option Nat :=
  (List.range' i (nms.numElements - i)).find? (nms.checkMask bitMask)

/-- A work item of `DoNms` from one barrier to the next, or to its end. -/
def advance (nms : NMSReduce) (group : Group) (localId : Nat) : Group :=
  let item := group.items localId
  if item.stopped then group
  else
    let found := nms.nextBox group.bitMask item.i
    { bitMask := (nms.cleared item localId found).foldl nms.setMaskZero group.bitMask
      outIndices := record item localId group.outIndices found
      items := Function.update group.items localId (nms.next item found) }

/-- The mask words that it writes on the way. -/
def written (nms : NMSReduce) (group : Group) (localId : Nat) : List Nat :=
  let item := group.items localId
  if item.stopped then []
  else (nms.cleared item localId (nms.nextBox group.bitMask item.i)).map (· % nms.groupSize)

/-- `DoNms` after a number of barriers, up to each of which the work items run in some order. -/
def doNms (nms : NMSReduce) (orders : Nat → List Nat) (outIndices : Nat → BitVec 16) : Nat → Group
  | 0 => ⟨fun _ => BitVec.allOnes 32, outIndices, fun _ => ⟨0, 0, false⟩⟩
  | rounds + 1 => (orders rounds).foldl nms.advance (nms.doNms orders outIndices rounds)

/-- Of the first boxes, each that none kept before it suppresses. -/
def greedy (nms : NMSReduce) : Nat → List Nat
  | 0 => []
  | i + 1 => if (nms.greedy i).any (nms.overThreshold · i) then nms.greedy i else nms.greedy i ++ [i]

variable {nms : NMSReduce} {group : Group} {order : List Nat} {i k : Nat} {item : Item} {found : Option Nat}

section Mask

theorem checkMask_setMaskZero {bitMask : Nat → BitVec 32} {idx : Nat} (small : k / nms.groupSize < 32) :
    nms.checkMask (nms.setMaskZero bitMask idx) k = (nms.checkMask bitMask k && k != idx) := by
  unfold checkMask setMaskZero
  by_cases sameWord : k % nms.groupSize = idx % nms.groupSize
  · rw [sameWord, Function.update_self]
    have isIdx : k = idx ↔ k / nms.groupSize = idx / nms.groupSize := by
      constructor
      · intro same
        rw [same]
      · intro same
        rw [← Nat.div_add_mod k nms.groupSize, ← Nat.div_add_mod idx nms.groupSize, same, sameWord]
    by_cases same : k / nms.groupSize = idx / nms.groupSize
    · simp [isIdx.2 same]
    · have apart : (k != idx) = true := bne_iff_ne.2 fun isSame => same (isIdx.1 isSame)
      rcases Nat.lt_or_gt_of_ne same with before | after
      · simp [small, before, apart]
      · simp [small, apart, Nat.sub_ne_zero_of_lt after]
  · have apart : k ≠ idx := by
      rintro rfl
      exact sameWord rfl
    simp [Function.update_of_ne sameWord, apart]

theorem checkMask_foldl (ids : List Nat) {bitMask : Nat → BitVec 32} (small : k / nms.groupSize < 32) :
    nms.checkMask (ids.foldl nms.setMaskZero bitMask) k = (nms.checkMask bitMask k && decide (k ∉ ids)) := by
  induction ids generalizing bitMask with
  | nil => simp
  | cons idx ids ih =>
    rw [List.foldl_cons, ih, checkMask_setMaskZero small]
    grind

theorem record_of_ne {localId : Nat} {outIndices : Nat → BitVec 16}
    (later : localId ≠ 0) : record item localId outIndices found = outIndices := by
  cases found with
  | none => rfl
  | some i => exact if_neg later

variable (pos : 0 < nms.groupSize)

include pos

theorem mem_leftBoxes {localId : Nat} :
    k ∈ nms.leftBoxes localId i ↔ k < nms.numElements ∧ ∃ q, k = localId + i + 1 + nms.groupSize * q := by
  unfold leftBoxes
  rw [List.mem_range']
  constructor
  · rintro ⟨q, inside, rfl⟩
    rw [Nat.lt_div_iff_mul_lt pos, Nat.mul_comm] at inside
    exact ⟨by omega, q, rfl⟩
  · rintro ⟨bound, q, rfl⟩
    refine ⟨q, ?_, rfl⟩
    rw [Nat.lt_div_iff_mul_lt pos, Nat.mul_comm]
    omega

theorem leftBoxes_apart {first second idx idx' : Nat} (inFirst : first < nms.groupSize)
    (inSecond : second < nms.groupSize) (apart : first ≠ second) (isFirst : idx ∈ nms.leftBoxes first i)
    (isSecond : idx' ∈ nms.leftBoxes second i) : idx % nms.groupSize ≠ idx' % nms.groupSize := by
  obtain ⟨-, q, rfl⟩ := (mem_leftBoxes pos).1 isFirst
  obtain ⟨-, q', rfl⟩ := (mem_leftBoxes pos).1 isSecond
  rw [Nat.add_mul_mod_self_left, Nat.add_mul_mod_self_left, Nat.add_assoc, Nat.add_assoc]
  intro same
  have cancelled : first % nms.groupSize = second % nms.groupSize := Nat.ModEq.add_right_cancel' _ same
  rw [Nat.mod_eq_of_lt inFirst, Nat.mod_eq_of_lt inSecond] at cancelled
  exact apart cancelled

theorem exists_leftBoxes (later : i < k) (bound : k < nms.numElements) :
    ∃ localId < nms.groupSize, k ∈ nms.leftBoxes localId i := by
  refine ⟨(k - i - 1) % nms.groupSize, Nat.mod_lt _ pos,
    (mem_leftBoxes pos).2 ⟨bound, (k - i - 1) / nms.groupSize, ?_⟩⟩
  have split := Nat.mod_add_div (k - i - 1) nms.groupSize
  omega

theorem of_mem_cleared {localId : Nat} (isCleared : k ∈ nms.cleared item localId found) :
    ∃ i, found = some i ∧ i < k ∧ k ∈ nms.leftBoxes localId i := by
  cases found with
  | none => cases isCleared
  | some i =>
    simp only [cleared] at isCleared
    split at isCleared
    · cases isCleared
    · have isLeft := (List.mem_filter.1 isCleared).1
      obtain ⟨-, q, isBox⟩ := (mem_leftBoxes pos).1 isLeft
      exact ⟨i, rfl, by omega, isLeft⟩

end Mask

section Greedy

variable {j : Nat}

theorem lt_of_mem_greedy (kept : k ∈ nms.greedy i) : k < i := by
  induction i with
  | zero => cases kept
  | succ i ih =>
    rw [greedy] at kept
    split at kept
    · exact Nat.lt_succ_of_lt (ih kept)
    · rcases List.mem_append.1 kept with kept | kept
      · exact Nat.lt_succ_of_lt (ih kept)
      · rw [List.mem_singleton.1 kept]
        exact Nat.lt_succ_self i

theorem greedy_grows (le : i ≤ j) : nms.greedy i <+: nms.greedy j := by
  induction j, le using Nat.le_induction with
  | base => exact List.prefix_rfl
  | succ j le ih =>
    rw [greedy]
    split
    · exact ih
    · exact ih.trans (List.prefix_append ..)

/-- What the kept boxes suppress adds nothing. -/
theorem greedy_skip (le : i ≤ j) (masked : ∀ k, i ≤ k → k < j → (nms.greedy i).any (nms.overThreshold · k) = true) :
    nms.greedy j = nms.greedy i := by
  induction j, le using Nat.le_induction with
  | base => rfl
  | succ j le ih =>
    have same := ih fun k atLeast below => masked k atLeast (Nat.lt_succ_of_lt below)
    rw [greedy, same, if_pos (masked j le (Nat.lt_succ_self j))]

theorem greedy_apart : (nms.greedy i).Pairwise fun j k => nms.overThreshold j k = false := by
  induction i with
  | zero => exact .nil
  | succ i ih =>
    rw [greedy]
    split
    · exact ih
    next free => exact List.pairwise_append.2 ⟨ih, List.pairwise_singleton .., by simpa using free⟩

theorem greedy_covers (below : k < i) (dropped : k ∉ nms.greedy i) :
    ∃ j ∈ nms.greedy i, j < k ∧ nms.overThreshold j k = true := by
  by_cases free : (nms.greedy k).any (nms.overThreshold · k) = true
  · obtain ⟨j, isKept, overlaps⟩ := List.any_eq_true.1 free
    exact ⟨j, (greedy_grows below.le).subset isKept, lt_of_mem_greedy isKept, overlaps⟩
  · refine absurd ((greedy_grows below).subset ?_) dropped
    rw [greedy, if_neg free]
    exact List.mem_append_right _ List.mem_cons_self

end Greedy

/-- The boxes that `DoNms` is to accept. -/
def kept (nms : NMSReduce) : List Nat :=
  (nms.greedy nms.numElements).take nms.maxOutputSize

/-- At a barrier before box `i`. -/
structure Running (nms : NMSReduce) (group : Group) (i : Nat) : Prop where
  inside : i ≤ nms.numElements
  room : (nms.greedy i).length < nms.maxOutputSize
  items : ∀ l < nms.groupSize, group.items l = ⟨i, (nms.greedy i).length, false⟩
  masks : ∀ k, i ≤ k → k < nms.numElements →
    nms.checkMask group.bitMask k = !(nms.greedy i).any (nms.overThreshold · k)
  outs : (List.range (nms.greedy i).length).map group.outIndices = (nms.greedy i).map (BitVec.ofNat 16)

structure Finished (nms : NMSReduce) (group : Group) : Prop where
  items : ∀ l < nms.groupSize, (group.items l).stopped = true ∧ (group.items l).numAccepted = nms.kept.length
  outs : (List.range nms.kept.length).map group.outIndices = nms.kept.map (BitVec.ofNat 16)

section Round

variable (pos : 0 < nms.groupSize)
  (small : ∀ k < nms.numElements, k / nms.groupSize < 32)

include pos small

/-- Work items that stand at one box all find the same next one. -/
theorem round_spec (nodup : order.Nodup) (runs : item.stopped = false)
    (items : ∀ l ∈ order, group.items l = item)
    (isFound : nms.nextBox group.bitMask item.i = found) :
    (∀ k < nms.numElements, nms.checkMask (order.foldl nms.advance group).bitMask k =
      (nms.checkMask group.bitMask k && decide (∀ l ∈ order, k ∉ nms.cleared item l found))) ∧
    (order.foldl nms.advance group).outIndices =
      (if 0 ∈ order then record item 0 group.outIndices found else group.outIndices) ∧
    (∀ l, (order.foldl nms.advance group).items l = if l ∈ order then nms.next item found else group.items l) ∧
    nms.nextBox (order.foldl nms.advance group).bitMask item.i = found := by
  induction order generalizing group with
  | nil => simp [isFound]
  | cons l order ih =>
    obtain ⟨notLater, nodup⟩ := List.nodup_cons.1 nodup
    have stepped : nms.advance group l =
        { bitMask := (nms.cleared item l found).foldl nms.setMaskZero group.bitMask
          outIndices := record item l group.outIndices found
          items := Function.update group.items l (nms.next item found) } := by
      unfold advance
      simp only [items l List.mem_cons_self, runs, isFound, Bool.false_eq_true, if_false]
    have masked : ∀ k < nms.numElements, nms.checkMask (nms.advance group l).bitMask k =
        (nms.checkMask group.bitMask k && decide (k ∉ nms.cleared item l found)) := by
      intro k bound
      rw [stepped]
      exact checkMask_foldl _ (small k bound)
    have sameFound : nms.nextBox (nms.advance group l).bitMask item.i = found := by
      unfold nextBox at isFound ⊢
      cases found with
      | none =>
        rw [List.find?_range'_eq_none] at isFound ⊢
        intro k atLeast below
        have unset : nms.checkMask group.bitMask k = false := by simpa using isFound k atLeast below
        simp [masked k (by omega), unset]
      | some i =>
        rw [List.find?_range'_eq_some] at isFound ⊢
        obtain ⟨isSet, inRange, before⟩ := isFound
        have bound := List.mem_range'_1.1 inRange
        refine ⟨?_, inRange, fun k atLeast below => ?_⟩
        · have kept : i ∉ nms.cleared item l (some i) := by
            intro isCleared
            obtain ⟨_, same, behind, -⟩ := of_mem_cleared pos isCleared
            cases same
            exact Nat.lt_irrefl i behind
          simp [masked i (by omega), isSet, kept]
        · have unset : nms.checkMask group.bitMask k = false := by simpa using before k atLeast below
          simp [masked k (by omega), unset]
    have others : ∀ l' ∈ order, (nms.advance group l).items l' = item := by
      intro l' later
      have apart : l' ≠ l := fun same => notLater (same ▸ later)
      rw [stepped]
      exact (Function.update_of_ne apart ..).trans (items l' (List.mem_cons_of_mem l later))
    obtain ⟨masks, outs, nexts, afterwards⟩ := ih nodup others sameFound
    rw [List.foldl_cons]
    refine ⟨?_, ?_, ?_, afterwards⟩
    · intro k bound
      rw [masks k bound, masked k bound]
      simp only [List.forall_mem_cons, Bool.decide_and, Bool.and_assoc]
    · rw [outs, stepped]
      by_cases first : l = 0
      · subst first
        rw [if_neg notLater, if_pos List.mem_cons_self]
      · simp only [record_of_ne first, List.mem_cons, Ne.symm first, false_or]
    · intro l'
      rw [nexts, stepped]
      by_cases same : l' = l
      · subst same
        simp [notLater]
      · simp [same]

theorem round_running (isOrder : order.Perm (List.range nms.groupSize)) (running : nms.Running group i) :
    (∃ i' > i, nms.Running (order.foldl nms.advance group) i') ∨ nms.Finished (order.foldl nms.advance group) := by
  have mem_order : ∀ l, l ∈ order ↔ l < nms.groupSize := fun l => isOrder.mem_iff.trans List.mem_range
  have first : 0 ∈ order := (mem_order 0).2 pos
  obtain ⟨found, isFound⟩ : ∃ found, nms.nextBox group.bitMask i = found := ⟨_, rfl⟩
  obtain ⟨masks, outs, items, -⟩ := round_spec pos small (isOrder.nodup_iff.2 List.nodup_range) rfl
    (fun l inOrder => running.items l ((mem_order l).1 inOrder)) isFound
  rw [if_pos first] at outs
  simp only [mem_order] at items masks
  unfold nextBox at isFound
  cases found with
  | none =>
    rw [List.find?_range'_eq_none] at isFound
    have allMasked : ∀ k, i ≤ k → k < nms.numElements → (nms.greedy i).any (nms.overThreshold · k) = true := by
      intro k atLeast below
      have unset := isFound k atLeast (by omega)
      rwa [running.masks k atLeast below, Bool.not_not] at unset
    have isKept : nms.kept = nms.greedy i := by
      rw [kept, greedy_skip running.inside allMasked, List.take_of_length_le running.room.le]
    refine .inr ⟨fun l inGroup => ?_, ?_⟩
    · rw [items l, if_pos inGroup, isKept]
      exact ⟨rfl, rfl⟩
    · rw [outs, isKept]
      exact running.outs
  | some i' =>
    rw [List.find?_range'_eq_some] at isFound
    obtain ⟨isSet, inRange, before⟩ := isFound
    obtain ⟨atLeast, below⟩ := List.mem_range'_1.1 inRange
    have below : i' < nms.numElements := by omega
    have skipped : nms.greedy i' = nms.greedy i := by
      refine greedy_skip atLeast fun k atLeast' below' => ?_
      have unset := before k atLeast' below'
      rwa [running.masks k atLeast' (by omega), Bool.not_not] at unset
    have grown : nms.greedy (i' + 1) = nms.greedy i ++ [i'] := by
      rw [running.masks i' atLeast below, Bool.not_eq_true'] at isSet
      rw [greedy, skipped, isSet, if_neg Bool.false_ne_true]
    have length : (nms.greedy (i' + 1)).length = (nms.greedy i).length + 1 := by
      rw [grown, List.length_append, List.length_singleton]
    have recorded : (List.range (nms.greedy (i' + 1)).length).map (order.foldl nms.advance group).outIndices =
        (nms.greedy (i' + 1)).map (BitVec.ofNat 16) := by
      rw [length, grown, outs, List.range_succ, List.map_append, List.map_append, ← running.outs]
      congr 1
      · refine List.map_congr_left fun j inRange => Function.update_of_ne ?_ ..
        exact (List.mem_range.1 inRange).ne
      · simp [record]
    by_cases room : nms.maxOutputSize ≤ (nms.greedy i).length + 1
    · have isKept : nms.kept = nms.greedy (i' + 1) := by
        have full : (nms.greedy (i' + 1)).length = nms.maxOutputSize := by
          have := running.room
          omega
        rw [kept, ← full]
        exact (List.prefix_iff_eq_take.1 (greedy_grows below)).symm
      refine .inr ⟨fun l inGroup => ?_, ?_⟩
      · rw [items l, if_pos inGroup, isKept, length]
        exact ⟨decide_eq_true room, rfl⟩
      · rw [isKept]
        exact recorded
    · refine .inl ⟨i' + 1, by omega, below, by omega, fun l inGroup => ?_, fun k atLeast' below' => ?_, recorded⟩
      · rw [items l, if_pos inGroup, length]
        simp [next, room]
      · rw [masks k below', running.masks k (by omega) below', grown, List.any_append, Bool.not_or]
        have clears : (∀ l, l < nms.groupSize → k ∉ nms.cleared ⟨i, (nms.greedy i).length, false⟩ l (some i')) ↔
            nms.overThreshold i' k = false := by
          obtain ⟨l, inGroup, isLeft⟩ := exists_leftBoxes pos atLeast' below'
          simp only [cleared, room, if_false, List.mem_filter, not_and, Bool.not_eq_true]
          exact ⟨fun never => never l inGroup isLeft, fun unset _ _ _ => unset⟩
        simp [clears]

omit small pos in
theorem round_finished (finished : nms.Finished group) (inGroup : ∀ l ∈ order, l < nms.groupSize) :
    nms.Finished (order.foldl nms.advance group) := by
  refine List.foldlRecOn order nms.advance finished fun reached finished l inOrder => ?_
  have unchanged : nms.advance reached l = reached := if_pos (finished.items l (inGroup l inOrder)).1
  rwa [unchanged]

/-- Between two barriers no two work items write to one word of the mask. -/
theorem written_apart {before between after : List Nat} {l l' : Nat} (isOrder : order.Perm (List.range nms.groupSize))
    (reached : (∃ i, nms.Running group i) ∨ nms.Finished group) (split : order = before ++ l :: between ++ l' :: after) :
    (nms.written (before.foldl nms.advance group) l).Disjoint
      (nms.written ((before ++ l :: between).foldl nms.advance group) l') := by
  have nodup : order.Nodup := isOrder.nodup_iff.2 List.nodup_range
  have inGroup : ∀ id ∈ order, id < nms.groupSize := fun id inOrder => List.mem_range.1 (isOrder.subset inOrder)
  rw [split] at nodup inGroup
  rcases reached with ⟨i, running⟩ | finished
  · obtain ⟨found, isFound⟩ : ∃ found, nms.nextBox group.bitMask i = found := ⟨_, rfl⟩
    have writes : ∀ {ids : List Nat} {id : Nat}, (id :: ids).Nodup → (∀ id' ∈ id :: ids, id' < nms.groupSize) →
        nms.written (ids.foldl nms.advance group) id =
          (nms.cleared ⟨i, (nms.greedy i).length, false⟩ id found).map (· % nms.groupSize) := by
      intro ids id nodup inGroup
      obtain ⟨later, nodup⟩ := List.nodup_cons.1 nodup
      obtain ⟨inside, insides⟩ := List.forall_mem_cons.1 inGroup
      obtain ⟨-, -, items, sameFound⟩ := round_spec pos small nodup rfl
        (fun id' isId => running.items id' (insides id' isId)) isFound
      simp [written, items, later, running.items id inside, sameFound]
    have second : (l' :: (before ++ l :: between)).Nodup :=
      (List.nodup_middle.1 nodup).sublist ((List.sublist_append_left ..).cons_cons l')
    have first : (l :: before).Nodup :=
      (List.nodup_middle.1 (List.nodup_cons.1 second).2).sublist ((List.sublist_append_left ..).cons_cons l)
    rw [writes first fun id isId => inGroup id (by simp at isId ⊢; tauto),
      writes second fun id isId => inGroup id (by simp at isId ⊢; tauto)]
    intro word isFirst isSecond
    obtain ⟨idx, isCleared, rfl⟩ := List.mem_map.1 isFirst
    obtain ⟨idx', isCleared', sameWord⟩ := List.mem_map.1 isSecond
    have apart : l ≠ l' := fun same => (List.nodup_cons.1 second).1 (by simp [same])
    obtain ⟨box, isBox, -, isLeft⟩ := of_mem_cleared pos isCleared
    obtain ⟨_, isBox', -, isLeft'⟩ := of_mem_cleared pos isCleared'
    cases isBox.symm.trans isBox'
    exact leftBoxes_apart pos (inGroup l (by simp)) (inGroup l' (by simp)) apart isLeft isLeft' sameWord.symm
  · have finished : nms.Finished (before.foldl nms.advance group) :=
      round_finished finished fun id isId => inGroup id (by simp [isId])
    have silent : nms.written (before.foldl nms.advance group) l = [] := if_pos (finished.items l (inGroup l (by simp))).1
    rw [silent]
    exact List.disjoint_nil_left _

end Round

section Run

variable (pos : 0 < nms.groupSize) (small : ∀ k < nms.numElements, k / nms.groupSize < 32)

include pos small

/-- Each round accepts a box or ends. -/
theorem doNms_reached (nonempty : 0 < nms.maxOutputSize) {orders : Nat → List Nat} (outIndices : Nat → BitVec 16)
    (areOrders : ∀ round, (orders round).Perm (List.range nms.groupSize)) (rounds : Nat) :
    (∃ i ≥ rounds, nms.Running (nms.doNms orders outIndices rounds) i) ∨
      nms.Finished (nms.doNms orders outIndices rounds) := by
  induction rounds with
  | zero =>
    refine .inl ⟨0, Nat.le_refl 0, Nat.zero_le _, nonempty, fun _ _ => rfl, fun k _ below => ?_, rfl⟩
    rw [doNms, checkMask, BitVec.getLsbD_ushiftRight, BitVec.getLsbD_allOnes]
    simpa [greedy] using small k below
  | succ rounds ih =>
    rcases ih with ⟨i, atLeast, running⟩ | finished
    · rcases round_running pos small (areOrders rounds) running with ⟨i', later, running⟩ | finished
      · exact .inl ⟨i', by omega, running⟩
      · exact .inr finished
    · exact .inr (round_finished finished fun l inOrder => List.mem_range.1 ((areOrders rounds).subset inOrder))

/-- The accepted boxes are apart, and while there is room every other box overlaps an earlier accepted one. -/
theorem doNms_maximal (nonempty : 0 < nms.maxOutputSize) {orders : Nat → List Nat} (outIndices : Nat → BitVec 16)
    (areOrders : ∀ round, (orders round).Perm (List.range nms.groupSize)) {rounds : Nat}
    (many : nms.numElements < rounds) : ∃ boxes : List Nat,
    (∀ l < nms.groupSize, ((nms.doNms orders outIndices rounds).items l).numAccepted = boxes.length) ∧
    (List.range boxes.length).map (nms.doNms orders outIndices rounds).outIndices = boxes.map (BitVec.ofNat 16) ∧
    boxes.Pairwise (fun j k => nms.overThreshold j k = false) ∧
    (boxes.length < nms.maxOutputSize →
      ∀ k < nms.numElements, k ∉ boxes → ∃ j ∈ boxes, j < k ∧ nms.overThreshold j k = true) := by
  rcases doNms_reached pos small nonempty outIndices areOrders rounds with ⟨i, later, running⟩ | finished
  · exact absurd running.inside (by omega)
  · refine ⟨nms.kept, fun l inGroup => (finished.items l inGroup).2, finished.outs,
      greedy_apart.sublist (List.take_sublist ..), ?_⟩
    intro room k below
    rw [kept, List.take_of_length_le]
    · exact greedy_covers below
    · rw [kept, List.length_take] at room
      omega

end Run

theorem doNms_maximal_three : ∃ (nms : NMSReduce) (boxes : List Nat), nms.numElements = 3 ∧
    (∀ l < 32, ((nms.doNms (fun _ => List.range 32) (fun _ => 0) 4).items l).numAccepted = boxes.length) ∧
    boxes.Pairwise fun j k => nms.overThreshold j k = false := by
  obtain ⟨boxes, counts, -, apart, -⟩ := @doNms_maximal ⟨32, 3, 3, fun j k => j == 0 && k == 1⟩ (by decide)
    (by decide) (by decide) (fun _ => List.range 32) (fun _ => 0) (fun _ => .refl _) 4 (by decide)
  exact ⟨_, boxes, rfl, counts, apart⟩

/-- Whatever the order of the work items, they keep their words apart and all accept the greedy boxes. -/
theorem doNms_greedy {maxGroupSize numBoxes numCandidates : Nat} (fits : maxGroupSize ≤ 2048)
    (admits : Admits maxGroupSize numBoxes numCandidates) :
    ∃ groupSize, kernelSize maxGroupSize numCandidates = some groupSize ∧
      ∀ nms : NMSReduce, nms.groupSize = groupSize → nms.numElements ≤ numCandidates → 0 < nms.maxOutputSize →
        (∀ idx < nms.numElements, idx / nms.groupSize < 32 ∧ (BitVec.ofNat 16 idx).toNat = idx) ∧
        ∀ (orders : Nat → List Nat) (outIndices : Nat → BitVec 16),
          (∀ round, (orders round).Perm (List.range nms.groupSize)) →
          (∀ round before l between l' after, orders round = before ++ l :: between ++ l' :: after →
            (nms.written (before.foldl nms.advance (nms.doNms orders outIndices round)) l).Disjoint
              (nms.written ((before ++ l :: between).foldl nms.advance (nms.doNms orders outIndices round)) l')) ∧
          ∀ rounds > nms.numElements,
            (∀ l < nms.groupSize, ((nms.doNms orders outIndices rounds).items l).stopped = true ∧
              ((nms.doNms orders outIndices rounds).items l).numAccepted = nms.kept.length) ∧
            (List.range nms.kept.length).map (fun j => ((nms.doNms orders outIndices rounds).outIndices j).toNat) =
              nms.kept := by
  obtain ⟨groupSize, isKernel, many, enough⟩ := kernelSize_spec fits numCandidates
  refine ⟨groupSize, isKernel, ?_⟩
  rintro nms rfl valid nonempty
  have bounds : ∀ idx < nms.numElements, idx / nms.groupSize < 32 ∧ (BitVec.ofNat 16 idx).toNat = idx :=
    fun idx below => admits.bounds fits enough (below.trans_le valid)
  have pos : 0 < nms.groupSize := by omega
  have small : ∀ k < nms.numElements, k / nms.groupSize < 32 := fun k below => (bounds k below).1
  refine ⟨bounds, fun orders outIndices areOrders => ⟨?_, ?_⟩⟩
  · intro round before l between l' after split
    refine written_apart pos small (areOrders round) ?_ split
    rcases doNms_reached pos small nonempty outIndices areOrders round with ⟨i, -, running⟩ | finished
    · exact .inl ⟨i, running⟩
    · exact .inr finished
  · intro rounds many
    rcases doNms_reached pos small nonempty outIndices areOrders rounds with ⟨i, later, running⟩ | finished
    · exact absurd running.inside (by omega)
    · refine ⟨finished.items, ?_⟩
      have fit : ∀ box ∈ nms.kept, (BitVec.ofNat 16 box).toNat = box := by
        intro box isKept
        exact (bounds box (lt_of_mem_greedy (List.mem_of_mem_take isKept))).2
      calc (List.range nms.kept.length).map (fun j => ((nms.doNms orders outIndices rounds).outIndices j).toNat)
        _ = ((List.range nms.kept.length).map (nms.doNms orders outIndices rounds).outIndices).map BitVec.toNat := by
          rw [List.map_map, Function.comp_def]
        _ = nms.kept.map fun box => (BitVec.ofNat 16 box).toNat := by
          rw [finished.outs, List.map_map, Function.comp_def]
        _ = nms.kept := (List.map_congr_left fit).trans (List.map_id' _)

/-- Three boxes of which the second overlaps the first. -/
theorem doNms_greedy_three : ∃ nms : NMSReduce, nms.kept = [0, 2] ∧
    ∀ l < 32, ((nms.doNms (fun _ => List.range 32) (fun _ => 0) 4).items l).numAccepted = 2 := by
  obtain ⟨groupSize, isKernel, spec⟩ := doNms_greedy (show 256 ≤ 2048 by decide) (show Admits 256 3 3 from ⟨by decide, .inl (by decide)⟩)
  obtain rfl : 32 = groupSize := by
    have isSize : kernelSize 256 3 = some 32 := by
      simp [kernelSize, halve]
    exact Option.some.inj (isSize.symm.trans isKernel)
  obtain ⟨-, runs⟩ := spec ⟨32, 3, 3, fun i k => i == 0 && k == 1⟩ rfl (by decide) (by decide)
  obtain ⟨-, finished⟩ := runs (fun _ => List.range 32) (fun _ => 0) fun _ => .refl _
  exact ⟨_, by decide, fun l inGroup => ((finished 4 (by decide)).1 l inGroup).2⟩

end NMSReduce

end Itex.Kernels
