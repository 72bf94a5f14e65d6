import Itex.Kernels.GroupRadixSort
import Itex.Kernels.Scan

/-!
Contract: the fallback sort of long rows (`topk_op_gpu.cc`).

Owns: the table of counters and its scan, the passes between two buffers, the choice of the digit, and
when the buffer that is read holds the sorted row.
-/

namespace Itex.Kernels.FallBackSort

open Itex.Lib Itex.Utils Finset

/-- What a group keeps of its launch: `radixBits` and whether the order is descending are template
arguments. -/
structure FallBackKeyValueRadixSort where
  kind : KeyKind
  descending : Bool
  radixBits : Nat
  groupSize : Nat

/-- A row of `col` columns and its part of the two buffers. -/
structure Row (w col : Nat) where
  keys : List (BitVec w)
  src : List (BitVec w × Nat)
  dst : List (BitVec w × Nat)
  keysLength : keys.length = col
  srcLength : src.length = col
  dstLength : dst.length = col

namespace FallBackKeyValueRadixSort

variable {w : Nat} (task : FallBackKeyValueRadixSort)

def numPerItems (col : Nat) : Nat := (col + task.groupSize - 1) / task.groupSize

/-- The counter of a column: those of a bucket lie together, one for each work item. -/
def slot (digits : List Nat) (column : Nat) : Nat :=
  digits.getD column 0 * task.groupSize + column / task.numPerItems digits.length

/-- The places of the columns. A work item steps only its own counters, before the scan and after it,
so that they can be taken column by column. -/
def places (digits : List Nat) : List Nat :=
  let counters := GroupRadixRank.keysAt (task.slot digits) digits.length
  (List.range digits.length).map fun column =>
    Scan.downSweep (2 ^ task.radixBits) counters 0 true (task.slot digits column) +
      GroupRadixRank.keysAt (task.slot digits) column (task.slot digits column)

def ukey (item : BitVec w × Nat) : BitVec w := task.kind.convert task.descending item.1

/-- One pass: what it leaves in the destination. -/
def pass (currentBit passBits : Nat) (items dst : List (BitVec w × Nat)) : List (BitVec w × Nat) :=
  scatter dst ((task.places (items.map (GroupRadixSortor.digit task.ukey currentBit passBits))).zip items)

/-- The loop, with what the next pass reads: the caller's source and destination after it. -/
def sortLoop (currentBit : Nat) (items src dst : List (BitVec w × Nat)) :
    List (BitVec w × Nat) × List (BitVec w × Nat) :=
  if currentBit < w ∧ 0 < task.radixBits then
    let passBits := min task.radixBits (w - currentBit)
    let written := task.pass currentBit passBits items dst
    (sortLoop (currentBit + passBits) written written src).swap
  else (src, dst)
termination_by w - currentBit

/-- A group: the first pass reads the keys and numbers them. -/
def run {col : Nat} (row : Row w col) : List (BitVec w × Nat) × List (BitVec w × Nat) :=
  task.sortLoop 0 row.keys.zipIdx row.src row.dst

end FallBackKeyValueRadixSort

def halveGroup (slmSize groupSize : Nat) : Nat :=
  if slmSize ≤ 2 ^ 4 * groupSize * 4 ∧ 32 ≤ groupSize then halveGroup slmSize (groupSize / 2) else groupSize

def lowerBits (slmSize groupSize radixBits : Nat) : Nat :=
  if slmSize ≤ 2 ^ radixBits * groupSize * 4 ∧ 1 < radixBits then lowerBits slmSize groupSize (radixBits - 1)
  else radixBits

/-- The group size and the digit; none where the process is aborted. -/
def fitToLocalMemory (slmSize maxGroupSize : Nat) : Option (Nat × Nat) :=
  let groupSize := halveGroup slmSize maxGroupSize
  let radixBits := lowerBits slmSize groupSize 4
  if slmSize ≤ 2 ^ radixBits * groupSize * 4 then none else some (groupSize, radixBits)

/-- `DispatchToFallBackRadixSort`: what the rows of the source buffer hold afterwards. Nothing is
defined where the launch size or the offset of a row leaves a 32-bit `int`. -/
def dispatchToFallBackRadixSort {w numCols : Nat} (kind : KeyKind) (descending : Bool) (slmSize maxGroupSize : Nat)
    (rows : List (Row w numCols)) : Option (List (List (BitVec w × Nat))) := do
  let (groupSize, radixBits) ← fitToLocalMemory slmSize maxGroupSize
  if rows.length * groupSize < 2 ^ 31 ∧ (rows.length - 1) * numCols < 2 ^ 31 then
    some (rows.map fun row => (FallBackKeyValueRadixSort.run ⟨kind, descending, radixBits, groupSize⟩ row).1)
  else none

section Pass

variable {w : Nat} {task : FallBackKeyValueRadixSort} {digits : List Nat}

theorem numPerItems_pos (group : 0 < task.groupSize) {col : Nat} (some : 0 < col) : 0 < task.numPerItems col :=
  Nat.div_pos (by omega) group

theorem owner_lt (group : 0 < task.groupSize) {col column : Nat} (inside : column < col) :
    column / task.numPerItems col < task.groupSize := by
  rw [Nat.div_lt_iff_lt_mul (numPerItems_pos group (by omega))]
  have parts := Nat.div_add_mod (col + task.groupSize - 1) task.groupSize
  have rest := Nat.mod_lt (col + task.groupSize - 1) group
  unfold FallBackKeyValueRadixSort.numPerItems
  omega

/-- The scanned counters give the stable places. -/
theorem places_eq (group : 0 < task.groupSize) :
    task.places digits = (List.range digits.length).map (rankIn digits) := by
  unfold FallBackKeyValueRadixSort.places
  apply List.map_congr_left
  intro column listed
  have inside := List.mem_range.1 listed
  rw [Scan.downSweep_eq, if_pos rfl, rankIn_eq_sum]
  unfold GroupRadixRank.keysAt
  have counted : (∑ other ∈ range column, if task.slot digits other = task.slot digits column then 1 else 0) =
      ∑ other ∈ range digits.length,
        if other < column ∧ task.slot digits other = task.slot digits column then 1 else 0 := by
    rw [← sum_subset (range_mono (Nat.le_of_lt inside))]
    · exact sum_congr rfl fun other before => by simp [mem_range.1 before]
    · exact fun other _ behind => if_neg fun both => behind (mem_range.2 both.1)
  rw [sum_comm, counted, ← sum_add_distrib]
  apply sum_congr rfl
  intro other known
  have own := owner_lt group inside
  have others := owner_lt group (mem_range.1 known)
  simp only [sum_ite_eq, mem_range]
  unfold FallBackKeyValueRadixSort.slot
  simp only [GroupRadixRank.mul_add_lt_iff others own, GroupRadixRank.mul_add_eq_iff others own]
  have monotone : other ≤ column → other / task.numPerItems digits.length ≤ column / task.numPerItems digits.length :=
    fun le => Nat.div_le_div_right le
  have monotone' : column ≤ other → column / task.numPerItems digits.length ≤ other / task.numPerItems digits.length :=
    fun le => Nat.div_le_div_right le
  split_ifs <;> omega

theorem pass_sorted (group : 0 < task.groupSize) {currentBit : Nat} (passBits : Nat)
    {original items dst : List (BitVec w × Nat)} (length : dst.length = items.length)
    (sorted : StableSorted (fun item => (task.ukey item).toNat % 2 ^ currentBit) original items) :
    StableSorted (fun item => (task.ukey item).toNat % 2 ^ (currentBit + passBits)) original
      (task.pass currentBit passBits items dst) := by
  have isDistributed : task.pass currentBit passBits items dst =
      distribute (GroupRadixSortor.digit task.ukey currentBit passBits) (2 ^ passBits) items := by
    unfold FallBackKeyValueRadixSort.pass
    rw [places_eq group]
    exact scatter_placed (fun item _ => GroupRadixSortor.digit_lt task.ukey currentBit passBits item) length
  rw [isDistributed]
  exact GroupRadixSortor.sorted_pass task.ukey sorted

end Pass

section Loop

variable {w : Nat} {task : FallBackKeyValueRadixSort} {original : List (BitVec w × Nat)}

/-- In order by the low bits. -/
def Low (task : FallBackKeyValueRadixSort) (original : List (BitVec w × Nat)) (bits : Nat)
    (items : List (BitVec w × Nat)) : Prop :=
  StableSorted (fun item => (task.ukey item).toNat % 2 ^ bits) original items

/-- Before a pass but the first, with `left` passes to go: an even number of them leaves the sorted row
in the source, an odd one in the destination, and in the source what the last pass started from. -/
theorem sortLoop_low (group : 0 < task.groupSize) (bits : 0 < task.radixBits) (left j : Nat)
    (enough : w ≤ (j + left) * task.radixBits) (exact : left ≠ 0 → (j + left - 1) * task.radixBits < w)
    {src dst : List (BitVec w × Nat)} (sorted : Low task original (min (j * task.radixBits) w) src)
    (length : dst.length = src.length) :
    let out := task.sortLoop (min (j * task.radixBits) w) src src dst
    (Even left → Low task original w out.1 ∧ (left ≠ 0 → Low task original ((j + left - 1) * task.radixBits) out.2)) ∧
      (Odd left → Low task original w out.2 ∧ Low task original ((j + left - 1) * task.radixBits) out.1) := by
  induction left generalizing j src dst with
  | zero =>
    have done : min (j * task.radixBits) w = w := Nat.min_eq_right enough
    rw [done] at sorted ⊢
    rw [FallBackKeyValueRadixSort.sortLoop, if_neg (by simp)]
    exact ⟨fun _ => ⟨sorted, fun nonzero => absurd rfl nonzero⟩, fun odd => absurd odd (by decide)⟩
  | succ left ih =>
    have more : j * task.radixBits < w :=
      Nat.lt_of_le_of_lt (Nat.mul_le_mul_right _ (by omega)) (exact (Nat.succ_ne_zero left))
    have isNext : j * task.radixBits + min task.radixBits (w - j * task.radixBits) =
        min ((j + 1) * task.radixBits) w := by
      rw [Nat.succ_mul]
      omega
    rw [Nat.min_eq_left (Nat.le_of_lt more)] at sorted ⊢
    have written := pass_sorted group (min task.radixBits (w - j * task.radixBits)) length sorted
    have sameLength := written.length_eq.trans sorted.length_eq.symm
    rw [FallBackKeyValueRadixSort.sortLoop, if_pos ⟨more, bits⟩]
    dsimp only
    rw [isNext] at written ⊢
    obtain ⟨even, odd⟩ := ih (j + 1) (by rwa [Nat.add_right_comm, Nat.add_assoc]) (fun nonzero => by
      have := exact (Nat.succ_ne_zero left)
      rwa [show j + 1 + left - 1 = j + (left + 1) - 1 by omega]) written sameLength.symm
    have isLast : j + 1 + left - 1 = j + (left + 1) - 1 := by omega
    rw [isLast] at even odd
    rw [Nat.even_add_one, Nat.not_even_iff_odd, Nat.odd_add_one, Nat.not_odd_iff_even]
    refine ⟨fun isOdd => ⟨(odd isOdd).1, fun _ => (odd isOdd).2⟩, fun isEven => ⟨(even isEven).1, ?_⟩⟩
    rcases Nat.eq_zero_or_pos left with isZero | some
    · have done : min ((j + 1) * task.radixBits) w = w := Nat.min_eq_right (by rwa [isZero] at enough)
      rw [done, FallBackKeyValueRadixSort.sortLoop, if_neg (by simp), isZero]
      exact sorted
    · exact (even isEven).2 (Nat.ne_of_gt some)

end Loop

section Result

variable {w numCols : Nat}

/-- The two bits the last pass sees never decide. -/
def TopBitsAgree (task : FallBackKeyValueRadixSort) (row : Row w numCols) : Prop :=
  ∀ first ∈ row.keys.zipIdx, ∀ second ∈ row.keys.zipIdx,
    ((task.ukey first).toNat % 2 ^ (w - 2) < (task.ukey second).toNat % 2 ^ (w - 2) ∨
      ((task.ukey first).toNat % 2 ^ (w - 2) = (task.ukey second).toNat % 2 ^ (w - 2) ∧ first.2 < second.2)) →
    (task.ukey first).toNat ≤ (task.ukey second).toNat

/-- An odd number of passes, as three bits make of 8 and of 32, leaves the row in the other buffer. -/
theorem run_sorted_iff (task : FallBackKeyValueRadixSort) (group : 0 < task.groupSize) (some : 1 ≤ task.radixBits)
    (few : task.radixBits ≤ 4) (width : w = 8 ∨ w = 16 ∨ w = 32 ∨ w = 64) (row : Row w numCols) :
    StableSorted (fun item => (task.ukey item).toNat) row.keys.zipIdx (task.run row).1 ↔
      (task.radixBits = 3 ∧ (w = 8 ∨ w = 32) → TopBitsAgree task row) := by
  have length : row.dst.length = row.keys.zipIdx.length := by
    rw [List.length_zipIdx, row.dstLength, row.keysLength]
  have start : StableSorted (fun item => (task.ukey item).toNat % 2 ^ 0) row.keys.zipIdx row.keys.zipIdx :=
    StableSorted.start _
  have written := pass_sorted group (min task.radixBits w) length start
  rw [Nat.zero_add] at written
  have passes : ∃ left, w ≤ (1 + left) * task.radixBits ∧ left * task.radixBits < w ∧ left ≠ 0 ∧
      (Even left ↔ task.radixBits = 3 ∧ (w = 8 ∨ w = 32)) ∧ (Even left → left * task.radixBits = w - 2) := by
    refine ⟨(w - 1) / task.radixBits, ?_⟩
    generalize task.radixBits = bits at *
    rcases width with rfl | rfl | rfl | rfl <;> interval_cases bits <;> decide
  obtain ⟨left, enough, before, several, isEven, isTop⟩ := passes
  have sameLength : row.src.length = (task.pass 0 (min task.radixBits w) row.keys.zipIdx row.dst).length := by
    rw [written.length_eq, List.length_zipIdx, row.srcLength, row.keysLength]
  obtain ⟨even, odd⟩ := sortLoop_low group some left 1 enough (fun _ => by rwa [Nat.add_sub_cancel_left])
    (by rw [Nat.one_mul]; exact written) sameLength
  rw [Nat.one_mul, Nat.add_sub_cancel_left] at even odd
  have isRun : (task.run row).1 = (task.sortLoop (min task.radixBits w)
      (task.pass 0 (min task.radixBits w) row.keys.zipIdx row.dst)
      (task.pass 0 (min task.radixBits w) row.keys.zipIdx row.dst) row.src).2 := by
    unfold FallBackKeyValueRadixSort.run
    rw [FallBackKeyValueRadixSort.sortLoop, if_pos ⟨by omega, some⟩]
    simp only [Nat.sub_zero, Nat.zero_add]
    rfl
  have whole : ∀ items, StableSorted (fun item => (task.ukey item).toNat) row.keys.zipIdx items ↔
      Low task row.keys.zipIdx w items := fun items =>
    ⟨fun sorted => sorted.congr fun item _ => Nat.mod_eq_of_lt (BitVec.isLt _),
      fun sorted => sorted.congr fun item _ => (Nat.mod_eq_of_lt (BitVec.isLt _)).symm⟩
  rw [isRun, ← isEven]
  rcases Nat.even_or_odd left with isEven' | isOdd
  · have low := (even isEven').2 several
    rw [isTop isEven'] at low
    have inOrder : row.keys.zipIdx.Pairwise fun first second => first.2 < second.2 := by
      rw [List.pairwise_iff_getElem]
      intro i j _ _ less
      simpa using less
    rw [low.refine_iff inOrder (fun _ _ less => Nat.lt_asymm less) fun _ _ same => congrArg (· % 2 ^ (w - 2)) same]
    exact ⟨fun agrees _ => agrees, fun agrees => agrees isEven'⟩
  · rw [whole]
    exact iff_of_true (odd isOdd).1 fun isEven' => absurd isOdd (Nat.not_odd_iff_even.2 isEven')

theorem fitToLocalMemory_spec {slmSize maxGroupSize groupSize radixBits : Nat} (some : 0 < maxGroupSize)
    (fits : fitToLocalMemory slmSize maxGroupSize = .some (groupSize, radixBits)) :
    0 < groupSize ∧ 1 ≤ radixBits ∧ radixBits ≤ 4 := by
  have group : ∀ size, 0 < size → 0 < halveGroup slmSize size := by
    intro size pos
    induction size using halveGroup.induct slmSize with
    | case1 size more ih =>
      rw [halveGroup, if_pos more]
      exact ih (by omega)
    | case2 size done => rwa [halveGroup, if_neg done]
  have digit : ∀ size bits, 1 ≤ bits → 1 ≤ lowerBits slmSize size bits ∧ lowerBits slmSize size bits ≤ bits := by
    intro size bits pos
    induction bits using lowerBits.induct slmSize size with
    | case1 bits more ih =>
      have := ih (by omega)
      rw [lowerBits, if_pos more]
      omega
    | case2 bits done =>
      rw [lowerBits, if_neg done]
      exact ⟨pos, Nat.le_refl _⟩
  unfold fitToLocalMemory at fits
  dsimp only at fits
  split at fits
  next => cases fits
  next =>
    obtain ⟨rfl, rfl⟩ := Prod.mk.inj (Option.some.inj fits)
    exact ⟨group _ some, digit _ 4 (by decide)⟩

/-- Where the process is not aborted, the source buffer holds the sorted rows with their columns exactly
if sizes and offsets fit an `int` and a digit of three bits is not taken for keys of 8 or 32 bits, unless
no row is decided by their two top bits. -/
theorem dispatchToFallBackRadixSort_sorts_iff (kind : KeyKind) (descending : Bool) {slmSize maxGroupSize : Nat}
    (some : 0 < maxGroupSize) {groupSize radixBits : Nat}
    (runs : fitToLocalMemory slmSize maxGroupSize = .some (groupSize, radixBits))
    (width : w = 8 ∨ w = 16 ∨ w = 32 ∨ w = 64) (rows : List (Row w numCols)) :
    (∃ out, dispatchToFallBackRadixSort kind descending slmSize maxGroupSize rows = .some out ∧
      List.Forall₂ (fun row sorted => StableSorted (fun item => (kind.convert descending item.1).toNat)
        row.keys.zipIdx sorted) rows out) ↔
      (rows.length * groupSize < 2 ^ 31 ∧ (rows.length - 1) * numCols < 2 ^ 31) ∧ (radixBits = 3 ∧ (w = 8 ∨ w = 32) →
          ∀ row ∈ rows, TopBitsAgree ⟨kind, descending, radixBits, groupSize⟩ row) := by
  obtain ⟨group, positive, few⟩ := fitToLocalMemory_spec some runs
  have each := fun row : Row w numCols =>
    run_sorted_iff ⟨kind, descending, radixBits, groupSize⟩ group positive few width row
  unfold dispatchToFallBackRadixSort
  rw [runs]
  simp only [Option.bind_eq_bind, Option.bind_some]
  split
  next fits =>
    simp only [Option.some.injEq, exists_eq_left', fits, true_and, List.forall₂_map_right_iff, List.forall₂_same]
    exact ⟨fun sorted odd row listed => (each row).1 (sorted row listed) odd,
      fun agrees row listed => (each row).2 fun odd => agrees odd row listed⟩
  next large => exact iff_of_false (fun ⟨_, isOut, _⟩ => nomatch isOut) fun both => large both.1

def twoBytes : Row 8 2 := ⟨[0, 64], [(0, 0), (0, 0)], [(0, 0), (0, 0)], rfl, rfl, rfl⟩

/-- Local memory of 1024 bytes takes a group of 16 and three bits: two bytes come out unsorted. -/
theorem bytes_unsorted : ¬∃ out, dispatchToFallBackRadixSort .unsigned true 1024 256 [twoBytes] = some out ∧
    List.Forall₂ (fun row sorted => StableSorted (fun item => (KeyKind.unsigned.convert true item.1).toNat)
      row.keys.zipIdx sorted) [twoBytes] out := by
  rintro ⟨out, isOut, sorted⟩
  have runs : fitToLocalMemory 1024 256 = some (16, 3) := by
    simp [fitToLocalMemory, halveGroup, lowerBits]
  unfold dispatchToFallBackRadixSort at isOut
  rw [runs] at isOut
  obtain rfl := Option.some.inj isOut
  have agrees := (run_sorted_iff ⟨.unsigned, true, 3, 16⟩ (by decide) (by decide) (by decide) (Or.inl rfl)
    _).1 (List.forall₂_cons.1 sorted).1 ⟨rfl, Or.inl rfl⟩
  exact absurd (agrees (0, 0) (by decide) (64, 1) (by decide) (by decide)) (by decide)

/-- With 64 KiB the digit has four bits. -/
theorem bytes_sorted : (∃ out, dispatchToFallBackRadixSort .unsigned true 65536 256 [twoBytes] = some out ∧
      List.Forall₂ (fun row sorted => StableSorted (fun item => (KeyKind.unsigned.convert true item.1).toNat)
        row.keys.zipIdx sorted) [twoBytes] out) ↔ (1 * 256 < 2 ^ 31 ∧ (1 - 1) * 2 < 2 ^ 31) ∧
      (4 = 3 ∧ (8 = 8 ∨ 8 = 32) → ∀ row ∈ [twoBytes], TopBitsAgree ⟨.unsigned, true, 4, 256⟩ row) :=
  dispatchToFallBackRadixSort_sorts_iff .unsigned true (by decide)
    (by simp [fitToLocalMemory, halveGroup, lowerBits]) (Or.inl rfl) _

end Result

end Itex.Kernels.FallBackSort
