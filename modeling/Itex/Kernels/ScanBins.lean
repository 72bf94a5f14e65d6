import Itex.Kernels.GroupScan

/-!
Contract: the scan of the bins between two sweeps of the device radix sort
(`DeviceRadixSortScanBins` in `utils/device_radix_sort.h`).

Owns: the slices the one work group takes, the running sum that each work item carries from slice
to slice, and what is left in place of every count.
-/

namespace Itex.Kernels

open Finset

/-- The template parameters; `ELEMS_PER_ITEM` is 4. -/
structure DeviceRadixSortScanBins where
  groupScan : GroupScan
  elemsPerItem : Nat

namespace DeviceRadixSortScanBins

variable {T : Type} [AddCommGroup T]

def sliceSize (bins : DeviceRadixSortScanBins) : Nat := bins.groupScan.groupSize * bins.elemsPerItem

/-- The counts in global memory, and the private `slice_exclusive_prefix` of each work item. -/
structure State (T : Type) where
  counts : Nat → T
  sliceExclusivePrefix : Nat → T

/-- `local_partial` of a work item once loaded. -/
def localPartial (bins : DeviceRadixSortScanBins) (counts : Nat → T) (offset size wiId elem : Nat) : T :=
  if wiId * bins.elemsPerItem + elem < size then counts (offset + (wiId * bins.elemsPerItem + elem)) else 0

def aggregate (bins : DeviceRadixSortScanBins) (counts : Nat → T) (offset size wiId : Nat) : T :=
  (List.range (bins.elemsPerItem - 1)).foldl
    (fun sum i => sum + bins.localPartial counts offset size wiId (i + 1))
    (bins.localPartial counts offset size wiId 0)

/-- One slice of `size` counts. Only work item 0 adds the sum of the slice to what it carries. -/
def consume (bins : DeviceRadixSortScanBins) (offset size : Nat) (state : State T) : State T where
  counts i :=
    if offset ≤ i ∧ i - offset < size then
      (List.range ((i - offset) % bins.elemsPerItem)).foldl
        (fun sum elem => sum + bins.localPartial state.counts offset size ((i - offset) / bins.elemsPerItem) elem)
        (bins.groupScan.exclusiveSum (bins.aggregate state.counts offset size) 0
            ((i - offset) / bins.elemsPerItem) +
          state.sliceExclusivePrefix ((i - offset) / bins.elemsPerItem))
    else state.counts i
  sliceExclusivePrefix wiId :=
    if wiId = 0 then
      state.sliceExclusivePrefix 0 + bins.groupScan.groupSum (bins.aggregate state.counts offset size) 0
    else state.sliceExclusivePrefix wiId

def consumeSlice (bins : DeviceRadixSortScanBins) (offset : Nat) (state : State T) : State T :=
  bins.consume offset bins.sliceSize state

def consumePartialSlice (bins : DeviceRadixSortScanBins) (offset sliceSize : Nat) (state : State T) : State T :=
  bins.consume offset sliceSize state

/-- The loop over full slices, then what is left. -/
def scanBins (bins : DeviceRadixSortScanBins) (countSize : Nat) (counts : Nat → T) : Nat → T :=
  let full := (List.range (countSize / bins.sliceSize)).foldl
    (fun state slice => bins.consumeSlice (slice * bins.sliceSize) state) ⟨counts, fun _ => 0⟩
  let offset := countSize / bins.sliceSize * bins.sliceSize
  if offset < countSize then (bins.consumePartialSlice offset (countSize - offset) full).counts
  else full.counts

section Slice

variable (bins : DeviceRadixSortScanBins) (counts : Nat → T) {offset size : Nat}

/-- The counts of a slice, with zeros behind the last one. -/
def padded (counts : Nat → T) (offset size k : Nat) : T := if k < size then counts (offset + k) else 0

theorem aggregate_eq (some : 0 < bins.elemsPerItem) (wiId : Nat) : bins.aggregate counts offset size wiId =
      ∑ elem ∈ range bins.elemsPerItem, padded counts offset size (wiId * bins.elemsPerItem + elem) := by
  obtain ⟨others, isCount⟩ := Nat.exists_eq_add_of_lt some
  unfold aggregate
  rw [foldl_add_eq_sum, isCount, Nat.zero_add, Nat.add_sub_cancel, sum_range_succ', add_comm]
  unfold localPartial
  rw [isCount, Nat.zero_add]
  rfl

theorem sum_aggregate (some : 0 < bins.elemsPerItem) (items : Nat) :
    ∑ wiId ∈ range items, bins.aggregate counts offset size wiId =
      ∑ k ∈ range (items * bins.elemsPerItem), padded counts offset size k := by
  induction items with
  | zero => simp
  | succ items ih =>
    rw [sum_range_succ, ih, aggregate_eq bins counts some, Nat.succ_mul, sum_range_add]

theorem sum_padded {count : Nat} (inside : count ≤ size) :
    ∑ k ∈ range count, padded counts offset size k = ∑ k ∈ range count, counts (offset + k) := by
  apply sum_congr rfl
  intro k mem
  exact if_pos (Nat.lt_of_lt_of_le (mem_range.1 mem) inside)

theorem sum_padded_all {count : Nat} (all : size ≤ count) :
    ∑ k ∈ range count, padded counts offset size k = ∑ k ∈ range size, counts (offset + k) := by
  rw [← Nat.add_sub_cancel' all, sum_range_add, sum_padded counts (Nat.le_refl size)]
  have nothing : ∑ k ∈ range (count - size), padded counts offset size (size + k) = 0 :=
    sum_eq_zero fun k _ => if_neg (by omega)
  rw [nothing, add_zero]

end Slice

/-- The group is made of sub-groups, and no slice is empty. -/
structure Admitted (bins : DeviceRadixSortScanBins) : Prop where
  subGroup : 0 < bins.groupScan.subGroupSize
  range : 0 < bins.groupScan.subGroupRange
  elems : 0 < bins.elemsPerItem

section Consume

variable {bins : DeviceRadixSortScanBins} (admitted : bins.Admitted) {offset size : Nat}

include admitted

theorem Admitted.sliceSize_pos : 0 < bins.sliceSize :=
  Nat.mul_pos (Nat.mul_pos admitted.range admitted.subGroup) admitted.elems

theorem consume_counts (inside : size ≤ bins.sliceSize) (state : State T) (i : Nat) :
    (bins.consume offset size state).counts i = if offset ≤ i ∧ i - offset < size then
        state.sliceExclusivePrefix ((i - offset) / bins.elemsPerItem) +
          ∑ k ∈ range (i - offset), state.counts (offset + k)
      else state.counts i := by
  unfold consume
  dsimp only
  split
  next within =>
    have itemInside : (i - offset) / bins.elemsPerItem < bins.groupScan.groupSize :=
      (Nat.div_lt_iff_lt_mul admitted.elems).2 (Nat.lt_of_lt_of_le within.2 inside)
    have own : ∑ elem ∈ range ((i - offset) % bins.elemsPerItem),
        bins.localPartial state.counts offset size ((i - offset) / bins.elemsPerItem) elem =
        ∑ elem ∈ range ((i - offset) % bins.elemsPerItem), padded state.counts offset size
          ((i - offset) / bins.elemsPerItem * bins.elemsPerItem + elem) := rfl
    rw [foldl_add_eq_sum, bins.groupScan.exclusiveSum_eq _ 0 admitted.subGroup itemInside,
      sum_aggregate bins _ admitted.elems, own, zero_add, add_right_comm, ← sum_range_add,
      Nat.div_add_mod', sum_padded _ (Nat.le_of_lt within.2), add_comm]
  next => rfl

theorem consume_before (inside : size ≤ bins.sliceSize) (state : State T) (wiId : Nat) :
    (bins.consume offset size state).sliceExclusivePrefix wiId = state.sliceExclusivePrefix wiId +
        if wiId = 0 then ∑ k ∈ range size, state.counts (offset + k) else 0 := by
  unfold consume
  dsimp only
  split
  next isFirst =>
    rw [bins.groupScan.groupSum_eq _ 0 admitted.subGroup, sum_aggregate bins _ admitted.elems,
      ← sliceSize, sum_padded_all _ inside, zero_add, isFirst]
  next => rw [add_zero]

end Consume

/-! ## All slices -/

/-- What is left in place of count `i`: the sum of the counts before it, without those of earlier
slices where the work item is not the first one. -/
def written (bins : DeviceRadixSortScanBins) (counts : Nat → T) (i : Nat) : T :=
  (if i % bins.sliceSize < bins.elemsPerItem then ∑ k ∈ range (i / bins.sliceSize * bins.sliceSize), counts k
    else 0) +
  ∑ k ∈ range (i % bins.sliceSize), counts (i / bins.sliceSize * bins.sliceSize + k)

section Run

variable {bins : DeviceRadixSortScanBins} (admitted : bins.Admitted) (counts : Nat → T)

structure Consumed (bins : DeviceRadixSortScanBins) (counts : Nat → T) (slices : Nat) (state : State T) : Prop where
  count : ∀ i, state.counts i = if i < slices * bins.sliceSize then bins.written counts i else counts i
  carried : ∀ wiId, state.sliceExclusivePrefix wiId =
    if wiId = 0 then ∑ k ∈ range (slices * bins.sliceSize), counts k else 0

include admitted

/-- The slice after those writes the same, whether it is full or not. -/
theorem Consumed.counts_next {slices size : Nat} {state : State T} (consumed : Consumed bins counts slices state)
    (inside : size ≤ bins.sliceSize) (i : Nat) : (bins.consume (slices * bins.sliceSize) size state).counts i =
      if i < slices * bins.sliceSize + size then bins.written counts i else counts i := by
  rw [consume_counts admitted inside, consumed.count]
  by_cases within : slices * bins.sliceSize ≤ i ∧ i - slices * bins.sliceSize < size
  · have isSlice : i / bins.sliceSize = slices :=
      Nat.div_eq_of_lt_le within.1 (by rw [Nat.succ_mul]; omega)
    have isPlace : i % bins.sliceSize = i - slices * bins.sliceSize := by
      rw [Nat.mod_eq_sub_div_mul, isSlice]
    have isFirst : (i - slices * bins.sliceSize) / bins.elemsPerItem = 0 ↔
        i - slices * bins.sliceSize < bins.elemsPerItem := by
      rw [Nat.div_eq_zero_iff]
      exact ⟨fun first => first.resolve_left (Nat.ne_of_gt admitted.elems), .inr⟩
    have unread : ∀ k ∈ range (i - slices * bins.sliceSize), state.counts (slices * bins.sliceSize + k) =
        counts (slices * bins.sliceSize + k) :=
      fun k _ => (consumed.count _).trans (if_neg (by omega))
    rw [if_pos within, if_pos (by omega), consumed.carried, sum_congr rfl unread]
    unfold written
    simp only [isSlice, isPlace, isFirst]
  · rw [if_neg within]
    split
    next => rw [if_pos (by omega)]
    next => rw [if_neg (by omega)]

theorem consumed_all (slices : Nat) : Consumed bins counts slices ((List.range slices).foldl
    (fun state slice => bins.consumeSlice (slice * bins.sliceSize) state) ⟨counts, fun _ => 0⟩) := by
  induction slices with
  | zero => exact ⟨fun i => by simp, fun wiId => by simp⟩
  | succ slices ih =>
    rw [List.range_succ, List.foldl_append, List.foldl_cons, List.foldl_nil]
    generalize List.foldl _ _ _ = state at ih ⊢
    constructor
    · intro i
      rw [Nat.succ_mul]
      exact ih.counts_next admitted counts (Nat.le_refl _) i
    · intro wiId
      have unread : ∀ k ∈ range bins.sliceSize, _ = counts (slices * bins.sliceSize + k) :=
        fun k _ => (ih.count _).trans (if_neg (by omega))
      change (bins.consume _ bins.sliceSize state).sliceExclusivePrefix wiId = _
      rw [consume_before admitted (Nat.le_refl _), ih.carried, sum_congr rfl unread, Nat.succ_mul, sum_range_add]
      split
      next => rfl
      next => rw [add_zero]

theorem scanBins_eq (countSize : Nat) {i : Nat} (bound : i < countSize) :
    bins.scanBins countSize counts i = bins.written counts i := by
  have full := consumed_all admitted counts (countSize / bins.sliceSize)
  have rest : countSize - countSize / bins.sliceSize * bins.sliceSize < bins.sliceSize := by
    rw [← Nat.mod_eq_sub_div_mul]
    exact Nat.mod_lt _ admitted.sliceSize_pos
  unfold scanBins
  split
  next more =>
    unfold consumePartialSlice
    rw [full.counts_next admitted counts (Nat.le_of_lt rest), if_pos (by omega)]
  next => rw [full.count, if_pos (by omega)]

/-- The scan is right exactly where no count has to come from an earlier slice, or the work item is
the first one. -/
theorem scanBins_exclusive_iff (countSize : Nat) :
    (∀ i < countSize, bins.scanBins countSize counts i = ∑ k ∈ range i, counts k) ↔
      ∀ i < countSize, bins.elemsPerItem ≤ i % bins.sliceSize →
        ∑ k ∈ range (i / bins.sliceSize * bins.sliceSize), counts k = 0 := by
  apply forall₂_congr
  intro i bound
  have isSum : ∑ k ∈ range i, counts k = ∑ k ∈ range (i / bins.sliceSize * bins.sliceSize), counts k +
      ∑ k ∈ range (i % bins.sliceSize), counts (i / bins.sliceSize * bins.sliceSize + k) := by
    rw [← sum_range_add, Nat.div_add_mod']
  rw [scanBins_eq admitted counts countSize bound, isSum]
  unfold written
  grind

end Run

/-- One slice of ones. -/
theorem scanBins_ones : (∀ i < 8, (⟨⟨1, 2⟩, 4⟩ : DeviceRadixSortScanBins).scanBins 8 (fun _ => (1 : Int)) i =
      ∑ _k ∈ range i, (1 : Int)) ↔ ∀ i < 8, 4 ≤ i % 8 → ∑ _k ∈ range (i / 8 * 8), (1 : Int) = 0 :=
  scanBins_exclusive_iff ⟨by decide, by decide, by decide⟩ (fun _ => (1 : Int)) 8

/-- The 2053rd count of two slices of ones: the second work item starts from zero. -/
theorem scanBins_restarts : (⟨⟨16, 32⟩, 4⟩ : DeviceRadixSortScanBins).scanBins 2064 (fun _ => (1 : Int)) 2052 ≠
    ∑ _k ∈ range 2052, (1 : Int) := by
  rw [scanBins_eq ⟨by decide, by decide, by decide⟩ _ _ (by decide)]
  unfold written
  rw [if_neg (by decide)]
  simp [sliceSize, GroupScan.groupSize]

end DeviceRadixSortScanBins

end Itex.Kernels
