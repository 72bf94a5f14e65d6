import Itex.Kernels.GroupScan

/-!
Contract: scans of an array on the device (`unique_op_helpers.h`).

Owns: the scan in one work group, the scan in several groups whose totals are scanned in turn,
the choice between them, and that all of them give prefix sums.

The operation is an addition with neutral element 0, and 0 is the initial value.
-/

namespace Itex.Kernels.Scan

open Finset

variable {T : Type} [AddCommMonoid T]

def mapReversedIndex (isReverse : Bool) (dimSize index : Nat) : Nat :=
  if isReverse then dimSize - 1 - index else index

section Block

variable (elemsPerWorkItem : Nat) (localMem : Nat → T) (init : T)

/-- The elements of a work item up to one of them, added to `start`. -/
def itemSum (lid elems : Nat) (start : T) : T :=
  (List.range elems).foldl (fun sum i => sum + localMem (lid * elemsPerWorkItem + i)) start

/-- `exclusive_scan_over_group` of the sums of the work items. -/
def updatedPrefix (lid : Nat) : T :=
  (List.range lid).foldl (fun sum other => sum + itemSum elemsPerWorkItem localMem other
    elemsPerWorkItem init) 0

def downSweep (isExclusive : Bool) (i : Nat) : T :=
  itemSum elemsPerWorkItem localMem (i / elemsPerWorkItem)
    (if isExclusive then i % elemsPerWorkItem else i % elemsPerWorkItem + 1)
    (updatedPrefix elemsPerWorkItem localMem init (i / elemsPerWorkItem))

/-- What the last work item is left with. -/
def groupTotal (groupSize : Nat) : T :=
  itemSum elemsPerWorkItem localMem (groupSize - 1) elemsPerWorkItem
    (updatedPrefix elemsPerWorkItem localMem init (groupSize - 1))

theorem updatedPrefix_eq (lid : Nat) :
    updatedPrefix elemsPerWorkItem localMem 0 lid = ∑ i ∈ range (lid * elemsPerWorkItem), localMem i := by
  unfold updatedPrefix itemSum
  rw [foldl_add_eq_sum, zero_add]
  induction lid with
  | zero => simp
  | succ lid ih =>
    rw [sum_range_succ, ih, foldl_add_eq_sum, zero_add, Nat.succ_mul, sum_range_add]

theorem downSweep_eq (isExclusive : Bool) (i : Nat) : downSweep elemsPerWorkItem localMem 0 isExclusive i =
      ∑ j ∈ range (if isExclusive then i else i + 1), localMem j := by
  unfold downSweep itemSum
  rw [foldl_add_eq_sum, updatedPrefix_eq, ← sum_range_add]
  have parts := Nat.div_add_mod' i elemsPerWorkItem
  congr 2
  split <;> omega

theorem groupTotal_eq {groupSize : Nat} (pos : 0 < groupSize) : groupTotal elemsPerWorkItem localMem 0 groupSize =
      ∑ i ∈ range (groupSize * elemsPerWorkItem), localMem i := by
  unfold groupTotal itemSum
  rw [foldl_add_eq_sum, updatedPrefix_eq, ← sum_range_add]
  congr 2
  obtain ⟨less, isSucc⟩ := Nat.exists_eq_succ_of_ne_zero (Nat.ne_of_gt pos)
  rw [isSucc, Nat.succ_sub_one, Nat.succ_mul]

end Block

/-- `GroupScan`: the output after it; `result` is what it holds before. -/
def launchGroupScan (groupSize elemsPerWorkItem : Nat) (isExclusive isReverse : Bool)
    (data result : Nat → T) (init : T) (n : Nat) : Nat → T :=
  let localMem := fun i => if i < n then data (mapReversedIndex isReverse n i) else init
  fun index =>
    let i := mapReversedIndex isReverse n index
    if i < groupSize * elemsPerWorkItem then downSweep elemsPerWorkItem localMem init isExclusive i
    else result index

section Device

variable (groupSize elemsPerWorkItem : Nat) (isExclusive isReverse : Bool) (data result : Nat → T)
  (init : T) (n numWorkGroup : Nat)

/-- Local memory of a group in `DeviceScanFirstStep`. -/
def groupMem (groupId i : Nat) : T :=
  let start := groupId * (groupSize * elemsPerWorkItem)
  if start + i < n then data (mapReversedIndex isReverse n (start + i)) else init

def interOut (groupId : Nat) : T :=
  groupTotal elemsPerWorkItem (groupMem groupSize elemsPerWorkItem isReverse data init n groupId) init
    groupSize

/-- The output after both steps, the second with the carry of each group. -/
def deviceOut (carry : Nat → T) (index : Nat) : T :=
  let i := mapReversedIndex isReverse n index
  let groupId := i / (groupSize * elemsPerWorkItem)
  if groupId < numWorkGroup then
    downSweep elemsPerWorkItem (groupMem groupSize elemsPerWorkItem isReverse data init n groupId) init
      isExclusive (i % (groupSize * elemsPerWorkItem)) + carry groupId
  else result index

end Device

/-! ## The choice -/

def halveWhile (size total : Nat) (n : Nat) : Nat :=
  if n = 0 then 0 else if 2 * total ≤ size * n then halveWhile size total (n / 2) else n

/-- More groups of fewer elements, while there are less than 64 of them. -/
def spread (workGroups elems : Nat) : Nat × Nat :=
  if workGroups * 2 < 64 ∧ 1 < elems then spread (workGroups * 2) (elems / 2) else (workGroups, elems)
termination_by elems

theorem spread_fst_lt {workGroups elems : Nat} (few : workGroups < 64) : (spread workGroups elems).1 < 64 := by
  induction workGroups, elems using spread.induct with
  | case1 workGroups elems more ih =>
    rw [spread, if_pos more]
    exact ih more.1
  | case2 workGroups elems done =>
    rw [spread, if_neg done]
    exact few

def maxWorkGroupSize : Nat := 512

def maxElemsPerWorkGroup : Nat := maxWorkGroupSize * 8

/-- The groups of a device scan and the elements of their work items. -/
def deviceGroups (n : Nat) : Nat × Nat :=
  let numWorkGroup := (n + maxElemsPerWorkGroup - 1) / maxElemsPerWorkGroup
  if numWorkGroup < 64 then spread numWorkGroup 8 else (numWorkGroup, 8)

theorem deviceGroups_fst_lt {n : Nat} (large : maxElemsPerWorkGroup < n) : (deviceGroups n).1 < n := by
  have isMax : maxElemsPerWorkGroup = 4096 := rfl
  unfold deviceGroups
  dsimp only
  rw [isMax] at large ⊢
  split
  next few =>
    have below : (spread ((n + 4096 - 1) / 4096) 8).1 < 64 := spread_fst_lt few
    omega
  next =>
    dsimp only
    omega

/-- `_scan_kernel`; no result where the process exits. -/
def scanKernel (isExclusive isReverse : Bool) (data result : Nat → T) (init : T) (n : Nat) : Option (Nat → T) :=
  if n ≤ maxElemsPerWorkGroup then
    if maxWorkGroupSize < n then
      let elems := halveWhile maxWorkGroupSize n 8
      if elems ∈ [8, 4, 2, 1] then
        some (launchGroupScan maxWorkGroupSize elems isExclusive isReverse data result init n)
      else none
    else
      let groupSize := max (halveWhile 1 n maxWorkGroupSize) 32
      if groupSize ∈ [1024, 512, 256, 128, 64, 32, 16] then
        some (launchGroupScan groupSize 1 isExclusive isReverse data result init n)
      else none
  else
    let groups := deviceGroups n
    if groups.2 ∈ [8, 4, 2, 1] then
      let inter := interOut maxWorkGroupSize groups.2 isReverse data init n
      (scanKernel true false inter inter init groups.1).map
        (deviceOut maxWorkGroupSize groups.2 isExclusive isReverse data result init n groups.1)
    else none
termination_by n
decreasing_by exact deviceGroups_fst_lt (by omega)

theorem halveWhile_two_pow {size total : Nat} (large : size < 2 * total) (k : Nat) (enough : total ≤ size * 2 ^ k) :
    ∃ j ≤ k, halveWhile size total (2 ^ k) = 2 ^ j ∧ total ≤ size * 2 ^ j := by
  have nonzero := Nat.two_pow_pos k
  induction k with
  | zero =>
    refine ⟨0, Nat.le_refl 0, ?_, enough⟩
    rw [halveWhile, if_neg (by omega), if_neg (by rw [pow_zero] at *; omega)]
  | succ k ih =>
    rw [halveWhile, if_neg (by omega)]
    split
    next more =>
      rw [pow_succ, Nat.mul_div_cancel _ (by decide)]
      rw [pow_succ, ← Nat.mul_assoc] at more
      obtain ⟨j, below, isPower, fits⟩ := ih (by omega) (Nat.two_pow_pos k)
      exact ⟨j, Nat.le_succ_of_le below, isPower, fits⟩
    next => exact ⟨k + 1, Nat.le_refl _, rfl, enough⟩

theorem spread_two_pow (workGroups k : Nat) : ∃ j ≤ k, (spread workGroups (2 ^ k)).2 = 2 ^ j ∧
      (spread workGroups (2 ^ k)).1 * 2 ^ j = workGroups * 2 ^ k := by
  induction k generalizing workGroups with
  | zero =>
    refine ⟨0, Nat.le_refl 0, ?_⟩
    rw [spread, if_neg (by simp)]
    exact ⟨rfl, rfl⟩
  | succ k ih =>
    rw [spread]
    split
    next =>
      rw [pow_succ, Nat.mul_div_cancel _ (by decide)]
      obtain ⟨j, below, isPower, total⟩ := ih (workGroups * 2)
      refine ⟨j, Nat.le_succ_of_le below, isPower, ?_⟩
      rw [total, Nat.mul_assoc, Nat.mul_comm 2]
    next => exact ⟨k + 1, Nat.le_refl _, rfl, rfl⟩

theorem deviceGroups_enough (n : Nat) : (deviceGroups n).2 ∈ [8, 4, 2, 1] ∧
    n ≤ (deviceGroups n).1 * (maxWorkGroupSize * (deviceGroups n).2) := by
  have isMax : maxElemsPerWorkGroup = 4096 := rfl
  have isSize : maxWorkGroupSize = 512 := rfl
  unfold deviceGroups
  dsimp only
  rw [isMax, isSize]
  split
  next =>
    obtain ⟨j, below, isPower, total⟩ := spread_two_pow ((n + 4096 - 1) / 4096) 3
    have eight : 2 ^ 3 = 8 := rfl
    rw [eight] at isPower total
    constructor
    · rw [isPower]
      interval_cases j <;> decide
    · rw [isPower, Nat.mul_left_comm, total]
      omega
  next =>
    dsimp only
    exact ⟨by decide, by omega⟩

section Sums

variable (isExclusive isReverse : Bool) (data result : Nat → T) {n : Nat}

theorem mapReversedIndex_lt {index : Nat} (inside : index < n) : mapReversedIndex isReverse n index < n := by
  unfold mapReversedIndex
  split <;> omega

/-- What a scan leaves at an index: the sum of the elements before it, and of the own one if it is
inclusive. -/
def scanned (n index : Nat) : T :=
  ∑ j ∈ range (if isExclusive then mapReversedIndex isReverse n index
    else mapReversedIndex isReverse n index + 1), data (mapReversedIndex isReverse n j)

/-- Elements behind the array, read as 0, take no part. -/
theorem sum_padded {index : Nat} (inside : index < n) :
    (∑ j ∈ range (if isExclusive then mapReversedIndex isReverse n index else mapReversedIndex isReverse n index + 1),
        if j < n then data (mapReversedIndex isReverse n j) else 0) = scanned isExclusive isReverse data n index := by
  have bound := mapReversedIndex_lt isReverse inside
  apply sum_congr rfl
  intro j listed
  have listed := mem_range.1 listed
  apply if_pos
  split at listed <;> omega

theorem launchGroupScan_eq {groupSize elemsPerWorkItem index : Nat} (inside : index < n)
    (enough : n ≤ groupSize * elemsPerWorkItem) :
    launchGroupScan groupSize elemsPerWorkItem isExclusive isReverse data result 0 n index =
      scanned isExclusive isReverse data n index := by
  have bound := mapReversedIndex_lt isReverse inside
  unfold launchGroupScan
  dsimp only
  rw [if_pos (Nat.lt_of_lt_of_le bound enough), downSweep_eq, sum_padded isExclusive isReverse data inside]

theorem sum_interOut {groupSize : Nat} (pos : 0 < groupSize) (elemsPerWorkItem groups : Nat) :
    ∑ groupId ∈ range groups, interOut groupSize elemsPerWorkItem isReverse data 0 n groupId =
      ∑ j ∈ range (groups * (groupSize * elemsPerWorkItem)),
        if j < n then data (mapReversedIndex isReverse n j) else 0 := by
  induction groups with
  | zero => simp
  | succ groups ih =>
    rw [sum_range_succ, ih, Nat.succ_mul, sum_range_add]
    unfold interOut
    rw [groupTotal_eq _ _ pos]
    rfl

theorem deviceOut_eq {groupSize elemsPerWorkItem numWorkGroup index : Nat} (inside : index < n)
    (pos : 0 < groupSize) (nonempty : 0 < elemsPerWorkItem)
    (enough : n ≤ numWorkGroup * (groupSize * elemsPerWorkItem)) {carry : Nat → T}
    (carries : ∀ groupId < numWorkGroup, carry groupId =
      ∑ other ∈ range groupId, interOut groupSize elemsPerWorkItem isReverse data 0 n other) :
    deviceOut groupSize elemsPerWorkItem isExclusive isReverse data result 0 n numWorkGroup carry index =
      scanned isExclusive isReverse data n index := by
  have bound := mapReversedIndex_lt isReverse inside
  have block : 0 < groupSize * elemsPerWorkItem := Nat.mul_pos pos nonempty
  have isGroup : mapReversedIndex isReverse n index / (groupSize * elemsPerWorkItem) < numWorkGroup :=
    (Nat.div_lt_iff_lt_mul block).2 (Nat.lt_of_lt_of_le bound enough)
  unfold deviceOut
  dsimp only
  rw [if_pos isGroup, downSweep_eq, carries _ isGroup, sum_interOut isReverse data pos, add_comm,
    ← sum_padded isExclusive isReverse data inside]
  have parts := Nat.div_add_mod' (mapReversedIndex isReverse n index) (groupSize * elemsPerWorkItem)
  have joined : ∀ rest, (∑ j ∈ range (mapReversedIndex isReverse n index /
        (groupSize * elemsPerWorkItem) * (groupSize * elemsPerWorkItem)),
          if j < n then data (mapReversedIndex isReverse n j) else 0) +
      ∑ j ∈ range rest, groupMem groupSize elemsPerWorkItem isReverse data 0 n
        (mapReversedIndex isReverse n index / (groupSize * elemsPerWorkItem)) j =
      ∑ j ∈ range (mapReversedIndex isReverse n index / (groupSize * elemsPerWorkItem) *
          (groupSize * elemsPerWorkItem) + rest),
        if j < n then data (mapReversedIndex isReverse n j) else 0 := by
    intro rest
    rw [sum_range_add]
    rfl
  rw [joined]
  congr 2
  split <;> omega

/-- The scan is defined for every size and leaves the prefix sums. -/
theorem scanKernel_spec (pos : 0 < n) : ∃ out, scanKernel isExclusive isReverse data result 0 n = some out ∧
      ∀ index < n, out index = scanned isExclusive isReverse data n index := by
  induction n using Nat.strong_induction_on generalizing isExclusive isReverse data result with
  | _ n ih =>
    have isMax : maxElemsPerWorkGroup = 4096 := rfl
    have isSize : maxWorkGroupSize = 512 := rfl
    rw [scanKernel]
    by_cases small : n ≤ maxElemsPerWorkGroup
    · rw [if_pos small]
      by_cases several : maxWorkGroupSize < n
      · rw [if_pos several]
        obtain ⟨j, below, isPower, fits⟩ := halveWhile_two_pow (by omega : 512 < 2 * n) 3 (by omega)
        have isCase : halveWhile maxWorkGroupSize n 8 ∈ [8, 4, 2, 1] := by
          show halveWhile 512 n (2 ^ 3) ∈ _
          rw [isPower]
          interval_cases j <;> decide
        dsimp only
        rw [if_pos isCase]
        refine ⟨_, rfl, ?_⟩
        intro index inside
        apply launchGroupScan_eq isExclusive isReverse data result inside
        show n ≤ 512 * halveWhile 512 n (2 ^ 3)
        rwa [isPower]
      · rw [if_neg several]
        obtain ⟨j, below, isPower, fits⟩ := halveWhile_two_pow (by omega : 1 < 2 * n) 9 (by omega)
        have isCase : max (halveWhile 1 n maxWorkGroupSize) 32 ∈ [1024, 512, 256, 128, 64, 32, 16] := by
          show max (halveWhile 1 n (2 ^ 9)) 32 ∈ _
          rw [isPower]
          interval_cases j <;> decide
        dsimp only
        rw [if_pos isCase]
        refine ⟨_, rfl, ?_⟩
        intro index inside
        apply launchGroupScan_eq isExclusive isReverse data result inside
        show n ≤ max (halveWhile 1 n (2 ^ 9)) 32 * 1
        rw [isPower]
        omega
    · rw [if_neg small]
      obtain ⟨isCase, enough⟩ := deviceGroups_enough n
      dsimp only
      rw [if_pos isCase]
      have fewer := deviceGroups_fst_lt (Nat.lt_of_not_le small)
      have some : 0 < (deviceGroups n).1 := by
        rcases Nat.eq_zero_or_pos (deviceGroups n).1 with isZero | nonzero
        · rw [isZero] at enough
          omega
        · exact nonzero
      obtain ⟨carry, isCarry, carries⟩ := ih _ fewer true false
        (interOut maxWorkGroupSize (deviceGroups n).2 isReverse data 0 n)
        (interOut maxWorkGroupSize (deviceGroups n).2 isReverse data 0 n) some
      rw [isCarry]
      refine ⟨_, rfl, ?_⟩
      intro index inside
      have nonempty : 0 < (deviceGroups n).2 := by
        simp only [List.mem_cons, List.not_mem_nil, or_false] at isCase
        omega
      exact deviceOut_eq isExclusive isReverse data result inside (by omega) nonempty enough carries

end Sums

end Itex.Kernels.Scan
