import Mathlib

/-!
Contract: the kernels of an all-reduce (`LaunchAllReduceKernel`).

Owns: the vectors each work item of each rank stores, the elements written, and when they are those
of the tensors.

Does not own: the collective the kernels run for, and reductions over more than `MAX_RANK_SIZE`
ranks, which end the process.
-/

namespace Itex.Collectives

/-- A launch: `vecSize` is `VecBytes / sizeof(T)`. -/
structure AllReduceLaunch where
  vecSize : Nat
  elementCount : Nat
  reductionSize : Nat
  groupSize : Nat
  numMaxConcurrentWorkitem : Nat

namespace AllReduceLaunch

variable (launch : AllReduceLaunch) (rank : Nat)

def vecTailElementCount : Nat := launch.elementCount % launch.vecSize

def totalVecCount : Nat :=
  launch.elementCount / launch.vecSize + if 0 < launch.vecTailElementCount then 1 else 0

def sliceVecCount : Nat := launch.totalVecCount / launch.reductionSize

def tailVecCount : Nat := launch.totalVecCount % launch.reductionSize

/-- The last rank takes the tail. -/
def localVecCount : Nat :=
  launch.sliceVecCount + if rank = launch.reductionSize - 1 then launch.tailVecCount else 0

def numWorkitem : Nat :=
  if launch.localVecCount rank ≤ launch.numMaxConcurrentWorkitem then launch.localVecCount rank
  else launch.numMaxConcurrentWorkitem

/-- The second of the two kernels, which can store a part of a vector. -/
def PartialStore : Prop :=
  ¬(rank ≠ launch.reductionSize - 1 ∨ launch.vecTailElementCount = 0)

instance : Decidable (launch.PartialStore rank) := inferInstanceAs (Decidable (¬_))

/-- The vectors of the slice a work item stores, with the elements stored of each. -/
def workitemStores (index : Nat) : List (Nat × Nat) :=
  let localVecCount := launch.localVecCount rank
  let numWorkitem := launch.numWorkitem rank
  let numVecPerWorkitem := localVecCount / numWorkitem
  let numTailVec := localVecCount % numWorkitem
  (List.range numVecPerWorkitem).map (fun n => (numWorkitem * n + index,
    if launch.PartialStore rank ∧ ¬(localVecCount > numWorkitem ∨ index ≠ numWorkitem - 1) then
      launch.vecTailElementCount else launch.vecSize)) ++
  if index < numTailVec then [(numWorkitem * numVecPerWorkitem + index,
    if launch.PartialStore rank ∧ index = numTailVec - 1 then launch.vecTailElementCount
    else launch.vecSize)] else []

/-- The elements of the outputs the kernel of a rank writes, work item after work item. -/
def launchAllReduceKernel : List Nat :=
  if launch.localVecCount rank = 0 then [] else
    let numWorkgroup := (launch.numWorkitem rank + launch.groupSize - 1) / launch.groupSize
    ((List.range (launch.groupSize * numWorkgroup)).filter fun index => index < launch.numWorkitem rank).flatMap
      fun index => (launch.workitemStores rank index).flatMap fun store =>
        (List.range store.2).map fun lane =>
          rank * launch.sliceVecCount * launch.vecSize + store.1 * launch.vecSize + lane

/-- `RunAllReduce`: one kernel for each rank. -/
def runAllReduce : List Nat := (List.range launch.reductionSize).flatMap launch.launchAllReduceKernel

variable {E A : Type} (load : E → A) (accumulate : A → A → A) (store : A → E)

/-- What every output gets at an element: the vectors work element by element. -/
def reduced (first : Nat → E) (others : List (Nat → E)) (element : Nat) : E :=
  store (others.foldl (fun result input => accumulate result (load (input element))) (load (first element)))

def written (value : Nat → E) (elements : List Nat) (output : Nat → E) : Nat → E :=
  elements.foldl (fun output element => Function.update output element (value element)) output

/-! ## What is written -/

theorem written_apply (value : Nat → E) (elements : List Nat) (output : Nat → E) (element : Nat) :
    written value elements output element = if element ∈ elements then value element else output element := by
  unfold written
  induction elements generalizing output with
  | nil => simp
  | cons head tail ih =>
    rw [List.foldl_cons, ih, Function.update_apply]
    by_cases inTail : element ∈ tail <;> by_cases isHead : element = head <;> simp [inTail, isHead]

/-- The vectors of the last rank. -/
def lastVecCount : Nat := launch.sliceVecCount + launch.tailVecCount

/-- The last vector is a part of one, and no work item takes it for that. -/
def Overrun : Prop :=
  0 < launch.vecTailElementCount ∧ launch.numMaxConcurrentWorkitem < launch.lastVecCount ∧
    launch.numMaxConcurrentWorkitem ∣ launch.lastVecCount

/-- A vector stored in part: the last one, where a work item takes it for that. -/
def StoredInPart (vec : Nat) : Prop :=
  0 < launch.vecTailElementCount ∧ vec + 1 = launch.totalVecCount ∧ ¬launch.Overrun

/-- The elements stored of a vector. -/
def Lanes (vec count : Nat) : Prop :=
  (launch.StoredInPart vec → count = launch.vecTailElementCount) ∧ (¬launch.StoredInPart vec → count = launch.vecSize)

section Stores

variable {launch} {rank}

theorem slice_end (some : 0 < launch.reductionSize) (inside : rank < launch.reductionSize) :
    rank * launch.sliceVecCount + launch.localVecCount rank ≤ launch.totalVecCount ∧ (rank = launch.reductionSize - 1 →
        rank * launch.sliceVecCount + launch.localVecCount rank = launch.totalVecCount) ∧
      (rank ≠ launch.reductionSize - 1 → 0 < launch.sliceVecCount →
        rank * launch.sliceVecCount + launch.localVecCount rank < launch.totalVecCount) := by
  have parts : launch.reductionSize * launch.sliceVecCount + launch.tailVecCount = launch.totalVecCount :=
    Nat.div_add_mod _ _
  obtain ⟨before, isSize⟩ := Nat.exists_eq_succ_of_ne_zero (Nat.ne_of_gt some)
  unfold localVecCount
  rw [isSize] at inside parts ⊢
  rw [Nat.succ_mul] at parts
  have below := Nat.mul_le_mul_right launch.sliceVecCount (Nat.le_of_lt_succ inside)
  rw [Nat.succ_eq_add_one, Nat.add_sub_cancel]
  by_cases last : rank = before
  · rw [if_pos last, last]
    omega
  · have next := Nat.mul_le_mul_right launch.sliceVecCount (by omega : rank + 1 ≤ before)
    rw [if_neg last]
    rw [Nat.succ_mul] at next
    omega

theorem mem_stores (inside : rank < launch.reductionSize) (concurrent : 0 < launch.numMaxConcurrentWorkitem)
    (nonempty : launch.localVecCount rank ≠ 0) (vec count : Nat) :
    (∃ index < launch.numWorkitem rank, (vec, count) ∈ launch.workitemStores rank index) ↔
      vec < launch.localVecCount rank ∧ launch.Lanes (rank * launch.sliceVecCount + vec) count := by
  obtain ⟨_, atLast, before⟩ := slice_end (Nat.lt_of_le_of_lt (Nat.zero_le _) inside) inside
  have isLocal : launch.localVecCount rank =
      launch.sliceVecCount + if rank = launch.reductionSize - 1 then launch.tailVecCount else 0 := rfl
  have isItems : launch.numWorkitem rank = if launch.localVecCount rank ≤ launch.numMaxConcurrentWorkitem then
      launch.localVecCount rank else launch.numMaxConcurrentWorkitem := rfl
  have isLast : launch.lastVecCount = launch.sliceVecCount + launch.tailVecCount := rfl
  unfold workitemStores Lanes StoredInPart Overrun PartialStore
  rw [Nat.dvd_iff_mod_eq_zero]
  generalize launch.numWorkitem rank = width at *
  generalize launch.localVecCount rank = total at *
  have items : 0 < width := by
    split at isItems <;> omega
  have parts := Nat.div_add_mod total width
  have rest := Nat.mod_lt total items
  have full : ∀ n < total / width, width * n + width ≤ width * (total / width) := fun n bound =>
    Nat.mul_le_mul_left width (Nat.succ_le_of_lt bound)
  -- Only the last rank stores a part of a vector, and the last vector is its last.
  have isEnd : ∀ vec < total, rank * launch.sliceVecCount + vec + 1 = launch.totalVecCount ↔
      rank = launch.reductionSize - 1 ∧ vec + 1 = total := by
    intro vec bound
    split at isLocal
    next last =>
      have := atLast last
      omega
    next last =>
      have := before last
      omega
  have small : total ≤ launch.numMaxConcurrentWorkitem → width = total ∧ total % width = 0 ∧ total / width = 1 := by
    intro le
    rw [if_pos le] at isItems
    rw [isItems]
    exact ⟨rfl, Nat.mod_self _, Nat.div_self (Nat.pos_of_ne_zero nonempty)⟩
  have large : launch.numMaxConcurrentWorkitem < total →
      total % launch.numMaxConcurrentWorkitem = total % width ∧ width < total := by
    intro less
    rw [if_neg (Nat.not_le.2 less)] at isItems
    rw [isItems]
    exact ⟨rfl, less⟩
  have same : rank = launch.reductionSize - 1 → launch.lastVecCount = total := by
    intro last
    rw [isLocal, if_pos last, isLast]
  constructor
  · rintro ⟨index, below, stored⟩
    rcases List.mem_append.1 stored with inMain | inTail
    · obtain ⟨n, listed, isStore⟩ := List.mem_map.1 inMain
      have bound := List.mem_range.1 listed
      obtain ⟨rfl, rfl⟩ := Prod.mk.inj isStore
      have := full n bound
      rw [isEnd _ (by omega)]
      rcases Nat.lt_or_ge launch.numMaxConcurrentWorkitem total with less | le
      · have := large less
        grind
      · have := small le
        have isFirst : n = 0 := by omega
        grind
    · split at inTail
      next bound =>
        obtain ⟨rfl, rfl⟩ := Prod.mk.inj (List.mem_singleton.1 inTail)
        rw [isEnd _ (by omega)]
        grind
      next => cases inTail
  · rintro ⟨bound, isCount⟩
    rw [isEnd _ bound] at isCount
    rcases Nat.lt_or_ge vec (width * (total / width)) with less | ge
    · refine ⟨vec % width, Nat.mod_lt _ items, List.mem_append_left _ (List.mem_map.2
        ⟨vec / width, List.mem_range.2 (Nat.div_lt_of_lt_mul less), Prod.ext (Nat.div_add_mod _ _) ?_⟩)⟩
      have place := Nat.div_add_mod vec width
      rcases Nat.lt_or_ge launch.numMaxConcurrentWorkitem total with more | le
      · have := large more
        grind
      · have isFirst : vec / width = 0 := Nat.div_eq_of_lt (by rwa [(small le).1])
        have := small le
        grind
    · refine ⟨vec - width * (total / width), by omega, List.mem_append_right _ ?_⟩
      rw [if_pos (by omega), List.mem_singleton]
      refine Prod.ext (Nat.add_sub_cancel' ge).symm ?_
      grind

theorem mem_runAllReduce (some : 0 < launch.reductionSize) (concurrent : 0 < launch.numMaxConcurrentWorkitem)
    (group : 0 < launch.groupSize) (element : Nat) : element ∈ launch.runAllReduce ↔
      ∃ vec < launch.totalVecCount, ∃ count, launch.Lanes vec count ∧
        ∃ lane < count, element = vec * launch.vecSize + lane := by
  have groups : ∀ rank, launch.numWorkitem rank ≤
      launch.groupSize * ((launch.numWorkitem rank + launch.groupSize - 1) / launch.groupSize) := by
    intro rank
    have parts := Nat.div_add_mod (launch.numWorkitem rank + launch.groupSize - 1) launch.groupSize
    have rest := Nat.mod_lt (launch.numWorkitem rank + launch.groupSize - 1) group
    omega
  have ofRank : ∀ rank < launch.reductionSize, element ∈ launch.launchAllReduceKernel rank ↔
      ∃ vec < launch.localVecCount rank, ∃ count, launch.Lanes (rank * launch.sliceVecCount + vec) count ∧
        ∃ lane < count, element = (rank * launch.sliceVecCount + vec) * launch.vecSize + lane := by
    intro rank inside
    unfold launchAllReduceKernel
    by_cases empty : launch.localVecCount rank = 0
    · simp [empty]
    · have stores := mem_stores inside concurrent empty
      have enough := groups rank
      rw [if_neg empty]
      simp only [List.mem_flatMap, List.mem_filter, List.mem_range, decide_eq_true_eq, List.mem_map, Prod.exists,
        ← Nat.add_mul]
      constructor
      · rintro ⟨index, ⟨_, below⟩, vec, count, stored, rest⟩
        obtain ⟨isVec, isCount⟩ := (stores vec count).1 ⟨index, below, stored⟩
        obtain ⟨lane, bound, rfl⟩ := rest
        exact ⟨vec, isVec, count, isCount, lane, bound, rfl⟩
      · rintro ⟨vec, isVec, count, isCount, lane, bound, rfl⟩
        obtain ⟨index, below, stored⟩ := (stores vec count).2 ⟨isVec, isCount⟩
        exact ⟨index, ⟨Nat.lt_of_lt_of_le below enough, below⟩, vec, count, stored, lane, bound, rfl⟩
  unfold runAllReduce
  rw [List.mem_flatMap]
  constructor
  · rintro ⟨rank, listed, mem⟩
    have inside := List.mem_range.1 listed
    obtain ⟨vec, bound, rest⟩ := (ofRank rank inside).1 mem
    have ends := (slice_end some inside).1
    exact ⟨_, by omega, rest⟩
  · rintro ⟨vec, bound, rest⟩
    have last : launch.reductionSize - 1 < launch.reductionSize := by omega
    have ends := (slice_end some last).2.1 rfl
    rcases Nat.lt_or_ge vec ((launch.reductionSize - 1) * launch.sliceVecCount) with less | ge
    · have isRank : vec / launch.sliceVecCount < launch.reductionSize - 1 :=
        Nat.div_lt_of_lt_mul (by rwa [Nat.mul_comm])
      have slice : 0 < launch.sliceVecCount := Nat.pos_of_mul_pos_left (Nat.lt_of_le_of_lt (Nat.zero_le _) less)
      refine ⟨_, List.mem_range.2 (by omega), (ofRank (vec / launch.sliceVecCount) (by omega)).2
        ⟨vec % launch.sliceVecCount, Nat.lt_of_lt_of_le (Nat.mod_lt _ slice) (Nat.le_add_right _ _), ?_⟩⟩
      rwa [Nat.div_add_mod']
    · refine ⟨_, List.mem_range.2 last, (ofRank _ last).2
        ⟨vec - (launch.reductionSize - 1) * launch.sliceVecCount, by omega, ?_⟩⟩
      rwa [Nat.add_sub_cancel' ge]

/-- The elements of the tensors are written, and no others unless the last vector is overrun. -/
theorem mem_runAllReduce_iff (some : 0 < launch.reductionSize) (concurrent : 0 < launch.numMaxConcurrentWorkitem)
    (group : 0 < launch.groupSize) (vectors : 0 < launch.vecSize) (element : Nat) :
    element ∈ launch.runAllReduce ↔ element < launch.elementCount ∨
      launch.Overrun ∧ element < launch.totalVecCount * launch.vecSize := by
  rw [mem_runAllReduce some concurrent group]
  have parts : launch.vecSize * (launch.elementCount / launch.vecSize) + launch.vecTailElementCount =
      launch.elementCount := Nat.div_add_mod _ _
  have tail : launch.vecTailElementCount < launch.vecSize := Nat.mod_lt _ vectors
  have isTotal : launch.totalVecCount =
      launch.elementCount / launch.vecSize + if 0 < launch.vecTailElementCount then 1 else 0 := rfl
  have ofOverrun : launch.Overrun → 0 < launch.vecTailElementCount := And.left
  unfold Lanes StoredInPart
  generalize launch.elementCount / launch.vecSize = vecCount at *
  rw [Nat.mul_comm] at parts
  constructor
  · rintro ⟨vec, bound, count, isCount, lane, below, rfl⟩
    have next := Nat.mul_le_mul_right launch.vecSize (Nat.succ_le_of_lt bound)
    rw [Nat.succ_mul] at next
    rcases Nat.lt_or_ge vec vecCount with isFull | isTail
    · have next := Nat.mul_le_mul_right launch.vecSize (Nat.succ_le_of_lt isFull)
      rw [Nat.succ_mul] at next
      grind
    · have isLast : vec = vecCount := by
        split at isTotal <;> omega
      grind
  · intro inside
    have within : element < launch.totalVecCount * launch.vecSize := by
      rcases inside with inside | ⟨_, inside⟩
      · rw [isTotal, Nat.add_mul]
        split <;> omega
      · exact inside
    have bound := (Nat.div_lt_iff_lt_mul vectors).2 within
    have place := Nat.div_add_mod' element launch.vecSize
    have lane := Nat.mod_lt element vectors
    refine ⟨element / launch.vecSize, bound, ?_⟩
    by_cases inPart : 0 < launch.vecTailElementCount ∧ element / launch.vecSize + 1 = launch.totalVecCount ∧
        ¬launch.Overrun
    · refine ⟨_, ⟨fun _ => rfl, fun other => absurd inPart other⟩, element % launch.vecSize, ?_, place.symm⟩
      have isLast := inPart.2.1
      rw [isTotal, if_pos inPart.1, Nat.add_right_cancel_iff] at isLast
      rw [isLast] at place
      have := inside.resolve_right fun behind => inPart.2.2 behind.1
      omega
    · exact ⟨_, ⟨fun isPart => absurd isPart inPart, fun _ => rfl⟩, _, lane, place.symm⟩

end Stores

end AllReduceLaunch

end Itex.Collectives
