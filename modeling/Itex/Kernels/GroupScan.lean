import Mathlib

/-!
Contract: the exclusive sums of one work group (`utils/group_scan.h`).

Owns: the scan of a sub-group by shifts, the prefixes of the sub-groups, and that together they
are the sums of the inputs before each work item.

Sums are in any commutative group. Work items run in lock step between barriers: the values
of all of them are one function of the local id.
-/

namespace Itex.Kernels

open Finset

/-- `Log2<N>::VALUE`, rounded up: the recursion of the template counts the bits of `N`. -/
def log2 (n : Nat) : Nat :=
  let count := n.log2 + 1
  if 2 ^ (count - 1) < n then count else count - 1

theorem le_two_pow_log2 (n : Nat) : n ≤ 2 ^ log2 n := by
  unfold log2
  dsimp only
  rw [Nat.add_sub_cancel]
  split
  · exact Nat.le_of_lt Nat.lt_log2_self
  · omega

theorem foldl_add_eq_sum {T : Type} [AddCommMonoid T] (f : Nat → T) (count : Nat) (start : T) :
    (List.range count).foldl (fun sum i => sum + f i) start = start + ∑ i ∈ range count, f i := by
  induction count with
  | zero => simp
  | succ count ih =>
    rw [List.range_succ, List.foldl_append, ih, List.foldl_cons, List.foldl_nil, sum_range_succ, add_assoc]

/-- The template parameters of `GroupScan`. -/
structure GroupScan where
  subGroupSize : Nat
  subGroupRange : Nat

namespace GroupScan

variable {T : Type} [AddCommGroup T]

def groupSize (scan : GroupScan) : Nat := scan.subGroupRange * scan.subGroupSize

/-- One round of `SubGroupScan`: a shift to the right by `2 ^ i`, added where it comes from the
same sub-group. -/
def shiftAdd (scan : GroupScan) (inclusiveSum : Nat → T) (i : Nat) : Nat → T := fun localId =>
  if 2 ^ i ≤ localId % scan.subGroupSize then inclusiveSum localId + inclusiveSum (localId - 2 ^ i)
  else inclusiveSum localId

def inclusiveSum (scan : GroupScan) (input : Nat → T) : Nat → T :=
  (List.range (log2 scan.subGroupSize)).foldl scan.shiftAdd input

/-- `ComputeSgPrefix`: what the loop over the sub-groups holds at this one, and the sum of the
whole group. -/
def computeSgPrefix (scan : GroupScan) (sgSum : Nat → T) (init : T) (sgId : Nat) : T × T :=
  (List.range scan.subGroupRange).foldl
    (fun sums i => (if sgId = i then sums.2 else sums.1,
      sums.2 + sgSum (i * scan.subGroupSize + scan.subGroupSize - 1))) (0, init)

/-- `ExclusiveSum`: the output of each work item. -/
def exclusiveSum (scan : GroupScan) (input : Nat → T) (init : T) : Nat → T := fun localId =>
  scan.inclusiveSum input localId - input localId +
    (scan.computeSgPrefix (scan.inclusiveSum input) init (localId / scan.subGroupSize)).1

def groupSum (scan : GroupScan) (input : Nat → T) (init : T) : T :=
  (scan.computeSgPrefix (scan.inclusiveSum input) init 0).2

def exclusiveSumWith (scan : GroupScan) (input : Nat → T) (callback : T → T) : Nat → T :=
  fun localId =>
    let groupPrefix := callback (scan.groupSum input 0)
    if localId = 0 then groupPrefix else scan.exclusiveSum input 0 localId + groupPrefix

section SubGroup

variable (scan : GroupScan) (input : Nat → T)

theorem shiftAdd_apply (inclusiveSum : Nat → T) (i localId : Nat) :
    scan.shiftAdd inclusiveSum i localId = if 2 ^ i ≤ localId % scan.subGroupSize then
      inclusiveSum localId + inclusiveSum (localId - 2 ^ i) else inclusiveSum localId := rfl

/-- After `i` rounds a work item holds the sum of the last `2 ^ i` inputs, as far as they belong to
its sub-group. -/
theorem foldl_shiftAdd (i localId : Nat) : (List.range i).foldl scan.shiftAdd input localId =
      (∑ j ∈ range (localId + 1), input j) -
        ∑ j ∈ range (max (localId - localId % scan.subGroupSize) (localId + 1 - 2 ^ i)), input j := by
  induction i generalizing localId with
  | zero =>
    have start : max (localId - localId % scan.subGroupSize) (localId + 1 - 2 ^ 0) = localId := by
      omega
    rw [start, sum_range_succ, add_sub_cancel_left]
    rfl
  | succ i ih =>
    rw [List.range_succ, List.foldl_append, List.foldl_cons, List.foldl_nil, shiftAdd_apply]
    have double : 2 ^ (i + 1) = 2 ^ i + 2 ^ i := by omega
    have small := Nat.mod_le localId scan.subGroupSize
    split
    next inside =>
      have sameStart : localId - 2 ^ i - (localId - 2 ^ i) % scan.subGroupSize =
          localId - localId % scan.subGroupSize := by
        rw [← Nat.mod_sub_of_le inside]
        omega
      have start : max (localId - localId % scan.subGroupSize) (localId + 1 - 2 ^ i) = localId - 2 ^ i + 1 := by omega
      have further : localId - 2 ^ i + 1 - 2 ^ i = localId + 1 - 2 ^ (i + 1) := by omega
      rw [ih, ih, sameStart, start, further]
      abel
    next outside =>
      grind

theorem inclusiveSum_eq (pos : 0 < scan.subGroupSize) (localId : Nat) :
    scan.inclusiveSum input localId = (∑ j ∈ range (localId + 1), input j) -
      ∑ j ∈ range (localId / scan.subGroupSize * scan.subGroupSize), input j := by
  unfold inclusiveSum
  have enough := le_two_pow_log2 scan.subGroupSize
  have inside := Nat.mod_lt localId pos
  have parts := Nat.div_add_mod' localId scan.subGroupSize
  have start : max (localId - localId % scan.subGroupSize)
      (localId + 1 - 2 ^ log2 scan.subGroupSize) = localId / scan.subGroupSize * scan.subGroupSize := by omega
  rw [foldl_shiftAdd, start]

end SubGroup

section Group

variable (scan : GroupScan) (input : Nat → T) (init : T)

section

variable (pos : 0 < scan.subGroupSize)

include pos

theorem foldl_sgPrefix (sgId count : Nat) :
    (List.range count).foldl (fun sums i => (if sgId = i then sums.2 else sums.1,
        sums.2 + scan.inclusiveSum input (i * scan.subGroupSize + scan.subGroupSize - 1))) ((0, init) : T × T) =
    (if sgId < count then init + ∑ j ∈ range (sgId * scan.subGroupSize), input j else 0,
      init + ∑ j ∈ range (count * scan.subGroupSize), input j) := by
  induction count with
  | zero => simp
  | succ count ih =>
    rw [List.range_succ, List.foldl_append, ih, List.foldl_cons, List.foldl_nil]
    have last : count * scan.subGroupSize + scan.subGroupSize - 1 + 1 = (count + 1) * scan.subGroupSize := by
      rw [Nat.add_mul, Nat.one_mul]
      omega
    have block : (count * scan.subGroupSize + scan.subGroupSize - 1) / scan.subGroupSize = count := by
      have within : (scan.subGroupSize - 1) / scan.subGroupSize = 0 :=
        Nat.div_eq_of_lt (by omega)
      rw [Nat.add_sub_assoc pos, Nat.add_comm, Nat.add_mul_div_right _ _ pos, within, Nat.zero_add]
    rw [inclusiveSum_eq scan input pos, last, block]
    refine Prod.ext ?_ ?_
    · grind
    · show init + _ + (_ - _) = init + _
      abel

theorem groupSum_eq : scan.groupSum input init = init + ∑ j ∈ range scan.groupSize, input j := by
  unfold groupSum computeSgPrefix
  rw [foldl_sgPrefix scan input init pos]
  rfl

theorem exclusiveSum_eq {localId : Nat} (inside : localId < scan.groupSize) :
    scan.exclusiveSum input init localId = init + ∑ j ∈ range localId, input j := by
  have sgInside : localId / scan.subGroupSize < scan.subGroupRange :=
    (Nat.div_lt_iff_lt_mul pos).2 inside
  unfold exclusiveSum computeSgPrefix
  rw [foldl_sgPrefix scan input init pos, if_pos sgInside, inclusiveSum_eq scan input pos, sum_range_succ]
  dsimp only
  abel

theorem exclusiveSumWith_eq (callback : T → T) {localId : Nat}
    (inside : localId < scan.groupSize) : scan.exclusiveSumWith input callback localId =
      callback (∑ j ∈ range scan.groupSize, input j) + ∑ j ∈ range localId, input j := by
  unfold exclusiveSumWith
  rw [groupSum_eq scan input 0 pos, zero_add]
  split
  next isFirst => rw [isFirst, range_zero, sum_empty, add_zero]
  next => rw [exclusiveSum_eq scan input 0 pos inside, zero_add, add_comm]

end

end Group

end GroupScan

end Itex.Kernels
