import Mathlib

/-!
Contract: the geometry of the tree column reduction (`col_reduction_kernels.h`).

Owns: the tiles, the launches, and when they are legal and cover the tensor.
-/

namespace Itex.Kernels.ColReduction

def divUp (a b : Nat) : Nat := (a + b - 1) / b

/-- `ceil_log2`; `t` counts the bits of a positive number. -/
def ceilLog2 (x : Nat) : Nat :=
  let t := x.log2 + 1
  if x = 2 ^ (t - 1) then t - 1 else t

/-- The loop of the first `compute_tile` ends here. -/
def TileStops (extendY tileZ maxSubGroup numRow : Nat) : Prop :=
  ¬(4 < divUp (numRow * tileZ) 16 * 16 - numRow * tileZ ∧ divUp (numRow * tileZ) 16 < maxSubGroup ∧ numRow < extendY)

instance (extendY tileZ maxSubGroup numRow : Nat) : Decidable (TileStops extendY tileZ maxSubGroup numRow) :=
  inferInstanceAs (Decidable (¬_))

/-- The rows of the first `compute_tile`; its subgroups are as many as their cells need. -/
def computeTile (extendY tileZ maxSubGroup numRow : Nat) : Nat :=
  if TileStops extendY tileZ maxSubGroup numRow then numRow
  else computeTile extendY tileZ maxSubGroup (numRow + 1)
termination_by extendY - numRow
decreasing_by
  unfold TileStops at *
  omega

/-- The second `compute_tile`. -/
def computeTileOf (groupSize extendY tileZ numRow : Nat) : Nat :=
  if numRow * tileZ + 4 < groupSize ∧ numRow < extendY then computeTileOf groupSize extendY tileZ (numRow + 1)
  else if groupSize < numRow * tileZ then numRow - 1 else numRow
termination_by extendY - numRow

structure Launch where
  groupSize : Nat
  extendY : Nat
  tileY : Nat
  tileZ : Nat
  elemsPerThread : Nat
  numSegmentsY : Nat
  steps : Nat
deriving DecidableEq

def tileZ (extendZ : Nat) : Nat := if extendZ > 64 then 16 else extendZ

/-- `TreeColReduction`: the kernels it submits. -/
def treeColReduction (maxGroupSize extendX extendY extendZ : Nat) : List Launch :=
  let tileZ := tileZ extendZ
  let numSegmentsZ := divUp extendZ tileZ
  let tileY := computeTile extendY tileZ (maxGroupSize / 16) 8
  let groupSize := divUp (tileY * tileZ) 16 * 16
  let isFullOccu := extendX * numSegmentsZ > 64 * (maxGroupSize / groupSize)
  let elemsPerThread := divUp extendY tileY
  if ¬isFullOccu ∧ elemsPerThread > 32 then
    let maxElemsPerThread := divUp (numSegmentsZ * extendX * (extendY / tileY)) (4 * 64 * (maxGroupSize / groupSize))
    let minElemsPerThread := divUp (divUp extendY tileY * tileZ) (maxGroupSize * 16)
    let elemsPerThread := max maxElemsPerThread minElemsPerThread
    let numSegmentsY := divUp extendY (tileY * elemsPerThread)
    let tileY₂ := computeTileOf maxGroupSize numSegmentsY tileZ tileY
    [⟨groupSize, extendY, tileY, tileZ, elemsPerThread, numSegmentsY, ceilLog2 tileY⟩,
      ⟨maxGroupSize, numSegmentsY, tileY₂, tileZ, divUp numSegmentsY tileY₂, 1, ceilLog2 tileY₂⟩]
  else [⟨groupSize, extendY, tileY, tileZ, elemsPerThread, 1, ceilLog2 tileY⟩]

/-- `end` after a halving step of the kernel: the `stride` it reduced by. -/
def halve (rows : Nat) : Nat := (rows + 2 - 1) / 2

/-- A group fits the device, each tile cell has a work item, the rows are covered, and the steps leave
one row of the tile. -/
structure Launch.Legal (maxGroupSize : Nat) (launch : Launch) : Prop where
  group : launch.groupSize ≤ maxGroupSize
  cells : launch.tileY * launch.tileZ ≤ launch.groupSize
  elems : 1 ≤ launch.elemsPerThread
  covers : launch.extendY ≤ launch.tileY * launch.elemsPerThread * launch.numSegmentsY
  halves : halve^[launch.steps] launch.tileY = 1

theorem le_mul_divUp (a : Nat) {b : Nat} (pos : 0 < b) : a ≤ b * divUp a b := by
  have parts := Nat.div_add_mod (a + b - 1) b
  have rest := Nat.mod_lt (a + b - 1) pos
  unfold divUp
  omega

theorem one_le_divUp {a b : Nat} (some : 0 < a) (pos : 0 < b) : 1 ≤ divUp a b :=
  (Nat.one_le_div_iff pos).2 (by omega)

theorem iterate_halve {rows steps : Nat} (some : 1 ≤ rows) (enough : rows ≤ 2 ^ steps) : halve^[steps] rows = 1 := by
  induction steps generalizing rows with
  | zero => exact Nat.le_antisymm enough some
  | succ steps ih =>
    rw [Function.iterate_succ_apply]
    rw [Nat.pow_succ] at enough
    unfold halve at ih ⊢
    exact ih (by omega) (by omega)

theorem le_two_pow_ceilLog2 (x : Nat) : x ≤ 2 ^ ceilLog2 x := by
  unfold ceilLog2
  dsimp only
  split
  next isPower => exact Nat.le_of_eq isPower
  next => exact Nat.le_of_lt Nat.lt_log2_self

/-- The first tile at which the loop ends, not one before it. -/
theorem computeTile_spec (extendY tileZ maxSubGroup numRow : Nat) :
    numRow ≤ computeTile extendY tileZ maxSubGroup numRow ∧
      TileStops extendY tileZ maxSubGroup (computeTile extendY tileZ maxSubGroup numRow) ∧
      ∀ row, numRow ≤ row → TileStops extendY tileZ maxSubGroup row →
        computeTile extendY tileZ maxSubGroup numRow ≤ row := by
  induction numRow using computeTile.induct extendY tileZ maxSubGroup with
  | case1 numRow stops =>
    rw [computeTile, if_pos stops]
    exact ⟨Nat.le_refl _, stops, fun row le _ => le⟩
  | case2 numRow goesOn ih =>
    rw [computeTile, if_neg goesOn]
    refine ⟨by omega, ih.2.1, fun row le stops => ih.2.2 row (Nat.lt_of_le_of_ne le ?_) stops⟩
    rintro rfl
    exact goesOn stops

theorem computeTileOf_fits (extendY : Nat) {groupSize tileZ numRow : Nat} (some : 1 < numRow)
    (fits : (numRow - 1) * tileZ ≤ groupSize) : 1 ≤ computeTileOf groupSize extendY tileZ numRow ∧
      computeTileOf groupSize extendY tileZ numRow * tileZ ≤ groupSize := by
  induction numRow using computeTileOf.induct groupSize extendY tileZ with
  | case1 numRow more ih =>
    rw [computeTileOf, if_pos more]
    exact ih (by omega) (by rw [Nat.add_sub_cancel]; omega)
  | case2 numRow done large =>
    rw [computeTileOf, if_neg done, if_pos large]
    exact ⟨by omega, fits⟩
  | case3 numRow done within =>
    rw [computeTileOf, if_neg done, if_neg within]
    exact ⟨Nat.le_of_lt some, Nat.le_of_not_lt within⟩

end Itex.Kernels.ColReduction
