import Mathlib

/-!
Contract: `BCast` (`itex/core/utils/bcast.h`), as far as gradients read it.

Owns: the shape that two shapes broadcast to, the dims to sum a gradient over, and which dims
these are.

The constructor runs with `fewer_dims_optimization`.
-/

namespace Itex.Utils

variable {largestRank : Nat} {shape : List Nat}

/-- `output_` and the two `grad_reduce_idx_`. -/
structure BCast where
  outputShape : List Nat
  gradXReduceIdx : List Nat
  gradYReduceIdx : List Nat
deriving DecidableEq

namespace BCast

/-- The loop over the dims from the inner-most one on, with what it pushes back in order; none
for shapes that are not compatible. -/
def loop (largestRank : Nat) : Nat → List (Nat × Nat) → Option BCast
  | _, [] => some ⟨[], [], []⟩
  | j, (x, y) :: rest => do
    if x ≠ 1 ∧ y ≠ 1 ∧ x ≠ y then none
    else
      let later ← loop largestRank (j + 1) rest
      let dim := largestRank - 1 - j
      if x = 1 ∧ y = 1 then
        -- All dimensions are 1.
        return ⟨1 :: later.outputShape, dim :: later.gradXReduceIdx, dim :: later.gradYReduceIdx⟩
      else
        return {
          outputShape := (if x = 1 then y else x) :: later.outputShape
          gradXReduceIdx := if x = 1 then dim :: later.gradXReduceIdx else later.gradXReduceIdx
          gradYReduceIdx := if y = 1 then dim :: later.gradYReduceIdx else later.gradYReduceIdx }

def aligned (largestRank : Nat) (shape : List Nat) : List Nat :=
  List.replicate (largestRank - shape.length) 1 ++ shape

def ofShapes (x y : List Nat) : Option BCast :=
  -- Fast path for common case of identical shapes.
  if x = y then some ⟨x, [], []⟩
  else
    let largestRank := max x.length y.length
    (loop largestRank 0 ((aligned largestRank x).reverse.zip (aligned largestRank y).reverse)).map fun pushed =>
      ⟨pushed.outputShape.reverse, pushed.gradXReduceIdx.reverse, pushed.gradYReduceIdx.reverse⟩

def gradReduceIdx (bcast : BCast) (i : Nat) : List Nat :=
  if i = 0 then bcast.gradXReduceIdx else bcast.gradYReduceIdx

/-! ## The dims to sum over -/

/-- The dims of extent one, as the loop numbers them. -/
def ones (largestRank : Nat) : Nat → List Nat → List Nat
  | _, [] => []
  | j, x :: rest =>
    if x = 1 then (largestRank - 1 - j) :: ones largestRank (j + 1) rest else ones largestRank (j + 1) rest

theorem mem_ones {j dim : Nat} :
    dim ∈ ones largestRank j shape ↔ ∃ m, shape[m]? = some 1 ∧ dim = largestRank - 1 - (j + m) := by
  induction shape generalizing j with
  | nil =>
    constructor
    · intro mem
      cases mem
    · intro ⟨m, atM, _⟩
      cases atM
  | cons x rest ih =>
    have later : (∃ m, (x :: rest)[m]? = some 1 ∧ dim = largestRank - 1 - (j + m)) ↔
        (x = 1 ∧ dim = largestRank - 1 - j) ∨ dim ∈ ones largestRank (j + 1) rest := by
      rw [ih]
      constructor
      · grind
      · intro either
        rcases either with ⟨isOne, isDim⟩ | ⟨m, atM, isDim⟩
        · exact ⟨0, by rw [isOne]; rfl, isDim⟩
        · exact ⟨m + 1, atM, by rw [isDim]; congr 1; omega⟩
    rw [later, ones]
    split
    next isOne => rw [List.mem_cons, and_iff_right isOne]
    next notOne =>
      constructor
      · exact Or.inr
      · intro either
        exact either.resolve_left fun isOne => notOne isOne.1

theorem loop_eq_some {j : Nat} {pairs : List (Nat × Nat)} {pushed : BCast}
    (isPushed : loop largestRank j pairs = some pushed) :
    pushed.gradXReduceIdx = ones largestRank j (pairs.map Prod.fst) ∧
      pushed.gradYReduceIdx = ones largestRank j (pairs.map Prod.snd) ∧
      List.Forall₂ (fun pair extent => (pair.1 ≠ 1 → extent = pair.1) ∧ (pair.2 ≠ 1 → extent = pair.2)) pairs
        pushed.outputShape := by
  induction pairs generalizing j pushed with
  | nil =>
    cases isPushed
    exact ⟨rfl, rfl, List.Forall₂.nil⟩
  | cons pair rest ih =>
    obtain ⟨x, y⟩ := pair
    rw [loop] at isPushed
    split at isPushed
    · cases isPushed
    next compatible =>
      obtain ⟨later, isLater, isPushed⟩ := Option.bind_eq_some_iff.1 isPushed
      obtain ⟨xReduce, yReduce, output⟩ := ih isLater
      dsimp only at isPushed
      rw [List.map_cons, List.map_cons, ones, ones, ← xReduce, ← yReduce]
      split at isPushed
      next both =>
        cases isPushed
        dsimp only
        rw [if_pos both.1, if_pos both.2]
        exact ⟨rfl, rfl, List.Forall₂.cons ⟨fun notOne => absurd both.1 notOne, fun notOne => absurd both.2 notOne⟩
          output⟩
      next notBoth =>
        cases isPushed
        refine ⟨rfl, rfl, List.Forall₂.cons ⟨?_, ?_⟩ output⟩
        · intro notOne
          exact if_neg notOne
        · intro notOne
          dsimp only at notOne ⊢
          split
          · rfl
          next xNotOne =>
            by_contra ne
            exact compatible ⟨xNotOne, notOne, ne⟩

section Shapes

variable {x y : List Nat} {bcast : BCast}

theorem length_aligned (small : shape.length ≤ largestRank) :
    (aligned largestRank shape).length = largestRank := by
  rw [aligned, List.length_append, List.length_replicate]
  omega

theorem mem_ones_reverse {dim : Nat} (isRank : shape.length = largestRank) :
    dim ∈ (ones largestRank 0 shape.reverse).reverse ↔ shape[dim]? = some 1 := by
  rw [List.mem_reverse, mem_ones]
  constructor
  · grind
  · intro atDim
    have bound := (List.getElem?_eq_some_iff.1 atDim).1
    refine ⟨largestRank - 1 - dim, ?_, by omega⟩
    rw [List.getElem?_reverse (by omega), isRank]
    have isDim : largestRank - 1 - (largestRank - 1 - dim) = dim := by omega
    rw [isDim]
    exact atDim

/-- What the constructor makes of two different shapes. -/
structure Broadcasts (x y : List Nat) (bcast : BCast) : Prop where
  length : bcast.outputShape.length = max x.length y.length
  xReduce : ∀ dim, dim ∈ bcast.gradXReduceIdx ↔ (aligned (max x.length y.length) x)[dim]? = some 1
  yReduce : ∀ dim, dim ∈ bcast.gradYReduceIdx ↔ (aligned (max x.length y.length) y)[dim]? = some 1
  xOutput : List.Forall₂ (fun own extent => own ≠ 1 → extent = own) (aligned (max x.length y.length) x)
    bcast.outputShape
  yOutput : List.Forall₂ (fun own extent => own ≠ 1 → extent = own) (aligned (max x.length y.length) y)
    bcast.outputShape

theorem ofShapes_self (x : List Nat) : ofShapes x x = some ⟨x, [], []⟩ := if_pos rfl

theorem broadcasts_of_ne (isBCast : ofShapes x y = some bcast) (ne : x ≠ y) : Broadcasts x y bcast := by
  unfold ofShapes at isBCast
  rw [if_neg ne] at isBCast
  obtain ⟨pushed, isPushed, rfl⟩ := Option.map_eq_some_iff.1 isBCast
  obtain ⟨xReduce, yReduce, output⟩ := loop_eq_some isPushed
  have xLength := length_aligned (Nat.le_max_left x.length y.length)
  have yLength := length_aligned (Nat.le_max_right x.length y.length)
  have sameLength : (aligned (max x.length y.length) x).reverse.length =
      (aligned (max x.length y.length) y).reverse.length := by
    rw [List.length_reverse, List.length_reverse, xLength, yLength]
  have firsts := List.map_fst_zip (Nat.le_of_eq sameLength)
  have seconds := List.map_snd_zip (Nat.le_of_eq sameLength.symm)
  rw [firsts] at xReduce
  rw [seconds] at yReduce
  have xOutput : List.Forall₂ (fun own extent => own ≠ 1 → extent = own)
      (aligned (max x.length y.length) x).reverse pushed.outputShape := by
    rw [← firsts, List.forall₂_map_left_iff]
    exact output.imp fun pair extent both => both.1
  have yOutput : List.Forall₂ (fun own extent => own ≠ 1 → extent = own)
      (aligned (max x.length y.length) y).reverse pushed.outputShape := by
    rw [← seconds, List.forall₂_map_left_iff]
    exact output.imp fun pair extent both => both.2
  constructor
  · dsimp only
    rw [List.length_reverse, ← xOutput.length_eq, List.length_reverse, xLength]
  · intro dim
    dsimp only
    rw [xReduce]
    exact mem_ones_reverse xLength
  · intro dim
    dsimp only
    rw [yReduce]
    exact mem_ones_reverse yLength
  · rw [← List.forall₂_reverse_iff, List.reverse_reverse]
    exact xOutput
  · rw [← List.forall₂_reverse_iff, List.reverse_reverse]
    exact yOutput

end Shapes

end BCast

end Itex.Utils
