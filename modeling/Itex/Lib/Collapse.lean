import Itex.Lib.Reshape

/-!
Contract: reductions of a tensor in a view with fewer dims.

Owns: the place of an entry among the kept dims, the views in which each entry has the same
place, and that a reduction may be done in any of these.
-/

set_option autoImplicit false

namespace Itex.Lib

variable {extents index : List Nat} {position : Nat}

theorem range_mul (rows columns : Nat) : List.range (rows * columns) =
    (List.range rows).flatMap fun k => (List.range columns).map (k * columns + ·) := by
  induction rows with
  | zero => rw [Nat.zero_mul, List.range_zero, List.flatMap_nil]
  | succ rows ih =>
    rw [Nat.succ_mul, List.range_add, ih, List.range_succ, List.flatMap_append, List.flatMap_singleton]

theorem indices_eq_map (extents : List Nat) :
    indices extents = (List.range extents.prod).map (ofRowMajor extents) := by
  induction extents with
  | nil => rfl
  | cons extent extents ih =>
    rw [indices, List.prod_cons, range_mul, List.map_flatMap, ih]
    apply List.flatMap_congr
    intro k _
    rw [List.map_map, List.map_map]
    apply List.map_congr_left
    intro position bound
    exact (ofRowMajor_cons (List.mem_range.1 bound)).symm

theorem rowMajor_ofRowMajor (bound : position < extents.prod) :
    rowMajor extents (ofRowMajor extents position) = position := by
  induction extents generalizing position with
  | nil => exact (Nat.lt_one_iff.1 bound).symm
  | cons extent extents ih =>
    rw [List.prod_cons] at bound
    have pos : 0 < extents.prod := Nat.pos_of_mul_pos_left (Nat.zero_lt_of_lt bound)
    rw [ofRowMajor, rowMajor, ih (Nat.mod_lt _ pos), Nat.div_add_mod']

theorem ofRowMajor_rowMajor (mem : index ∈ indices extents) :
    ofRowMajor extents (rowMajor extents index) = index := by
  rw [indices_eq_map] at mem
  obtain ⟨position, bound, rfl⟩ := List.mem_map.1 mem
  rw [rowMajor_ofRowMajor (List.mem_range.1 bound)]

theorem ofRowMajor_mem_indices (bound : position < extents.prod) :
    ofRowMajor extents position ∈ indices extents := by
  rw [indices_eq_map]
  exact List.mem_map_of_mem (List.mem_range.2 bound)

/-! ## Dims with their flags -/

def sizesOf (dims : List (Nat × Bool)) : List Nat := dims.map (·.1)

def flagsOf (dims : List (Nat × Bool)) : List Bool := dims.map (·.2)

theorem sizesOf_append (front dims : List (Nat × Bool)) : sizesOf (front ++ dims) = sizesOf front ++ sizesOf dims :=
  List.map_append

/-- The entries of a reduction. -/
def keptCount : List (Nat × Bool) → Nat
  | [] => 1
  | (size, reduced) :: rest => if reduced then keptCount rest else size * keptCount rest

/-- The position, among the entries of a reduction, of the one that an entry goes to. -/
def keptPosition : List (Nat × Bool) → Nat → Nat
  | [], _ => 0
  | (_, reduced) :: rest, position =>
    let later := keptPosition rest (position % (sizesOf rest).prod)
    if reduced then later else position / (sizesOf rest).prod * keptCount rest + later

section Project

variable (keepDims : Bool) (dims : List (Nat × Bool))

theorem prod_project :
    (project (if keepDims then some 1 else none) (flagsOf dims) (sizesOf dims)).prod = keptCount dims := by
  induction dims with
  | nil => rfl
  | cons dim dims ih =>
    obtain ⟨size, reduced⟩ := dim
    cases reduced with
    | false => exact congrArg (size * ·) ih
    | true =>
      cases keepDims with
      | false => exact ih
      | true => exact (Nat.one_mul _).trans ih

theorem rowMajor_project (position : Nat) :
    rowMajor (project (if keepDims then some 1 else none) (flagsOf dims) (sizesOf dims))
        (project (if keepDims then some 0 else none) (flagsOf dims) (ofRowMajor (sizesOf dims) position)) =
      keptPosition dims position := by
  induction dims generalizing position with
  | nil => rfl
  | cons dim dims ih =>
    obtain ⟨size, reduced⟩ := dim
    have later := ih (position % (sizesOf dims).prod)
    cases reduced with
    | false =>
      have counts := congrArg (position / (sizesOf dims).prod * ·) (prod_project keepDims dims)
      exact congrArg₂ (· + ·) counts later
    | true =>
      cases keepDims with
      | false => exact later
      | true => exact (congrArg₂ (· + ·) (Nat.zero_mul _) later).trans (Nat.zero_add _)

end Project

/-! ## Views -/

/-- Each entry goes to the same place in both views. -/
structure Collapses (dims merged : List (Nat × Bool)) : Prop where
  count : (sizesOf dims).prod = (sizesOf merged).prod
  kept : keptCount dims = keptCount merged
  place : ∀ position < (sizesOf dims).prod, keptPosition dims position = keptPosition merged position

namespace Collapses

theorem refl (dims : List (Nat × Bool)) : Collapses dims dims := ⟨rfl, rfl, fun _ _ => rfl⟩

theorem trans {dims merged final : List (Nat × Bool)} (first : Collapses dims merged)
    (second : Collapses merged final) : Collapses dims final := by
  refine ⟨first.count.trans second.count, first.kept.trans second.kept, ?_⟩
  intro position bound
  exact (first.place position bound).trans (second.place position (first.count ▸ bound))

theorem symm {dims merged : List (Nat × Bool)} (collapses : Collapses dims merged) : Collapses merged dims := by
  refine ⟨collapses.count.symm, collapses.kept.symm, ?_⟩
  intro position bound
  exact (collapses.place position (collapses.count ▸ bound)).symm

theorem cons (dim : Nat × Bool) {dims merged : List (Nat × Bool)} (later : Collapses dims merged) :
    Collapses (dim :: dims) (dim :: merged) := by
  obtain ⟨size, reduced⟩ := dim
  refine ⟨congrArg (size * ·) later.count, ?_, ?_⟩
  · rw [keptCount, keptCount, later.kept]
  · intro position bound
    have pos : 0 < (sizesOf dims).prod := Nat.pos_of_mul_pos_left (Nat.zero_lt_of_lt bound)
    rw [keptPosition, keptPosition, ← later.count, ← later.kept, later.place _ (Nat.mod_lt _ pos)]

theorem append (front : List (Nat × Bool)) {dims merged : List (Nat × Bool)} (later : Collapses dims merged) :
    Collapses (front ++ dims) (front ++ merged) := by
  induction front with
  | nil => exact later
  | cons dim front ih => exact ih.cons dim

theorem one (reduced : Bool) (dims : List (Nat × Bool)) : Collapses ((1, reduced) :: dims) dims := by
  refine ⟨Nat.one_mul _, ?_, ?_⟩
  · rw [keptCount, Nat.one_mul, ite_self]
  · intro position bound
    have small : position < (sizesOf dims).prod := (Nat.one_mul (sizesOf dims).prod) ▸ bound
    rw [keptPosition, Nat.mod_eq_of_lt small, Nat.div_eq_of_lt small, Nat.zero_mul, Nat.zero_add, ite_self]

theorem merge (size size' : Nat) (reduced : Bool) (dims : List (Nat × Bool)) :
    Collapses ((size, reduced) :: (size', reduced) :: dims) ((size * size', reduced) :: dims) := by
  refine ⟨(Nat.mul_assoc _ _ _).symm, ?_, ?_⟩
  · cases reduced with
    | false => exact (Nat.mul_assoc _ _ _).symm
    | true => rfl
  · intro position _
    have outer : position / (sizesOf dims).prod =
        position / (size' * (sizesOf dims).prod) * size' + position % (size' * (sizesOf dims).prod) / (sizesOf dims).prod := by
      rw [Nat.mod_mul_left_div_self, Nat.mul_comm size' (sizesOf dims).prod, ← Nat.div_div_eq_div_mul,
        Nat.div_add_mod']
    have counts : (sizesOf ((size', reduced) :: dims)).prod = size' * (sizesOf dims).prod := rfl
    rw [keptPosition, keptPosition, keptPosition, counts, Nat.mod_mul_left_mod]
    cases reduced with
    | true => rfl
    | false =>
      have kept : keptCount ((size', false) :: dims) = size' * keptCount dims := rfl
      rw [if_neg Bool.false_ne_true, if_neg Bool.false_ne_true, if_neg Bool.false_ne_true, outer, kept, Nat.add_mul,
        Nat.mul_assoc, Nat.add_assoc]

end Collapses

namespace Tensor

variable {α β : Type}

theorem fiber_eq (keepDims : Bool) (dims : List (Nat × Bool)) {x : Tensor α} (isExtents : x.extents = sizesOf dims)
    (mem : index ∈ indices (project (if keepDims then some 1 else none) (flagsOf dims) (sizesOf dims))) :
    x.fiber keepDims (flagsOf dims) index =
      ((List.range (sizesOf dims).prod).filter fun position => keptPosition dims position =
        rowMajor (project (if keepDims then some 1 else none) (flagsOf dims) (sizesOf dims)) index).map
          fun position => x.entry (ofRowMajor (sizesOf dims) position) := by
  rw [fiber, fiberIndices, isExtents, indices_eq_map, List.filter_map, List.map_map]
  apply congrArg
  apply List.filter_congr
  intro position inside
  have source := @project_mem_indices keepDims (flagsOf dims) _ _
    (ofRowMajor_mem_indices (List.mem_range.1 inside))
  apply decide_eq_decide.2
  rw [← rowMajor_project keepDims]
  constructor
  · exact congrArg _
  · intro samePlace
    rw [← ofRowMajor_rowMajor mem, ← samePlace, ofRowMajor_rowMajor source]

/-- A reduction may be done in any view in which the entries have the same places. -/
theorem reduce_collapsed {dims merged : List (Nat × Bool)} (collapses : Collapses dims merged)
    (f : List α → β) (keepDims : Bool) {x : Tensor α} (isExtents : x.extents = sizesOf dims) :
    (((x.reshape (sizesOf merged)).reduce f false (flagsOf merged)).reshape
      (project (if keepDims then some 1 else none) (flagsOf dims) (sizesOf dims))).Same
        (x.reduce f keepDims (flagsOf dims)) := by
  constructor
  · change _ = project _ _ x.extents
    rw [isExtents]
    rfl
  · intro index mem
    change index ∈ indices (project _ (flagsOf dims) (sizesOf dims)) at mem
    have bound := rowMajor_lt mem
    rw [prod_project, collapses.kept, ← prod_project false] at bound
    apply congrArg f
    rw [fiber_eq keepDims dims isExtents mem]
    refine (fiber_eq false merged rfl (ofRowMajor_mem_indices bound)).trans ?_
    rw [rowMajor_ofRowMajor bound, ← collapses.count]
    have samePlace : ∀ position ∈ List.range (sizesOf dims).prod,
        keptPosition merged position = keptPosition dims position := by
      intro position inside
      exact (collapses.place position (List.mem_range.1 inside)).symm
    rw [List.filter_congr fun position inside => by rw [samePlace position inside]]
    apply List.map_congr_left
    intro position kept
    have inside := List.mem_range.1 (List.mem_filter.1 kept).1
    change x.entry (ofRowMajor x.extents (rowMajor (sizesOf merged) _)) = _
    rw [rowMajor_ofRowMajor (collapses.count ▸ inside), isExtents]

end Tensor

end Itex.Lib
