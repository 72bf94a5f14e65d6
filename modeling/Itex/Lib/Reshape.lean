import Itex.Lib.Tensor

/-!
Contract: tensors of another shape with the same entries, in row-major order.

Owns: row-major positions, reshapes, concatenations along one dim, and that the reshapes of
the parts of a dim are the parts of the reshape when all dims before it stay.
-/

namespace Itex.Lib

/-! ## Row-major order -/

/-- The position of an index. -/
def rowMajor : List Nat → List Nat → Nat
  | _ :: extents, k :: rest => k * extents.prod + rowMajor extents rest
  | _, _ => 0

/-- The index at a position. -/
def ofRowMajor : List Nat → Nat → List Nat
  | [], _ => []
  | _ :: extents, position => position / extents.prod :: ofRowMajor extents (position % extents.prod)

theorem rowMajor_lt {extents index : List Nat} (mem : index ∈ indices extents) :
    rowMajor extents index < extents.prod := by
  induction extents generalizing index with
  | nil =>
    rw [mem_indices_nil.1 mem]
    exact Nat.one_pos
  | cons extent extents ih =>
    obtain ⟨k, rest, isIndex, bound, isRest⟩ := mem_indices_cons.1 mem
    have later := ih isRest
    rw [isIndex, rowMajor, List.prod_cons]
    calc
      k * extents.prod + rowMajor extents rest < k * extents.prod + extents.prod := by omega
      _ = (k + 1) * extents.prod := (Nat.succ_mul _ _).symm
      _ ≤ extent * extents.prod := Nat.mul_le_mul_right _ bound

theorem ofRowMajor_cons {extent k position : Nat} {extents : List Nat} (later : position < extents.prod) :
    ofRowMajor (extent :: extents) (k * extents.prod + position) = k :: ofRowMajor extents position := by
  rw [ofRowMajor, Nat.mul_comm, Nat.mul_add_div (Nat.zero_lt_of_lt later), Nat.div_eq_of_lt later, Nat.add_zero,
    Nat.mul_add_mod, Nat.mod_eq_of_lt later]

section Slice

variable {lead xs ys : List Nat} {x y offset offset' size size' : Nat}

theorem shiftAt_mem_indices (within : offset' + size' ≤ y) {index : List Nat}
    (mem : index ∈ indices (lead ++ size' :: ys)) :
    shiftAt lead.length offset' index ∈ indices (lead ++ y :: ys) := by
  induction lead generalizing index with
  | nil =>
    obtain ⟨k, rest, isIndex, bound, isRest⟩ := mem_indices_cons.1 mem
    rw [isIndex]
    exact mem_indices_cons.2 ⟨k + offset', rest, rfl, by omega, isRest⟩
  | cons extent lead ih =>
    obtain ⟨k, rest, isIndex, bound, isRest⟩ := mem_indices_cons.1 mem
    rw [isIndex]
    exact mem_indices_cons.2 ⟨k, _, rfl, bound, ih isRest⟩

theorem prod_append_cons (sameCount : size * xs.prod = size' * ys.prod) :
    (lead ++ size :: xs).prod = (lead ++ size' :: ys).prod := by
  rw [List.prod_append, List.prod_append, List.prod_cons, List.prod_cons, sameCount]

/-- The entries of a part that a reshape reads are those that the reshape of the whole reads
in the same part. -/
theorem ofRowMajor_shiftAt (pos : 0 < xs.prod) (sameOffset : offset * xs.prod = offset' * ys.prod)
    (sameSize : size * xs.prod = size' * ys.prod) (sameCount : x * xs.prod = y * ys.prod)
    (within : offset' + size' ≤ y) {index : List Nat} (mem : index ∈ indices (lead ++ size' :: ys)) :
    shiftAt lead.length offset (ofRowMajor (lead ++ size :: xs) (rowMajor (lead ++ size' :: ys) index)) =
      ofRowMajor (lead ++ x :: xs) (rowMajor (lead ++ y :: ys) (shiftAt lead.length offset' index)) := by
  induction lead generalizing index with
  | nil =>
    obtain ⟨k, rest, isIndex, _, _⟩ := mem_indices_cons.1 mem
    rw [isIndex]
    change (_ / xs.prod + offset) :: ofRowMajor xs (_ % xs.prod) =
      ((k + offset') * ys.prod + _) / xs.prod :: ofRowMajor xs (((k + offset') * ys.prod + _) % xs.prod)
    have moved : (k + offset') * ys.prod + rowMajor ys rest =
        rowMajor (size' :: ys) (k :: rest) + offset * xs.prod := by
      rw [rowMajor, Nat.add_mul, sameOffset]
      omega
    rw [moved, Nat.add_mul_div_right _ _ pos, Nat.add_mul_mod_self_right]
    rfl
  | cons extent lead ih =>
    rw [List.cons_append] at mem
    obtain ⟨k, rest, isIndex, _, isRest⟩ := mem_indices_cons.1 mem
    have before := rowMajor_lt isRest
    have after := rowMajor_lt (shiftAt_mem_indices within isRest)
    rw [← prod_append_cons sameSize] at before
    rw [← prod_append_cons sameCount] at after
    rw [isIndex]
    change shiftAt (lead.length + 1) offset (ofRowMajor (extent :: (lead ++ size :: xs))
        (k * (lead ++ size' :: ys).prod + rowMajor (lead ++ size' :: ys) rest)) =
      ofRowMajor (extent :: (lead ++ x :: xs)) (k * (lead ++ y :: ys).prod +
        rowMajor (lead ++ y :: ys) (shiftAt lead.length offset' rest))
    rw [← prod_append_cons sameSize, ← prod_append_cons sameCount, ofRowMajor_cons before, ofRowMajor_cons after,
      ← ih isRest]
    rfl

end Slice

namespace Tensor

variable {α : Type}

/-- The tensor with other extents, and its entries in the same order. -/
def reshape (x : Tensor α) (target : List Nat) : Tensor α :=
  ⟨target, fun index => x.entry (ofRowMajor x.extents (rowMajor target index))⟩

/-- The pieces one after the other along a dim. -/
def Concatenates (dim : Nat) (pieces : List (Tensor α)) (whole : Tensor α) : Prop :=
  ∃ sizes, whole.extents[dim]? = some sizes.sum ∧
    List.Forall₂ (fun piece part => piece.Same (whole.slice dim part.1 part.2)) pieces (parts 0 sizes)

variable {x : Tensor α} {lead xs ys : List Nat}

theorem reshape_slice {extent target offset offset' size size' : Nat} (isExtents : x.extents = lead ++ extent :: xs)
    (pos : 0 < xs.prod) (sameCount : extent * xs.prod = target * ys.prod)
    (sameOffset : offset * xs.prod = offset' * ys.prod) (sameSize : size * xs.prod = size' * ys.prod)
    (within : offset' + size' ≤ target) : ((x.slice lead.length offset size).reshape (lead ++ size' :: ys)).Same
      ((x.reshape (lead ++ target :: ys)).slice lead.length offset' size') := by
  have set_lead : ∀ (first other : Nat) (rest : List Nat),
      (lead ++ first :: rest).set lead.length other = lead ++ other :: rest := by
    intro first other rest
    rw [List.set_append_right _ _ (Nat.le_refl _), Nat.sub_self, List.set_cons_zero]
  constructor
  · exact (set_lead target size' ys).symm
  · intro index mem
    change x.entry (shiftAt lead.length offset (ofRowMajor (x.extents.set lead.length size) _)) =
      x.entry (ofRowMajor x.extents _)
    rw [isExtents, set_lead]
    exact congrArg x.entry (ofRowMajor_shiftAt pos sameOffset sameSize sameCount within mem)

section Parts

variable {sizes sizes' : List Nat}

theorem sum_mul_prod (sameCounts : List.Forall₂ (fun size size' => size * xs.prod = size' * ys.prod) sizes sizes') :
    sizes.sum * xs.prod = sizes'.sum * ys.prod := by
  induction sameCounts with
  | nil => rw [List.sum_nil, Nat.zero_mul, Nat.zero_mul]
  | cons head _ ih =>
    rw [List.sum_cons, List.sum_cons, Nat.add_mul, Nat.add_mul, head, ih]

theorem reshape_parts {extent target offset offset' : Nat} (isExtents : x.extents = lead ++ extent :: xs)
    (pos : 0 < xs.prod) (sameCount : extent * xs.prod = target * ys.prod)
    (sameOffset : offset * xs.prod = offset' * ys.prod)
    (sameCounts : List.Forall₂ (fun size size' => size * xs.prod = size' * ys.prod) sizes sizes')
    (within : offset' + sizes'.sum ≤ target) : List.Forall₂
      (fun piece part => Same piece ((x.reshape (lead ++ target :: ys)).slice lead.length part.1 part.2))
      (List.zipWith (fun part size' => (x.slice lead.length part.1 part.2).reshape (lead ++ size' :: ys))
        (parts offset sizes) sizes') (parts offset' sizes') := by
  induction sameCounts generalizing offset offset' with
  | nil => exact .nil
  | cons head _ ih =>
    rw [List.sum_cons] at within
    refine .cons (reshape_slice isExtents pos sameCount sameOffset head (by omega)) ?_
    apply ih
    · rw [Nat.add_mul, Nat.add_mul, sameOffset, head]
    · omega

theorem concatenates_reshape (isExtents : x.extents = lead ++ sizes.sum :: xs) (pos : 0 < xs.prod)
    (sameCounts : List.Forall₂ (fun size size' => size * xs.prod = size' * ys.prod) sizes sizes') :
    Concatenates lead.length
      (List.zipWith (fun part size' => (x.slice lead.length part.1 part.2).reshape (lead ++ size' :: ys))
        (parts 0 sizes) sizes') (x.reshape (lead ++ sizes'.sum :: ys)) := by
  refine ⟨sizes', ?_, ?_⟩
  · change (lead ++ sizes'.sum :: ys)[lead.length]? = _
    rw [List.getElem?_append_right (Nat.le_refl _), Nat.sub_self, List.getElem?_cons_zero]
  · apply reshape_parts isExtents pos (sum_mul_prod sameCounts) _ sameCounts (Nat.le_of_eq (Nat.zero_add _))
    rw [Nat.zero_mul, Nat.zero_mul]

end Parts

end Tensor

end Itex.Lib
