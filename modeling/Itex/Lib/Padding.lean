import Itex.Lib.Reshape

/-!
Contract: tensors with zeros around their entries, and without dims of extent one.

Owns: where an index goes under padding, which entries a padded tensor has, and that a reshape
puts dropped dims of extent one back.
-/

namespace Itex.Lib

/-! ## Padded indices -/

def padExtents : List (Nat × Nat) → List Nat → List Nat
  | (before, after) :: paddings, extent :: extents => (before + extent + after) :: padExtents paddings extents
  | _, _ => []

/-- Where an index goes. -/
def padIndex : List (Nat × Nat) → List Nat → List Nat
  | (before, _) :: paddings, k :: index => (before + k) :: padIndex paddings index
  | _, _ => []

/-- The index that goes to this one. -/
def unpadIndex : List (Nat × Nat) → List Nat → List Nat → Option (List Nat)
  | (before, _) :: paddings, extent :: extents, k :: index =>
    if before ≤ k ∧ k < before + extent then (unpadIndex paddings extents index).map ((k - before) :: ·) else none
  | _, _, _ => some []

section

variable {paddings : List (Nat × Nat)} {extents : List Nat} (sameLength : paddings.length = extents.length)

include sameLength

theorem padIndex_mem {index : List Nat} (mem : index ∈ indices extents) :
    padIndex paddings index ∈ indices (padExtents paddings extents) := by
  induction paddings generalizing extents index with
  | nil =>
    rw [List.eq_nil_of_length_eq_zero sameLength.symm]
    exact mem_indices_nil.2 rfl
  | cons padding paddings ih =>
    match extents, sameLength with
    | extent :: extents, sameLength =>
      obtain ⟨k, rest, rfl, bound, isRest⟩ := mem_indices_cons.1 mem
      exact mem_indices_cons.2 ⟨_, _, rfl, by omega, ih (Nat.succ.inj sameLength) isRest⟩

theorem unpadIndex_eq_some_iff {index inner : List Nat} (sameRank : index.length = extents.length) :
    unpadIndex paddings extents index = some inner ↔ inner ∈ indices extents ∧ padIndex paddings inner = index := by
  induction paddings generalizing extents index inner with
  | nil =>
    rw [List.eq_nil_of_length_eq_zero sameLength.symm] at sameRank ⊢
    have isNone : index = [] := List.eq_nil_of_length_eq_zero sameRank
    rw [isNone]
    change some [] = some inner ↔ _
    rw [Option.some.injEq, mem_indices_nil]
    constructor
    · intro isInner
      exact ⟨isInner.symm, rfl⟩
    · intro ⟨isInner, _⟩
      exact isInner.symm
  | cons padding paddings ih =>
    match extents, index, sameLength, sameRank with
    | extent :: extents, k :: index, sameLength, sameRank =>
      have later := fun inner => @ih extents (Nat.succ.inj sameLength) index inner (Nat.succ.inj sameRank)
      rw [unpadIndex, mem_indices_cons]
      constructor
      · intro isInner
        split at isInner
        next inside =>
          obtain ⟨rest, isRest, rfl⟩ := Option.map_eq_some_iff.1 isInner
          obtain ⟨mem, isIndex⟩ := (later rest).1 isRest
          refine ⟨⟨_, _, rfl, by omega, mem⟩, ?_⟩
          rw [padIndex, isIndex, Nat.add_sub_cancel' inside.1]
        next => cases isInner
      · rintro ⟨⟨first, rest, rfl, bound, mem⟩, isIndex⟩
        obtain ⟨isFirst, isRest⟩ := List.cons.inj isIndex
        have inside : padding.1 ≤ k ∧ k < padding.1 + extent := by omega
        rw [if_pos inside, (later rest).2 ⟨mem, isRest⟩, ← isFirst, Nat.add_sub_cancel_left]
        rfl

theorem length_padExtents : (padExtents paddings extents).length = extents.length := by
  induction paddings generalizing extents with
  | nil =>
    rw [List.eq_nil_of_length_eq_zero sameLength.symm]
    rfl
  | cons padding paddings ih =>
    match extents, sameLength with
    | extent :: extents, sameLength =>
      exact congrArg Nat.succ (ih (Nat.succ.inj sameLength))

end

namespace Tensor

variable {α : Type} [Zero α]

/-- Zeros before and after the entries of each dim. -/
def pad (x : Tensor α) (paddings : List (Nat × Nat)) : Tensor α :=
  ⟨padExtents paddings x.extents, fun index =>
    match unpadIndex paddings x.extents index with
    | some inner => x.entry inner
    | none => 0⟩

variable {x : Tensor α} {paddings : List (Nat × Nat)}

theorem pad_entry_inside (sameLength : paddings.length = x.extents.length) {inner : List Nat}
    (mem : inner ∈ indices x.extents) : (x.pad paddings).entry (padIndex paddings inner) = x.entry inner := by
  have sameRank := length_of_mem_indices (padIndex_mem sameLength mem)
  rw [length_padExtents sameLength] at sameRank
  unfold pad
  dsimp only
  rw [(unpadIndex_eq_some_iff sameLength sameRank).2 ⟨mem, rfl⟩]

theorem pad_entry_outside (sameLength : paddings.length = x.extents.length) {index : List Nat}
    (sameRank : index.length = x.extents.length)
    (outside : ∀ inner ∈ indices x.extents, padIndex paddings inner ≠ index) : (x.pad paddings).entry index = 0 := by
  unfold pad
  dsimp only
  cases isInner : unpadIndex paddings x.extents index with
  | none => rfl
  | some inner =>
    obtain ⟨mem, isIndex⟩ := (unpadIndex_eq_some_iff sameLength sameRank).1 isInner
    exact absurd isIndex (outside inner mem)

end Tensor

section DropOnes

/-- The flags are set only at dims of extent one. -/
def FlagsOnes (flags : List Bool) (extents : List Nat) : Prop :=
  List.Forall₂ (fun flag extent => flag = true → extent = 1) flags extents

variable {flags : List Bool} {extents : List Nat}

theorem FlagsOnes.prod_project (ones : FlagsOnes flags extents) : (project none flags extents).prod = extents.prod := by
  induction ones with
  | nil => rfl
  | @cons flag extent flags extents isOne _ ih =>
    cases flag with
    | false => rw [project, List.prod_cons, List.prod_cons, ih]
    | true =>
      rw [project, List.prod_cons, isOne rfl, Nat.one_mul, ← ih]
      rfl

/-- A reshape to fewer dims drops coordinates. -/
theorem FlagsOnes.ofRowMajor (ones : FlagsOnes flags extents) {index : List Nat} (mem : index ∈ indices extents) :
    ofRowMajor (project none flags extents) (rowMajor extents index) = project none flags index := by
  induction ones generalizing index with
  | nil =>
    rw [mem_indices_nil.1 mem]
    rfl
  | @cons flag extent flags extents isOne later ih =>
    obtain ⟨k, rest, rfl, bound, isRest⟩ := mem_indices_cons.1 mem
    cases flag with
    | false =>
      have below := rowMajor_lt isRest
      rw [← FlagsOnes.prod_project later] at below
      rw [project, project, rowMajor, ← FlagsOnes.prod_project later, ofRowMajor_cons below, ih isRest]
    | true =>
      have isZero : k = 0 := by
        have single := isOne rfl
        omega
      rw [rowMajor, isZero, Nat.zero_mul, Nat.zero_add]
      exact ih isRest

theorem FlagsOnes.exists_project (ones : FlagsOnes flags extents) {position : List Nat}
    (mem : position ∈ indices (project none flags extents)) :
    ∃ index ∈ indices extents, project none flags index = position := by
  induction ones generalizing position with
  | nil =>
    rw [mem_indices_nil.1 mem]
    exact ⟨[], mem_indices_nil.2 rfl, rfl⟩
  | @cons flag extent flags extents isOne _ ih =>
    cases flag with
    | false =>
      obtain ⟨k, rest, rfl, bound, isRest⟩ := mem_indices_cons.1 mem
      obtain ⟨index, isIndex, isPosition⟩ := ih isRest
      exact ⟨k :: index, mem_indices_cons.2 ⟨_, _, rfl, bound, isIndex⟩, by rw [project, isPosition]⟩
    | true =>
      obtain ⟨index, isIndex, isPosition⟩ := ih mem
      refine ⟨0 :: index, mem_indices_cons.2 ⟨_, _, rfl, ?_, isIndex⟩, isPosition⟩
      rw [isOne rfl]
      exact Nat.one_pos

end DropOnes

end Itex.Lib
