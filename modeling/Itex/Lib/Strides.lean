import Mathlib

/-!
Contract: loops that go over a range in strides.

Owns: the loop, what it keeps and where it stops, and sums over a range taken stride by stride.
-/

namespace Itex.Lib

open Finset

variable {σ : Type}

def strides (size stop : Nat) (body : Nat → σ → σ) (offset : Nat) (state : σ) : Nat × σ :=
  if 0 < size ∧ offset + size ≤ stop then
    strides size stop body (offset + size) (body offset state)
  else (offset, state)
termination_by stop - offset

/-- The loop keeps what each stride keeps, and stops where a stride no longer fits. -/
theorem strides_spec {size stop : Nat} {body : Nat → σ → σ} (inv : Nat → σ → Prop) (pos : 0 < size)
    {offset : Nat} {state : σ} (initial : inv offset state)
    (kept : ∀ offset' state', offset ≤ offset' → offset' + size ≤ stop → inv offset' state' →
      inv (offset' + size) (body offset' state')) :
    inv (strides size stop body offset state).1 (strides size stop body offset state).2 ∧
      offset ≤ (strides size stop body offset state).1 ∧ stop < (strides size stop body offset state).1 + size ∧
      ((strides size stop body offset state).1 ≤ stop ∨ (strides size stop body offset state).1 = offset) := by
  induction offset, state using strides.induct size stop body with
  | case1 offset state more ih =>
    rw [strides, if_pos more]
    have rest := ih (kept offset state (Nat.le_refl _) more.2 initial)
      fun offset' state' le => kept offset' state' (by omega)
    exact ⟨rest.1, by omega, rest.2.2.1, by omega⟩
  | case2 offset state more =>
    rw [strides, if_neg more]
    refine ⟨initial, Nat.le_refl _, ?_, Or.inr rfl⟩
    dsimp only
    omega

theorem sum_rows {T : Type} [AddCommMonoid T] (f : Nat → T) (rows columns : Nat) :
    ∑ i ∈ range (rows * columns), f i = ∑ row ∈ range rows, ∑ column ∈ range columns, f (row * columns + column) := by
  induction rows with
  | zero => simp
  | succ rows ih =>
    rw [Nat.succ_mul, sum_range_add, ih, sum_range_succ]

theorem sum_take {list : List Nat} {count : Nat} (le : count ≤ list.length) :
    (list.take count).sum = ∑ i ∈ range count, list.getD i 0 := by
  induction count with
  | zero => rfl
  | succ count ih =>
    rw [List.take_add_one, List.sum_append, ih (Nat.le_of_succ_le le), sum_range_succ,
      List.getD_eq_getElem?_getD, List.getElem?_eq_getElem (Nat.lt_of_succ_le le)]
    simp

end Itex.Lib
