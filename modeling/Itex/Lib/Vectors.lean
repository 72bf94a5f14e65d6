import Mathlib

/-!
Contract: lists used as vectors that are written in place.

Owns: reading a list after one element was changed or appended.
-/

namespace Itex.Lib

variable {α : Type}

theorem getElem?_modify_ite (change : α → α) (n i : Nat) (vector : List α) :
    (vector.modify n change)[i]? = if i = n then (vector[i]?).map change else vector[i]? := by
  rw [List.getElem?_modify]
  by_cases same : i = n
  · rw [if_pos same]
    simp [same]
  · rw [if_neg same]
    simp [Ne.symm same]

theorem getElem?_concat_ite (vector : List α) (element : α) (i : Nat) :
    (vector ++ [element])[i]? = if i = vector.length then some element else vector[i]? := by
  rcases Nat.lt_trichotomy i vector.length with before | atEnd | after
  · rw [List.getElem?_append_left before, if_neg (Nat.ne_of_lt before)]
  · rw [if_pos atEnd, atEnd, List.getElem?_concat_length]
  · rw [if_neg (Nat.ne_of_gt after), List.getElem?_eq_none, List.getElem?_eq_none]
    · omega
    · rw [List.length_append, List.length_singleton]
      omega

end Itex.Lib
