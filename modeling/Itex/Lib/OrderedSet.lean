import Mathlib

/-!
Contract: a set kept as a list in the order of a comparator that may change
between calls.

Owns: insertion and erasure up to the equivalence the comparator induces, and
the membership and order laws they satisfy on a carrier where the comparator is
a strict linear order.

Two elements are the same element when neither precedes the other, so every law
below asks that on the carrier this means equality.
-/

namespace Itex.Lib.OrderedSet

variable {α : Type}

/-- Insert `x` before the first element it precedes; an equivalent element that
is already there keeps its place and `x` is dropped. -/
def insert (less : α → α → Bool) (x : α) : List α → List α
  | [] => [x]
  | y :: ys =>
    if less x y then x :: y :: ys
    else if less y x then y :: insert less x ys
    else y :: ys

/-- Erase every element equivalent to `x`. -/
def erase (less : α → α → Bool) (x : α) (ys : List α) : List α :=
  ys.filter fun y => less x y || less y x

/-- The comparator is a strict linear order on the elements of `carrier`. -/
structure Linear (less : α → α → Bool) (carrier : α → Prop) : Prop where
  irrefl : ∀ x, carrier x → less x x = false
  trans : ∀ x y z, carrier x → carrier y → carrier z → less x y = true → less y z = true → less x z = true
  connected : ∀ x y, carrier x → carrier y → x ≠ y → less x y = true ∨ less y x = true

/-- The list is strictly increasing. -/
def Sorted (less : α → α → Bool) (ys : List α) : Prop :=
  ys.Pairwise fun x y => less x y = true

section Laws

variable {less : α → α → Bool} {carrier : α → Prop}

section

variable (linear : Linear less carrier) {x : α} (inCarrier : carrier x) {ys : List α} (each : ∀ y ∈ ys, carrier y)

include linear inCarrier each

theorem mem_insert (z : α) : z ∈ insert less x ys ↔ z = x ∨ z ∈ ys := by
  induction ys with
  | nil => simp [insert]
  | cons y ys ih =>
    have tailEach : ∀ w ∈ ys, carrier w := fun w mem => each w (by simp [mem])
    unfold insert
    split
    · simp
    · next notBefore =>
      split
      · simp only [List.mem_cons, ih tailEach]
        tauto
      · next notAfter =>
        have same : x = y := by
          by_contra ne
          rcases linear.connected x y inCarrier (each y (by simp)) ne with h | h
          · exact notBefore h
          · exact notAfter h
        subst same
        simp

theorem sorted_insert (sorted : Sorted less ys) : Sorted less (insert less x ys) := by
  induction ys with
  | nil => simp [insert, Sorted]
  | cons y ys ih =>
    have tailEach : ∀ w ∈ ys, carrier w := fun w mem => each w (by simp [mem])
    have yIn : carrier y := each y (by simp)
    obtain ⟨headBefore, tailSorted⟩ := List.pairwise_cons.1 sorted
    unfold insert
    split
    · next before =>
      refine List.pairwise_cons.2 ⟨?_, sorted⟩
      intro z mem
      rcases List.mem_cons.1 mem with rfl | inTail
      · exact before
      · exact linear.trans x y z inCarrier yIn (tailEach z inTail) before
          (headBefore z inTail)
    · split
      · next after =>
        refine List.pairwise_cons.2 ⟨?_, ih tailEach tailSorted⟩
        intro z mem
        rcases (mem_insert linear inCarrier tailEach z).1 mem with rfl | inTail
        · exact after
        · exact headBefore z inTail
      · exact sorted

theorem mem_erase (z : α) : z ∈ erase less x ys ↔ z ∈ ys ∧ z ≠ x := by
  simp only [erase, List.mem_filter, Bool.or_eq_true]
  constructor
  · rintro ⟨mem, ordered⟩
    refine ⟨mem, ?_⟩
    rintro rfl
    simp [linear.irrefl z inCarrier] at ordered
  · rintro ⟨mem, ne⟩
    exact ⟨mem, linear.connected x z inCarrier (each z mem) (Ne.symm ne)⟩

end

/-- Erasing a member makes the list shorter: the count `std::set::erase`
returns is positive. -/
theorem length_erase_lt (linear : Linear less carrier) {x : α} (inCarrier : carrier x)
    {ys : List α} (mem : x ∈ ys) : (erase less x ys).length < ys.length := by
  unfold erase
  rw [List.length_filter_lt_length_iff_exists]
  exact ⟨x, mem, by simp [linear.irrefl x inCarrier]⟩

theorem nodup_of_sorted (linear : Linear less carrier) {ys : List α}
    (each : ∀ y ∈ ys, carrier y) (sorted : Sorted less ys) : ys.Nodup := by
  refine List.Pairwise.imp_of_mem ?_ sorted
  intro x y xMember _ before same
  subst same
  simp [linear.irrefl x (each x xMember)] at before

/-- The first element that passes a test precedes all others that pass it. -/
theorem find?_least {test : α → Bool} {ys : List α} (sorted : Sorted less ys) {x : α}
    (found : ys.find? test = some x) {y : α} (mem : y ∈ ys) (passes : test y = true) : y = x ∨ less x y = true := by
  obtain ⟨-, before, after, rfl, skipped⟩ := List.find?_eq_some_iff_append.1 found
  obtain ⟨-, tailSorted, -⟩ := List.pairwise_append.1 sorted
  rcases List.mem_append.1 mem with inBefore | inRest
  · have fails := skipped y inBefore
    rw [passes] at fails
    cases fails
  · rcases List.mem_cons.1 inRest with same | inAfter
    · exact Or.inl same
    · exact Or.inr ((List.pairwise_cons.1 tailSorted).1 y inAfter)

theorem mem_insert_or_equivalent (less : α → α → Bool) (x : α) (ys : List α) : x ∈ insert less x ys ∨
      ∃ y ∈ insert less x ys, less x y = false ∧ less y x = false := by
  induction ys with
  | nil => simp [insert]
  | cons y ys ih =>
    unfold insert
    split
    · exact Or.inl List.mem_cons_self
    · grind

theorem sorted_congr {less' : α → α → Bool} {ys : List α}
    (agree : ∀ x ∈ ys, ∀ y ∈ ys, less x y = less' x y) (sorted : Sorted less ys) : Sorted less' ys := by
  refine List.Pairwise.imp_of_mem ?_ sorted
  intro x y xMember yMember before
  rw [← agree x xMember y yMember]
  exact before

end Laws

end Itex.Lib.OrderedSet
