import Itex.Lib.Tensor

/-!
Contract: elementwise operations on tensors of different extents.

Owns: the extents that two tensors broadcast to, the operation entry by entry, and that it
commutes with taking the same part of a dim on both sides.

Dims are aligned from the right. A dim of extent one is read at zero.
-/

set_option autoImplicit false

namespace Itex.Lib

variable {back extent offset size : Nat} {extents index : List Nat}

/-! ## Extents -/

/-- The extent of a dim of the result. -/
def broadcastExtent (x y : Nat) : Option Nat :=
  if x = y then some x else if x = 1 then some y else if y = 1 then some x else none

/-- The extents of the result, all from the last dim on. -/
def broadcastFromLast : List Nat → List Nat → Option (List Nat)
  | [], ys => some ys
  | x :: xs, [] => some (x :: xs)
  | x :: xs, y :: ys => do
    let extent ← broadcastExtent x y
    let extents ← broadcastFromLast xs ys
    return extent :: extents

def broadcastExtents (xs ys : List Nat) : Option (List Nat) :=
  (broadcastFromLast xs.reverse ys.reverse).map List.reverse

theorem broadcastExtent_self (x : Nat) : broadcastExtent x x = some x := if_pos rfl

theorem broadcastFromLast_cons {x y : Nat} {xs ys zs : List Nat}
    (isResult : broadcastFromLast (x :: xs) (y :: ys) = some zs) : ∃ extent extents,
      broadcastExtent x y = some extent ∧ broadcastFromLast xs ys = some extents ∧ extent :: extents = zs := by
  rw [broadcastFromLast, Option.bind_eq_bind, Option.bind_eq_some_iff] at isResult
  obtain ⟨extent, isExtent, isResult⟩ := isResult
  rw [Option.bind_eq_bind, Option.bind_eq_some_iff] at isResult
  obtain ⟨extents, isExtents, isResult⟩ := isResult
  exact ⟨extent, extents, isExtent, isExtents, Option.some.inj isResult⟩

section

variable {xs ys zs : List Nat} (isResult : broadcastFromLast xs ys = some zs)

include isResult

/-- Each extent of the result is that of an operand, and the other operand has it, has
extent one, or lacks the dim. -/
theorem broadcastFromLast_getElem? (back : Nat) :
    (zs[back]? = xs[back]? ∨ zs[back]? = ys[back]?) ∧ (∀ x, xs[back]? = some x → x = 1 ∨ zs[back]? = some x) ∧
      (∀ y, ys[back]? = some y → y = 1 ∨ zs[back]? = some y) := by
  induction xs, ys using broadcastFromLast.induct generalizing zs back with
  | case1 ys =>
    cases isResult
    exact ⟨.inr rfl, fun x atBack => (by cases atBack), fun y atBack => .inr atBack⟩
  | case2 x xs =>
    cases isResult
    exact ⟨.inl rfl, fun x atBack => .inr atBack, fun y atBack => (by cases atBack)⟩
  | case3 x xs y ys ih =>
    obtain ⟨extent, extents, isExtent, isExtents, rfl⟩ := broadcastFromLast_cons isResult
    cases back with
    | succ back => exact ih isExtents back
    | zero =>
      unfold broadcastExtent at isExtent
      grind

theorem length_broadcastFromLast : zs.length = max xs.length ys.length := by
  induction xs, ys using broadcastFromLast.induct generalizing zs with
  | case1 ys =>
    cases isResult
    simp
  | case2 x xs =>
    cases isResult
    simp
  | case3 x xs y ys ih =>
    obtain ⟨extent, extents, -, isExtents, rfl⟩ := broadcastFromLast_cons isResult
    grind

/-- Parts of the same size of a dim that both operands have broadcast to such a part. -/
theorem broadcastFromLast_set {back : Nat} (same : ∀ x y, xs[back]? = some x → ys[back]? = some y → x = y) (size : Nat) :
    broadcastFromLast (xs.set back size) (ys.set back size) = some (zs.set back size) := by
  induction xs, ys using broadcastFromLast.induct generalizing zs back with
  | case1 ys =>
    cases isResult
    rfl
  | case2 x xs =>
    cases isResult
    cases back <;> rfl
  | case3 x xs y ys ih =>
    obtain ⟨extent, extents, isExtent, isExtents, rfl⟩ := broadcastFromLast_cons isResult
    cases back with
    | zero =>
      simp only [List.set_cons_zero, broadcastFromLast, broadcastExtent_self, isExtents,
        Option.bind_eq_bind, Option.bind_some, Option.pure_def]
    | succ back =>
      have later := @ih _ isExtents back same
      simp only [List.set_cons_succ, broadcastFromLast, isExtent, later, Option.bind_eq_bind,
        Option.bind_some, Option.pure_def]

end

/-! ## Entries -/

/-- The coordinate in a dim of an operand. -/
def pulled (extent k : Nat) : Nat := if extent = 1 then 0 else k

/-- The index of an operand that an index of the result reads. -/
def alignIndex (extents index : List Nat) : List Nat :=
  (List.zipWith pulled extents.reverse index.reverse).reverse

theorem mem_indices_iff_forall₂ :
    index ∈ indices extents ↔ List.Forall₂ (· < ·) index extents := by
  induction extents generalizing index with
  | nil => rw [mem_indices_nil, List.forall₂_nil_right_iff]
  | cons extent extents ih =>
    rw [mem_indices_cons, List.forall₂_cons_right_iff]
    grind

theorem pulled_lt_of_lt {k : Nat} (bound : k < extent) : pulled extent k = k := by
  unfold pulled
  split <;> omega

theorem zipWith_pulled_self (mem : List.Forall₂ (· < ·) index extents) :
    List.zipWith pulled extents index = index := by
  induction mem with
  | nil => rfl
  | cons bound _ ih =>
    rw [List.zipWith_cons_cons, pulled_lt_of_lt bound, ih]

theorem pulled_lt_of_broadcastExtent {x y k : Nat} (isExtent : broadcastExtent x y = some extent)
    (bound : k < extent) : pulled x k < x := by
  unfold pulled
  split
  next isOne => omega
  next notOne =>
    unfold broadcastExtent at isExtent
    rw [if_neg notOne] at isExtent
    split at isExtent
    · cases isExtent
      exact bound
    · split at isExtent
      · cases isExtent
        exact bound
      · cases isExtent

theorem zipWith_pulled_lt {xs ys zs : List Nat} (isResult : broadcastFromLast xs ys = some zs)
    (mem : List.Forall₂ (· < ·) index zs) :
    List.Forall₂ (· < ·) (List.zipWith pulled xs index) xs := by
  induction xs, ys using broadcastFromLast.induct generalizing zs index with
  | case1 ys => exact List.Forall₂.nil
  | case2 x xs =>
    cases isResult
    rw [zipWith_pulled_self mem]
    exact mem
  | case3 x xs y ys ih =>
    obtain ⟨extent, extents, isExtent, isExtents, rfl⟩ := broadcastFromLast_cons isResult
    cases mem with
    | cons bound later =>
      exact List.Forall₂.cons (pulled_lt_of_broadcastExtent isExtent bound)
        (ih isExtents later)

theorem alignIndex_self (mem : index ∈ indices extents) :
    alignIndex extents index = index := by
  rw [mem_indices_iff_forall₂, ← List.forall₂_reverse_iff] at mem
  rw [alignIndex, zipWith_pulled_self mem, List.reverse_reverse]

theorem alignIndex_mem {xs ys zs : List Nat} (isResult : broadcastExtents xs ys = some zs)
    (mem : index ∈ indices zs) : alignIndex xs index ∈ indices xs := by
  obtain ⟨extents, isExtents, isReverse⟩ := Option.map_eq_some_iff.1 isResult
  rw [mem_indices_iff_forall₂, ← List.forall₂_reverse_iff, ← isReverse, List.reverse_reverse] at mem
  rw [mem_indices_iff_forall₂, ← List.forall₂_reverse_iff, alignIndex, List.reverse_reverse]
  exact zipWith_pulled_lt isExtents mem

theorem broadcastExtent_comm (x y : Nat) : broadcastExtent x y = broadcastExtent y x := by
  unfold broadcastExtent
  grind

theorem broadcastFromLast_comm (xs ys : List Nat) : broadcastFromLast xs ys = broadcastFromLast ys xs := by
  induction xs, ys using broadcastFromLast.induct with
  | case1 ys => cases ys <;> rfl
  | case2 x xs => rfl
  | case3 x xs y ys ih =>
    rw [broadcastFromLast, broadcastFromLast, broadcastExtent_comm, ih]

theorem broadcastExtents_comm (xs ys : List Nat) : broadcastExtents xs ys = broadcastExtents ys xs := by
  rw [broadcastExtents, broadcastExtents, broadcastFromLast_comm]

/-- Dims of extent one change nothing, if they are not more. -/
theorem broadcastFromLast_ones {xs ys : List Nat} (ones : ∀ x ∈ xs, x = 1) (shorter : xs.length ≤ ys.length) :
    broadcastFromLast xs ys = some ys := by
  induction xs, ys using broadcastFromLast.induct with
  | case1 ys => rfl
  | case2 x xs => exact absurd shorter (by simp)
  | case3 x xs y ys ih =>
    have later := ih (fun x' mem => ones x' (List.mem_cons_of_mem _ mem))
      (Nat.le_of_succ_le_succ shorter)
    have isOne : broadcastExtent x y = some y := by
      rw [ones x List.mem_cons_self]
      unfold broadcastExtent
      split
      next same => rw [same]
      next => rw [if_pos rfl]
    rw [broadcastFromLast, isOne, later]
    rfl

theorem broadcastExtents_ones {xs ys : List Nat} (ones : ∀ x ∈ xs, x = 1) (shorter : xs.length ≤ ys.length) :
    broadcastExtents xs ys = some ys := by
  rw [broadcastExtents, broadcastFromLast_ones (fun x mem => ones x (List.mem_reverse.1 mem))
    (by rwa [List.length_reverse, List.length_reverse]), Option.map_some, List.reverse_reverse]

theorem broadcastExtents_self (xs : List Nat) : broadcastExtents xs xs = some xs := by
  have self : ∀ ys : List Nat, broadcastFromLast ys ys = some ys := by
    intro ys
    induction ys with
    | nil => rfl
    | cons y ys ih =>
      rw [broadcastFromLast, broadcastExtent_self, ih]
      rfl
  rw [broadcastExtents, self, Option.map_some, List.reverse_reverse]

theorem broadcastExtents_nil (xs : List Nat) : broadcastExtents xs [] = some xs := by
  rw [broadcastExtents_comm, broadcastExtents_ones (fun x mem => absurd mem List.not_mem_nil) (Nat.zero_le _)]

theorem length_broadcastExtents {xs ys zs : List Nat} (isResult : broadcastExtents xs ys = some zs) :
    zs.length = max xs.length ys.length := by
  obtain ⟨extents, isExtents, rfl⟩ := Option.map_eq_some_iff.1 isResult
  rw [List.length_reverse, length_broadcastFromLast isExtents, List.length_reverse, List.length_reverse]

theorem zipWith_pulled_modify (within : ∀ extent, extents[back]? = some extent → offset + size ≤ extent)
    (bound : ∀ k, index[back]? = some k → k < size) : List.zipWith pulled extents (index.modify back (· + offset)) =
      (List.zipWith pulled (extents.set back size) index).modify back (· + offset) := by
  induction extents generalizing index back with
  | nil => simp
  | cons extent extents ih =>
    cases index with
    | nil => simp
    | cons k index =>
      cases back with
      | succ back =>
        have later := @ih back index within bound
        simp [later]
      | zero =>
        have inside := within extent rfl
        have small := bound k rfl
        simp only [List.modify_zero_cons, List.zipWith_cons_cons, List.set_cons_zero]
        congr 1
        unfold pulled
        split
        next isOne =>
          split <;> omega
        next =>
          split <;> omega

theorem reverse_modify_of_lt {l : List Nat} {f : Nat → Nat} (inside : back < l.length) :
    (l.modify (l.length - 1 - back) f).reverse = l.reverse.modify back f := by
  apply List.ext_getElem?
  grind

theorem reverse_set_of_lt {l : List Nat} {a : Nat} (inside : back < l.length) :
    (l.set (l.length - 1 - back) a).reverse = l.reverse.set back a := by
  rw [List.set_eq_modify, reverse_modify_of_lt inside, List.set_eq_modify]

namespace Tensor

variable {α β γ : Type}

/-- The operation on every pair of entries. -/
def elementwise (f : α → β → γ) (x : Tensor α) (y : Tensor β) : Option (Tensor γ) :=
  (broadcastExtents x.extents y.extents).map fun extents =>
    ⟨extents, fun index => f (x.entry (alignIndex x.extents index)) (y.entry (alignIndex y.extents index))⟩

theorem elementwise_comm {f : α → α → γ} (commutes : ∀ a b, f a b = f b a) (x y : Tensor α) :
    elementwise f x y = elementwise f y x := by
  unfold elementwise
  rw [broadcastExtents_comm]
  congr 1
  funext extents
  congr 1
  funext index
  exact commutes _ _

theorem exists_elementwise_same (f : α → β → γ) {x : Tensor α} {y : Tensor β} (same : y.extents = x.extents) :
    ∃ z, elementwise f x y = some z ∧ z.extents = x.extents ∧
      ∀ index ∈ indices x.extents, z.entry index = f (x.entry index) (y.entry index) := by
  unfold elementwise
  rw [same, broadcastExtents_self, Option.map_some]
  refine ⟨_, rfl, rfl, ?_⟩
  intro index mem
  dsimp only
  rw [alignIndex_self mem]

theorem exists_elementwise_scalar (f : α → β → γ) (x : Tensor α) {y : Tensor β} (scalar : y.extents = []) :
    ∃ z, elementwise f x y = some z ∧ z.extents = x.extents ∧
      ∀ index ∈ indices x.extents, z.entry index = f (x.entry index) (y.entry []) := by
  unfold elementwise
  rw [scalar, broadcastExtents_nil, Option.map_some]
  refine ⟨_, rfl, rfl, ?_⟩
  intro index mem
  dsimp only
  rw [alignIndex_self mem]
  rfl

/-- A part of the dim that is `back` dims before the last one; all of a tensor that has no
such dim. -/
def sliceFromLast (x : Tensor α) (back offset size : Nat) : Tensor α :=
  if back < x.extents.length then x.slice (x.extents.length - 1 - back) offset size else x

theorem sliceFromLast_extents (x : Tensor α) (back offset size : Nat) :
    (x.sliceFromLast back offset size).extents.reverse = x.extents.reverse.set back size := by
  unfold sliceFromLast
  split
  next inside => exact reverse_set_of_lt inside
  next outside =>
    rw [List.set_eq_of_length_le]
    rw [List.length_reverse]
    omega

/-- The entry of a part that an index of the result's part reads. -/
theorem sliceFromLast_entry {x : Tensor α}
    (within : ∀ extent, x.extents.reverse[back]? = some extent → offset + size ≤ extent)
    (longer : x.extents.length ≤ index.length)
    (inside : back < index.length) (bound : ∀ k, index.reverse[back]? = some k → k < size) :
    (x.sliceFromLast back offset size).entry (alignIndex (x.sliceFromLast back offset size).extents index) =
      x.entry (alignIndex x.extents (shiftAt (index.length - 1 - back) offset index)) := by
  have sameIndex : alignIndex x.extents (shiftAt (index.length - 1 - back) offset index) =
      ((List.zipWith pulled (x.extents.reverse.set back size) index.reverse).modify back (· + offset)).reverse := by
    unfold alignIndex shiftAt
    rw [reverse_modify_of_lt inside, zipWith_pulled_modify within bound]
  rw [sameIndex]
  unfold alignIndex
  rw [sliceFromLast_extents]
  generalize isAligned : List.zipWith pulled (x.extents.reverse.set back size) index.reverse = aligned
  have sameLength : aligned.length = x.extents.length := by
    rw [← isAligned, List.length_zipWith, List.length_set, List.length_reverse, List.length_reverse,
      Nat.min_eq_left longer]
  unfold sliceFromLast
  split
  next has =>
    change x.entry (shiftAt _ offset aligned.reverse) = _
    congr 1
    unfold shiftAt
    rw [← List.reverse_inj, List.reverse_reverse, ← sameLength, ← List.length_reverse,
      reverse_modify_of_lt (by rw [List.length_reverse, sameLength]; exact has), List.reverse_reverse]
  next lacks =>
    congr 2
    rw [List.modify_eq_self]
    omega

/-- An elementwise operation commutes with taking a part of one dim. -/
theorem elementwise_slice (f : α → β → γ) {x : Tensor α} {y : Tensor β} {z : Tensor γ}
    (isResult : elementwise f x y = some z) (has : back < z.extents.length)
    (atX : ∀ x', x.extents.reverse[back]? = some x' → x' = extent)
    (atY : ∀ y', y.extents.reverse[back]? = some y' → y' = extent) (within : offset + size ≤ extent) :
    ∃ part, elementwise f (x.sliceFromLast back offset size) (y.sliceFromLast back offset size) = some part ∧
      part.Same (z.slice (z.extents.length - 1 - back) offset size) := by
  unfold elementwise broadcastExtents at isResult
  rw [Option.map_map, Option.map_eq_some_iff] at isResult
  obtain ⟨extents, isExtents, isZ⟩ := isResult
  have zExtents : z.extents.reverse = extents := by
    rw [← isZ]
    exact List.reverse_reverse extents
  have lengths := length_broadcastFromLast isExtents
  rw [← zExtents, List.length_reverse, List.length_reverse, List.length_reverse] at lengths
  have parts := @broadcastFromLast_set _ _ _ isExtents back
    (fun x' y' isX isY => (atX x' isX).trans (atY y' isY).symm) size
  unfold elementwise broadcastExtents
  rw [sliceFromLast_extents, sliceFromLast_extents, parts, Option.map_some, Option.map_some]
  refine ⟨_, rfl, ?_, ?_⟩
  · change (extents.set back size).reverse = z.extents.set _ size
    rw [← List.reverse_inj, List.reverse_reverse, reverse_set_of_lt has, zExtents]
  · intro index mem
    change index ∈ indices (extents.set back size).reverse at mem
    have sameLength : index.length = z.extents.length := by
      rw [length_of_mem_indices mem, List.length_reverse, List.length_set, ← zExtents, List.length_reverse]
    have bound : ∀ k, index.reverse[back]? = some k → k < size := by
      intro k atBack
      have atPlace : (extents.set back size).reverse[z.extents.length - 1 - back]? = some size := by
        rw [← zExtents, ← reverse_set_of_lt has, List.reverse_reverse, List.getElem?_set_self (by omega)]
      obtain ⟨k', atIndex, small⟩ := coordinate_lt mem atPlace
      rw [List.getElem?_reverse (by omega), sameLength, atIndex] at atBack
      cases atBack
      exact small
    have inside : back < index.length := by rwa [sameLength]
    change f _ _ = z.entry (shiftAt (z.extents.length - 1 - back) offset index)
    rw [sliceFromLast_entry (fun x' isX => by rw [atX x' isX]; exact within) (by omega) inside bound,
      sliceFromLast_entry (fun y' isY => by rw [atY y' isY]; exact within) (by omega) inside bound,
      ← sameLength, ← isZ]
    rfl

end Tensor

end Itex.Lib
