import Mathlib

/-!
Contract: the runs of a sequence, given by the positions at which a run begins.

Owns: the list of heads, the number of the run of a position, where runs end, and when two
positions are in one run.
-/

set_option autoImplicit false

namespace Itex.Lib

variable {n p start stop u : Nat}

variable (head : Nat → Bool)

/-- The positions below `n` at which a run begins. -/
def heads (n : Nat) : List Nat := (List.range n).filter head

def runOf (position : Nat) : Nat := (heads head (position + 1)).length - 1

def runEnds (n : Nat) : List Nat := (heads head n).tail ++ [n]

variable {head}

theorem heads_succ (n : Nat) : heads head (n + 1) = heads head n ++ if head n then [n] else [] := by
  unfold heads
  rw [List.range_succ, List.filter_append]
  cases isHead : head n with
  | true => simp [isHead]
  | false => simp [isHead]

theorem length_heads_succ (n : Nat) :
    (heads head (n + 1)).length = (heads head n).length + if head n then 1 else 0 := by
  rw [heads_succ, List.length_append]
  split <;> rfl

theorem length_heads_of_head (isHead : head p = true) : (heads head p).length = runOf head p := by
  unfold runOf
  rw [length_heads_succ, if_pos isHead, Nat.add_sub_cancel]

theorem map_runOf_heads (n : Nat) : (heads head n).map (runOf head) = List.range (heads head n).length := by
  induction n with
  | zero => rfl
  | succ n ih =>
    rw [heads_succ, List.map_append, ih, List.length_append]
    cases isHead : head n with
    | false => simp
    | true => simp [List.range_succ, length_heads_of_head isHead]

theorem getElem?_heads (bound : p < n) (isHead : head p = true) : (heads head n)[runOf head p]? = some p := by
  have listed : p ∈ heads head n := List.mem_filter.2 ⟨List.mem_range.2 bound, isHead⟩
  obtain ⟨u, inside, atU⟩ := List.mem_iff_getElem.1 listed
  have number := congrArg (fun numbers => numbers[u]?) (@map_runOf_heads head n)
  simp_all

theorem runOf_of_getElem? (atU : (heads head n)[u]? = some start) : runOf head start = u := by
  obtain ⟨inside, atIndex⟩ := List.getElem?_eq_some_iff.1 atU
  have numbers := congrArg (fun numbers => numbers[u]?) (@map_runOf_heads head n)
  simp only [List.getElem?_map, atU, List.getElem?_range inside, Option.map_some, Option.some.injEq] at numbers
  exact numbers

section First

variable (first : head 0 = true)

include first

theorem length_heads_pos (n : Nat) : 0 < (heads head (n + 1)).length := by
  induction n with
  | zero => simp [heads, first]
  | succ n ih =>
    rw [length_heads_succ]
    omega

theorem runOf_zero : runOf head 0 = 0 := by
  unfold runOf
  simp [heads, first]

theorem runOf_succ (position : Nat) :
    runOf head (position + 1) = runOf head position + if head (position + 1) then 1 else 0 := by
  have pos := length_heads_pos first position
  unfold runOf
  rw [length_heads_succ]
  omega

theorem runOf_mono {q : Nat} (le : p ≤ q) : runOf head p ≤ runOf head q := by
  induction le with
  | refl => exact Nat.le_refl _
  | step _ ih =>
    rw [runOf_succ first]
    omega

theorem runOf_lt (bound : p < n) : runOf head p < (heads head n).length := by
  have last := runOf_mono first (Nat.le_sub_one_of_lt bound)
  have pos := length_heads_pos first (n - 1)
  unfold runOf at last ⊢
  rw [Nat.sub_add_cancel (by omega)] at last pos
  omega

theorem head_le_iff (atU : (heads head n)[u]? = some start) : start ≤ p ↔ u ≤ runOf head p := by
  have listed := List.mem_of_getElem? atU
  have isHead := (List.mem_filter.1 listed).2
  have inRange := List.mem_range.1 (List.mem_filter.1 listed).1
  have number := runOf_of_getElem? atU
  constructor
  · intro le
    rw [← number]
    exact runOf_mono first le
  · intro le
    by_contra behind
    have before : runOf head p < runOf head start := by
      have step := runOf_succ first (start - 1)
      have isSucc : start - 1 + 1 = start := by omega
      rw [isSucc, if_pos isHead] at step
      have upTo := runOf_mono first (show p ≤ start - 1 by omega)
      omega
    omega

theorem length_runEnds (pos : 0 < n) : (runEnds head n).length = (heads head n).length := by
  have nonempty := length_heads_pos first (n - 1)
  rw [Nat.sub_add_cancel pos] at nonempty
  unfold runEnds
  rw [List.length_append, List.length_tail, List.length_singleton]
  omega

omit first in
theorem runEnds_le (isStop : (runEnds head n)[u]? = some stop) : stop ≤ n := by
  rcases List.mem_append.1 (List.mem_of_getElem? isStop) with inner | last
  · have listed := List.mem_of_mem_tail inner
    exact Nat.le_of_lt (List.mem_range.1 (List.mem_filter.1 listed).1)
  · exact Nat.le_of_eq (List.mem_singleton.1 last)

omit first in
theorem getElem?_runEnds (inner : u + 1 < (heads head n).length) :
    (runEnds head n)[u]? = (heads head n)[u + 1]? := by
  unfold runEnds
  rw [List.getElem?_append_left (by rw [List.length_tail]; omega), List.getElem?_tail]

theorem getElem?_heads_zero (pos : 0 < n) : (heads head n)[0]? = some 0 := by
  have atRun := getElem?_heads pos first
  rwa [runOf_zero first] at atRun

theorem runOf_eq_iff_between (bound : p < n)
    (isStart : (heads head n)[u]? = some start) (isStop : (runEnds head n)[u]? = some stop) :
    runOf head p = u ↔ start ≤ p ∧ p < stop := by
  have fromStart := head_le_iff first (p := p) isStart
  have below := runOf_lt first bound
  have inside := (List.getElem?_eq_some_iff.1 isStart).1
  by_cases isLast : u + 1 < (heads head n).length
  · have isNext : (heads head n)[u + 1]? = some stop := by
      rw [← isStop, getElem?_runEnds isLast]
    have fromNext := head_le_iff first (p := p) isNext
    omega
  · have isEnd : stop = n := by
      unfold runEnds at isStop
      grind
    omega

theorem countP_runOf (isStart : (heads head n)[u]? = some start)
    (isStop : (runEnds head n)[u]? = some stop) (fits : stop ≤ n) :
    (List.range n).countP (fun p => runOf head p = u) = stop - start := by
  have between : (List.range n).countP (fun p => runOf head p = u) =
      (List.range n).countP fun p => start ≤ p ∧ p < stop := by
    apply List.countP_congr
    intro p listed
    simp only [decide_eq_true_eq]
    exact runOf_eq_iff_between first (List.mem_range.1 listed) isStart isStop
  rw [between]
  clear between isStop isStart
  induction n generalizing stop with
  | zero => simp; omega
  | succ n ih =>
    rw [List.range_succ, List.countP_append, List.countP_singleton]
    by_cases atEnd : stop = n + 1
    · have shorter : (List.range n).countP (fun p => decide (start ≤ p ∧ p < stop)) =
          (List.range n).countP fun p => decide (start ≤ p ∧ p < n) := by
        apply List.countP_congr
        intro p listed
        have := List.mem_range.1 listed
        simp only [decide_eq_true_eq]
        omega
      rw [shorter, ih (Nat.le_refl n)]
      split
      next inside =>
        have := of_decide_eq_true inside
        omega
      next outside =>
        have := of_decide_eq_false (Bool.not_eq_true _ ▸ outside)
        omega
    · rw [ih (by omega), if_neg]
      · rfl
      · simp
        omega

end First

/-- Two positions are in one run when the sequence is the same at both, if it is the same all the way
between two positions where it is. -/
theorem runOf_eq_iff {same : Nat → Nat → Prop} (first : head 0 = true)
    (refl : ∀ p < n, same p p) (trans : ∀ p q r, r < n → p ≤ q → q ≤ r → same p q → same q r → same p r)
    (between : ∀ p q r, r < n → p ≤ q → q ≤ r → same p r → same p q ∧ same q r)
    (isHead : ∀ p, p + 1 < n → (head (p + 1) = true ↔ ¬ same p (p + 1))) {q : Nat} (le : p ≤ q)
    (bound : q < n) : runOf head p = runOf head q ↔ same p q := by
  induction le with
  | refl => exact ⟨fun _ => refl p bound, fun _ => rfl⟩
  | @step q le ih =>
    have before := ih (Nat.lt_of_succ_lt bound)
    rw [runOf_succ first]
    by_cases begins : head (q + 1) = true
    · rw [if_pos begins]
      have mono := runOf_mono first le
      constructor
      · intro equal
        omega
      · intro isSame
        exact absurd (between p q (q + 1) bound le (Nat.le_succ q) isSame).2 ((isHead q bound).1 begins)
    · grind

end Itex.Lib
