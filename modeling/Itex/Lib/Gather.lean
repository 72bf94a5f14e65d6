import Mathlib

/-!
Contract: sums of weights times gathered entries, and positions under padding.

Owns: that such a sum depends on the gathered positions only, and determines them, and where
the blocks of a padded dim are.
-/

namespace Itex.Lib

section Gathered

variable {τ ι R : Type} [Semiring R]

/-- What is gathered from a position: zero where there is none. -/
def gathered (x : ι → R) (position : Option ι) : R := position.elim 0 x

def gatherSum (taps : List τ) (weight : τ → R) (position : τ → Option ι) (x : ι → R) : R :=
  (taps.map fun tap => weight tap * gathered x (position tap)).sum

theorem gathered_bind {κ : Type} (x : ι → R) (outer : κ → Option ι) (position : Option κ) :
    gathered (fun k => gathered x (outer k)) position = gathered x (position.bind outer) := by
  cases position <;> rfl

theorem gatherSum_gathered {κ : Type} (taps : List τ) (weight : τ → R) (position : τ → Option κ) (outer : κ → Option ι)
    (x : ι → R) : gatherSum taps weight position (fun k => gathered x (outer k)) =
      gatherSum taps weight (fun tap => (position tap).bind outer) x := by
  unfold gatherSum
  simp only [gathered_bind]

theorem gatherSum_congr {taps : List τ} {weight : τ → R} {position position' : τ → Option ι} {x : ι → R}
    (same : ∀ tap ∈ taps, position tap = position' tap) :
    gatherSum taps weight position x = gatherSum taps weight position' x := by
  unfold gatherSum
  congr 1
  apply List.map_congr_left
  intro tap mem
  rw [same tap mem]

theorem gatherSum_single [DecidableEq τ] {taps : List τ} (distinct : taps.Nodup) {tap : τ} (mem : tap ∈ taps)
    (position : τ → Option ι) (x : ι → R) :
    gatherSum taps (fun other => if other = tap then 1 else 0) position x = gathered x (position tap) := by
  have others : ∀ other ≠ tap, other ∈ taps → (if other = tap then (1 : R) else 0) * gathered x (position other) = 0 := by
    intro other ne _
    rw [if_neg ne, zero_mul]
  unfold gatherSum
  rw [List.sum_map_eq_nsmul_single tap _ others, List.count_eq_one_of_mem distinct mem, one_nsmul, if_pos rfl,
    one_mul]

theorem gatherSum_eq_iff [DecidableEq τ] [DecidableEq ι] [Nontrivial R] {taps : List τ} (distinct : taps.Nodup)
    (position position' : τ → Option ι) :
    (∀ (weight : τ → R) (x : ι → R), gatherSum taps weight position x = gatherSum taps weight position' x) ↔
      ∀ tap ∈ taps, position tap = position' tap := by
  constructor
  · intro same tap mem
    have gathers : ∀ x : ι → R, gathered x (position tap) = gathered x (position' tap) := by
      intro x
      rw [← gatherSum_single distinct mem, same, gatherSum_single distinct mem]
    have includes : ∀ {first second : Option ι}, (∀ x : ι → R, gathered x first = gathered x second) →
        ∀ k, first = some k → second = some k := by
      intro first second agree k isFirst
      have ofK := agree fun other => if other = k then 1 else 0
      rw [isFirst] at ofK
      change (if k = k then (1 : R) else 0) = _ at ofK
      rw [if_pos rfl] at ofK
      cases second with
      | none => exact absurd ofK one_ne_zero
      | some other =>
        by_cases isK : other = k
        · rw [isK]
        · change 1 = (if other = k then (1 : R) else 0) at ofK
          rw [if_neg isK] at ofK
          exact absurd ofK one_ne_zero
    apply Option.ext
    intro k
    exact ⟨includes gathers k, includes (fun x => (gathers x).symm) k⟩
  · intro same weight x
    exact gatherSum_congr same

end Gathered

/-- The position in a dim of a position in the padded dim. -/
def unpadded (before extent p : Nat) : Option Nat := if before ≤ p ∧ p < before + extent then some (p - before) else none

theorem unpadded_eq_some {before extent p q : Nat} : unpadded before extent p = some q ↔ q < extent ∧ p = q + before := by
  unfold unpadded
  split
  · simp only [Option.some.injEq]
    omega
  · constructor
    · intro isSome
      cases isSome
    · omega

theorem unpadded_zero {extent p : Nat} (inside : p < extent) : unpadded 0 extent p = some p :=
  unpadded_eq_some.2 ⟨inside, rfl⟩

theorem unpadded_add (more before extent p : Nat) : unpadded (more + before) extent (more + p) = unpadded before extent p := by
  unfold unpadded
  by_cases inside : before ≤ p ∧ p < before + extent
  · rw [if_pos inside, if_pos (by omega)]
    congr 1
    omega
  · rw [if_neg inside, if_neg (by omega)]

/-- Blocks of a size, a number of them away from a position: steps inside the blocks stay apart. -/
theorem div_add_mul_add_mod (block p k : Nat) : (p / block + k) * block + p % block = p + k * block := by
  have whole := Nat.div_add_mod p block
  rw [Nat.mul_comm] at whole
  rw [Nat.add_mul]
  omega

end Itex.Lib
