import Itex.Lib.Rewiring

/-!
Contract: a directed graph whose vertices are merged.

Owns: the graph of the merged vertices, walks that move freely inside a merged vertex, and
when merging closes a cycle.
-/

namespace Itex.Lib

open Relation

variable {ν μ : Type} {rep : ν → μ} {edge : ν → ν → Prop}

/-- The graph in which the vertices with one image are one vertex. -/
def Contracted (rep : ν → μ) (edge : ν → ν → Prop) (a b : μ) : Prop :=
  ∃ u v, rep u = a ∧ rep v = b ∧ a ≠ b ∧ edge u v

/-- An edge to another merged vertex, from any of the vertices that are merged with `u`. -/
def Leaves (rep : ν → μ) (edge : ν → ν → Prop) (u v : ν) : Prop :=
  ∃ start, rep start = rep u ∧ rep u ≠ rep v ∧ edge start v

theorem Leaves.contracted {u v : ν} (step : Leaves rep edge u v) : Contracted rep edge (rep u) (rep v) := by
  obtain ⟨start, merged, leaves, isEdge⟩ := step
  exact ⟨start, v, merged, rfl, leaves, isEdge⟩

theorem contracted_of_leaves {u v : ν} (path : TransGen (Leaves rep edge) u v) :
    TransGen (Contracted rep edge) (rep u) (rep v) := by
  induction path with
  | single step => exact .single step.contracted
  | tail _ step ih => exact .tail ih step.contracted

theorem leaves_of_contracted {u : ν} {b : μ} (path : TransGen (Contracted rep edge) (rep u) b) :
    ∃ v, rep v = b ∧ TransGen (Leaves rep edge) u v := by
  induction path with
  | single step =>
    obtain ⟨start, v, merged, isEnd, leaves, isEdge⟩ := step
    refine ⟨v, isEnd, .single ⟨start, merged, ?_, isEdge⟩⟩
    rwa [isEnd]
  | tail _ step ih =>
    obtain ⟨middle, isMiddle, before⟩ := ih
    obtain ⟨start, v, merged, isEnd, leaves, isEdge⟩ := step
    refine ⟨v, isEnd, before.tail ⟨start, merged.trans isMiddle.symm, ?_, isEdge⟩⟩
    rwa [isEnd, isMiddle]

theorem exists_start_of_leaves {u v : ν} (walk : TransGen (Leaves rep edge) u v) :
    ∃ start next, rep start = rep u ∧ edge start next ∧ TransGen (Leaves rep edge) start v := by
  rcases TransGen.head'_iff.1 walk with ⟨next, ⟨start, merged, leaves, isEdge⟩, rest⟩
  have first : Leaves rep edge start next := ⟨start, rfl, by rwa [merged], isEdge⟩
  exact ⟨start, next, merged, isEdge, TransGen.head' first rest⟩

theorem exists_end_of_leaves {u v : ν} (walk : TransGen (Leaves rep edge) u v) : ∃ start, edge start v := by
  rcases TransGen.tail'_iff.1 walk with ⟨_, _, start, _, _, isEdge⟩
  exact ⟨start, isEdge⟩

theorem path_or_meets_merged {merged : ν → Prop}
    (alone : ∀ u, ¬ merged u → ∀ w, rep w = rep u → w = u) {u v : ν} (single : ¬ merged u)
    (walk : TransGen (Leaves rep edge) u v) : TransGen edge u v ∨
      ∃ x, merged x ∧ TransGen (Leaves rep edge) u x ∧ ReflTransGen (Leaves rep edge) x v := by
  induction walk using TransGen.head_induction_on with
  | single step =>
    obtain ⟨start, same, _, isEdge⟩ := step
    rw [alone _ single start same] at isEdge
    exact .inl (.single isEdge)
  | @head a b step rest ih =>
    by_cases isMerged : merged b
    · exact .inr ⟨b, isMerged, .single step, rest.to_reflTransGen⟩
    · have isEdge : edge a b := by
        obtain ⟨start, same, _, isEdge⟩ := step
        rwa [alone _ single start same] at isEdge
      rcases ih isMerged with path | ⟨x, xMerged, before, after⟩
      · exact .inl (.head isEdge path)
      · exact .inr ⟨x, xMerged, .head step before, after⟩

/-- Merging vertices of a graph without cycles closes one exactly if a walk leaves one of
the merged vertices and comes back to it. -/
theorem acyclic_contracted_iff {merged : ν → Prop} (acyclic : Acyclic edge)
    (alone : ∀ u, ¬ merged u → ∀ w, rep w = rep u → w = u) : Acyclic (Contracted rep edge) ↔
      ∀ u w, merged u → rep u = rep w → ¬ TransGen (Leaves rep edge) u w := by
  constructor
  · intro acyclic' u w _ same walk
    have cycle := contracted_of_leaves walk
    rw [← same] at cycle
    exact acyclic' _ cycle
  · intro noReturn a cycle
    obtain ⟨u, isStart⟩ : ∃ u, rep u = a := by
      obtain ⟨_, ⟨u, _, isStart, _⟩, _⟩ := TransGen.head'_iff.1 cycle
      exact ⟨u, isStart⟩
    rw [← isStart] at cycle
    obtain ⟨w, isEnd, walk⟩ := leaves_of_contracted cycle
    by_cases isMerged : merged u
    · exact noReturn u w isMerged isEnd.symm walk
    · rw [alone u isMerged w isEnd] at walk
      rcases path_or_meets_merged alone isMerged walk with path | ⟨x, xMerged, before, after⟩
      · exact acyclic u path
      · exact noReturn x x xMerged rfl (TransGen.trans_right after before)

end Itex.Lib
