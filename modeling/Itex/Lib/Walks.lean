import Itex.Lib.DepthFirst

/-!
Contract: reachability through admitted nodes as walks.

Owns: the walk from a root to a reached node, the nodes that a walk reaches, and reversed walks.
-/

namespace Itex.Lib.DepthFirst

variable {ν : Type} {next : ν → List ν} {admitted root : ν → Prop}

theorem Reach.exists_walk {i : ν} (reached : Reach next admitted root i) :
    root i ∨ (admitted i ∧ ∃ first middle, root first ∧ (∀ m ∈ middle, admitted m ∧ ¬ root m) ∧
      (first :: (middle ++ [i])).IsChain fun a b => b ∈ next a) := by
  induction reached with
  | root isRoot => exact .inl isRoot
  | @step j i _ edge admits ih =>
    refine .inr ⟨admits, ?_⟩
    by_cases isRoot : root j
    · refine ⟨j, [], isRoot, by simp, ?_⟩
      simpa using edge
    · obtain ⟨admitsJ, first, middle, isFirst, through, walk⟩ := ih.resolve_left isRoot
      refine ⟨first, middle ++ [j], isFirst, ?_, ?_⟩
      · grind
      · rw [List.append_assoc, List.singleton_append, ← List.cons_append, List.isChain_append_cons_cons]
        exact ⟨walk, edge, List.isChain_singleton i⟩

theorem Reach.of_admitted_or_root {i : ν} (reached : Reach next (fun k => admitted k ∨ root k) root i) :
    Reach next admitted root i := by
  induction reached with
  | root isRoot => exact .root isRoot
  | step _ edge admits ih =>
    rcases admits with admits | isRoot
    · exact .step ih edge admits
    · exact .root isRoot

theorem Reach.of_walk {first : ν} {rest : List ν} (reached : Reach next admitted root first)
    (through : ∀ m ∈ rest, admitted m) (walk : (first :: rest).IsChain fun a b => b ∈ next a) :
    ∀ m ∈ first :: rest, Reach next admitted root m := by
  induction rest generalizing first with
  | nil =>
    intro m mem
    rw [List.mem_singleton.1 mem]
    exact reached
  | cons second rest ih =>
    obtain ⟨edge, walk⟩ := List.isChain_cons_cons.1 walk
    have onward : Reach next admitted root second := .step reached edge (through second (by simp))
    intro m mem
    rcases List.mem_cons.1 mem with isFirst | later
    · rw [isFirst]
      exact reached
    · exact ih onward (fun k inRest => through k (List.mem_cons_of_mem _ inRest)) walk m later

theorem walk_reverse {next' : ν → List ν} (converse : ∀ a b, b ∈ next a → a ∈ next' b) {first last : ν}
    {middle : List ν} (walk : (first :: (middle ++ [last])).IsChain fun a b => b ∈ next a) :
    (last :: (middle.reverse ++ [first])).IsChain fun a b => b ∈ next' a := by
  have reversed : last :: (middle.reverse ++ [first]) = (first :: (middle ++ [last])).reverse := by simp
  rw [reversed, List.isChain_reverse]
  exact walk.imp fun a b edge => converse a b edge

theorem walk_append {first i last : ν} {before after : List ν}
    (left : (first :: (before ++ [i])).IsChain fun a b => b ∈ next a)
    (right : (i :: (after ++ [last])).IsChain fun a b => b ∈ next a) :
    (first :: ((before ++ i :: after) ++ [last])).IsChain fun a b => b ∈ next a := by
  rw [List.append_assoc, List.cons_append, ← List.cons_append, List.isChain_split]
  exact ⟨left, right⟩

end Itex.Lib.DepthFirst
