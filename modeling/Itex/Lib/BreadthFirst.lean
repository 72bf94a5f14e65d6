import Mathlib

/-!
Contract: a breadth-first search for a goal.

Owns: the search with its queue, and that it finds a goal exactly if one is reached.

The loop runs on fuel: one turn for each node.
-/

namespace Itex.Lib.BreadthFirst

open Relation

variable {ν : Type} [DecidableEq ν]

/-- A queue, and all nodes that ever were in it. -/
structure Frontier (ν : Type) where
  queue : List ν
  visited : List ν

def Frontier.push (frontier : Frontier ν) (i : ν) : Frontier ν :=
  if i ∈ frontier.visited then frontier else ⟨frontier.queue ++ [i], i :: frontier.visited⟩

def loop (next : ν → List ν) (goal : ν → Bool) : Nat → Frontier ν → Option Bool
  | _, ⟨[], _⟩ => some false
  | 0, ⟨_ :: _, _⟩ => none
  | fuel + 1, ⟨i :: queue, visited⟩ =>
    if goal i then some true else loop next goal fuel ((next i).foldl Frontier.push ⟨queue, visited⟩)

/-- The search from some roots in a graph of `size` nodes. -/
def search (next : ν → List ν) (goal : ν → Bool) (size : Nat) (roots : List ν) : Option Bool :=
  loop next goal size (roots.foldl Frontier.push ⟨[], []⟩)

/-! ## The frontier -/

/-- What was in the queue is visited, once, and none of it but the queue is left to follow. -/
structure Frontier.Inv (next : ν → List ν) (goal : ν → Bool) (nodes : List ν) (frontier : Frontier ν) : Prop where
  nodup : frontier.visited.Nodup
  listed : ∀ i ∈ frontier.visited, i ∈ nodes
  queued : ∀ i ∈ frontier.queue, i ∈ frontier.visited
  followed : ∀ i ∈ frontier.visited, i ∉ frontier.queue → goal i = false ∧ ∀ j ∈ next i, j ∈ frontier.visited

theorem foldl_push (new : List ν) (frontier : Frontier ν) (nodup : frontier.visited.Nodup) :
    ∃ fresh, (new.foldl Frontier.push frontier).queue = frontier.queue ++ fresh ∧
      (new.foldl Frontier.push frontier).visited = fresh.reverse ++ frontier.visited ∧
      (new.foldl Frontier.push frontier).visited.Nodup ∧ (∀ i ∈ fresh, i ∈ new) ∧
      ∀ i ∈ new, i ∈ (new.foldl Frontier.push frontier).visited := by
  induction new generalizing frontier with
  | nil => exact ⟨[], (List.append_nil _).symm, rfl, nodup, fun _ mem => mem, fun _ mem => nomatch mem⟩
  | cons i new ih =>
    rw [List.foldl_cons]
    by_cases seen : i ∈ frontier.visited
    · obtain ⟨fresh, isQueue, isVisited, later, fromNew, all⟩ := ih frontier nodup
      have same : frontier.push i = frontier := if_pos seen
      rw [same]
      refine ⟨fresh, isQueue, isVisited, later, fun j mem => List.mem_cons_of_mem _ (fromNew j mem), ?_⟩
      intro j mem
      rcases List.mem_cons.1 mem with rfl | mem
      · rw [isVisited]
        exact List.mem_append_right _ seen
      · exact all j mem
    · have pushed : frontier.push i = ⟨frontier.queue ++ [i], i :: frontier.visited⟩ := if_neg seen
      obtain ⟨fresh, isQueue, isVisited, later, fromNew, all⟩ :=
        ih ⟨frontier.queue ++ [i], i :: frontier.visited⟩ (List.nodup_cons.2 ⟨seen, nodup⟩)
      simp_all

variable {next : ν → List ν} {goal : ν → Bool} {nodes : List ν}

theorem Frontier.Inv.step {i : ν} {queue visited : List ν} (inv : Frontier.Inv next goal nodes ⟨i :: queue, visited⟩)
    (closed : ∀ i ∈ nodes, ∀ j ∈ next i, j ∈ nodes) (isGoal : goal i = false) :
    Frontier.Inv next goal nodes ((next i).foldl Frontier.push ⟨queue, visited⟩) := by
  obtain ⟨fresh, isQueue, isVisited, nodup, fromNext, all⟩ := foldl_push (next i) ⟨queue, visited⟩ inv.nodup
  have inNodes := inv.listed i (inv.queued i List.mem_cons_self)
  refine ⟨nodup, ?_, ?_, ?_⟩
  · intro j mem
    rw [isVisited] at mem
    rcases List.mem_append.1 mem with isFresh | isOld
    · exact closed i inNodes j (fromNext j (List.mem_reverse.1 isFresh))
    · exact inv.listed j isOld
  · intro j mem
    rw [isQueue] at mem
    rw [isVisited]
    rcases List.mem_append.1 mem with isOld | isFresh
    · exact List.mem_append_right _ (inv.queued j (List.mem_cons_of_mem _ isOld))
    · exact List.mem_append_left _ (List.mem_reverse.2 isFresh)
  · intro j mem notQueued
    rw [isQueue, List.mem_append, not_or] at notQueued
    rw [isVisited] at mem
    rcases List.mem_append.1 mem with isFresh | isOld
    · exact absurd (List.mem_reverse.1 isFresh) notQueued.2
    · by_cases same : j = i
      · rw [same]
        exact ⟨isGoal, all⟩
      · have followed := inv.followed j isOld (by
          rw [List.mem_cons, not_or]
          exact ⟨same, notQueued.1⟩)
        refine ⟨followed.1, ?_⟩
        intro k isNext
        rw [isVisited]
        exact List.mem_append_right _ (followed.2 k isNext)

/-- A set of nodes without a goal that no edge leaves. -/
def Barren (next : ν → List ν) (goal : ν → Bool) (inside : List ν) : Prop :=
  ∀ i ∈ inside, goal i = false ∧ ∀ j ∈ next i, j ∈ inside

omit [DecidableEq ν] in
theorem Barren.of_path {inside : List ν} (barren : Barren next goal inside) {i j : ν} (mem : i ∈ inside)
    (path : ReflTransGen (fun a b => b ∈ next a) i j) : goal j = false := by
  have inSet : j ∈ inside := by
    induction path with
    | refl => exact mem
    | tail _ edge ih => exact (barren _ ih).2 _ edge
  exact (barren j inSet).1

theorem loop_ends (closed : ∀ i ∈ nodes, ∀ j ∈ next i, j ∈ nodes) {fuel : Nat} {frontier : Frontier ν}
    (inv : Frontier.Inv next goal nodes frontier)
    (enough : frontier.queue.length + nodes.length ≤ fuel + frontier.visited.length) :
    (loop next goal fuel frontier = some true ∧
      ∃ root ∈ frontier.queue, ∃ i, goal i = true ∧ ReflTransGen (fun a b => b ∈ next a) root i) ∨
    (loop next goal fuel frontier = some false ∧
      ∃ inside, (∀ i ∈ frontier.visited, i ∈ inside) ∧ Barren next goal inside) := by
  induction fuel generalizing frontier with
  | zero =>
    obtain ⟨queue, visited⟩ := frontier
    have fewer := (inv.nodup.subperm inv.listed).length_le
    match queue with
    | [] => exact .inr ⟨rfl, visited, fun _ mem => mem, fun i mem => inv.followed i mem List.not_mem_nil⟩
    | i :: queue =>
      rw [List.length_cons] at enough
      omega
  | succ fuel ih =>
    obtain ⟨queue, visited⟩ := frontier
    match queue with
    | [] => exact .inr ⟨rfl, visited, fun _ mem => mem, fun i mem => inv.followed i mem List.not_mem_nil⟩
    | i :: queue =>
      rw [loop]
      cases isGoal : goal i with
      | true => exact .inl ⟨if_pos rfl, i, List.mem_cons_self, i, isGoal, .refl⟩
      | false =>
        rw [if_neg Bool.false_ne_true]
        obtain ⟨fresh, isQueue, isVisited, -, fromNext, -⟩ := foldl_push (next i) ⟨queue, visited⟩ inv.nodup
        have later := ih (inv.step closed isGoal) (by
          rw [isQueue, isVisited, List.length_append, List.length_append, List.length_reverse]
          dsimp only at enough ⊢
          rw [List.length_cons] at enough
          omega)
        rcases later with ⟨found, root, inQueue, j, isGoal', path⟩ | ⟨none, inside, subset, barren⟩
        · rw [isQueue] at inQueue
          rcases List.mem_append.1 inQueue with isOld | isFresh
          · exact .inl ⟨found, root, List.mem_cons_of_mem _ isOld, j, isGoal', path⟩
          · exact .inl ⟨found, i, List.mem_cons_self, j, isGoal', .head (fromNext root isFresh) path⟩
        · refine .inr ⟨none, inside, fun j mem => subset j ?_, barren⟩
          rw [isVisited]
          exact List.mem_append_right _ mem

theorem search_spec (closed : ∀ i ∈ nodes, ∀ j ∈ next i, j ∈ nodes) {roots : List ν}
    (inNodes : ∀ root ∈ roots, root ∈ nodes) : ∃ found, search next goal nodes.length roots = some found ∧
      (found = true ↔ ∃ root ∈ roots, ∃ i, goal i = true ∧ ReflTransGen (fun a b => b ∈ next a) root i) := by
  obtain ⟨fresh, isQueue, isVisited, nodup, fromRoots, all⟩ := foldl_push roots (⟨[], []⟩ : Frontier ν) List.nodup_nil
  rw [List.nil_append] at isQueue
  rw [List.append_nil] at isVisited
  have inv : Frontier.Inv next goal nodes (roots.foldl Frontier.push ⟨[], []⟩) := by
    refine ⟨nodup, ?_, ?_, ?_⟩
    · intro i mem
      rw [isVisited, List.mem_reverse] at mem
      exact inNodes i (fromRoots i mem)
    · intro i mem
      rw [isQueue] at mem
      rw [isVisited, List.mem_reverse]
      exact mem
    · intro i mem notQueued
      rw [isVisited, List.mem_reverse] at mem
      rw [isQueue] at notQueued
      exact absurd mem notQueued
  rcases @loop_ends _ _ next goal nodes closed nodes.length _ inv (by
    rw [isQueue, isVisited, List.length_reverse]
    omega) with ⟨found, root, inQueue, i, isGoal, path⟩ | ⟨none, inside, subset, barren⟩
  · rw [isQueue] at inQueue
    exact ⟨true, found, fun _ => ⟨root, fromRoots root inQueue, i, isGoal, path⟩, fun _ => rfl⟩
  · refine ⟨false, none, fun isFound => absurd isFound Bool.false_ne_true, ?_⟩
    intro ⟨root, isRoot, i, isGoal, path⟩
    rw [barren.of_path (subset root (all root isRoot)) path] at isGoal
    cases isGoal

end Itex.Lib.BreadthFirst
