import Itex.Lib.DepthFirst

/-!
Contract: the calls that a depth-first traversal with fixed predicates makes.

Owns: the recorded calls, forests of calls, and the theorem that a traversal ends, calls
forth a forest, and enters exactly the nodes reached through admitted nodes that it advances from.

Does not own: predicates that read what the callbacks write.
-/

set_option autoImplicit false

namespace Itex.Lib.DepthFirst

variable {ν : Type}

inductive Call (ν : Type) where
  | pre (i : ν)
  | post (i : ν)
deriving DecidableEq, Repr

/-- Records the calls, under predicates that are fixed. -/
def Visitor.recorder (enter advance : ν → Bool) : Visitor ν (List (Call ν)) where
  enter := fun _ => enter
  advance := fun _ => advance
  preOrder := fun calls i => calls ++ [.pre i]
  postOrder := fun calls i => calls ++ [.post i]
  onBackEdge := fun calls _ _ => calls

def pres (calls : List (Call ν)) : List ν := calls.filterMap fun | .pre i => some i | .post _ => none

def posts (calls : List (Call ν)) : List ν := calls.filterMap fun | .pre _ => none | .post i => some i

/-- Where the search goes on from a node. -/
def advancing (advance : ν → Bool) (next : ν → List ν) (i : ν) : List ν := if advance i then next i else []

/-- Calls for nodes of `source`, one after the other. Between the two calls for a node stand those
for the nodes first discovered below it. -/
inductive Forest (next : ν → List ν) : (ν → Prop) → List (Call ν) → Prop
  | nil {source : ν → Prop} : Forest next source []
  | tree {source : ν → Prop} {calls below : List (Call ν)} {i : ν} (before : Forest next source calls) (isSource : source i)
      (inner : Forest next (· ∈ next i) below) : Forest next source (calls ++ (.pre i :: below ++ [.post i]))

section Forests

variable {next : ν → List ν} {source : ν → Prop} {calls : List (Call ν)} (forest : Forest next source calls)

include forest

theorem Forest.posts_perm : (posts calls).Perm (pres calls) := by
  induction forest with
  | nil => exact List.Perm.refl _
  | @tree _ calls below i _ _ _ ihBefore ihInner =>
    have splitPosts : posts (calls ++ (.pre i :: below ++ [.post i])) = posts calls ++ (posts below ++ [i]) := by
      simp [posts, List.filterMap_append]
    have splitPres : pres (calls ++ (.pre i :: below ++ [.post i])) = pres calls ++ i :: pres below := by
      simp [pres, List.filterMap_append]
    rw [splitPosts, splitPres]
    exact ihBefore.append ((List.perm_append_singleton i _).trans (ihInner.cons i))

/-- Each node called has a forest between its calls. -/
theorem Forest.enclosed {i : ν} (called : i ∈ pres calls) : ∃ before below after,
    calls = before ++ .pre i :: below ++ .post i :: after ∧ Forest next (· ∈ next i) below := by
  induction forest with
  | nil => cases called
  | @tree _ calls below k _ _ inner ihBefore ihInner =>
    have cases : i ∈ pres calls ∨ i = k ∨ i ∈ pres below := by
      simpa [pres, List.filterMap_append] using called
    rcases cases with earlier | rfl | deeper
    · obtain ⟨before, below', after, split, isForest⟩ := ihBefore earlier
      exact ⟨before, below', after ++ (.pre k :: below ++ [.post k]), by simp [split], isForest⟩
    · exact ⟨calls, below, [], by simp, inner⟩
    · obtain ⟨before, below', after, split, isForest⟩ := ihInner deeper
      exact ⟨calls ++ .pre k :: before, below', after ++ [.post k], by simp [split], isForest⟩

end Forests

/-- The calls so far, with the trees of the nodes on the stack still open. The nodes that the entries
on top are from are those of `source`. -/
inductive Opened (next : ν → List ν) (roots : ν → Prop) : List (StackElem ν) → List (Call ν) → (ν → Prop) → Prop
  | base {calls : List (Call ν)} (forest : Forest next roots calls) : Opened next roots [] calls roots
  | entry {stack : List (StackElem ν)} {calls : List (Call ν)} {source : ν → Prop} {w : StackElem ν}
      (opened : Opened next roots stack calls source) (isEntry : w.childrenVisited = false) (isSource : source w.node) :
      Opened next roots (w :: stack) calls source
  | node {stack : List (StackElem ν)} {calls below : List (Call ν)} {source : ν → Prop} {w : StackElem ν}
      (opened : Opened next roots stack calls source) (again : w.childrenVisited = true) (isSource : source w.node)
      (inner : Forest next (· ∈ next w.node) below) :
      Opened next roots (w :: stack) (calls ++ .pre w.node :: below) (· ∈ next w.node)

section Stack

variable {next : ν → List ν} {roots source : ν → Prop} {w : StackElem ν} {stack : List (StackElem ν)}
  {calls : List (Call ν)}

theorem Opened.tree (opened : Opened next roots stack calls source) {i : ν} (isSource : source i) {below : List (Call ν)}
    (inner : Forest next (· ∈ next i) below) : Opened next roots stack (calls ++ (.pre i :: below ++ [.post i])) source := by
  induction opened with
  | base forest => exact .base (forest.tree isSource inner)
  | entry _ isEntry isEntrySource ih => exact .entry (ih isSource) isEntry isEntrySource
  | node opened again isNodeSource innerNode _ =>
    rw [List.append_assoc, List.cons_append]
    exact .node opened again isNodeSource (innerNode.tree isSource inner)

theorem Opened.push (opened : Opened next roots stack calls source) {entries : List (StackElem ν)}
    (fresh : ∀ e ∈ entries, e.childrenVisited = false ∧ source e.node) : Opened next roots (entries ++ stack) calls source := by
  induction entries with
  | nil => exact opened
  | cons e rest ih =>
    obtain ⟨isEntry, isSource⟩ := fresh e List.mem_cons_self
    exact .entry (ih fun e' mem => fresh e' (List.mem_cons_of_mem _ mem)) isEntry isSource

section

variable (opened : Opened next roots (w :: stack) calls source)

include opened

theorem Opened.drop (isEntry : w.childrenVisited = false) : source w.node ∧ Opened next roots stack calls source := by
  cases opened with
  | entry opened _ isSource => exact ⟨isSource, opened⟩
  | node _ again => exact absurd (isEntry.symm.trans again) Bool.false_ne_true

theorem Opened.close (again : w.childrenVisited = true) : ∃ source, Opened next roots stack (calls ++ [.post w.node]) source := by
  cases opened with
  | entry _ isEntry => exact absurd (isEntry.symm.trans again) Bool.false_ne_true
  | node opened _ isSource inner =>
    rw [List.append_assoc]
    exact ⟨_, opened.tree isSource inner⟩

end

/-- The stack and the marks of a traversal between two turns. -/
structure Traced (next : ν → List ν) (roots : ν → Prop) (enter : ν → Bool) (config : Config ν (List (Call ν))) : Prop where
  opened : ∃ source, Opened next roots config.stack config.state source
  visiting : ∀ w ∈ config.stack, w.childrenVisited = true → config.mark w.node = .visiting ∧ enter w.node = true
  apart : config.stack.Pairwise fun w e => w.childrenVisited = true → e.childrenVisited = true → w.node ≠ e.node

/-- Entries for nodes that are not visited yet. -/
theorem Traced.push {enter : ν → Bool} {mark : ν → NodeState} (traced : Traced next roots enter ⟨stack, mark, calls⟩)
    (opened : Opened next roots stack calls source) {entries : List (StackElem ν)}
    (fresh : ∀ e ∈ entries, e.childrenVisited = false ∧ source e.node) :
    Traced next roots enter ⟨entries ++ stack, mark, calls⟩ := by
  have noneAgain : ∀ e ∈ entries, e.childrenVisited ≠ true := fun e mem isAgain =>
    Bool.false_ne_true ((fresh e mem).1.symm.trans isAgain)
  refine ⟨⟨source, opened.push fresh⟩, fun e mem isAgain => ?_, List.pairwise_append.2 ⟨?_, traced.apart, ?_⟩⟩
  · rcases List.mem_append.1 mem with mem | mem
    · exact absurd isAgain (noneAgain e mem)
    · exact traced.visiting e mem isAgain
  · exact List.pairwise_of_forall_mem_list fun e mem _ _ isAgain => absurd isAgain (noneAgain e mem)
  · exact fun e mem _ _ isAgain => absurd isAgain (noneAgain e mem)

end Stack

section Record

variable [DecidableEq ν] {next : ν → List ν} {nodes roots : List ν} {enter advance : ν → Bool}
  {w : StackElem ν} {stack : List (StackElem ν)} {mark : ν → NodeState} {calls : List (Call ν)}

theorem visit_recorder (next : ν → List ν) (enter advance : ν → Bool) (w : StackElem ν) (stack : List (StackElem ν))
    (mark : ν → NodeState) (calls : List (Call ν)) :
    visit (.preOrderOnly (fun _ => enter) fun seen i => seen ++ [i]) (advancing advance next) w stack mark (pres calls) =
      let config := visit (.recorder enter advance) next w stack mark calls
      ⟨config.stack, config.mark, pres config.state⟩ := by
  simp only [visit, Visitor.recorder, Visitor.preOrderOnly, advancing]
  split_ifs <;> simp_all [pres]

/-- The nodes entered are those of a traversal that only follows the nodes advanced from. -/
theorem loop_recorder (next : ν → List ν) (enter advance : ν → Bool) (fuel : Nat) (config : Config ν (List (Call ν))) :
    loop (.preOrderOnly (fun _ => enter) fun seen i => seen ++ [i]) (advancing advance next) fuel
        ⟨config.stack, config.mark, pres config.state⟩ =
      let final := loop (.recorder enter advance) next fuel config
      ⟨final.stack, final.mark, pres final.state⟩ := by
  induction fuel generalizing config with
  | zero => rfl
  | succ fuel ih =>
    obtain ⟨stack, mark, calls⟩ := config
    cases stack with
    | nil => rfl
    | cons w stack =>
      have turn := visit_recorder next enter advance w stack mark calls
      exact (congrArg (loop _ _ fuel) turn).trans (ih _)

theorem Traced.visit {roots : ν → Prop} (traced : Traced (advancing advance next) roots enter ⟨w :: stack, mark, calls⟩) :
    Traced (advancing advance next) roots enter (visit (.recorder enter advance) next w stack mark calls) := by
  obtain ⟨source, opened⟩ := traced.opened
  obtain ⟨apartW, apart⟩ := List.pairwise_cons.1 traced.apart
  have visiting := fun e mem => traced.visiting e (List.mem_cons_of_mem w mem)
  change Traced _ _ _ (if mark w.node = .done then _ else if enter w.node = false then _ else
    if w.childrenVisited = true then _ else if mark w.node = .visiting then _ else
    if advance w.node = false then _ else _)
  cases again : w.childrenVisited with
  | true =>
    obtain ⟨isVisiting, enters⟩ := traced.visiting w List.mem_cons_self again
    have isVisiting : mark w.node = .visiting := isVisiting
    rw [if_neg (by rw [isVisiting]; decide), if_neg (show ¬ enter w.node = false by simp [enters]), if_pos rfl]
    refine ⟨opened.close again, fun e mem isAgain => ?_, apart⟩
    have differs : e.node ≠ w.node := Ne.symm (apartW e mem again isAgain)
    exact ⟨(Function.update_of_ne differs _ _).trans (visiting e mem isAgain).1, (visiting e mem isAgain).2⟩
  | false =>
    obtain ⟨isSource, dropped⟩ := opened.drop again
    have kept : Traced (advancing advance next) roots enter ⟨stack, mark, calls⟩ := ⟨⟨source, dropped⟩, visiting, apart⟩
    by_cases isDone : mark w.node = .done
    · rw [if_pos isDone]
      exact kept
    rw [if_neg isDone]
    by_cases refused : enter w.node = false
    · rw [if_pos refused]
      refine ⟨⟨source, dropped⟩, fun e mem isAgain => ?_, apart⟩
      obtain ⟨isVisiting, enters⟩ := visiting e mem isAgain
      have differs : e.node ≠ w.node := fun same => Bool.false_ne_true (refused.symm.trans (same ▸ enters))
      exact ⟨(Function.update_of_ne differs _ _).trans isVisiting, enters⟩
    rw [if_neg refused, if_neg Bool.false_ne_true]
    by_cases isVisiting : mark w.node = .visiting
    · rw [if_pos isVisiting]
      exact kept
    rw [if_neg isVisiting]
    have open' : Opened (advancing advance next) roots (⟨w.node, true, w.src⟩ :: stack) (calls ++ [.pre w.node])
        (· ∈ advancing advance next w.node) := .node dropped rfl isSource .nil
    have unmarked : ∀ e ∈ stack, e.childrenVisited = true → e.node ≠ w.node := fun e mem isAgain same =>
      isVisiting (same ▸ (visiting e mem isAgain).1)
    have entered : Traced (advancing advance next) roots enter ⟨⟨w.node, true, w.src⟩ :: stack,
        Function.update mark w.node .visiting, calls ++ [.pre w.node]⟩ := by
      refine ⟨⟨_, open'⟩, fun e mem isAgain => ?_,
        List.pairwise_cons.2 ⟨fun e mem _ isAgain => Ne.symm (unmarked e mem isAgain), apart⟩⟩
      rcases List.mem_cons.1 mem with rfl | mem
      · exact ⟨Function.update_self _ _ _, eq_true_of_ne_false refused⟩
      · exact ⟨(Function.update_of_ne (unmarked e mem isAgain) _ _).trans (visiting e mem isAgain).1,
          (visiting e mem isAgain).2⟩
    by_cases stays : advance w.node = false
    · exact (if_pos stays).symm ▸ entered
    · have entries : ∀ e ∈ ((next w.node).map fun i => (⟨i, false, some w.node⟩ : StackElem ν)).reverse,
          e.childrenVisited = false ∧ e.node ∈ advancing advance next w.node := by
        intro e mem
        obtain ⟨i, edge, rfl⟩ := List.mem_map.1 (List.mem_reverse.1 mem)
        exact ⟨rfl, by rwa [advancing, if_pos (eq_true_of_ne_false stays)]⟩
      exact (if_neg stays).symm ▸ entered.push open' entries

theorem Traced.loop {roots : ν → Prop} (fuel : Nat) {config : Config ν (List (Call ν))}
    (traced : Traced (advancing advance next) roots enter config) :
    Traced (advancing advance next) roots enter (loop (.recorder enter advance) next fuel config) := by
  induction fuel generalizing config with
  | zero => exact traced
  | succ fuel ih =>
    obtain ⟨stack, mark, calls⟩ := config
    cases stack with
    | nil => exact traced
    | cons w stack => exact ih traced.visit

/-- The loop ends, its calls are a forest, and it enters each node once that is reached from an
entered root. -/
theorem recorder_spec (rootsListed : ∀ r ∈ roots, r ∈ nodes) (nextListed : ∀ i ∈ nodes, ∀ j ∈ next i, j ∈ nodes)
    (enter advance : ν → Bool) :
    let final := loop (.recorder enter advance) next (budget nodes next roots) (Config.initial roots [])
    final.stack = [] ∧ Forest (advancing advance next) (· ∈ roots) final.state ∧ (pres final.state).Nodup ∧
      ∀ i, i ∈ pres final.state ↔
        Reach (advancing advance next) (enter · = true) (fun r => r ∈ roots ∧ enter r = true) i := by
  intro final
  have initial : Traced (advancing advance next) (· ∈ roots) enter (Config.initial roots []) := by
    have entries : ∀ e ∈ (Config.initial roots ([] : List (Call ν))).stack, e.childrenVisited = false ∧ e.node ∈ roots := by
      intro e mem
      obtain ⟨r, isRoot, rfl⟩ := List.mem_map.1 (List.mem_reverse.1 mem)
      exact ⟨rfl, isRoot⟩
    have before : Traced (advancing advance next) (· ∈ roots) enter ⟨[], fun _ => .notVisited, []⟩ :=
      ⟨⟨_, .base .nil⟩, fun _ mem => absurd mem List.not_mem_nil, List.Pairwise.nil⟩
    have pushed := before.push (.base .nil) entries
    rwa [List.append_nil] at pushed
  have fewer : ∀ i, (advancing advance next i).length ≤ (next i).length := by
    intro i
    unfold advancing
    split
    · exact Nat.le_refl _
    · exact Nat.zero_le _
  have listed : ∀ i ∈ nodes, ∀ j ∈ advancing advance next i, j ∈ nodes := by
    intro i mem j edge
    unfold advancing at edge
    split at edge
    · exact nextListed i mem j edge
    · cases edge
  have enough : remaining nodes (advancing advance next) (Config.initial roots ([] : List ν)) ≤ budget nodes next roots := by
    simp only [remaining, budget, Config.initial, List.length_reverse, List.length_map, if_true]
    exact Nat.add_le_add_left (List.sum_le_sum fun i _ => Nat.add_le_add_left (fewer i) 1) _
  obtain ⟨visited, progress, emptied⟩ := @Progress.loop _ _ _ _ _ _ (fun _ => enter) (fun seen i => seen ++ [i])
    (enter · = true) [] listed (fun _ _ _ => Iff.rfl) _ _ _ (.initial rootsListed) enough
  have same := loop_recorder next enter advance (budget nodes next roots) (Config.initial roots [])
  change loop _ _ _ (Config.initial roots ([] : List ν)) = _ at same
  have isVisited : pres final.state = visited := by
    have state := progress.state
    rw [same] at state
    exact state.trans (by simp [← List.flatMap_def])
  have isEmpty : final.stack = [] := by
    rw [same] at emptied
    exact emptied
  refine ⟨isEmpty, ?_, isVisited ▸ progress.nodup, fun i => isVisited ▸ progress.mem_iff emptied i⟩
  obtain ⟨source, opened⟩ := (initial.loop (budget nodes next roots)).opened
  change Opened _ _ final.stack _ _ at opened
  rw [isEmpty] at opened
  cases opened with
  | base forest => exact forest

end Record

end Itex.Lib.DepthFirst
