import Mathlib

/-!
Contract: a commutative, associative operation applied to all elements of a list.

Owns: the combination of a list, its independence of the order, combining in two levels,
and the runs of a list of labelled elements.

Does not own: which operation, and a neutral element; there may be none.
-/

namespace Itex.Lib

variable {α : Type} (op : α → α → α)

/-- The operation applied to all elements; `empty` stands for the combination of none. -/
def combine (empty : α) : List α → α
  | [] => empty
  | first :: rest => rest.foldl op first

/-- The combination of the elements, if there are any. -/
def combine? (l : List α) : Option α := l.foldr (fun a others => Option.merge op (some a) others) none

theorem combine?_cons (a : α) (l : List α) : combine? op (a :: l) = Option.merge op (some a) (combine? op l) := rfl

section Associative

variable [Std.Associative op]

theorem merge_assoc (a b c : Option α) :
    Option.merge op (Option.merge op a b) c = Option.merge op a (Option.merge op b c) :=
  Std.Associative.assoc a b c

theorem combine?_append (l r : List α) : combine? op (l ++ r) = Option.merge op (combine? op l) (combine? op r) := by
  induction l with
  | nil => simp [combine?]
  | cons a l ih =>
    rw [List.cons_append, combine?_cons, ih, combine?_cons]
    exact (merge_assoc op _ _ _).symm

theorem combine?_cons_eq_some (first : α) (rest : List α) :
    combine? op (first :: rest) = some (rest.foldl op first) := by
  induction rest generalizing first with
  | nil => rfl
  | cons second rest ih =>
    have together : combine? op (first :: second :: rest) = combine? op (op first second :: rest) := by
      rw [combine?_cons, combine?_cons, combine?_cons]
      exact (merge_assoc op (some first) (some second) _).symm
    rw [together, ih]
    rfl

theorem combine_eq_getD (empty : α) (l : List α) : combine op empty l = (combine? op l).getD empty := by
  cases l with
  | nil => rfl
  | cons first rest =>
    rw [combine?_cons_eq_some]
    rfl

theorem combine?_eq_some {l : List α} (nonempty : l ≠ []) (empty : α) : combine? op l = some (combine op empty l) := by
  cases l with
  | nil => exact absurd rfl nonempty
  | cons first rest =>
    rw [combine?_cons_eq_some]
    rfl

theorem combine?_flatten (groups : List (List α)) (empty : α) (nonempty : ∀ group ∈ groups, group ≠ []) :
    combine? op groups.flatten = combine? op (groups.map (combine op empty)) := by
  induction groups with
  | nil => rfl
  | cons group groups ih =>
    rw [List.flatten_cons, combine?_append, List.map_cons, combine?_cons,
      combine?_eq_some op (nonempty group List.mem_cons_self) empty,
      ih fun other mem => nonempty other (List.mem_cons_of_mem _ mem)]

theorem combine_flatten (groups : List (List α)) (empty : α) (nonempty : ∀ group ∈ groups, group ≠ []) :
    combine op empty (groups.map (combine op empty)) = combine op empty groups.flatten := by
  rw [combine_eq_getD, combine_eq_getD, combine?_flatten op groups empty nonempty]

end Associative

theorem combine_replicate_empty {empty : α} (idempotent : op empty empty = empty) (count : Nat) :
    combine op empty (List.replicate count empty) = empty := by
  cases count with
  | zero => rfl
  | succ count =>
    change (List.replicate count empty).foldl op empty = empty
    induction count with
    | zero => rfl
    | succ count ih =>
      rw [List.replicate_succ, List.foldl_cons, idempotent]
      exact ih

theorem combine_flatten_of_alike [Std.Associative op] {groups : List (List α)} {empty : α}
    (idempotent : op empty empty = empty) (alike : (∀ group ∈ groups, group ≠ []) ∨ ∀ group ∈ groups, group = []) :
    combine op empty (groups.map (combine op empty)) = combine op empty groups.flatten := by
  rcases alike with nonempty | allEmpty
  · exact combine_flatten op groups empty nonempty
  · have isReplicate : groups.map (combine op empty) = List.replicate groups.length empty := by
      rw [List.eq_replicate_iff]
      refine ⟨List.length_map _, ?_⟩
      intro value mem
      obtain ⟨group, isGroup, isValue⟩ := List.mem_map.1 mem
      rw [← isValue, allEmpty group isGroup]
      rfl
    have isNil : groups.flatten = [] := List.flatten_eq_nil_iff.2 allEmpty
    rw [isReplicate, isNil, combine_replicate_empty op idempotent]
    rfl

theorem combine_perm [Std.Associative op] [Std.Commutative op] {l r : List α} (empty : α) (perm : l.Perm r) :
    combine op empty l = combine op empty r := by
  have swaps : LeftCommutative fun (a : α) (others : Option α) => Option.merge op (some a) others := by
    constructor
    intro a b others
    have swapped : Option.merge op (some a) (some b) = Option.merge op (some b) (some a) :=
      Std.Commutative.comm (some a) (some b)
    rw [← merge_assoc op, ← merge_assoc op, swapped]
  rw [combine_eq_getD, combine_eq_getD]
  unfold combine?
  rw [perm.foldr_eq]

section Runs

variable {κ : Type}

def labelled (groups : List (κ × List α)) : List (κ × α) := groups.flatMap fun group => group.2.map (group.1, ·)

theorem splitBy_labelled [DecidableEq κ] {groups : List (κ × List α)} (ne : (groups.map Prod.fst).Nodup)
    (nonempty : ∀ group ∈ groups, group.2 ≠ []) : ((labelled groups).splitBy fun element next => element.1 == next.1) =
      groups.map fun group => group.2.map (group.1, ·) := by
  unfold labelled
  rw [List.flatMap_def]
  apply List.splitBy_flatten
  · intro hasEmpty
    obtain ⟨group, isGroup, isEmpty⟩ := List.mem_map.1 hasEmpty
    exact nonempty group isGroup (List.map_eq_nil_iff.1 isEmpty)
  · intro run isRun
    obtain ⟨group, _, isMap⟩ := List.mem_map.1 isRun
    rw [← isMap, List.isChain_map]
    exact (List.pairwise_of_forall fun _ _ => beq_self_eq_true group.1).isChain
  · rw [List.isChain_map]
    have apart : groups.Pairwise fun first second => first.1 ≠ second.1 := List.pairwise_map.1 ne
    apply List.IsChain.imp_of_mem_imp _ apart.isChain
    intro first second isFirst isSecond notSame
    have firstNonempty := nonempty first isFirst
    have secondNonempty := nonempty second isSecond
    refine ⟨by simpa using firstNonempty, by simpa using secondNonempty, ?_⟩
    rw [List.getLast_map, List.head_map]
    exact beq_eq_false_iff_ne.2 notSame

end Runs

end Itex.Lib
