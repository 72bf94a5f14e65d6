import Itex.GraphUtils.Sort

/-!
Contract: the end of `SortTopologically`, where nodes are permuted.

Owns: that `PermuteNodesInPlace` puts each element where the permutation says, that the
permutation of a view does not crash, and that it renumbers the view.
-/

namespace Itex.GraphUtils

open Itex.Graph (Failure require PortId require_eq_ok)
open Itex.Lib MutableGraphView

variable {k p r : Nat} {node : MutableNodeView}

/-- A list of the indices below `n`, in some order. -/
structure IsOrder (n : Nat) (order : List Nat) : Prop where
  length : order.length = n
  nodup : order.Nodup
  bound : ∀ r ∈ order, r < n

namespace IsOrder

variable {n : Nat} {order : List Nat}

section

variable (isOrder : IsOrder n order)

include isOrder

theorem injective {i j r : Nat} (atI : order[i]? = some r) (atJ : order[j]? = some r) : i = j := by
  obtain ⟨boundI, isI⟩ := List.getElem?_eq_some_iff.1 atI
  obtain ⟨boundJ, isJ⟩ := List.getElem?_eq_some_iff.1 atJ
  exact (List.Nodup.getElem_inj_iff isOrder.nodup).1 (isI.trans isJ.symm)

theorem perm_range : order.Perm (List.range n) := by
  apply List.Subperm.perm_of_length_le
  · exact List.subperm_of_subset isOrder.nodup fun r member => List.mem_range.2 (isOrder.bound r member)
  · rw [List.length_range, isOrder.length]

theorem mem (bound : r < n) : r ∈ order :=
  isOrder.perm_range.mem_iff.2 (List.mem_range.2 bound)

theorem exists_eq (bound : r < n) : ∃ i, i < n ∧ order[i]? = some r := by
  obtain ⟨i, atI⟩ := List.mem_iff_getElem?.1 (isOrder.mem bound)
  exact ⟨i, isOrder.length ▸ read_lt atI, atI⟩

theorem getElem?_eq {i : Nat} (bound : i < n) : ∃ r, order[i]? = some r ∧ r < n := by
  have inside : i < order.length := by rw [isOrder.length]; exact bound
  exact ⟨order[i], List.getElem?_eq_getElem inside, isOrder.bound _ (List.getElem_mem inside)⟩

end

end IsOrder

section Swap

variable {α : Type}

section

variable {elements : List α} {i j : Nat} {first second : α} (atI : elements[i]? = some first)
  (atJ : elements[j]? = some second)

include atI atJ

theorem swapElements_eq_ok : swapElements elements i j = .ok ((elements.set i second).set j first) := by
  unfold swapElements
  rw [fetch_eq_ok.2 atI, fetch_eq_ok.2 atJ]
  rfl

theorem getElem?_swap (k : Nat) : ((elements.set i second).set j first)[k]? =
      if k = j then some first else if k = i then some second else elements[k]? := by
  grind

theorem perm_swap : ((elements.set i second).set j first).Perm elements := by
  obtain ⟨boundI, rfl⟩ := List.getElem?_eq_some_iff.1 atI
  obtain ⟨boundJ, rfl⟩ := List.getElem?_eq_some_iff.1 atJ
  exact List.set_set_perm boundI boundJ

end

end Swap

section PermuteInPlace

variable {α : Type}

/-- The elements are on their way to `desired`: where the permutation says `r`, there is
the element for `r`. -/
structure Cycling (desired : Nat → Option α) (n : Nat) (elements : List α) (permutation : List Nat) : Prop where
  isOrder : IsOrder n permutation
  length : elements.length = n
  reads : ∀ {i r : Nat}, permutation[i]? = some r → elements[i]? = desired r

/-- Positions that do not have their element. -/
def unsettled (n : Nat) (permutation : List Nat) : Nat :=
  (List.range n).countP fun i => permutation[i]? ≠ some i

variable {desired : Nat → Option α} {n : Nat} {elements : List α} {permutation : List Nat}

theorem Cycling.swap (cycling : Cycling desired n elements permutation) {other : Nat}
    {first second : α} (atP : permutation[p]? = some r) (atR : permutation[r]? = some other)
    (elementP : elements[p]? = some first) (elementR : elements[r]? = some second) :
    Cycling desired n ((elements.set p second).set r first) ((permutation.set p other).set r r) := by
  have readsAfter := getElem?_swap atP atR
  have permuted := perm_swap atP atR
  refine ⟨⟨?_, ?_, ?_⟩, ?_, ?_⟩
  · rw [permuted.length_eq, cycling.isOrder.length]
  · exact permuted.nodup_iff.2 cycling.isOrder.nodup
  · exact fun value member => cycling.isOrder.bound value (permuted.mem_iff.1 member)
  · rw [List.length_set, List.length_set, cycling.length]
  · intro i value atI
    rw [readsAfter] at atI
    rw [getElem?_swap elementP elementR]
    split at atI
    next isR =>
      cases atI
      rw [if_pos isR, ← elementP]
      exact cycling.reads atP
    next notR =>
      rw [if_neg notR]
      split at atI
      next isP =>
        cases atI
        rw [if_pos isP, ← elementR]
        exact cycling.reads atR
      next notP =>
        rw [if_neg notP]
        exact cycling.reads atI

theorem unsettled_swap (isOrder : IsOrder n permutation) {other : Nat}
    (atP : permutation[p]? = some r) (atR : permutation[r]? = some other) (moves : p ≠ r) :
    unsettled n ((permutation.set p other).set r r) < unsettled n permutation := by
  have readsAfter := getElem?_swap atP atR
  have boundR : r < n := isOrder.bound r (List.mem_of_getElem? atP)
  have wrong : permutation[r]? ≠ some r := fun fixed => moves (isOrder.injective atP fixed)
  unfold unsettled
  have split := range_eq_append_cons boundR
  rw [split, List.countP_append, List.countP_append, List.countP_cons_of_neg, List.countP_cons_of_pos]
  · have fewer : ∀ l : List Nat, l.countP (fun i => ((permutation.set p other).set r r)[i]? ≠ some i) ≤
        l.countP fun i => permutation[i]? ≠ some i := by
      intro l
      apply List.countP_mono_left
      intro i _ unsettledAfter
      rw [decide_eq_true_eq, readsAfter] at unsettledAfter
      rw [decide_eq_true_eq]
      by_cases isR : i = r
      · rw [if_pos isR, isR] at unsettledAfter
        exact absurd rfl unsettledAfter
      · grind
    have before := fewer ((List.range n).take r)
    have after := fewer ((List.range n).drop (r + 1))
    omega
  · simpa using wrong
  · rw [readsAfter, if_pos rfl]
    simp

theorem permuteCycle_spec (p : Nat) (bound : p < n) : ∀ (turns : Nat) (elements : List α) (permutation : List Nat),
      Cycling desired n elements permutation → unsettled n permutation < turns →
      ∃ elements' permutation', permuteCycle p turns (elements, permutation) =
          .ok (elements', permutation') ∧ Cycling desired n elements' permutation' ∧ elements'.Perm elements ∧
        permutation'[p]? = some p ∧ ∀ i : Nat, permutation[i]? = some i → permutation'[i]? = some i := by
  intro turns
  induction turns with
  | zero =>
    intro _ _ _ enough
    exact absurd enough (Nat.not_lt_zero _)
  | succ turns ih =>
    intro elements permutation cycling enough
    obtain ⟨r, atP, boundR⟩ := cycling.isOrder.getElem?_eq bound
    obtain ⟨other, atR, -⟩ := cycling.isOrder.getElem?_eq boundR
    unfold permuteCycle
    rw [fetch_eq_ok.2 atP]
    by_cases settled : p = r
    · refine ⟨elements, permutation, ?_, cycling, List.Perm.refl _, settled ▸ atP, fun _ fixed => fixed⟩
      exact if_pos settled
    · have elementP : elements[p]? = some _ := List.getElem?_eq_getElem (cycling.length ▸ bound)
      have elementR : elements[r]? = some _ := List.getElem?_eq_getElem (cycling.length ▸ boundR)
      have less := unsettled_swap cycling.isOrder atP atR settled
      obtain ⟨elements', permutation', ran, cycling', same, fixed, kept⟩ :=
        ih _ _ (cycling.swap atP atR elementP elementR) (by omega)
      refine ⟨elements', permutation', ?_, cycling', same.trans (perm_swap elementP elementR), fixed,
        fun i fixedBefore => kept i ?_⟩
      · show (if p = r then _ else _) = _
        rw [if_neg settled, swapElements_eq_ok elementP elementR, swapElements_eq_ok atP atR]
        exact ran
      · grind

theorem cycles_spec (isOrder : IsOrder n permutation) (length : elements.length = n) :
    ∃ permuted, (List.range (permutation.length - 1)).foldlM
      (fun state p => permuteCycle p (permutation.length + 1) state) (elements, permutation) =
        .ok (permuted, List.range n) ∧ permuted.Perm elements ∧
      ∀ {i r : Nat}, permutation[i]? = some r → permuted[r]? = elements[i]? := by
  have start : Cycling (fun r => elements[permutation.idxOf r]?) n elements permutation := by
    refine ⟨isOrder, length, ?_⟩
    intro i r atI
    obtain ⟨bound, rfl⟩ := List.getElem?_eq_some_iff.1 atI
    rw [List.Nodup.idxOf_getElem isOrder.nodup]
  have run : ∃ final, (List.range (permutation.length - 1)).foldlM
      (fun state p => permuteCycle p (permutation.length + 1) state) (elements, permutation) = .ok final ∧
      (Cycling (fun r => elements[permutation.idxOf r]?) n final.1 final.2 ∧ final.1.Perm elements ∧
        ∀ i ∈ List.range (permutation.length - 1), final.2[i]? = some i) := by
    apply exists_foldlM_eq_ok (fun seen (state : List α × List Nat) =>
      Cycling (fun r => elements[permutation.idxOf r]?) n state.1 state.2 ∧ state.1.Perm elements ∧
        ∀ i ∈ seen, state.2[i]? = some i)
    · exact ⟨start, List.Perm.refl _, by simp⟩
    · intro seen p rest state split ⟨cycling, before, settled⟩
      have member : p ∈ List.range (permutation.length - 1) := by rw [split]; simp
      have bound : p < n := by
        rw [List.mem_range, isOrder.length] at member
        omega
      have enough : unsettled n state.2 < permutation.length + 1 := by
        rw [isOrder.length, Nat.lt_succ_iff]
        exact Nat.le_trans List.countP_le_length (by rw [List.length_range])
      obtain ⟨elements', permutation', ran, cycling', same, fixed, kept⟩ :=
        permuteCycle_spec p bound _ _ _ cycling enough
      refine ⟨(elements', permutation'), ran, cycling', same.trans before, ?_⟩
      grind
  obtain ⟨⟨permuted, final⟩, ran, cycling, same, settled⟩ := run
  have allSettled : ∀ r, r < n → final[r]? = some r := by
    intro r bound
    by_cases isLast : r = n - 1
    · -- The last position has what no other one has.
      obtain ⟨value, atR, boundValue⟩ := cycling.isOrder.getElem?_eq bound
      by_cases same : value = r
      · rw [atR, same]
      · have fixed := settled value (by rw [List.mem_range, isOrder.length]; omega)
        exact absurd (cycling.isOrder.injective fixed atR) same
    · exact settled r (by rw [List.mem_range, isOrder.length]; omega)
  have identity : final = List.range n := by
    apply List.ext_getElem (by rw [cycling.isOrder.length, List.length_range])
    intro r inside _
    rw [List.getElem_range]
    exact (List.getElem?_eq_some_iff.1 (allSettled r (cycling.isOrder.length ▸ inside))).2
  refine ⟨permuted, identity ▸ ran, same, ?_⟩
  intro i r atI
  rw [cycling.reads (allSettled r (isOrder.bound r (List.mem_of_getElem? atI)))]
  exact (start.reads atI).symm

theorem permuteNodesInPlace_spec (isOrder : IsOrder n permutation) (length : elements.length = n) :
    ∃ permuted, permuteNodesInPlace elements permutation = .ok permuted ∧ permuted.length = n ∧
      ∀ {i r : Nat}, permutation[i]? = some r → permuted[r]? = elements[i]? := by
  obtain ⟨permuted, ran, same, reads⟩ := cycles_spec isOrder length
  refine ⟨permuted, ?_, same.length_eq.trans length, reads⟩
  unfold permuteNodesInPlace
  rw [bind_ok]
  refine ⟨(), require_eq_ok.2 (by rw [length, isOrder.length]), ?_⟩
  rw [bind_ok]
  exact ⟨_, ran, rfl⟩

theorem invertPermutation_spec (isOrder : IsOrder n permutation) : ∃ inverse,
    invertPermutation permutation = .ok inverse ∧ IsOrder n inverse ∧
      ∀ i r : Nat, permutation[i]? = some r → inverse[r]? = some i := by
  have run : ∃ inverse, invertPermutation permutation = .ok inverse ∧ (inverse.length = n ∧
      ∀ i ∈ List.range permutation.length, ∀ r : Nat, permutation[i]? = some r → inverse[r]? = some i) := by
    apply exists_foldlM_eq_ok (fun seen (inverse : List Nat) => inverse.length = n ∧
      ∀ i ∈ seen, ∀ r : Nat, permutation[i]? = some r → inverse[r]? = some i)
    · exact ⟨by rw [List.length_replicate, isOrder.length], by simp⟩
    · intro seen i rest inverse split ⟨length, written⟩
      have member : i ∈ List.range permutation.length := by rw [split]; simp
      obtain ⟨r, atI, bound⟩ := isOrder.getElem?_eq (isOrder.length ▸ List.mem_range.1 member)
      refine ⟨inverse.set r i, ?_, by rw [List.length_set, length], ?_⟩
      · exact bind_ok.2 ⟨r, fetch_eq_ok.2 atI, bind_ok.2 ⟨(), require_eq_ok.2 (length ▸ bound), rfl⟩⟩
      · intro j mem r' atJ
        by_cases same : r' = r
        · cases isOrder.injective (same ▸ atJ) atI
          rw [same, List.getElem?_set_self (length ▸ bound)]
        · rw [List.getElem?_set_ne (Ne.symm same)]
          rcases List.mem_append.1 mem with earlier | last
          · exact written j earlier r' atJ
          · rw [List.mem_singleton.1 last, atI] at atJ
            exact absurd (Option.some.inj atJ).symm same
  obtain ⟨inverse, ran, length, written⟩ := run
  have inverts : ∀ i r : Nat, permutation[i]? = some r → inverse[r]? = some i := fun i r atI =>
    written i (List.mem_range.2 (read_lt atI)) r atI
  have source : ∀ {r i : Nat}, inverse[r]? = some i → permutation[i]? = some r := by
    intro r i atR
    obtain ⟨j, -, atJ⟩ := isOrder.exists_eq (length ▸ (read_lt atR))
    rw [inverts j r atJ] at atR
    exact Option.some.inj atR ▸ atJ
  refine ⟨inverse, ran, ⟨length, ?_, ?_⟩, inverts⟩
  · rw [List.nodup_iff_getElem?_ne_getElem?]
    intro r r' before inside same
    have atR := List.getElem?_eq_getElem (Nat.lt_trans before inside)
    have reads := source atR
    rw [source (same ▸ atR)] at reads
    exact Nat.ne_of_lt before (Option.some.inj reads).symm
  · intro i mem
    obtain ⟨r, atR⟩ := List.mem_iff_getElem?.1 mem
    exact isOrder.length ▸ read_lt (source atR)

/-- Every node is moved to its place, or back from it, and the permutation ends as the identity. -/
theorem permuteInPlace_places {elements : List α} (isOrder : IsOrder elements.length permutation) (invert : Bool) :
    ∃ permuted, permuteInPlace invert elements permutation = .ok (permuted, List.range elements.length) ∧
      permuted.Perm elements ∧ ∀ i r : Nat, permutation[i]? = some r →
        if invert then permuted[i]? = elements[r]? else permuted[r]? = elements[i]? := by
  have sameLength := isOrder.length.symm
  cases invert with
  | false =>
    obtain ⟨permuted, ran, same, reads⟩ := cycles_spec isOrder rfl
    exact ⟨permuted, bind_ok.2 ⟨(), require_eq_ok.2 sameLength, ran⟩, same, fun _ _ atI => reads atI⟩
  | true =>
    obtain ⟨inverse, inverted, isOrder', inverts⟩ := invertPermutation_spec isOrder
    obtain ⟨permuted, ran, same, reads⟩ := cycles_spec isOrder' rfl
    refine ⟨permuted, bind_ok.2 ⟨(), require_eq_ok.2 sameLength, bind_ok.2 ⟨inverse, inverted, ran⟩⟩, same, ?_⟩
    exact fun i r atI => reads (inverts i r atI)

theorem permuteInPlace_places_rotation : ∃ permuted,
    permuteInPlace true ["a", "b", "c"] [1, 2, 0] = .ok (permuted, List.range 3) ∧ permuted.Perm ["a", "b", "c"] ∧
      ∀ i r : Nat, [1, 2, 0][i]? = some r → permuted[i]? = ["a", "b", "c"][r]? :=
  @permuteInPlace_places String [1, 2, 0] ["a", "b", "c"] ⟨rfl, by decide, by decide⟩ true

end PermuteInPlace

/-! ## Renumbering a view -/

def place (order : List Nat) (i : Nat) : Nat := order.getD i i

/-- A node view in terms of new indices. -/
def MutableNodeView.renumber (place : Nat → Nat) (node : MutableNodeView) : MutableNodeView :=
  { node with
    nodeIndex := place node.nodeIndex
    regularFanins := node.regularFanins.map fun fanin =>
      { fanin with nodeIndex := place fanin.nodeIndex }
    controllingFanins := node.controllingFanins.map fun fanin =>
      { fanin with nodeIndex := place fanin.nodeIndex }
    regularFanoutsByPort := node.regularFanoutsByPort.map fun fanouts =>
      fanouts.map fun fanout => { fanout with nodeIndex := place fanout.nodeIndex }
    controlledFanouts := node.controlledFanouts.map fun fanout =>
      { fanout with nodeIndex := place fanout.nodeIndex } }

namespace MutableGraphView

/-- The same view, with the node at `i` moved to `place i`. -/
structure Renumbered (view : MutableGraphView) (place : Nat → Nat) (view' : MutableGraphView) : Prop where
  bijective : Set.BijOn place (Set.Iio view.nodes.length) (Set.Iio view.nodes.length)
  length : view'.nodes.length = view.nodes.length
  graphLength : view'.graph.length = view.graph.length
  nodes : ∀ i < view.nodes.length, view'.nodes[place i]? = (view.nodes[i]?).map (·.renumber place)
  graph : ∀ i < view.nodes.length, view'.graph[place i]? = view.graph[i]?
  names : ∀ name, view'.nodeIndexByName.lookup name = (view.nodeIndexByName.lookup name).map place
  nextAddress : view'.nextAddress = view.nextAddress

end MutableGraphView

section Permute

variable {view : MutableGraphView} {order : List Nat}

theorem place_of_getElem? {i : Nat} (atI : order[i]? = some r) : place order i = r := by
  unfold place
  rw [List.getD_eq_getElem?_getD, atI]
  rfl

theorem IsOrder.fetch_place (isOrder : IsOrder view.nodes.length order) {i : Nat}
    (bound : i < view.nodes.length) : fetch order i = .ok (place order i) := by
  obtain ⟨r, atI, -⟩ := isOrder.getElem?_eq bound
  rw [place_of_getElem? atI]
  exact fetch_eq_ok.2 atI

theorem IsOrder.bijective {n : Nat} (isOrder : IsOrder n order) : Set.BijOn (place order) (Set.Iio n) (Set.Iio n) := by
  refine ⟨?_, ?_, ?_⟩
  · intro i bound
    obtain ⟨r, atI, boundR⟩ := isOrder.getElem?_eq bound
    rw [place_of_getElem? atI]
    exact boundR
  · intro i boundI j boundJ same
    obtain ⟨r, atI, -⟩ := isOrder.getElem?_eq boundI
    obtain ⟨r', atJ, -⟩ := isOrder.getElem?_eq boundJ
    rw [place_of_getElem? atI, place_of_getElem? atJ] at same
    exact isOrder.injective atI (same ▸ atJ)
  · intro r boundR
    obtain ⟨i, bound, atI⟩ := isOrder.exists_eq boundR
    exact ⟨i, bound, place_of_getElem? atI⟩

structure MutableNodeView.InRange (node : MutableNodeView) (n : Nat) : Prop where
  nodeIndex : node.nodeIndex < n
  regularFanins : ∀ fanin ∈ node.regularFanins, fanin.nodeIndex < n
  controllingFanins : ∀ fanin ∈ node.controllingFanins, fanin.nodeIndex < n
  regularFanouts : ∀ fanouts ∈ node.regularFanoutsByPort, ∀ fanout ∈ fanouts, fanout.nodeIndex < n
  controlledFanouts : ∀ fanout ∈ node.controlledFanouts, fanout.nodeIndex < n

theorem mapM_eq_map {α β : Type} {f : α → Except Failure β} {g : α → β} {l : List α}
    (each : ∀ a ∈ l, f a = .ok (g a)) : l.mapM f = .ok (l.map g) := by
  induction l with
  | nil => rfl
  | cons head tail ih =>
    rw [List.mapM_cons, each head List.mem_cons_self, ih fun a member => each a (List.mem_cons_of_mem _ member)]
    rfl

theorem fixUpIndices_eq (isOrder : IsOrder view.nodes.length order)
    (inRange : node.InRange view.nodes.length) : fixUpIndices order node = .ok (node.renumber (place order)) := by
  unfold fixUpIndices
  rw [isOrder.fetch_place inRange.nodeIndex]
  rw [mapM_eq_map fun fanin member => by
    rw [isOrder.fetch_place (inRange.regularFanins fanin member)]; rfl]
  rw [mapM_eq_map fun fanin member => by
    rw [isOrder.fetch_place (inRange.controllingFanins fanin member)]; rfl]
  rw [mapM_eq_map fun fanouts member => mapM_eq_map fun fanout inner => by
    rw [isOrder.fetch_place (inRange.regularFanouts fanouts member fanout inner)]; rfl]
  rw [mapM_eq_map fun fanout member => by
    rw [isOrder.fetch_place (inRange.controlledFanouts fanout member)]; rfl]
  rfl

theorem placeNodes_spec (isOrder : IsOrder view.nodes.length order) :
    ∃ permuted, (List.range view.nodes.length).foldlM (view.placeNode order)
        (List.replicate view.nodes.length { nodeIndex := 0 }) = .ok permuted ∧ (permuted.length = view.nodes.length ∧
        ∀ i ∈ List.range view.nodes.length, permuted[place order i]? = view.nodes[i]?) := by
  apply exists_foldlM_eq_ok (fun seen (permuted : List MutableNodeView) =>
    permuted.length = view.nodes.length ∧ ∀ i ∈ seen, permuted[place order i]? = view.nodes[i]?)
  · exact ⟨by simp, by simp⟩
  · intro seen i rest permuted split ⟨length, placed⟩
    have inside : ∀ j ∈ seen ++ [i], j < view.nodes.length := by
      intro j member
      apply List.mem_range.1
      rw [split]
      rcases List.mem_append.1 member with before | isI
      · exact List.mem_append_left _ before
      · rw [List.mem_singleton.1 isI]
        simp
    have bound := inside i (by simp)
    have target : place order i < permuted.length := by
      rw [length]
      exact isOrder.bijective.1 bound
    have atNode : view.nodes[i]? = some _ := List.getElem?_eq_getElem bound
    refine ⟨permuted.set (place order i) view.nodes[i], ?_, by rw [List.length_set, length], ?_⟩
    · unfold placeNode
      rw [fetch_eq_ok.2 atNode, isOrder.fetch_place bound]
      show (fetch permuted (place order i) >>= fun _ => _) = _
      rw [fetch_eq_ok.2 (List.getElem?_eq_getElem target)]
      rfl
    · intro j member
      rw [List.getElem?_set]
      by_cases same : place order i = place order j
      · have isI : i = j := isOrder.bijective.2.1 bound (inside j member) same
        rw [if_pos same, if_pos target, ← isI, atNode]
      · grind

theorem fixUpNames_spec (indexed : view.Indexed) (isOrder : IsOrder view.nodes.length order)
    {indices : List Nat} (nodup : indices.Nodup) (inside : ∀ i ∈ indices, i < view.nodes.length) :
    ∃ byName, indices.foldlM (view.fixUpName order) view.nodeIndexByName = .ok byName ∧
      ∀ name, byName.lookup name = (view.nodeIndexByName.lookup name).map fun i =>
        if i ∈ indices then place order i else i := by
  apply exists_foldlM_eq_ok (fun seen (byName : AList fun _ : String => Nat) =>
    ∀ name, byName.lookup name = (view.nodeIndexByName.lookup name).map fun i =>
      if i ∈ seen then place order i else i)
  · intro name
    simp
  · intro seen i rest byName split lookups
    have member : i ∈ indices := by rw [split]; simp
    have notSeen : i ∉ seen := by
      rw [split] at nodup
      have apart := (List.nodup_append.1 nodup).2.2
      exact fun listed => apart i listed i List.mem_cons_self rfl
    obtain ⟨def_, atDef⟩ := indexed.nodeDef? (inside i member)
    obtain ⟨stored, atStored, isDef⟩ := Option.map_eq_some_iff.1 atDef
    have named : view.nodeIndexByName.lookup stored.nodeDef.name = some i :=
      (indexed.names _ i).2 ⟨def_, atDef, by rw [isDef]⟩
    unfold fixUpName
    rw [isOrder.fetch_place (inside i member)]
    by_cases same : i = place order i
    · refine ⟨byName, if_pos same, fun name => ?_⟩
      rw [lookups name]
      congr 1
      funext j
      by_cases isI : j = i
      · rw [isI, if_neg notSeen, if_pos (by simp), ← same]
      · simp [isI]
    · refine ⟨byName.insert stored.nodeDef.name (place order i), ?_, fun name => ?_⟩
      · show (if i = place order i then _ else _) = _
        rw [if_neg same, fetch_eq_ok.2 atStored]
        have listed : stored.nodeDef.name ∈ byName := by
          rw [← AList.lookup_isSome, lookups, named]
          rfl
        show (require (stored.nodeDef.name ∈ byName) _ >>= fun _ => _) = _
        rw [bind_ok]
        exact ⟨(), require_eq_ok.2 listed, rfl⟩
      · by_cases isName : name = stored.nodeDef.name
        · rw [isName, AList.lookup_insert, named]
          simp
        · rw [AList.lookup_insert_ne isName, lookups name]
          cases found : view.nodeIndexByName.lookup name with
          | none => rfl
          | some j =>
            have isOther : j ≠ i := by
              intro isI
              obtain ⟨other, atOther, otherName⟩ := (indexed.names name j).1 found
              rw [isI, atDef] at atOther
              cases atOther
              exact isName (by rw [← otherName, isDef])
            simp [isOther]

theorem permuteNodes_spec (indexed : view.Indexed) (isOrder : IsOrder view.nodes.length order)
    (inRange : ∀ node ∈ view.nodes, node.InRange view.nodes.length) :
    ∃ view', view.permuteNodes order = .ok view' ∧ view.Renumbered (place order) view' := by
  obtain ⟨permuted, permutedOk, permutedLength, placed⟩ := placeNodes_spec isOrder
  have bijective := isOrder.bijective
  -- Every permuted node view is one of the view's.
  have source : ∀ node ∈ permuted, node ∈ view.nodes := by
    intro node member
    obtain ⟨r, atR⟩ := List.mem_iff_getElem?.1 member
    have boundR := read_lt atR
    rw [permutedLength] at boundR
    obtain ⟨i, bound, isR⟩ := bijective.2.2 boundR
    rw [← isR, placed i (List.mem_range.2 bound)] at atR
    exact List.mem_of_getElem? atR
  have fixedNodes : permuted.mapM (fixUpIndices order) = .ok (permuted.map (·.renumber (place order))) :=
    mapM_eq_map fun node member => fixUpIndices_eq isOrder (inRange node (source node member))
  have indexAt : ∀ i < view.nodes.length, (permuted.map MutableNodeView.nodeIndex)[place order i]? = some i := by
    intro i bound
    have atNode : view.nodes[i]? = some _ := List.getElem?_eq_getElem bound
    rw [List.getElem?_map, placed i (List.mem_range.2 bound), atNode, Option.map_some, indexed.nodeIndex atNode]
  have indexNodup : (permuted.map MutableNodeView.nodeIndex).Nodup := by
    rw [List.nodup_iff_injective_getElem]
    intro ⟨r, boundR⟩ ⟨q, boundQ⟩ same
    rw [List.length_map, permutedLength] at boundR boundQ
    obtain ⟨i, boundI, isR⟩ := bijective.2.2 boundR
    obtain ⟨j, boundJ, isQ⟩ := bijective.2.2 boundQ
    grind
  have indexInside : ∀ i ∈ permuted.map MutableNodeView.nodeIndex, i < view.nodes.length := by
    intro i member
    obtain ⟨node, listed, isIndex⟩ := List.mem_map.1 member
    rw [← isIndex]
    exact (inRange node (source node listed)).nodeIndex
  obtain ⟨byName, namesOk, lookups⟩ := fixUpNames_spec indexed isOrder indexNodup indexInside
  obtain ⟨graph, graphOk, graphLength, moved⟩ :=
    permuteNodesInPlace_spec isOrder (show view.graph.length = _ from indexed.length.symm)
  refine ⟨{ view with
      graph := graph
      nodes := permuted.map (·.renumber (place order))
      nodeIndexByName := byName }, ?_, ?_⟩
  · unfold permuteNodes
    rw [permutedOk]
    show (permuted.mapM (fixUpIndices order) >>= fun _ => _) = _
    rw [fixedNodes]
    show ((permuted.map MutableNodeView.nodeIndex).foldlM (view.fixUpName order)
      view.nodeIndexByName >>= fun _ => _) = _
    rw [namesOk]
    show (permuteNodesInPlace view.graph order >>= fun _ => _) = _
    rw [graphOk]
    rfl
  · refine ⟨bijective, by simp [permutedLength], by rw [graphLength, indexed.length], ?_, ?_, ?_, rfl⟩
    · intro i bound
      rw [List.getElem?_map, placed i (List.mem_range.2 bound)]
    · intro i bound
      obtain ⟨r, atI, -⟩ := isOrder.getElem?_eq bound
      rw [place_of_getElem? atI]
      exact moved atI
    · intro name
      rw [lookups name]
      cases found : view.nodeIndexByName.lookup name with
      | none => rfl
      | some i =>
        obtain ⟨def_, atDef, -⟩ := (indexed.names name i).1 found
        obtain ⟨stored, atStored, -⟩ := Option.map_eq_some_iff.1 atDef
        have bound : i < view.nodes.length := by
          rw [indexed.length]
          exact read_lt atStored
        have listed : i ∈ permuted.map MutableNodeView.nodeIndex :=
          List.mem_of_getElem? (indexAt i bound)
        rw [Option.map_some, Option.map_some, if_pos listed]

end Permute

/-! ## A renumbered view keeps the invariant -/

namespace MutableGraphView

section Renumbered

variable {view view' : MutableGraphView} {place : Nat → Nat}

section

variable (renumbered : view.Renumbered place view')

include renumbered

theorem Renumbered.exists_place (bound : r < view.nodes.length) : ∃ i, i < view.nodes.length ∧ place i = r :=
  renumbered.bijective.2.2 bound

theorem Renumbered.nodeDef? {i : Nat}
    (bound : i < view.nodes.length) : view'.nodeDef? (place i) = view.nodeDef? i := by
  unfold MutableGraphView.nodeDef?
  rw [renumbered.graph i bound]

theorem Renumbered.nameAt {i : Nat}
    (bound : i < view.nodes.length) : view'.nameAt (place i) = view.nameAt i := by
  unfold MutableGraphView.nameAt
  rw [renumbered.nodeDef? bound]

theorem Renumbered.faninKey {i : Nat}
    (bound : i < view.nodes.length) (port : PortId) : view'.faninKey (place i) port = view.faninKey i port := by
  unfold MutableGraphView.faninKey
  rw [renumbered.graph i bound]

end

theorem Renumbered.field {β : Type} (renumbered : view.Renumbered place view') {i : Nat}
    (bound : i < view.nodes.length) (read : MutableNodeView → β) :
    view'.field read (place i) = view.field (fun node => read (node.renumber place)) i := by
  unfold MutableGraphView.field
  rw [renumbered.nodes i bound, Option.map_map]
  rfl

section

variable (renumbered : view.Renumbered place view')

include renumbered

theorem Renumbered.fanin {i : Nat} (bound : i < view.nodes.length) (k : Nat) :
    view'.fanin (place i) k = (view.fanin i k).map fun fanin =>
      { fanin with nodeIndex := place fanin.nodeIndex } := by
  unfold MutableGraphView.fanin
  rw [renumbered.field bound]
  unfold MutableGraphView.field
  cases view.nodes[i]? with
  | none => rfl
  | some node => simp [MutableNodeView.renumber]

theorem Renumbered.control {i : Nat} (bound : i < view.nodes.length) (k : Nat) :
    view'.control (place i) k = (view.control i k).map fun fanin =>
      { fanin with nodeIndex := place fanin.nodeIndex } := by
  unfold MutableGraphView.control
  rw [renumbered.field bound]
  unfold MutableGraphView.field
  cases view.nodes[i]? with
  | none => rfl
  | some node => simp [MutableNodeView.renumber]

theorem Renumbered.fanout (bound : p < view.nodes.length) (port j : Nat) :
    view'.fanout (place p) port j = (view.fanout p port j).map fun fanout =>
      { fanout with nodeIndex := place fanout.nodeIndex } := by
  unfold MutableGraphView.fanout
  rw [renumbered.field bound]
  unfold MutableGraphView.field
  cases view.nodes[p]? with
  | none => rfl
  | some node =>
    cases atPort : node.regularFanoutsByPort[port]? <;>
      simp [MutableNodeView.renumber, atPort]

theorem Renumbered.controlled (bound : p < view.nodes.length) (j : Nat) :
    view'.controlled (place p) j = (view.controlled p j).map fun fanout =>
      { fanout with nodeIndex := place fanout.nodeIndex } := by
  unfold MutableGraphView.controlled
  rw [renumbered.field bound]
  unfold MutableGraphView.field
  cases view.nodes[p]? with
  | none => rfl
  | some node => simp [MutableNodeView.renumber]

end

theorem bound_of_fanin {i : Nat} {fanin : RegularFanin} (atFanin : view.fanin i k = some fanin) :
    i < view.nodes.length :=
  field_isSome (Option.bind_eq_some_iff.1 atFanin).choose_spec.1

theorem bound_of_control {i : Nat} {fanin : ControllingFanin}
    (atFanin : view.control i k = some fanin) : i < view.nodes.length :=
  field_isSome (Option.bind_eq_some_iff.1 atFanin).choose_spec.1

theorem bound_of_fanout {port j : Nat} {fanout : Fanout}
    (atFanout : view.fanout p port j = some fanout) : p < view.nodes.length :=
  field_isSome (Option.bind_eq_some_iff.1 atFanout).choose_spec.1

theorem bound_of_controlled {j : Nat} {fanout : Fanout}
    (atFanout : view.controlled p j = some fanout) : p < view.nodes.length :=
  field_isSome (Option.bind_eq_some_iff.1 atFanout).choose_spec.1

theorem nodeDef?_of_graph {graph : Itex.Graph.GraphDef} (isGraph : view.graph.map StoredNode.nodeDef = graph) (i : Nat) :
    view.nodeDef? i = graph[i]? := by
  rw [← isGraph, List.getElem?_map]
  rfl

/-- A check of each node's regular fanins, by the node, the input and the fanin. -/
def allFanins (view : MutableGraphView) (check : Nat → Nat → RegularFanin → Bool) : Bool :=
  view.nodes.zipIdx.all fun node => node.1.regularFanins.zipIdx.all fun fanin => check node.2 fanin.2 fanin.1

theorem of_all_fanins {check : Nat → Nat → RegularFanin → Bool} (checked : view.allFanins check = true) {i : Nat} {fanin : RegularFanin} (atFanin : view.fanin i k = some fanin) : check i k fanin = true := by
  obtain ⟨fanins, atFanins, atK⟩ := Option.bind_eq_some_iff.1 atFanin
  obtain ⟨node, atNode, rfl⟩ := Option.map_eq_some_iff.1 atFanins
  have ofNode := List.all_eq_true.1 checked (node, i) (List.mem_zipIdx_iff_getElem?.2 atNode)
  exact List.all_eq_true.1 ofNode (fanin, k) (List.mem_zipIdx_iff_getElem?.2 atK)

theorem Navigable.nodeDef_of_fanin (navigable : view.Navigable) {i : Nat} {fanin : RegularFanin}
    (atFanin : view.fanin i k = some fanin) : ∃ def_, view.nodeDef? fanin.nodeIndex = some def_ := by
  obtain ⟨j, isFanout⟩ := Option.isSome_iff_exists.1 (navigable.attached.fanin atFanin)
  exact navigable.indexed.nodeDef? (bound_of_fanout (navigable.linked.fanin atFanin isFanout))

section

variable (renumbered : view.Renumbered place view')

include renumbered

theorem Renumbered.linked (linked : view.Linked) : view'.Linked := by
  refine ⟨?_, ?_, ?_, ?_⟩
  · intro r k j fanin' atFanin isIndex
    obtain ⟨i, bound, rfl⟩ := renumbered.exists_place (renumbered.length ▸ bound_of_fanin atFanin)
    rw [renumbered.fanin bound] at atFanin
    obtain ⟨fanin, atOld, rfl⟩ := Option.map_eq_some_iff.1 atFanin
    have atFanout := linked.fanin atOld isIndex
    rw [renumbered.fanout (bound_of_fanout atFanout), atFanout]
    rfl
  · intro r port j fanout' atFanout
    obtain ⟨p, bound, rfl⟩ := renumbered.exists_place (renumbered.length ▸ bound_of_fanout atFanout)
    rw [renumbered.fanout bound] at atFanout
    obtain ⟨fanout, atOld, rfl⟩ := Option.map_eq_some_iff.1 atFanout
    have atFanin := linked.fanout atOld
    rw [renumbered.fanin (bound_of_fanin atFanin), atFanin]
    rfl
  · intro r k j fanin' atFanin isIndex
    obtain ⟨i, bound, rfl⟩ := renumbered.exists_place (renumbered.length ▸ bound_of_control atFanin)
    rw [renumbered.control bound] at atFanin
    obtain ⟨fanin, atOld, rfl⟩ := Option.map_eq_some_iff.1 atFanin
    have atFanout := linked.control atOld isIndex
    rw [renumbered.controlled (bound_of_controlled atFanout), atFanout]
    rfl
  · intro r j fanout' atFanout
    obtain ⟨p, bound, rfl⟩ :=
      renumbered.exists_place (renumbered.length ▸ bound_of_controlled atFanout)
    rw [renumbered.controlled bound] at atFanout
    obtain ⟨fanout, atOld, rfl⟩ := Option.map_eq_some_iff.1 atFanout
    have atFanin := linked.controlled atOld
    rw [renumbered.control (bound_of_control atFanin), atFanin]
    rfl

theorem Renumbered.attached (attached : view.Attached) : view'.Attached := by
  refine ⟨?_, ?_⟩
  · intro r k fanin' atFanin
    obtain ⟨i, bound, rfl⟩ := renumbered.exists_place (renumbered.length ▸ bound_of_fanin atFanin)
    rw [renumbered.fanin bound] at atFanin
    obtain ⟨fanin, atOld, rfl⟩ := Option.map_eq_some_iff.1 atFanin
    have kept := attached.fanin atOld
    exact kept
  · intro r k fanin' atFanin
    obtain ⟨i, bound, rfl⟩ := renumbered.exists_place (renumbered.length ▸ bound_of_control atFanin)
    rw [renumbered.control bound] at atFanin
    obtain ⟨fanin, atOld, rfl⟩ := Option.map_eq_some_iff.1 atFanin
    have kept := attached.control atOld
    exact kept

theorem Renumbered.indexed (indexed : view.Indexed) : view'.Indexed := by
  have graphBound : ∀ {r : Nat}, r < view'.graph.length → ∃ i, i < view.nodes.length ∧ place i = r := by
    intro r bound
    exact renumbered.exists_place (by rw [indexed.length, ← renumbered.graphLength]; exact bound)
  refine ⟨?_, ?_, ?_, ?_, ?_⟩
  · rw [renumbered.length, renumbered.graphLength, indexed.length]
  · intro r node atR
    obtain ⟨i, bound, rfl⟩ := renumbered.exists_place
      (renumbered.length ▸ (read_lt atR))
    rw [renumbered.nodes i bound] at atR
    obtain ⟨old, atOld, rfl⟩ := Option.map_eq_some_iff.1 atR
    exact congrArg place (indexed.nodeIndex atOld)
  · intro name r
    rw [renumbered.names name]
    refine ⟨fun found => ?_, fun ⟨def_, atDef, isName⟩ => ?_⟩
    · obtain ⟨i, atName, rfl⟩ := Option.map_eq_some_iff.1 found
      obtain ⟨def_, atDef, isName⟩ := (indexed.names name i).1 atName
      obtain ⟨stored, atStored, -⟩ := Option.map_eq_some_iff.1 atDef
      have bound : i < view.nodes.length := indexed.length ▸ read_lt atStored
      exact ⟨def_, by rw [renumbered.nodeDef? bound]; exact atDef, isName⟩
    · obtain ⟨stored, atStored, -⟩ := Option.map_eq_some_iff.1 atDef
      obtain ⟨i, bound, rfl⟩ := graphBound (read_lt atStored)
      rw [renumbered.nodeDef? bound] at atDef
      rw [(indexed.names name i).2 ⟨def_, atDef, isName⟩]
      rfl
  · rw [List.nodup_iff_injective_getElem]
    intro ⟨r, boundR⟩ ⟨q, boundQ⟩ same
    rw [List.length_map] at boundR boundQ
    obtain ⟨i, boundI, isR⟩ := graphBound boundR
    obtain ⟨j, boundJ, isQ⟩ := graphBound boundQ
    have atI := renumbered.graph i boundI
    have atJ := renumbered.graph j boundJ
    rw [isR, List.getElem?_eq_getElem boundR, List.getElem?_eq_getElem (indexed.length ▸ boundI)] at atI
    rw [isQ, List.getElem?_eq_getElem boundQ, List.getElem?_eq_getElem (indexed.length ▸ boundJ)] at atJ
    simp only [List.getElem_map] at same
    rw [Option.some.inj atI, Option.some.inj atJ] at same
    have sameIndex : i = j := by
      have addresses := List.nodup_iff_injective_getElem.1 indexed.addresses
      have equal := @addresses ⟨i, by rw [List.length_map]; exact indexed.length ▸ boundI⟩
        ⟨j, by rw [List.length_map]; exact indexed.length ▸ boundJ⟩ (by simpa using same)
      exact congrArg Fin.val equal
    rw [Fin.mk.injEq, ← isR, ← isQ, sameIndex]
  · intro stored member
    obtain ⟨r, atR⟩ := List.mem_iff_getElem?.1 member
    obtain ⟨i, bound, rfl⟩ := graphBound (read_lt atR)
    rw [renumbered.graph i bound] at atR
    rw [renumbered.nextAddress]
    exact indexed.fresh stored (List.mem_of_getElem? atR)

theorem Renumbered.graph_perm (indexed : view.Indexed) : view'.graph.Perm view.graph := by
  have indexed' := renumbered.indexed indexed
  rw [List.perm_ext_iff_of_nodup (List.Nodup.of_map _ indexed'.addresses)
    (List.Nodup.of_map _ indexed.addresses)]
  intro stored
  refine ⟨fun member => ?_, fun member => ?_⟩
  · obtain ⟨r, atR⟩ := List.mem_iff_getElem?.1 member
    have boundR := read_lt atR
    rw [renumbered.graphLength, ← indexed.length] at boundR
    obtain ⟨i, bound, rfl⟩ := renumbered.exists_place boundR
    rw [renumbered.graph i bound] at atR
    exact List.mem_of_getElem? atR
  · obtain ⟨i, atI⟩ := List.mem_iff_getElem?.1 member
    have bound := read_lt atI
    rw [← indexed.length] at bound
    rw [← renumbered.graph i bound] at atI
    exact List.mem_of_getElem? atI

end

theorem Navigable.inRange (navigable : view.Navigable)
    (member : node ∈ view.nodes) : node.InRange view.nodes.length := by
  obtain ⟨i, atNode⟩ := List.mem_iff_getElem?.1 member
  refine ⟨?_, ?_, ?_, ?_, ?_⟩
  · rw [navigable.indexed.nodeIndex atNode]
    exact read_lt atNode
  · intro fanin listed
    obtain ⟨k, atK⟩ := List.mem_iff_getElem?.1 listed
    have atFanin := fanin_of_getElem? atNode atK
    obtain ⟨j, isIndex⟩ := Option.isSome_iff_exists.1 (navigable.attached.fanin atFanin)
    exact bound_of_fanout (navigable.linked.fanin atFanin isIndex)
  · intro fanin listed
    obtain ⟨k, atK⟩ := List.mem_iff_getElem?.1 listed
    have atFanin : view.control i k = some fanin := by
      rw [MutableGraphView.control, field_of_getElem? atNode]
      exact atK
    obtain ⟨j, isIndex⟩ := Option.isSome_iff_exists.1 (navigable.attached.control atFanin)
    exact bound_of_controlled (navigable.linked.control atFanin isIndex)
  · intro fanouts listed fanout inner
    obtain ⟨port, atPort⟩ := List.mem_iff_getElem?.1 listed
    obtain ⟨j, atJ⟩ := List.mem_iff_getElem?.1 inner
    have atFanout : view.fanout i port j = some fanout := by
      rw [MutableGraphView.fanout, field_of_getElem? atNode, Option.bind_some, atPort]
      exact atJ
    exact bound_of_fanin (navigable.linked.fanout atFanout)
  · intro fanout listed
    obtain ⟨j, atJ⟩ := List.mem_iff_getElem?.1 listed
    have atFanout : view.controlled i j = some fanout := by
      rw [MutableGraphView.controlled, field_of_getElem? atNode]
      exact atJ
    exact bound_of_control (navigable.linked.controlled atFanout)

section

variable (renumbered : view.Renumbered place view')

include renumbered

theorem Renumbered.inputsOf
    (inRange : node.InRange view.nodes.length) : view'.inputsOf (node.renumber place) = view.inputsOf node := by
  unfold MutableGraphView.inputsOf MutableNodeView.renumber
  rw [List.map_map, List.map_map]
  congr 1
  · apply List.map_congr_left
    intro fanin listed
    simp only [Function.comp_apply, renumbered.nameAt (inRange.regularFanins fanin listed)]
  · apply List.map_congr_left
    intro fanin listed
    simp only [Function.comp_apply, renumbered.nameAt (inRange.controllingFanins fanin listed)]

theorem Renumbered.navigable (navigable : view.Navigable) : view'.Navigable := by
  refine ⟨renumbered.indexed navigable.indexed, renumbered.linked navigable.linked,
    renumbered.attached navigable.attached, ?_⟩
  intro r node' def_ atR atDef
  obtain ⟨i, bound, rfl⟩ := renumbered.exists_place
    (renumbered.length ▸ (read_lt atR))
  rw [renumbered.nodes i bound] at atR
  rw [renumbered.nodeDef? bound] at atDef
  obtain ⟨node, atNode, rfl⟩ := Option.map_eq_some_iff.1 atR
  rw [renumbered.inputsOf (navigable.inRange (List.mem_of_getElem? atNode))]
  exact navigable.inputs atNode atDef

theorem Renumbered.faninCount (inRange : node.InRange view.nodes.length) (key : NodeDefAndPortIndex) :
    view'.faninCount (node.renumber place) key = view.faninCount node key := by
  unfold MutableGraphView.faninCount MutableNodeView.renumber
  rw [List.countP_map, List.countP_map]
  congr 1
  · apply List.countP_congr
    intro fanin listed
    simp only [Function.comp_apply, renumbered.faninKey (inRange.regularFanins fanin listed)]
  · apply List.countP_congr
    intro fanin listed
    simp only [Function.comp_apply, renumbered.faninKey (inRange.controllingFanins fanin listed)]

theorem Renumbered.summarized (inRange : node.InRange view.nodes.length) (summarized : view.Summarized node) :
    view'.Summarized (node.renumber place) := by
  refine ⟨?_, ?_, ?_, summarized.counted, ?_⟩
  · show node.numRegularFanouts = _
    rw [summarized.numRegularFanouts]
    simp [MutableNodeView.renumber, Function.comp_def]
  · show (node.regularFanoutsByPort.map _).getLast? ≠ some []
    rw [List.getLast?_map]
    intro isEmpty
    obtain ⟨fanouts, isLast, isNil⟩ := Option.map_eq_some_iff.1 isEmpty
    rw [List.map_eq_nil_iff.1 isNil] at isLast
    exact summarized.trimmed isLast
  · intro key
    rw [renumbered.faninCount inRange]
    exact summarized.faninsCount key
  · intro name k
    show node.controllingFaninsIndex.lookup name = some k ↔ ∃ fanin, (node.controllingFanins.map _)[k]? = some fanin ∧ _
    rw [summarized.controls name k]
    refine ⟨fun ⟨fanin, atK, isAttached, isName⟩ => ?_, fun ⟨fanin', atK', isAttached, isName⟩ => ?_⟩
    · refine ⟨{ fanin with nodeIndex := place fanin.nodeIndex }, ?_, isAttached, ?_⟩
      · rw [List.getElem?_map, atK]
        rfl
      · rw [renumbered.nameAt (inRange.controllingFanins fanin (List.mem_of_getElem? atK))]
        exact isName
    · rw [List.getElem?_map] at atK'
      obtain ⟨fanin, atK, rfl⟩ := Option.map_eq_some_iff.1 atK'
      rw [renumbered.nameAt (inRange.controllingFanins fanin (List.mem_of_getElem? atK))] at isName
      exact ⟨fanin, atK, isAttached, isName⟩

theorem Renumbered.inv (inv : view.Inv) : view'.Inv := by
  have navigable := renumbered.navigable inv.navigable
  refine ⟨navigable.indexed, navigable.linked, navigable.attached, ?_, navigable.inputs, ?_⟩
  · intro node' member
    obtain ⟨r, atR⟩ := List.mem_iff_getElem?.1 member
    obtain ⟨i, bound, rfl⟩ := renumbered.exists_place
      (renumbered.length ▸ (read_lt atR))
    rw [renumbered.nodes i bound] at atR
    obtain ⟨node, atNode, rfl⟩ := Option.map_eq_some_iff.1 atR
    have listed := List.mem_of_getElem? atNode
    exact renumbered.summarized (inv.navigable.inRange listed) (inv.summarized node listed)
  · intro r def_ atDef
    obtain ⟨stored, atStored, -⟩ := Option.map_eq_some_iff.1 atDef
    have boundR := read_lt atStored
    rw [renumbered.graphLength, ← inv.indexed.length] at boundR
    obtain ⟨i, bound, rfl⟩ := renumbered.exists_place boundR
    rw [renumbered.nodeDef? bound] at atDef
    exact inv.noSelfLoop atDef

end

end Renumbered

end MutableGraphView

end Itex.GraphUtils
