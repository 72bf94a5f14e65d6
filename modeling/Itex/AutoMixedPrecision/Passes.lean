import Itex.AutoMixedPrecision.Wiring

/-!
Contract: the set each painting pass computes, as reachability in the type graph.

Owns: one membership theorem for each pass, over any well-formed view.
-/

namespace Itex.AutoMixedPrecision.Impl

open Itex.Lib Itex.Lib.DepthFirst Itex.Graph

variable {allow deny : Finset Nat} {i r : Nat} {impl : Impl}

/-- Types one step away in a direction. -/
abbrev next (impl : Impl) (direction : TypeTraversalDirection) : Nat → List Nat :=
  impl.graphTypeView.neighbours direction

abbrev numTypes (impl : Impl) : Nat := impl.graphTypeView.numNodes

theorem mem_indices : i ∈ impl.indices ↔ i < impl.numTypes := List.mem_range

section Traversals

theorem getElem?_item (bound : i < impl.numTypes) :
    impl.graphTypeView.nodeTypeAttrs[i]? = some (impl.item i) := by
  have inList : i < impl.graphTypeView.nodeTypeAttrs.length := bound
  simp [item, List.getD, inList]

theorem item_eq_of_getElem? {found : NodeTypeId}
    (atIndex : impl.graphTypeView.nodeTypeAttrs[i]? = some found) : impl.item i = found := by
  simp [item, List.getD, atIndex]

theorem indexOf_item (wf : impl.graphTypeView.WellFormed)
    (bound : i < impl.numTypes) : impl.graphTypeView.indexOf (impl.item i) = some i :=
  wf.indexOf_eq_some.2 (getElem?_item bound)

theorem dfs_spec {σ : Type} (wf : impl.graphTypeView.WellFormed)
    (direction : TypeTraversalDirection) (enter : σ → Nat → Bool) (preOrder : σ → Nat → σ)
    (state : σ) (admitted : Nat → Prop) {root : NodeTypeId}
    (isRoot : impl.graphTypeView.indexOf root = some r) (enters : ∀ seen : List Nat, ∀ i ∉ seen,
      (enter (seen.foldl preOrder state) i = true ↔ admitted i)) : ∃ visited : List Nat, visited.Nodup ∧
      (∀ i, i ∈ visited ↔ Reach (impl.next direction) admitted (fun k => k = r ∧ admitted k) i) ∧
      impl.dfs root direction enter preOrder state = visited.foldl preOrder state := by
  have bound : r < impl.numTypes :=
    (read_lt (wf.indexOf_eq_some.1 isRoot))
  have isStart : [root].filterMap impl.graphTypeView.indexOf = [r] := by simp [isRoot]
  unfold dfs GraphTypeTopologyView.dfsTypeTraversal
  rw [isStart]
  obtain ⟨visited, nodup, reached, result⟩ := traverse_spec
    (fun k (mem : k ∈ [r]) => List.mem_range.2 (List.mem_singleton.1 mem ▸ bound))
    (fun i (_ : i ∈ List.range impl.numTypes) j edge =>
      List.mem_range.2 (wf.neighbours_lt direction edge)) enters
  exact ⟨visited, nodup, fun i => (reached i).trans (reach_congr (fun _ => Iff.rfl) (by simp) i), result⟩

theorem mem_foldl_insert {visited : List Nat} {start : Finset Nat} :
    i ∈ visited.foldl (fun marks k => insert k marks) start ↔ i ∈ start ∨ i ∈ visited := by
  induction visited generalizing start with
  | nil => simp
  | cons head tail ih =>
    rw [List.foldl_cons, ih, Finset.mem_insert, List.mem_cons]
    tauto

theorem foldl_insert_pair (visited : List Nat) (state : Finset Nat × Finset Nat) :
    visited.foldl (fun state k => (insert k state.1, insert k state.2)) state =
      (visited.foldl (fun marks k => insert k marks) state.1,
        visited.foldl (fun marks k => insert k marks) state.2) := by
  induction visited generalizing state with
  | nil => rfl
  | cons head tail ih => exact ih _

theorem dfs_collect {σ : Type} (wf : impl.graphTypeView.WellFormed)
    (direction : TypeTraversalDirection) (marks : σ → Finset Nat) (preOrder : σ → Nat → σ)
    (grows : ∀ state k, marks (preOrder state k) = insert k (marks state)) (ok : Nat → Prop)
    [DecidablePred ok] (state : σ) (bound : r < impl.numTypes) : ∃ visited : List Nat, (∀ i, i ∈ visited ↔
        Reach (impl.next direction) (fun k => k = r ∨ (k ∉ marks state ∧ ok k)) (· = r) i) ∧
      impl.dfs (impl.item r) direction (fun state k => decide (k = r ∨ (k ∉ marks state ∧ ok k))) preOrder state =
        visited.foldl preOrder state := by
  have grown : ∀ seen : List Nat, ∀ k, k ∈ marks (seen.foldl preOrder state) ↔ k ∈ marks state ∨ k ∈ seen := by
    intro seen
    induction seen generalizing state with
    | nil => simp
    | cons head tail ih =>
      intro k
      rw [List.foldl_cons, ih, grows, Finset.mem_insert, List.mem_cons]
      tauto
  obtain ⟨visited, -, reached, result⟩ := dfs_spec wf direction
    (fun state k => decide (k = r ∨ (k ∉ marks state ∧ ok k))) preOrder state
    (fun k => k = r ∨ (k ∉ marks state ∧ ok k)) (indexOf_item wf bound)
    fun seen k unseen => by simp [grown, unseen]
  refine ⟨visited, fun i => (reached i).trans ?_, result⟩
  exact reach_congr (fun _ => Iff.rfl) (by simp +contextual) i

theorem dfs_collect_set (wf : impl.graphTypeView.WellFormed)
    (direction : TypeTraversalDirection) (ok : Nat → Prop) [DecidablePred ok]
    (marks : Finset Nat) (bound : r < impl.numTypes) : ∃ visited : List Nat, (∀ i, i ∈ visited ↔
        Reach (impl.next direction) (fun k => k = r ∨ (k ∉ marks ∧ ok k)) (· = r) i) ∧ impl.dfs (impl.item r) direction
        (fun marks k => decide (k = r ∨ (k ∉ marks ∧ ok k))) (fun marks k => insert k marks) marks =
        visited.foldl (fun marks k => insert k marks) marks :=
  dfs_collect wf direction id (fun marks k => insert k marks) (fun _ _ => rfl) ok marks
    bound

/-- Such a traversal adds, to a set `inside` that no admitted step leaves, what is
reachable from `r` outside a fixed set. -/
theorem visits_iff {direction : TypeTraversalDirection} {marks fixed : Finset Nat}
    {inside ok : Nat → Prop} (split : ∀ k, k ∈ marks ↔ k ∈ fixed ∨ inside k)
    (closed : Closed (impl.next direction) (fun k => ok k ∧ k ∉ fixed) inside) (r i : Nat) :
    (inside i ∨ Reach (impl.next direction) (fun k => k = r ∨ (k ∉ marks ∧ ok k)) (· = r) i) ↔
      (inside i ∨ Reach (impl.next direction) (fun k => ok k ∧ k ∉ fixed) (· = r) i) := by
  rw [← reach_outside_closed closed r i]
  refine or_congr_right (reach_congr (fun k => ?_) (fun _ => Iff.rfl) i)
  rw [split]
  tauto

theorem mem_foldl_dfs (wf : impl.graphTypeView.WellFormed) (direction : TypeTraversalDirection) (ok root : Nat → Prop)
    [DecidablePred ok] [DecidablePred root] {step : Finset Nat → Nat → Finset Nat}
    (isStep : ∀ marks r, step marks r = if root r then
      impl.dfs (impl.item r) direction (fun marks k => decide (k = r ∨ (k ∉ marks ∧ ok k)))
        (fun marks k => insert k marks) marks else marks) (i : Nat) :
    i ∈ impl.indices.foldl step ∅ ↔ Reach (impl.next direction) ok (fun r => r < impl.numTypes ∧ root r) i := by
  have swept := foldl_sweep (impl.next direction) (fun k => ok k ∧ k ∉ (∅ : Finset Nat)) root step
    (fun marks k => k ∈ marks) (fun _ => True) impl.indices ∅ (fun marks r mem _ closed => ?_) trivial (by simp)
  · rw [swept.2 i]
    exact reach_congr (by simp) (fun r => and_congr_left' mem_indices) i
  · refine ⟨trivial, fun i => ?_⟩
    rw [isStep]
    split
    next isRoot =>
      obtain ⟨visited, reached, result⟩ := dfs_collect_set wf direction ok marks (mem_indices.1 mem)
      rw [result, mem_foldl_insert, reached i, visits_iff (by simp) closed]
      simp [isRoot]
    next notRoot => simp [notRoot]

end Traversals

section Deny

theorem mem_upstreamOfDenyOrInfer (wf : impl.graphTypeView.WellFormed) (i : Nat) :
    i ∈ impl.upstreamOfDenyOrInfer ↔ Reach (impl.next .followInputs) (fun k => impl.itemOp k ∈ impl.lists.clear)
        (fun r => r < impl.numTypes ∧ (impl.itemOp r ∈ impl.lists.deny ∨ impl.itemOp r ∈ impl.lists.infer)) i :=
  mem_foldl_dfs wf .followInputs _ _ (fun _ _ => rfl) i

theorem mem_propagateDeny (wf : impl.graphTypeView.WellFormed) (seed : Finset Nat) (i : Nat) :
    i ∈ impl.propagateDenyFwdThroughClearAndInfer seed ↔ i ∈ seed ∨
      Reach (impl.next .followOutputs) (fun k => k ∈ impl.upstreamOfDenyOrInfer ∧ k ∉ seed)
        (fun r => r < impl.numTypes ∧ impl.itemOp r ∈ impl.lists.deny ∧ r ∉ seed) i := by
  unfold propagateDenyFwdThroughClearAndInfer
  generalize impl.upstreamOfDenyOrInfer = upstream
  have swept := foldl_sweep (impl.next .followOutputs) (fun k => k ∈ upstream ∧ k ∉ seed)
    (fun r => impl.itemOp r ∈ impl.lists.deny ∧ r ∉ seed) (impl.denyStep upstream)
    (fun marks k => k ∈ marks ∧ k ∉ seed) (fun marks => seed ⊆ marks) impl.indices seed
    (fun marks r mem seeded closed => ?_) (Finset.Subset.refl seed) (by simp)
  · obtain ⟨seeded, marks⟩ := swept
    rw [← reach_congr (fun _ => Iff.rfl) (fun r => and_congr_left' mem_indices) i, ← marks i]
    grind
  · have split : ∀ k, k ∈ marks ↔ k ∈ seed ∨ (k ∈ marks ∧ k ∉ seed) := by
      intro k
      have : k ∈ seed → k ∈ marks := fun inSeed => seeded inSeed
      tauto
    unfold denyStep
    split
    next skipped =>
      refine ⟨seeded, fun i => ⟨.inl, ?_⟩⟩
      rintro (marked | ⟨⟨denied, fresh⟩, reached⟩)
      · exact marked
      · -- A skipped root is already marked, with all it reaches.
        have marked : r ∈ marks := skipped.resolve_right fun notDenied => notDenied denied
        refine reached.subset_closed _ closed fun k isRoot => ?_
        rw [isRoot]
        exact ⟨marked, fresh⟩
    next isRoot =>
      push Not at isRoot
      have fresh : r ∉ seed := fun inSeed => isRoot.1 (seeded inSeed)
      obtain ⟨visited, reached, result⟩ := dfs_collect_set wf .followOutputs
        (fun k => k ∈ upstream) marks (mem_indices.1 mem)
      rw [result]
      refine ⟨fun k inSeed => mem_foldl_insert.2 (.inl (seeded inSeed)), fun k => ?_⟩
      have entered : k ∈ visited → k ∉ seed := by
        intro visits
        rcases ((reached k).1 visits).root_or_admitted with isRoot | isRoot | ⟨unmarked, -⟩
        · exact isRoot ▸ fresh
        · exact isRoot ▸ fresh
        · exact fun inSeed => unmarked (seeded inSeed)
      rw [and_iff_right (⟨isRoot.2, fresh⟩ : impl.itemOp r ∈ impl.lists.deny ∧ r ∉ seed),
        ← visits_iff split closed r k, mem_foldl_insert, ← reached k]
      tauto

end Deny

section Between

theorem mem_downstreamOfAllow (wf : impl.graphTypeView.WellFormed) (deny : Finset Nat) (i : Nat) :
    i ∈ impl.downstreamOfAllow deny ↔ Reach (impl.next .followOutputs) (fun k => impl.betweenable deny k = true)
        (fun r => r < impl.numTypes ∧ impl.isAllowRoot r = true) i :=
  mem_foldl_dfs wf .followOutputs _ _ (fun _ _ => rfl) i

/-- Pass 3 adds what allow operators reach backwards inside that set. -/
theorem mem_addClearAndInferToAllowIfBetweenAllow (wf : impl.graphTypeView.WellFormed)
    (deny allow : Finset Nat) (i : Nat) : i ∈ impl.addClearAndInferToAllowIfBetweenAllow deny allow ↔ i ∈ allow ∨
      Reach (impl.next .followInputs) (fun k => k ∈ impl.downstreamOfAllow deny)
        (fun r => r < impl.numTypes ∧ impl.isAllowRoot r = true) i := by
  unfold addClearAndInferToAllowIfBetweenAllow
  generalize impl.downstreamOfAllow deny = downstream
  have swept := foldl_sweep (impl.next .followInputs)
    (fun k => k ∈ downstream ∧ k ∉ (∅ : Finset Nat))
    (fun r => impl.isAllowRoot r = true)
    (impl.betweenStep downstream) (fun state k => k ∈ state.1)
    (fun state => ∀ k, k ∈ state.2 ↔ k ∈ allow ∨ k ∈ state.1) impl.indices (∅, allow)
    (fun state r mem both closed => ?_) (by simp) (by simp)
  · rw [swept.1 i, swept.2 i]
    exact or_congr_right (reach_congr (by simp) (fun r => and_congr_left' mem_indices) i)
  · unfold betweenStep
    split
    next isRoot =>
      obtain ⟨visited, reached, result⟩ := dfs_collect wf .followInputs Prod.fst
        (fun state k => (insert k state.1, insert k state.2)) (fun _ _ => rfl)
        (fun k => k ∈ downstream) state (mem_indices.1 mem)
      rw [result, foldl_insert_pair]
      simp only [mem_foldl_insert, both]
      refine ⟨fun k => by tauto, fun i => ?_⟩
      rw [reached i, visits_iff (by simp) closed]
      simp [isRoot.1]
    next notRoot =>
      refine ⟨both, fun i => ⟨.inl, ?_⟩⟩
      rintro (marked | ⟨isRoot, reached⟩)
      · exact marked
      · have marked : r ∈ state.1 := by
          by_contra unmarked
          exact notRoot ⟨isRoot, unmarked⟩
        exact reached.subset_closed _ closed fun k (isRoot : k = r) => isRoot ▸ marked

end Between

section Follow

theorem hasAllowFanin_iff {seen : Bool} {fanins : List Nat} :
    hasAllowFanin deny allow seen fanins = true ↔
      (∀ k ∈ fanins, k ∉ deny) ∧ (seen = true ∨ ∃ k ∈ fanins, k ∈ allow) := by
  induction fanins generalizing seen with
  | nil => simp [hasAllowFanin]
  | cons head tail ih =>
    unfold hasAllowFanin
    split
    next denied => simp [denied]
    next notDenied =>
      rw [ih]
      simp [notDenied, or_assoc]

/-- What pass 4 requires of a type before it looks at the paint of its inputs. -/
def Follows (impl : Impl) (deny : Finset Nat) (i : Nat) : Prop :=
  impl.followable deny i = true ∧ ∀ k ∈ impl.next .followInputs i, k ∉ deny

theorem mem_followStep {k : Nat} : k ∈ impl.followStep deny allow i ↔ k ∈ allow ∨
      (k = i ∧ impl.Follows deny i ∧ ∃ j ∈ impl.next .followInputs i, j ∈ allow) := by
  unfold followStep
  split
  next holds =>
    rw [Finset.mem_insert]
    obtain ⟨able, -, fanin⟩ := holds
    obtain ⟨undenied, painted⟩ := hasAllowFanin_iff.1 fanin
    have follows : impl.Follows deny i := ⟨able, undenied⟩
    have fed : ∃ j ∈ impl.next .followInputs i, j ∈ allow := painted.resolve_left (by simp)
    tauto
  next fails =>
    constructor
    · exact .inl
    · rintro (mem | ⟨rfl, follows, fed⟩)
      · exact mem
      · by_contra absent
        exact fails ⟨follows.1, absent, hasAllowFanin_iff.2 ⟨follows.2, .inr fed⟩⟩

/-- Every type that pass 4 adds has a painted input, and pass 4 misses no type whose
input was painted before it began. -/
theorem mem_addInferToAllowIfFollowAllow : (i ∈ impl.addInferToAllowIfFollowAllow deny allow → i ∈ allow ∨
      (i < impl.numTypes ∧ impl.Follows deny i ∧ ∃ j ∈ impl.next .followInputs i,
        j ∈ impl.addInferToAllowIfFollowAllow deny allow)) ∧ ((i ∈ allow ∨ (i < impl.numTypes ∧ impl.Follows deny i ∧
      ∃ j ∈ impl.next .followInputs i, j ∈ allow)) → i ∈ impl.addInferToAllowIfFollowAllow deny allow) := by
  unfold addInferToAllowIfFollowAllow
  have grows : ∀ (rest : List Nat) (marks : Finset Nat), marks ⊆ rest.foldl (impl.followStep deny) marks := by
    intro rest
    induction rest with
    | nil => intro marks; exact Finset.Subset.refl _
    | cons head tail ih =>
      intro marks k mem
      exact ih _ (mem_followStep.2 (.inl mem))
  suffices ∀ (rest : List Nat) (marks : Finset Nat), (∀ k ∈ rest, k < impl.numTypes) →
      (i ∈ rest.foldl (impl.followStep deny) marks → i ∈ marks ∨
        (i < impl.numTypes ∧ impl.Follows deny i ∧ ∃ j ∈ impl.next .followInputs i,
          j ∈ rest.foldl (impl.followStep deny) marks)) ∧
      ((i ∈ marks ∨ (i ∈ rest ∧ impl.Follows deny i ∧ ∃ j ∈ impl.next .followInputs i, j ∈ marks)) →
        i ∈ rest.foldl (impl.followStep deny) marks) by
    have := this impl.indices allow fun k mem => mem_indices.1 mem
    rwa [mem_indices] at this
  intro rest
  induction rest with
  | nil =>
    intro marks _
    simp only [List.foldl_nil, List.not_mem_nil, false_and, or_false, imp_self, and_true]
    exact .inl
  | cons head tail ih =>
    intro marks bounded
    have later := ih (impl.followStep deny marks head)
      fun k mem => bounded k (by simp [mem])
    rw [List.foldl_cons]
    constructor
    · intro mem
      rcases later.1 mem with mem | added
      · rcases mem_followStep.1 mem with mem | ⟨rfl, follows, j, edge, painted⟩
        · exact .inl mem
        · exact .inr ⟨bounded i (by simp), follows, j, edge, grows tail _ (mem_followStep.2 (.inl painted))⟩
      · exact .inr added
    · rintro (mem | ⟨mem, follows, j, edge, painted⟩)
      · exact grows tail _ (mem_followStep.2 (.inl mem))
      · rcases List.mem_cons.1 mem with rfl | mem
        · exact grows tail _ (mem_followStep.2 (.inr ⟨rfl, follows, j, edge, painted⟩))
        · exact later.2 (.inr ⟨mem, follows, j, edge, mem_followStep.2 (.inl painted)⟩)

end Follow

section Clear

theorem mem_propagateAllowThroughClear (wf : impl.graphTypeView.WellFormed)
    (deny allow : Finset Nat) (i : Nat) :
    i ∈ impl.propagateAllowThroughClear deny allow ↔ i ∈ allow ∨ Reach (impl.next .followInputsAndOutputs)
        (fun k => impl.clearable deny k = true ∧ k ∉ allow)
        (fun r => r < impl.numTypes ∧ impl.shouldProcess (impl.item r).node = true ∧ r ∈ allow)
        i := by
  unfold propagateAllowThroughClear
  have swept := foldl_sweep (impl.next .followInputsAndOutputs)
    (fun k => impl.clearable deny k = true ∧ k ∉ allow)
    (fun r => impl.shouldProcess (impl.item r).node = true ∧ r ∈ allow)
    (impl.clearStep deny) (fun state k => k ∈ state.1)
    (fun state => ∀ k, k ∈ state.2 ↔ k ∈ allow ∨ k ∈ state.1) impl.indices (∅, allow)
    (fun state r mem both closed => ?_) (by simp) (by simp)
  · rw [swept.1 i, swept.2 i]
    exact or_congr_right (reach_congr (fun _ => Iff.rfl) (fun r => and_congr_left' mem_indices) i)
  · unfold clearStep
    split
    next isRoot =>
      obtain ⟨visited, reached, result⟩ := dfs_collect wf .followInputsAndOutputs Prod.snd
        (fun state k => (insert k state.1, insert k state.2)) (fun _ _ => rfl)
        (fun k => impl.clearable deny k = true) state (mem_indices.1 mem)
      rw [result, foldl_insert_pair]
      simp only [mem_foldl_insert, both]
      refine ⟨fun k => by tauto, fun i => ?_⟩
      have painted : r ∈ allow := ((both r).1 isRoot.2.2).resolve_right isRoot.2.1
      rw [reached i, visits_iff both closed]
      simp [isRoot.1, painted]
    next notRoot =>
      refine ⟨both, fun i => ⟨.inl, ?_⟩⟩
      rintro (marked | ⟨⟨processed, painted⟩, reached⟩)
      · exact marked
      · have marked : r ∈ state.1 := by
          by_contra unmarked
          exact notRoot ⟨processed, unmarked, (both r).2 (.inl painted)⟩
        exact reached.subset_closed _ closed fun k (isRoot : k = r) => isRoot ▸ marked

end Clear

end Itex.AutoMixedPrecision.Impl
