import Itex.Lib.Combine

/-!
Contract: tensors of any rank, by their extents and their entries.

Owns: the indices of a tensor, slices along one dim, that the slices of a partition of a dim
have all entries of the tensor, and reductions over some of the dims.
-/

set_option autoImplicit false

namespace Itex.Lib

variable {extent k offset : Nat} {index l : List Nat}

/-! ## Indices -/

/-- All indices of a tensor. -/
def indices : List Nat → List (List Nat)
  | [] => [[]]
  | extent :: extents => (List.range extent).flatMap fun k => (indices extents).map (k :: ·)

theorem mem_indices_nil : index ∈ indices [] ↔ index = [] := List.mem_singleton

theorem mem_indices_cons {extents : List Nat} : index ∈ indices (extent :: extents) ↔
      ∃ k rest, index = k :: rest ∧ k < extent ∧ rest ∈ indices extents := by
  rw [indices, List.mem_flatMap]
  grind

theorem nodup_indices (extents : List Nat) : (indices extents).Nodup := by
  induction extents with
  | nil => exact List.nodup_singleton []
  | cons extent extents ih =>
    rw [indices, List.nodup_flatMap]
    constructor
    · intro k _
      exact ih.map fun index index' same => (List.cons.inj same).2
    · apply List.nodup_range.imp
      intro k k' ne index mem mem'
      obtain ⟨rest, -, rfl⟩ := List.mem_map.1 mem
      obtain ⟨rest', -, same⟩ := List.mem_map.1 mem'
      exact ne (List.cons.inj same).1.symm

theorem exists_mem_indices {shape : List Nat} (nonempty : 0 ∉ shape) : ∃ index, index ∈ indices shape := by
  induction shape with
  | nil => exact ⟨[], mem_indices_nil.2 rfl⟩
  | cons extent extents ih =>
    rw [List.mem_cons, not_or] at nonempty
    obtain ⟨rest, mem⟩ := ih nonempty.2
    exact ⟨0 :: rest, mem_indices_cons.2 ⟨0, rest, rfl, by omega, mem⟩⟩

theorem not_mem_indices {shape : List Nat} (isEmpty : 0 ∈ shape) : index ∉ indices shape := by
  induction shape generalizing index with
  | nil => cases isEmpty
  | cons extent extents ih =>
    intro mem
    obtain ⟨k, rest, -, bound, mem⟩ := mem_indices_cons.1 mem
    rcases List.mem_cons.1 isEmpty with isZero | later
    · omega
    · exact ih later mem

theorem length_of_mem_indices {extents : List Nat} (mem : index ∈ indices extents) :
    index.length = extents.length := by
  induction extents generalizing index with
  | nil => rw [mem_indices_nil.1 mem]
  | cons extent extents ih =>
    obtain ⟨k, rest, isIndex, _, isRest⟩ := mem_indices_cons.1 mem
    rw [isIndex, List.length_cons, List.length_cons, ih isRest]

/-- Consecutive parts of a dim, each with its offset. -/
def parts (offset : Nat) : List Nat → List (Nat × Nat)
  | [] => []
  | size :: sizes => (offset, size) :: parts (offset + size) sizes

/-- The index of an entry of a slice in the whole. -/
def shiftAt (dim offset : Nat) (index : List Nat) : List Nat := index.modify dim (· + offset)

theorem range_parts (offset : Nat) (sizes : List Nat) : (List.range sizes.sum).map (· + offset) =
      (parts offset sizes).flatMap fun part => (List.range part.2).map (· + part.1) := by
  induction sizes generalizing offset with
  | nil => rfl
  | cons size sizes ih =>
    rw [List.sum_cons, List.range_add, List.map_append, parts, List.flatMap_cons, ← ih (offset + size), List.map_map]
    congr 1
    apply List.map_congr_left
    intro k _
    change size + k + offset = k + (offset + size)
    omega

theorem flatMap_comm {α β γ : Type} (as : List α) (bs : List β) (f : α → β → List γ) :
    (as.flatMap fun a => bs.flatMap (f a)).Perm (bs.flatMap fun b => as.flatMap fun a => f a b) := by
  rw [← Multiset.coe_eq_coe]
  simp only [← Multiset.coe_bind]
  exact Multiset.bind_bind _ _

theorem indices_parts {extents sizes : List Nat} {dim : Nat} (atDim : extents[dim]? = some sizes.sum) :
    (indices extents).Perm
      ((parts 0 sizes).flatMap fun part => (indices (extents.set dim part.2)).map (shiftAt dim part.1)) := by
  induction extents generalizing dim with
  | nil => cases atDim
  | cons extent extents ih =>
    cases dim with
    | zero =>
      cases Option.some.inj atDim
      have isRange : List.range sizes.sum =
          (parts 0 sizes).flatMap fun part => (List.range part.2).map (· + part.1) := by
        rw [← range_parts]
        simp
      apply List.Perm.of_eq
      rw [indices, isRange, List.flatMap_assoc]
      apply List.flatMap_congr
      intro part _
      rw [List.set_cons_zero, indices, List.flatMap_map, List.map_flatMap]
      apply List.flatMap_congr
      intro k _
      rw [List.map_map]
      rfl
    | succ dim =>
      rw [List.getElem?_cons_succ] at atDim
      have inner := ih atDim
      have expanded : (indices (extent :: extents)).Perm ((List.range extent).flatMap fun k =>
          (parts 0 sizes).flatMap fun part =>
            ((indices (extents.set dim part.2)).map (shiftAt dim part.1)).map (k :: ·)) := by
        rw [indices]
        apply List.Perm.flatMap_left
        intro k _
        rw [← List.map_flatMap]
        exact inner.map _
      refine expanded.trans ((flatMap_comm _ _ _).trans (List.Perm.of_eq ?_))
      apply List.flatMap_congr
      intro part _
      rw [List.set_cons_succ, indices, List.map_flatMap]
      apply List.flatMap_congr
      intro k _
      rw [List.map_map, List.map_map]
      rfl

/-! ## Reduced and kept dims -/

/-- The coordinates at the dims that are kept, with `filler` at the others, or nothing. -/
def project (filler : Option Nat) : List Bool → List Nat → List Nat
  | true :: reduced, _ :: rest => filler.toList ++ project filler reduced rest
  | false :: reduced, k :: rest => k :: project filler reduced rest
  | _, _ => []

/-- Dropping no dim changes nothing, nor does filling dims with what they have. -/
theorem project_eq_self {filler : Option Nat} {reduced : List Bool}
    (same : List.Forall₂ (fun flag k => flag = true → filler = some k) reduced l) : project filler reduced l = l := by
  induction same with
  | nil => rfl
  | @cons flag k reduced l filled _ ih =>
    cases flag with
    | false => rw [project, ih]
    | true =>
      rw [project, ih, filled rfl]
      rfl

theorem length_project_some {value : Nat} {reduced : List Bool} (sameLength : reduced.length = l.length) :
    (project (some value) reduced l).length = l.length := by
  induction reduced generalizing l with
  | nil => exact sameLength
  | cons flag reduced ih =>
    cases l with
    | nil => cases sameLength
    | cons k l =>
      have later := ih (Nat.succ.inj sameLength)
      cases flag <;> simp [project, later]

theorem length_project_none {reduced : List Bool} (sameLength : reduced.length = l.length) :
    (project none reduced l).length = reduced.count false := by
  induction reduced generalizing l with
  | nil => rfl
  | cons flag reduced ih =>
    cases l with
    | nil => cases sameLength
    | cons k l =>
      have later := ih (Nat.succ.inj sameLength)
      cases flag with
      | false => rw [project, List.length_cons, later, List.count_cons_self]
      | true =>
        rw [project, List.count_cons_of_ne (by decide)]
        exact later

theorem eq_of_project_some {value : Nat} {reduced : List Bool}
    (same : project (some value) reduced l = l) {dim : Nat} (isReduced : reduced[dim]? = some true)
    (atDim : l[dim]? = some k) : k = value := by
  induction reduced generalizing l dim with
  | nil => cases isReduced
  | cons flag reduced ih =>
    cases l with
    | nil => cases atDim
    | cons first l =>
      cases dim with
      | zero =>
        cases isReduced
        cases atDim
        exact (List.cons.inj same).1.symm
      | succ dim =>
        cases flag with
        | false => exact ih (List.cons.inj same).2 isReduced atDim
        | true => exact ih (List.cons.inj same).2 isReduced atDim

/-- Where a kept dim goes. -/
def projectDim (filler : Option Nat) : List Bool → Nat → Nat
  | true :: reduced, dim + 1 => filler.toList.length + projectDim filler reduced dim
  | false :: reduced, dim + 1 => projectDim filler reduced dim + 1
  | _, _ => 0

section Project

variable {filler : Option Nat} {reduced : List Bool} {dim : Nat}

theorem modify_append_left {r : List Nat} {f : Nat → Nat} :
    (l ++ r).modify (l.length + k) f = l ++ r.modify k f := by
  induction l with
  | nil => simp
  | cons a l ih =>
    rw [List.cons_append, List.length_cons, Nat.add_right_comm, List.modify_succ_cons, ih, List.cons_append]

theorem project_modify_of_reduced (isReduced : reduced[dim]? = some true) (f : Nat → Nat) (index : List Nat) :
    project filler reduced (index.modify dim f) = project filler reduced index := by
  induction reduced generalizing dim index with
  | nil => cases isReduced
  | cons flag reduced ih =>
    cases index with
    | nil => rw [List.modify_nil]
    | cons k rest =>
      cases dim with
      | zero =>
        cases Option.some.inj isReduced
        rfl
      | succ dim =>
        rw [List.modify_succ_cons]
        rw [List.getElem?_cons_succ] at isReduced
        cases flag with
        | true => rw [project, project, ih isReduced]
        | false => rw [project, project, ih isReduced]

theorem project_modify_of_kept (isKept : reduced[dim]? = some false) (f : Nat → Nat) (index : List Nat) :
    project filler reduced (index.modify dim f) =
      (project filler reduced index).modify (projectDim filler reduced dim) f := by
  induction reduced generalizing dim index with
  | nil => cases isKept
  | cons flag reduced ih =>
    cases index with
    | nil =>
      rw [List.modify_nil, project, List.modify_nil]
      · intro flags k rest _ isCons
        cases isCons
      · intro flags k rest _ isCons
        cases isCons
    | cons k rest =>
      cases dim with
      | zero =>
        cases Option.some.inj isKept
        rfl
      | succ dim =>
        rw [List.modify_succ_cons]
        rw [List.getElem?_cons_succ] at isKept
        cases flag with
        | true => rw [project, project, ih isKept, projectDim, modify_append_left]
        | false => rw [project, project, ih isKept, projectDim, List.modify_succ_cons]

theorem getElem?_project (isKept : reduced[dim]? = some false) {index : List Nat}
    (sameLength : index.length = reduced.length) :
    (project filler reduced index)[projectDim filler reduced dim]? = index[dim]? := by
  induction reduced generalizing dim index with
  | nil => cases isKept
  | cons flag reduced ih =>
    cases index with
    | nil => cases sameLength
    | cons k rest =>
      rw [List.length_cons, List.length_cons, Nat.add_right_cancel_iff] at sameLength
      cases dim with
      | zero =>
        cases Option.some.inj isKept
        rfl
      | succ dim =>
        rw [List.getElem?_cons_succ] at isKept ⊢
        cases flag with
        | true =>
          rw [project, projectDim, List.getElem?_append_right (Nat.le_add_right _ _), Nat.add_sub_cancel_left,
            ih isKept sameLength]
        | false => rw [project, projectDim, List.getElem?_cons_succ, ih isKept sameLength]

/-- The place of a kept dim does not depend on the coordinate of the others. -/
theorem projectDim_filler (keepDims : Bool) (reduced : List Bool) (dim : Nat) :
    projectDim (if keepDims then some 1 else none) reduced dim =
      projectDim (if keepDims then some 0 else none) reduced dim := by
  induction reduced generalizing dim with
  | nil => rfl
  | cons flag reduced ih =>
    cases dim with
    | zero => cases flag <;> rfl
    | succ dim =>
      cases flag with
      | true =>
        rw [projectDim, projectDim, ih]
        cases keepDims <;> rfl
      | false => rw [projectDim, projectDim, ih]

end Project

/-! ## Tensors -/

structure Tensor (α : Type) where
  extents : List Nat
  entry : List Nat → α

namespace Tensor

variable {α β : Type}

/-- The same tensor: entries outside the extents do not count. -/
def Same (x y : Tensor α) : Prop :=
  x.extents = y.extents ∧ ∀ index ∈ indices x.extents, x.entry index = y.entry index

def slice (x : Tensor α) (dim offset size : Nat) : Tensor α :=
  ⟨x.extents.set dim size, fun index => x.entry (shiftAt dim offset index)⟩

/-- The indices of the entries that a reduction puts together. -/
def fiberIndices (keepDims : Bool) (reduced : List Bool) (extents index : List Nat) : List (List Nat) :=
  (indices extents).filter fun source => project (if keepDims then some 0 else none) reduced source = index

/-- These entries. -/
def fiber (x : Tensor α) (keepDims : Bool) (reduced : List Bool) (index : List Nat) : List α :=
  (fiberIndices keepDims reduced x.extents index).map x.entry

/-- A reduction over the dims with a flag. -/
def reduce (f : List α → β) (keepDims : Bool) (reduced : List Bool) (x : Tensor α) : Tensor β :=
  ⟨project (if keepDims then some 1 else none) reduced x.extents, fun index => f (x.fiber keepDims reduced index)⟩

theorem project_mem_indices (keepDims : Bool) {reduced : List Bool} {extents index : List Nat}
    (mem : index ∈ indices extents) : project (if keepDims then some 0 else none) reduced index ∈
      indices (project (if keepDims then some 1 else none) reduced extents) := by
  induction reduced generalizing extents index with
  | nil => exact mem_indices_nil.2 rfl
  | cons flag reduced ih =>
    cases extents with
    | nil =>
      rw [mem_indices_nil.1 mem]
      cases flag <;> exact mem_indices_nil.2 rfl
    | cons extent extents =>
      obtain ⟨k, rest, isIndex, bound, isRest⟩ := mem_indices_cons.1 mem
      have later := ih isRest
      rw [isIndex]
      cases flag with
      | false => exact mem_indices_cons.2 ⟨k, _, rfl, bound, later⟩
      | true =>
        cases keepDims with
        | false => exact later
        | true => exact mem_indices_cons.2 ⟨0, _, rfl, Nat.one_pos, later⟩

/-! ### Reductions of nothing -/

def Trivial (keepDims : Bool) (reduced : List Bool) (extents : List Nat) : Prop :=
  List.Forall₂ (fun flag extent => flag = true → keepDims = true ∧ extent = 1) reduced extents

section Trivial

variable {keepDims : Bool} {reduced : List Bool} {extents : List Nat}

theorem Trivial.project_extents (trivial : Trivial keepDims reduced extents) :
    project (if keepDims then some 1 else none) reduced extents = extents := by
  apply project_eq_self
  apply trivial.imp
  intro flag extent ofFlag isReduced
  obtain ⟨keeps, isOne⟩ := ofFlag isReduced
  rw [if_pos keeps, isOne]

theorem Trivial.project_index (trivial : Trivial keepDims reduced extents)
    (mem : index ∈ indices extents) : project (if keepDims then some 0 else none) reduced index = index := by
  apply project_eq_self
  induction trivial generalizing index with
  | nil =>
    rw [mem_indices_nil.1 mem]
    exact List.Forall₂.nil
  | cons ofFlag _ ih =>
    obtain ⟨k, rest, rfl, bound, later⟩ := mem_indices_cons.1 mem
    refine List.Forall₂.cons ?_ (ih later)
    intro isReduced
    obtain ⟨keeps, isOne⟩ := ofFlag isReduced
    rw [if_pos keeps]
    congr 1
    omega

/-- The entry of the whole is the only one put together. -/
theorem Trivial.fiberIndices (trivial : Trivial keepDims reduced extents)
    (mem : index ∈ indices extents) : fiberIndices keepDims reduced extents index = [index] := by
  have same : Tensor.fiberIndices keepDims reduced extents index =
      (indices extents).filter fun source => source = index := by
    apply List.filter_congr
    intro source isSource
    rw [trivial.project_index isSource]
  rw [same, List.filter_eq, List.count_eq_one_of_mem (nodup_indices extents) mem]
  rfl

theorem Trivial.reduce [AddCommMonoid α] {x : Tensor α} (trivial : Trivial keepDims reduced x.extents) :
    x.Same (x.reduce List.sum keepDims reduced) := by
  constructor
  · exact trivial.project_extents.symm
  · intro index mem
    change x.entry index = ((Tensor.fiberIndices keepDims reduced x.extents index).map x.entry).sum
    rw [trivial.fiberIndices mem, List.map_singleton, List.sum_singleton]

end Trivial

section Parts

variable {keepDims : Bool} {reduced : List Bool} {dim : Nat} {x : Tensor α}

theorem fiberIndices_parts {extents sizes : List Nat} (isReduced : reduced[dim]? = some true)
    (atDim : extents[dim]? = some sizes.sum) (index : List Nat) :
    (fiberIndices keepDims reduced extents index).Perm ((parts 0 sizes).flatMap fun part =>
      (fiberIndices keepDims reduced (extents.set dim part.2) index).map (shiftAt dim part.1)) := by
  refine ((indices_parts atDim).filter _).trans (List.Perm.of_eq ?_)
  rw [List.filter_flatMap]
  apply List.flatMap_congr
  intro part _
  rw [List.filter_map]
  unfold fiberIndices
  congr 1
  apply List.filter_congr
  intro source _
  change decide (project _ reduced (source.modify dim _) = index) = _
  rw [project_modify_of_reduced isReduced]

theorem fiber_parts {sizes : List Nat} (isReduced : reduced[dim]? = some true)
    (atDim : x.extents[dim]? = some sizes.sum) (index : List Nat) :
    (x.fiber keepDims reduced index).Perm ((parts 0 sizes).flatMap fun part =>
      (x.slice dim part.1 part.2).fiber keepDims reduced index) := by
  refine ((fiberIndices_parts isReduced atDim index).map x.entry).trans (List.Perm.of_eq ?_)
  rw [List.map_flatMap]
  apply List.flatMap_congr
  intro part _
  rw [List.map_map]
  rfl

theorem length_parts (offset : Nat) (sizes : List Nat) : (parts offset sizes).length = sizes.length := by
  induction sizes generalizing offset with
  | nil => rfl
  | cons size sizes ih => simp [parts, ih]

theorem parts_replicate_snd {count : Nat} {part : Nat × Nat} (mem : part ∈ parts offset (List.replicate count 1)) :
    part.2 = 1 := by
  induction count generalizing offset with
  | zero => cases mem
  | succ count ih =>
    rw [List.replicate_succ, parts] at mem
    rcases List.mem_cons.1 mem with same | later
    · rw [same]
    · exact ih later

/-- Their number grows with the size of the part. -/
theorem length_fiber_slice (isReduced : reduced[dim]? = some true) (inside : dim < x.extents.length)
    (offset size : Nat) (index : List Nat) : ((x.slice dim offset size).fiber keepDims reduced index).length =
      size * (fiberIndices keepDims reduced (x.extents.set dim 1) index).length := by
  have atDim : (x.extents.set dim size)[dim]? = some (List.replicate size 1).sum := by
    rw [List.getElem?_set_self inside, List.sum_replicate, Nat.nsmul_eq_mul, Nat.mul_one]
  have counted := (@fiberIndices_parts keepDims reduced dim _ _ isReduced atDim index).length_eq
  unfold fiber
  rw [List.length_map]
  change (fiberIndices keepDims reduced (x.extents.set dim size) index).length = _
  rw [counted, List.length_flatMap]
  have each : ((parts 0 (List.replicate size 1)).map fun part =>
      ((fiberIndices keepDims reduced ((x.extents.set dim size).set dim part.2) index).map
        (shiftAt dim part.1)).length) =
      List.replicate size (fiberIndices keepDims reduced (x.extents.set dim 1) index).length := by
    rw [List.eq_replicate_iff]
    refine ⟨by rw [List.length_map, length_parts, List.length_replicate], ?_⟩
    intro count mem
    obtain ⟨part, isPart, isCount⟩ := List.mem_map.1 mem
    rw [← isCount, List.length_map, List.set_set, parts_replicate_snd isPart]
  rw [each, List.sum_replicate, Nat.nsmul_eq_mul]

theorem coordinate_lt {extents : List Nat} (mem : index ∈ indices extents)
    (atDim : extents[dim]? = some extent) : ∃ k, index[dim]? = some k ∧ k < extent := by
  induction extents generalizing index dim with
  | nil => cases atDim
  | cons first extents ih =>
    obtain ⟨k, rest, isIndex, bound, isRest⟩ := mem_indices_cons.1 mem
    grind

theorem shiftAt_injective (dim offset : Nat) : Function.Injective (shiftAt dim offset) := by
  intro left right same
  apply List.ext_getElem?
  intro k
  have atK := congrArg (fun index : List Nat => index[k]?) same
  simp only [shiftAt, List.getElem?_modify] at atK
  by_cases isDim : dim = k
  · simp only [isDim, if_true] at atK
    exact Option.map_injective (fun a b => Nat.add_right_cancel) atK
  · simpa [isDim] using atK

theorem filter_eq_nil_of_coordinate {extents target : List Nat} {shift extent k : Nat}
    (isKept : reduced[dim]? = some false) (sameLength : extents.length = reduced.length)
    (atDim : extents[dim]? = some extent)
    (atTarget : target[projectDim (if keepDims then some 0 else none) reduced dim]? = some k)
    (outside : ∀ c, c < extent → c + shift ≠ k) : ((indices extents).map (shiftAt dim shift)).filter
      (fun source => project (if keepDims then some 0 else none) reduced source = target) = [] := by
  rw [List.filter_eq_nil_iff]
  intro source mem isTarget
  obtain ⟨index, isIndex, isSource⟩ := List.mem_map.1 mem
  obtain ⟨c, atC, bound⟩ := coordinate_lt isIndex atDim
  rw [decide_eq_true_eq] at isTarget
  have atSource : source[dim]? = some (c + shift) := by
    rw [← isSource, shiftAt, List.getElem?_modify, atC]
    simp
  have sourceLength : source.length = reduced.length := by
    rw [← isSource, shiftAt, List.length_modify, length_of_mem_indices isIndex, sameLength]
  have image := @getElem?_project (if keepDims then some 0 else none) reduced dim isKept source sourceLength
  rw [isTarget, atTarget, atSource] at image
  exact outside c bound (Option.some.inj image).symm

theorem fiber_slice_of_kept {size : Nat} (isKept : reduced[dim]? = some false)
    (sameLength : x.extents.length = reduced.length) (atDim : x.extents[dim]? = some extent)
    (within : offset + size ≤ extent)
    (atIndex : index[projectDim (if keepDims then some 0 else none) reduced dim]? = some k) (bound : k < size) :
    ((x.slice dim offset size).fiber keepDims reduced index).Perm (x.fiber keepDims reduced
        (shiftAt (projectDim (if keepDims then some 0 else none) reduced dim) offset index)) := by
  generalize isPlace : projectDim (if keepDims then some 0 else none) reduced dim = place at atIndex ⊢
  have inside := (List.getElem?_eq_some_iff.1 atDim).1
  have atTarget : (shiftAt place offset index)[place]? = some (k + offset) := by
    rw [shiftAt, List.getElem?_modify, atIndex]
    simp
  have asParts : x.extents[dim]? = some [offset, size, extent - offset - size].sum := by
    rw [atDim]
    simp
    omega
  unfold fiber
  refine List.Perm.symm ((((indices_parts asParts).filter _).map x.entry).trans (List.Perm.of_eq ?_))
  have before := @filter_eq_nil_of_coordinate keepDims reduced dim (x.extents.set dim offset)
    (shiftAt place offset index) 0 offset (k + offset) isKept (by rw [List.length_set, sameLength])
    (List.getElem?_set_self inside) (by rw [isPlace, atTarget]) (by omega)
  have after := @filter_eq_nil_of_coordinate keepDims reduced dim
    (x.extents.set dim (extent - offset - size)) (shiftAt place offset index) (offset + size)
    (extent - offset - size) (k + offset) isKept (by rw [List.length_set, sameLength])
    (List.getElem?_set_self inside) (by rw [isPlace, atTarget]) (by omega)
  simp only [parts, List.flatMap_cons, List.flatMap_nil, List.append_nil, List.filter_append, before, after,
    List.nil_append, Nat.zero_add]
  rw [List.filter_map, List.map_map]
  unfold fiberIndices
  change List.map _ (List.filter _ (indices (x.extents.set dim size))) =
    List.map _ (List.filter _ (indices (x.extents.set dim size)))
  congr 1
  apply List.filter_congr
  intro source _
  change decide (project _ reduced (shiftAt dim offset source) = _) = _
  rw [shiftAt, project_modify_of_kept isKept, isPlace]
  exact decide_eq_decide.2 (shiftAt_injective place offset).eq_iff

theorem reduce_slice_of_kept {f : List α → β} (orderless : ∀ l l' : List α, l.Perm l' → f l = f l')
    {size : Nat} (isKept : reduced[dim]? = some false)
    (sameLength : x.extents.length = reduced.length) (atDim : x.extents[dim]? = some extent)
    (within : offset + size ≤ extent) : ((x.slice dim offset size).reduce f keepDims reduced).Same
      ((x.reduce f keepDims reduced).slice
        (projectDim (if keepDims then some 0 else none) reduced dim) offset size) := by
  have inside := (List.getElem?_eq_some_iff.1 atDim).1
  constructor
  · change project _ reduced (x.extents.set dim size) = (project _ reduced x.extents).set _ size
    rw [List.set_eq_modify, project_modify_of_kept isKept, List.set_eq_modify, projectDim_filler]
  · intro index mem
    apply orderless
    have atPlace : (project (if keepDims then some 1 else none) reduced (x.extents.set dim size))[
        projectDim (if keepDims then some 0 else none) reduced dim]? = some size := by
      rw [← projectDim_filler, getElem?_project isKept (by rw [List.length_set, sameLength]),
        List.getElem?_set_self inside]
    obtain ⟨k, atIndex, bound⟩ := coordinate_lt mem atPlace
    exact fiber_slice_of_kept isKept sameLength atDim within atIndex bound

end Parts

end Tensor

end Itex.Lib
