import Itex.XpuAutoShard.Reduction

/-!
Contract: the dim groups of the ops with an axis
(`common/hsp_inference/tfg_ops.cpp`,
`hsp_inference_utils.cpp`).

Owns: the groups of `GatherV2Infer` and `packInfer`, the index maps of `GatherV2`, `Pack` and
`Unpack`, and when the groups follow the maps.

The operands and results of an op end with its control edges, which have no dims.
-/

namespace Itex.XpuAutoShard.Hsp

def sizeT (value : Int) : Nat := (value % 2 ^ 64).toNat

/-- The dim of the input that `GatherV2Infer` pairs with a dim of the output. -/
def gatherV2Source (rank1 axis dim : Nat) : DimItem :=
  if axis ≤ dim ∧ dim < axis + rank1 then
    -- The number is written twice, and the dim is left as it is.
    { isInput := true, num := dim - axis, dim := dim }
  else if axis + rank1 ≤ dim then { isInput := true, num := 0, dim := dim + 1 - rank1 }
  else { isInput := true, num := 0, dim := dim }

/-- The groups of `GatherV2Infer`, for a constant `axis`. -/
def gatherV2DimGroups (rank0 rank1 : Nat) (axis : Int) : List DimGroup :=
  let axis := ((axis + rank0).tmod rank0).toNat
  { items := [⟨true, 0, axis⟩] } ::
    (List.range (rank0 + rank1 - 1)).map fun dim =>
      { items := [gatherV2Source rank1 axis dim, ⟨false, 0, dim⟩] }

def gatherV2Infer (props : OpProps) (rank0 rank1 : Nat) (axis : Int) (heap : Heap) : DoInfer :=
  inferWithDimGroups props (.ok (gatherV2DimGroups rank0 rank1 axis)) heap

/-- The items of one dim in `packInfer`. The dims are compared as `size_t`. -/
def packItems (number : Nat) (isPack : Bool) (packDim dim : Nat) : List DimItem :=
  (if dim ≠ packDim then
    (List.range number).map fun num => ⟨isPack, num, if packDim < dim then dim - 1 else dim⟩
  else []) ++ [⟨!isPack, 0, dim⟩]

/-- The groups of `packInfer`. -/
def packDimGroups (numInputs numOutputs : Nat) (inputRank outputRank packDim : Int) : List DimGroup :=
  let number := max numInputs (numOutputs - 1)
  let isPack := decide (sizeT inputRank < sizeT outputRank)
  let rank := max (sizeT inputRank) (sizeT outputRank)
  (List.range rank).map fun dim => { items := packItems number isPack (sizeT packDim) dim }

def packInfer (props : OpProps) (packDim : Int) (heap : Heap) : DoInfer :=
  match readFirst props heap with
  | .error failure => .fail failure
  | .ok (input, output, _) =>
    inferWithDimGroups props
      (.ok (packDimGroups props.inputs.length props.outputs.length input.rank output.rank packDim)) heap

/-! ## Ops with an axis -/

/-- The op, with the ranks of its data operands, or of the tensors that are packed. -/
inductive AxisOp where
  | gatherV2 (rank0 rank1 : Nat)
  | pack (count rank : Nat)
  | unpack (count rank : Nat)
deriving DecidableEq, Repr

/-- An op in a graph. -/
structure AxisSite where
  op : AxisOp
  axis : Int
  /-- Control operands. -/
  controls : Nat := 0
deriving DecidableEq, Repr

namespace AxisSite

def inputRanks (site : AxisSite) : List (Option Nat) :=
  (match site.op with
    | .gatherV2 rank0 rank1 => [some rank0, some rank1, some 0]
    | .pack count rank => List.replicate count (some rank)
    | .unpack _ rank => [some (rank + 1)]) ++ List.replicate site.controls none

def outputRanks (site : AxisSite) : List (Option Nat) :=
  (match site.op with
    | .gatherV2 rank0 rank1 => [some (rank0 + rank1 - 1)]
    | .pack _ rank => [some (rank + 1)]
    | .unpack count rank => List.replicate count (some rank)) ++ [none]

/-- The number of values that the axis counts. -/
def axisRank (site : AxisSite) : Nat :=
  match site.op with
  | .gatherV2 rank0 _ => rank0
  | .pack _ rank | .unpack _ rank => rank + 1

/-- The axes and the operands that the op accepts. Ranks are numbers of an `int`. -/
structure Accepted (site : AxisSite) : Prop where
  above : -site.axisRank ≤ site.axis
  below : site.axis < site.axisRank
  ranks : site.axisRank < 2 ^ 31
  packs : ∀ count rank, site.op = .pack count rank → 0 < count

/-- `getRank` of the first operand or result; it is `UNRANKED` for a control edge. -/
def firstRank (ranks : List (Option Nat)) : Int :=
  match ranks with
  | some rank :: _ => rank
  | _ => -1

/-- The groups that the inference of the op builds. -/
def dimGroups (site : AxisSite) : List DimGroup :=
  match site.op with
  | .gatherV2 rank0 rank1 => gatherV2DimGroups rank0 rank1 site.axis
  | .pack _ _ | .unpack _ _ =>
    packDimGroups site.inputRanks.length site.outputRanks.length (firstRank site.inputRanks)
      (firstRank site.outputRanks) site.axis

/-- The axis, counted from the front. -/
def place (site : AxisSite) : Nat := (site.axis % site.axisRank).toNat

/-- The index map of the op carries a dim of an input to a dim of an output. -/
def Carries (site : AxisSite) (input output : Nat × Nat) : Prop :=
  match site.op with
  | .gatherV2 rank0 rank1 =>
    output.1 = 0 ∧ output.2 < rank0 + rank1 - 1 ∧ input = (if output.2 < site.place then (0, output.2)
        else if output.2 < site.place + rank1 then (1, output.2 - site.place)
        else (0, output.2 - rank1 + 1))
  | .pack count rank =>
    input.1 < count ∧ input.2 < rank ∧ output = (0, if input.2 < site.place then input.2 else input.2 + 1)
  | .unpack count rank =>
    output.1 < count ∧ output.2 < rank ∧ input = (0, if output.2 < site.place then output.2 else output.2 + 1)

/-- The item names a dim of an operand or of a result. -/
def Exists (site : AxisSite) (item : DimItem) : Prop :=
  ∃ rank, (if item.isInput then site.inputRanks else site.outputRanks)[item.num]? = some (some rank) ∧ item.dim < rank

def Pairs (groups : List DimGroup) (input output : Nat × Nat) : Prop :=
  ∃ group ∈ groups, ⟨true, input.1, input.2⟩ ∈ group.items ∧ ⟨false, output.1, output.2⟩ ∈ group.items

/-- The groups follow the index map. -/
structure Follows (site : AxisSite) : Prop where
  named : ∀ group ∈ site.dimGroups, ∀ item ∈ group.items, site.Exists item
  paired : ∀ input output, Pairs site.dimGroups input output ↔ site.Carries input output

/-- Where the arithmetic on the axis does no harm. -/
def Harmless (site : AxisSite) : Prop :=
  match site.op with
  | .gatherV2 _ rank1 => rank1 = 0
  | .pack _ rank => 0 ≤ site.axis ∧ (site.controls = 0 ∨ rank = 0)
  | .unpack count rank => 0 < count ∧ 0 ≤ site.axis ∧ (site.controls < count ∨ rank = 0)

theorem pairs_cons_of_no_output {group : DimGroup} {groups : List DimGroup} {input output : Nat × Nat}
    (noOutput : ∀ item ∈ group.items, item.isInput = true) :
    Pairs (group :: groups) input output ↔ Pairs groups input output := by
  unfold Pairs
  constructor
  · grind
  · intro paired
    obtain ⟨found, mem, both⟩ := paired
    exact ⟨found, List.mem_cons_of_mem _ mem, both⟩

theorem pairs_gatherV2 {rank0 rank1 : Nat} {axis : Int} {input output : Nat × Nat} :
    Pairs (gatherV2DimGroups rank0 rank1 axis) input output ↔ output.1 = 0 ∧ output.2 < rank0 + rank1 - 1 ∧
        gatherV2Source rank1 ((axis + rank0).tmod rank0).toNat output.2 = ⟨true, input.1, input.2⟩ := by
  unfold gatherV2DimGroups
  rw [pairs_cons_of_no_output (fun item mem => by rw [List.mem_singleton.1 mem])]
  unfold Pairs
  constructor
  · grind
  · intro found
    obtain ⟨first, inRange, source⟩ := found
    refine ⟨_, List.mem_map.2 ⟨output.2, List.mem_range.2 inRange, rfl⟩, ?_, ?_⟩
    · exact source ▸ List.mem_cons_self
    · rw [first]
      exact List.mem_cons_of_mem _ List.mem_cons_self

/-- An accepted axis, as `GatherV2Infer` normalizes it. -/
theorem toNat_tmod_eq {axis : Int} {rank : Nat} (above : -rank ≤ axis) :
    ((axis + rank).tmod rank).toNat = (axis % rank).toNat := by
  rw [Int.tmod_eq_emod_of_nonneg (by omega), Int.add_emod_right]

theorem place_lt {site : AxisSite} (accepted : site.Accepted) : site.place < site.axisRank := by
  have above := accepted.above
  have below := accepted.below
  have pos : (0 : Int) < site.axisRank := by omega
  have small := Int.emod_lt_of_pos site.axis pos
  have nonnegative := Int.emod_nonneg site.axis (Int.ne_of_gt pos)
  unfold place
  omega

theorem gatherV2_follows_iff {site : AxisSite} {rank0 rank1 : Nat} (isGather : site.op = .gatherV2 rank0 rank1)
    (accepted : site.Accepted) : site.Follows ↔ rank1 = 0 := by
  have isRank : site.axisRank = rank0 := by
    unfold axisRank
    rw [isGather]
  have inside : site.place < rank0 := isRank ▸ place_lt accepted
  have isGroups : site.dimGroups = gatherV2DimGroups rank0 rank1 site.axis := by
    unfold dimGroups
    rw [isGather]
  have normalized : ((site.axis + rank0).tmod rank0).toNat = site.place := by
    unfold place
    rw [isRank]
    exact toNat_tmod_eq (isRank ▸ accepted.above)
  have carries : ∀ input output, site.Carries input output ↔ output.1 = 0 ∧ output.2 < rank0 + rank1 - 1 ∧
      input = (if output.2 < site.place then (0, output.2)
        else if output.2 < site.place + rank1 then (1, output.2 - site.place)
        else (0, output.2 - rank1 + 1)) := by
    intro input output
    unfold Carries
    rw [isGather]
  constructor
  · intro follows
    by_contra ranked
    -- The first dim of the indices is paired with the data.
    have carried : site.Carries (1, 0) (0, site.place) := by
      rw [carries, if_neg (by omega), if_pos (by omega), Nat.sub_self]
      exact ⟨rfl, by dsimp only; omega, rfl⟩
    have paired := (follows.paired _ _).2 carried
    rw [isGroups, pairs_gatherV2, normalized] at paired
    have source := paired.2.2
    unfold gatherV2Source at source
    dsimp only at source
    rw [if_pos (by omega), Nat.sub_self] at source
    cases source
  · intro scalar
    have source : ∀ dim, gatherV2Source rank1 site.place dim =
        if dim < site.place then ⟨true, 0, dim⟩ else ⟨true, 0, dim + 1⟩ := by
      intro dim
      unfold gatherV2Source
      rw [scalar, if_neg (by omega)]
      by_cases before : dim < site.place
      · rw [if_pos before, if_neg (by omega)]
      · rw [if_neg before, if_pos (by omega), Nat.sub_zero]
    refine ⟨?_, ?_⟩
    · intro group mem item inItems
      have isInputs : site.inputRanks[0]? = some (some rank0) := by
        unfold inputRanks
        rw [isGather]
        rfl
      have isOutputs : site.outputRanks[0]? = some (some (rank0 + rank1 - 1)) := by
        unfold outputRanks
        rw [isGather]
        rfl
      rw [isGroups] at mem
      unfold gatherV2DimGroups at mem
      rw [normalized] at mem
      rcases List.mem_cons.1 mem with isFirst | later
      · rw [isFirst, List.mem_singleton] at inItems
        rw [inItems]
        exact ⟨rank0, isInputs, inside⟩
      · obtain ⟨dim, inRange, isGroup⟩ := List.mem_map.1 later
        have bound := List.mem_range.1 inRange
        rw [← isGroup, List.mem_cons, List.mem_singleton, source] at inItems
        rcases inItems with isSource | isOutput
        · split at isSource
          · rw [isSource]
            exact ⟨rank0, isInputs, by dsimp only; omega⟩
          · rw [isSource]
            exact ⟨rank0, isInputs, by dsimp only; omega⟩
        · rw [isOutput]
          exact ⟨_, isOutputs, bound⟩
    · intro input output
      rw [isGroups, pairs_gatherV2, normalized, carries, source, scalar]
      grind

/-! ## Pack and Unpack -/

theorem mem_packItems {number packDim dim : Nat} {isPack : Bool} {item : DimItem} :
    item ∈ packItems number isPack packDim dim ↔
      (dim ≠ packDim ∧ ∃ num < number, item = ⟨isPack, num, if packDim < dim then dim - 1 else dim⟩) ∨
        item = ⟨!isPack, 0, dim⟩ := by
  unfold packItems
  rw [List.mem_append, List.mem_singleton]
  apply or_congr_left
  by_cases isAxis : dim = packDim
  · simp [isAxis]
  · grind

theorem packItems_pair {number packDim dim : Nat} {isPack : Bool} {part whole : Nat × Nat} :
    (⟨isPack, part.1, part.2⟩ ∈ packItems number isPack packDim dim ∧
        ⟨!isPack, whole.1, whole.2⟩ ∈ packItems number isPack packDim dim) ↔
      dim ≠ packDim ∧ whole = (0, dim) ∧ part.1 < number ∧ part.2 = if packDim < dim then dim - 1 else dim := by
  rw [mem_packItems, mem_packItems]
  cases isPack <;> simp [Prod.ext_iff] <;> tauto

/-- What `packInfer` needs for its pairs to be those of the index map. -/
theorem shift_iff {number count rank place packDim : Nat} (counted : count ≤ number) (some_ : 0 < number)
    (inside : place < rank + 1) (isAxis : packDim = place ∨ rank < packDim) :
    ((∀ dim < rank + 1, dim ≠ packDim → ∀ num < number, num < count ∧ (if packDim < dim then dim - 1 else dim) < rank) ∧
      ∀ part whole : Nat × Nat, (∃ dim < rank + 1, dim ≠ packDim ∧ whole = (0, dim) ∧ part.1 < number ∧
          part.2 = if packDim < dim then dim - 1 else dim) ↔
        part.1 < count ∧ part.2 < rank ∧ whole = (0, if part.2 < place then part.2 else part.2 + 1)) ↔
      packDim = place ∧ (number ≤ count ∨ rank = 0) := by
  constructor
  · intro right
    obtain ⟨named, _⟩ := right
    have isPlace : packDim = place := by
      rcases isAxis with isPlace | beyond
      · exact isPlace
      · have last := (named rank (by omega) (by omega) 0 some_).2
        rw [if_neg (by omega)] at last
        omega
    refine ⟨isPlace, ?_⟩
    by_contra both
    have other : ∃ dim < rank + 1, dim ≠ packDim := by
      by_cases first : packDim = 0
      · exact ⟨1, by omega, by omega⟩
      · exact ⟨0, by omega, by omega⟩
    obtain ⟨dim, bound, notAxis⟩ := other
    have last := (named dim bound notAxis count (by omega)).1
    omega
  · grind

theorem sizeT_natCast {value : Nat} (small : value < 2 ^ 64) : sizeT value = value := by
  unfold sizeT
  omega

theorem sizeT_axis {site : AxisSite} (accepted : site.Accepted) : (sizeT site.axis = site.place ↔ 0 ≤ site.axis) ∧
      (sizeT site.axis = site.place ∨ site.axisRank ≤ sizeT site.axis) := by
  have above := accepted.above
  have below := accepted.below
  have small := accepted.ranks
  have inside := place_lt accepted
  by_cases negative : site.axis < 0
  · have wraps : sizeT site.axis = (2 ^ 64 + site.axis).toNat := by
      unfold sizeT
      omega
    rw [wraps]
    omega
  · have isPlace : site.place = site.axis.toNat := by
      unfold place
      rw [Int.emod_eq_of_lt (by omega) below]
    have isAxis : sizeT site.axis = site.axis.toNat := by
      unfold sizeT
      omega
    rw [isPlace, isAxis]
    omega

section Packed

variable {site : AxisSite} {isPack : Bool} {number count rank packDim : Nat}
  (isGroups : site.dimGroups =
    (List.range (rank + 1)).map fun dim => { items := packItems number isPack packDim dim })
include isGroups

theorem pairs_packed {part whole : Nat × Nat} :
    Pairs site.dimGroups (if isPack then part else whole) (if isPack then whole else part) ↔
      ∃ dim < rank + 1, dim ≠ packDim ∧ whole = (0, dim) ∧ part.1 < number ∧
        part.2 = if packDim < dim then dim - 1 else dim := by
  have sides : Pairs site.dimGroups (if isPack then part else whole) (if isPack then whole else part) ↔
      ∃ group ∈ site.dimGroups, ⟨isPack, part.1, part.2⟩ ∈ group.items ∧
        ⟨!isPack, whole.1, whole.2⟩ ∈ group.items := by
    cases isPack with
    | true => exact Iff.rfl
    | false => exact exists_congr fun group => and_congr_right fun _ => and_comm
  rw [sides, isGroups]
  constructor
  · intro found
    obtain ⟨group, mem, both⟩ := found
    obtain ⟨dim, inRange, isGroup⟩ := List.mem_map.1 mem
    rw [← isGroup] at both
    exact ⟨dim, List.mem_range.1 inRange, packItems_pair.1 both⟩
  · intro found
    obtain ⟨dim, bound, paired⟩ := found
    exact ⟨_, List.mem_map.2 ⟨dim, List.mem_range.2 bound, rfl⟩, packItems_pair.2 paired⟩

theorem named_packed (parts : ∀ num r, (if isPack then site.inputRanks else site.outputRanks)[num]? = some (some r) ↔
      num < count ∧ r = rank)
    (whole : (if isPack then site.outputRanks else site.inputRanks)[0]? = some (some (rank + 1))) :
    (∀ group ∈ site.dimGroups, ∀ item ∈ group.items, site.Exists item) ↔
      ∀ dim < rank + 1, dim ≠ packDim → ∀ num < number,
        num < count ∧ (if packDim < dim then dim - 1 else dim) < rank := by
  have partExists : ∀ num dim, site.Exists ⟨isPack, num, dim⟩ ↔ num < count ∧ dim < rank := by
    intro num dim
    unfold Exists
    simp_all
  rw [isGroups]
  constructor
  · intro named dim bound notAxis num numBound
    rw [← partExists]
    apply named _ (List.mem_map.2 ⟨dim, List.mem_range.2 bound, rfl⟩)
    exact mem_packItems.2 (Or.inl ⟨notAxis, num, numBound, rfl⟩)
  · intro fits group mem item inItems
    obtain ⟨dim, inRange, isGroup⟩ := List.mem_map.1 mem
    rw [← isGroup] at inItems
    rcases mem_packItems.1 inItems with isPart | isWhole
    · obtain ⟨notAxis, num, numBound, isItem⟩ := isPart
      rw [isItem, partExists]
      exact fits dim (List.mem_range.1 inRange) notAxis num numBound
    · rw [isWhole]
      refine ⟨rank + 1, ?_, List.mem_range.1 inRange⟩
      cases isPack with
      | true => exact whole
      | false => exact whole

theorem packed_follows_iff (accepted : site.Accepted) (isRank : site.axisRank = rank + 1)
    (isAxis : packDim = sizeT site.axis) (counted : count ≤ number) (some_ : 0 < number)
    (parts : ∀ num r, (if isPack then site.inputRanks else site.outputRanks)[num]? = some (some r) ↔
      num < count ∧ r = rank)
    (whole : (if isPack then site.outputRanks else site.inputRanks)[0]? = some (some (rank + 1)))
    (carries : ∀ part whole : Nat × Nat,
      site.Carries (if isPack then part else whole) (if isPack then whole else part) ↔ part.1 < count ∧ part.2 < rank ∧
          whole = (0, if part.2 < site.place then part.2 else part.2 + 1)) :
    site.Follows ↔ 0 ≤ site.axis ∧ (number ≤ count ∨ rank = 0) := by
  have place := sizeT_axis accepted
  rw [isRank, ← isAxis] at place
  have fits := shift_iff counted some_ (isRank ▸ place_lt accepted) (place.2.imp_right (by omega))
  rw [place.1, ← named_packed isGroups parts whole] at fits
  rw [← fits]
  constructor
  · intro follows
    refine ⟨follows.named, ?_⟩
    intro part whole
    rw [← pairs_packed isGroups, follows.paired, carries]
  · intro right
    refine ⟨right.1, ?_⟩
    intro input output
    have paired := @pairs_packed _ _ _ _ _ isGroups (if isPack then input else output)
      (if isPack then output else input)
    rw [right.2, ← carries] at paired
    cases isPack with
    | true => exact paired
    | false => exact paired

end Packed

theorem getElem?_replicate_append {count num r rank : Nat} {rest : List (Option Nat)}
    (noRank : ∀ entry ∈ rest, entry = none) :
    (List.replicate count (some rank) ++ rest)[num]? = some (some r) ↔ num < count ∧ r = rank := by
  by_cases inside : num < count
  · rw [List.getElem?_append_left (by rwa [List.length_replicate]), List.getElem?_replicate, if_pos inside]
    simp only [Option.some.injEq, inside, true_and]
    exact eq_comm
  · rw [List.getElem?_append_right (by rw [List.length_replicate]; omega)]
    constructor
    · intro found
      exact absurd (noRank _ (List.mem_of_getElem? found)) (by simp)
    · intro found
      exact absurd found.1 inside

/-- With the operands and results of one op as parts, and as whole. -/
theorem packDimGroups_eq {numInputs numOutputs rank : Nat} {axis : Int} (small : rank + 1 < 2 ^ 31) :
    packDimGroups numInputs numOutputs rank (rank + 1) axis = ((List.range (rank + 1)).map fun dim =>
          { items := packItems (max numInputs (numOutputs - 1)) true (sizeT axis) dim }) ∧
      packDimGroups numInputs numOutputs (rank + 1) rank axis = (List.range (rank + 1)).map fun dim =>
          { items := packItems (max numInputs (numOutputs - 1)) false (sizeT axis) dim } := by
  have part : sizeT (rank : Int) = rank := sizeT_natCast (by omega)
  have whole : sizeT ((rank : Int) + 1) = rank + 1 := @sizeT_natCast (rank + 1) (by omega)
  unfold packDimGroups
  grind

theorem firstRank_eq {ranks : List (Option Nat)} {rank : Nat} (first : ranks[0]? = some (some rank)) :
    firstRank ranks = rank := by
  cases ranks with
  | nil => cases first
  | cons head tail =>
    cases first
    rfl

theorem pack_follows_iff {site : AxisSite} {count rank : Nat} (isPack : site.op = .pack count rank)
    (accepted : site.Accepted) : site.Follows ↔ 0 ≤ site.axis ∧ (site.controls = 0 ∨ rank = 0) := by
  have isRank : site.axisRank = rank + 1 := by
    unfold axisRank
    rw [isPack]
  have isInputs : site.inputRanks = List.replicate count (some rank) ++ List.replicate site.controls none := by
    unfold inputRanks
    rw [isPack]
  have isOutputs : site.outputRanks = [some (rank + 1), none] := by
    unfold outputRanks
    rw [isPack]
    rfl
  have counted := accepted.packs count rank isPack
  have isNumber : max site.inputRanks.length (site.outputRanks.length - 1) = count + site.controls := by
    rw [isInputs, isOutputs, List.length_append, List.length_replicate, List.length_replicate]
    exact Nat.max_eq_left (by change 1 ≤ _; omega)
  have isGroups : site.dimGroups = (List.range (rank + 1)).map fun dim =>
      { items := packItems (count + site.controls) true (sizeT site.axis) dim } := by
    have input : firstRank site.inputRanks = rank := by
      rw [isInputs]
      exact firstRank_eq ((getElem?_replicate_append fun entry mem => List.eq_of_mem_replicate mem).2
        ⟨counted, rfl⟩)
    have output : firstRank site.outputRanks = rank + 1 := by
      rw [isOutputs]
      rfl
    unfold dimGroups
    rw [isPack]
    dsimp only
    rw [input, output, (packDimGroups_eq (isRank ▸ accepted.ranks)).1, isNumber]
  have enough : count + site.controls ≤ count ∨ rank = 0 ↔ site.controls = 0 ∨ rank = 0 := by omega
  rw [← enough]
  apply packed_follows_iff isGroups accepted isRank rfl (by omega) (by omega)
  · intro num r
    rw [if_pos rfl, isInputs]
    exact getElem?_replicate_append fun entry mem => List.eq_of_mem_replicate mem
  · rw [if_pos rfl, isOutputs]
    rfl
  · intro part whole
    unfold Carries
    rw [isPack]
    exact Iff.rfl

/-- Without results, the rank that is read is that of the control edge. -/
theorem unpack_nothing {site : AxisSite} {rank : Nat} (isUnpack : site.op = .unpack 0 rank)
    (accepted : site.Accepted) : ¬ site.Follows := by
  intro follows
  have small : rank + 1 < 2 ^ 31 := by
    have ranks := accepted.ranks
    unfold axisRank at ranks
    rwa [isUnpack] at ranks
  have isOutputs : site.outputRanks = [none] := by
    unfold outputRanks
    rw [isUnpack]
    rfl
  have input : sizeT (firstRank site.inputRanks) = rank + 1 := by
    have first : firstRank site.inputRanks = ((rank + 1 : Nat) : Int) := by
      unfold inputRanks
      rw [isUnpack]
      rfl
    rw [first]
    exact sizeT_natCast (by omega)
  have output : sizeT (firstRank site.outputRanks) = 2 ^ 64 - 1 := by
    rw [isOutputs]
    rfl
  have isGroup : ⟨packItems (max site.inputRanks.length (site.outputRanks.length - 1)) true
      (sizeT site.axis) 0, 0, .sum⟩ ∈ site.dimGroups := by
    unfold dimGroups packDimGroups
    rw [isUnpack]
    dsimp only
    rw [input, output, decide_eq_true (by omega)]
    exact List.mem_map.2 ⟨0, List.mem_range.2 (by omega), rfl⟩
  obtain ⟨whole, isWhole, _⟩ := follows.named _ isGroup ⟨false, 0, 0⟩ (mem_packItems.2 (Or.inr rfl))
  rw [if_neg Bool.false_ne_true, isOutputs] at isWhole
  cases isWhole

theorem unpack_follows_iff {site : AxisSite} {count rank : Nat} (isUnpack : site.op = .unpack count rank)
    (accepted : site.Accepted) : site.Follows ↔ 0 < count ∧ 0 ≤ site.axis ∧ (site.controls < count ∨ rank = 0) := by
  have isRank : site.axisRank = rank + 1 := by
    unfold axisRank
    rw [isUnpack]
  have isInputs : site.inputRanks = some (rank + 1) :: List.replicate site.controls none := by
    unfold inputRanks
    rw [isUnpack]
    rfl
  have isOutputs : site.outputRanks = List.replicate count (some rank) ++ [none] := by
    unfold outputRanks
    rw [isUnpack]
  by_cases none_ : count = 0
  · rw [none_] at isUnpack
    exact iff_of_false (unpack_nothing isUnpack accepted) (by omega)
  have counted : 0 < count := Nat.pos_of_ne_zero none_
  have isNumber : max site.inputRanks.length (site.outputRanks.length - 1) = max (site.controls + 1) count := by
    rw [isInputs, isOutputs, List.length_append, List.length_cons, List.length_replicate, List.length_replicate]
    rfl
  have isGroups : site.dimGroups = (List.range (rank + 1)).map fun dim =>
      { items := packItems (max (site.controls + 1) count) false (sizeT site.axis) dim } := by
    have input : firstRank site.inputRanks = rank + 1 := by
      rw [isInputs]
      rfl
    have output : firstRank site.outputRanks = rank := by
      rw [isOutputs]
      exact firstRank_eq ((getElem?_replicate_append fun entry mem => List.mem_singleton.1 mem).2
        ⟨counted, rfl⟩)
    unfold dimGroups
    rw [isUnpack]
    dsimp only
    rw [input, output, (packDimGroups_eq (isRank ▸ accepted.ranks)).2, isNumber]
  have enough : max (site.controls + 1) count ≤ count ∨ rank = 0 ↔ site.controls < count ∨ rank = 0 := by omega
  rw [← enough, and_iff_right counted]
  apply packed_follows_iff isGroups accepted isRank rfl (by omega) (by omega)
  · intro num r
    rw [if_neg Bool.false_ne_true, isOutputs]
    exact getElem?_replicate_append fun entry mem => List.mem_singleton.1 mem
  · rw [if_neg Bool.false_ne_true, isInputs]
    rfl
  · intro part whole
    unfold Carries
    rw [isUnpack]
    exact Iff.rfl

/-- The groups follow the index map of the op exactly where the arithmetic does no harm. -/
theorem follows_iff_harmless {site : AxisSite} (accepted : site.Accepted) : site.Follows ↔ site.Harmless := by
  unfold Harmless
  split
  next rank0 rank1 isGather => exact gatherV2_follows_iff isGather accepted
  next count rank isPack => exact pack_follows_iff isPack accepted
  next count rank isUnpack => exact unpack_follows_iff isUnpack accepted

/-- A matrix is unpacked into three rows, and its groups are those of its dims. -/
theorem rows_follow : (⟨.unpack 3 1, 0, 0⟩ : AxisSite).Follows :=
  (follows_iff_harmless ⟨by decide, by decide, by decide, fun _ _ isPack => by cases isPack⟩).2
    ⟨by decide, by decide, Or.inl (by decide)⟩

/-- Rows of a matrix are gathered by a vector, and two vectors are packed along axis `-1`. -/
theorem gather_and_pack_miss :
    ((⟨.gatherV2 2 1, 0, 0⟩ : AxisSite).Accepted ∧ ¬ (⟨.gatherV2 2 1, 0, 0⟩ : AxisSite).Follows) ∧
      (⟨.pack 2 1, -1, 0⟩ : AxisSite).Accepted ∧ ¬ (⟨.pack 2 1, -1, 0⟩ : AxisSite).Follows := by
  refine ⟨⟨⟨by decide, by decide, by decide, fun _ _ isPack => by cases isPack⟩, ?_⟩,
    ⟨by decide, by decide, by decide, ?_⟩, ?_⟩
  · intro follows
    have carried := (follows.paired (0, 0) (0, 0)).1
      ⟨{ items := [⟨true, 0, 0⟩, ⟨false, 0, 0⟩] }, by decide, by decide, by decide⟩
    exact absurd carried.2.2 (by decide)
  · intro count rank isPack
    cases isPack
    decide
  · intro follows
    have named := follows.named { items := packItems 2 true (2 ^ 64 - 1) 1 } (by decide) ⟨true, 0, 1⟩ (by decide)
    obtain ⟨rank, isRank, bound⟩ := named
    cases isRank
    exact absurd bound (by decide)

/-- `GatherV2Infer` and `PackInfer`. -/
def infer (site : AxisSite) (props : OpProps) (heap : Heap) : DoInfer :=
  match site.op with
  | .gatherV2 rank0 rank1 => gatherV2Infer props rank0 rank1 site.axis heap
  | .pack _ _ | .unpack _ _ => packInfer props site.axis heap

/-- The properties are those of the op's operands and results. -/
structure Typed (site : AxisSite) (props : OpProps) (heap : Heap) : Prop where
  inputs : props.inputs.length = site.inputRanks.length
  outputs : props.outputs.length = site.outputRanks.length
  first : ∃ input output outputRef, readFirst props heap = .ok (input, output, outputRef) ∧
    input.rank = firstRank site.inputRanks ∧ output.rank = firstRank site.outputRanks

theorem infer_eq {site : AxisSite} {props : OpProps} {heap : Heap} (typed : site.Typed props heap) :
    site.infer props heap = inferWithDimGroups props (.ok site.dimGroups) heap := by
  obtain ⟨input, output, outputRef, reads, inputRank, outputRank⟩ := typed.first
  have runs : packInfer props site.axis heap = inferWithDimGroups props (.ok (packDimGroups
      site.inputRanks.length site.outputRanks.length (firstRank site.inputRanks)
      (firstRank site.outputRanks) site.axis)) heap := by
    unfold packInfer
    rw [reads, typed.inputs, typed.outputs, ← inputRank, ← outputRank]
  unfold infer dimGroups
  split
  · rfl
  · exact runs
  · exact runs

end AxisSite

end Itex.XpuAutoShard.Hsp
