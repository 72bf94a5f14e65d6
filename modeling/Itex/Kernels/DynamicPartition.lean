import Itex.Kernels.UniqueOp

/-!
Contract: the `DynamicPartition` op (`kernels/gpu/dynamic_partition_op.cc`).

Owns: the op on slices of data, with the radix sort as a parameter, and exactly when each output
holds the slices of its id in order.

Does not own: the sort, and the copies within a slice.
-/

namespace Itex.Kernels.DynamicPartition

open Itex.Lib Itex.Utils Itex.Kernels.Unique

/-- The `int32` index from which a work item of the extraction steps on by the global range does not
wrap round to a negative one. Sizes that do not fit the `int32` that holds them are larger. -/
def StepsFit (workgroupSize inputSize : Nat) : Prop :=
  inputSize - 1 + (inputSize + workgroupSize - 1) / workgroupSize * workgroupSize < 2 ^ 31

instance (workgroupSize inputSize : Nat) : Decidable (StepsFit workgroupSize inputSize) :=
  inferInstanceAs (Decidable (_ < _))

/-- `CountPartitionKernel`, one unique id. -/
def countAt (keys uniqueIds segmentEnds : List (BitVec 32)) (numPartitions : Nat) (out : List (BitVec 32)) (id : Nat) :
    Except Stop (List (BitVec 32)) := do
  let uniqueId ← load uniqueIds id
  let key ← load keys uniqueId.toNat
  let segmentEnd ← load segmentEnds id
  let segmentBegin ← if 0 < id then load segmentEnds (id - 1) else pure 0
  -- `FastBoundsCheck`, for which a negative key is a large one.
  if key.toNat < numPartitions then store out key.toNat (segmentEnd - segmentBegin) else pure out

/-- The counts, and the indices in the order of their ids. -/
def countAndSortParts (radixSort : DeviceRadixSort) (uninit : Uninit) (workgroupSize numPartitions : Nat)
    (partitions : List (BitVec 32)) : Except Stop (List (BitVec 32) × List (BitVec 32)) := do
  let n := partitions.length
  let sorted := radixSort (indexed partitions)
  let indicesOut := sorted.map Prod.snd
  let sortedUniqueIds ← uniqueIds .int32 (sorted.map Prod.fst) (allocate uninit .sortedInputUniqueIds n)
  let last ← load sortedUniqueIds (n - 1)
  let uniqSize := (last + 1).toNat
  if ¬ StepsFit workgroupSize n then throw .outOfBounds
  let extracted ← (List.range n).foldlM (extractAt n uniqSize indicesOut sortedUniqueIds)
    (allocate uninit .uniqueInputInds uniqSize, allocate uninit .segmentEnds uniqSize)
  let counts ← (List.range (min uniqSize numPartitions)).foldlM
    (countAt partitions extracted.1 extracted.2 numPartitions) (List.replicate numPartitions 0)
  return (counts, indicesOut)

def slice {α : Type} (data : List α) (index : BitVec 32) : Except Stop α :=
  match data[index.toNat]? with
  | some found => .ok found
  | none => .error .outOfBounds

/-- `GatherSlices`, from the index that `ind_base` points to. -/
def gatherSlices {α : Type} (data : List α) : List (BitVec 32) → List (BitVec 32) → Except Stop (List (List α))
  | _, [] => .ok []
  | indBase, indicesSize :: later =>
    if indBase.length < indicesSize.toNat then .error .outOfBounds
    else do
      let out ← (indBase.take indicesSize.toNat).mapM (slice data)
      let outs ← gatherSlices data (indBase.drop indicesSize.toNat) later
      return out :: outs

/-- `DynamicPartitionOp::Compute`, for data with a slice for each id. -/
def compute {α : Type} (radixSort : DeviceRadixSort) (uninit : Uninit) (workgroupSize numPartitions : Nat)
    (partitions : List (BitVec 32)) (data : List α) : Except Stop (List (List α)) := do
  if partitions = [] then return List.replicate numPartitions []
  let (counts, indicesOut) ← countAndSortParts radixSort uninit workgroupSize numPartitions partitions
  gatherSlices data indicesOut counts

/-- The slices with an id, in order. -/
def slicesOf {α : Type} (partitions : List (BitVec 32)) (data : List α) (p : Nat) : List α :=
  ((partitions.zip data).filter fun entry => entry.1 = BitVec.ofNat 32 p).map Prod.snd

section Gather

variable {α : Type} {data : List α}

theorem slice_eq_ok {index : BitVec 32} {found : α} : slice data index = .ok found ↔ data[index.toNat]? = some found := by
  unfold slice
  split
  next atIndex => simp [atIndex]
  next atIndex => simp [atIndex]

theorem gatherSlices_cons {indBase later : List (BitVec 32)} {size : BitVec 32} {outs : List (List α)} :
    gatherSlices data indBase (size :: later) = .ok outs ↔ size.toNat ≤ indBase.length ∧
      ∃ out rest, List.Forall₂ (fun index found => data[index.toNat]? = some found) (indBase.take size.toNat) out ∧
        gatherSlices data (indBase.drop size.toNat) later = .ok rest ∧ out :: rest = outs := by
  rw [gatherSlices]
  split
  next few =>
    constructor
    · intro failed
      cases failed
    · intro ⟨enough, _⟩
      exact absurd enough (Nat.not_le.2 few)
  next enough =>
    simp only [bind_ok, mapM_eq_ok, slice_eq_ok, Nat.le_of_not_lt enough, true_and]
    constructor
    · rintro ⟨out, isOut, rest, isRest, isOuts⟩
      exact ⟨out, rest, isOut, isRest, Except.ok.inj isOuts⟩
    · rintro ⟨out, rest, isOut, isRest, isOuts⟩
      exact ⟨out, isOut, rest, isRest, congrArg Except.ok isOuts⟩

theorem gatherSlices_zeros (indBase : List (BitVec 32)) (count : Nat) :
    gatherSlices data indBase (List.replicate count 0) = .ok (List.replicate count []) := by
  induction count generalizing indBase with
  | zero => rfl
  | succ count ih => exact gatherSlices_cons.2 ⟨Nat.zero_le _, [], _, .nil, ih _, rfl⟩

/-- Of the slices 0, 1 and so on, what is gathered are the indices themselves. -/
theorem gatherSlices_range {n : Nat} {indBase counts : List (BitVec 32)} {outs : List (List Nat)}
    (gathered : gatherSlices (List.range n) indBase counts = .ok outs) : outs.flatten <+: indBase.map BitVec.toNat := by
  induction counts generalizing indBase outs with
  | nil =>
    cases gathered
    exact List.nil_prefix
  | cons count counts ih =>
    obtain ⟨-, out, rest, isOut, isRest, rfl⟩ := gatherSlices_cons.1 gathered
    have isTaken : (indBase.take count.toNat).map BitVec.toNat = out := by
      rw [← List.forall₂_eq_eq_eq, List.forall₂_map_left_iff]
      refine isOut.imp fun index found atIndex => ?_
      exact (List.getElem?_eq_some_iff.1 atIndex).2 ▸ (List.getElem_range _).symm
    have split : indBase.map BitVec.toNat =
        (indBase.take count.toNat).map BitVec.toNat ++ (indBase.drop count.toNat).map BitVec.toNat := by
      rw [← List.map_append, List.take_append_drop]
    rw [List.flatten_cons, ← isTaken, split, List.prefix_append_right_inj]
    exact ih isRest

/-- In a list in the order of the keys, the items of the least key come first. -/
theorem least_append {key : Nat → Nat} {p : Nat} {l : List Nat} (ordered : l.Pairwise fun i j => key i ≤ key j)
    (least : ∀ i ∈ l, p ≤ key i) : l = l.filter (key · = p) ++ l.filter (p < key ·) := by
  induction l with
  | nil => rfl
  | cons i l ih =>
    obtain ⟨before, ordered⟩ := List.pairwise_cons.1 ordered
    have isLeast := least i List.mem_cons_self
    by_cases isKey : key i = p
    · have rest := ih ordered fun j mem => least j (List.mem_cons_of_mem i mem)
      simpa [isKey] using rest
    · have above : ∀ j ∈ i :: l, p < key j := by
        intro j mem
        rcases List.mem_cons.1 mem with rfl | mem
        · omega
        · have := before j mem
          omega
      have noneLeast : (i :: l).filter (key · = p) = [] :=
        List.filter_eq_nil_iff.2 fun j mem same => absurd (of_decide_eq_true same) (Nat.ne_of_gt (above j mem))
      rw [noneLeast, List.filter_eq_self.2 fun j mem => decide_eq_true (above j mem), List.nil_append]

/-- Gathering in the order of the keys by how often each key occurs. -/
theorem gatherSlices_ordered {key : Nat → Nat} {l : List Nat} (few : l.length < 2 ^ 32) (form : Nat → α)
    (isForm : ∀ i ∈ l, i < 2 ^ 32 ∧ data[i]? = some (form i)) (count p : Nat)
    (ordered : l.Pairwise fun i j => key i ≤ key j) (least : ∀ i ∈ l, p ≤ key i) :
    gatherSlices data (l.map (BitVec.ofNat 32))
        ((List.range' p count).map fun q => BitVec.ofNat 32 (l.countP (key · = q))) =
      .ok ((List.range' p count).map fun q => (l.filter (key · = q)).map form) := by
  induction count generalizing p l with
  | zero => rfl
  | succ count ih =>
    have split := least_append ordered least
    have size : (BitVec.ofNat 32 (l.countP (key · = p))).toNat = (l.filter (key · = p)).length := by
      rw [toNat_ofNat (Nat.lt_of_le_of_lt List.countP_le_length few), List.countP_eq_length_filter]
    -- the later keys are those of the rest
    have later : ∀ q ∈ List.range' (p + 1) count, l.filter (key · = q) = (l.filter (p < key ·)).filter (key · = q) := by
      intro q mem
      have above := (List.mem_range'_1.1 mem).1
      rw [List.filter_filter]
      apply List.filter_congr
      intro i _
      grind
    have rest := @ih (l.filter (p < key ·)) (Nat.lt_of_le_of_lt (List.length_filter_le ..) few)
      (fun i mem => isForm i (List.mem_of_mem_filter mem)) (p + 1) (ordered.filter _)
      fun i mem => of_decide_eq_true (List.mem_filter.1 mem).2
    have counts : (List.range' (p + 1) count).map (fun q => BitVec.ofNat 32 (l.countP (key · = q))) =
        (List.range' (p + 1) count).map fun q => BitVec.ofNat 32 ((l.filter (p < key ·)).countP (key · = q)) := by
      apply List.map_congr_left
      intro q mem
      rw [List.countP_eq_length_filter, later q mem, List.countP_eq_length_filter]
    have outs : (List.range' (p + 1) count).map (fun q => (l.filter (key · = q)).map form) =
        (List.range' (p + 1) count).map fun q => ((l.filter (p < key ·)).filter (key · = q)).map form :=
      List.map_congr_left fun q mem => by rw [later q mem]
    rw [List.range'_succ, List.map_cons, List.map_cons]
    refine gatherSlices_cons.2 ⟨?_, _, _, ?_, ?_, rfl⟩
    · rw [size, List.length_map]
      exact List.length_filter_le ..
    · rw [size, ← List.map_take]
      nth_rewrite 2 [split]
      rw [List.take_left, List.forall₂_map_left_iff, List.forall₂_map_right_iff, List.forall₂_same]
      intro i mem
      obtain ⟨small, atI⟩ := isForm i (List.mem_of_mem_filter mem)
      rw [toNat_ofNat small, atI]
    · rw [size, ← List.map_drop, counts, outs]
      nth_rewrite 2 [split]
      rw [List.drop_left, rest]

end Gather

/-! ## Counting -/

/-- How often an id occurs. -/
def countOf (partitions : List (BitVec 32)) (key : BitVec 32) : BitVec 32 :=
  BitVec.ofNat 32 ((List.range partitions.length).countP (keyAt partitions · = key))

/-- The order that the sort puts the indices in, and where in it a new id begins. -/
structure Ordered (partitions : List (BitVec 32)) (order : List Nat) (head : Nat → Bool) (n : Nat) : Prop where
  isOrder : StableSorted (radixAt .int32 partitions) (List.range n) order
  isHead : headOf .int32 partitions order = head
  length : partitions.length = n
  small : n < 2 ^ 31
  pos : 0 < n

section Count

variable {partitions : List (BitVec 32)} {order : List Nat} {head : Nat → Bool} {n u : Nat}

theorem radixAt_int32 (k : Nat) : (radixAt .int32 partitions k : Int) = (keyAt partitions k).toInt + 2 ^ 31 :=
  KeyKind.toNat_convert_signed (by decide) (keyAt partitions k)

variable (ordered : Ordered partitions order head n)

include ordered

theorem Ordered.first : head 0 = true := ordered.isHead ▸ headOf_zero

section Run

variable (inside : u < (heads head n).length)

include inside

theorem Ordered.runOf_eq_iff {p : Nat} (bound : p < n) :
    runOf head p = u ↔ keyAt partitions (order.getD p 0) = keyAt partitions (repOf head n order u) := by
  have number : runOf head ((heads head n).getD u 0) = u := by
    rw [List.getD_eq_getElem?_getD, List.getElem?_eq_getElem inside]
    exact runOf_of_getElem? (List.getElem?_eq_getElem inside)
  obtain ⟨isOrder, rfl, rfl, -, -⟩ := ordered
  have isRun := runOf_headOf_eq_iff (fun _ _ => rfl) isOrder bound (getD_heads_lt inside)
  rw [number] at isRun
  exact isRun.trans ⟨fun same => convert_injective .int32 same, fun same => congrArg (rank .int32) same⟩

theorem Ordered.sizeAt_eq : sizeAt ((runEnds head n).map (BitVec.ofNat 32)) u =
    countOf partitions (keyAt partitions (repOf head n order u)) := by
  have small := ordered.small
  rw [sizeAt_runEnds ordered.first (by omega) inside, countOf, ordered.length,
    ordered.isOrder.countP_order fun k => keyAt partitions k = _]
  congr 1
  apply List.countP_congr
  intro p mem
  rw [decide_eq_true_eq, decide_eq_true_eq]
  exact ordered.runOf_eq_iff inside (List.mem_range.1 mem)

theorem Ordered.countAt_eq (numPartitions : Nat) (out : List (BitVec 32)) : countAt partitions (repsOf head n order)
    ((runEnds head n).map (BitVec.ofNat 32)) numPartitions out u =
      if (keyAt partitions (repOf head n order u)).toNat < numPartitions then
        store out (keyAt partitions (repOf head n order u)).toNat
          (countOf partitions (keyAt partitions (repOf head n order u)))
      else .ok out := by
  have small := ordered.small
  have length := ordered.length
  have lengthReps : (repsOf head n order).length = (heads head n).length := List.length_map _
  have lengthEnds := length_runEnds ordered.first ordered.pos
  have inRange := repOf_lt ordered.isOrder inside
  have loadId : load (repsOf head n order) u = .ok (BitVec.ofNat 32 (repOf head n order u)) := by
    rw [load_eq_ok, getElem?_keyAt (by omega), keyAt_repsOf ordered.isOrder inside]
  have loadKey := load_eq_ok.2 (@getElem?_keyAt partitions (repOf head n order u) (by omega))
  have loadEnd : ∀ v ≤ u, load ((runEnds head n).map (BitVec.ofNat 32)) v =
      .ok (((runEnds head n).map (BitVec.ofNat 32)).getD v 0) :=
    fun v le => load_eq_ok.2 (getElem?_getD (by rw [List.length_map]; omega))
  have isSize := ordered.sizeAt_eq inside
  unfold sizeAt at isSize
  unfold countAt
  simp only [loadId, toNat_ofNat (show repOf head n order u < 2 ^ 32 by omega), loadKey, loadEnd u (Nat.le_refl u),
    bind, Except.bind, pure, Except.pure]
  by_cases isFirst : u = 0
  · rw [if_pos isFirst] at isSize
    rw [if_neg (by omega), isSize]
  · rw [if_neg isFirst] at isSize
    rw [if_pos (Nat.pos_of_ne_zero isFirst), loadEnd (u - 1) (Nat.sub_le u 1)]
    dsimp only
    rw [isSize]

end Run

/-- The counts after the first runs. -/
def countsOf (partitions : List (BitVec 32)) (order : List Nat) (head : Nat → Bool) (n numPartitions runs : Nat) :
    List (BitVec 32) :=
  (List.range numPartitions).map fun p =>
    if ∃ u < runs, keyAt partitions (repOf head n order u) = BitVec.ofNat 32 p then countOf partitions (BitVec.ofNat 32 p)
    else 0

omit ordered in
theorem getElem?_countsOf_succ (numPartitions : Nat) (few : numPartitions < 2 ^ 31) (q : Nat) :
    (countsOf partitions order head n numPartitions (u + 1))[q]? =
      if q < numPartitions ∧ q = (keyAt partitions (repOf head n order u)).toNat then
        some (countOf partitions (keyAt partitions (repOf head n order u)))
      else (countsOf partitions order head n numPartitions u)[q]? := by
  unfold countsOf
  rw [List.getElem?_map, List.getElem?_map]
  by_cases bound : q < numPartitions
  · have isKey : q = (keyAt partitions (repOf head n order u)).toNat ↔
        keyAt partitions (repOf head n order u) = BitVec.ofNat 32 q := by
      rw [← BitVec.toNat_inj, toNat_ofNat (by omega), eq_comm]
    have step : (∃ v < u + 1, keyAt partitions (repOf head n order v) = BitVec.ofNat 32 q) ↔
        (∃ v < u, keyAt partitions (repOf head n order v) = BitVec.ofNat 32 q) ∨
          keyAt partitions (repOf head n order u) = BitVec.ofNat 32 q := by
      simp only [Nat.lt_succ_iff_lt_or_eq, or_and_right, exists_or, exists_eq_left]
    rw [List.getElem?_range bound, Option.map_some, Option.map_some]
    simp only [step, isKey, bound, true_and]
    by_cases same : keyAt partitions (repOf head n order u) = BitVec.ofNat 32 q
    · simp [same]
    · simp [same]
  · rw [if_neg fun both => bound both.1, List.getElem?_eq_none (by simpa using bound)]
    rfl

theorem Ordered.counts_eq (numPartitions : Nat) (few : numPartitions < 2 ^ 31) :
    (List.range (min (heads head n).length numPartitions)).foldlM (countAt partitions (repsOf head n order)
        ((runEnds head n).map (BitVec.ofNat 32)) numPartitions) (List.replicate numPartitions 0) =
      .ok (countsOf partitions order head n numPartitions (min (heads head n).length numPartitions)) := by
  have fold := @exists_foldlM_range_eq_ok _ _ (countAt partitions (repsOf head n order)
    ((runEnds head n).map (BitVec.ofNat 32)) numPartitions)
    (fun runs out => out = countsOf partitions order head n numPartitions runs)
    (min (heads head n).length numPartitions) (List.replicate numPartitions 0) (by simp [countsOf]) ?_
  · obtain ⟨final, isFinal, rfl⟩ := fold
    exact isFinal
  rintro u bound _ rfl
  have length : (countsOf partitions order head n numPartitions u).length = numPartitions := by simp [countsOf]
  rw [ordered.countAt_eq (by omega)]
  split
  next inRange =>
    refine ⟨_, store_ok (by rwa [length]) _, List.ext_getElem? fun q => ?_⟩
    rw [getElem?_countsOf_succ numPartitions few, List.getElem?_set, length]
    grind
  next outside =>
    refine ⟨_, rfl, List.ext_getElem? fun q => ?_⟩
    rw [getElem?_countsOf_succ numPartitions few, if_neg]
    rintro ⟨bound, rfl⟩
    exact outside bound

theorem Ordered.natural (naturals : ∀ id ∈ partitions, 0 ≤ id.toInt) :
    StableSorted (fun k => (keyAt partitions k).toNat) (List.range n) order := by
  have biased : ∀ k ∈ List.range n, radixAt .int32 partitions k = (keyAt partitions k).toNat + 2 ^ 31 := by
    intro k mem
    have inside := List.mem_range.1 mem
    have isRadix := @radixAt_int32 partitions k
    have natural := naturals _ (List.mem_of_getElem? (getElem?_keyAt (ordered.length ▸ inside)))
    have isInt := BitVec.toInt_eq_toNat_cond (keyAt partitions k)
    split at isInt <;> omega
  exact ordered.isOrder.of_add biased

/-- Runs of ids that are not negative have no larger number than their id. -/
theorem Ordered.runOf_le (naturals : ∀ id ∈ partitions, 0 ≤ id.toInt) {p : Nat} (bound : p < n) :
    runOf head p ≤ (keyAt partitions (order.getD p 0)).toNat := by
  induction p with
  | zero =>
    rw [runOf_zero ordered.first]
    exact Nat.zero_le _
  | succ p ih =>
    have before := ih (Nat.lt_of_succ_lt bound)
    have isHead : head (p + 1) = !(keyAt partitions (order.getD (p + 1) 0) == keyAt partitions (order.getD p 0)) :=
      ordered.isHead ▸ rfl
    rw [runOf_succ ordered.first, isHead]
    rcases (ordered.natural naturals).order_lex (Nat.lt_succ_self p) bound with less | ⟨same, -⟩
    · have below := Nat.lt_of_le_of_lt before less
      split
      · exact below
      · exact Nat.le_of_lt below
    · rw [← BitVec.eq_of_toNat_eq same]
      simpa using before

theorem Ordered.countsOf_natural (naturals : ∀ id ∈ partitions, 0 ≤ id.toInt) (numPartitions : Nat)
    (few : numPartitions < 2 ^ 31) :
    countsOf partitions order head n numPartitions (min (heads head n).length numPartitions) =
      (List.range numPartitions).map fun p => countOf partitions (BitVec.ofNat 32 p) := by
  apply List.map_congr_left
  intro p mem
  have small := List.mem_range.1 mem
  split
  next => rfl
  next absent =>
    symm
    rw [countOf, List.countP_eq_zero.2]
    · rfl
    intro k inRange isKey
    rw [ordered.length] at inRange
    obtain ⟨q, bound, rfl⟩ := ordered.isOrder.exists_order_eq (List.mem_range.1 inRange)
    have isId := of_decide_eq_true isKey
    have below := ordered.runOf_le naturals bound
    have inside := runOf_lt ordered.first bound
    rw [isId, toNat_ofNat (by omega)] at below
    exact absent ⟨runOf head q, by omega, ((ordered.runOf_eq_iff inside bound).1 rfl).symm.trans isId⟩

theorem Ordered.countsOf_outside {numPartitions : Nat} (outside : ∀ id ∈ partitions, ¬ id.toNat < numPartitions) :
    countsOf partitions order head n numPartitions (min (heads head n).length numPartitions) =
      List.replicate numPartitions 0 := by
  rw [List.eq_replicate_iff]
  refine ⟨by simp [countsOf], fun count mem => ?_⟩
  obtain ⟨p, inRange, rfl⟩ := List.mem_map.1 mem
  have small := List.mem_range.1 inRange
  rw [if_neg]
  rintro ⟨u, inside, isKey⟩
  have inOrder := repOf_lt ordered.isOrder (show u < (heads head n).length by omega)
  rw [← ordered.length] at inOrder
  have absent := outside _ (List.mem_of_getElem? (getElem?_keyAt inOrder))
  rw [ordered.length, isKey, toNat_ofNat (by omega)] at absent
  exact absent small

end Count

section Op

variable {radixSort : DeviceRadixSort} {uninit : Uninit} {workgroupSize numPartitions : Nat}
  {partitions : List (BitVec 32)} {α : Type} {data : List α}

theorem slicesOf_eq {form : Nat → α} (isForm : ∀ k < partitions.length, data[k]? = some (form k)) (p : Nat) :
    slicesOf partitions data p =
      ((List.range partitions.length).filter fun k => keyAt partitions k = BitVec.ofNat 32 p).map form := by
  have zipped : partitions.zip data = (List.range partitions.length).map fun k => (keyAt partitions k, form k) := by
    apply List.ext_getElem?
    intro k
    by_cases bound : k < partitions.length
    · rw [List.getElem?_map, List.getElem?_range bound]
      exact List.getElem?_zip_eq_some.2 ⟨getElem?_keyAt bound, isForm k bound⟩
    · rw [List.getElem?_eq_none (by simp; omega), List.getElem?_eq_none (by simp; omega)]
  unfold slicesOf
  rw [zipped, List.filter_map, List.map_map]
  rfl

theorem lt_of_stepsFit (groups : 0 < workgroupSize) {n : Nat} (fits : StepsFit workgroupSize n) : n < 2 ^ 31 := by
  have covered := @Nat.lt_div_mul_add (n + workgroupSize - 1) workgroupSize groups
  unfold StepsFit at fits
  omega

theorem stepsFit_of_ok {result : List (BitVec 32) × List (BitVec 32)}
    (ran : countAndSortParts radixSort uninit workgroupSize numPartitions partitions = .ok result) :
    StepsFit workgroupSize partitions.length := by
  obtain ⟨ids, -, ran⟩ := bind_ok.1 ran
  obtain ⟨last, -, ran⟩ := bind_ok.1 ran
  by_contra wraps
  rw [if_pos wraps] at ran
  cases ran

theorem countAndSortParts_eq (stable : IsStableSort radixSort) (nonempty : partitions ≠ []) (groups : 0 < workgroupSize)
    (few : numPartitions < 2 ^ 31) (fits : StepsFit workgroupSize partitions.length) : ∃ order head,
      Ordered partitions order head partitions.length ∧
      countAndSortParts radixSort uninit workgroupSize numPartitions partitions =
        .ok (countsOf partitions order head partitions.length numPartitions
          (min (heads head partitions.length).length numPartitions), order.map (BitVec.ofNat 32)) := by
  obtain ⟨order, isOrder, isMapped⟩ := exists_order (stable (indexed partitions))
  have lengthOrder := isOrder.length_order
  have pos := List.length_pos_of_ne_nil nonempty
  have small := lt_of_stepsFit groups fits
  have ordered : Ordered partitions order (headOf .int32 partitions order) partitions.length :=
    ⟨isOrder, rfl, rfl, small, pos⟩
  have inds : (order.map (entryAt partitions)).map Prod.snd = order.map (BitVec.ofNat 32) := by
    rw [List.map_map]
    rfl
  have ids := @uniqueIds_eq .int32 partitions order (allocate uninit .sortedInputUniqueIds partitions.length)
    (by omega) (by rw [length_allocate, lengthOrder])
  rw [lengthOrder] at ids
  have extracted := @extract_eq (headOf .int32 partitions order) partitions.length (order.map (BitVec.ofNat 32))
    ordered.first (by omega) (by rw [List.length_map, lengthOrder]) pos
    (allocate uninit .uniqueInputInds (heads (headOf .int32 partitions order) partitions.length).length,
      allocate uninit .segmentEnds (heads (headOf .int32 partitions order) partitions.length).length)
    (length_allocate ..) (length_allocate ..)
  refine ⟨order, _, ordered, ?_⟩
  unfold countAndSortParts
  simp only [isMapped, ids, inds, bind, Except.bind, pure, Except.pure, not_true_eq_false, if_false, fits,
    load_idsOf (show partitions.length - 1 < partitions.length by omega), last_add_one ordered.first pos
    (show partitions.length < 2 ^ 32 by omega), extracted]
  rw [show (heads (headOf .int32 partitions order) partitions.length).map
    (fun p => (order.map (BitVec.ofNat 32)).getD p 0) = repsOf _ partitions.length order from rfl,
    ordered.counts_eq numPartitions few]

/-- No id is negative, or none is that of an output. -/
def Gathers (partitions : List (BitVec 32)) (numPartitions : Nat) : Prop :=
  (∀ id ∈ partitions, 0 ≤ id.toInt) ∨ ∀ id ∈ partitions, ¬ id.toNat < numPartitions

theorem keyAt_eq_ofNat {p : Nat} (small : p < 2 ^ 32) (k : Nat) :
    keyAt partitions k = BitVec.ofNat 32 p ↔ (keyAt partitions k).toNat = p := by
  rw [← BitVec.toNat_inj, toNat_ofNat small]

theorem compute_of_gathers (stable : IsStableSort radixSort) (nonempty : partitions ≠ []) (groups : 0 < workgroupSize)
    (few : numPartitions < 2 ^ 31) (fits : StepsFit workgroupSize partitions.length)
    (gathers : Gathers partitions numPartitions) (length : data.length = partitions.length) :
    compute radixSort uninit workgroupSize numPartitions partitions data =
      .ok ((List.range numPartitions).map (slicesOf partitions data)) := by
  obtain ⟨order, head, ordered, counted⟩ := @countAndSortParts_eq _ uninit _ _ _ stable nonempty groups few fits
  have small := ordered.small
  have pos := ordered.pos
  obtain ⟨form, isForm⟩ : ∃ form : Nat → α, ∀ k < partitions.length, data[k]? = some (form k) :=
    ⟨fun k => data.getD k data[0], fun k bound => by simp [List.getElem?_eq_getElem (length ▸ bound)]⟩
  unfold compute
  rw [if_neg nonempty, counted]
  change gatherSlices data _ _ = _
  rcases gathers with naturals | outside
  · have natural := ordered.natural naturals
    have gathered := gatherSlices_ordered (by rw [natural.length_order]; omega) form
      (fun i mem => by
        have bound := List.mem_range.1 (natural.perm.mem_iff.1 mem)
        exact ⟨by omega, isForm i bound⟩)
      numPartitions 0 natural.ordered fun _ _ => Nat.zero_le _
    have counts : (List.range numPartitions).map (fun p => countOf partitions (BitVec.ofNat 32 p)) =
        (List.range numPartitions).map fun p => BitVec.ofNat 32 (order.countP fun k => (keyAt partitions k).toNat = p) := by
      apply List.map_congr_left
      intro p mem
      have inRange := List.mem_range.1 mem
      simp only [countOf, natural.perm.countP_eq, keyAt_eq_ofNat (show p < 2 ^ 32 by omega)]
    have outs : (List.range numPartitions).map (slicesOf partitions data) =
        (List.range numPartitions).map fun p => (order.filter fun k => (keyAt partitions k).toNat = p).map form := by
      apply List.map_congr_left
      intro p mem
      have inRange := List.mem_range.1 mem
      rw [slicesOf_eq isForm, natural.stable p]
      simp only [keyAt_eq_ofNat (show p < 2 ^ 32 by omega)]
    rw [ordered.countsOf_natural naturals numPartitions few, counts, outs, List.range_eq_range', gathered]
  · have outs : ∀ p ∈ List.range numPartitions, slicesOf partitions data p = [] := by
      intro p mem
      have inRange := List.mem_range.1 mem
      rw [slicesOf_eq isForm, List.map_eq_nil_iff, List.filter_eq_nil_iff]
      intro k inside isKey
      apply outside _ (List.mem_of_getElem? (getElem?_keyAt (List.mem_range.1 inside)))
      rwa [(keyAt_eq_ofNat (by omega) k).1 (of_decide_eq_true isKey)]
    rw [ordered.countsOf_outside outside, gatherSlices_zeros, List.map_congr_left outs, List.map_const',
      List.length_range]

/-- Where the slices 0, 1 and so on are partitioned, the first one gathered is that of the least id. -/
theorem gathers_of_compute (stable : IsStableSort radixSort) (nonempty : partitions ≠ []) (groups : 0 < workgroupSize)
    (few : numPartitions < 2 ^ 31)
    (partitioned : compute radixSort uninit workgroupSize numPartitions partitions (List.range partitions.length) =
      .ok ((List.range numPartitions).map (slicesOf partitions (List.range partitions.length)))) :
    StepsFit workgroupSize partitions.length ∧ Gathers partitions numPartitions := by
  unfold compute at partitioned
  rw [if_neg nonempty] at partitioned
  obtain ⟨result, ran, gathered⟩ := bind_ok.1 partitioned
  have fits := stepsFit_of_ok ran
  refine ⟨fits, ?_⟩
  obtain ⟨order, head, ordered, counted⟩ := @countAndSortParts_eq _ uninit _ _ _ stable nonempty groups few fits
  have small := ordered.small
  have isOrder := ordered.isOrder
  cases ran.symm.trans counted
  have isPrefix := gatherSlices_range gathered
  have isOrdered : (order.map (BitVec.ofNat 32)).map BitVec.toNat = order := by
    rw [List.map_map, List.map_congr_left, List.map_id]
    intro k mem
    have bound := List.mem_range.1 (isOrder.perm.mem_iff.1 mem)
    exact toNat_ofNat (by omega)
  rw [isOrdered] at isPrefix
  have gathers : ∀ k p, k ∈ slicesOf partitions (List.range partitions.length) p ↔
      k < partitions.length ∧ keyAt partitions k = BitVec.ofNat 32 p := by
    intro k p
    rw [@slicesOf_eq _ _ _ id fun k bound => List.getElem?_range bound]
    simp
  by_contra misses
  unfold Gathers at misses
  push Not at misses
  obtain ⟨⟨negative, hasNegative, isNegative⟩, inside, hasInside, isInside⟩ := misses
  obtain ⟨i, atNegative⟩ := List.mem_iff_getElem?.1 hasNegative
  obtain ⟨j, atInside⟩ := List.mem_iff_getElem?.1 hasInside
  have boundI := read_lt atNegative
  have boundJ := read_lt atInside
  rw [getElem?_keyAt boundI] at atNegative
  rw [getElem?_keyAt boundJ] at atInside
  have listed : j ∈ ((List.range numPartitions).map (slicesOf partitions (List.range partitions.length))).flatten := by
    refine List.mem_flatten.2 ⟨_, List.mem_map.2 ⟨inside.toNat, List.mem_range.2 isInside, rfl⟩, (gathers ..).2 ⟨boundJ, ?_⟩⟩
    rw [Option.some.inj atInside, BitVec.ofNat_toNat, BitVec.setWidth_eq]
  obtain ⟨first, rest, isFlat⟩ := List.exists_cons_of_ne_nil (List.ne_nil_of_mem listed)
  obtain ⟨more, isAppended⟩ := isPrefix
  rw [isFlat] at isAppended
  -- the first one is in an output, so its id is not negative
  obtain ⟨_, isOut, isGathered⟩ := List.mem_flatten.1 (isFlat ▸ List.mem_cons_self : first ∈ _)
  obtain ⟨p, inRange, rfl⟩ := List.mem_map.1 isOut
  have isKey := ((gathers first p).1 isGathered).2
  have below := List.mem_range.1 inRange
  have isInt := BitVec.toInt_eq_toNat_cond (keyAt partitions first)
  rw [isKey, toNat_ofNat (by omega), if_pos (by omega)] at isInt
  have least : radixAt .int32 partitions first ≤ radixAt .int32 partitions i := by
    have inOrder := isOrder.perm.mem_iff.2 (List.mem_range.2 boundI)
    have ordered := isOrder.ordered
    rw [← isAppended] at inOrder ordered
    rcases List.mem_cons.1 inOrder with rfl | later
    · exact Nat.le_refl _
    · exact (List.pairwise_cons.1 ordered).1 i later
  have isFirst := @radixAt_int32 partitions first
  have isLater := @radixAt_int32 partitions i
  rw [Option.some.inj atNegative] at isLater
  rw [isKey] at isFirst
  omega

/-- The outputs are the slices of their ids in order for any data exactly if the steps of the extraction fit an `int32` and
either no id is negative or none is that of an output. -/
theorem compute_partitions_iff (stable : IsStableSort radixSort) (uninit : Uninit) (groups : 0 < workgroupSize)
    (few : numPartitions < 2 ^ 31) (nonempty : partitions ≠ []) :
    (∀ {α : Type} (data : List α), data.length = partitions.length →
      compute radixSort uninit workgroupSize numPartitions partitions data =
        .ok ((List.range numPartitions).map (slicesOf partitions data))) ↔
      StepsFit workgroupSize partitions.length ∧
        ((∀ id ∈ partitions, 0 ≤ id.toInt) ∨ ∀ id ∈ partitions, ¬ id.toNat < numPartitions) := by
  constructor
  · intro partitioned
    exact gathers_of_compute stable nonempty groups few (partitioned _ List.length_range)
  · rintro ⟨fits, gathers⟩ α data length
    exact compute_of_gathers stable nonempty groups few fits gathers length

/-- Slices of ids 1, 0 and 1. -/
theorem compute_partitions_three : compute bucketSort (fun _ _ => 0) 64 2 [1, 0, 1] [5, 6, 7] = .ok [[6], [5, 7]] :=
  (compute_partitions_iff bucketSort_stable (fun _ _ => 0) (by decide) (by decide) (by decide)).2
    ⟨by unfold StepsFit; decide, .inl (by simp)⟩ [5, 6, 7] rfl

/-- A negative id before an id 0. -/
theorem negative_misplaces : compute bucketSort (fun _ _ => 0) 64 2 [-1, 0] (List.range 2) ≠
    .ok ((List.range 2).map (slicesOf [-1, 0] (List.range 2))) := by
  intro partitioned
  have gathers := gathers_of_compute bucketSort_stable (by decide) (by decide) (by decide) partitioned
  revert gathers
  simp [Gathers]

end Op

end Itex.Kernels.DynamicPartition
