import Itex.Lib.Collapse

/-!
Contract: the reduction helper, which collapses the dims of a tensor before it is reduced.

Owns: the bitmap of the axes, the output shape, the runs of reduced and of kept dims, the
order of the dims for a transpose, and when a reduction in the collapsed view is the one over
the given axes.
-/

namespace Itex.Kernels

open Itex.Lib

variable {axis : List Int} {rest : List (Nat × Bool)} {size : Nat} {sizes : List Nat}

def kint64max : Nat := 2 ^ 63 - 1

/-- The element counts after each `AddDim`, which checks them. -/
def CountsFit (sizes : List Nat) : Prop := ∀ k ≤ sizes.length, (sizes.take k).prod ≤ kint64max

instance (sizes : List Nat) : Decidable (CountsFit sizes) :=
  inferInstanceAs (Decidable (∀ k ≤ sizes.length, (sizes.take k).prod ≤ kint64max))

structure TensorShape where
  dims : List Nat
  sizes : ∀ size ∈ dims, size ≤ kint64max
  counts : CountsFit dims

inductive ReductionFailure
  | invalidArgument (message : String)
  /-- A product of `int64` values that is undefined. -/
  | overflow
  deriving DecidableEq

structure ReductionHelper where
  reduceFirstAxis : Bool := false
  dataReshape : List Nat := []
  outShape : List Nat := []
  outReshape : List Nat := []

/-- The indices of a loop in steps of two. -/
def everyOther (start stop : Nat) : List Nat := List.range' start ((stop + 1 - start) / 2) 2

def pick (start : Nat) (sizes : List Nat) : List Nat :=
  (everyOther start sizes.length).map fun i => sizes.getD i 0

/-- The kept dims, and then the reduced ones. -/
def shuffle (reduceFirstAxis : Bool) (sizes : List Nat) : List Nat :=
  pick reduceFirstAxis.toNat sizes ++ pick (!reduceFirstAxis).toNat sizes

namespace ReductionHelper

/-- `none` when a check of `AddDim` fails. -/
def shuffledShape (helper : ReductionHelper) : Option TensorShape :=
  let sizes := shuffle helper.reduceFirstAxis helper.dataReshape
  if legal : (∀ size ∈ sizes, size ≤ kint64max) ∧ CountsFit sizes then some ⟨sizes, legal.1, legal.2⟩ else none

def permutation (helper : ReductionHelper) : List Nat :=
  let dims := helper.dataReshape.length
  let unreducedDims := (dims + (!helper.reduceFirstAxis).toNat) / 2
  (List.range dims).map fun i =>
    if i < unreducedDims then 2 * i + helper.reduceFirstAxis.toNat
    else 2 * (i - unreducedDims) + (!helper.reduceFirstAxis).toNat

/-! ## Collapsing the dims -/

def simplifyHelper (data : TensorShape) : List Int → List Bool → Except ReductionFailure (List Bool)
  | [], bitmap => .ok bitmap
  | index :: axis, bitmap =>
    let dims : Int := data.dims.length
    if index < -dims ∨ dims ≤ index then
      .error (.invalidArgument s!"Invalid reduction dimension ({index} for input with {dims} dimension(s)")
    else simplifyHelper data axis (bitmap.set ((index + dims) % dims).toNat true)

/-- `data_reshape_.back() *= size`. -/
def timesBack (dataReshape : List Nat) (size : Nat) : Except ReductionFailure (List Nat) :=
  let product := dataReshape.getLastD 1 * size
  if product ≤ kint64max then .ok (dataReshape.dropLast ++ [product]) else .error .overflow

/-- The loop over the dims behind the first one; `previous` is the bit of the dim before. -/
def collapse : List (Nat × Bool) → Bool → List Nat → Except ReductionFailure (List Nat)
  | [], _, dataReshape => .ok dataReshape
  | (size, bit) :: rest, previous, dataReshape => do
    let bit := if size = 1 then previous else bit
    if previous ≠ bit then collapse rest bit (dataReshape ++ [size])
    else collapse rest bit (← timesBack dataReshape size)

/-- The second part of `Simplify`, on the dims with their bits. -/
def collapseRuns (helper : ReductionHelper) (dims : List (Nat × Bool)) : Except ReductionFailure ReductionHelper :=
  match dims.dropWhile (·.1 = 1) with
  | [] => .ok { helper with reduceFirstAxis := true }
  | (size, bit) :: rest => do
    let dataReshape ← collapse rest bit (helper.dataReshape ++ [size])
    .ok { helper with
      reduceFirstAxis := bit
      dataReshape
      outReshape := helper.outReshape ++ pick (if bit then 1 else 0) dataReshape }

def simplify (helper : ReductionHelper) (data : TensorShape) (axis : List Int) (keepDims : Bool) :
    Except ReductionFailure ReductionHelper := do
  let bitmap ← simplifyHelper data axis (List.replicate data.dims.length false)
  collapseRuns { helper with outShape := project (if keepDims then some 1 else none) bitmap data.dims }
    (data.dims.zip bitmap)

/-- Whether a dim of the collapsed view is reduced: 0, 2, 4, … when the first one is. -/
def reduces (reduceFirstAxis : Bool) (i : Nat) : Bool := (i % 2 == 0) == reduceFirstAxis

def reduced (helper : ReductionHelper) : List Bool :=
  (List.range helper.dataReshape.length).map (reduces helper.reduceFirstAxis)

/-- The dims that some axis names, from either end. -/
def reducedAxes (rank : Nat) (axis : List Int) : List Bool :=
  (List.range rank).map fun (i : Nat) => axis.any fun index => index = i ∨ index + rank = i

theorem simplifyHelper_eq (data : TensorShape)
    (valid : ∀ index ∈ axis, -data.dims.length ≤ index ∧ index < data.dims.length) (given : Nat → Bool) :
    simplifyHelper data axis ((List.range data.dims.length).map given) = .ok ((List.range data.dims.length).map
      fun i => given i || axis.any fun index => index = i ∨ index + data.dims.length = i) := by
  induction axis generalizing given with
  | nil => simp [simplifyHelper]
  | cons index axis ih =>
    obtain ⟨lower, upper⟩ := valid index List.mem_cons_self
    have marked : ((List.range data.dims.length).map given).set
        ((index + data.dims.length) % data.dims.length).toNat true = (List.range data.dims.length).map
          fun i => given i || decide (index = i ∨ index + data.dims.length = i) := by
      apply List.ext_getElem
      · simp
      · intro i _ bound
        rw [List.length_map, List.length_range] at bound
        have named : ((index + data.dims.length) % data.dims.length).toNat = i ↔
            index = i ∨ index + data.dims.length = i := by
          rcases Int.lt_or_le index 0 with negative | pos
          · rw [Int.emod_eq_of_lt (by omega) (by omega)]
            omega
          · rw [Int.add_emod_right, Int.emod_eq_of_lt pos upper]
            omega
        rw [List.getElem_set, List.getElem_map, List.getElem_map, List.getElem_range]
        by_cases isNamed : index = i ∨ index + data.dims.length = i
        · rw [if_pos (named.2 isNamed), decide_eq_true isNamed, Bool.or_true]
        · rw [if_neg (named.not.2 isNamed), decide_eq_false isNamed, Bool.or_false]
    rw [simplifyHelper, if_neg (by omega), marked, ih fun later mem => valid later (List.mem_cons_of_mem _ mem)]
    simp [Bool.or_assoc]

/-! ## Steps of two -/

theorem everyOther_zero (n : Nat) : everyOther 0 (n + 1) = 0 :: (everyOther 1 n).map (· + 1) := by
  have turns : (n + 1 + 1 - 0) / 2 = n / 2 + 1 := by omega
  rw [everyOther, turns, List.range'_succ, everyOther, List.range'_succ_left]
  rfl

theorem everyOther_one (n : Nat) : everyOther 1 (n + 1) = (everyOther 0 n).map (· + 1) :=
  List.range'_succ_left

theorem pick_cons (first : Bool) (size : Nat) (sizes : List Nat) : pick first.toNat (size :: sizes) =
      if first then pick (!first).toNat sizes else size :: pick (!first).toNat sizes := by
  cases first with
  | true =>
    change (everyOther 1 (sizes.length + 1)).map _ = (everyOther 0 sizes.length).map _
    rw [everyOther_one, List.map_map]
    rfl
  | false =>
    change (everyOther 0 (sizes.length + 1)).map _ = size :: (everyOther 1 sizes.length).map _
    rw [everyOther_zero, List.map_cons, List.map_map]
    rfl

theorem reduces_succ (first : Bool) (i : Nat) : reduces first (i + 1) = reduces (!first) i := by
  unfold reduces
  rcases Nat.mod_two_eq_zero_or_one i with even | odd
  · have next : (i + 1) % 2 = 1 := by omega
    rw [even, next]
    cases first <;> rfl
  · have next : (i + 1) % 2 = 0 := by omega
    rw [odd, next]
    cases first <;> rfl

theorem reduces_not (first : Bool) (i : Nat) : reduces (!first) i = !reduces first i := by
  unfold reduces
  cases (i % 2 == 0) <;> cases first <;> rfl

theorem pick_le {bound : Nat} (within : ∀ size ∈ sizes, size ≤ bound) {start : Nat}
    (mem : size ∈ pick start sizes) : size ≤ bound := by
  obtain ⟨i, -, rfl⟩ := List.mem_map.1 mem
  rw [List.getD_eq_getElem?_getD]
  cases found : sizes[i]? with
  | none => exact Nat.zero_le _
  | some size => exact within size (List.mem_of_getElem? found)

theorem map_reduces_succ (first : Bool) (n : Nat) :
    (List.range (n + 1)).map (reduces first) = first :: (List.range n).map (reduces (!first)) := by
  rw [List.range_succ_eq_map, List.map_cons, List.map_map]
  have flipped : reduces first ∘ Nat.succ = reduces (!first) := funext (reduces_succ first)
  rw [flipped]
  cases first <;> rfl

theorem pick_eq_project (first : Bool) (sizes : List Nat) :
    pick first.toNat sizes = project none ((List.range sizes.length).map (reduces first)) sizes := by
  induction sizes generalizing first with
  | nil => cases first <;> rfl
  | cons size sizes ih =>
    rw [pick_cons, List.length_cons, map_reduces_succ, ih]
    cases first <;> rfl

theorem everyOther_eq_filter (first : Bool) (n : Nat) :
    everyOther first.toNat n = (List.range n).filter fun i => !reduces first i := by
  induction n generalizing first with
  | zero => cases first <;> rfl
  | succ n ih =>
    have flipped : ((fun i => !reduces first i) ∘ Nat.succ) = fun i => !reduces (!first) i := by
      funext i
      exact congrArg not (reduces_succ first i)
    rw [List.range_succ_eq_map, List.filter_cons, List.filter_map, flipped, ← ih]
    cases first with
    | true => exact everyOther_one n
    | false => exact everyOther_zero n

theorem permutation_eq (helper : ReductionHelper) : helper.permutation =
    everyOther helper.reduceFirstAxis.toNat helper.dataReshape.length ++
      everyOther (!helper.reduceFirstAxis).toNat helper.dataReshape.length := by
  unfold permutation everyOther
  cases helper.reduceFirstAxis with
  | false =>
    apply List.ext_getElem
    · simp
      omega
    · intro i _ _
      simp [List.getElem_append]
      split <;> omega
  | true =>
    apply List.ext_getElem
    · simp
      omega
    · intro i _ _
      simp [List.getElem_append]
      split <;> omega

/-! ## The runs -/

def sameBit (dim dim' : Nat × Bool) : Bool := dim.2 == dim'.2

/-- The maximal runs of dims that are all reduced or all kept, without those of extent one. -/
def runs (dims : List (Nat × Bool)) : List (List (Nat × Bool)) := (dims.filter (·.1 ≠ 1)).splitBy sameBit

def runProduct (run : List (Nat × Bool)) : Nat := (sizesOf run).prod

theorem countsFit_snoc (fit : CountsFit sizes) (bound : sizes.prod * size ≤ kint64max) :
    CountsFit (sizes ++ [size]) := by
  intro k le
  by_cases inside : k ≤ sizes.length
  · rw [List.take_append_of_le_length inside]
    exact fit k inside
  · rw [List.length_append, List.length_singleton] at le
    rw [List.take_of_length_le (by rw [List.length_append, List.length_singleton]; omega), List.prod_append,
      List.prod_singleton]
    exact bound

theorem countsFit_single (bound : size ≤ kint64max) : CountsFit [size] := by
  have none : CountsFit [] := by
    intro k _
    rw [List.take_nil]
    exact Nat.le_of_ble_eq_true rfl
  apply countsFit_snoc none
  rw [List.prod_nil, Nat.one_mul]
  exact bound

theorem runProduct_single (dim : Nat × Bool) : runProduct [dim].reverse = dim.1 := Nat.mul_one _

theorem loop_keeps (rest : List (Nat × Bool)) (dim : Nat × Bool) (run : List (Nat × Bool))
    (done : List (List (Nat × Bool))) : (∀ other ∈ done, other ∈ List.splitBy.loop sameBit rest dim run done) ∧
      ∃ more, (dim :: run).reverse ++ more ∈ List.splitBy.loop sameBit rest dim run done := by
  induction rest generalizing dim run done with
  | nil =>
    rw [List.splitBy.loop]
    refine ⟨fun other mem => by simp [mem], [], by simp⟩
  | cons next rest ih =>
    rw [List.splitBy.loop]
    cases sameBit dim next with
    | true =>
      obtain ⟨kept, more, isRun⟩ := ih next (dim :: run) done
      refine ⟨kept, next :: more, ?_⟩
      rw [List.reverse_cons, List.append_assoc] at isRun
      exact isRun
    | false =>
      obtain ⟨kept, -⟩ := ih next [] ((dim :: run).reverse :: done)
      refine ⟨fun other mem => kept other (List.mem_cons_of_mem _ mem), [], ?_⟩
      rw [List.append_nil]
      exact kept _ List.mem_cons_self

theorem collapse_eq (sizes : ∀ dim ∈ rest, dim.1 ≤ kint64max) (dim : Nat × Bool)
    (run : List (Nat × Bool)) {done : List (List (Nat × Bool))}
    (fit : CountsFit (sizesOf (dim :: run).reverse)) (doneFit : ∀ other ∈ done, CountsFit (sizesOf other)) :
    collapse rest dim.2 (((dim :: run).reverse :: done).reverse.map runProduct) =
      if ∀ other ∈ List.splitBy.loop sameBit (rest.filter (·.1 ≠ 1)) dim run done, CountsFit (sizesOf other) then
        .ok ((List.splitBy.loop sameBit (rest.filter (·.1 ≠ 1)) dim run done).map runProduct)
      else .error .overflow := by
  induction rest generalizing dim run done with
  | nil =>
    rw [List.filter_nil, List.splitBy.loop, if_pos, collapse]
    intro other mem
    rcases List.mem_cons.1 (List.mem_reverse.1 mem) with rfl | isDone
    · exact fit
    · exact doneFit other isDone
  | cons next rest ih =>
    obtain ⟨size, bit⟩ := next
    have later := ih fun dim mem => sizes dim (List.mem_cons_of_mem _ mem)
    have product : runProduct (dim :: run).reverse = (sizesOf (dim :: run).reverse).prod := rfl
    have back : ((((dim :: run).reverse :: done).reverse.map runProduct).getLastD 1) = runProduct (dim :: run).reverse := by
      rw [List.reverse_cons, List.map_append, List.map_singleton, List.getLastD_concat]
    have dropped : (((dim :: run).reverse :: done).reverse.map runProduct).dropLast = done.reverse.map runProduct := by
      rw [List.reverse_cons, List.map_append, List.map_singleton, List.dropLast_concat]
    rw [collapse]
    by_cases isOne : size = 1
    · have within : runProduct (dim :: run).reverse * 1 ≤ kint64max := by
        rw [Nat.mul_one, product, ← List.take_length (l := sizesOf _)]
        exact fit _ (Nat.le_refl _)
      rw [if_pos isOne, if_neg (not_not.2 rfl), isOne, timesBack, back, if_pos within, dropped, Nat.mul_one,
        List.filter_cons_of_neg (by simp)]
      have step := later dim run fit doneFit
      rw [List.reverse_cons, List.map_append] at step
      exact step
    · have whole : sizesOf ((size, bit) :: dim :: run).reverse = sizesOf (dim :: run).reverse ++ [size] := by
        rw [List.reverse_cons, sizesOf_append]
        rfl
      rw [if_neg isOne, List.filter_cons_of_pos (by simpa using isOne), List.splitBy.loop]
      cases same : sameBit dim (size, bit) with
      | true =>
        have sameAs : dim.2 = bit := beq_iff_eq.1 same
        rw [if_neg (not_not.2 sameAs), timesBack, back, dropped]
        by_cases within : runProduct (dim :: run).reverse * size ≤ kint64max
        · have step := later (size, bit) (dim :: run) (whole ▸ countsFit_snoc fit within) doneFit
          rw [List.reverse_cons, List.map_append, List.map_singleton, runProduct, whole, List.prod_append,
            List.prod_singleton] at step
          rw [if_pos within]
          exact step
        · rw [if_neg within, if_neg]
          · rfl
          · intro fits
            obtain ⟨-, more, isRun⟩ := loop_keeps (rest.filter (·.1 ≠ 1)) (size, bit) (dim :: run) done
            have bound := fits _ isRun (sizesOf ((size, bit) :: dim :: run).reverse).length (by simp [sizesOf])
            rw [sizesOf_append, List.take_left, whole, List.prod_append, List.prod_singleton] at bound
            exact within bound
      | false =>
        have differs : dim.2 ≠ bit := fun isSame => Bool.false_ne_true (same.symm.trans (beq_iff_eq.2 isSame))
        have step := later (size, bit) [] (countsFit_single (sizes _ List.mem_cons_self))
          (List.forall_mem_cons.2 ⟨fit, doneFit⟩)
        rw [List.reverse_cons, List.map_append, List.map_singleton, runProduct_single] at step
        rw [if_pos differs]
        exact step

/-- The dims of a view with these sizes. -/
def alternating (first : Bool) (sizes : List Nat) : List (Nat × Bool) :=
  sizes.zip ((List.range sizes.length).map (reduces first))

theorem sizesOf_alternating (first : Bool) (sizes : List Nat) : sizesOf (alternating first sizes) = sizes :=
  List.map_fst_zip (by rw [List.length_map, List.length_range])

theorem flagsOf_alternating (first : Bool) (sizes : List Nat) :
    flagsOf (alternating first sizes) = (List.range sizes.length).map (reduces first) :=
  List.map_snd_zip (by rw [List.length_map, List.length_range])

theorem alternating_snoc (first : Bool) (sizes : List Nat) (size : Nat) :
    alternating first (sizes ++ [size]) = alternating first sizes ++ [(size, reduces first sizes.length)] := by
  rw [alternating, List.length_append, List.length_singleton, List.range_succ, List.map_append,
    List.zip_append (by rw [List.length_map, List.length_range])]
  rfl

/-- What the loop makes of the dims is a view of them. -/
theorem collapse_collapses (first : Bool) (sizes : List Nat) {final : List Nat} {back : Nat}
    (ran : collapse rest (reduces first sizes.length) (sizes ++ [back]) = .ok final) :
    Collapses (alternating first sizes ++ (back, reduces first sizes.length) :: rest) (alternating first final) := by
  induction rest generalizing sizes back with
  | nil =>
    cases ran
    rw [alternating_snoc]
    exact Collapses.refl _
  | cons next rest ih =>
    obtain ⟨size, bit⟩ := next
    rw [collapse] at ran
    -- A dim of extent one first joins the run, as one with its bit.
    have joined : Collapses (alternating first sizes ++ (back, reduces first sizes.length) :: (size, bit) :: rest)
        (alternating first sizes ++ (back, reduces first sizes.length) ::
          (size, if size = 1 then reduces first sizes.length else bit) :: rest) := by
      by_cases isOne : size = 1
      · rw [if_pos isOne, isOne]
        exact (((Collapses.one bit rest).trans (Collapses.one _ rest).symm).cons _).append _
      · rw [if_neg isOne]
        exact Collapses.refl _
    apply joined.trans
    generalize (if size = 1 then reduces first sizes.length else bit) = bit at ran
    by_cases differs : reduces first sizes.length ≠ bit
    · have flipped : bit = reduces first (sizes ++ [back]).length := by
        rw [List.length_append, List.length_singleton, reduces_succ, reduces_not]
        exact Bool.eq_not_of_ne (Ne.symm differs)
      rw [if_pos differs, flipped] at ran
      have later := ih _ ran
      rw [alternating_snoc, List.append_assoc] at later
      rw [flipped]
      exact later
    · have isSame := not_not.1 differs
      rw [if_neg differs, ← isSame, timesBack, List.getLastD_concat, List.dropLast_concat] at ran
      rw [← isSame]
      apply ((Collapses.merge back size _ rest).append _).trans
      split at ran
      · exact ih _ ran
      · cases ran

/-! ## The reduction -/

def dimsOf (data : TensorShape) (axis : List Int) : List (Nat × Bool) :=
  data.dims.zip (reducedAxes data.dims.length axis)

theorem sizesOf_dimsOf (data : TensorShape) (axis : List Int) : sizesOf (dimsOf data axis) = data.dims :=
  List.map_fst_zip (by rw [reducedAxes, List.length_map, List.length_range])

theorem flagsOf_dimsOf (data : TensorShape) (axis : List Int) :
    flagsOf (dimsOf data axis) = reducedAxes data.dims.length axis :=
  List.map_snd_zip (by rw [reducedAxes, List.length_map, List.length_range])

theorem dropWhile_ones (dims : List (Nat × Bool)) : Collapses dims (dims.dropWhile (·.1 = 1)) ∧
    dims.filter (·.1 ≠ 1) = (dims.dropWhile (·.1 = 1)).filter (·.1 ≠ 1) := by
  induction dims with
  | nil => exact ⟨Collapses.refl [], rfl⟩
  | cons dim dims ih =>
    obtain ⟨size, bit⟩ := dim
    by_cases isOne : size = 1
    · rw [isOne, List.dropWhile_cons_of_pos (by simp), List.filter_cons_of_neg (by simp)]
      exact ⟨(Collapses.one bit dims).trans ih.1, ih.2⟩
    · rw [List.dropWhile_cons_of_neg (by simpa using isOne)]
      exact ⟨Collapses.refl _, rfl⟩

/-- The bit of the first dim that is not of extent one. -/
def firstBit (dims : List (Nat × Bool)) : Bool := ((dims.filter (·.1 ≠ 1)).head?.map (·.2)).getD true

def outSizes (keepDims : Bool) (dims : List (Nat × Bool)) : List Nat :=
  project (if keepDims then some 1 else none) (flagsOf dims) (sizesOf dims)

/-- The helper views the dims by their runs. -/
structure Views (dims : List (Nat × Bool)) (helper : ReductionHelper) : Prop where
  first : helper.reduceFirstAxis = firstBit dims
  view : helper.dataReshape = (runs dims).map runProduct
  allocated : helper.outReshape = pick helper.reduceFirstAxis.toNat helper.dataReshape
  collapses : Collapses dims (alternating helper.reduceFirstAxis helper.dataReshape)

theorem collapseRuns_spec {dims : List (Nat × Bool)} (sizes : ∀ dim ∈ dims, dim.1 ≤ kint64max) (outShape : List Nat) :
    if ∀ run ∈ runs dims, CountsFit (sizesOf run) then
      ∃ helper, collapseRuns { outShape } dims = .ok helper ∧ helper.outShape = outShape ∧ Views dims helper
    else collapseRuns { outShape } dims = .error .overflow := by
  obtain ⟨skipped, filtered⟩ := dropWhile_ones dims
  rw [collapseRuns]
  cases left : dims.dropWhile (·.1 = 1) with
  | nil =>
    rw [left] at skipped filtered
    have noRuns : runs dims = [] := by
      rw [runs, filtered]
      rfl
    rw [if_pos fun run mem => absurd (noRuns ▸ mem) List.not_mem_nil]
    refine ⟨_, rfl, rfl, ?_, ?_, ?_, skipped⟩
    · rw [firstBit, filtered]
      rfl
    · rw [noRuns]
      rfl
    · exact (pick_eq_project true []).symm
  | cons dim rest =>
    obtain ⟨size, bit⟩ := dim
    have isLarge := List.head?_dropWhile_not (fun dim : Nat × Bool => decide (dim.1 = 1)) dims
    have within : ∀ dim ∈ (size, bit) :: rest, dim.1 ≤ kint64max := fun dim mem =>
      sizes dim ((List.dropWhile_sublist _).subset (left ▸ mem))
    rw [left] at isLarge skipped filtered
    rw [List.filter_cons_of_pos (by simpa using isLarge)] at filtered
    have ran := collapse_eq (fun dim mem => within dim (List.mem_cons_of_mem _ mem)) (size, bit) []
      (countsFit_single (within _ List.mem_cons_self)) (List.forall_mem_nil _)
    rw [List.reverse_singleton, List.map_singleton, runProduct_single] at ran
    have allRuns : runs dims = List.splitBy.loop sameBit (rest.filter (·.1 ≠ 1)) (size, bit) [] [] := by
      rw [runs, filtered]
      rfl
    rw [← allRuns] at ran
    have startsWith : reduces bit 0 = bit := by cases bit <;> rfl
    split at ran
    next fit =>
      rw [if_pos fit]
      refine ⟨{ reduceFirstAxis := bit, dataReshape := _, outShape, outReshape := pick bit.toNat _ }, ?_, rfl, ?_, rfl, rfl, ?_⟩
      · change (collapse rest bit [size] >>= _) = _
        rw [ran]
        cases bit <;> rfl
      · rw [firstBit, filtered]
        rfl
      · apply skipped.trans
        rw [← startsWith] at ran
        have collapsed := collapse_collapses bit [] ran
        rw [List.length_nil, startsWith] at collapsed
        exact collapsed
    next overflows =>
      rw [if_neg overflows]
      change (collapse rest bit [size] >>= _) = _
      rw [ran]
      rfl

theorem simplify_eq (data : TensorShape) (keepDims : Bool)
    (valid : ∀ index ∈ axis, -data.dims.length ≤ index ∧ index < data.dims.length) :
    simplify {} data axis keepDims = collapseRuns { outShape := outSizes keepDims (dimsOf data axis) }
      (dimsOf data axis) := by
  have marked := simplifyHelper_eq data valid fun _ => false
  rw [List.map_const', List.length_range] at marked
  rw [simplify, marked, outSizes, flagsOf_dimsOf, sizesOf_dimsOf]
  rfl

/-- The collapsed reduction is the one over the axes. -/
structure KeepsReduction (data : TensorShape) (axis : List Int) (keepDims : Bool) (helper : ReductionHelper) : Prop where
  reduces : ∀ (α β : Type) (f : List α → β) (x : Lib.Tensor α), x.extents = data.dims →
    (((x.reshape helper.dataReshape).reduce f false helper.reduced).reshape helper.outShape).Same
      (x.reduce f keepDims (reducedAxes data.dims.length axis))
  allocated : helper.outReshape = project none helper.reduced helper.dataReshape
  sameCount : helper.outReshape.prod = helper.outShape.prod
  moves : helper.permutation =
    (List.range helper.dataReshape.length).filter (fun i => !ReductionHelper.reduces helper.reduceFirstAxis i) ++
      (List.range helper.dataReshape.length).filter (ReductionHelper.reduces helper.reduceFirstAxis)
  shuffled : ∃ shape, helper.shuffledShape = some shape ∧
    shape.dims = helper.permutation.map fun i => helper.dataReshape.getD i 0

/-- Collapsing keeps the reduction exactly when no product of sizes overflows, in a run or
over the runs in the order of the transpose. -/
theorem simplify_keeps_reduction_iff (data : TensorShape) (axis : List Int) (keepDims : Bool)
    (valid : ∀ index ∈ axis, -data.dims.length ≤ index ∧ index < data.dims.length) :
    (∃ helper, simplify {} data axis keepDims = .ok helper ∧ KeepsReduction data axis keepDims helper) ↔
      (∀ run ∈ runs (dimsOf data axis), CountsFit (sizesOf run)) ∧
        CountsFit (shuffle (firstBit (dimsOf data axis)) ((runs (dimsOf data axis)).map runProduct)) := by
  have sizes : ∀ dim ∈ dimsOf data axis, dim.1 ≤ kint64max := fun dim member =>
    data.sizes dim.1 (List.of_mem_zip member).1
  have spec := collapseRuns_spec sizes (outSizes keepDims (dimsOf data axis))
  rw [← simplify_eq data keepDims valid] at spec
  split at spec
  next fit =>
    obtain ⟨helper, ran, isOut, views⟩ := spec
    constructor
    · rintro ⟨helper', ran', keeps⟩
      have sameHelper : helper' = helper := Except.ok.inj (ran'.symm.trans ran)
      subst sameHelper
      obtain ⟨shape, isShape, -⟩ := keeps.shuffled
      refine ⟨fit, ?_⟩
      rw [← views.first, ← views.view]
      rw [shuffledShape] at isShape
      split at isShape
      next legal => exact legal.2
      next => cases isShape
    · rintro ⟨-, counts⟩
      rw [← views.first, ← views.view] at counts
      have allocated : helper.outReshape = project none helper.reduced helper.dataReshape := by
        rw [views.allocated, pick_eq_project]
        rfl
      have sizesFit : ∀ size ∈ helper.dataReshape, size ≤ kint64max := by
        rw [views.view]
        intro size member
        obtain ⟨run, isRun, rfl⟩ := List.mem_map.1 member
        have bound := fit run isRun _ (Nat.le_refl _)
        rw [List.take_length] at bound
        exact bound
      refine ⟨helper, ran, ?_, allocated, ?_, ?_, ?_⟩
      · intro α β f x isExtents
        have collapsed := Lib.Tensor.reduce_collapsed views.collapses f keepDims (isExtents.trans (sizesOf_dimsOf data axis).symm)
        rw [sizesOf_alternating, flagsOf_alternating, ← outSizes, ← isOut, flagsOf_dimsOf] at collapsed
        exact collapsed
      · have kept := prod_project false (alternating helper.reduceFirstAxis helper.dataReshape)
        rw [sizesOf_alternating, flagsOf_alternating] at kept
        rw [allocated, isOut, outSizes, prod_project, views.collapses.kept]
        exact kept
      · rw [permutation_eq, everyOther_eq_filter, everyOther_eq_filter]
        simp only [reduces_not, Bool.not_not]
      · have legal : ∀ size ∈ shuffle helper.reduceFirstAxis helper.dataReshape, size ≤ kint64max := by
          intro size member
          rcases List.mem_append.1 member with kept | reduced
          · exact pick_le sizesFit kept
          · exact pick_le sizesFit reduced
        refine ⟨_, dif_pos ⟨legal, counts⟩, ?_⟩
        rw [permutation_eq, List.map_append]
        rfl
  next overflows =>
    constructor
    · rintro ⟨helper, ran, -⟩
      rw [spec] at ran
      cases ran
    · rintro ⟨fit, -⟩
      exact absurd fit overflows

theorem simplify_keeps_reduction_five :
    ∃ helper, simplify {} ⟨[2, 1, 3, 1, 5], by decide, by decide⟩ [1, -1] false = .ok helper ∧
      KeepsReduction ⟨[2, 1, 3, 1, 5], by decide, by decide⟩ [1, -1] false helper :=
  (simplify_keeps_reduction_iff _ _ _ (by decide)).2 (by decide +kernel)

/-- A dim of extent zero allows later sizes whose product overflows. -/
theorem simplify_overflows :
    ¬ ∃ helper, simplify {} ⟨[0, 2 ^ 62, 2], by decide, by decide⟩ [1, 2] false = .ok helper ∧
      KeepsReduction ⟨[0, 2 ^ 62, 2], by decide, by decide⟩ [1, 2] false helper := by
  rintro ⟨helper, ran, -⟩
  have fails : simplify {} ⟨[0, 2 ^ 62, 2], by decide, by decide⟩ [1, 2] false = .error .overflow := by
    rfl
  cases fails.symm.trans ran

end ReductionHelper

end Itex.Kernels
