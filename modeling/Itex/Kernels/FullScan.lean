import Itex.Kernels.Scan

/-!
Contract: scans of a whole tensor (`scan_ops_gpu.h`), beside those of `unique_op_helpers.h`.

Owns: the second copy of the scan, that both choose the same groups, and what both leave at each
index.
-/

namespace Itex.Kernels.Scan

open Finset

variable {I T : Type} [AddCommMonoid T]

/-- `GroupScan`; the output has the type the sums are taken in. -/
def groupScan (groupSize elemsPerWorkItem : Nat) (isExclusive isReverse : Bool) (inFunc : I → T)
    (outFunc : T → T) (inData : Nat → I) (outData : Nat → T) (init : T) (n : Nat) : Nat → T :=
  let localMem := fun i => if i < n then inFunc (inData (mapReversedIndex isReverse n i)) else init
  fun index =>
    let i := mapReversedIndex isReverse n index
    if i < groupSize * elemsPerWorkItem then outFunc (downSweep elemsPerWorkItem localMem init isExclusive i)
    else outData index

/-- Both steps of `launchDeviceScan`, given the scan between them. -/
def launchDeviceScan (elemsPerWorkItem : Nat) (isExclusive isReverse : Bool) (inFunc : I → T)
    (outFunc : T → T) (inData : Nat → I) (outData : Nat → T) (init : T) (n numWorkGroup : Nat)
    (scanInter : (Nat → T) → Option (Nat → T)) : Option (Nat → T) :=
  let mem := groupMem maxWorkGroupSize elemsPerWorkItem isReverse (fun i => inFunc (inData i)) init n
  let interResult := fun groupId => groupTotal elemsPerWorkItem (mem groupId) init maxWorkGroupSize
  (scanInter interResult).map fun carry index =>
    let i := mapReversedIndex isReverse n index
    let groupId := i / (maxWorkGroupSize * elemsPerWorkItem)
    if groupId < numWorkGroup then
      outFunc (downSweep elemsPerWorkItem (mem groupId) init isExclusive
        (i % (maxWorkGroupSize * elemsPerWorkItem)) + carry groupId)
    else outData index

/-- `launchFullScanImpl`; no result where no case handles the size. -/
def launchFullScanImpl {I : Type} (inFunc : I → T) (outFunc : T → T) (isExclusive isReverse : Bool)
    (inData : Nat → I) (outData : Nat → T) (init : T) (n : Nat) : Option (Nat → T) :=
  if n ≤ maxElemsPerWorkGroup then
    if maxWorkGroupSize < n then
      let elems := halveWhile maxWorkGroupSize n 8
      if elems ∈ [8, 4, 2, 1] then
        some (groupScan maxWorkGroupSize elems isExclusive isReverse inFunc outFunc inData outData init n)
      else none
    else
      let groupSize := max (halveWhile 1 n maxWorkGroupSize) 32
      if groupSize ∈ [1024, 512, 256, 128, 64, 32, 16] then
        some (groupScan groupSize 1 isExclusive isReverse inFunc outFunc inData outData init n)
      else none
  else
    let groups := deviceGroups n
    if groups.2 ∈ [8, 4, 2, 1] then
      launchDeviceScan groups.2 isExclusive isReverse inFunc outFunc inData outData init n groups.1
        fun inter => launchFullScanImpl id id true false inter inter init groups.1
    else none
termination_by n
decreasing_by exact deviceGroups_fst_lt (by omega)

/-- `launchFullScan`, without an output functor: its branches only choose template arguments. -/
def launchFullScan (inFunc : I → T) (isExclusive isReverse : Bool) (inData : Nat → I)
    (outData : Nat → T) (init : T) (n : Nat) : Option (Nat → T) :=
  launchFullScanImpl inFunc id isExclusive isReverse inData outData init n

/-- `impl::DispatchScan`. -/
def dispatchScan (isExclusive isReverse : Bool) (data result : Nat → T) (init : T) (n : Nat) : Option (Nat → T) :=
  scanKernel isExclusive isReverse data result init n

/-- The two copies are one scan of what the input functor gives. -/
theorem launchFullScanImpl_eq (inFunc : I → T) (isExclusive isReverse : Bool) (inData : Nat → I)
    (outData : Nat → T) (init : T) (n : Nat) :
    launchFullScanImpl inFunc id isExclusive isReverse inData outData init n =
      scanKernel isExclusive isReverse (fun i => inFunc (inData i)) outData init n := by
  induction n using Nat.strong_induction_on generalizing I isExclusive isReverse outData with
  | _ n ih =>
    rw [launchFullScanImpl, scanKernel]
    by_cases small : n ≤ maxElemsPerWorkGroup
    · rw [if_pos small, if_pos small]
      rfl
    · rw [if_neg small, if_neg small]
      have inner : ∀ inter : Nat → T, launchFullScanImpl id id true false inter inter init (deviceGroups n).1 =
          scanKernel true false inter inter init (deviceGroups n).1 := fun inter =>
        ih _ (deviceGroups_fst_lt (Nat.lt_of_not_le small)) id true false inter inter
      unfold launchDeviceScan
      simp only [inner]
      rfl

/-- The elements folded into the output at an index. -/
def foldedAt (isExclusive isReverse : Bool) (index j : Nat) : Prop :=
  (if isReverse then index < j else j < index) ∨ (j = index ∧ isExclusive = false)

instance (isExclusive isReverse : Bool) (index : Nat) : DecidablePred (foldedAt isExclusive isReverse index) :=
  fun j => inferInstanceAs (Decidable ((if isReverse then index < j else j < index) ∨ (j = index ∧ isExclusive = false)))

theorem scanned_eq (isExclusive isReverse : Bool) (data : Nat → T) {n index : Nat} (inside : index < n) :
    scanned isExclusive isReverse data n index = ∑ j ∈ range n with foldedAt isExclusive isReverse index j, data j := by
  unfold scanned
  refine sum_nbij' (mapReversedIndex isReverse n) (mapReversedIndex isReverse n) ?_ ?_ ?_ ?_ fun _ _ => rfl
  all_goals
    intro j
    cases isExclusive <;> cases isReverse <;> simp [foldedAt, mapReversedIndex] <;> omega

/-- Both scans are defined for every length and leave the folds. -/
theorem scans_eq_folds (inFunc : I → T) (isExclusive isReverse : Bool) (inData : Nat → I)
    (data outData : Nat → T) {n : Nat} (positive : 0 < n) :
    (∃ out, launchFullScan inFunc isExclusive isReverse inData outData 0 n = some out ∧ ∀ index < n,
      out index = ∑ j ∈ range n with foldedAt isExclusive isReverse index j, inFunc (inData j)) ∧
    ∃ out, dispatchScan isExclusive isReverse data outData 0 n = some out ∧ ∀ index < n,
      out index = ∑ j ∈ range n with foldedAt isExclusive isReverse index j, data j := by
  have places : ∀ data : Nat → T, ∃ out, scanKernel isExclusive isReverse data outData 0 n = some out ∧
      ∀ index < n, out index = ∑ j ∈ range n with foldedAt isExclusive isReverse index j, data j := by
    intro data
    obtain ⟨out, isOut, isScanned⟩ := scanKernel_spec isExclusive isReverse data outData positive
    exact ⟨out, isOut, fun index inside => (isScanned index inside).trans (scanned_eq _ _ data inside)⟩
  constructor
  · unfold launchFullScan
    rw [launchFullScanImpl_eq]
    exact places fun i => inFunc (inData i)
  · exact places data

/-- Of three elements, the sums from each on. -/
theorem scans_three :
    (∃ out, launchFullScan (id : Nat → Nat) false true (fun i => i + 1) (fun _ => 0) 0 3 = some out ∧ ∀ index < 3,
      out index = ∑ j ∈ range 3 with foldedAt false true index j, id (j + 1)) ∧
    ∃ out, dispatchScan false true (fun i => i + 1) (fun _ => 0) 0 3 = some out ∧ ∀ index < 3,
      out index = ∑ j ∈ range 3 with foldedAt false true index j, (j + 1) :=
  scans_eq_folds id false true (fun i => i + 1) (fun i => i + 1) (fun _ => 0) (by decide)

end Itex.Kernels.Scan
