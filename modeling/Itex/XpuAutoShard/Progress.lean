import Itex.Lib.Growth
import Itex.XpuAutoShard.Inference

/-!
Contract: the order in which inference moves sharding properties.

Owns: when a property extends another one, how much of a property is set, and that every
setter, every built-in rule and every inference only adds to it.
-/

namespace Itex.XpuAutoShard.Hsp

open Itex.Lib

variable {old spec : SplitSpec} {scan : IdenticalScan} {specs' splitSpecs specs : List SplitSpec}
  {dim ref : Nat} {group : DimGroup} {heap : Heap} {props : OpProps} {result : Bool × Heap}

/-! ## The order -/

/-- Split specs that are set stay as they are. -/
structure KeepsSpecs (specs specs' : List SplitSpec) : Prop where
  length : specs'.length = specs.length
  kept : ∀ {dim : Nat} {spec : SplitSpec}, specs[dim]? = some spec → spec.isInitialized = true →
    specs'[dim]? = some spec

/-- One property is another one with more of it set. -/
structure Extends (prop prop' : ShardingProperty) : Prop where
  elementType : prop'.elementType = prop.elementType
  rank : prop'.rank = prop.rank
  shape : prop'.shape = prop.shape
  deviceIds : prop'.deviceIds = prop.deviceIds
  splitSpecs : KeepsSpecs prop.splitSpecs prop'.splitSpecs
  orderedSplitDims : prop.orderedSplitDims <+: prop'.orderedSplitDims
  stageOffsets : prop.singleSplitOnlyStageOffsets ≠ [] →
    prop'.singleSplitOnlyStageOffsets = prop.singleSplitOnlyStageOffsets
  mark : prop.isShapeOrSizeTensor = true → prop'.isShapeOrSizeTensor = true ∧
    prop'.shapeSplitSpecs = prop.shapeSplitSpecs ∧ prop'.sizeSplitSpec = prop.sizeSplitSpec
  postOps : prop.postOps ≠ [] → prop'.postOps = prop.postOps

/-- Strictly more is set. -/
def Gains (prop prop' : ShardingProperty) : Prop := Extends prop prop' ∧ ¬ Extends prop' prop

/-- How much of a property is set. -/
def ShardingProperty.info (prop : ShardingProperty) : Nat :=
  prop.splitSpecs.countP SplitSpec.isInitialized + (if prop.singleSplitOnlyStageOffsets = [] then 0 else 1) +
    (if prop.isShapeOrSizeTensor then 1 else 0) + (if prop.postOps = [] then 0 else 1)

theorem KeepsSpecs.refl (specs : List SplitSpec) : KeepsSpecs specs specs := ⟨rfl, fun atDim _ => atDim⟩

theorem KeepsSpecs.trans {first second third : List SplitSpec} (before : KeepsSpecs first second)
    (after : KeepsSpecs second third) : KeepsSpecs first third :=
  ⟨after.length.trans before.length, fun atDim isSet => after.kept (before.kept atDim isSet) isSet⟩

theorem KeepsSpecs.count_le (keeps : KeepsSpecs specs specs') :
    specs.countP SplitSpec.isInitialized ≤ specs'.countP SplitSpec.isInitialized := by
  induction specs generalizing specs' with
  | nil => simp
  | cons head tail ih =>
    cases specs' with
    | nil =>
      have := keeps.length
      simp at this
    | cons head' tail' =>
      have rest : KeepsSpecs tail tail' := by
        refine ⟨by simpa using keeps.length, ?_⟩
        intro dim spec atDim isSet
        exact @KeepsSpecs.kept _ _ keeps (dim + 1) spec atDim isSet
      have less := ih rest
      rw [List.countP_cons, List.countP_cons]
      by_cases isSet : head.isInitialized = true
      · have same := @KeepsSpecs.kept _ _ keeps 0 head rfl isSet
        cases same
        omega
      · rw [if_neg isSet]
        split <;> omega

theorem KeepsSpecs.count_lt (keeps : KeepsSpecs specs specs')
    {spec' : SplitSpec} (atDim : specs[dim]? = some spec) (unset : spec.isInitialized = false)
    (atDim' : specs'[dim]? = some spec') (isSet : spec'.isInitialized = true) :
    specs.countP SplitSpec.isInitialized < specs'.countP SplitSpec.isInitialized := by
  have reset : KeepsSpecs specs (specs'.set dim spec) := by
    refine ⟨by rw [List.length_set, keeps.length], ?_⟩
    intro other kept atOther isKept
    by_cases same : dim = other
    · rw [← same, atDim] at atOther
      cases atOther
      rw [unset] at isKept
      cases isKept
    · rw [List.getElem?_set_ne same]
      exact keeps.kept atOther isKept
  have bound := read_lt atDim'
  have isElement : specs'[dim] = spec' := (List.getElem?_eq_some_iff.1 atDim').2
  have less := reset.count_le
  grind

theorem Extends.refl (prop : ShardingProperty) : Extends prop prop :=
  ⟨rfl, rfl, rfl, rfl, .refl _, List.prefix_refl _, fun _ => rfl, fun isSet => ⟨isSet, rfl, rfl⟩, fun _ => rfl⟩

theorem Extends.trans {first second third : ShardingProperty} (before : Extends first second)
    (after : Extends second third) : Extends first third where
  elementType := after.elementType.trans before.elementType
  rank := after.rank.trans before.rank
  shape := after.shape.trans before.shape
  deviceIds := after.deviceIds.trans before.deviceIds
  splitSpecs := before.splitSpecs.trans after.splitSpecs
  orderedSplitDims := before.orderedSplitDims.trans after.orderedSplitDims
  stageOffsets := by
    intro isSet
    have same := before.stageOffsets isSet
    rw [after.stageOffsets (by rw [same]; exact isSet), same]
  mark := by
    intro isSet
    obtain ⟨isSet', shape, size⟩ := before.mark isSet
    obtain ⟨isSet'', shape', size'⟩ := after.mark isSet'
    exact ⟨isSet'', shape'.trans shape, size'.trans size⟩
  postOps := by
    intro isSet
    have same := before.postOps isSet
    rw [after.postOps (by rw [same]; exact isSet), same]

theorem Extends.info_le {prop prop' : ShardingProperty} (extends_ : Extends prop prop') : prop.info ≤ prop'.info := by
  have specs := extends_.splitSpecs.count_le
  have offsets : (if prop.singleSplitOnlyStageOffsets = [] then 0 else 1) ≤
      (if prop'.singleSplitOnlyStageOffsets = [] then 0 else 1) := by
    by_cases isSet : prop.singleSplitOnlyStageOffsets = []
    · rw [if_pos isSet]
      exact Nat.zero_le _
    · rw [extends_.stageOffsets isSet]
  have mark : (if prop.isShapeOrSizeTensor then 1 else 0) ≤ (if prop'.isShapeOrSizeTensor then 1 else 0) := by
    by_cases isSet : prop.isShapeOrSizeTensor = true
    · rw [if_pos isSet, if_pos (extends_.mark isSet).1]
    · rw [if_neg isSet]
      exact Nat.zero_le _
  have postOps : (if prop.postOps = [] then 0 else 1) ≤ (if prop'.postOps = [] then 0 else 1) := by
    by_cases isSet : prop.postOps = []
    · rw [if_pos isSet]
      exact Nat.zero_le _
    · rw [extends_.postOps isSet]
  unfold ShardingProperty.info
  omega

theorem Extends.gains {prop prop' : ShardingProperty} (extends_ : Extends prop prop')
    (more : prop.info < prop'.info) : Gains prop prop' :=
  ⟨extends_, fun back => absurd back.info_le (by omega)⟩

/-- What is set is at most the split specs, the offsets, the mark and the post-operations. -/
theorem ShardingProperty.info_le (prop : ShardingProperty) : prop.info ≤ prop.splitSpecs.length + 3 := by
  have := @List.countP_le_length _ SplitSpec.isInitialized prop.splitSpecs
  unfold info
  split <;> split <;> split <;> omega

def properties : Growth ShardingProperty where
  le := Extends
  size := ShardingProperty.info
  ceiling prop := prop.splitSpecs.length + 3
  refl := Extends.refl
  trans := Extends.trans
  size_le := Extends.info_le
  size_le_ceiling := ShardingProperty.info_le
  ceiling_le extends_ := Nat.le_of_eq (congrArg (· + 3) extends_.splitSpecs.length)

/-- All properties of a graph. -/
def heaps : Growth Heap := properties.list

theorem heaps_at {heap' : Heap} (le : heaps.le heap heap') {prop : ShardingProperty}
    (atRef : heap[ref]? = some prop) : ∃ prop', heap'[ref]? = some prop' ∧ Extends prop prop' := by
  change List.Forall₂ Extends heap heap' at le
  induction le generalizing ref with
  | nil => cases atRef
  | @cons _ head' _ _ extends_ _ ih =>
    cases ref with
    | zero =>
      cases atRef
      exact ⟨head', rfl, extends_⟩
    | succ ref => exact ih atRef

/-! ## Setters -/

theorem readAt_eq_ok {α : Type} {vector : List α} {index : Nat} {element : α} :
    readAt vector index = .ok element ↔ vector[index]? = some element := by
  unfold readAt
  split <;> simp [*]

theorem KeepsSpecs.set (spec : SplitSpec)
    (atDim : specs[dim]? = some old) (unset : old.isInitialized = false) : KeepsSpecs specs (specs.set dim spec) := by
  refine ⟨List.length_set, ?_⟩
  grind

namespace ShardingProperty

theorem isSplitAt_eq_false {prop : ShardingProperty}
    (ranked : prop.isRanked = true) (atDim : prop.splitSpecs[dim]? = some spec)
    (unsplit : prop.isSplitAt dim = .ok false) : spec.isInitialized = false := by
  have notScalar : prop.isScalar = false := by
    unfold isScalar
    rw [ranked, Bool.true_and, beq_eq_false_iff_ne]
    intro isZero
    have noSpecs := prop.specsMatchRank
    rw [isZero, Int.toNat_zero, List.length_eq_zero_iff] at noSpecs
    rw [noSpecs] at atDim
    cases atDim
  unfold isSplitAt at unsplit
  rw [ranked, notScalar] at unsplit
  simp only [Bool.not_true, Bool.or_self, Bool.false_eq_true, ↓reduceIte] at unsplit
  rw [readAt_eq_ok.2 atDim] at unsplit
  exact Except.ok.inj unsplit

theorem rescaled_isInitialized {prop : ShardingProperty} {dim : Nat} {spec : SplitSpec}
    (isSet : spec.isInitialized = true) : (prop.rescaled dim spec).isInitialized = true := by
  unfold rescaled
  split
  · exact isSet
  · split
    · exact isSet
    · rfl

theorem placeAt_grows {prop : ShardingProperty}
    (atDim : prop.splitSpecs[dim]? = some old) (unset : old.isInitialized = false)
    (isSet : spec.isInitialized = true) : properties.Grows prop (true, prop.placeAt dim spec) := by
  have keeps := KeepsSpecs.set spec atDim unset
  have bound := read_lt atDim
  have more := keeps.count_lt atDim unset (List.getElem?_set_self bound) isSet
  refine ⟨?_, fun _ => ?_⟩
  · exact { Extends.refl prop with splitSpecs := keeps }
  · change prop.info < (prop.placeAt dim spec).info
    unfold info placeAt
    dsimp only
    omega

theorem singleElsewhere_extends (prop : ShardingProperty) (dim : Nat) : Extends prop (prop.singleElsewhere dim) := by
  refine { Extends.refl prop with splitSpecs := ⟨List.length_mapIdx, ?_⟩ }
  intro other spec atOther isSet
  change (prop.splitSpecs.mapIdx _)[other]? = _
  rw [List.getElem?_mapIdx, atOther, Option.map_some, isSet]
  simp

section

variable {prop : ShardingProperty}

theorem splitAt_grows {result : Bool × ShardingProperty} (isSet : spec.isInitialized = true)
    (returned : prop.splitAt dim spec = .ok result) : properties.Grows prop result := by
  unfold splitAt at returned
  obtain ⟨split, isSplit, returned⟩ := bind_ok.1 returned
  split at returned
  next =>
    cases returned
    exact .same prop
  next free =>
    simp only [Bool.or_eq_true, Bool.not_eq_true', not_or, Bool.not_eq_false, Bool.not_eq_true] at free
    obtain ⟨old, atDim, returned⟩ := bind_ok.1 returned
    rw [readAt_eq_ok] at atDim
    rw [free.1.2] at isSplit
    have placed := placeAt_grows atDim (isSplitAt_eq_false free.1.1 atDim isSplit)
      (@rescaled_isInitialized prop dim spec isSet)
    dsimp only at returned
    split at returned
    next =>
      cases returned
      exact placed
    next =>
      obtain ⟨complete, _, returned⟩ := bind_ok.1 returned
      cases returned
      generalize prop.placeAt dim _ = set at placed
      have ordered : Extends set { set with orderedSplitDims := set.orderedSplitDims ++ [dim] } :=
        { Extends.refl set with orderedSplitDims := List.prefix_append _ _ }
      have orderedGrows : properties.Grows set (false, _) := ⟨ordered, fun changed => by cases changed⟩
      split
      next =>
        have elsewhere := singleElsewhere_extends
          { set with orderedSplitDims := set.orderedSplitDims ++ [dim] } dim
        exact (placed.then orderedGrows).then ⟨elsewhere, fun changed : false = true => by cases changed⟩
      next => exact placed.then orderedGrows

theorem splitSingleAt_grows {result : Bool × ShardingProperty}
    (returned : prop.splitSingleAt dim = .ok result) : properties.Grows prop result :=
  splitAt_grows rfl returned

theorem splitSingleOnly_grows {stageOffsets : List Nat}
    {result : Bool × ShardingProperty} (returned : prop.splitSingleOnly stageOffsets = .ok result) :
    properties.Grows prop result := by
  unfold splitSingleOnly at returned
  obtain ⟨⟨changed, split⟩, looped, returned⟩ := bind_ok.1 returned
  have dims : properties.Grows prop (changed, split) := by
    apply Growth.Grows.foldlM _ looped
    intro changed s dim _ next stepped
    obtain ⟨⟨report, t⟩, split, stepped⟩ := bind_ok.1 stepped
    cases stepped
    exact ⟨report, splitSingleAt_grows split, id⟩
  dsimp only at returned
  split at returned
  next offsets =>
    cases returned
    refine ⟨?_, fun _ => ?_⟩
    · apply dims.1.trans
      exact { Extends.refl split with stageOffsets := fun isSet => absurd offsets.1 isSet }
    · have less : prop.info ≤ split.info := dims.1.info_le
      change prop.info < ({ split with singleSplitOnlyStageOffsets := stageOffsets } : ShardingProperty).info
      unfold info at less ⊢
      rw [if_pos offsets.1] at less
      rw [if_neg offsets.2]
      dsimp only
      omega
  next =>
    cases returned
    exact dims

theorem mark_grows (shapeSplitSpecs : List SplitSpec) (sizeSplitSpec : SplitSpec)
    (unmarked : prop.isShapeOrSizeTensor = false) :
    properties.Grows prop (true, { prop with
      shapeSplitSpecs := shapeSplitSpecs, sizeSplitSpec := sizeSplitSpec, isShapeOrSizeTensor := true }) := by
  refine ⟨?_, fun _ => ?_⟩
  · refine { Extends.refl prop with mark := ?_ }
    intro marked
    rw [unmarked] at marked
    cases marked
  · change prop.info < ShardingProperty.info _
    unfold info
    rw [unmarked]
    simp

theorem appendPostOps_grows {ops : List PostOp} (none : prop.getNumPostOps = 0)
    (some : ops ≠ []) : properties.Grows prop (true, prop.appendPostOps ops) := by
  have noOps : prop.postOps = [] := List.length_eq_zero_iff.1 none
  refine ⟨?_, fun _ => ?_⟩
  · exact { Extends.refl prop with postOps := fun isSet => absurd noOps isSet }
  · change prop.info < (prop.appendPostOps ops).info
    unfold info appendPostOps
    rw [noOps, if_pos rfl, List.nil_append, if_neg some]
    exact Nat.lt_succ_self _

theorem isShapeOrSizeTensor_eq_false_of_shape (unmarked : prop.isShapeTensor = false)
    (maybe : prop.maybeShapeTensor = .ok true) : prop.isShapeOrSizeTensor = false := by
  have rankOne : prop.rank = 1 := by
    unfold maybeShapeTensor at maybe
    split at maybe
    next rankOne => exact rankOne
    next => cases maybe
  unfold isShapeTensor at unmarked
  rw [rankOne] at unmarked
  simpa using unmarked

theorem isShapeOrSizeTensor_eq_false_of_size (unmarked : prop.isSizeTensor = false)
    (maybe : prop.maybeSizeTensor = true) : prop.isShapeOrSizeTensor = false := by
  unfold maybeSizeTensor at maybe
  rw [Bool.and_eq_true, beq_iff_eq] at maybe
  unfold isSizeTensor at unmarked
  rw [maybe.1] at unmarked
  simpa using unmarked

theorem setShapeTensor_grows
    {result : Bool × ShardingProperty} (returned : prop.setShapeTensor splitSpecs = .ok result) :
    properties.Grows prop result := by
  unfold setShapeTensor at returned
  split at returned
  next =>
    cases returned
    exact .same prop
  next unmarked =>
    obtain ⟨maybe, isMaybe, returned⟩ := bind_ok.1 returned
    cases maybe with
    | false =>
      cases returned
      exact .same prop
    | true =>
      obtain ⟨extent, _, returned⟩ := bind_ok.1 returned
      split at returned
      next =>
        cases returned
        exact .same prop
      next =>
        cases returned
        rw [Bool.not_eq_true] at unmarked
        exact mark_grows splitSpecs prop.sizeSplitSpec
          (isShapeOrSizeTensor_eq_false_of_shape unmarked isMaybe)

theorem setShapeTensorSingleSplitOnly_grows {result : Bool × ShardingProperty}
    (returned : prop.setShapeTensorSingleSplitOnly = .ok result) : properties.Grows prop result := by
  unfold setShapeTensorSingleSplitOnly at returned
  split at returned
  next =>
    cases returned
    exact .same prop
  next =>
    obtain ⟨maybe, _, returned⟩ := bind_ok.1 returned
    split at returned
    next =>
      cases returned
      exact .same prop
    next =>
      obtain ⟨extent, _, returned⟩ := bind_ok.1 returned
      exact setShapeTensor_grows returned

end

theorem setSizeTensorSpec_grows (prop : ShardingProperty) (splitSpec : SplitSpec) :
    properties.Grows prop (prop.setSizeTensorSpec splitSpec) := by
  unfold setSizeTensorSpec
  split
  next => exact .same prop
  next free =>
    simp only [Bool.or_eq_true, Bool.not_eq_true', not_or, Bool.not_eq_true, Bool.not_eq_false] at free
    exact mark_grows prop.shapeSplitSpecs splitSpec (isShapeOrSizeTensor_eq_false_of_size free.1 free.2)

theorem setSizeTensor_grows (prop rhs : ShardingProperty) : properties.Grows prop (prop.setSizeTensor rhs) := by
  unfold setSizeTensor
  split
  next => exact .same prop
  next free =>
    simp only [Bool.or_eq_true, Bool.not_eq_true', not_or, Bool.not_eq_true, Bool.not_eq_false] at free
    exact mark_grows prop.shapeSplitSpecs _ (isShapeOrSizeTensor_eq_false_of_size free.1.1 free.1.2)

theorem setShapeOrSizeTensorWith_grows {prop rhs : ShardingProperty} {result : Bool × ShardingProperty}
    (returned : prop.setShapeOrSizeTensorWith rhs = .ok result) : properties.Grows prop result := by
  unfold setShapeOrSizeTensorWith at returned
  split at returned
  next => exact setShapeTensor_grows returned
  next =>
    split at returned
    next =>
      cases returned
      exact setSizeTensorSpec_grows prop rhs.sizeSplitSpec
    next =>
      cases returned
      exact .same prop

end ShardingProperty

/-! ## Rules -/

open Itex.XpuAutoShard.Hsp.ShardingProperty

theorem onProp_grows {setter : ShardingProperty → Except Failure (Bool × ShardingProperty)}
    (each : ∀ prop set, setter prop = .ok set → properties.Grows prop set)
    (returned : onProp heap ref setter = .ok result) : heaps.Grows heap result := by
  unfold onProp at returned
  obtain ⟨prop, atRef, returned⟩ := bind_ok.1 returned
  obtain ⟨⟨changed, set⟩, isSet, returned⟩ := bind_ok.1 returned
  cases returned
  exact .set (readAt_eq_ok.1 atRef) (each prop _ isSet)

/-- The split to align with, after one more dim that is split. -/
def IdenticalScan.take (scan : IdenticalScan) (spec : SplitSpec) : SplitSpec :=
  match scan.splitSpec with
  | none => spec
  | some splitSpec => if splitSpec.type = .single ∧ spec.type ≠ .single then spec else splitSpec

theorem scanIdenticalItem_eq_ok {scan' : IdenticalScan} {item : DimItem}
    (scanned : scanIdenticalItem props heap scan item = .ok scan') :
    ∃ ref prop, props.refOf item = .ok ref ∧ heap[ref]? = some prop ∧
      ((prop.isSplitAt item.dim = .ok false ∧ scan' = scan) ∨
        (prop.isSplitAt item.dim = .ok true ∧ ∃ spec, prop.splitSpecs[item.dim]? = some spec ∧
          scan' = ⟨some (scan.take spec), scan.numInitialized + 1⟩)) := by
  unfold scanIdenticalItem at scanned
  obtain ⟨ref, isRef, scanned⟩ := bind_ok.1 scanned
  obtain ⟨prop, atRef, scanned⟩ := bind_ok.1 scanned
  obtain ⟨split, isSplit, scanned⟩ := bind_ok.1 scanned
  refine ⟨ref, prop, isRef, readAt_eq_ok.1 atRef, ?_⟩
  cases split with
  | false =>
    cases scanned
    exact .inl ⟨isSplit, rfl⟩
  | true =>
    obtain ⟨spec, isSpec, scanned⟩ := bind_ok.1 scanned
    refine .inr ⟨isSplit, spec, readAt_eq_ok.1 isSpec, ?_⟩
    unfold IdenticalScan.take
    cases present : scan.splitSpec with
    | none =>
      rw [present] at scanned
      exact (Except.ok.inj scanned).symm
    | some splitSpec =>
      rw [present] at scanned
      dsimp only at scanned ⊢
      by_cases single : splitSpec.type = .single
      · rw [if_pos single] at scanned
        split at scanned
        next multi =>
          rw [if_pos ⟨single, multi⟩]
          exact (Except.ok.inj scanned).symm
        next notMulti =>
          rw [if_neg fun both => notMulti both.2]
          exact (Except.ok.inj scanned).symm
      · rw [if_neg single] at scanned
        rw [if_neg fun both => single both.1]
        split at scanned
        · exact (Except.ok.inj scanned).symm
        · obtain ⟨equivalent, _, scanned⟩ := bind_ok.1 scanned
          split at scanned
          · exact (Except.ok.inj scanned).symm
          · cases scanned

theorem set_of_isSplitAt {prop : ShardingProperty}
    (split : prop.isSplitAt dim = .ok true) (atDim : prop.splitSpecs[dim]? = some spec) :
    spec.isInitialized = true := by
  unfold isSplitAt at split
  split at split
  · cases split
  · rw [readAt_eq_ok.2 atDim] at split
    exact Except.ok.inj split

theorem IdenticalScan.take_isInitialized
    (before : ∀ spec, scan.splitSpec = some spec → spec.isInitialized = true)
    (isSet : spec.isInitialized = true) : (scan.take spec).isInitialized = true := by
  unfold IdenticalScan.take
  split
  · exact isSet
  next splitSpec present =>
    split
    · exact isSet
    · exact before splitSpec present

theorem inferWithIdenticalDimGroup_grows (returned : inferWithIdenticalDimGroup props group heap = .ok result) :
    heaps.Grows heap result := by
  unfold inferWithIdenticalDimGroup at returned
  obtain ⟨scan, scanned, returned⟩ := bind_ok.1 returned
  have isSet : ∀ spec, scan.splitSpec = some spec → spec.isInitialized = true := by
    apply foldlM_invariant (fun _ (scan : IdenticalScan) =>
      ∀ spec, scan.splitSpec = some spec → spec.isInitialized = true) _ _ scanned
    · intro spec found
      cases found
    · intro seen item rest scan scan' _ before stepped spec found
      obtain ⟨ref, prop, _, _, ⟨_, same⟩ | ⟨split, here, atDim, took⟩⟩ := scanIdenticalItem_eq_ok stepped
      · rw [same] at found
        exact before spec found
      · rw [took] at found
        cases found
        exact IdenticalScan.take_isInitialized before (set_of_isSplitAt split atDim)
  split at returned
  next =>
    cases returned
    exact .same heap
  next splitSpec found =>
    split at returned
    next =>
      apply Growth.Grows.foldlM _ returned
      intro changed s item _ next stepped
      unfold alignIdenticalItem at stepped
      obtain ⟨ref, _, stepped⟩ := bind_ok.1 stepped
      obtain ⟨prop, atRef, stepped⟩ := bind_ok.1 stepped
      obtain ⟨split, _, stepped⟩ := bind_ok.1 stepped
      cases split with
      | true =>
        cases stepped
        exact ⟨false, .same s, by simp⟩
      | false =>
        obtain ⟨⟨success, set⟩, isSplit, stepped⟩ := bind_ok.1 stepped
        have grows := splitAt_grows (isSet splitSpec found) isSplit
        cases success with
        | false => cases stepped
        | true =>
          cases stepped
          exact ⟨true, .set (readAt_eq_ok.1 atRef) grows, by simp⟩
    next =>
      cases returned
      exact .same heap

theorem contractionPostOps_ne_nil (type : ContractionType) (weights : List Rat) :
    contractionPostOps type weights ≠ [] := by
  cases type <;> exact List.cons_ne_nil _ _

theorem inferWithContractingDimGroup_grows
    (returned : inferWithContractingDimGroup props group heap = .ok result) :
    heaps.Grows heap result := by
  unfold inferWithContractingDimGroup at returned
  obtain ⟨item, _, returned⟩ := bind_ok.1 returned
  obtain ⟨inputRef, _, returned⟩ := bind_ok.1 returned
  obtain ⟨input, _, returned⟩ := bind_ok.1 returned
  split at returned
  · cases returned
    exact .same heap
  obtain ⟨split, _, returned⟩ := bind_ok.1 returned
  split at returned
  · cases returned
    exact .same heap
  obtain ⟨spec, _, returned⟩ := bind_ok.1 returned
  split at returned
  · cases returned
    exact .same heap
  obtain ⟨outputRef, _, returned⟩ := bind_ok.1 returned
  obtain ⟨output, atRef, returned⟩ := bind_ok.1 returned
  split at returned
  · cases returned
    exact .same heap
  next noPostOps =>
    split at returned
    · cases returned
      exact .same heap
    · cases returned
      rw [Decidable.not_not] at noPostOps
      exact .set (readAt_eq_ok.1 atRef)
        (appendPostOps_grows noPostOps (contractionPostOps_ne_nil _ _))

theorem inferWithDimGroup_grows
    (returned : inferWithDimGroup props group heap = .ok result) : heaps.Grows heap result := by
  unfold inferWithDimGroup at returned
  split at returned
  · exact inferWithIdenticalDimGroup_grows returned
  · exact inferWithContractingDimGroup_grows returned
  · cases returned
    exact .same heap

theorem trySplitSingleOnly_grows {dim : Option Nat}
    (returned : trySplitSingleOnly ref dim heap = .ok result) : heaps.Grows heap result := by
  apply onProp_grows _ returned
  intro prop set isSet
  split at isSet
  · cases isSet
    exact .same prop
  split at isSet
  · exact splitSingleOnly_grows isSet
  · obtain ⟨split, _, isSet⟩ := bind_ok.1 isSet
    split at isSet
    · cases isSet
      exact .same prop
    obtain ⟨⟨success, placed⟩, isPlaced, isSet⟩ := bind_ok.1 isSet
    obtain ⟨_, isSuccess, isSet⟩ := bind_ok.1 isSet
    cases isSet
    have grows := splitSingleAt_grows isPlaced
    cases success with
    | false => cases isSuccess
    | true => exact grows

theorem inferWithAllInputsSingleSplitOnly_grows
    (returned : inferWithAllInputsSingleSplitOnly props heap = .ok result) : heaps.Grows heap result := by
  unfold inferWithAllInputsSingleSplitOnly at returned
  obtain ⟨inputs, _, returned⟩ := bind_ok.1 returned
  split at returned
  · cases returned
    exact .same heap
  split at returned
  · apply Growth.Grows.foldlM _ returned
    intro changed s ref _ next stepped
    unfold splitOutputSingleOnly at stepped
    obtain ⟨prop, atRef, stepped⟩ := bind_ok.1 stepped
    split at stepped
    · cases stepped
      exact ⟨false, .same s, by simp⟩
    obtain ⟨⟨success, set⟩, isSet, stepped⟩ := bind_ok.1 stepped
    obtain ⟨_, isSuccess, stepped⟩ := bind_ok.1 stepped
    cases stepped
    have grows := splitSingleOnly_grows isSet
    cases success with
    | false => cases isSuccess
    | true => exact ⟨true, .set (readAt_eq_ok.1 atRef) grows, by simp⟩
  · cases returned
    exact .same heap

theorem trySliceShape_grows {shape : List Int} {splitDims : List Nat}
    (returned : trySliceShape ref shape splitSpecs splitDims heap = .ok result) : heaps.Grows heap result := by
  apply onProp_grows _ returned
  intro prop set isSet
  split at isSet
  · cases isSet
    exact .same prop
  split at isSet
  · cases isSet
    exact .same prop
  next noPostOps =>
    rw [Decidable.not_not] at noPostOps
    have grows := appendPostOps_grows noPostOps (List.cons_ne_nil (.shapeSlice splitDims splitSpecs) [])
    split at isSet
    · obtain ⟨extent, _, isSet⟩ := bind_ok.1 isSet
      split at isSet
      · cases isSet
        exact .same prop
      obtain ⟨divides, _, isSet⟩ := bind_ok.1 isSet
      split at isSet
      · cases isSet
        exact .same prop
      · cases isSet
        exact grows
    split at isSet
    · cases isSet
      exact grows
    · cases isSet
      exact .same prop

theorem Rule.run_grows {rule : Rule} (returned : rule.run heap = .ok result) : heaps.Grows heap result := by
  cases rule with
  | dimGroup props group => exact inferWithDimGroup_grows returned
  | trySplitSingleOnly ref dim => exact trySplitSingleOnly_grows returned
  | allInputsSingleSplitOnly props => exact inferWithAllInputsSingleSplitOnly_grows returned
  | splitAt ref dim spec isSet => exact onProp_grows (fun _ _ => splitAt_grows isSet) returned
  | splitSingleAt ref dim => exact onProp_grows (fun _ _ => splitSingleAt_grows) returned
  | trySliceShape ref shape splitSpecs splitDims => exact trySliceShape_grows returned
  | setShapeTensor ref splitSpecs => exact onProp_grows (fun _ _ => setShapeTensor_grows) returned
  | setShapeTensorSingleSplitOnly ref =>
    exact onProp_grows (fun _ _ => setShapeTensorSingleSplitOnly_grows) returned
  | setShapeOrSizeTensorWith ref rhs =>
    obtain ⟨other, _, returned⟩ := bind_ok.1 returned
    exact onProp_grows (fun _ _ => setShapeOrSizeTensorWith_grows) returned
  | setSizeTensor ref rhs =>
    obtain ⟨other, _, returned⟩ := bind_ok.1 returned
    apply onProp_grows _ returned
    intro prop set isSet
    cases isSet
    exact setSizeTensor_grows prop other
  | setSizeTensorSpec ref splitSpec =>
    apply onProp_grows _ returned
    intro prop set isSet
    cases isSet
    exact setSizeTensorSpec_grows prop splitSpec

theorem DoInfer.run_grows {program : DoInfer}
    (returned : program.run heap = .ok result) : heaps.Grows heap result := by
  induction program generalizing heap result with
  | done =>
    cases returned
    exact .same heap
  | fail failure => cases returned
  | apply rule counted next ih =>
    obtain ⟨⟨changed, after⟩, ran, returned⟩ := bind_ok.1 returned
    obtain ⟨⟨others, final⟩, rest, returned⟩ := bind_ok.1 returned
    cases returned
    apply ((Rule.run_grows ran).then (ih changed after rest)).weaken
    intro report
    rw [Bool.or_eq_true, Bool.and_eq_true] at report
    exact Bool.or_eq_true_iff.2 (report.imp_left And.right)

theorem alignSingleSplitStageOffsets_grows
    (returned : alignSingleSplitStageOffsets props heap = .ok result) : heaps.Grows heap result := by
  unfold alignSingleSplitStageOffsets at returned
  obtain ⟨all, _, returned⟩ := bind_ok.1 returned
  dsimp only at returned
  split at returned
  · cases returned
    exact .same heap
  · apply Growth.Grows.foldlM _ returned
    intro changed s ref _ next stepped
    unfold updateStageOffsets at stepped
    obtain ⟨prop, atRef, stepped⟩ := bind_ok.1 stepped
    split at stepped
    · obtain ⟨⟨report, set⟩, isSet, stepped⟩ := bind_ok.1 stepped
      cases stepped
      exact ⟨report, .set (readAt_eq_ok.1 atRef) (splitSingleOnly_grows isSet), id⟩
    · cases stepped
      exact ⟨false, .same s, by simp⟩

theorem infer_grows {doInfer : Heap → DoInfer}
    (returned : infer doInfer props heap = .ok result) : heaps.Grows heap result := by
  unfold infer at returned
  obtain ⟨⟨changed, inferred⟩, ran, returned⟩ := bind_ok.1 returned
  obtain ⟨⟨aligned, final⟩, rest, returned⟩ := bind_ok.1 returned
  cases returned
  exact (DoInfer.run_grows ran).then (alignSingleSplitStageOffsets_grows rest)

end Itex.XpuAutoShard.Hsp
