import Itex.Kernels.UniqueRun

/-!
Contract: what the outputs of the unique op mean.

Owns: first appearances, that the ids and counts fit the output values for both key types, and
when the values are in order of first appearance.
-/

namespace Itex.Kernels.Unique

open Itex.Lib Itex.Utils

variable {j k u : Nat}

/-- The positions at which a value appears that is not before them. -/
def firstAppearances (keyType : KeyType) (input : List (BitVec 32)) : List Nat :=
  (List.range input.length).filter fun k =>
    (List.range k).all fun j => !keyType.equal (keyAt input j) (keyAt input k)

/-- The distinct values in order of first appearance, the place of each item's value among them, and
how many items have it. -/
structure IsUnique (keyType : KeyType) (input : List (BitVec 32)) (out : Outputs) : Prop where
  values : List.Forall₂ (fun value k => keyType.equal value (keyAt input k) = true) out.output
    (firstAppearances keyType input)
  lengthIdx : out.idx.length = input.length
  idx : ∀ k < input.length, ∃ place value, out.idx[k]? = some place ∧
    out.output[place.toNat]? = some value ∧ keyType.equal value (keyAt input k) = true
  lengthCount : out.count.length = out.output.length
  count : ∀ j < out.output.length, ∃ count, out.count[j]? = some count ∧
    count.toNat = out.idx.countP fun place => place.toNat = j

theorem forall₂_iff_eq_map {α β : Type} {related : α → β → Prop} (form : β → α) {first : List α}
    {second : List β} (functional : ∀ a ∈ first, ∀ b ∈ second, related a b ↔ a = form b) :
    List.Forall₂ related first second ↔ first = second.map form := by
  induction first generalizing second with
  | nil =>
    simp [List.forall₂_nil_left_iff]
  | cons head tail ih =>
    cases second with
    | nil => simp
    | cons head' tail' =>
      simp_all

theorem pairwise_iff_of_increasing {related : Nat → Nat → Prop} {list : List Nat}
    (increasing : list.Pairwise fun first second => first < second) :
    list.Pairwise related ↔ ∀ first ∈ list, ∀ second ∈ list, first < second → related first second := by
  constructor
  · intro inOrder first inFirst second inSecond less
    obtain ⟨i, boundI, isFirst⟩ := List.mem_iff_getElem.1 inFirst
    obtain ⟨j, boundJ, isSecond⟩ := List.mem_iff_getElem.1 inSecond
    rcases Nat.lt_trichotomy i j with before | same | behind
    · rw [← isFirst, ← isSecond]
      exact List.pairwise_iff_getElem.1 inOrder i j boundI boundJ before
    · have sameItem : first = second := by
        rw [← isFirst, ← isSecond]
        congr
      omega
    · have reversed := List.pairwise_iff_getElem.1 increasing j i boundJ boundI behind
      omega
  · intro all
    apply increasing.imp_of_mem
    intro first second inFirst inSecond less
    exact all first inFirst second inSecond less

section Meaning

variable {keyType : KeyType} {input : List (BitVec 32)} {order perm : List Nat} {out : Outputs}
  (numbers : ∀ key ∈ input, keyType.isNaN key = false) (small : input.length ≤ 2 ^ 30)
  (computed : Computed keyType input order perm out)

/-! ## Classes -/

/-- The run of an input index. -/
def classAt (keyType : KeyType) (input : List (BitVec 32)) (order : List Nat) (k : Nat) : Nat :=
  runOf (headOf keyType input order) (order.idxOf k)

/-- The first item of the run of an input index. -/
def repAt (keyType : KeyType) (input : List (BitVec 32)) (order : List Nat) (k : Nat) : Nat :=
  repOf (headOf keyType input order) input.length order (classAt keyType input order k)

include computed

theorem Computed.place_of_index (bound : k < input.length) :
    order.idxOf k < input.length ∧ order.getD (order.idxOf k) 0 = k := by
  have listed : k ∈ order := computed.isOrder.perm.mem_iff.2 (List.mem_range.2 bound)
  refine ⟨computed.isOrder.length_order ▸ List.idxOf_lt_length_of_mem listed, ?_⟩
  rw [List.getD_eq_getElem?_getD, List.getElem?_idxOf listed]
  rfl

theorem Computed.classAt_order {p : Nat} (bound : p < input.length) :
    classAt keyType input order (order.getD p 0) = runOf (headOf keyType input order) p := by
  have inRange := computed.isOrder.order_lt bound
  obtain ⟨placeBound, isSame⟩ := computed.place_of_index inRange
  unfold classAt
  rw [computed.isOrder.order_injective placeBound bound isSame]

theorem Computed.classAt_lt (bound : k < input.length) :
    classAt keyType input order k < (heads (headOf keyType input order) input.length).length :=
  runOf_lt headOf_zero (computed.place_of_index bound).1

theorem Computed.length_perm : perm.length = (heads (headOf keyType input order) input.length).length :=
  computed.isPerm.length_order

include numbers in
theorem Computed.classAt_eq_iff (boundJ : j < input.length) (boundK : k < input.length) :
    classAt keyType input order j = classAt keyType input order k ↔
      rankAt keyType input j = rankAt keyType input k := by
  obtain ⟨placeJ, isJ⟩ := computed.place_of_index boundJ
  obtain ⟨placeK, isK⟩ := computed.place_of_index boundK
  have isRuns := runOf_headOf_eq_iff numbers computed.isOrder placeJ placeK
  rwa [isJ, isK] at isRuns

theorem Computed.classAt_repOf (inside : u < (heads (headOf keyType input order) input.length).length) :
    classAt keyType input order (repOf (headOf keyType input order) input.length order u) = u := by
  have startBound := getD_heads_lt inside
  unfold repOf
  rw [computed.classAt_order startBound, List.getD_eq_getElem?_getD, List.getElem?_eq_getElem inside]
  exact runOf_of_getElem? (List.getElem?_eq_getElem inside)

theorem Computed.repAt_lt (bound : k < input.length) : repAt keyType input order k < input.length :=
  repOf_lt computed.isOrder (computed.classAt_lt bound)

include numbers in
theorem Computed.rankAt_repAt (bound : k < input.length) :
    rankAt keyType input (repAt keyType input order k) = rankAt keyType input k := by
  rw [← computed.classAt_eq_iff numbers (computed.repAt_lt bound) bound]
  exact computed.classAt_repOf (computed.classAt_lt bound)

include numbers in
/-- The representative comes before the rest of its class in the order of the sort. -/
theorem Computed.repAt_first (boundJ : j < input.length) (boundK : k < input.length)
    (same : rankAt keyType input j = rankAt keyType input k) :
    radixAt keyType input (repAt keyType input order k) < radixAt keyType input j ∨
      (radixAt keyType input (repAt keyType input order k) = radixAt keyType input j ∧
        repAt keyType input order k ≤ j) := by
  obtain ⟨placeBound, isJ⟩ := computed.place_of_index boundJ
  have sameClass := (computed.classAt_eq_iff numbers boundJ boundK).2 same
  have inside := computed.classAt_lt boundK
  have startLe : (heads (headOf keyType input order) input.length).getD (classAt keyType input order k) 0 ≤
      order.idxOf j := by
    rw [List.getD_eq_getElem?_getD, List.getElem?_eq_getElem inside]
    apply (head_le_iff headOf_zero (List.getElem?_eq_getElem inside)).2
    exact Nat.le_of_eq sameClass.symm
  unfold repAt repOf
  rcases Nat.lt_or_eq_of_le startLe with before | isStart
  · have lex := computed.isOrder.order_lex before placeBound
    rw [isJ] at lex
    exact lex.imp_right fun both => ⟨both.1, Nat.le_of_lt both.2⟩
  · rw [isStart, isJ]
    exact Or.inr ⟨rfl, Nat.le_refl j⟩

theorem Computed.idx_index (bound : k < input.length) :
    out.idx[k]? = some (BitVec.ofNat 32 (perm.idxOf (classAt keyType input order k))) := by
  obtain ⟨placeBound, isK⟩ := computed.place_of_index bound
  have written := computed.idx _ placeBound
  rwa [isK] at written

theorem Computed.getElem?_output (inside : u < (heads (headOf keyType input order) input.length).length) :
    out.output[perm.idxOf u]? = some (keyAt input (repOf (headOf keyType input order) input.length order u)) := by
  have listed : u ∈ perm := computed.isPerm.perm.mem_iff.2 (List.mem_range.2 inside)
  rw [computed.output, List.getElem?_map, List.getElem?_idxOf listed]
  rfl

include small in
theorem Computed.idxOf_lt (inside : u < (heads (headOf keyType input order) input.length).length) :
    perm.idxOf u < perm.length ∧ perm.idxOf u < 2 ^ 32 := by
  have listed : u ∈ perm := computed.isPerm.perm.mem_iff.2 (List.mem_range.2 inside)
  have below := List.idxOf_lt_length_of_mem listed
  have few := @length_heads_le (headOf keyType input order) input.length
  have length := computed.length_perm
  omega

include numbers small in
theorem Computed.idx_spec (bound : k < input.length) :
    ∃ place value, out.idx[k]? = some place ∧ out.output[place.toNat]? = some value ∧
      keyType.equal value (keyAt input k) = true := by
  have inside := computed.classAt_lt bound
  refine ⟨_, keyAt input (repAt keyType input order k), computed.idx_index bound, ?_, ?_⟩
  · rw [toNat_ofNat (computed.idxOf_lt small inside).2]
    exact computed.getElem?_output inside
  · rw [equal_keyAt_iff numbers (computed.repAt_lt bound) bound]
    exact computed.rankAt_repAt numbers bound

include small in
theorem Computed.countP_idx {i : Nat} (bound : i < perm.length) : out.idx.countP (fun place => place.toNat = i) =
      (List.range input.length).countP fun p => runOf (headOf keyType input order) p = perm.getD i 0 := by
  have isIdx : out.idx = (List.range input.length).map fun k =>
      BitVec.ofNat 32 (perm.idxOf (classAt keyType input order k)) := by
    apply List.ext_getElem?
    intro k
    by_cases inside : k < input.length
    · rw [computed.idx_index inside, List.getElem?_map, List.getElem?_range inside]
      rfl
    · rw [List.getElem?_eq_none (by rw [computed.lengthIdx]; omega), List.getElem?_eq_none (by simp; omega)]
  rw [isIdx, List.countP_map, computed.isOrder.countP_order]
  apply List.countP_congr
  intro p listed
  have inside := List.mem_range.1 listed
  have isRun := computed.classAt_order inside
  have ofRun : runOf (headOf keyType input order) p <
      (heads (headOf keyType input order) input.length).length := runOf_lt headOf_zero inside
  simp only [Function.comp_apply, decide_eq_true_eq, isRun, toNat_ofNat (computed.idxOf_lt small ofRun).2]
  have runListed : runOf (headOf keyType input order) p ∈ perm :=
    computed.isPerm.perm.mem_iff.2 (List.mem_range.2 ofRun)
  have atPlace : perm.getD (perm.idxOf (runOf (headOf keyType input order) p)) 0 =
      runOf (headOf keyType input order) p := by
    rw [List.getD_eq_getElem?_getD, List.getElem?_idxOf runListed]
    rfl
  constructor
  · intro isPlace
    rw [← isPlace, atPlace]
  · intro isRun
    rw [← atPlace] at isRun
    have length := computed.length_perm
    exact computed.isPerm.order_injective (by have := (computed.idxOf_lt small ofRun).1; omega) (by omega) isRun

include small in
theorem Computed.count_spec (bound : j < out.output.length) : ∃ count, out.count[j]? = some count ∧
      count.toNat = out.idx.countP fun place => place.toNat = j := by
  rw [computed.output, List.length_map] at bound
  refine ⟨_, computed.count j bound, ?_⟩
  have few := @List.countP_le_length _ (fun p => decide (runOf (headOf keyType input order) p = perm.getD j 0))
    (List.range input.length)
  rw [List.length_range] at few
  rw [computed.countP_idx small bound, toNat_ofNat (by omega)]

omit computed in
include numbers in
theorem mem_firstAppearances : k ∈ firstAppearances keyType input ↔
    k < input.length ∧ ∀ j < k, rankAt keyType input j ≠ rankAt keyType input k := by
  unfold firstAppearances
  rw [List.mem_filter, List.mem_range, List.all_eq_true]
  apply and_congr_right
  intro bound
  have isEqual : ∀ j < k, (!keyType.equal (keyAt input j) (keyAt input k)) = true ↔
      rankAt keyType input j ≠ rankAt keyType input k := by
    intro j before
    rw [Bool.not_eq_true', ← Bool.not_eq_true, equal_keyAt_iff numbers (Nat.lt_trans before bound) bound]
  exact ⟨fun all j before => (isEqual j before).1 (all j (List.mem_range.2 before)),
    fun all j listed => (isEqual j (List.mem_range.1 listed)).2 (all j (List.mem_range.1 listed))⟩

omit computed in
include numbers in
theorem exists_firstAppearance (bound : k < input.length) :
    ∃ first ∈ firstAppearances keyType input, first ≤ k ∧ rankAt keyType input first = rankAt keyType input k := by
  classical
  have some : ∃ j, j ≤ k ∧ rankAt keyType input j = rankAt keyType input k := ⟨k, Nat.le_refl k, rfl⟩
  obtain ⟨le, same⟩ := Nat.find_spec some
  refine ⟨Nat.find some, (mem_firstAppearances numbers).2 ⟨Nat.lt_of_le_of_lt le bound, ?_⟩, le, same⟩
  intro j before isSame
  exact Nat.find_min some before ⟨by omega, isSame.trans same⟩

omit computed in
include numbers in
theorem firstAppearance_unique {first second : Nat} (isFirst : first ∈ firstAppearances keyType input)
    (isSecond : second ∈ firstAppearances keyType input)
    (same : rankAt keyType input first = rankAt keyType input second) : first = second := by
  have ofFirst := ((mem_firstAppearances numbers).1 isFirst).2
  have ofSecond := ((mem_firstAppearances numbers).1 isSecond).2
  grind

include numbers in
theorem Computed.classes_perm : ((firstAppearances keyType input).map (classAt keyType input order)).Perm perm := by
  have nodupFirsts : (firstAppearances keyType input).Nodup := List.nodup_range.filter _
  have nodupPerm : perm.Nodup := computed.isPerm.perm.nodup_iff.2 List.nodup_range
  apply (List.perm_ext_iff_of_nodup _ nodupPerm).2
  · intro u
    rw [List.mem_map, computed.isPerm.perm.mem_iff, List.mem_range]
    constructor
    · intro listed
      obtain ⟨k, isFirst, isClass⟩ := listed
      rw [← isClass]
      exact computed.classAt_lt ((mem_firstAppearances numbers).1 isFirst).1
    · intro inside
      have repBound := repOf_lt computed.isOrder inside
      obtain ⟨first, isFirst, _, same⟩ := exists_firstAppearance numbers repBound
      refine ⟨first, isFirst, ?_⟩
      rw [(computed.classAt_eq_iff numbers ((mem_firstAppearances numbers).1 isFirst).1 repBound).2 same]
      exact computed.classAt_repOf inside
  · apply List.Nodup.map_on _ nodupFirsts
    intro first isFirst second isSecond sameClass
    apply firstAppearance_unique numbers isFirst isSecond
    rwa [← computed.classAt_eq_iff numbers ((mem_firstAppearances numbers).1 isFirst).1
      ((mem_firstAppearances numbers).1 isSecond).1]

include numbers in
theorem Computed.values_iff : List.Forall₂ (fun value k => keyType.equal value (keyAt input k) = true) out.output
        (firstAppearances keyType input) ↔
      ∀ first ∈ firstAppearances keyType input, ∀ second ∈ firstAppearances keyType input,
        first < second → repAt keyType input order first < repAt keyType input order second := by
  have inOrder : perm.Pairwise fun u v => repOf (headOf keyType input order) input.length order u <
      repOf (headOf keyType input order) input.length order v := by
    have apart : ∀ u ∈ perm, ∀ v ∈ perm, repOf (headOf keyType input order) input.length order u =
        repOf (headOf keyType input order) input.length order v → u = v := by
      intro u listedU v listedV same
      rw [computed.isPerm.perm.mem_iff, List.mem_range] at listedU listedV
      rw [← computed.classAt_repOf listedU, same, computed.classAt_repOf listedV]
    have nodup : perm.Nodup := computed.isPerm.perm.nodup_iff.2 List.nodup_range
    apply (computed.isPerm.ordered.and nodup).imp_of_mem
    intro u v listedU listedV both
    exact Nat.lt_of_le_of_ne both.1 fun same => both.2 (apart u listedU v listedV same)
  have classes := computed.classes_perm numbers
  have matching : List.Forall₂ (fun value k => keyType.equal value (keyAt input k) = true) out.output
      (firstAppearances keyType input) ↔
      perm = (firstAppearances keyType input).map (classAt keyType input order) := by
    rw [computed.output, List.forall₂_map_left_iff]
    apply forall₂_iff_eq_map
    intro u listed k isFirst
    have inside := List.mem_range.1 (computed.isPerm.perm.mem_iff.1 listed)
    have repBound := repOf_lt computed.isOrder inside
    have bound := ((mem_firstAppearances numbers).1 isFirst).1
    rw [equal_keyAt_iff numbers repBound bound, ← computed.classAt_eq_iff numbers repBound bound,
      computed.classAt_repOf inside]
  have increasing : (firstAppearances keyType input).Pairwise fun first second => first < second :=
    List.pairwise_lt_range.filter _
  rw [matching, ← pairwise_iff_of_increasing increasing]
  constructor
  · intro isPerm
    rw [isPerm, List.pairwise_map] at inOrder
    exact inOrder
  · intro inRepOrder
    apply classes.symm.eq_of_pairwise _ inOrder (List.pairwise_map.2 inRepOrder)
    intro u v _ _ less more
    exact absurd less (Nat.lt_asymm more)

end Meaning

end Itex.Kernels.Unique
