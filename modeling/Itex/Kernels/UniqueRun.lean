import Itex.Kernels.UniqueClasses

/-!
Contract: a run of the unique op whose first sort sorted.

Owns: the outputs of the run in terms of the order of the input and of the order of the runs.
-/

namespace Itex.Kernels.Unique

open Itex.Lib Itex.Utils

/-- The input index of the first item of a run. -/
def repOf (head : Nat → Bool) (n : Nat) (order : List Nat) (u : Nat) : Nat :=
  order.getD ((heads head n).getD u 0) 0

/-- What the op leaves in its outputs, by the order of the input indices and the order of the runs. -/
structure Computed (keyType : KeyType) (input : List (BitVec 32)) (order perm : List Nat) (out : Outputs) : Prop where
  isOrder : StableSorted (radixAt keyType input) (List.range input.length) order
  isPerm : StableSorted (repOf (headOf keyType input order) input.length order)
    (List.range (heads (headOf keyType input order) input.length).length) perm
  output : out.output = perm.map fun u => keyAt input (repOf (headOf keyType input order) input.length order u)
  lengthIdx : out.idx.length = input.length
  idx : ∀ p < input.length, out.idx[order.getD p 0]? =
    some (BitVec.ofNat 32 (perm.idxOf (runOf (headOf keyType input order) p)))
  lengthCount : out.count.length = perm.length
  count : ∀ i < perm.length, out.count[i]? = some (BitVec.ofNat 32
    ((List.range input.length).countP fun p =>
      runOf (headOf keyType input order) p = perm.getD i 0))

section Sizes

variable {head : Nat → Bool} {n : Nat}

theorem sizeAt_runEnds (first : head 0 = true) (small : n < 2 ^ 32) {u : Nat} (inside : u < (heads head n).length) :
    sizeAt ((runEnds head n).map (BitVec.ofNat 32)) u =
      BitVec.ofNat 32 ((List.range n).countP fun p => runOf head p = u) := by
  have few := @length_heads_le head n
  have lengthEnds := length_runEnds first (show 0 < n by omega)
  obtain ⟨start, isStart⟩ : ∃ start, (heads head n)[u]? = some start :=
    ⟨_, List.getElem?_eq_getElem inside⟩
  obtain ⟨stop, isStop⟩ : ∃ stop, (runEnds head n)[u]? = some stop :=
    ⟨_, List.getElem?_eq_getElem (by omega)⟩
  have fits := runEnds_le isStop
  have isEnd : ((runEnds head n).map (BitVec.ofNat 32)).getD u 0 = BitVec.ofNat 32 stop := by
    rw [List.getD_eq_getElem?_getD, List.getElem?_map, isStop]
    rfl
  have isBegin : (if u = 0 then 0 else ((runEnds head n).map (BitVec.ofNat 32)).getD (u - 1) 0) =
      BitVec.ofNat 32 start := by
    by_cases isFirst : u = 0
    · rw [isFirst, getElem?_heads_zero first (by omega)] at isStart
      rw [if_pos isFirst, ← Option.some.inj isStart]
      rfl
    · have isNext : u - 1 + 1 = u := by omega
      rw [if_neg isFirst, List.getD_eq_getElem?_getD, List.getElem?_map, getElem?_runEnds (by omega), isNext, isStart]
      rfl
  have nonempty : start ≤ stop := by
    have startBound : start < n :=
      List.mem_range.1 (List.mem_filter.1 (List.mem_of_getElem? isStart)).1
    have between := (runOf_eq_iff_between first startBound isStart isStop).1 (runOf_of_getElem? isStart)
    omega
  rw [countP_runOf first isStart isStop fits]
  unfold sizeAt
  rw [isEnd, isBegin]
  apply BitVec.eq_of_toNat_eq
  rw [BitVec.toNat_sub, toNat_ofNat (by omega), toNat_ofNat (by omega), toNat_ofNat (by omega)]
  omega

end Sizes

section Representatives

variable {head : Nat → Bool} {n : Nat} {order : List Nat} {key : Nat → Nat}

/-- The first output of the extraction: the input of the second sort. -/
def repsOf (head : Nat → Bool) (n : Nat) (order : List Nat) : List (BitVec 32) :=
  (heads head n).map fun p => (order.map (BitVec.ofNat 32)).getD p 0

theorem last_add_one (first : head 0 = true) (pos : 0 < n) (small : n < 2 ^ 32) :
    (BitVec.ofNat 32 (runOf head (n - 1)) + 1).toNat = (heads head n).length := by
  have few := @length_heads_le head n
  have some := length_heads_pos first (n - 1)
  rw [Nat.sub_add_cancel pos] at some
  have isLast : runOf head (n - 1) + 1 = (heads head n).length := by
    unfold runOf
    rw [Nat.sub_add_cancel pos]
    omega
  grind

theorem getD_heads_lt {u : Nat} (inside : u < (heads head n).length) : (heads head n).getD u 0 < n := by
  rw [List.getD_eq_getElem?_getD, List.getElem?_eq_getElem inside]
  exact List.mem_range.1 (List.mem_filter.1 (List.getElem_mem inside)).1

variable (isOrder : StableSorted key (List.range n) order)

include isOrder

theorem repOf_lt {u : Nat} (inside : u < (heads head n).length) : repOf head n order u < n :=
  isOrder.order_lt (getD_heads_lt inside)

theorem keyAt_repsOf {u : Nat} (inside : u < (heads head n).length) :
    keyAt (repsOf head n order) u = BitVec.ofNat 32 (repOf head n order u) := by
  have startBound := Nat.lt_of_lt_of_eq (getD_heads_lt inside) isOrder.length_order.symm
  unfold keyAt repsOf repOf
  rw [getD_map _ inside 0 0, getD_map _ startBound 0 0]

end Representatives

section Run

variable {deviceSort : DeviceRadixSort} {keyType : KeyType} {input : List (BitVec 32)}

theorem sortKey_ofNat {k : Nat} (small : k < 2 ^ 31) :
    (KeyType.int32.kind.convert false (BitVec.ofNat 32 k)).toNat = k + 2 ^ 31 := by
  have isBiased := KeyKind.toNat_convert_signed (w := 32) (by decide) (BitVec.ofNat 32 k)
  have isIndex : (BitVec.ofNat 32 k).toInt = k := by
    rw [BitVec.toInt_eq_toNat_of_lt (by rw [toNat_ofNat (by omega)]; omega), toNat_ofNat (by omega)]
  have isSigned : KeyType.int32.kind = .signed := rfl
  rw [isIndex] at isBiased
  rw [isSigned]
  omega

theorem sortKey_le_max (pair : Pair) : sortKey .int32 pair ≤ sortKey .int32 (KeyType.int32.maxValue, 0) := by
  have isMax : sortKey .int32 (KeyType.int32.maxValue, 0) = 2 ^ 32 - 1 := by decide
  have bound := (KeyType.int32.kind.convert false pair.1).isLt
  rw [isMax]
  exact Nat.le_sub_one_of_lt bound

theorem exists_perm (stable : IsStableSort deviceSort) (boxIds : Nat → BitVec 32) {head : Nat → Bool} {n : Nat}
    {order : List Nat} {key : Nat → Nat} (isOrder : StableSorted key (List.range n) order)
    (small : n ≤ 2 ^ 30) (nonempty : heads head n ≠ []) {keysOut indicesOut : List (BitVec 32)}
    (roomKeys : keysOut.length = (heads head n).length) (roomIndices : indicesOut.length = (heads head n).length) :
    ∃ perm, dispatchRadixSort deviceSort .int32 (repsOf head n order) boxIds keysOut indicesOut =
        .ok (perm.map (entryAt (repsOf head n order))) ∧
      StableSorted (repOf head n order) (List.range (heads head n).length) perm := by
  have length : (repsOf head n order).length = (heads head n).length := List.length_map _
  have isCons : repsOf head n order ≠ [] := by
    intro isNil
    rw [isNil] at length
    exact nonempty (List.length_eq_zero_iff.1 length.symm)
  obtain ⟨sorted, dispatched, isSorted⟩ := @dispatch_sorted deviceSort .int32 (repsOf head n order) keysOut
    indicesOut boxIds stable isCons (roomKeys.trans length.symm) (roomIndices.trans length.symm)
    (Or.inl rfl) (Or.inr fun pair _ => sortKey_le_max pair)
  obtain ⟨perm, isPerm, isMapped⟩ := exists_order isSorted
  rw [length] at isPerm
  refine ⟨perm, by rw [dispatched, isMapped], ?_⟩
  apply isPerm.of_add
  intro u listed
  have inside := List.mem_range.1 listed
  unfold radixAt
  rw [keyAt_repsOf isOrder inside, sortKey_ofNat]
  have := repOf_lt isOrder inside
  omega

/-- A vector whose first sort sorts has outputs, and they follow the two orders. -/
theorem compute_spec (stable : IsStableSort deviceSort) (uninit : Uninit) (nonempty : input ≠ [])
    (small : input.length ≤ 2 ^ 30) {sorted : List Pair}
    (dispatched : dispatchRadixSort deviceSort keyType input (uninit .itemBoxIds)
      (allocate uninit .sortedInput input.length) (allocate uninit .sortedInputInds input.length) = .ok sorted)
    (isSorted : StableSorted (sortKey keyType) (indexed input) sorted) :
    ∃ order perm out, compute deviceSort keyType uninit [input.length] input = .ok out ∧
      Computed keyType input order perm out := by
  obtain ⟨order, isOrder, isMapped⟩ := exists_order isSorted
  have lengthOrder := isOrder.length_order
  have pos : 0 < input.length := List.length_pos_of_ne_nil nonempty
  have first := @headOf_zero keyType input order
  have few := @length_heads_le (headOf keyType input order) input.length
  have someHeads : heads (headOf keyType input order) input.length ≠ [] := by
    have some := length_heads_pos first (input.length - 1)
    rw [Nat.sub_add_cancel pos] at some
    exact List.ne_nil_of_length_pos some
  have inds : sorted.map Prod.snd = order.map (BitVec.ofNat 32) := by
    rw [isMapped, List.map_map]
    rfl
  have ids := @uniqueIds_eq keyType input order (allocate uninit .sortedInputUniqueIds input.length)
    (by omega) (by rw [length_allocate, lengthOrder])
  rw [← isMapped, lengthOrder] at ids
  have extracted := @extract_eq (headOf keyType input order) input.length (order.map (BitVec.ofNat 32)) first
    (by omega) (by rw [List.length_map, lengthOrder]) pos
    (allocate uninit .uniqueInputInds (heads (headOf keyType input order) input.length).length,
      allocate uninit .segmentEnds (heads (headOf keyType input order) input.length).length)
    (length_allocate ..) (length_allocate ..)
  obtain ⟨perm, permuted, isPerm⟩ := @exists_perm deviceSort stable (uninit .uniqueItemBoxIds)
    (headOf keyType input order) _ _ _ isOrder small someHeads
    (allocate uninit .sortedUniqueInputInds (heads (headOf keyType input order) input.length).length)
    (allocate uninit .sortedUniquePerm (heads (headOf keyType input order) input.length).length)
    (length_allocate ..) (length_allocate ..)
  obtain ⟨gathered, isGathered, holds⟩ := @gather_spec input
    (repsOf (headOf keyType input order) input.length order)
    ((runEnds (headOf keyType input order) input.length).map (BitVec.ofNat 32)) perm _ _ isPerm (by omega)
    (fun u inside => by
      have fits := repOf_lt isOrder inside
      rw [keyAt_repsOf isOrder inside, toNat_ofNat (by omega)]
      exact fits)
    (by rw [List.length_map, length_runEnds first pos])
    { output := allocate uninit .output (heads (headOf keyType input order) input.length).length
      invSortedUniquePerm :=
        allocate uninit .invSortedUniquePerm (heads (headOf keyType input order) input.length).length
      count := allocate uninit .count (heads (headOf keyType input order) input.length).length }
    (length_allocate ..) (length_allocate ..) (length_allocate ..)
  have lengthPerm := isPerm.length_order
  obtain ⟨idx, isIdx, lengthIdx, scattered⟩ := @lookup_spec order _ input.length (headOf keyType input order)
    gathered.invSortedUniquePerm (fun u => perm.idxOf u) isOrder (by omega) first
    (fun u inside => by
      obtain ⟨i, bound, isU⟩ := isPerm.exists_order_eq inside
      have listed : u ∈ perm := isPerm.perm.mem_iff.2 (List.mem_range.2 inside)
      have isPlace : perm.getD (perm.idxOf u) 0 = u := by
        rw [List.getD_eq_getElem?_getD, List.getElem?_idxOf listed]
        rfl
      have below := List.idxOf_lt_length_of_mem listed
      rw [lengthPerm] at below
      have atPlace := holds.inv _ below
      rwa [isPlace] at atPlace)
    _ (length_allocate uninit .idx input.length)
  refine ⟨order, perm, { output := gathered.output, idx, count := gathered.count }, ?_, ?_⟩
  · unfold compute
    rw [if_neg (by omega)]
    simp only [List.length_singleton, ne_eq, not_true_eq_false, if_false, bind, Except.bind, pure,
      Except.pure, if_neg (Nat.ne_of_gt pos), dispatched, ids, inds,
      load_idsOf (show input.length - 1 < input.length by omega),
      last_add_one first pos (show input.length < 2 ^ 32 by omega), extracted]
    rw [show ((heads (headOf keyType input order) input.length).map
      fun p => (order.map (BitVec.ofNat 32)).getD p 0) = repsOf _ input.length order from rfl, permuted]
    simp only [isGathered, isIdx]
  · exact {
      isOrder
      isPerm
      output := by
        apply List.ext_getElem?
        intro i
        by_cases bound : i < (heads (headOf keyType input order) input.length).length
        · have inRange := isPerm.order_lt bound
          have fits := repOf_lt isOrder inRange
          rw [holds.output i bound, List.getElem?_map, isPerm.getElem?_order bound,
            keyAt_repsOf isOrder inRange, toNat_ofNat (by omega)]
          rfl
        · rw [List.getElem?_eq_none (by rw [holds.lengthOutput]; omega),
            List.getElem?_eq_none (by rw [List.length_map]; omega)]
      lengthIdx
      idx := scattered
      lengthCount := holds.lengthCount.trans lengthPerm.symm
      count := by
        intro i bound
        rw [lengthPerm] at bound
        rw [holds.count i bound, sizeAt_runEnds first (by omega) (isPerm.order_lt bound)] }

end Run

end Itex.Kernels.Unique
