import Itex.Kernels.GroupScan
import Itex.Lib.StableSort

/-!
Contract: the ranks of the keys of one work group by one digit (`utils/group_radix_rank.h`).

Owns: the packed counters, their scan, and that a key's rank is its place in the stable
distribution by the digit.
-/

namespace Itex.Kernels

open Finset Itex.Lib

variable {half index key : Nat}

/-- The template parameters; a packed counter holds two counters (`PACKING_RATIO`). -/
structure GroupRadixRank where
  groupScan : GroupScan
  keysPerItem : Nat
  /-- `LOG_COUNTER_LANES`: the radix bits but one. -/
  laneBits : Nat

namespace GroupRadixRank

def groupSize (rank : GroupRadixRank) : Nat := rank.groupScan.groupSize

def counterLanes (rank : GroupRadixRank) : Nat := 2 ^ rank.laneBits

def radixBuckets (rank : GroupRadixRank) : Nat := 2 ^ (rank.laneBits + 1)

def bucketToPosition (rank : GroupRadixRank) (bucket localId : Nat) : Nat :=
  ((bucket % rank.counterLanes * rank.groupSize + localId) * 2 + bucket / rank.counterLanes) % 2 ^ 16

/-- The counters and each key's rank among those its work item has counted. A work item counts its
keys in order and touches no counter of another, so one loop over all keys does the same. -/
def countKeys (position : Nat → Nat) (numKeys : Nat) : (Nat → Nat) × List Nat :=
  (List.range numKeys).foldl
    (fun state key => (Function.update state.1 (position key) ((state.1 (position key) + 1) % 2 ^ 16),
      state.2 ++ [state.1 (position key)]))
    (fun _ => 0, [])

def packed (counters : Nat → Nat) (index : Nat) : BitVec 32 :=
  BitVec.ofNat 32 (counters (index * 2) + 2 ^ 16 * counters (index * 2 + 1))

/-- `PrefixCallBack`: the sum of the low counters goes in front of the high ones. -/
def prefixCallBack (groupSum : BitVec 32) : BitVec 32 := 0#32 + groupSum <<< 16

/-- The packed counters of a work item up to a lane, added to `start`. -/
def laneSum (rank : GroupRadixRank) (counters : Nat → Nat) (localId lanes : Nat) (start : BitVec 32) : BitVec 32 :=
  (List.range lanes).foldl
    (fun sum lane => sum + packed counters (localId * rank.counterLanes + lane)) start

def scanCounters (rank : GroupRadixRank) (counters : Nat → Nat) : Nat → Nat :=
  let itemSum := fun localId => rank.laneSum counters localId rank.counterLanes 0
  let itemExclusive := rank.groupScan.exclusiveSumWith itemSum prefixCallBack
  fun position =>
    let index := position / 2
    let scanned := rank.laneSum counters (index / rank.counterLanes) (index % rank.counterLanes)
      (itemExclusive (index / rank.counterLanes))
    scanned.toNat / 2 ^ (16 * (position % 2)) % 2 ^ 16

def counterPos (rank : GroupRadixRank) (buckets : List Nat) (key : Nat) : Nat :=
  rank.bucketToPosition (buckets.getD key 0) (key / rank.keysPerItem)

/-- `RankKeys`, on the buckets of the keys of all work items. -/
def rankKeys (rank : GroupRadixRank) (buckets : List Nat) : List Nat :=
  let counted := countKeys (rank.counterPos buckets) buckets.length
  let scanned := rank.scanCounters counted.1
  counted.2.mapIdx fun key localRank => (localRank + scanned (rank.counterPos buckets key)) % 2 ^ 16

/-- How many of the first `numKeys` keys count at a position. -/
def keysAt (position : Nat → Nat) (numKeys : Nat) (k : Nat) : Nat :=
  ∑ key ∈ range numKeys, if position key = k then 1 else 0

theorem keysAt_succ (position : Nat → Nat) (numKeys k : Nat) : keysAt position (numKeys + 1) k =
      keysAt position numKeys k + if position numKeys = k then 1 else 0 :=
  sum_range_succ _ _

theorem keysAt_le (position : Nat → Nat) (numKeys k : Nat) : keysAt position numKeys k ≤ numKeys := by
  induction numKeys with
  | zero => exact Nat.le_refl 0
  | succ numKeys ih =>
    rw [keysAt_succ]
    split <;> omega

theorem countKeys_eq (position : Nat → Nat) {numKeys : Nat} (small : numKeys < 2 ^ 16) :
    countKeys position numKeys = (keysAt position numKeys,
      (List.range numKeys).map fun key => keysAt position key (position key)) := by
  induction numKeys with
  | zero => rfl
  | succ numKeys ih =>
    have before := ih (by omega)
    unfold countKeys at before ⊢
    rw [List.range_succ, List.foldl_append, before, List.foldl_cons, List.foldl_nil, List.map_append]
    refine Prod.ext ?_ rfl
    funext k
    have bounded := keysAt_le position numKeys (position numKeys)
    show Function.update (keysAt position numKeys) (position numKeys)
      ((keysAt position numKeys (position numKeys) + 1) % 2 ^ 16) k = keysAt position (numKeys + 1) k
    rw [keysAt_succ]
    grind

section Scan

variable (rank : GroupRadixRank) (counters : Nat → Nat)

theorem laneSum_eq (localId lanes : Nat) (start : BitVec 32) : rank.laneSum counters localId lanes start =
      start + ∑ lane ∈ range lanes, packed counters (localId * rank.counterLanes + lane) :=
  foldl_add_eq_sum _ _ _

theorem sum_itemSums (localId : Nat) : ∑ j ∈ range localId, rank.laneSum counters j rank.counterLanes 0 =
      ∑ index ∈ range (localId * rank.counterLanes), packed counters index := by
  induction localId with
  | zero => simp
  | succ localId ih =>
    rw [sum_range_succ, ih, laneSum_eq, zero_add, Nat.add_mul, Nat.one_mul, sum_range_add]

theorem scanned_eq (pos : 0 < rank.groupScan.subGroupSize)
    (inside : index < rank.groupSize * rank.counterLanes) :
    rank.laneSum counters (index / rank.counterLanes) (index % rank.counterLanes)
        (rank.groupScan.exclusiveSumWith (fun localId => rank.laneSum counters localId rank.counterLanes 0)
          prefixCallBack (index / rank.counterLanes)) =
      prefixCallBack (∑ index ∈ range (rank.groupSize * rank.counterLanes), packed counters index) +
        ∑ index' ∈ range index, packed counters index' := by
  have lanesPositive : 0 < rank.counterLanes := Nat.two_pow_pos _
  have itemInside : index / rank.counterLanes < rank.groupScan.groupSize :=
    (Nat.div_lt_iff_lt_mul lanesPositive).2 inside
  rw [rank.groupScan.exclusiveSumWith_eq _ pos prefixCallBack itemInside, sum_itemSums,
    sum_itemSums, laneSum_eq, add_assoc, ← sum_range_add, Nat.div_add_mod']
  rfl

theorem sum_packed (count : Nat) : ∑ index ∈ range count, packed counters index =
      BitVec.ofNat 32 ((∑ index ∈ range count, counters (index * 2)) +
        2 ^ 16 * ∑ index ∈ range count, counters (index * 2 + 1)) := by
  rw [mul_sum, ← sum_add_distrib]
  induction count with
  | zero => rfl
  | succ count ih =>
    rw [sum_range_succ, ih, sum_range_succ, BitVec.ofNat_add]
    rfl

theorem scanCounters_eq (pos : 0 < rank.groupScan.subGroupSize)
    (inside : index < rank.groupSize * rank.counterLanes) (isHalf : half < 2)
    (fits : (∑ index ∈ range (rank.groupSize * rank.counterLanes), counters (index * 2)) +
      ∑ index ∈ range (rank.groupSize * rank.counterLanes), counters (index * 2 + 1) < 2 ^ 16) :
    rank.scanCounters counters (index * 2 + half) =
      (if half = 1 then ∑ index ∈ range (rank.groupSize * rank.counterLanes), counters (index * 2)
        else 0) + ∑ index' ∈ range index, counters (index' * 2 + half) := by
  unfold scanCounters
  dsimp only
  have isIndex : (index * 2 + half) / 2 = index := by omega
  have isRemainder : (index * 2 + half) % 2 = half := by omega
  rw [isIndex, isRemainder, scanned_eq rank counters pos inside, sum_packed, sum_packed]
  have lowLe : ∑ index' ∈ range index, counters (index' * 2) ≤
      ∑ index ∈ range (rank.groupSize * rank.counterLanes), counters (index * 2) :=
    sum_le_sum_of_subset (range_subset_range.2 (Nat.le_of_lt inside))
  have highLe : ∑ index' ∈ range index, counters (index' * 2 + 1) ≤
      ∑ index ∈ range (rank.groupSize * rank.counterLanes), counters (index * 2 + 1) :=
    sum_le_sum_of_subset (range_subset_range.2 (Nat.le_of_lt inside))
  generalize (∑ index ∈ range (rank.groupSize * rank.counterLanes), counters (index * 2)) = lows at *
  generalize (∑ index ∈ range (rank.groupSize * rank.counterLanes), counters (index * 2 + 1)) = highs at *
  have isWord : (prefixCallBack (BitVec.ofNat 32 (lows + 2 ^ 16 * highs)) +
      BitVec.ofNat 32 ((∑ index' ∈ range index, counters (index' * 2)) +
        2 ^ 16 * ∑ index' ∈ range index, counters (index' * 2 + 1))).toNat =
      (∑ index' ∈ range index, counters (index' * 2)) +
        2 ^ 16 * (lows + ∑ index' ∈ range index, counters (index' * 2 + 1)) := by
    unfold prefixCallBack
    rw [BitVec.toNat_add, BitVec.zero_add, BitVec.toNat_shiftLeft, BitVec.toNat_ofNat, BitVec.toNat_ofNat,
      Nat.shiftLeft_eq]
    omega
  rw [isWord]
  rcases (by omega : half = 0 ∨ half = 1) with isLow | isHigh
  · simp only [isLow, Nat.add_zero, Nat.mul_zero, pow_zero, Nat.div_one, Nat.zero_add, if_neg Nat.zero_ne_one]
    omega
  · rw [isHigh, if_pos rfl, Nat.mul_one, Nat.add_mul_div_left _ _ (by decide)]
    omega

end Scan

/-! ## Ranks -/

theorem mul_add_lt_iff {base high low high' low' : Nat} (inside : low < base) (inside' : low' < base) :
    high * base + low < high' * base + low' ↔ high < high' ∨ (high = high' ∧ low < low') := by
  rcases Nat.lt_trichotomy high high' with less | same | more
  · have step := Nat.mul_le_mul_right base less
    rw [Nat.succ_mul] at step
    omega
  · rw [same]
    omega
  · have step := Nat.mul_le_mul_right base more
    rw [Nat.succ_mul] at step
    omega

theorem mul_add_eq_iff {base high low high' low' : Nat} (inside : low < base) (inside' : low' < base) :
    high * base + low = high' * base + low' ↔ high = high' ∧ low = low' := by
  have less : high * base + low < high' * base + low' ↔ _ := mul_add_lt_iff inside inside'
  have more : high' * base + low' < high * base + low ↔ _ := mul_add_lt_iff inside' inside
  omega

/-- The counters are wide enough for the keys, and there is a work item for each key. -/
structure Holds (rank : GroupRadixRank) (numKeys : Nat) : Prop where
  subGroup : 0 < rank.groupScan.subGroupSize
  items : 0 < rank.keysPerItem
  keys : numKeys ≤ rank.groupSize * rank.keysPerItem
  counter : numKeys < 2 ^ 16
  positions : rank.counterLanes * rank.groupSize * 2 ≤ 2 ^ 16

section Ranks

variable {rank : GroupRadixRank} {buckets : List Nat}

/-- The packed counter a key counts in. -/
def packedIndex (rank : GroupRadixRank) (buckets : List Nat) (key : Nat) : Nat :=
  buckets.getD key 0 % rank.counterLanes * rank.groupSize + key / rank.keysPerItem

theorem localId_lt (holds : rank.Holds buckets.length) (bound : key < buckets.length) :
    key / rank.keysPerItem < rank.groupSize :=
  (Nat.div_lt_iff_lt_mul holds.items).2 (Nat.lt_of_lt_of_le bound holds.keys)

theorem half_lt (rank : GroupRadixRank) {bucket : Nat} (inside : bucket < rank.radixBuckets) : bucket / rank.counterLanes < 2 := by
  apply (Nat.div_lt_iff_lt_mul (Nat.two_pow_pos _)).2
  unfold radixBuckets at inside
  exact Nat.lt_of_lt_of_eq inside (Nat.pow_succ')

theorem bucket_lt_iff (rank : GroupRadixRank) (bucket bucket' : Nat) :
    bucket < bucket' ↔ bucket / rank.counterLanes < bucket' / rank.counterLanes ∨
      (bucket / rank.counterLanes = bucket' / rank.counterLanes ∧
        bucket % rank.counterLanes < bucket' % rank.counterLanes) := by
  have lane := Nat.mod_lt bucket (Nat.two_pow_pos rank.laneBits)
  have lane' := Nat.mod_lt bucket' (Nat.two_pow_pos rank.laneBits)
  unfold counterLanes
  rw [← mul_add_lt_iff lane lane', Nat.div_add_mod', Nat.div_add_mod']

theorem bucket_eq_iff (rank : GroupRadixRank) (bucket bucket' : Nat) :
    bucket = bucket' ↔ bucket / rank.counterLanes = bucket' / rank.counterLanes ∧
      bucket % rank.counterLanes = bucket' % rank.counterLanes := by
  have lane := Nat.mod_lt bucket (Nat.two_pow_pos rank.laneBits)
  have lane' := Nat.mod_lt bucket' (Nat.two_pow_pos rank.laneBits)
  unfold counterLanes
  rw [← mul_add_eq_iff lane lane', Nat.div_add_mod', Nat.div_add_mod']

theorem packedIndex_lt (holds : rank.Holds buckets.length) (bound : key < buckets.length) :
    rank.packedIndex buckets key < rank.groupSize * rank.counterLanes := by
  have lane : buckets.getD key 0 % rank.counterLanes < rank.counterLanes :=
    Nat.mod_lt _ (Nat.two_pow_pos _)
  have localId := localId_lt holds bound
  unfold packedIndex
  calc buckets.getD key 0 % rank.counterLanes * rank.groupSize + key / rank.keysPerItem
      < buckets.getD key 0 % rank.counterLanes * rank.groupSize + rank.groupSize := by omega
    _ = (buckets.getD key 0 % rank.counterLanes + 1) * rank.groupSize := by
        rw [Nat.add_mul, Nat.one_mul]
    _ ≤ rank.counterLanes * rank.groupSize := Nat.mul_le_mul_right _ lane
    _ = rank.groupSize * rank.counterLanes := Nat.mul_comm _ _

theorem getD_lt {bound : Nat} (pos : 0 < bound) (inside : ∀ bucket ∈ buckets, bucket < bound)
    (key : Nat) : buckets.getD key 0 < bound := by
  rw [List.getD_eq_getElem?_getD]
  cases atKey : buckets[key]? with
  | none => exact pos
  | some bucket => exact inside bucket (List.mem_of_getElem? atKey)

section

variable (holds : rank.Holds buckets.length) (inside : ∀ bucket ∈ buckets, bucket < rank.radixBuckets)

include holds inside

theorem position_eq (bound : key < buckets.length) :
    rank.counterPos buckets key = rank.packedIndex buckets key * 2 + buckets.getD key 0 / rank.counterLanes := by
  have index := packedIndex_lt holds bound
  have half := half_lt rank (getD_lt (Nat.two_pow_pos _) inside key)
  have positions := holds.positions
  rw [Nat.mul_comm rank.counterLanes] at positions
  unfold packedIndex at index ⊢
  unfold counterPos bucketToPosition
  apply Nat.mod_eq_of_lt
  omega

theorem sum_keysAt (isHalf : half < 2) (index : Nat) :
    ∑ index' ∈ range index, keysAt (rank.counterPos buckets) buckets.length (index' * 2 + half) =
      ∑ key ∈ range buckets.length, if rank.packedIndex buckets key < index ∧
        buckets.getD key 0 / rank.counterLanes = half then 1 else 0 := by
  unfold keysAt
  rw [sum_comm]
  apply sum_congr rfl
  intro key listed
  have bound := mem_range.1 listed
  have ownHalf := half_lt rank (getD_lt (Nat.two_pow_pos _) inside key)
  have counted : ∀ index', (if rank.counterPos buckets key =
      index' * 2 + half then 1 else 0) = if index' = rank.packedIndex buckets key then
        (if buckets.getD key 0 / rank.counterLanes = half then 1 else 0) else 0 := by
    intro index'
    rw [position_eq holds inside bound]
    generalize buckets.getD key 0 / rank.counterLanes = own at *
    by_cases sameIndex : index' = rank.packedIndex buckets key
    · rw [if_pos sameIndex]
      by_cases sameHalf : own = half
      · rw [if_pos sameHalf, if_pos (by omega)]
      · rw [if_neg sameHalf, if_neg (by omega)]
    · rw [if_neg sameIndex, if_neg (by omega)]
  simp only [counted, sum_ite_eq', mem_range]
  exact (ite_and _ _ _ _).symm

theorem scanned_at (indexBound : index < rank.groupSize * rank.counterLanes) (half_lt : half < 2) :
    rank.scanCounters (keysAt (rank.counterPos buckets) buckets.length) (index * 2 + half) =
      ∑ other ∈ range buckets.length, ((if buckets.getD other 0 / rank.counterLanes < half then 1 else 0) +
        if rank.packedIndex buckets other < index ∧ buckets.getD other 0 / rank.counterLanes = half then 1 else 0) := by
  have low : ∀ index, _ := sum_keysAt holds inside (by omega : 0 < 2)
  have high : ∀ index, _ := sum_keysAt holds inside (by omega : 1 < 2)
  simp only [Nat.add_zero] at low
  have all : ∀ other ∈ range buckets.length, rank.packedIndex buckets other < rank.groupSize * rank.counterLanes :=
    fun other listed => packedIndex_lt holds (mem_range.1 listed)
  have fits : (∑ index ∈ range (rank.groupSize * rank.counterLanes), keysAt (rank.counterPos buckets) buckets.length (index * 2)) +
      ∑ index ∈ range (rank.groupSize * rank.counterLanes), keysAt (rank.counterPos buckets) buckets.length
        (index * 2 + 1) < 2 ^ 16 := by
    rw [low, high, ← sum_add_distrib]
    calc _ ≤ ∑ other ∈ range buckets.length, 1 := by
          apply sum_le_sum
          intro other _
          split <;> split <;> omega
      _ = buckets.length := by simp
      _ < 2 ^ 16 := holds.counter
  rw [scanCounters_eq rank _ holds.subGroup indexBound half_lt fits, sum_keysAt holds inside half_lt, low,
    sum_add_distrib]
  congr 1
  split
  next isHigh =>
    apply sum_congr rfl
    intro other listed
    have before := all other listed
    have ofNat := Nat.zero_le (buckets.getD other 0 / rank.counterLanes)
    rw [isHigh]
    split <;> split <;> omega
  next notHigh =>
    symm
    apply sum_eq_zero
    intro other _
    have ofNat := Nat.zero_le (buckets.getD other 0 / rank.counterLanes)
    rw [if_neg (by omega)]

theorem scanned_position (bound : key < buckets.length) :
    rank.scanCounters (keysAt (rank.counterPos buckets) buckets.length) (rank.counterPos buckets key) =
      ∑ other ∈ range buckets.length,
        ((if buckets.getD other 0 / rank.counterLanes < buckets.getD key 0 / rank.counterLanes then 1 else 0) +
        if rank.packedIndex buckets other < rank.packedIndex buckets key ∧
          buckets.getD other 0 / rank.counterLanes = buckets.getD key 0 / rank.counterLanes then 1 else 0) := by
  rw [position_eq holds inside bound]
  exact scanned_at holds inside (packedIndex_lt holds bound)
    (half_lt rank (getD_lt (Nat.two_pow_pos _) inside key))

theorem scanned_bucket (pos : 0 < rank.groupSize) {bucket : Nat}
    (isBucket : bucket < rank.radixBuckets) : rank.scanCounters (keysAt (rank.counterPos buckets) buckets.length)
        (bucket % rank.counterLanes * rank.groupSize * 2 + bucket / rank.counterLanes) =
      buckets.countP (· < bucket) := by
  have lane : bucket % rank.counterLanes < rank.counterLanes := Nat.mod_lt _ (Nat.two_pow_pos _)
  have indexBound : bucket % rank.counterLanes * rank.groupSize < rank.groupSize * rank.counterLanes := by
    rw [Nat.mul_comm]
    exact Nat.mul_lt_mul_of_pos_left lane pos
  rw [scanned_at holds inside indexBound (half_lt rank isBucket), countP_eq_sum]
  apply sum_congr rfl
  intro other listed
  have localId := localId_lt holds (mem_range.1 listed)
  have before : rank.packedIndex buckets other < bucket % rank.counterLanes * rank.groupSize ↔
      buckets.getD other 0 % rank.counterLanes < bucket % rank.counterLanes := by
    have lex := @mul_add_lt_iff rank.groupSize (buckets.getD other 0 % rank.counterLanes)
      (other / rank.keysPerItem) (bucket % rank.counterLanes) 0 localId pos
    unfold packedIndex
    generalize other / rank.keysPerItem = item at *
    omega
  have bucketLt := bucket_lt_iff rank (buckets.getD other 0) bucket
  simp only [before, bucketLt, decide_eq_true_eq]
  split_ifs <;> omega

theorem keysAt_own (bound : key < buckets.length) :
    keysAt (rank.counterPos buckets) key (rank.counterPos buckets key) =
      ∑ other ∈ range buckets.length, if other < key ∧ rank.packedIndex buckets other = rank.packedIndex buckets key ∧
        buckets.getD other 0 / rank.counterLanes = buckets.getD key 0 / rank.counterLanes then 1 else 0 := by
  unfold keysAt
  have before : range key = (range buckets.length).filter (· < key) := by
    ext other
    rw [mem_filter, mem_range, mem_range]
    omega
  rw [before, sum_filter]
  apply sum_congr rfl
  intro other listed
  rw [position_eq holds inside bound, position_eq holds inside (mem_range.1 listed), ite_and]
  have half := half_lt rank (getD_lt (Nat.two_pow_pos _) inside key)
  have half' := half_lt rank (getD_lt (Nat.two_pow_pos _) inside other)
  simp only [mul_add_eq_iff half' half]

theorem keysAt_add_scanned (keyBound : key < buckets.length) :
    keysAt (rank.counterPos buckets) key (rank.counterPos buckets key) +
        rank.scanCounters (keysAt (rank.counterPos buckets) buckets.length) (rank.counterPos buckets key) =
      rankIn buckets key := by
  rw [scanned_position holds inside keyBound, keysAt_own holds inside keyBound, ← sum_add_distrib, rankIn_eq_sum]
  apply sum_congr rfl
  intro other listed
  have localId := localId_lt holds keyBound
  have localId' := localId_lt holds (mem_range.1 listed)
  have items : other < key → other / rank.keysPerItem ≤ key / rank.keysPerItem :=
    fun less => Nat.div_le_div_right (Nat.le_of_lt less)
  have items' : key ≤ other → key / rank.keysPerItem ≤ other / rank.keysPerItem :=
    Nat.div_le_div_right
  have bucketLt := bucket_lt_iff rank (buckets.getD other 0) (buckets.getD key 0)
  have bucketEq := bucket_eq_iff rank (buckets.getD other 0) (buckets.getD key 0)
  unfold packedIndex
  simp only [mul_add_lt_iff localId' localId, mul_add_eq_iff localId' localId, bucketLt, bucketEq]
  grind

theorem rankKeys_eq : rank.rankKeys buckets = (List.range buckets.length).map (rankIn buckets) := by
  unfold rankKeys
  dsimp only
  rw [countKeys_eq _ holds.counter]
  apply List.ext_getElem
  · simp
  · intro key bound _
    have keyBound : key < buckets.length := by simpa using bound
    rw [List.getElem_mapIdx, List.getElem_map, List.getElem_range, List.getElem_map,
      List.getElem_range, keysAt_add_scanned holds inside keyBound]
    exact Nat.mod_eq_of_lt (Nat.lt_trans (rankIn_lt keyBound) holds.counter)

end

end Ranks

end GroupRadixRank

end Itex.Kernels
