import Itex.Kernels.GroupRadixRank
import Itex.Utils.RadixUtils

/-!
Contract: the radix sort of one work group (`utils/group_radix_sort.h`).

Owns: the loop over the digits, the exchange through local memory, the output of the first
places, and that the keys end up in stable order.
-/

namespace Itex.Kernels

open Itex.Lib Itex.Utils

variable {beginBit endBit passBits : Nat}

/-- The template parameters: `GROUP_SIZE`, `SUB_GROUP_SIZE`, `KEYS_PER_WORK_ITEM` and `RADIX_BITS`
are those of the ranks. -/
structure GroupRadixSortor where
  radixRank : GroupRadixRank
  kind : KeyKind

namespace GroupRadixSortor

variable {α V : Type} {w : Nat}

def radixBits (sortor : GroupRadixSortor) : Nat := sortor.radixRank.laneBits + 1

/-- `ExchangeKeys` and `ExchangeValues`: every item is written at its rank, then read back in order.
The ranks reach all of the memory, so what was there does not matter. -/
def exchange (ranks : List Nat) (items : List α) : List α := scatter items (ranks.zip items)

def digit (ukey : α → BitVec w) (beginBit passBits : Nat) (item : α) : Nat :=
  bucket beginBit passBits (ukey item)

def passRanks (sortor : GroupRadixSortor) (ukey : α → BitVec w) (beginBit passBits : Nat)
    (items : List α) : List Nat :=
  sortor.radixRank.rankKeys (items.map (digit ukey beginBit passBits))

/-- The loop over the digits: the ranks of the last one, and the items they are the ranks of. -/
def sortLoop (sortor : GroupRadixSortor) (ukey : α → BitVec w) (endBit beginBit : Nat)
    (items : List α) : List Nat × List α :=
  let passBits := min sortor.radixBits (endBit - beginBit)
  let ranks := sortor.passRanks ukey beginBit passBits items
  if beginBit + passBits < endBit then
    sortor.sortLoop ukey endBit (beginBit + passBits) (exchange ranks items)
  else (ranks, items)
termination_by endBit - beginBit
decreasing_by
  unfold radixBits
  omega

def convertKey (sortor : GroupRadixSortor) (descending : Bool) (key : BitVec w × V) : BitVec w × V :=
  (sortor.kind.convert descending key.1, key.2)

def convertKeyBack (sortor : GroupRadixSortor) (descending : Bool) (item : BitVec w × V) : BitVec w × V :=
  (sortor.kind.convertBack descending item.1, item.2)

/-- `InternalSortImpl` of pairs; `out` is what the output arrays hold before. -/
def sort (sortor : GroupRadixSortor) (descending : Bool) (keys : List (BitVec w × V))
    (out : List (BitVec w × V)) (numOutput beginBit endBit : Nat) : List (BitVec w × V) :=
  let last := sortor.sortLoop Prod.fst endBit beginBit (keys.map (sortor.convertKey descending))
  let outputs := last.2.map (sortor.convertKeyBack descending)
  scatter out ((last.1.zip outputs).filter fun write => decide (write.1 < numOutput))

section Loop

variable (sortor : GroupRadixSortor) (ukey : α → BitVec w)

theorem digit_lt (beginBit passBits : Nat) (item : α) : digit ukey beginBit passBits item < 2 ^ passBits := by
  unfold digit
  rw [bucket_eq]
  exact Nat.mod_lt _ (Nat.two_pow_pos _)

theorem passRanks_eq (narrow : passBits ≤ sortor.radixBits) {items : List α}
    (holds : sortor.radixRank.Holds items.length) : sortor.passRanks ukey beginBit passBits items =
      (List.range (items.map (digit ukey beginBit passBits)).length).map
        (rankIn (items.map (digit ukey beginBit passBits))) := by
  apply GroupRadixRank.rankKeys_eq
  · rwa [List.length_map]
  · intro bucket listed
    obtain ⟨item, _, isDigit⟩ := List.mem_map.1 listed
    rw [← isDigit]
    exact Nat.lt_of_lt_of_le (digit_lt ukey beginBit passBits item)
      (Nat.pow_le_pow_right (by decide) narrow)

theorem exchange_eq {digit : α → Nat} {buckets : Nat} {items : List α} (inside : ∀ item ∈ items, digit item < buckets) :
    exchange ((List.range (items.map digit).length).map (rankIn (items.map digit))) items =
      distribute digit buckets items :=
  scatter_placed inside rfl

theorem sorted_pass {original items : List α}
    (sorted : StableSorted (fun item => (ukey item).toNat % 2 ^ beginBit) original items) :
    StableSorted (fun item => (ukey item).toNat % 2 ^ (beginBit + passBits)) original
      (distribute (digit ukey beginBit passBits) (2 ^ passBits) items) := by
  rw [Nat.pow_add]
  exact sorted.distribute (Nat.two_pow_pos _) (Nat.two_pow_pos _) fun item => bucket_eq _ _ _

/-- What the loop returns: the ranks of its last items by a digit that, distributed by it, are in
stable order by all bits up to the last. -/
structure Ranked (ukey : α → BitVec w) (endBit : Nat) (original : List α)
    (result : List Nat × List α) (digit : α → Nat) (buckets : Nat) : Prop where
  inside : ∀ item, digit item < buckets
  ranks : result.1 = (List.range (result.2.map digit).length).map (rankIn (result.2.map digit))
  sorted : StableSorted (fun item => (ukey item).toNat % 2 ^ endBit) original
    (distribute digit buckets result.2)

theorem sortLoop_ranked {original items : List α} (begins : beginBit ≤ endBit)
    (holds : sortor.radixRank.Holds items.length)
    (sorted : StableSorted (fun item => (ukey item).toNat % 2 ^ beginBit) original items) :
    ∃ digit buckets, Ranked ukey endBit original (sortor.sortLoop ukey endBit beginBit items) digit buckets := by
  induction beginBit, items using sortLoop.induct sortor ukey endBit with
  | case1 beginBit items passBits ranks more ih =>
    have narrow : passBits ≤ sortor.radixBits := Nat.min_le_left _ _
    have isExchanged : exchange ranks items = distribute (digit ukey beginBit passBits) (2 ^ passBits) items := by
      rw [← exchange_eq fun item _ => digit_lt ukey beginBit passBits item, ← sortor.passRanks_eq ukey narrow holds]
    have sameLength : (exchange ranks items).length = items.length := length_scatter _ _
    rw [sortLoop, if_pos more]
    apply ih (Nat.le_of_lt more)
    · rwa [sameLength]
    · rw [isExchanged]
      exact sorted_pass ukey sorted
  | case2 beginBit items passBits more =>
    have narrow : passBits ≤ sortor.radixBits := Nat.min_le_left _ _
    have isEnd : beginBit + passBits = endBit := by
      have rest : passBits ≤ endBit - beginBit := Nat.min_le_right _ _
      omega
    rw [sortLoop, if_neg more]
    refine ⟨digit ukey beginBit passBits, 2 ^ passBits, digit_lt ukey beginBit passBits,
      sortor.passRanks_eq ukey narrow holds, ?_⟩
    rw [← isEnd]
    exact sorted_pass ukey sorted

theorem sortLoop_shift (start : Nat) (items : List α) :
    sortor.sortLoop ukey (start + endBit) (start + beginBit) items =
      sortor.sortLoop (fun item => ukey item >>> start) endBit beginBit items := by
  have sameDigit : ∀ beginBit passBits, digit ukey (start + beginBit) passBits =
      digit (fun item => ukey item >>> start) beginBit passBits := by
    intro beginBit passBits
    funext item
    unfold digit bucket
    rw [BitVec.toNat_ushiftRight, Nat.shiftRight_add]
  have sameRanks : ∀ beginBit passBits, sortor.passRanks ukey (start + beginBit) passBits =
      sortor.passRanks (fun item => ukey item >>> start) beginBit passBits := by
    intro beginBit passBits
    funext items
    unfold passRanks
    rw [sameDigit]
  induction beginBit, items using sortLoop.induct sortor (fun item => ukey item >>> start) endBit with
  | case1 beginBit items passBits ranks more ih =>
    rw [sortLoop.eq_1 sortor ukey, sortLoop.eq_1 sortor (fun item => ukey item >>> start),
      Nat.add_sub_add_left, sameRanks, if_pos more, if_pos (by omega), Nat.add_assoc]
    exact ih
  | case2 beginBit items passBits more =>
    rw [sortLoop.eq_1 sortor ukey, sortLoop.eq_1 sortor (fun item => ukey item >>> start),
      Nat.add_sub_add_left, sameRanks, if_neg more, if_neg (by omega)]

end Loop

/-! ## The sort -/

def sortKey (sortor : GroupRadixSortor) (descending : Bool) (item : BitVec w × V) : Nat :=
  (sortor.kind.convert descending item.1).toNat

def rangeKey (sortor : GroupRadixSortor) (descending : Bool) (beginBit endBit : Nat)
    (item : BitVec w × V) : Nat :=
  sortor.sortKey descending item / 2 ^ beginBit % 2 ^ (endBit - beginBit)

section

variable (sortor : GroupRadixSortor) (descending : Bool) (positive : 0 < w)

include sortor descending positive

theorem sort_range (keys out : List (BitVec w × V)) (numOutput : Nat) (begins : beginBit ≤ endBit)
    (holds : sortor.radixRank.Holds keys.length) :
    ∃ sorted, StableSorted (sortor.rangeKey descending beginBit endBit) keys sorted ∧
      ∀ j, (sortor.sort descending keys out numOutput beginBit endBit)[j]? =
        if j < keys.length ∧ j < out.length ∧ j < numOutput then sorted[j]? else out[j]? := by
  have undone : ∀ key : BitVec w × V, sortor.convertKeyBack descending (sortor.convertKey descending key) = key := by
    intro key
    show (sortor.kind.convertBack descending (sortor.kind.convert descending key.1), key.2) = key
    rw [KeyKind.convertBack_convert _ _ positive]
  have holdsItems : sortor.radixRank.Holds (keys.map (sortor.convertKey descending)).length := by
    rwa [List.length_map]
  have start : StableSorted (fun item : BitVec w × V => (item.1 >>> beginBit).toNat % 2 ^ 0)
      (keys.map (sortor.convertKey descending)) _ := StableSorted.start _
  obtain ⟨digit, buckets, ranked⟩ :=
    sortor.sortLoop_ranked _ (Nat.zero_le (endBit - beginBit)) holdsItems start
  rw [← sortor.sortLoop_shift Prod.fst beginBit, Nat.add_sub_cancel' begins, Nat.add_zero] at ranked
  have sorted : StableSorted (sortor.rangeKey descending beginBit endBit)
      ((keys.map (sortor.convertKey descending)).map (sortor.convertKeyBack descending)) _ :=
    ranked.sorted.map (by
      intro item listed
      obtain ⟨key, _, isItem⟩ := List.mem_map.1 listed
      rw [← isItem, undone, BitVec.toNat_ushiftRight, Nat.shiftRight_eq_div_pow]
      rfl)
  have back : (keys.map (sortor.convertKey descending)).map (sortor.convertKeyBack descending) = keys := by
    rw [List.map_map]
    exact List.map_id'' undone keys
  rw [back] at sorted
  refine ⟨_, sorted, ?_⟩
  intro j
  have total := ranked.sorted.length_eq
  rw [length_distribute fun item _ => ranked.inside item, List.length_map] at total
  have inside : ∀ item ∈ (sortor.sortLoop Prod.fst endBit beginBit
      (keys.map (sortor.convertKey descending))).2, digit item < buckets :=
    fun item _ => ranked.inside item
  have isWritten := getElem?_scatter_placed (sortor.convertKeyBack descending) out inside
    (fun place => decide (place < numOutput)) j
  unfold placed at isWritten
  rw [← ranked.ranks, total] at isWritten
  simp only [decide_eq_true_eq] at isWritten
  exact isWritten

theorem sort_spec (keys out : List (BitVec w × V)) (numOutput : Nat) (holds : sortor.radixRank.Holds keys.length) :
    ∃ sorted, StableSorted (sortor.sortKey descending) keys sorted ∧
      ∀ j, (sortor.sort descending keys out numOutput 0 w)[j]? =
        if j < keys.length ∧ j < out.length ∧ j < numOutput then sorted[j]? else out[j]? := by
  obtain ⟨sorted, isSorted, written⟩ := sortor.sort_range descending positive keys out numOutput
    (Nat.zero_le w) holds
  refine ⟨sorted, isSorted.congr ?_, written⟩
  intro item _
  unfold rangeKey
  rw [Nat.pow_zero, Nat.div_one]
  exact (Nat.mod_eq_of_lt (BitVec.isLt _)).symm

end

/-- Two work items and a digit of 16 bits: the counters take 17 bits to address. -/
def wideSortor : GroupRadixSortor := ⟨⟨⟨1, 2⟩, 1, 15⟩, .unsigned⟩

theorem wideSortor_rankKeys : wideSortor.radixRank.rankKeys [16384, 0] = [0, 1] := by
  have counted : ∀ k, GroupRadixRank.keysAt (wideSortor.radixRank.counterPos [16384, 0]) 2 k =
      (if 0 = k then 1 else 0) + if 2 = k then 1 else 0 := by
    intro k
    unfold GroupRadixRank.keysAt
    rw [Finset.sum_range_succ, Finset.sum_range_one]
    rfl
  have low : ∀ index, (0 = index * 2 ↔ index = 0) ∧ (2 = index * 2 ↔ index = 1) := by omega
  have high : ∀ index, 0 ≠ index * 2 + 1 ∧ 2 ≠ index * 2 + 1 := by omega
  have fits : ∀ count, (∑ index ∈ Finset.range count,
      GroupRadixRank.keysAt (wideSortor.radixRank.counterPos [16384, 0]) 2 (index * 2)) +
      ∑ index ∈ Finset.range count,
        GroupRadixRank.keysAt (wideSortor.radixRank.counterPos [16384, 0]) 2 (index * 2 + 1) < 2 ^ 16 := by
    intro count
    simp only [counted, low, high, Finset.sum_add_distrib, if_false, Finset.sum_const_zero, Finset.sum_ite_eq']
    split <;> split <;> omega
  have scanned : ∀ index < 2, wideSortor.radixRank.scanCounters
      (GroupRadixRank.keysAt (wideSortor.radixRank.counterPos [16384, 0]) 2) (index * 2) = index := by
    intro index bound
    have atIndex := GroupRadixRank.scanCounters_eq wideSortor.radixRank
      (GroupRadixRank.keysAt (wideSortor.radixRank.counterPos [16384, 0]) 2) (by decide)
      (Nat.lt_of_lt_of_le bound (by decide)) Nat.two_pos (fits _)
    rw [Nat.add_zero] at atIndex
    rw [atIndex, if_neg Nat.zero_ne_one, Nat.zero_add]
    rcases (by omega : index = 0 ∨ index = 1) with isFirst | isSecond
    · rw [isFirst, Finset.sum_range_zero]
    · simp [isSecond, counted]
  unfold GroupRadixRank.rankKeys
  dsimp only
  rw [GroupRadixRank.countKeys_eq _ (by decide)]
  have first : wideSortor.radixRank.counterPos [16384, 0] 0 = 0 * 2 := by decide
  have second : wideSortor.radixRank.counterPos [16384, 0] 1 = 1 * 2 := by decide
  have afterFirst : GroupRadixRank.keysAt (wideSortor.radixRank.counterPos [16384, 0]) 1 (1 * 2) = 0 := by
    decide
  simp only [List.length_cons, List.length_nil, List.range_succ, List.range_zero, List.nil_append,
    List.map_cons, List.map_nil, List.cons_append, List.mapIdx_cons, List.mapIdx_nil,
    Nat.zero_add, Nat.reduceAdd, first, second, scanned 0 (by decide), scanned 1 (by decide), afterFirst]
  rfl

end GroupRadixSortor

end Itex.Kernels
