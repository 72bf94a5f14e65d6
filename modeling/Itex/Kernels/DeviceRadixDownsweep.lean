import Itex.Kernels.DeviceRadixUpsweep

/-!
Contract: the downsweep of the device radix sort.

Owns: the ranks of a slice, where the keys of a slice are written, and that a group writes each of
its keys to its place among all keys.
-/

namespace Itex.Kernels.DeviceRadixSort

open Finset Itex.Lib

section Rank

theorem scanPacked_eq (rank : GroupRadixRank) (pos : 0 < rank.groupScan.subGroupSize) (counters : Nat → Nat)
    {index : Nat} (inside : index < rank.groupSize * rank.counterLanes) :
    rank.groupScan.exclusiveSum (fun item => rank.laneSum counters item rank.counterLanes 0) 0
          (index / rank.counterLanes) +
        rank.laneSum counters (index / rank.counterLanes) (index % rank.counterLanes) 0 + GroupRadixRank.prefixCallBack
          (rank.groupScan.groupSum (fun item => rank.laneSum counters item rank.counterLanes 0) 0) =
      rank.laneSum counters (index / rank.counterLanes) (index % rank.counterLanes)
        (rank.groupScan.exclusiveSumWith (fun item => rank.laneSum counters item rank.counterLanes 0)
          GroupRadixRank.prefixCallBack (index / rank.counterLanes)) := by
  have isItem : index / rank.counterLanes < rank.groupScan.groupSize :=
    (Nat.div_lt_iff_lt_mul (Nat.two_pow_pos _)).2 inside
  rw [GroupScan.exclusiveSumWith_eq _ _ pos _ isItem, GroupScan.exclusiveSum_eq _ _ _ pos isItem,
    GroupScan.groupSum_eq _ _ _ pos, GroupRadixRank.laneSum_eq _ _ _ _ 0, zero_add, zero_add, zero_add,
    GroupRadixRank.laneSum_eq, add_comm, add_assoc]

theorem keysAt_congr {position position' : Nat → Nat} {numKeys : Nat}
    (same : ∀ key < numKeys, position key = position' key) :
    ∀ count ≤ numKeys, GroupRadixRank.keysAt position count = GroupRadixRank.keysAt position' count := by
  intro count le
  funext k
  apply sum_congr rfl
  intro key listed
  rw [same key (Nat.lt_of_lt_of_le (mem_range.1 listed) le)]

variable {sizes : Sizes} (admitted : sizes.Admitted) {digits : List Nat}

include admitted

theorem radixRank_groupSize : sizes.radixRank.groupSize = sizes.groupSize := admitted.groupSize_eq

theorem radixRank_holds (full : digits.length = sizes.sliceSize) : sizes.radixRank.Holds digits.length := by
  rw [full]
  constructor
  · exact admitted.subGroupSize_pos
  · exact (by decide : 0 < 4)
  · rw [radixRank_groupSize admitted]
    exact Nat.le_of_eq (Nat.mul_comm _ _)
  · rcases admitted with isSizes | isSizes | isSizes <;> rw [isSizes] <;> decide
  · rcases admitted with isSizes | isSizes | isSizes <;> rw [isSizes] <;> decide

variable (full : digits.length = sizes.sliceSize) (inside : ∀ digit ∈ digits, digit < radixDigits)

include full inside

theorem counterPos_eq {key : Nat} (bound : key < digits.length) :
    counterPos sizes digits key = sizes.radixRank.counterPos digits key := by
  rw [GroupRadixRank.position_eq (radixRank_holds admitted full) inside bound]
  unfold counterPos counterAt GroupRadixRank.packedIndex
  rw [radixRank_groupSize admitted]
  rfl

omit full inside in
/-- The order in which the parts of a prefix are added does not matter. -/
theorem scanCounters_eq (counters : Nat → Nat) {position : Nat}
    (isCounter : position / 2 < sizes.radixRank.groupSize * sizes.radixRank.counterLanes) :
    scanCounters sizes counters position = sizes.radixRank.scanCounters counters position := by
  unfold scanCounters GroupRadixRank.scanCounters
  dsimp only
  rw [← scanPacked_eq sizes.radixRank admitted.subGroupSize_pos counters isCounter]
  rfl

theorem rankKeys_eq : rankKeys sizes digits = (List.range digits.length).map (rankIn digits) := by
  have holds := radixRank_holds admitted full
  have positions : ∀ key < digits.length, counterPos sizes digits key = sizes.radixRank.counterPos digits key :=
    fun key => counterPos_eq admitted full inside
  have counters := keysAt_congr positions
  unfold rankKeys
  dsimp only
  rw [GroupRadixRank.countKeys_eq _ holds.counter]
  apply List.ext_getElem
  · simp
  · intro key bound _
    have keyBound : key < digits.length := by simpa using bound
    have isCounter := GroupRadixRank.packedIndex_lt holds keyBound
    rw [List.getElem_mapIdx, List.getElem_map, List.getElem_range, List.getElem_map, List.getElem_range,
      ← GroupRadixRank.keysAt_add_scanned holds inside keyBound, positions key keyBound, counters _ (Nat.le_refl _),
      counters key (Nat.le_of_lt keyBound)]
    dsimp only
    rw [scanCounters_eq admitted]
    rw [GroupRadixRank.position_eq holds inside keyBound]
    have half := GroupRadixRank.half_lt sizes.radixRank (GroupRadixRank.getD_lt (Nat.two_pow_pos _) inside key)
    omega

theorem exclusiveDigitPrefix_eq {bin : Nat} (isBin : bin < radixDigits) :
    exclusiveDigitPrefix sizes digits bin = digits.countP (· < bin) := by
  have holds := radixRank_holds admitted full
  have positions : ∀ key < digits.length, counterPos sizes digits key = sizes.radixRank.counterPos digits key :=
    fun key => counterPos_eq admitted full inside
  have groupSize := radixRank_groupSize admitted
  have pos : 0 < sizes.radixRank.groupSize := by
    rw [groupSize]
    exact admitted.groupSize_pos
  have lane : bin % sizes.radixRank.counterLanes < sizes.radixRank.counterLanes := Nat.mod_lt _ (Nat.two_pow_pos _)
  have half : bin / sizes.radixRank.counterLanes < 2 := GroupRadixRank.half_lt sizes.radixRank isBin
  have isCounter : bin % sizes.radixRank.counterLanes * sizes.radixRank.groupSize <
      sizes.radixRank.groupSize * sizes.radixRank.counterLanes := by
    rw [Nat.mul_comm]
    exact Nat.mul_lt_mul_of_pos_left lane pos
  rw [← GroupRadixRank.scanned_bucket holds inside pos isBin]
  unfold exclusiveDigitPrefix counterAt
  rw [GroupRadixRank.countKeys_eq _ holds.counter, keysAt_congr positions _ (Nat.le_refl _), Nat.add_zero, ← groupSize]
  apply scanCounters_eq admitted
  omega

end Rank

section Slices

variable {w : Nat} {V : Type} (pass : Pass w V) {pairs : List (Pair w V)}

def Pass.digitOf (pair : Pair w V) : Nat := pass.digit (pass.convertKey pair).1

def Pass.digits (pairs : List (Pair w V)) : List Nat := pairs.map pass.digitOf

def Pass.back (pair : Pair w V) : Pair w V := pass.convertKeyBack (pass.convertKey pair)

def Pass.targets (pairs : List (Pair w V)) : List (Int × Pair w V) :=
  pairs.mapIdx fun i pair => ((rankIn (pass.digits pairs) i : Int), pass.back pair)

/-- The padding keys have the last of the digits. -/
def Pass.PadsLast (pairs : List (Pair w V)) : Prop :=
  ∀ pair ∈ pairs, pass.digitOf pair ≤ pass.digit pass.integral.paddingKey

/-- The bins are behind the pairs of lower digits and the pairs before `offset`. -/
def Pass.Offsets (pairs : List (Pair w V)) (offset : Nat) (binOffset : Nat → Int) : Prop :=
  ∀ bin < radixDigits, binOffset bin = ((pass.digits pairs).countP (· < bin) : Int) +
    ((pass.digits pairs).take offset).countP (· = bin)

theorem Pass.digit_lt (key : BitVec w) : pass.digit key < radixDigits := by
  unfold Pass.digit radixDigits
  rw [Utils.bucket_eq]
  exact Nat.mod_lt _ (Nat.two_pow_pos _)

theorem Pass.length_loadSlice (valid : List (Pair w V)) :
    (pass.loadSlice valid).length = pass.launch.sizes.sliceSize := by
  unfold Pass.loadSlice
  rw [List.length_map, List.length_range]

theorem Pass.loadSlice_eq {valid : List (Pair w V)} (few : valid.length ≤ pass.launch.sizes.sliceSize) :
    ∃ pads, pass.loadSlice valid = valid.map pass.convertKey ++ pads ∧
      ∀ pad ∈ pads, pad.1 = pass.integral.paddingKey := by
  refine ⟨(pass.loadSlice valid).drop valid.length, ?_, ?_⟩
  · have front : (pass.loadSlice valid).take valid.length = valid.map pass.convertKey := by
      apply List.ext_getElem?
      intro i
      by_cases inside : i < valid.length
      · unfold Pass.loadSlice
        simp_all
      · rw [List.getElem?_eq_none (by rw [List.length_take]; omega),
          List.getElem?_eq_none (by rw [List.length_map]; omega)]
    rw [← front, List.take_append_drop]
  · intro pad listed
    obtain ⟨i, inside, isPad⟩ := List.mem_iff_getElem.1 listed
    rw [List.length_drop, pass.length_loadSlice] at inside
    rw [← isPad, List.getElem_drop]
    unfold Pass.loadSlice
    rw [List.getElem_map, List.getElem_range, List.getElem?_eq_none (by omega)]

section Slice

variable {valid : List (Pair w V)} (admitted : pass.launch.sizes.Admitted)
  (few : valid.length ≤ pass.launch.sizes.sliceSize) (padsLast : pass.PadsLast valid)

def Pass.sliceDigits (valid : List (Pair w V)) : List Nat :=
  (pass.loadSlice valid).map fun item => pass.digit item.1

theorem Pass.length_sliceDigits : (pass.sliceDigits valid).length = pass.launch.sizes.sliceSize := by
  unfold Pass.sliceDigits
  rw [List.length_map, pass.length_loadSlice]

theorem Pass.sliceDigits_lt : ∀ digit ∈ pass.sliceDigits valid, digit < radixDigits := by
  intro digit listed
  obtain ⟨item, _, isDigit⟩ := List.mem_map.1 listed
  rw [← isDigit]
  exact pass.digit_lt _

include few in
theorem Pass.sliceDigits_eq : ∃ pads, pass.sliceDigits valid = pass.digits valid ++ pads ∧
    ∀ pad ∈ pads, pad = pass.digit pass.integral.paddingKey := by
  obtain ⟨pads, isSlice, isPad⟩ := pass.loadSlice_eq few
  refine ⟨pads.map fun item => pass.digit item.1, ?_, ?_⟩
  · unfold Pass.sliceDigits
    rw [isSlice, List.map_append, List.map_map]
    rfl
  · intro pad listed
    obtain ⟨item, isItem, isDigit⟩ := List.mem_map.1 listed
    rw [← isDigit, isPad item isItem]

include few padsLast in
theorem Pass.rankIn_sliceDigits {i : Nat} (bound : i < valid.length) :
    rankIn (pass.sliceDigits valid) i = rankIn (pass.digits valid) i := by
  obtain ⟨pads, isSlice, isPad⟩ := pass.sliceDigits_eq few
  rw [isSlice]
  apply rankIn_append
  · intro digit listed pad isBehind
    obtain ⟨pair, isPair, isDigit⟩ := List.mem_map.1 listed
    rw [isPad pad isBehind, ← isDigit]
    exact padsLast pair isPair
  · unfold Pass.digits
    rwa [List.length_map]

def Pass.sliceWrites (valid : List (Pair w V)) (binOffset : Nat → Int) : List (Int × Pair w V) :=
  ((distribute (fun item => pass.digit item.1) radixDigits (pass.loadSlice valid)).take valid.length).mapIdx
    fun j item => (binOffset (pass.digit item.1) -
      (pass.sliceDigits valid).countP (· < pass.digit item.1) + j, pass.convertKeyBack item)

include admitted

/-- A slice distributes its pairs, and moves the bins behind them. -/
theorem Pass.processSlice_eq (scattering : Scattering w V) : (pass.processSlice valid scattering).writes =
        scattering.writes ++ pass.sliceWrites valid scattering.binOffset ∧
      ∀ bin < radixDigits, (pass.processSlice valid scattering).binOffset bin =
        scattering.binOffset bin + (pass.sliceDigits valid).countP (· = bin) := by
  have length := @Pass.length_sliceDigits w V pass valid
  have inside := @Pass.sliceDigits_lt w V pass valid
  have exclusive : ∀ bin < radixDigits, exclusiveDigitPrefix pass.launch.sizes (pass.sliceDigits valid) bin =
      (pass.sliceDigits valid).countP (· < bin) :=
    fun bin => exclusiveDigitPrefix_eq admitted length inside
  constructor
  · have ranks := rankKeys_eq admitted length inside
    have exchanged := @GroupRadixSortor.exchange_eq _ (fun item : Pair w V => pass.digit item.1)
      radixDigits (pass.loadSlice valid) fun item _ => pass.digit_lt item.1
    show scattering.writes ++ List.mapIdx _ (List.take valid.length
      (GroupRadixSortor.exchange (rankKeys pass.launch.sizes (pass.sliceDigits valid)) (pass.loadSlice valid))) = _
    rw [ranks]
    unfold Pass.sliceDigits
    rw [exchanged]
    unfold Pass.sliceWrites
    congr 2
    funext j item
    show (scattering.binOffset (pass.digit item.1) -
      (exclusiveDigitPrefix pass.launch.sizes (pass.sliceDigits valid) (pass.digit item.1) : Int) + j, _) = _
    rw [exclusive _ (pass.digit_lt _)]
  · intro bin isBin
    have inclusive : (if bin = radixDigits - 1 then pass.launch.sizes.groupSize * elemsPerItem
        else exclusiveDigitPrefix pass.launch.sizes (pass.sliceDigits valid) (bin + 1)) =
        (pass.sliceDigits valid).countP (· < bin + 1) := by
      split
      next isLast =>
        have all : (pass.sliceDigits valid).countP (· < bin + 1) = (pass.sliceDigits valid).length := by
          apply List.countP_eq_length.2
          intro digit listed
          have := inside digit listed
          exact decide_eq_true (by omega)
        rw [all, length]
        exact Nat.mul_comm _ _
      next notLast => exact exclusive (bin + 1) (by omega)
    show scattering.binOffset bin -
        (exclusiveDigitPrefix pass.launch.sizes (pass.sliceDigits valid) bin : Int) +
      ((if bin = radixDigits - 1 then pass.launch.sizes.groupSize * elemsPerItem
        else exclusiveDigitPrefix pass.launch.sizes (pass.sliceDigits valid) (bin + 1) : Nat) : Int) = _
    rw [inclusive, exclusive bin isBin, countP_lt_succ]
    push_cast
    omega

end Slice

theorem Pass.digits_length : (pass.digits pairs).length = pairs.length := List.length_map _

theorem Pass.length_targets : (pass.targets pairs).length = pairs.length := List.length_mapIdx

theorem Pass.getD_digits {i : Nat} (bound : i < pairs.length) :
    (pass.digits pairs).getD i 0 = pass.digitOf pairs[i] := by
  unfold Pass.digits
  rw [List.getD_eq_getElem?_getD, List.getElem?_map, List.getElem?_eq_getElem bound]
  rfl

section

variable {offset count : Nat} (inside : offset + count ≤ pairs.length) (few : count ≤ pass.launch.sizes.sliceSize)
  (padsLast : pass.PadsLast pairs) {binOffset : Nat → Int} (offsets : pass.Offsets pairs offset binOffset)

include inside few padsLast offsets

theorem Pass.getElem?_sliceWrites {i : Nat} (bound : i < count) :
    (pass.sliceWrites ((pairs.drop offset).take count) binOffset)[
        rankIn (pass.sliceDigits ((pairs.drop offset).take count)) i]? =
      (((pass.targets pairs).drop offset).take count)[i]? := by
  have length : ((pairs.drop offset).take count).length = count := by
    rw [List.length_take, List.length_drop]
    omega
  have fewValid : ((pairs.drop offset).take count).length ≤ pass.launch.sizes.sliceSize := by rwa [length]
  have padsLastValid : pass.PadsLast ((pairs.drop offset).take count) :=
    fun pair listed => padsLast pair (List.mem_of_mem_drop (List.mem_of_mem_take listed))
  have pairBound : offset + i < pairs.length := by omega
  have atI : ((pairs.drop offset).take count)[i]? = some pairs[offset + i] := by
    rw [List.getElem?_take_of_lt bound, List.getElem?_drop, List.getElem?_eq_getElem pairBound]
  obtain ⟨pads, isSlice, _⟩ := pass.loadSlice_eq fewValid
  have itemAtI : (pass.loadSlice ((pairs.drop offset).take count))[i]? =
      some (pass.convertKey pairs[offset + i]) := by
    rw [isSlice, List.getElem?_append_left (by rw [List.length_map]; omega), List.getElem?_map, atI]
    rfl
  have rankBound : rankIn (pass.sliceDigits ((pairs.drop offset).take count)) i < count := by
    rw [pass.rankIn_sliceDigits fewValid padsLastValid (by omega)]
    have := @rankIn_lt (pass.digits ((pairs.drop offset).take count)) i
      (show i < _ by rw [pass.digits_length]; omega)
    rwa [pass.digits_length, length] at this
  have isPlaced := @getElem?_distribute _ (fun item : Pair w V => pass.digit item.1) radixDigits _
    (fun item _ => pass.digit_lt item.1) i _ itemAtI
  have ownDigit : (pass.sliceDigits ((pairs.drop offset).take count)).getD i 0 = pass.digitOf pairs[offset + i] := by
    unfold Pass.sliceDigits
    rw [List.getD_eq_getElem?_getD, List.getElem?_map, itemAtI]
    rfl
  -- the pairs of the digit before this one: those of earlier slices and those of this one
  have before : ((pass.digits pairs).take (offset + i)).countP (· = pass.digitOf pairs[offset + i]) =
      ((pass.digits pairs).take offset).countP (· = pass.digitOf pairs[offset + i]) +
        ((pass.sliceDigits ((pairs.drop offset).take count)).take i).countP
          (· = pass.digitOf pairs[offset + i]) := by
    obtain ⟨padDigits, isDigits, _⟩ := pass.sliceDigits_eq fewValid
    have front : (pass.sliceDigits ((pairs.drop offset).take count)).take i =
        ((pass.digits pairs).drop offset).take i := by
      rw [isDigits, List.take_append_of_le_length (by rw [pass.digits_length]; omega)]
      unfold Pass.digits
      rw [← List.map_take, ← List.map_drop, ← List.map_take, List.take_take, Nat.min_eq_left (by omega)]
    rw [front, List.take_add, List.countP_append]
  unfold Pass.sliceWrites
  rw [length, List.getElem?_mapIdx, List.getElem?_take_of_lt rankBound]
  unfold Pass.sliceDigits at rankBound isPlaced ⊢
  rw [isPlaced, List.getElem?_take_of_lt bound, List.getElem?_drop]
  unfold Pass.targets
  rw [List.getElem?_mapIdx, List.getElem?_eq_getElem pairBound]
  simp only [Option.map_some]
  congr 1
  refine Prod.ext ?_ rfl
  show binOffset (pass.digitOf pairs[offset + i]) -
      ((pass.sliceDigits ((pairs.drop offset).take count)).countP (· < pass.digitOf pairs[offset + i]) : Int) +
      (rankIn (pass.sliceDigits ((pairs.drop offset).take count)) i : Int) = _
  rw [offsets (pass.digitOf pairs[offset + i]) (pass.digit_lt _)]
  unfold rankIn
  rw [ownDigit, pass.getD_digits pairBound, before]
  push_cast
  omega

theorem Pass.sliceWrites_perm : (pass.sliceWrites ((pairs.drop offset).take count) binOffset).Perm
      (((pass.targets pairs).drop offset).take count) := by
  have length : ((pairs.drop offset).take count).length = count := by
    rw [List.length_take, List.length_drop]
    omega
  have lengthTargets : (((pass.targets pairs).drop offset).take count).length = count := by
    rw [List.length_take, List.length_drop, pass.length_targets]
    omega
  have fewValid : ((pairs.drop offset).take count).length ≤ pass.launch.sizes.sliceSize := by rwa [length]
  have padsLastValid : pass.PadsLast ((pairs.drop offset).take count) :=
    fun pair listed => padsLast pair (List.mem_of_mem_drop (List.mem_of_mem_take listed))
  have lengthWrites : (pass.sliceWrites ((pairs.drop offset).take count) binOffset).length = count := by
    unfold Pass.sliceWrites
    rw [List.length_mapIdx, List.length_take, length_distribute fun item _ => pass.digit_lt item.1,
      pass.length_loadSlice, length]
    omega
  have isRank : ∀ i < count, rankIn (pass.sliceDigits ((pairs.drop offset).take count)) i =
      rankIn (pass.digits ((pairs.drop offset).take count)) i :=
    fun i bound => pass.rankIn_sliceDigits fewValid padsLastValid (by omega)
  have digitsLength : (pass.digits ((pairs.drop offset).take count)).length = count := by
    rw [pass.digits_length, length]
  apply @perm_of_places _ _ _ (rankIn (pass.sliceDigits ((pairs.drop offset).take count)))
    (lengthWrites.trans lengthTargets.symm)
  · intro i bound
    rw [lengthTargets] at bound ⊢
    rw [isRank i bound]
    exact Nat.lt_of_lt_of_eq (rankIn_lt (by omega)) digitsLength
  · intro i bound j bound' same
    rw [lengthTargets] at bound bound'
    rw [isRank i bound, isRank j bound'] at same
    exact rankIn_injective (by omega) (by omega) same
  · intro i bound
    rw [lengthTargets] at bound
    exact pass.getElem?_sliceWrites inside few padsLast offsets bound

end

theorem drop_take_add {α : Type} (list : List α) {first second third : Nat} (le : first ≤ second)
    (le' : second ≤ third) : (list.drop first).take (third - first) =
      (list.drop first).take (second - first) ++ (list.drop second).take (third - second) := by
  have parts : third - first = (second - first) + (third - second) := by omega
  have back : first + (second - first) = second := by omega
  rw [parts, List.take_add, List.drop_drop, back]

theorem Pass.processRegion_perm (admitted : pass.launch.sizes.Admitted) (padsLast : pass.PadsLast pairs)
    {start stop : Nat} (ordered : start ≤ stop) (inside : stop ≤ pairs.length) {binOffset : Nat → Int}
    (offsets : pass.Offsets pairs start binOffset) : (pass.processRegion pairs start stop binOffset).Perm
      (((pass.targets pairs).drop start).take (stop - start)) := by
  have pos := admitted.sliceSize_pos
  have full := @strides_spec _ pass.launch.sizes.sliceSize stop
    (fun offset => pass.processSlice ((pairs.drop offset).take pass.launch.sizes.sliceSize))
    (fun offset scattering => start ≤ offset ∧ pass.Offsets pairs offset scattering.binOffset ∧
      scattering.writes.Perm (((pass.targets pairs).drop start).take (offset - start))) pos
    start { binOffset, writes := [] }
    ⟨Nat.le_refl _, offsets, by rw [Nat.sub_self, List.take_zero]⟩
    (by
      intro offset scattering le fits holds
      obtain ⟨_, offsetsHere, writesHere⟩ := holds
      obtain ⟨isWrites, isOffset⟩ := @Pass.processSlice_eq w V pass
        ((pairs.drop offset).take pass.launch.sizes.sliceSize) admitted scattering
      refine ⟨by omega, ?_, ?_⟩
      · intro bin isBin
        have whole : pass.sliceDigits ((pairs.drop offset).take pass.launch.sizes.sliceSize) =
            ((pass.digits pairs).drop offset).take pass.launch.sizes.sliceSize := by
          have validLength : ((pairs.drop offset).take pass.launch.sizes.sliceSize).length =
              pass.launch.sizes.sliceSize := by
            rw [List.length_take, List.length_drop]
            omega
          obtain ⟨pads, isDigits, _⟩ := pass.sliceDigits_eq (Nat.le_of_eq validLength)
          have total := congrArg List.length isDigits
          rw [List.length_append, pass.length_sliceDigits, pass.digits_length, validLength] at total
          have none : pads = [] := List.length_eq_zero_iff.1 (by omega)
          rw [isDigits, none, List.append_nil]
          unfold Pass.digits
          rw [List.map_take, List.map_drop]
        rw [isOffset bin isBin, offsetsHere bin isBin, whole, List.take_add, List.countP_append]
        push_cast
        omega
      · have added := @Pass.sliceWrites_perm w V pass pairs offset pass.launch.sizes.sliceSize
          (by omega) (Nat.le_refl _) padsLast _ offsetsHere
        rw [isWrites, drop_take_add _ le (Nat.le_add_right offset pass.launch.sizes.sliceSize), Nat.add_sub_cancel_left]
        exact writesHere.append added)
  unfold Pass.processRegion
  dsimp only
  generalize strides pass.launch.sizes.sliceSize stop
    (fun offset => pass.processSlice ((pairs.drop offset).take pass.launch.sizes.sliceSize)) start
    { binOffset, writes := [] } = afterSlices at *
  obtain ⟨⟨fromStart, offsetsHere, writesHere⟩, _, lastSlice, notBehind⟩ := full
  split
  next left =>
    have added := @Pass.sliceWrites_perm w V pass pairs afterSlices.1 (stop - afterSlices.1) (by omega)
      (by omega) padsLast _ offsetsHere
    rw [(pass.processSlice_eq admitted _).1, drop_take_add _ fromStart (Nat.le_of_lt left)]
    exact writesHere.append added
  next done =>
    have isStop : afterSlices.1 = stop := by omega
    rwa [isStop] at writesHere

end Slices

end Itex.Kernels.DeviceRadixSort
