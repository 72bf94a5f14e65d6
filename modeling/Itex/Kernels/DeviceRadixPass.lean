import Itex.Kernels.DeviceRadixDownsweep

/-!
Contract: a pass of the device radix sort.

Owns: that the regions of the work groups make up the input, the offsets the scanned counts give
to the groups, and that a pass distributes the pairs by their digit.
-/

namespace Itex.Kernels.DeviceRadixSort

open Finset Itex.Lib

section Regions

variable {launch : Launch}

/-- Where the slices of a group begin. -/
def Launch.base (launch : Launch) (wgId : Nat) : Nat :=
  launch.sizes.sliceSize * (wgId * launch.avgSlicesPerWg + min wgId launch.bigShares)

/-- The first key of a group; behind the last group, the end of the keys. -/
def Launch.starts (launch : Launch) (wgId : Nat) : Nat := min launch.sortSize (launch.base wgId)

theorem Launch.wgOffset_eq_base (wgId : Nat) : launch.wgOffset wgId = launch.base wgId := by
  unfold Launch.wgOffset Launch.base Launch.bigShareElems Launch.normalBaseOffset Launch.normalShareElems
  split
  next isBig =>
    rw [Nat.min_eq_left (Nat.le_of_lt isBig)]
    ring
  next isNormal =>
    rw [Nat.min_eq_right (Nat.le_of_not_lt isNormal)]
    ring

theorem Launch.base_succ (wgId : Nat) : launch.base (wgId + 1) = launch.base wgId +
    if wgId < launch.bigShares then launch.bigShareElems else launch.normalShareElems := by
  unfold Launch.base Launch.bigShareElems Launch.normalShareElems
  grind

variable (admitted : launch.sizes.Admitted) (pos : 0 < launch.sortSize)
  (resident : 0 < launch.maxWorkgroupNum)

include admitted pos in
/-- The slices reach the end of the keys, and all but the last do not. -/
theorem Launch.totalSlices_bounds : launch.sortSize ≤ launch.sizes.sliceSize * launch.totalSlices ∧
    launch.sizes.sliceSize * (launch.totalSlices - 1) < launch.sortSize ∧ 0 < launch.totalSlices := by
  have slicePositive := admitted.sliceSize_pos
  have whole := Nat.div_add_mod (launch.sortSize + launch.sizes.sliceSize - 1) launch.sizes.sliceSize
  have rest := Nat.mod_lt (launch.sortSize + launch.sizes.sliceSize - 1) slicePositive
  have some : 0 < launch.totalSlices :=
    Nat.div_pos (by omega : launch.sizes.sliceSize ≤ launch.sortSize + launch.sizes.sliceSize - 1) slicePositive
  have isTotal : launch.totalSlices = (launch.sortSize + launch.sizes.sliceSize - 1) / launch.sizes.sliceSize := rfl
  rw [← isTotal] at whole
  refine ⟨by omega, ?_, some⟩
  rw [Nat.mul_sub, Nat.mul_one]
  omega

include admitted pos resident

theorem Launch.workgroupNum_pos : 0 < launch.workgroupNum :=
  Nat.lt_min.2 ⟨(Launch.totalSlices_bounds admitted pos).2.2, resident⟩

theorem Launch.shares : launch.avgSlicesPerWg * launch.workgroupNum + launch.bigShares = launch.totalSlices ∧
    launch.bigShares < launch.workgroupNum ∧ 0 < launch.avgSlicesPerWg := by
  have somes := Launch.workgroupNum_pos admitted pos resident
  have whole := Nat.div_add_mod' launch.totalSlices launch.workgroupNum
  have rest := Nat.mod_lt launch.totalSlices somes
  have average : 0 < launch.avgSlicesPerWg := Nat.div_pos (Nat.min_le_left _ _) somes
  have isAverage : launch.avgSlicesPerWg = launch.totalSlices / launch.workgroupNum := rfl
  rw [← isAverage] at whole
  unfold Launch.bigShares
  omega

section

variable {wgId : Nat} (isGroup : wgId < launch.workgroupNum)

include isGroup

theorem Launch.base_lt : launch.base wgId < launch.sortSize := by
  obtain ⟨shared, few, average⟩ := Launch.shares admitted pos resident
  obtain ⟨_, below, _⟩ := Launch.totalSlices_bounds admitted pos
  apply Nat.lt_of_le_of_lt _ below
  apply Nat.mul_le_mul_left
  have others : wgId * launch.avgSlicesPerWg + launch.avgSlicesPerWg ≤
      launch.avgSlicesPerWg * launch.workgroupNum := by
    rw [← Nat.succ_mul, Nat.mul_comm launch.avgSlicesPerWg]
    exact Nat.mul_le_mul_right _ isGroup
  have := Nat.min_le_right wgId launch.bigShares
  omega

theorem Launch.wgOffset_eq : launch.wgOffset wgId = launch.starts wgId := by
  rw [Launch.wgOffset_eq_base]
  exact (Nat.min_eq_right (Nat.le_of_lt (Launch.base_lt admitted pos resident isGroup))).symm

theorem Launch.wgEnd_eq : launch.wgEnd wgId = launch.starts (wgId + 1) := by
  obtain ⟨_, few, _⟩ := Launch.shares admitted pos resident
  unfold Launch.wgEnd Launch.starts
  rw [Launch.wgOffset_eq_base, Launch.base_succ]
  split
  next isBig =>
    have next := Launch.base_lt admitted pos resident (show wgId + 1 < launch.workgroupNum by omega)
    rw [Launch.base_succ, if_pos isBig] at next
    exact (Nat.min_eq_right (Nat.le_of_lt next)).symm
  next => rfl

end

theorem Launch.starts_last : launch.starts launch.workgroupNum = launch.sortSize := by
  obtain ⟨shared, few, _⟩ := Launch.shares admitted pos resident
  apply Nat.min_eq_left
  unfold Launch.base
  rw [Nat.min_eq_right (Nat.le_of_lt few), Nat.mul_comm launch.workgroupNum, shared]
  exact (Launch.totalSlices_bounds admitted pos).1

omit admitted pos resident in
theorem Launch.starts_zero : launch.starts 0 = 0 := by
  unfold Launch.starts Launch.base
  simp

omit admitted pos resident in
theorem Launch.starts_mono (wgId : Nat) : launch.starts wgId ≤ launch.starts (wgId + 1) := by
  unfold Launch.starts
  rw [Launch.base_succ]
  omega

omit admitted pos resident in
theorem Launch.starts_le (wgId : Nat) : launch.starts wgId ≤ launch.sortSize := Nat.min_le_left _ _

end Regions

/-! ## Counts -/

/-- Every count is replaced by the sum of those before it. -/
def IsExclusiveScan (scanBins : List Nat → List Nat) : Prop :=
  ∀ counts, scanBins counts = (List.range counts.length).map fun i => (counts.take i).sum

section Counts

variable {launch : Launch} {digits : List Nat} (admitted : launch.sizes.Admitted)
  (pos : 0 < launch.sortSize) (resident : 0 < launch.maxWorkgroupNum)
  (length : digits.length = launch.sortSize)

theorem countP_add_hits {digit start stop : Nat} (ordered : start ≤ stop) (inside : stop ≤ digits.length) :
    (digits.take start).countP (· = digit) + hits (fun i => digits.getD i 0) stop digit start (stop - start) =
      (digits.take stop).countP (· = digit) := by
  have parts : stop = start + (stop - start) := by omega
  rw [countP_take_eq_sum _ (Nat.le_trans ordered inside), countP_take_eq_sum _ inside]
  conv_rhs => rw [parts, sum_range_add]
  congr 1
  apply sum_congr rfl
  intro j listed
  have before := mem_range.1 listed
  unfold hit
  have isBefore : start + j < stop := by omega
  simp [isBefore]

include admitted pos resident length

theorem sum_upsweepGroup {digit : Nat} (isDigit : digit < radixDigits) {groups : Nat}
    (le : groups ≤ launch.workgroupNum) :
    ∑ wgId ∈ range groups, upsweepGroup launch (fun i => digits.getD i 0) wgId digit =
      (digits.take (launch.starts groups)).countP (· = digit) := by
  induction groups with
  | zero =>
    rw [Launch.starts_zero]
    rfl
  | succ groups ih =>
    have isGroup : groups < launch.workgroupNum := le
    have mono := launch.starts_mono groups
    rw [sum_range_succ, ih (Nat.le_of_lt isGroup), upsweepGroup_eq admitted _ groups _ isDigit,
      Launch.wgOffset_eq admitted pos resident isGroup,
      Launch.wgEnd_eq admitted pos resident isGroup]
    · exact countP_add_hits mono (by rw [length]; exact launch.starts_le _)
    · rw [Launch.wgOffset_eq admitted pos resident isGroup, Launch.wgEnd_eq admitted pos resident isGroup]
      exact mono

theorem sum_upsweepGroups {bin : Nat} (isBin : bin ≤ radixDigits) :
    ∑ digit ∈ range bin, ∑ wgId ∈ range launch.workgroupNum, upsweepGroup launch (fun i => digits.getD i 0) wgId digit =
      digits.countP (· < bin) := by
  induction bin with
  | zero =>
    rw [range_zero, sum_empty, eq_comm, List.countP_eq_zero]
    intro digit _
    simp
  | succ bin ih =>
    rw [sum_range_succ, ih (Nat.le_of_lt isBin), countP_lt_succ,
      sum_upsweepGroup admitted pos resident length isBin (Nat.le_refl _),
      Launch.starts_last admitted pos resident, ← length, List.take_length]

omit admitted pos resident length in
theorem mem_upsweepWrites {schedule : List Nat} {digitAt : Nat → Nat} {wgId bin : Nat} (runs : wgId ∈ schedule)
    (isBin : bin < radixDigits) : (launch.workgroupNum * bin + wgId, upsweepGroup launch digitAt wgId bin) ∈
      schedule.flatMap fun wgId => upsweepWrites launch digitAt wgId := by
  apply List.mem_flatMap.2
  exact ⟨wgId, runs, List.mem_map.2 ⟨bin, List.mem_range.2 isBin, rfl⟩⟩

omit admitted pos resident length in
/-- No two groups, and no two bins of a group, write the same count. -/
theorem nodup_upsweepWrites {schedule : List Nat} {digitAt : Nat → Nat}
    (all : schedule.Perm (List.range launch.workgroupNum)) :
    ((schedule.flatMap fun wgId => upsweepWrites launch digitAt wgId).map Prod.fst).Nodup := by
  have below : ∀ wgId ∈ schedule, wgId < launch.workgroupNum :=
    fun wgId runs => List.mem_range.1 (all.mem_iff.1 runs)
  have isWrite : ∀ wgId, (upsweepWrites launch digitAt wgId).map Prod.fst =
      (List.range radixDigits).map fun bin => launch.workgroupNum * bin + wgId := by
    intro wgId
    unfold upsweepWrites
    rw [List.map_map]
    rfl
  rw [List.map_flatMap]
  simp only [isWrite]
  rw [List.nodup_flatMap]
  constructor
  · intro wgId runs
    have some : 0 < launch.workgroupNum := Nat.lt_of_le_of_lt (Nat.zero_le _) (below wgId runs)
    apply List.Nodup.map _ List.nodup_range
    intro bin bin' same
    exact Nat.eq_of_mul_eq_mul_left some (Nat.add_right_cancel same)
  · have nodup : schedule.Nodup := all.nodup_iff.2 List.nodup_range
    apply nodup.imp_of_mem
    intro wgId wgId' runs runs' apart address listed listed'
    obtain ⟨bin, _, isAddress⟩ := List.mem_map.1 listed
    obtain ⟨bin', _, isAddress'⟩ := List.mem_map.1 listed'
    apply apart
    have same : (launch.workgroupNum * bin + wgId) % launch.workgroupNum =
        (launch.workgroupNum * bin' + wgId') % launch.workgroupNum := by
      rw [isAddress, isAddress']
    rwa [Nat.mul_add_mod, Nat.mul_add_mod, Nat.mod_eq_of_lt (below wgId runs),
      Nat.mod_eq_of_lt (below wgId' runs')] at same

variable {scanBins : List Nat → List Nat} (exclusive : IsExclusiveScan scanBins) {schedule counts : List Nat}
  (all : schedule.Perm (List.range launch.workgroupNum))
  (room : launch.workgroupNum * radixDigits ≤ counts.length)

include exclusive all room

theorem scanned_eq {wgId bin : Nat} (isGroup : wgId < launch.workgroupNum) (isBin : bin < radixDigits) :
    (scanBins (scatter counts (schedule.flatMap fun wgId =>
        upsweepWrites launch (fun i => digits.getD i 0) wgId))).getD (launch.workgroupNum * bin + wgId) 0 =
      digits.countP (· < bin) + (digits.take (launch.starts wgId)).countP (· = bin) := by
  have lengthCounts := length_scatter counts (schedule.flatMap fun wgId =>
    upsweepWrites launch (fun i => digits.getD i 0) wgId)
  have isCount : ∀ wgId < launch.workgroupNum, ∀ bin < radixDigits, (scatter counts (schedule.flatMap fun wgId =>
        upsweepWrites launch (fun i => digits.getD i 0) wgId)).getD (bin * launch.workgroupNum + wgId) 0 =
      upsweepGroup launch (fun i => digits.getD i 0) wgId bin := by
    intro wgId isGroup bin isBin
    have inside : launch.workgroupNum * bin + wgId < counts.length := by
      have rows := Nat.mul_le_mul_left launch.workgroupNum (Nat.succ_le_of_lt isBin)
      rw [Nat.mul_succ] at rows
      omega
    have written := getElem?_scatter (nodup_upsweepWrites all)
      (@mem_upsweepWrites launch schedule (fun i => digits.getD i 0) wgId bin
        (all.mem_iff.2 (List.mem_range.2 isGroup)) isBin) inside
    rw [Nat.mul_comm bin, List.getD_eq_getElem?_getD, written]
    rfl
  have inside : launch.workgroupNum * bin + wgId < counts.length := by
    have rows := Nat.mul_le_mul_left launch.workgroupNum (Nat.succ_le_of_lt isBin)
    rw [Nat.mul_succ] at rows
    omega
  generalize scatter counts (schedule.flatMap fun wgId =>
    upsweepWrites launch (fun i => digits.getD i 0) wgId) = counted at *
  have prefixSum : (counted.take (launch.workgroupNum * bin + wgId)).sum =
      ∑ address ∈ range (bin * launch.workgroupNum + wgId), counted.getD address 0 := by
    rw [Nat.mul_comm]
    apply sum_take
    rw [lengthCounts, Nat.mul_comm]
    exact Nat.le_of_lt inside
  rw [exclusive, List.getD_eq_getElem?_getD, List.getElem?_map, List.getElem?_range (by omega), Option.map_some,
    Option.getD_some, prefixSum, sum_range_add, sum_rows]
  have rows : ∑ row ∈ range bin, ∑ column ∈ range launch.workgroupNum,
      counted.getD (row * launch.workgroupNum + column) 0 = digits.countP (· < bin) := by
    rw [← sum_upsweepGroups admitted pos resident length (Nat.le_of_lt isBin)]
    apply sum_congr rfl
    intro row listed
    apply sum_congr rfl
    intro column listed'
    exact isCount column (mem_range.1 listed') row (Nat.lt_trans (mem_range.1 listed) isBin)
  have own : ∑ column ∈ range wgId, counted.getD (bin * launch.workgroupNum + column) 0 =
      (digits.take (launch.starts wgId)).countP (· = bin) := by
    rw [← sum_upsweepGroup admitted pos resident length isBin (Nat.le_of_lt isGroup)]
    apply sum_congr rfl
    intro column listed
    exact isCount column (Nat.lt_trans (mem_range.1 listed) isGroup) bin isBin
  rw [rows, own]

end Counts

section Pass

variable {w : Nat} {V : Type} (pass : Pass w V) {pairs : List (Pair w V)}

theorem flatMap_regions {α : Type} (launch : Launch) (list : List α) (groups : Nat) :
    ((List.range groups).flatMap fun wgId => (list.drop (launch.starts wgId)).take
        (launch.starts (wgId + 1) - launch.starts wgId)) = list.take (launch.starts groups) := by
  induction groups with
  | zero =>
    rw [Launch.starts_zero]
    rfl
  | succ groups ih =>
    have joined := drop_take_add list (Nat.zero_le (launch.starts groups)) (launch.starts_mono groups)
    rw [List.drop_zero, Nat.sub_zero, Nat.sub_zero] at joined
    rw [List.range_succ, List.flatMap_append, ih, joined]
    simp

variable (admitted : pass.launch.sizes.Admitted) (nonempty : pairs ≠ [])
  (isSize : pass.launch.sortSize = pairs.length) (resident : 0 < pass.launch.maxWorkgroupNum)
  (padsLast : pass.PadsLast pairs) {scanBins : List Nat → List Nat} (exclusive : IsExclusiveScan scanBins)
  {schedule counts : List Nat} (all : schedule.Perm (List.range pass.launch.workgroupNum))
  (room : pass.launch.workgroupNum * radixDigits ≤ counts.length)

include admitted nonempty isSize resident padsLast exclusive all room

/-- All groups together write every pair to its place. -/
theorem Pass.writes_perm : (schedule.flatMap fun wgId => pass.downsweepWrites pairs
      (scanBins (scatter counts (schedule.flatMap fun wgId =>
        upsweepWrites pass.launch (fun i => (pass.digits pairs).getD i 0) wgId))) wgId).Perm (pass.targets pairs) := by
  have pos : 0 < pass.launch.sortSize := by
    rw [isSize]
    exact List.length_pos_of_ne_nil nonempty
  have length : (pass.digits pairs).length = pass.launch.sortSize := by
    rw [pass.digits_length, isSize]
  have regions : pass.targets pairs = (List.range pass.launch.workgroupNum).flatMap fun wgId =>
      ((pass.targets pairs).drop (pass.launch.starts wgId)).take
        (pass.launch.starts (wgId + 1) - pass.launch.starts wgId) := by
    rw [flatMap_regions, Launch.starts_last admitted pos resident, isSize, ← pass.length_targets, List.take_length]
  rw [regions]
  apply (all.flatMap_right _).trans
  apply List.Perm.flatMap_left
  intro wgId listed
  have isGroup := List.mem_range.1 listed
  unfold Pass.downsweepWrites
  rw [Launch.wgOffset_eq admitted pos resident isGroup, Launch.wgEnd_eq admitted pos resident isGroup]
  apply pass.processRegion_perm admitted padsLast (pass.launch.starts_mono wgId)
    (by rw [← isSize]; exact pass.launch.starts_le _)
  intro bin isBin
  dsimp only
  rw [scanned_eq admitted pos resident length exclusive all room isGroup isBin]
  push_cast
  rfl

omit admitted nonempty isSize resident padsLast exclusive all room in
theorem Pass.scatter_targets {writes : List (Int × Pair w V)} (toTargets : writes.Perm (pass.targets pairs))
    {out : List (Pair w V)} (roomOut : out.length = pairs.length) :
    scatter out (writes.map fun write => (write.1.toNat, write.2)) =
      (distribute pass.digitOf radixDigits pairs).map pass.back := by
  have inside : ∀ pair ∈ pairs, pass.digitOf pair < radixDigits := fun pair _ => pass.digit_lt _
  have nodup : ((writes.map fun write => (write.1.toNat, write.2)).map Prod.fst).Nodup := by
    have ranks : ((pass.targets pairs).map fun write => write.1.toNat) =
        (List.range (pass.digits pairs).length).map (rankIn (pass.digits pairs)) := by
      apply List.ext_getElem
      · simp [Pass.targets, Pass.digits]
      · intro i bound _
        simp [Pass.targets]
    rw [List.map_map]
    apply (toTargets.map _).nodup_iff.2
    show ((pass.targets pairs).map fun write => write.1.toNat).Nodup
    rw [ranks]
    exact nodup_ranks _
  apply List.ext_getElem?
  intro j
  by_cases bound : j < pairs.length
  · obtain ⟨i, boundI, isRank⟩ := exists_rankIn_eq (show j < (pass.digits pairs).length by rwa [pass.digits_length])
    rw [pass.digits_length] at boundI
    have listed : (j, pass.back pairs[i]) ∈ writes.map fun write => (write.1.toNat, write.2) := by
      apply List.mem_map.2
      refine ⟨((j : Int), pass.back pairs[i]), ?_, rfl⟩
      rw [toTargets.mem_iff, ← isRank]
      exact List.mem_mapIdx.2 ⟨i, boundI, rfl⟩
    have written := getElem?_scatter nodup listed (by rw [roomOut]; exact bound)
    have isPlaced := getElem?_distribute inside (List.getElem?_eq_getElem boundI)
    have isRank' : rankIn (pairs.map pass.digitOf) i = j := isRank
    rw [isRank'] at isPlaced
    rw [List.getElem?_map, isPlaced]
    exact written
  · rw [List.getElem?_eq_none (by rw [length_scatter]; omega),
      List.getElem?_eq_none (by rw [List.length_map, length_distribute inside]; omega)]

theorem Pass.run_eq {out : List (Pair w V)} (roomOut : out.length = pairs.length) :
    ∃ counts', pass.run scanBins schedule counts pairs out =
        some (counts', (distribute pass.digitOf radixDigits pairs).map pass.back) ∧ counts'.length = counts.length := by
  have writes := pass.writes_perm admitted nonempty isSize resident padsLast exclusive all room
  have addresses : ∀ write ∈ pass.targets pairs, 0 ≤ write.1 ∧ write.1 < (out.length : Int) := by
    intro write listed
    obtain ⟨i, bound, isWrite⟩ := List.mem_mapIdx.1 listed
    rw [← isWrite]
    have below := rankIn_lt (show i < (pass.digits pairs).length by rwa [pass.digits_length])
    rw [pass.digits_length] at below
    show (0 : Int) ≤ (rankIn (pass.digits pairs) i : Int) ∧ (rankIn (pass.digits pairs) i : Int) < out.length
    omega
  refine ⟨scanBins (scatter counts (schedule.flatMap fun wgId =>
    upsweepWrites pass.launch (fun i => (pass.digits pairs).getD i 0) wgId)), ?_, ?_⟩
  · show (storeAll out (schedule.flatMap fun wgId => pass.downsweepWrites pairs
      (scanBins (scatter counts (schedule.flatMap fun wgId =>
        upsweepWrites pass.launch (fun i => (pass.digits pairs).getD i 0) wgId))) wgId)).map _ = _
    unfold storeAll
    rw [if_pos fun write listed => addresses write (writes.mem_iff.1 listed), pass.scatter_targets writes roomOut]
    rfl
  · rw [exclusive, List.length_map, List.length_range, length_scatter]

end Pass

end Itex.Kernels.DeviceRadixSort
