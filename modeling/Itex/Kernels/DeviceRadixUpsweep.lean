import Itex.Kernels.DeviceRadixSort

/-!
Contract: the upsweep of the device radix sort.

Owns: that the byte counters are unpacked before one overflows, and that a group counts the
digits of its keys.
-/

namespace Itex.Kernels.DeviceRadixSort

open Finset Itex.Lib

/-- The template parameters the dispatcher has. -/
def Sizes.Admitted (sizes : Sizes) : Prop :=
  sizes = { groupSize := 256, subGroupSize := 16 } ∨ sizes = { groupSize := 512, subGroupSize := 32 } ∨
    sizes = { groupSize := 512, subGroupSize := 16 }

theorem Device.sizes_admitted (device : Device) : device.sizes.Admitted := by
  unfold Device.sizes Sizes.Admitted
  split
  · exact Or.inl rfl
  · split
    · exact Or.inr (Or.inl rfl)
    · exact Or.inr (Or.inr rfl)

namespace Sizes

variable {sizes : Sizes} (admitted : sizes.Admitted)

include admitted

theorem Admitted.groupSize_pos : 0 < sizes.groupSize := by
  rcases admitted with isSizes | isSizes | isSizes <;> rw [isSizes] <;> decide

theorem Admitted.sliceSize_pos : 0 < sizes.sliceSize := Nat.mul_pos (by decide) admitted.groupSize_pos

theorem Admitted.subGroupSize_pos : 0 < sizes.subGroupSize := by
  rcases admitted with isSizes | isSizes | isSizes <;> rw [isSizes] <;> decide

theorem Admitted.groupSize_eq : sizes.subGroupNum * sizes.subGroupSize = sizes.groupSize := by
  rcases admitted with isSizes | isSizes | isSizes <;> rw [isSizes] <;> decide

end Sizes

namespace Counting

section Rounds

variable (digitOf : Nat → Nat → Option Nat) (counting : Counting)

theorem countDigits_apply (digitOf : Nat → Option Nat) {row item sub : Nat} (isSub : sub < packingRatio) :
    (counting.countDigits digitOf).digitCounters row item sub = if digitOf item = some (row * packingRatio + sub) then
        (counting.digitCounters row item sub + 1) % 2 ^ 8 else counting.digitCounters row item sub := by
  unfold countDigits
  dsimp only
  cases isDigit : digitOf item with
  | none => simp
  | some digit =>
    have parts : digit / packingRatio = row ∧ digit % packingRatio = sub ↔ digit = row * packingRatio + sub := by
      unfold packingRatio at isSub ⊢
      omega
    simp only [parts, Option.some.injEq]

theorem foldl_countDigits_local (rounds : Nat) :
    ((List.range rounds).foldl (fun counting round => counting.countDigits (digitOf round))
      counting).localCounters = counting.localCounters := by
  induction rounds with
  | zero => rfl
  | succ rounds ih =>
    rw [List.range_succ, List.foldl_append]
    exact ih

theorem foldl_countDigits {row item sub : Nat} (isSub : sub < packingRatio) {rounds : Nat}
    (fits : counting.digitCounters row item sub + rounds < 2 ^ 8) :
    ((List.range rounds).foldl (fun counting round => counting.countDigits (digitOf round))
        counting).digitCounters row item sub = counting.digitCounters row item sub +
        ∑ round ∈ range rounds, if digitOf round item = some (row * packingRatio + sub) then 1 else 0 := by
  induction rounds with
  | zero => rfl
  | succ rounds ih =>
    have few : ∑ round ∈ range rounds,
        (if digitOf round item = some (row * packingRatio + sub) then 1 else 0) ≤ rounds := by
      calc _ ≤ ∑ round ∈ range rounds, 1 := by
            apply sum_le_sum
            intro round _
            split <;> omega
        _ = rounds := by simp
    rw [List.range_succ, List.foldl_append, List.foldl_cons, List.foldl_nil, countDigits_apply _ _ isSub,
      ih (by omega), sum_range_succ]
    split
    · rw [Nat.mod_eq_of_lt (by omega)]
      omega
    · omega

end Rounds

end Counting

/-! ## Keys of a group -/

/-- Whether a key before the end has a digit. -/
def hit (digitAt : Nat → Nat) (stop digit i : Nat) : Nat := if i < stop ∧ digitAt i = digit then 1 else 0

/-- How many keys from `start` on, `count` of them, have a digit. -/
def hits (digitAt : Nat → Nat) (stop digit start count : Nat) : Nat :=
  ∑ j ∈ range count, hit digitAt stop digit (start + j)

theorem hits_add (digitAt : Nat → Nat) (stop digit start first second : Nat) :
    hits digitAt stop digit start (first + second) =
      hits digitAt stop digit start first + hits digitAt stop digit (start + first) second := by
  unfold hits
  rw [sum_range_add]
  simp only [Nat.add_assoc]

section Group

variable {sizes : Sizes} (admitted : sizes.Admitted) (digitAt : Nat → Nat) (start stop : Nat)

/-- The counters hold the rounds since the keys at `base`. -/
def Counted (sizes : Sizes) (base rounds : Nat) (counting : Counting) : Prop :=
  ∀ row item sub, item < sizes.groupSize → sub < Counting.packingRatio →
    counting.digitCounters row item sub = ∑ round ∈ range rounds,
      hit digitAt stop (row * Counting.packingRatio + sub) (base + (item + round * sizes.groupSize))

/-- The unpacked counters hold the keys before `base`. -/
def Unpacked (sizes : Sizes) (base : Nat) (counting : Counting) : Prop :=
  ∀ digit < radixDigits, ∑ i ∈ range sizes.subGroupSize,
      counting.localCounters (digit / Counting.packingRatio * sizes.subGroupSize + i)
        (digit % Counting.packingRatio) =
    hits digitAt stop digit start (base - start)

variable {digitAt start stop} {base rounds : Nat} {counting : Counting}

section

variable (counted : Counted digitAt stop sizes base rounds counting)

include counted

theorem Counted.le {row item sub : Nat}
    (isItem : item < sizes.groupSize) (isSub : sub < Counting.packingRatio) :
    counting.digitCounters row item sub ≤ rounds := by
  rw [counted row item sub isItem isSub]
  calc _ ≤ ∑ round ∈ range rounds, 1 := by
        apply sum_le_sum
        intro round _
        unfold hit
        split <;> omega
    _ = rounds := by simp

theorem Counted.foldl {more : Nat} (digitOf : Nat → Nat → Option Nat) (fits : rounds + more < 2 ^ 8)
    (isDigit : ∀ round < more, ∀ item < sizes.groupSize, ∀ digit, (if digitOf round item = some digit then 1
      else 0) = hit digitAt stop digit (base + (item + (rounds + round) * sizes.groupSize))) :
    Counted digitAt stop sizes base (rounds + more)
      ((List.range more).foldl (fun counting round => counting.countDigits (digitOf round)) counting) := by
  intro row item sub isItem isSub
  have before := @Counted.le _ _ _ _ _ _ counted row item sub isItem isSub
  rw [Counting.foldl_countDigits digitOf counting isSub (by omega), counted row item sub isItem isSub, sum_range_add]
  congr 1
  apply sum_congr rfl
  intro round listed
  exact isDigit round (mem_range.1 listed) item isItem _

theorem Counted.fullSlice (fits : rounds + elemsPerItem < 2 ^ 8) (inside : base + rounds * sizes.groupSize + sizes.sliceSize ≤ stop) :
    Counted digitAt stop sizes base (rounds + elemsPerItem)
      (counting.processFullSlice sizes digitAt (base + rounds * sizes.groupSize)) := by
  apply counted.foldl (fun elem item =>
    some (digitAt (base + rounds * sizes.groupSize + (item + elem * sizes.groupSize)))) fits
  intro elem isElem item isItem digit
  have address : base + rounds * sizes.groupSize + (item + elem * sizes.groupSize) =
      base + (item + (rounds + elem) * sizes.groupSize) := by
    rw [Nat.add_mul]
    omega
  have last : elem * sizes.groupSize + sizes.groupSize ≤ sizes.sliceSize := by
    have := Nat.mul_le_mul_right sizes.groupSize (Nat.succ_le_of_lt isElem)
    rwa [Nat.succ_mul] at this
  rw [address]
  unfold hit
  have before : base + (item + (rounds + elem) * sizes.groupSize) < stop := by
    rw [← address]
    omega
  simp only [before, true_and, Option.some.injEq]

theorem Counted.partialSlice (fits : rounds + (stop - (base + rounds * sizes.groupSize) + sizes.groupSize - 1) / sizes.groupSize < 2 ^ 8) :
    Counted digitAt stop sizes base
      (rounds + (stop - (base + rounds * sizes.groupSize) + sizes.groupSize - 1) / sizes.groupSize)
      (counting.processPartialSlice sizes digitAt (base + rounds * sizes.groupSize) stop) := by
  apply counted.foldl (fun round item =>
    if base + rounds * sizes.groupSize + (item + round * sizes.groupSize) < stop then
      some (digitAt (base + rounds * sizes.groupSize + (item + round * sizes.groupSize))) else none) fits
  intro round _ item isItem digit
  have address : base + rounds * sizes.groupSize + (item + round * sizes.groupSize) =
      base + (item + (rounds + round) * sizes.groupSize) := by
    rw [Nat.add_mul]
    omega
  rw [address]
  unfold hit
  simp_all

end

theorem Counted.slices (counted : Counted digitAt stop sizes base 0 counting) {count : Nat}
    (fits : count * elemsPerItem < 2 ^ 8) (inside : base + count * sizes.sliceSize ≤ stop) :
    Counted digitAt stop sizes base (count * elemsPerItem) ((List.range count).foldl (fun counting i =>
        counting.processFullSlice sizes digitAt (base + i * sizes.sliceSize)) counting) := by
  induction count with
  | zero =>
    rw [Nat.zero_mul]
    exact counted
  | succ count ih =>
    rw [Nat.succ_mul] at fits inside
    have address : base + count * sizes.sliceSize = base + count * elemsPerItem * sizes.groupSize := by
      unfold Sizes.sliceSize
      rw [Nat.mul_assoc]
    rw [List.range_succ, List.foldl_append, List.foldl_cons, List.foldl_nil, Nat.succ_mul, address]
    exact (ih (by omega) (by omega)).fullSlice fits (by omega)

theorem slices_local (count : Nat) : ((List.range count).foldl (fun counting i =>
      counting.processFullSlice sizes digitAt (base + i * sizes.sliceSize)) counting).localCounters =
      counting.localCounters := by
  induction count with
  | zero => rfl
  | succ count ih =>
    rw [List.range_succ, List.foldl_append, List.foldl_cons, List.foldl_nil]
    exact (Counting.foldl_countDigits_local _ _ _).trans ih

include admitted

theorem Unpacked.unpack (unpacked : Unpacked digitAt start stop sizes base counting)
    (counted : Counted digitAt stop sizes base rounds counting) (from_ : start ≤ base) :
    Unpacked digitAt start stop sizes (base + rounds * sizes.groupSize) (counting.unpackDigitCounts sizes) := by
  intro digit isDigit
  have isLane : digit / Counting.packingRatio < Counting.counterLanes := by
    unfold Counting.counterLanes Counting.packingRatio
    have isDigits : radixDigits = 16 := rfl
    omega
  have isSub : digit % Counting.packingRatio < Counting.packingRatio := Nat.mod_lt _ (by decide)
  have whole : digit / Counting.packingRatio * Counting.packingRatio + digit % Counting.packingRatio = digit :=
    Nat.div_add_mod' _ _
  have pos := admitted.subGroupSize_pos
  have unpackedItem : ∀ i ∈ range sizes.subGroupSize, (counting.unpackDigitCounts sizes).localCounters
          (digit / Counting.packingRatio * sizes.subGroupSize + i) (digit % Counting.packingRatio) =
        counting.localCounters (digit / Counting.packingRatio * sizes.subGroupSize + i)
            (digit % Counting.packingRatio) +
          ∑ column ∈ range sizes.subGroupNum, counting.digitCounters (digit / Counting.packingRatio)
            (column * sizes.subGroupSize + i) (digit % Counting.packingRatio) := by
    intro i listed
    have inside := mem_range.1 listed
    have isGroup : (digit / Counting.packingRatio * sizes.subGroupSize + i) / sizes.subGroupSize =
        digit / Counting.packingRatio := by
      rw [Nat.add_comm, Nat.add_mul_div_right _ _ pos, Nat.div_eq_of_lt inside, Nat.zero_add]
    have isLocal : (digit / Counting.packingRatio * sizes.subGroupSize + i) % sizes.subGroupSize = i := by
      rw [Nat.add_comm, Nat.add_mul_mod_self_right, Nat.mod_eq_of_lt inside]
    unfold Counting.unpackDigitCounts
    dsimp only
    rw [isGroup, if_pos isLane, isLocal, foldl_add_eq_sum]
    simp only [Nat.add_comm i]
  have columns : ∑ i ∈ range sizes.subGroupSize, ∑ column ∈ range sizes.subGroupNum,
      counting.digitCounters (digit / Counting.packingRatio) (column * sizes.subGroupSize + i)
        (digit % Counting.packingRatio) =
      ∑ item ∈ range sizes.groupSize, counting.digitCounters (digit / Counting.packingRatio) item
        (digit % Counting.packingRatio) := by
    rw [sum_comm, ← admitted.groupSize_eq, sum_rows]
  have keys : ∑ item ∈ range sizes.groupSize, counting.digitCounters (digit / Counting.packingRatio) item
      (digit % Counting.packingRatio) = hits digitAt stop digit base (rounds * sizes.groupSize) := by
    unfold hits
    rw [sum_rows, sum_comm]
    apply sum_congr rfl
    intro item listed
    rw [counted _ item _ (mem_range.1 listed) isSub, whole]
    simp only [Nat.add_comm item]
  have split : base + rounds * sizes.groupSize - start = (base - start) + rounds * sizes.groupSize := by
    omega
  have back : start + (base - start) = base := by omega
  rw [sum_congr rfl unpackedItem, sum_add_distrib, unpacked digit isDigit, columns, keys, split, hits_add, back]

/-- A batch fits the bytes, and leaves them at zero. -/
theorem Unpacked.batch (unpacked : Unpacked digitAt start stop sizes base counting)
    (counted : Counted digitAt stop sizes base 0 counting) (from_ : start ≤ base)
    (inside : base + unrollCount * sizes.sliceSize ≤ stop) :
    Unpacked digitAt start stop sizes (base + unrollCount * sizes.sliceSize)
        (processBatch sizes digitAt base counting) ∧ Counted digitAt stop sizes (base + unrollCount * sizes.sliceSize) 0
        (processBatch sizes digitAt base counting) := by
  have slices := counted.slices (by decide : unrollCount * elemsPerItem < 2 ^ 8) inside
  have kept : Unpacked digitAt start stop sizes base ((List.range unrollCount).foldl (fun counting i =>
      counting.processFullSlice sizes digitAt (base + i * sizes.sliceSize)) counting) := by
    unfold Unpacked
    rw [slices_local]
    exact unpacked
  have address : base + unrollCount * sizes.sliceSize = base + unrollCount * elemsPerItem * sizes.groupSize := by
    unfold Sizes.sliceSize
    rw [Nat.mul_assoc]
  constructor
  · rw [address]
    exact kept.unpack admitted slices from_
  · intro row item sub _ _
    rfl

end Group

theorem upsweepGroup_eq {launch : Launch} (admitted : launch.sizes.Admitted) (digitAt : Nat → Nat) (wgId : Nat)
    (ordered : launch.wgOffset wgId ≤ launch.wgEnd wgId) {digit : Nat} (isDigit : digit < radixDigits) :
    upsweepGroup launch digitAt wgId digit =
      hits digitAt (launch.wgEnd wgId) digit (launch.wgOffset wgId) (launch.wgEnd wgId - launch.wgOffset wgId) := by
  have pos := admitted.groupSize_pos
  have slicePositive := admitted.sliceSize_pos
  have isSlice : launch.sizes.sliceSize = 4 * launch.sizes.groupSize := rfl
  have isBatch : unrollCount * launch.sizes.sliceSize = 252 * launch.sizes.groupSize := by
    rw [isSlice]
    show 63 * (4 * launch.sizes.groupSize) = _
    omega
  unfold upsweepGroup
  generalize launch.wgEnd wgId = stop at *
  generalize launch.wgOffset wgId = start at *
  -- whole batches
  have batches := @strides_spec _ (unrollCount * launch.sizes.sliceSize) stop
    (processBatch launch.sizes digitAt)
    (fun base counting => start ≤ base ∧ Unpacked digitAt start stop launch.sizes base counting ∧
      Counted digitAt stop launch.sizes base 0 counting) (by omega)
    start { digitCounters := Counting.reset, localCounters := fun _ _ => 0 }
    ⟨Nat.le_refl _, fun digit _ => by simp [hits], fun row item sub _ _ => rfl⟩
    (by
      intro base counting le inside holds
      obtain ⟨unpacked, counted⟩ := holds.2.1.batch admitted holds.2.2 le inside
      exact ⟨by omega, unpacked, counted⟩)
  generalize strides (unrollCount * launch.sizes.sliceSize) stop (processBatch launch.sizes digitAt) start
    { digitCounters := Counting.reset, localCounters := fun _ _ => 0 } = afterBatches at *
  obtain ⟨⟨fromStart, unpacked, counted⟩, _, fewLeft, notBehind⟩ := batches
  have baseLe : afterBatches.1 ≤ stop := by omega
  -- the slices that are left
  have slices := @strides_spec _ launch.sizes.sliceSize stop
    (fun offset counting => counting.processFullSlice launch.sizes digitAt offset)
    (fun offset counting => ∃ rounds, offset = afterBatches.1 + rounds * launch.sizes.groupSize ∧
      counting.localCounters = afterBatches.2.localCounters ∧
      Counted digitAt stop launch.sizes afterBatches.1 rounds counting) slicePositive
    afterBatches.1 afterBatches.2 ⟨0, by omega, rfl, counted⟩
    (by
      intro offset counting le inside holds
      obtain ⟨rounds, isOffset, same, counted⟩ := holds
      have few : rounds + 4 < 252 := by
        have bound : (rounds + 4) * launch.sizes.groupSize < 252 * launch.sizes.groupSize := by
          rw [Nat.add_mul]
          omega
        exact Nat.lt_of_mul_lt_mul_right bound
      refine ⟨rounds + elemsPerItem, ?_, ?_, ?_⟩
      · rw [isOffset, Nat.add_mul, Nat.add_assoc]
        rfl
      · exact (Counting.foldl_countDigits_local _ _ _).trans same
      · rw [isOffset] at inside ⊢
        exact counted.fullSlice (by unfold elemsPerItem; omega) inside)
  generalize strides launch.sizes.sliceSize stop (fun offset counting =>
    counting.processFullSlice launch.sizes digitAt offset) afterBatches.1 afterBatches.2 = afterSlices at *
  obtain ⟨⟨rounds, isOffset, same, countedSlices⟩, _, lastSlice, offsetLe⟩ := slices
  -- the partial slice
  have left : stop - (afterBatches.1 + rounds * launch.sizes.groupSize) < 4 * launch.sizes.groupSize := by
    omega
  have fewRounds : rounds < 252 := by
    have bound : rounds * launch.sizes.groupSize < 252 * launch.sizes.groupSize := by omega
    exact Nat.lt_of_mul_lt_mul_right bound
  have enough := Nat.div_add_mod' (stop - (afterBatches.1 + rounds * launch.sizes.groupSize) +
    launch.sizes.groupSize - 1) launch.sizes.groupSize
  have remainder := Nat.mod_lt (stop - (afterBatches.1 + rounds * launch.sizes.groupSize) +
    launch.sizes.groupSize - 1) pos
  have fewMore : (stop - (afterBatches.1 + rounds * launch.sizes.groupSize) + launch.sizes.groupSize - 1) /
      launch.sizes.groupSize < 5 := (Nat.div_lt_iff_lt_mul pos).2 (by omega)
  have countedAll := countedSlices.partialSlice (by omega)
  have keptAll : Unpacked digitAt start stop launch.sizes afterBatches.1
      (afterSlices.2.processPartialSlice launch.sizes digitAt
        (afterBatches.1 + rounds * launch.sizes.groupSize) stop) := by
    unfold Unpacked Counting.processPartialSlice
    rw [Counting.foldl_countDigits_local, same]
    exact unpacked
  have result := keptAll.unpack admitted countedAll fromStart digit isDigit
  unfold Counting.binCount
  rw [foldl_add_eq_sum, Nat.zero_add, isOffset, result]
  -- the rounds reach the end, and keys behind it are not counted
  generalize (stop - (afterBatches.1 + rounds * launch.sizes.groupSize) + launch.sizes.groupSize - 1) /
    launch.sizes.groupSize = more at *
  obtain ⟨beyond, isBeyond⟩ : ∃ beyond, afterBatches.1 + (rounds + more) * launch.sizes.groupSize - start =
      (stop - start) + beyond := by
    rw [Nat.add_mul]
    exact ⟨_, (Nat.add_sub_cancel' (by omega)).symm⟩
  rw [isBeyond, hits_add]
  have none : hits digitAt stop digit (start + (stop - start)) beyond = 0 := by
    apply sum_eq_zero
    intro j _
    exact if_neg (by omega)
  rw [none, Nat.add_zero]

end Itex.Kernels.DeviceRadixSort
