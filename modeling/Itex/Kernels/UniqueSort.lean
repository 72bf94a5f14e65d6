import Itex.Kernels.Unique

/-!
Contract: the two sorts of the unique op.

Owns: when a sort leaves the stably sorted pairs in its outputs, and what it leaves there
otherwise.
-/

namespace Itex.Kernels.Unique

open Itex.Lib Itex.Utils

def sortKey (keyType : KeyType) (pair : Pair) : Nat := (keyType.kind.convert false pair.1).toNat

/-- `DispatchDeviceRadixSort` sorts pairs with integer keys, and is stable. -/
def IsStableSort (deviceSort : DeviceRadixSort) : Prop :=
  ∀ pairs, StableSorted (sortKey .int32) pairs (deviceSort pairs)

def indexed (keysIn : List (BitVec 32)) : List Pair :=
  keysIn.zip ((List.range keysIn.length).map (BitVec.ofNat 32))

theorem length_indexed (keysIn : List (BitVec 32)) : (indexed keysIn).length = keysIn.length := by
  unfold indexed
  simp

theorem getElem?_indexed {keysIn : List (BitVec 32)} {k : Nat} {key : BitVec 32}
    (atK : keysIn[k]? = some key) : (indexed keysIn)[k]? = some (key, BitVec.ofNat 32 k) := by
  have bound := read_lt atK
  unfold indexed
  rw [List.getElem?_zip_eq_some]
  refine ⟨atK, ?_⟩
  rw [List.getElem?_map, List.getElem?_range bound]
  rfl

def pads (keyType : KeyType) (boxIds : Nat → BitVec 32) (count : Nat) : List Pair :=
  (List.range (keysPerGroup - count)).map fun i => (keyType.maxValue, boxIds (count + i))

theorem length_padded (keyType : KeyType) (boxIds : Nat → BitVec 32) (instances : List Pair) :
    (padded keyType boxIds instances).length = keysPerGroup := by
  unfold padded
  rw [List.length_map, List.length_range]

theorem padded_eq (keyType : KeyType) (boxIds : Nat → BitVec 32) {instances : List Pair}
    (few : instances.length ≤ keysPerGroup) :
    padded keyType boxIds instances = instances ++ pads keyType boxIds instances.length := by
  apply List.ext_getElem?
  intro i
  unfold padded pads
  by_cases inside : i < instances.length
  · rw [List.getElem?_append_left inside, List.getElem?_map,
      List.getElem?_range (Nat.lt_of_lt_of_le inside few), List.getElem?_eq_getElem inside]
    simp [inside]
  · have beyond := Nat.le_of_not_lt inside
    rw [List.getElem?_append_right beyond, List.getElem?_map, List.getElem?_map]
    by_cases registers : i < keysPerGroup
    · rw [List.getElem?_range registers, List.getElem?_range (by omega)]
      simp only [Option.map_some]
      rw [List.getElem?_eq_none beyond, Nat.add_sub_cancel' beyond]
    · rw [List.getElem?_eq_none (by simpa using registers), List.getElem?_eq_none (by simp; omega)]
      rfl

/-- The group sort has a work item and a counter for each register. -/
theorem sortor_holds (keyType : KeyType) : (sortor keyType).radixRank.Holds keysPerGroup where
  subGroup := (by decide : 0 < 16)
  items := (by decide : 0 < 8)
  keys := (by decide : 2048 ≤ 16 * 16 * 8)
  counter := (by decide : 2048 < 2 ^ 16)
  positions := (by decide : 2 ^ 3 * (16 * 16) * 2 ≤ 2 ^ 16)

section Dispatch

variable {deviceSort : DeviceRadixSort} {keyType : KeyType} {keysIn keysOut indicesOut : List (BitVec 32)}
  {boxIds : Nat → BitVec 32} {sorted : List Pair}

/-- The outputs of the sort are those of the group sort. -/
def InGroup (keyType : KeyType) (size : Nat) : Prop :=
  ¬ (keysPerGroup < size ∧ keyType.isFloatingPoint = false)

theorem dispatch_device (stable : IsStableSort deviceSort) (many : keysPerGroup < keysIn.length)
    (isInt : keyType = .int32) :
    ∃ sorted, dispatchRadixSort deviceSort keyType keysIn boxIds keysOut indicesOut = .ok sorted ∧
      StableSorted (sortKey keyType) (indexed keysIn) sorted := by
  refine ⟨deviceSort (indexed keysIn), ?_, ?_⟩
  · unfold dispatchRadixSort
    dsimp only
    rw [if_neg (by omega), if_pos ⟨many, by rw [isInt]; rfl⟩]
    rfl
  · rw [isInt]
    exact stable _

theorem dispatch_group (nonempty : keysIn ≠ []) (inGroup : InGroup keyType keysIn.length) :
    ∃ inRegisters sorted, StableSorted (sortKey keyType) (padded keyType boxIds (indexed keysIn))
        inRegisters ∧
      dispatchRadixSort deviceSort keyType keysIn boxIds keysOut indicesOut = .ok sorted ∧
      ∀ j, sorted[j]? = if j < keysPerGroup ∧ j < (keysOut.zip indicesOut).length ∧ j < keysIn.length then
        inRegisters[j]? else (keysOut.zip indicesOut)[j]? := by
  have holds : (sortor keyType).radixRank.Holds (padded keyType boxIds (indexed keysIn)).length := by
    rw [length_padded]
    exact sortor_holds keyType
  obtain ⟨inRegisters, isSorted, places⟩ := (sortor keyType).sort_spec false (by decide : 0 < 32)
    (padded keyType boxIds (indexed keysIn)) (keysOut.zip indicesOut) keysIn.length holds
  have size : ¬ keysIn.length = 0 := fun isZero => nonempty (List.length_eq_zero_iff.1 isZero)
  refine ⟨inRegisters, (sortor keyType).sort false (padded keyType boxIds (indexed keysIn))
    (keysOut.zip indicesOut) keysIn.length 0 32, isSorted, ?_, ?_⟩
  · unfold dispatchRadixSort
    dsimp only
    rw [if_neg size, if_neg inGroup]
    rfl
  · intro j
    rw [places j, length_padded]

theorem dispatch_sorted (stable : IsStableSort deviceSort) (nonempty : keysIn ≠ [])
    (roomKeys : keysOut.length = keysIn.length) (roomIndices : indicesOut.length = keysIn.length)
    (reached : keyType = .int32 ∨ keysIn.length ≤ keysPerGroup) (below : keysIn.length = keysPerGroup ∨
      ∀ pair ∈ indexed keysIn, sortKey keyType pair ≤ sortKey keyType (keyType.maxValue, 0)) :
    ∃ sorted, dispatchRadixSort deviceSort keyType keysIn boxIds keysOut indicesOut = .ok sorted ∧
      StableSorted (sortKey keyType) (indexed keysIn) sorted := by
  by_cases few : keysIn.length ≤ keysPerGroup
  · have inGroup : InGroup keyType keysIn.length := fun both => absurd both.1 (Nat.not_lt.2 few)
    obtain ⟨inRegisters, sorted, isSorted, isOk, places⟩ := dispatch_group nonempty inGroup
    obtain ⟨ordered, isOrdered⟩ := exists_stableSorted (sortKey keyType) (indexed keysIn)
    rw [padded_eq keyType boxIds (by rwa [length_indexed])] at isSorted
    have isAppended : inRegisters = ordered ++ pads keyType boxIds (indexed keysIn).length := by
      apply isSorted.unique
      rcases below with full | below
      · have noPads : pads keyType boxIds (indexed keysIn).length = [] := by
          unfold pads
          rw [length_indexed, full, Nat.sub_self]
          rfl
        rw [noPads, List.append_nil, List.append_nil]
        exact isOrdered
      · apply isOrdered.append below
        intro pad listed
        obtain ⟨i, _, isPad⟩ := List.mem_map.1 listed
        rw [← isPad]
        rfl
    refine ⟨sorted, isOk, ?_⟩
    have same : sorted = ordered := by
      apply List.ext_getElem?
      intro j
      have room : (keysOut.zip indicesOut).length = keysIn.length := by simp [roomKeys, roomIndices]
      have length := isOrdered.length_eq
      rw [length_indexed] at length
      rw [places j, isAppended]
      by_cases inside : j < keysIn.length
      · rw [if_pos ⟨by omega, by omega, inside⟩, List.getElem?_append_left (by omega)]
      · rw [if_neg (fun all => inside all.2.2), List.getElem?_eq_none (by omega), List.getElem?_eq_none (by omega)]
    rw [same]
    exact isOrdered
  · have isInt : keyType = .int32 := by
      rcases reached with isInt | few'
      · exact isInt
      · exact absurd few' few
    exact dispatch_device stable (Nat.lt_of_not_le few) isInt

end Dispatch

end Itex.Kernels.Unique
