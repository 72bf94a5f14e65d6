import Itex.Kernels.UniqueSort
import Itex.Lib.Runs

/-!
Contract: the stages of the unique op between and after its sorts.

Owns: the order of indices behind a sort, the ids the scan gives to runs of equal keys, and what
each of the three kernels leaves in memory.
-/

namespace Itex.Kernels.Unique

open Itex.Lib Itex.Utils Finset

variable {address i p : Nat} {memory : List (BitVec 32)}

theorem load_eq_ok {value : BitVec 32} :
    load memory address = .ok value ↔ memory[address]? = some value := by
  unfold load
  cases memory[address]? with
  | none => simp
  | some other => simp

theorem store_ok (inside : address < memory.length)
    (value : BitVec 32) : store memory address value = .ok (memory.set address value) :=
  if_pos inside

theorem length_allocate (uninit : Uninit) (buffer : Buffer) (size : Nat) :
    (allocate uninit buffer size).length = size := by
  unfold allocate
  rw [List.length_map, List.length_range]

theorem getD_map {α β : Type} (f : α → β) {list : List α} (inside : i < list.length) (other : α)
    (other' : β) : (list.map f).getD i other' = f (list.getD i other) := by
  rw [List.getD_eq_getElem?_getD, List.getElem?_map, List.getD_eq_getElem?_getD, List.getElem?_eq_getElem inside]
  rfl

theorem toNat_ofNat {k : Nat} (small : k < 2 ^ 32) : (BitVec.ofNat 32 k).toNat = k := by
  rw [BitVec.toNat_ofNat]
  exact Nat.mod_eq_of_lt small

def keyAt (input : List (BitVec 32)) (k : Nat) : BitVec 32 := input.getD k 0

def radixAt (keyType : KeyType) (input : List (BitVec 32)) (k : Nat) : Nat :=
  (keyType.kind.convert false (keyAt input k)).toNat

def entryAt (input : List (BitVec 32)) (k : Nat) : Pair := (keyAt input k, BitVec.ofNat 32 k)

theorem getElem?_keyAt {input : List (BitVec 32)} {k : Nat} (bound : k < input.length) :
    input[k]? = some (keyAt input k) := by
  unfold keyAt
  rw [List.getD_eq_getElem?_getD, List.getElem?_eq_getElem bound]
  rfl

theorem indexed_eq_map (input : List (BitVec 32)) : indexed input = (List.range input.length).map (entryAt input) := by
  apply List.ext_getElem?
  intro k
  by_cases bound : k < input.length
  · rw [getElem?_indexed (getElem?_keyAt bound), List.getElem?_map, List.getElem?_range bound]
    rfl
  · rw [List.getElem?_eq_none (by rw [length_indexed]; omega), List.getElem?_eq_none (by simp; omega)]

theorem exists_order {keyType : KeyType} {input : List (BitVec 32)} {sorted : List Pair}
    (isSorted : StableSorted (sortKey keyType) (indexed input) sorted) :
    ∃ order, StableSorted (radixAt keyType input) (List.range input.length) order ∧
      sorted = order.map (entryAt input) := by
  obtain ⟨order, isOrder⟩ := exists_stableSorted (radixAt keyType input) (List.range input.length)
  refine ⟨order, isOrder, ?_⟩
  apply isSorted.unique
  rw [indexed_eq_map]
  exact isOrder.map fun _ _ => rfl

/-! ## Ids -/

def idsOf (head : Nat → Bool) (n : Nat) : List (BitVec 32) :=
  (List.range n).map fun p => BitVec.ofNat 32 (runOf head p)

/-- A key that differs from the one before it in the order. -/
def headOf (keyType : KeyType) (input : List (BitVec 32)) (order : List Nat) (p : Nat) : Bool :=
  p == 0 || !keyType.equal (keyAt input (order.getD p 0)) (keyAt input (order.getD (p - 1) 0))

section Ids

variable {keyType : KeyType} {input : List (BitVec 32)} {order : List Nat}

theorem headOf_zero : headOf keyType input order 0 = true := rfl

theorem getD_map_entryAt (bound : p < order.length) :
    ((order.map (entryAt input)).map Prod.fst).getD p 0 = keyAt input (order.getD p 0) := by
  rw [List.map_map, getD_map _ bound 0 0]
  rfl

theorem segmentIndicator_eq (bound : p + 1 < order.length) :
    segmentIndicator keyType ((order.map (entryAt input)).map Prod.fst) (p + 1) =
      if headOf keyType input order (p + 1) then 1 else 0 := by
  unfold segmentIndicator headOf
  rw [getD_map_entryAt bound, Nat.add_sub_cancel, getD_map_entryAt (Nat.lt_of_succ_lt bound)]
  simp

theorem sum_segmentIndicator (bound : p < order.length) :
    ∑ j ∈ range (p + 1), segmentIndicator keyType ((order.map (entryAt input)).map Prod.fst) j =
      BitVec.ofNat 32 (runOf (headOf keyType input order) p) := by
  induction p with
  | zero =>
    rw [runOf_zero headOf_zero]
    rfl
  | succ p ih =>
    rw [sum_range_succ, ih (Nat.lt_of_succ_lt bound), segmentIndicator_eq bound, runOf_succ headOf_zero]
    split
    · rw [BitVec.ofNat_add]
      rfl
    · rw [Nat.add_zero]
      exact BitVec.add_zero _

theorem uniqueIds_eq {result : List (BitVec 32)} (nonempty : 0 < order.length) (length : result.length = order.length) :
    uniqueIds keyType ((order.map (entryAt input)).map Prod.fst) result =
      .ok (idsOf (headOf keyType input order) order.length) := by
  rw [← length] at nonempty
  obtain ⟨out, isOut, places⟩ := Scan.scanKernel_spec false false
    (segmentIndicator keyType ((order.map (entryAt input)).map Prod.fst)) (fun i => result.getD i 0)
    nonempty
  unfold uniqueIds
  rw [isOut, ← length]
  apply congrArg Except.ok
  apply List.map_congr_left
  intro p listed
  have bound := List.mem_range.1 listed
  rw [places p bound, ← sum_segmentIndicator (by rwa [← length])]
  rfl

end Ids

section Extract

variable {head : Nat → Bool} {n : Nat} {inds : List (BitVec 32)}

/-- What the loop has written when it has seen the positions below `i`. -/
structure Extracted (head : Nat → Bool) (n : Nat) (inds : List (BitVec 32)) (i : Nat)
    (state : List (BitVec 32) × List (BitVec 32)) : Prop where
  lengthInds : state.1.length = (heads head n).length
  lengthEnds : state.2.length = (heads head n).length
  inds : ∀ u < (heads head i).length, ∀ start, (heads head n)[u]? = some start →
    state.1[u]? = some (inds.getD start 0)
  ends : ∀ u, u + 1 < (heads head i).length → ∀ start, (heads head n)[u + 1]? = some start →
    state.2[u]? = some (BitVec.ofNat 32 start)
  last : 0 < i → state.2[(heads head n).length - 1]? = some (BitVec.ofNat 32 n)

section Step

variable (first : head 0 = true) (small : n < 2 ^ 32) (length : inds.length = n)
  {state : List (BitVec 32) × List (BitVec 32)}

theorem load_idsOf (bound : p < n) : load (idsOf head n) p = .ok (BitVec.ofNat 32 (runOf head p)) := by
  unfold idsOf
  rw [load_eq_ok, List.getElem?_map, List.getElem?_range bound]
  rfl

theorem length_heads_le : (heads head n).length ≤ n := by
  have := List.length_filter_le head (List.range n)
  rwa [List.length_range] at this

include length in
theorem load_inds (bound : i < n) : load inds i = .ok (inds.getD i 0) := by
  rw [load_eq_ok, List.getD_eq_getElem?_getD, List.getElem?_eq_getElem (by omega)]
  rfl

include first

include small in
theorem toNat_runOf (bound : i < n) : (BitVec.ofNat 32 (runOf head i)).toNat = runOf head i := by
  have below := runOf_lt first bound
  have few := @length_heads_le head n
  exact toNat_ofNat (by omega)

include small in
theorem runOf_bne (bound : p + 1 < n) :
    (BitVec.ofNat 32 (runOf head (p + 1)) != BitVec.ofNat 32 (runOf head p)) = head (p + 1) := by
  have next := runOf_succ first p
  rw [bne, Bool.eq_iff_iff]
  simp only [Bool.not_eq_true', beq_eq_false_iff_ne, ne_eq, ← BitVec.toNat_inj, toNat_runOf first small bound,
    toNat_runOf first small (Nat.lt_of_succ_lt bound)]
  split at next <;> simp_all

include small in
theorem toNat_runOf_sub_one (bound : i < n) (pos : 0 < runOf head i) :
    (BitVec.ofNat 32 (runOf head i) - 1).toNat = runOf head i - 1 := by
  have isRun := toNat_runOf first small bound
  grind

include small length

theorem extractAt_first (bound : 0 < n) (extracted : Extracted head n inds 0 state) :
    extractAt n (heads head n).length inds (idsOf head n) state 0 = .ok (state.1.set (runOf head 0) (inds.getD 0 0),
        state.2.set ((heads head n).length - 1) (BitVec.ofNat 32 n)) := by
  have below := runOf_lt first bound
  unfold extractAt
  rw [load_idsOf bound]
  simp only [bind, Except.bind, pure, Except.pure, if_true, load_inds length bound, toNat_runOf first small bound]
  rw [store_ok (by rw [extracted.lengthInds]; exact below), store_ok (by rw [extracted.lengthEnds]; omega)]

theorem extractAt_begins (bound : p + 1 < n) (begins : head (p + 1) = true)
    (extracted : Extracted head n inds (p + 1) state) :
    extractAt n (heads head n).length inds (idsOf head n) state (p + 1) =
      .ok (state.1.set (runOf head (p + 1)) (inds.getD (p + 1) 0),
        state.2.set (runOf head (p + 1) - 1) (BitVec.ofNat 32 (p + 1))) := by
  have below := runOf_lt first bound
  have next := runOf_succ first p
  rw [if_pos begins] at next
  unfold extractAt
  rw [load_idsOf bound]
  simp only [bind, Except.bind, pure, Except.pure, Nat.add_sub_cancel, load_idsOf (Nat.lt_of_succ_lt bound),
    Nat.succ_ne_zero, if_false, runOf_bne first small bound, load_inds length bound,
    toNat_runOf first small bound]
  rw [if_pos begins, store_ok (by rw [extracted.lengthInds]; exact below),
    toNat_runOf_sub_one first small bound (by omega), store_ok (by rw [extracted.lengthEnds]; omega)]

omit length in
theorem extractAt_stays (bound : p + 1 < n) (stays : head (p + 1) = false) :
    extractAt n (heads head n).length inds (idsOf head n) state (p + 1) = .ok state := by
  unfold extractAt
  rw [load_idsOf bound]
  simp only [bind, Except.bind, pure, Except.pure, Nat.add_sub_cancel, load_idsOf (Nat.lt_of_succ_lt bound),
    Nat.succ_ne_zero, if_false, runOf_bne first small bound, stays]
  rfl

omit first small length in
theorem eq_of_getElem?_heads {start : Nat} (bound : i < n) (begins : head i = true)
    (atRun : (heads head n)[runOf head i]? = some start) : start = i := by
  rw [getElem?_heads bound begins] at atRun
  exact (Option.some.inj atRun).symm

/-- A position at which no run begins changes nothing, others write at the number of their run. -/
theorem extractAt_spec (bound : i < n) (extracted : Extracted head n inds i state) :
    ∃ state', extractAt n (heads head n).length inds (idsOf head n) state i = .ok state' ∧
      Extracted head n inds (i + 1) state' := by
  have below := runOf_lt first bound
  by_cases begins : head i = true
  · have count : (heads head i).length = runOf head i := length_heads_of_head begins
    have counted := @length_heads_succ head i
    rw [if_pos begins, count] at counted
    -- where the loop writes an index, and what the other writes keep
    have wroteInds : ∀ u < (heads head (i + 1)).length, ∀ start, (heads head n)[u]? = some start →
        (state.1.set (runOf head i) (inds.getD i 0))[u]? = some (inds.getD start 0) := by
      intro u inside start atU
      by_cases isNew : u = runOf head i
      · rw [isNew] at atU ⊢
        rw [eq_of_getElem?_heads bound begins atU, List.getElem?_set_self (by rw [extracted.lengthInds]; exact below)]
      · rw [List.getElem?_set_ne (Ne.symm isNew)]
        exact extracted.inds u (by omega) start atU
    cases i with
    | zero =>
      refine ⟨_, extractAt_first first small length bound extracted, ?_, ?_, wroteInds, ?_, ?_⟩
      · rw [List.length_set, extracted.lengthInds]
      · rw [List.length_set, extracted.lengthEnds]
      · intro u inside
        rw [counted, runOf_zero first] at inside
        omega
      · intro _
        rw [List.getElem?_set_self (by rw [extracted.lengthEnds]; omega)]
    | succ p =>
      have next := runOf_succ first p
      rw [if_pos begins] at next
      refine ⟨_, extractAt_begins first small length bound begins extracted, ?_, ?_, wroteInds, ?_, ?_⟩
      · rw [List.length_set, extracted.lengthInds]
      · rw [List.length_set, extracted.lengthEnds]
      · intro u inside start atU
        by_cases isNew : u = runOf head (p + 1) - 1
        · have isRunOf : u + 1 = runOf head (p + 1) := by omega
          rw [isRunOf] at atU
          rw [isNew, eq_of_getElem?_heads bound begins atU,
            List.getElem?_set_self (by rw [extracted.lengthEnds]; omega)]
        · rw [List.getElem?_set_ne (Ne.symm isNew)]
          exact extracted.ends u (by omega) start atU
      · intro _
        rw [List.getElem?_set_ne (by omega)]
        exact extracted.last (Nat.succ_pos p)
  · cases i with
    | zero => exact absurd first begins
    | succ p =>
      have same : heads head (p + 1 + 1) = heads head (p + 1) := by
        rw [heads_succ, if_neg begins, List.append_nil]
      refine ⟨_, extractAt_stays first small bound (Bool.eq_false_iff.2 begins),
        extracted.lengthInds, extracted.lengthEnds, ?_, ?_, ?_⟩
      · rw [same]
        exact extracted.inds
      · rw [same]
        exact extracted.ends
      · intro _
        exact extracted.last (Nat.succ_pos p)

end Step

theorem extract_eq (first : head 0 = true) (small : n < 2 ^ 32) (length : inds.length = n) (pos : 0 < n)
    {start : List (BitVec 32) × List (BitVec 32)} (room : start.1.length = (heads head n).length)
    (roomEnds : start.2.length = (heads head n).length) :
    (List.range n).foldlM (extractAt n (heads head n).length inds (idsOf head n)) start =
      .ok ((heads head n).map (fun p => inds.getD p 0), (runEnds head n).map (BitVec.ofNat 32)) := by
  have initial : Extracted head n inds 0 start := by
    refine ⟨room, roomEnds, ?_, ?_, ?_⟩
    · intro u inside
      exact absurd inside (Nat.not_lt_zero u)
    · intro u inside
      exact absurd inside (Nat.not_lt_zero _)
    · intro isPositive
      exact absurd isPositive (Nat.lt_irrefl 0)
  obtain ⟨final, isFinal, extracted⟩ := Lib.exists_foldlM_range_eq_ok (Extracted head n inds) initial
    fun i bound state holds => extractAt_spec first small length bound holds
  rw [isFinal]
  have nonempty := length_heads_pos first (n - 1)
  rw [Nat.sub_add_cancel pos] at nonempty
  apply congrArg Except.ok
  apply Prod.ext
  · apply List.ext_getElem?
    intro u
    by_cases inside : u < (heads head n).length
    · rw [extracted.inds u inside _ (List.getElem?_eq_getElem inside), List.getElem?_map,
        List.getElem?_eq_getElem inside]
      rfl
    · rw [List.getElem?_eq_none (by rw [extracted.lengthInds]; omega),
        List.getElem?_eq_none (by rw [List.length_map]; omega)]
  · apply List.ext_getElem?
    intro u
    have lengthEnds := length_runEnds first pos
    by_cases inside : u + 1 < (heads head n).length
    · rw [extracted.ends u inside _ (List.getElem?_eq_getElem inside), List.getElem?_map]
      unfold runEnds
      rw [List.getElem?_append_left (by rw [List.length_tail]; omega), List.getElem?_tail,
        List.getElem?_eq_getElem inside]
      rfl
    · by_cases isLast : u + 1 = (heads head n).length
      · have isIndex : u = (heads head n).length - 1 := by omega
        rw [isIndex, extracted.last pos, List.getElem?_map]
        unfold runEnds
        rw [List.getElem?_append_right (by rw [List.length_tail]), List.length_tail, Nat.sub_self]
        rfl
      · rw [List.getElem?_eq_none (by rw [extracted.lengthEnds]; omega),
          List.getElem?_eq_none (by rw [List.length_map]; omega)]

end Extract

section Gather

variable {input reps segmentEnds : List (BitVec 32)} {perm : List Nat} {key : Nat → Nat} {size : Nat}

/-- The length of a run by the ends of the runs. -/
def sizeAt (segmentEnds : List (BitVec 32)) (u : Nat) : BitVec 32 :=
  segmentEnds.getD u 0 - if u = 0 then 0 else segmentEnds.getD (u - 1) 0

structure GatheredTo (input reps segmentEnds : List (BitVec 32)) (perm : List Nat) (size i : Nat)
    (state : Gathered) : Prop where
  lengthOutput : state.output.length = size
  lengthInv : state.invSortedUniquePerm.length = size
  lengthCount : state.count.length = size
  output : ∀ j < i, state.output[j]? = some (keyAt input (keyAt reps (perm.getD j 0)).toNat)
  inv : ∀ j < i, state.invSortedUniquePerm[perm.getD j 0]? = some (BitVec.ofNat 32 j)
  count : ∀ j < i, state.count[j]? = some (sizeAt segmentEnds (perm.getD j 0))

theorem getElem?_set_lt_succ {memory : List (BitVec 32)} {place : Nat → Nat} {value : Nat → BitVec 32} {i : Nat}
    (inside : place i < memory.length) (apart : ∀ j < i, place j ≠ place i)
    (before : ∀ j < i, memory[place j]? = some (value j)) :
    ∀ j < i + 1, (memory.set (place i) (value i))[place j]? = some (value j) := by
  grind

theorem getElem?_getD (inside : address < memory.length) :
    memory[address]? = some (memory.getD address 0) := by
  rw [List.getD_eq_getElem?_getD, List.getElem?_eq_getElem inside]
  rfl

variable (isOrder : StableSorted key (List.range size) perm) (small : size < 2 ^ 32)

include isOrder small

theorem gatherAt_eq (fits : ∀ u < size, (keyAt reps u).toNat < input.length)
    (ends : segmentEnds.length = size) (bound : i < size) {state : Gathered}
    (gathered : GatheredTo input reps segmentEnds perm size i state) :
    gatherAt input segmentEnds (perm.map (entryAt reps)) state i = .ok
      { output := state.output.set i (keyAt input (keyAt reps (perm.getD i 0)).toNat)
        invSortedUniquePerm := state.invSortedUniquePerm.set (perm.getD i 0) (BitVec.ofNat 32 i)
        count := state.count.set i (sizeAt segmentEnds (perm.getD i 0)) } := by
  have atI := isOrder.getElem?_order bound
  have inRange := isOrder.order_lt bound
  have loadRep : load ((perm.map (entryAt reps)).map Prod.fst) i = .ok (keyAt reps (perm.getD i 0)) := by
    rw [load_eq_ok, List.getElem?_map, List.getElem?_map, atI]
    rfl
  have loadRun : load ((perm.map (entryAt reps)).map Prod.snd) i = .ok (BitVec.ofNat 32 (perm.getD i 0)) := by
    rw [load_eq_ok, List.getElem?_map, List.getElem?_map, atI]
    rfl
  have loadValue : load input (keyAt reps (perm.getD i 0)).toNat =
      .ok (keyAt input (keyAt reps (perm.getD i 0)).toNat) :=
    load_eq_ok.2 (getElem?_keyAt (fits _ inRange))
  have loadEnd : ∀ u < size, load segmentEnds u = .ok (segmentEnds.getD u 0) :=
    fun u inside => load_eq_ok.2 (getElem?_getD (by omega))
  have isRun : (BitVec.ofNat 32 (perm.getD i 0)).toNat = perm.getD i 0 := toNat_ofNat (by omega)
  unfold gatherAt
  simp only [bind, Except.bind, pure, Except.pure, loadRep, loadRun, loadValue, isRun]
  rw [store_ok (by rw [gathered.lengthOutput]; exact bound), store_ok (by rw [gathered.lengthInv]; exact inRange)]
  by_cases isFirst : perm.getD i 0 = 0
  · have isZero : BitVec.ofNat 32 (perm.getD i 0) = 0 := by rw [isFirst]; rfl
    simp only [isZero, if_true, loadEnd _ inRange]
    rw [store_ok (by rw [gathered.lengthCount]; exact bound)]
    unfold sizeAt
    rw [if_pos isFirst]
  · have notZero : ¬ BitVec.ofNat 32 (perm.getD i 0) = 0 := by
      intro isZero
      rw [isZero] at isRun
      exact isFirst isRun.symm
    have isBefore : (BitVec.ofNat 32 (perm.getD i 0) - 1).toNat = perm.getD i 0 - 1 := by
      rw [BitVec.toNat_sub, isRun]
      show (2 ^ 32 - 1 + _) % 2 ^ 32 = _
      omega
    simp only [if_neg notZero, isBefore, loadEnd _ inRange, loadEnd (perm.getD i 0 - 1) (by omega)]
    rw [store_ok (by rw [gathered.lengthCount]; exact bound)]
    unfold sizeAt
    rw [if_neg isFirst]

/-- In the order of the second sort: the values, where each run went, and how many items it has. -/
theorem gather_spec (fits : ∀ u < size, (keyAt reps u).toNat < input.length)
    (ends : segmentEnds.length = size) {start : Gathered} (roomOutput : start.output.length = size)
    (roomInv : start.invSortedUniquePerm.length = size) (roomCount : start.count.length = size) :
    ∃ final, (List.range size).foldlM (gatherAt input segmentEnds (perm.map (entryAt reps))) start =
        .ok final ∧ GatheredTo input reps segmentEnds perm size size final := by
  have none : ∀ {P : Nat → Prop}, ∀ j < 0, P j := fun j inside => absurd inside (Nat.not_lt_zero j)
  apply Lib.exists_foldlM_range_eq_ok (GatheredTo input reps segmentEnds perm size)
    ⟨roomOutput, roomInv, roomCount, none, none, none⟩
  intro i bound state gathered
  refine ⟨_, gatherAt_eq isOrder small fits ends bound gathered, ?_, ?_, ?_, ?_, ?_, ?_⟩
  · rw [List.length_set, gathered.lengthOutput]
  · rw [List.length_set, gathered.lengthInv]
  · rw [List.length_set, gathered.lengthCount]
  · exact @getElem?_set_lt_succ _ id _ _ (by rw [gathered.lengthOutput]; exact bound)
      (fun j below => Nat.ne_of_lt below) gathered.output
  · apply @getElem?_set_lt_succ _ (fun j => perm.getD j 0) _ _
      (by rw [gathered.lengthInv]; exact isOrder.order_lt bound) _ gathered.inv
    intro j below same
    exact Nat.ne_of_lt below (isOrder.order_injective (Nat.lt_trans below bound) bound same)
  · exact @getElem?_set_lt_succ _ id _ _ (by rw [gathered.lengthCount]; exact bound)
      (fun j below => Nat.ne_of_lt below) gathered.count

end Gather

section Lookup

variable {order : List Nat} {key : Nat → Nat} {n : Nat} {head : Nat → Bool} {inverse : List (BitVec 32)}
  {place : Nat → Nat}

theorem lookup_spec (isOrder : StableSorted key (List.range n) order) (small : n < 2 ^ 32) (first : head 0 = true)
    (placed : ∀ u < (heads head n).length, inverse[u]? = some (BitVec.ofNat 32 (place u)))
    {start : List (BitVec 32)} (room : start.length = n) :
    ∃ idx, (List.range n).foldlM (lookupAt (order.map (BitVec.ofNat 32)) (idsOf head n) inverse) start =
        .ok idx ∧ idx.length = n ∧ ∀ p < n, idx[order.getD p 0]? = some (BitVec.ofNat 32 (place (runOf head p))) := by
  apply Lib.exists_foldlM_range_eq_ok (fun i (state : List (BitVec 32)) => state.length = n ∧
    ∀ p < i, state[order.getD p 0]? = some (BitVec.ofNat 32 (place (runOf head p))))
    ⟨room, fun p inside => absurd inside (Nat.not_lt_zero p)⟩
  intro i bound state written
  have inRange := isOrder.order_lt bound
  have loadInd : load (order.map (BitVec.ofNat 32)) i = .ok (BitVec.ofNat 32 (order.getD i 0)) := by
    rw [load_eq_ok, List.getElem?_map, isOrder.getElem?_order bound]
    rfl
  refine ⟨state.set (order.getD i 0) (BitVec.ofNat 32 (place (runOf head i))), ?_, ?_, ?_⟩
  · unfold lookupAt
    rw [load_idsOf bound]
    simp only [bind, Except.bind, toNat_runOf first small bound,
      load_eq_ok.2 (placed _ (runOf_lt first bound)), loadInd, toNat_ofNat (Nat.lt_trans inRange small)]
    exact store_ok (by rw [written.1]; exact inRange) _
  · rw [List.length_set, written.1]
  · apply @getElem?_set_lt_succ _ (fun p => order.getD p 0)
      (fun p => BitVec.ofNat 32 (place (runOf head p))) _
      (by rw [written.1]; exact inRange) _ written.2
    intro p below same
    exact Nat.ne_of_lt below (isOrder.order_injective (Nat.lt_trans below bound) bound same)

end Lookup

end Itex.Kernels.Unique
