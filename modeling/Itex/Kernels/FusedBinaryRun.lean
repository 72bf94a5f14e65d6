import Itex.Kernels.FusedBinaryOp

/-!
Contract: what `_ITEXFusedBinary` computes.

Owns: the output of the functor over all work items, in whatever order they run, and the
output of `Compute` on operands of one shape and scalars.
-/

namespace Itex.Kernels

open Itex.Graph (DataType)
open Itex.GraphUtils
open Itex.Lib (mapM_eq_ok read_lt)

variable {count items i k vecSize : Nat} {current : List Nat} {dtype : DataType}
  {op0 op1 update0 update1 : UpdateOp} {order0 order1 : Int} {written : Nat → Prop}

variable {α : Type}

namespace Tensor

/-- The element at a position, of a tensor that is broadcast if it has one element. -/
def get (tensor : Tensor α) (i : Nat) : Option α :=
  tensor.data[if tensor.numElements = 1 then 0 else i]?

/-- The tensor has a value at a position. -/
def Covers (tensor : Tensor α) (i : Nat) : Prop := tensor.numElements = 1 ∨ i < tensor.numElements

theorem Covers.exists_get {tensor : Tensor α} (covers : tensor.Covers i) : ∃ a, tensor.get i = some a := by
  unfold get
  have sized : tensor.data.length = tensor.numElements := tensor.sized
  by_cases single : tensor.numElements = 1
  · rw [if_pos single]
    exact ⟨_, List.getElem?_eq_getElem (by omega)⟩
  · rw [if_neg single]
    have inside := covers.resolve_left single
    exact ⟨_, List.getElem?_eq_getElem (by omega)⟩

theorem covers_of_shape {tensor : Tensor α} {shape : List Nat}
    (isShape : tensor.shape = [] ∨ tensor.shape = shape) (inside : i < shape.prod) : tensor.Covers i := by
  rcases isShape with isNil | same
  · left
    rw [numElements, isNil]
    rfl
  · right
    rw [numElements, same]
    exact inside

end Tensor

/-! ## The functor -/

namespace FusedBinaryFunctor

variable {functor : FusedBinaryFunctor α}

def Operand (functor : FusedBinaryFunctor α) (k : Nat) (elements : Nat → α) : Prop :=
  ∃ isScalar input, functor.isScalars[k]? = some isScalar ∧ functor.inputs[k]? = some input ∧
    ∀ i < functor.numElements, input[if isScalar then 0 else i]? = some (elements i)

theorem Operand.load {elements : Nat → α} (operand : functor.Operand k elements)
    (inside : i < functor.numElements) : functor.load k i = .ok (elements i) := by
  obtain ⟨isScalar, input, atScalar, atInput, values⟩ := operand
  have atElement := values i inside
  simp [FusedBinaryFunctor.load, fetch, atScalar, atInput, atElement, bind, Except.bind]

theorem toIntOffset_of_lt {value : Nat} (small : value < 2 ^ 31) : toIntOffset value = .ok value := by
  unfold toIntOffset
  rw [Nat.mod_eq_of_lt (by omega), if_pos small]

theorem Operand.getVec {offset : Nat} {elements : Nat → α} (operand : functor.Operand k elements)
    (small : functor.numElements < 2 ^ 31) (lanes : 0 < functor.vecSize)
    (inside : offset + functor.vecSize ≤ functor.numElements) : functor.getVec k offset =
      .ok ((List.range functor.vecSize).map fun lane => elements (offset + lane)) := by
  obtain ⟨isScalar, input, atScalar, atInput, values⟩ := operand
  have isOffset := toIntOffset_of_lt (show offset < 2 ^ 31 by omega)
  cases isScalar with
  | true =>
    have atFirst : ∀ lane < functor.vecSize, input[0]? = some (elements (offset + lane)) :=
      fun lane inLanes => values _ (by omega)
    have first := atFirst 0 lanes
    have same : List.replicate functor.vecSize (elements (offset + 0)) =
        (List.range functor.vecSize).map fun lane => elements (offset + lane) := by
      apply List.ext_getElem (by simp)
      intro lane inLeft inRight
      have isSame := (atFirst lane (by simpa using inLeft)).symm.trans first
      simpa using (Option.some.inj isSame).symm
    simp only [FusedBinaryFunctor.getVec, fetch, atScalar, atInput, isOffset, first, bind, Except.bind,
      pure, Except.pure, if_true]
    rw [same]
  | false =>
    simp only [FusedBinaryFunctor.getVec, fetch, atScalar, atInput, isOffset, bind, Except.bind,
      Bool.false_eq_true, if_false]
    rw [mapM_eq_ok, List.forall₂_map_right_iff, List.forall₂_same]
    intro lane mem
    have atLane := values (offset + lane) (by have := List.mem_range.1 mem; omega)
    simp only [Bool.false_eq_true, if_false] at atLane
    rw [atLane]

/-- The output once the positions in `written` hold their result. -/
def Written (functor : FusedBinaryFunctor α) (result : Nat → α) (written : Nat → Prop)
    (output : List α) : Prop :=
  output.length = functor.numElements ∧ ∀ i < functor.numElements, written i → output[i]? = some (result i)

theorem Written.set {result : Nat → α} {output : List α}
    (before : functor.Written result written output) (inside : i < functor.numElements) :
    functor.Written result (fun j => j = i ∨ written j) (output.set i (result i)) := by
  constructor
  · rw [List.length_set]
    exact before.1
  · intro j inRange which
    rw [List.getElem?_set]
    by_cases same : i = j
    · rw [if_pos same, if_pos (by rw [before.1]; exact inside), same]
    · rw [if_neg same]
      exact before.2 j inRange (which.resolve_left (Ne.symm same))

theorem Written.mono {result : Nat → α} {written' : Nat → Prop} {output : List α}
    (before : functor.Written result written output) (less : ∀ j, written' j → written j) :
    functor.Written result written' output :=
  ⟨before.1, fun j inRange which => before.2 j inRange (less j which)⟩

theorem Written.lanes {result : Nat → α} (offset count : Nat) :
    ∀ (start : Nat) {written : Nat → Prop} {output : List α},
      functor.Written result written output → offset + start + count ≤ functor.numElements →
      functor.Written result (fun j => written j ∨ (offset + start ≤ j ∧ j < offset + start + count))
        ((((List.range' start count).map fun lane => result (offset + lane)).zipIdx start).foldl
          (fun output entry => output.set (offset + entry.2) entry.1) output) := by
  induction count with
  | zero =>
    intro start written output before _
    apply before.mono
    intro j which
    rcases which with old | new
    · exact old
    · omega
  | succ count ih =>
    intro start written output before inside
    have step := before.set (show offset + start < functor.numElements by omega)
    have after := ih (start + 1) step (by omega)
    rw [List.range'_succ, List.map_cons, List.zipIdx_cons, List.foldl_cons]
    grind

variable [Add α] [Sub α] [Mul α]

theorem calVec_map (op : UpdateOp) (lanes : List Nat) (first second : Nat → α) :
    calVec op (lanes.map first) (lanes.map second) = lanes.map fun lane => cal op (first lane) (second lane) := by
  unfold calVec
  rw [List.zipWith_map, List.zipWith_self]

structure Computes (functor : FusedBinaryFunctor α) (result : Nat → α) : Prop where
  scalar : ∀ i < functor.numElements, functor.scalarAt i = .ok (result i)
  vector : ∀ offset, offset + functor.vecSize ≤ functor.numElements →
    functor.vectorAt offset = .ok ((List.range functor.vecSize).map fun lane => result (offset + lane))

theorem computes_three {in0 in1 in2 : Nat → α}
    (small : functor.numElements < 2 ^ 31) (lanes : 0 < functor.vecSize) (count : functor.numInputs = 3)
    (atOp0 : functor.ops[0]? = some (some op0)) (atOp1 : functor.ops[1]? = some (some op1))
    (first : functor.Operand 0 in0) (second : functor.Operand 1 in1) (third : functor.Operand 2 in2) :
    functor.Computes fun i => cal op1 (cal op0 (in0 i) (in1 i)) (in2 i) := by
  have isOp0 : functor.opAt 0 = .ok op0 := by simp [opAt, fetch, atOp0, bind, Except.bind, pure, Except.pure]
  have isOp1 : functor.opAt 1 = .ok op1 := by simp [opAt, fetch, atOp1, bind, Except.bind, pure, Except.pure]
  have notMore : ¬ 3 < functor.numInputs := by omega
  constructor
  · intro i inside
    unfold scalarAt
    simp only [isOp0, isOp1, first.load inside, second.load inside, third.load inside, bind, Except.bind,
      if_neg notMore, pure, Except.pure]
  · intro offset inside
    unfold vectorAt
    simp only [isOp0, isOp1, first.getVec small lanes inside, second.getVec small lanes inside,
      third.getVec small lanes inside, bind, Except.bind, if_neg notMore, pure, Except.pure, calVec_map]

theorem computes_four {op2 : UpdateOp} {in0 in1 in2 in3 : Nat → α}
    (small : functor.numElements < 2 ^ 31) (lanes : 0 < functor.vecSize) (count : functor.numInputs = 4)
    (atOp0 : functor.ops[0]? = some (some op0)) (atOp1 : functor.ops[1]? = some (some op1))
    (atOp2 : functor.ops[2]? = some (some op2)) (first : functor.Operand 0 in0)
    (second : functor.Operand 1 in1) (third : functor.Operand 2 in2) (fourth : functor.Operand 3 in3) :
    functor.Computes fun i => cal op2 (cal op1 (cal op0 (in0 i) (in1 i)) (in2 i)) (in3 i) := by
  have isOp0 : functor.opAt 0 = .ok op0 := by simp [opAt, fetch, atOp0, bind, Except.bind, pure, Except.pure]
  have isOp1 : functor.opAt 1 = .ok op1 := by simp [opAt, fetch, atOp1, bind, Except.bind, pure, Except.pure]
  have isOp2 : functor.opAt 2 = .ok op2 := by simp [opAt, fetch, atOp2, bind, Except.bind, pure, Except.pure]
  have more : 3 < functor.numInputs := by omega
  constructor
  · intro i inside
    unfold scalarAt
    simp only [isOp0, isOp1, isOp2, first.load inside, second.load inside, third.load inside,
      fourth.load inside, bind, Except.bind, if_pos more, pure, Except.pure]
  · intro offset inside
    unfold vectorAt
    simp only [isOp0, isOp1, isOp2, first.getVec small lanes inside, second.getVec small lanes inside,
      third.getVec small lanes inside, fourth.getVec small lanes inside, bind, Except.bind, if_pos more,
      pure, Except.pure, calVec_map]

section

variable {result : Nat → α} (computes : functor.Computes result)

include computes

theorem Written.tail (count : Nat) : ∀ (start : Nat) {written : Nat → Prop} {output : List α},
      functor.Written result written output → start + count ≤ functor.numElements →
      ∃ output', (List.range' start count).foldlM (fun output i => do
          let res ← functor.scalarAt i
          return output.set i res) output = .ok output' ∧
        functor.Written result (fun j => written j ∨ (start ≤ j ∧ j < start + count)) output' := by
  induction count with
  | zero =>
    intro start written output before _
    refine ⟨output, rfl, before.mono ?_⟩
    intro j which
    rcases which with old | new
    · exact old
    · omega
  | succ count ih =>
    intro start written output before inside
    have step := before.set (show start < functor.numElements by omega)
    obtain ⟨output', ran, after⟩ := ih (start + 1) step (by omega)
    refine ⟨output', ?_, after.mono ?_⟩
    · rw [List.range'_succ, List.foldlM_cons, computes.scalar start (by omega)]
      exact ran
    · intro j which
      rcases which with old | new
      · exact .inl (.inr old)
      · by_cases isStart : j = start
        · exact .inl (.inl isStart)
        · exact .inr (by omega)

theorem Written.runItem {output : List α} (before : functor.Written result written output) (id : Nat) :
    ∃ output', functor.runItem output id = .ok output' ∧ functor.Written result (fun j => written j ∨
        (id * functor.vecSize ≤ j ∧ j < (id + 1) * functor.vecSize)) output' := by
  have next : (id + 1) * functor.vecSize = id * functor.vecSize + functor.vecSize := Nat.succ_mul _ _
  unfold FusedBinaryFunctor.runItem
  by_cases beyond : functor.numElements ≤ id * functor.vecSize
  · rw [if_pos beyond]
    refine ⟨output, rfl, before.1, ?_⟩
    intro j inRange which
    rcases which with old | new
    · exact before.2 j inRange old
    · omega
  · rw [if_neg beyond]
    by_cases isTail : functor.numElements < (id + 1) * functor.vecSize
    · rw [if_pos isTail]
      obtain ⟨output', ran, after⟩ := Written.tail computes
        (functor.numElements - id * functor.vecSize) (id * functor.vecSize) before (by omega)
      refine ⟨output', ran, after.1, ?_⟩
      intro j inRange which
      apply after.2 j inRange
      rcases which with old | new
      · exact .inl old
      · exact .inr (by omega)
    · rw [if_neg isTail, computes.vector _ (by omega)]
      have after := Written.lanes (id * functor.vecSize) functor.vecSize 0 before (by omega)
      rw [← List.range_eq_range'] at after
      refine ⟨_, rfl, after.mono ?_⟩
      intro j which
      rcases which with old | new
      · exact .inl old
      · exact .inr (by omega)

theorem Written.runItems (ids : List Nat) :
    ∀ {written : Nat → Prop} {output : List α}, functor.Written result written output →
      ∃ output', ids.foldlM functor.runItem output = .ok output' ∧ functor.Written result (fun j => written j ∨
          ∃ id ∈ ids, id * functor.vecSize ≤ j ∧ j < (id + 1) * functor.vecSize) output' := by
  induction ids with
  | nil =>
    intro written output before
    refine ⟨output, rfl, before.mono ?_⟩
    intro j which
    rcases which with old | ⟨id, mem, _⟩
    · exact old
    · cases mem
  | cons id ids ih =>
    intro written output before
    obtain ⟨middle, first, between⟩ := before.runItem computes id
    obtain ⟨output', rest, after⟩ := ih between
    refine ⟨output', ?_, after.mono ?_⟩
    · rw [List.foldlM_cons, first]
      exact rest
    · grind

theorem runItems_eq (lanes : 0 < functor.vecSize) {ids : List Nat}
    (order : ids.Perm (List.range items)) (enough : functor.numElements / functor.vecSize + 1 ≤ items)
    {output : List α} (sized : output.length = functor.numElements) :
    ids.foldlM functor.runItem output = .ok ((List.range functor.numElements).map result) := by
  have start : functor.Written result (fun _ => False) output := ⟨sized, fun _ _ which => which.elim⟩
  obtain ⟨output', ran, after⟩ := Written.runItems computes ids start
  rw [ran]
  congr 1
  apply List.ext_getElem?
  intro j
  by_cases inRange : j < functor.numElements
  · have isId : j / functor.vecSize ∈ ids := by
      rw [order.mem_iff, List.mem_range]
      have := Nat.div_le_div_right (c := functor.vecSize) inRange.le
      omega
    have own : j / functor.vecSize * functor.vecSize ≤ j ∧ j < (j / functor.vecSize + 1) * functor.vecSize := by
      constructor
      · exact Nat.div_mul_le_self _ _
      · rw [Nat.mul_comm]
        exact Nat.lt_mul_div_succ j lanes
    rw [after.2 j inRange (.inr ⟨_, isId, own⟩), List.getElem?_map, List.getElem?_range inRange]
    rfl
  · rw [List.getElem?_eq_none (by rw [after.1]; omega), List.getElem?_eq_none (by simp; omega)]

end

end FusedBinaryFunctor

/-! ## Decoding the operands -/

namespace FusedBinaryOp

/-- The attributes are those of a chain with as many operands. -/
structure Fits (kernel : FusedBinaryOp) (num : Nat) : Prop where
  bound : num ≤ maxLength
  order : kernel.inputOrder.length + 1 = num
  ops : kernel.fusedOps.length = kernel.inputOrder.length
  known : ∀ {k : Nat} {fusedOp : String} {order : Int}, kernel.fusedOps[k]? = some fusedOp →
    kernel.inputOrder[k]? = some order → (updateOp fusedOp order).isSome

/-- Operands of one shape, and scalars. -/
structure Common (shape : List Nat) (inputs : List (Tensor α)) : Prop where
  all : ∀ input ∈ inputs, input.shape = [] ∨ input.shape = shape
  one : ∃ input ∈ inputs, input.shape = shape

variable {kernel : FusedBinaryOp} {inputs : List (Tensor α)} {shape : List Nat}

/-- What the loop has written once it looked at the first `count` inputs. -/
structure DecodedTo (kernel : FusedBinaryOp) (inputs : List (Tensor α)) (shape : List Nat) (count : Nat)
    (state : Decoded α) : Prop where
  continues : state.hasZeroInput = false
  sized : state.inputs.length = maxLength + 1 ∧ state.isScalars.length = maxLength ∧ state.ops.length = maxLength
  small : state.outputShape = [] ∨ state.outputShape = shape
  grown : ∀ {k : Nat} {input : Tensor α}, k < count → inputs[k]? = some input → input.shape = shape →
    state.outputShape = shape
  nonempty : ∀ {k : Nat} {input : Tensor α}, k < count → inputs[k]? = some input → input.numElements ≠ 0
  operands : ∀ {k : Nat} {input : Tensor α}, k < count → inputs[inputs.length - 1 - k]? = some input →
    state.inputs[k]? = some input.data ∧ state.isScalars[k]? = some (decide (input.numElements = 1))
  decoded : ∀ {k : Nat} {fusedOp : String} {order : Int}, k < count →
    kernel.fusedOps[k]? = some fusedOp → kernel.inputOrder[k]? = some order →
    state.ops[inputs.length - 2 - k]? = some (updateOp fusedOp order)

theorem growShape_of_common {next : List Nat} (isNext : next = [] ∨ next = shape) (currentFull : current.prod ≠ 0) :
    growShape current next = current ∨ growShape current next = next ∧ next = shape := by
  unfold growShape
  grind

theorem growShape_eq_of_next (small : current = [] ∨ current = shape)
    (full : shape.prod ≠ 0) : growShape current shape = shape := by
  unfold growShape
  rcases small with rfl | rfl
  · have prodNil : ([] : List Nat).prod = 1 := rfl
    rw [prodNil]
    by_cases larger : 1 < shape.prod
    · rw [if_pos larger]
    · rw [if_neg larger]
      cases shape with
      | nil => simp
      | cons dim dims => rw [if_pos ⟨by omega, by simp⟩]
  · simp

theorem decodeInput_next (fits : kernel.Fits inputs.length) (common : Common shape inputs)
    {state : Decoded α} (before : DecodedTo kernel inputs shape count state)
    {input : Tensor α} (atInput : inputs[count]? = some input) (nonempty : input.numElements ≠ 0)
    (full : state.outputShape.prod ≠ 0) : ∃ next, kernel.decodeInput inputs state count = .ok next ∧
      DecodedTo kernel inputs shape (count + 1) next ∧ next.outputShape.prod ≠ 0 := by
  have inside : count < inputs.length := read_lt atInput
  have isShape := common.all input (List.mem_of_getElem? atInput)
  obtain ⟨mirrored, atMirrored⟩ : ∃ mirrored, inputs[inputs.length - 1 - count]? = some mirrored :=
    ⟨_, List.getElem?_eq_getElem (by omega)⟩
  have grown := growShape_of_common isShape full
  have small : growShape state.outputShape input.shape = [] ∨ growShape state.outputShape input.shape = shape := by
    rcases grown with same | ⟨same, isNext⟩
    · rw [same]
      exact before.small
    · rw [same]
      exact .inr isNext
  have stillFull : (growShape state.outputShape input.shape).prod ≠ 0 := by
    rcases grown with same | ⟨same, _⟩
    · rw [same]
      exact full
    · rw [same]
      exact nonempty
  have reached : ∀ {k : Nat} {other : Tensor α}, k < count + 1 → inputs[k]? = some other →
      other.shape = shape → growShape state.outputShape input.shape = shape := by
    intro k other below atOther isOther
    by_cases isLast : k = count
    · rw [isLast, atInput] at atOther
      cases atOther
      rw [isOther]
      apply growShape_eq_of_next before.small
      rw [← isOther]
      exact nonempty
    · have already := before.grown (show k < count by omega) atOther isOther
      rcases grown with same | ⟨same, isNext⟩
      · rw [same, already]
      · rw [same, isNext]
  have elements : ∀ {k : Nat} {other : Tensor α}, k < count + 1 → inputs[k]? = some other →
      other.numElements ≠ 0 := by
    intro k other below atOther
    by_cases isLast : k = count
    · rw [isLast, atInput] at atOther
      cases atOther
      exact nonempty
    · exact before.nonempty (show k < count by omega) atOther
  have operands : ∀ {k : Nat} {other : Tensor α}, k < count + 1 → inputs[inputs.length - 1 - k]? = some other →
      (state.inputs.set count mirrored.data)[k]? = some other.data ∧
        (state.isScalars.set count (decide (mirrored.numElements = 1)))[k]? =
          some (decide (other.numElements = 1)) := by
    intro k other below atOther
    rw [List.getElem?_set, List.getElem?_set]
    have bound := fits.bound
    by_cases isLast : count = k
    · rw [← isLast, atMirrored] at atOther
      cases atOther
      rw [if_pos isLast, if_pos isLast, before.sized.1, before.sized.2.1, if_pos (by omega), if_pos (by omega)]
      exact ⟨rfl, rfl⟩
    · rw [if_neg isLast, if_neg isLast]
      exact before.operands (by omega) atOther
  simp only [decodeInput, fetch, atInput, atMirrored, bind, Except.bind, if_neg nonempty]
  by_cases hasOp : count < kernel.inputOrder.length
  · have atOrder := List.getElem?_eq_getElem hasOp
    have atOp := List.getElem?_eq_getElem (fits.ops.symm ▸ hasOp)
    obtain ⟨op, isOp⟩ := Option.isSome_iff_exists.1 (fits.known atOp atOrder)
    simp only [if_pos hasOp, atOrder, atOp, isOp, pure, Except.pure]
    refine ⟨_, rfl, ⟨before.continues, ?_, small, reached, elements, operands, ?_⟩, stillFull⟩
    · simpa using before.sized
    · intro k fusedOp order below atK orderAtK
      have order := fits.order
      have inOrder : k < kernel.inputOrder.length := read_lt orderAtK
      dsimp only
      rw [List.getElem?_set]
      by_cases isLast : k = count
      · rw [isLast] at atK orderAtK ⊢
        rw [atOp] at atK
        rw [atOrder] at orderAtK
        cases atK
        cases orderAtK
        rw [if_pos rfl, if_pos (by rw [before.sized.2.2]; have := fits.bound; omega), isOp]
      · rw [if_neg (by omega)]
        exact before.decoded (by omega) atK orderAtK
  · simp only [if_neg hasOp, pure, Except.pure]
    refine ⟨_, rfl, ⟨before.continues, ?_, small, reached, elements, operands, ?_⟩, stillFull⟩
    · simpa using before.sized
    · intro k fusedOp order below atK orderAtK
      have inOrder : k < kernel.inputOrder.length := read_lt orderAtK
      exact before.decoded (by omega) atK orderAtK

theorem decodeInput_empty (kernel : FusedBinaryOp) (state : Decoded α) {input : Tensor α}
    (atInput : inputs[count]? = some input) (isEmpty : input.numElements = 0) :
    ∃ next, kernel.decodeInput inputs state count = .ok next ∧ next.hasZeroInput = true ∧
      next.outputShape = input.shape := by
  simp only [decodeInput, fetch, atInput, bind, Except.bind, isEmpty, if_true, pure, Except.pure]
  exact ⟨_, rfl, rfl, rfl⟩

/-- The loop reaches the end, or an empty input. -/
theorem decode_spec (fits : kernel.Fits inputs.length) (common : Common shape inputs) (rest : Nat) :
    ∀ {count : Nat} {state : Decoded α}, DecodedTo kernel inputs shape count state → count + rest = inputs.length →
      (∀ input, inputs[count]? = some input → input.numElements ≠ 0 → state.outputShape.prod ≠ 0) →
      ∃ result, kernel.decode inputs (List.range' count rest) state = .ok result ∧
        (result.hasZeroInput = true ∧ result.outputShape = shape ∧ shape.prod = 0 ∨
          DecodedTo kernel inputs shape inputs.length result) := by
  induction rest with
  | zero =>
    intro count state before isEnd _
    exact ⟨state, rfl, .inr ((show count = inputs.length by omega) ▸ before)⟩
  | succ rest ih =>
    intro count state before isEnd full
    obtain ⟨input, atInput⟩ : ∃ input, inputs[count]? = some input :=
      ⟨_, List.getElem?_eq_getElem (by omega)⟩
    rw [List.range'_succ]
    unfold decode
    by_cases isEmpty : input.numElements = 0
    · obtain ⟨next, stepped, isZero, isInput⟩ := decodeInput_empty kernel state atInput isEmpty
      have isShape : input.shape = shape := by
        apply (common.all input (List.mem_of_getElem? atInput)).resolve_left
        intro isNil
        rw [Tensor.numElements, isNil] at isEmpty
        cases isEmpty
      rw [stepped]
      refine ⟨next, ?_, .inl ⟨isZero, ?_⟩⟩
      · simp only [bind, Except.bind, isZero, if_true, pure, Except.pure]
      · rw [isInput, isShape]
        exact ⟨rfl, isShape ▸ isEmpty⟩
    · obtain ⟨next, stepped, after, stillFull⟩ :=
        decodeInput_next fits common before atInput isEmpty (full input atInput isEmpty)
      obtain ⟨result, decoded, outcome⟩ := ih after (by omega) fun _ _ _ => stillFull
      refine ⟨result, ?_, outcome⟩
      rw [stepped]
      simp only [bind, Except.bind, after.continues, Bool.false_eq_true, if_false]
      exact decoded

section Compute

variable [CommRing α]

def element (input : Tensor α) (i : Nat) : α := (input.get i).getD 0

theorem data_eq_map_element (tensor : Tensor α) :
    tensor.data = (List.range tensor.shape.prod).map (element tensor) := by
  apply List.ext_getElem?
  intro i
  have sized := tensor.sized
  by_cases inside : i < tensor.shape.prod
  · rw [List.getElem?_map, List.getElem?_range inside, List.getElem?_eq_getElem (by omega)]
    unfold element Tensor.get
    by_cases single : tensor.numElements = 1
    · have isZero : i = 0 := by
        rw [Tensor.numElements] at single
        omega
      subst isZero
      simp [single, List.getElem?_eq_getElem (show 0 < tensor.data.length by omega)]
    · simp [single, List.getElem?_eq_getElem (show i < tensor.data.length by omega)]
  · rw [List.getElem?_eq_none (by omega), List.getElem?_eq_none (by simp; omega)]

theorem operand_of_decoded {state : Decoded α} (decoded : DecodedTo kernel inputs shape inputs.length state)
    (common : Common shape inputs) {numInputs : Nat} (inside : k < inputs.length) {input : Tensor α}
    (atInput : inputs[inputs.length - 1 - k]? = some input) : FusedBinaryFunctor.Operand
      ⟨vecSize, shape.prod, numInputs, state.inputs, state.ops, state.isScalars⟩ k (element input) := by
  obtain ⟨atData, atScalar⟩ := decoded.operands inside atInput
  refine ⟨_, _, atScalar, atData, ?_⟩
  intro i inRange
  have covers : input.Covers i :=
    Tensor.covers_of_shape (common.all input (List.mem_of_getElem? atInput)) inRange
  obtain ⟨a, isElement⟩ := covers.exists_get
  unfold element
  rw [isElement]
  unfold Tensor.get at isElement
  simpa using isElement

theorem le_div_mul_of_pos {size : Nat} (pos : 0 < size) : items ≤ (items + size - 1) / size * size := by
  have split := Nat.div_add_mod (items + size - 1) size
  have below := Nat.mod_lt (items + size - 1) pos
  rw [Nat.mul_comm] at split
  omega

theorem vecLength_le (isVec : kernel.vecLength = .ok vecSize) : 4 ≤ vecSize := by
  unfold vecLength at isVec
  split at isVec
  · cases isVec
    exact Nat.le_refl 4
  · split at isVec
    · cases isVec
      decide
    · cases isVec

theorem compute_eq (device : Device α) (fits : kernel.Fits inputs.length) (common : Common shape inputs)
    (small : shape.prod < 2 ^ 31) (isVec : kernel.vecLength = .ok vecSize) {result : Nat → α}
    (computes : ∀ state, DecodedTo kernel inputs shape inputs.length state → FusedBinaryFunctor.Computes
        ⟨vecSize, shape.prod, inputs.length, state.inputs, state.ops, state.isScalars⟩ result) :
    kernel.compute device inputs = .ok (shape, (List.range shape.prod).map result) := by
  obtain ⟨first, atFirst⟩ : ∃ first, inputs[0]? = some first :=
    ⟨_, List.getElem?_eq_getElem (by have := fits.order; omega)⟩
  have start : DecodedTo kernel inputs shape 0 ({ outputShape := first.shape } : Decoded α) :=
    ⟨rfl, by simp, common.all first (List.mem_of_getElem? atFirst), nofun, nofun, nofun, nofun⟩
  obtain ⟨state, isState, outcome⟩ := decode_spec fits common inputs.length start (by omega) (by
    intro input atInput nonempty
    rw [atFirst] at atInput
    cases atInput
    exact nonempty)
  rw [← List.range_eq_range'] at isState
  simp only [compute, fetch, atFirst, bind, Except.bind, isState]
  rcases outcome with ⟨isZero, isShape, isEmpty⟩ | decoded
  · have none := device.length_allocate 0
    rw [List.length_eq_zero_iff] at none
    simp only [isZero, if_true, isShape, isEmpty, none, pure, Except.pure]
    rfl
  · have isShape : state.outputShape = shape := by
      obtain ⟨input, mem, isInput⟩ := common.one
      obtain ⟨k, atK⟩ := List.mem_iff_getElem?.1 mem
      exact decoded.grown (read_lt atK) atK isInput
    have lanes := vecLength_le isVec
    have fewer : shape.prod / vecSize ≤ shape.prod / 4 := Nat.div_le_div_left lanes (by omega)
    have isSize : toIntOffset (shape.prod / vecSize + 1) = .ok (shape.prod / vecSize + 1) :=
      FusedBinaryFunctor.toIntOffset_of_lt (by omega)
    simp only [decoded.continues, Bool.false_eq_true, if_false, isVec, isShape, isSize]
    rw [Nat.mod_eq_of_lt (by omega)]
    rw [FusedBinaryFunctor.runItems_eq (computes state decoded) (show 0 < vecSize by omega)
      (device.schedule_perm _) _
      (device.length_allocate _)]
    · rfl
    · exact le_div_mul_of_pos device.workgroupSize_pos

/-- A chain of two nodes: the root first, its operand first. -/
theorem compute_two (device : Device α) {op0 op1 : String} (isOp0 : updateOp op0 order0 = some update0)
    (isOp1 : updateOp op1 order1 = some update1) {x0 x1 x2 : Tensor α}
    (common : Common shape [x0, x1, x2]) (small : shape.prod < 2 ^ 31)
    (isVec : vecLength ⟨dtype, [order0, order1], [op0, op1]⟩ = .ok vecSize) :
    compute ⟨dtype, [order0, order1], [op0, op1]⟩ device [x0, x1, x2] = .ok (shape, (List.range shape.prod).map fun i =>
        FusedBinaryFunctor.cal update0
          (FusedBinaryFunctor.cal update1 (element x2 i) (element x1 i)) (element x0 i)) := by
  have fits : Fits ⟨dtype, [order0, order1], [op0, op1]⟩ 3 := by
    refine ⟨by decide, rfl, rfl, ?_⟩
    grind
  apply compute_eq device fits common small isVec
  intro state decoded
  have atOp0 := decoded.decoded (show 0 < 3 by decide) rfl rfl
  have atOp1 := decoded.decoded (show 1 < 3 by decide) rfl rfl
  rw [isOp0] at atOp0
  rw [isOp1] at atOp1
  exact FusedBinaryFunctor.computes_three small (Nat.lt_of_lt_of_le (by decide) (vecLength_le isVec)) rfl
    atOp1 atOp0 (operand_of_decoded decoded common (show 0 < 3 by decide) rfl)
    (operand_of_decoded decoded common (show 1 < 3 by decide) rfl)
    (operand_of_decoded decoded common (show 2 < 3 by decide) rfl)

theorem compute_three (device : Device α) {order2 : Int} {op0 op1 op2 : String} {update2 : UpdateOp}
    (isOp0 : updateOp op0 order0 = some update0) (isOp1 : updateOp op1 order1 = some update1)
    (isOp2 : updateOp op2 order2 = some update2) {x0 x1 x2 x3 : Tensor α}
    (common : Common shape [x0, x1, x2, x3]) (small : shape.prod < 2 ^ 31)
    (isVec : vecLength ⟨dtype, [order0, order1, order2], [op0, op1, op2]⟩ = .ok vecSize) :
    compute ⟨dtype, [order0, order1, order2], [op0, op1, op2]⟩ device [x0, x1, x2, x3] =
      .ok (shape, (List.range shape.prod).map fun i => FusedBinaryFunctor.cal update0 (FusedBinaryFunctor.cal update1
            (FusedBinaryFunctor.cal update2 (element x3 i) (element x2 i)) (element x1 i)) (element x0 i)) := by
  have fits : Fits ⟨dtype, [order0, order1, order2], [op0, op1, op2]⟩ 4 := by
    refine ⟨by decide, rfl, rfl, ?_⟩
    grind
  apply compute_eq device fits common small isVec
  intro state decoded
  have atOp0 := decoded.decoded (show 0 < 4 by decide) rfl rfl
  have atOp1 := decoded.decoded (show 1 < 4 by decide) rfl rfl
  have atOp2 := decoded.decoded (show 2 < 4 by decide) rfl rfl
  rw [isOp0] at atOp0
  rw [isOp1] at atOp1
  rw [isOp2] at atOp2
  exact FusedBinaryFunctor.computes_four small (Nat.lt_of_lt_of_le (by decide) (vecLength_le isVec)) rfl
    atOp2 atOp1 atOp0 (operand_of_decoded decoded common (show 0 < 4 by decide) rfl)
    (operand_of_decoded decoded common (show 1 < 4 by decide) rfl)
    (operand_of_decoded decoded common (show 2 < 4 by decide) rfl)
    (operand_of_decoded decoded common (show 3 < 4 by decide) rfl)

end Compute

end FusedBinaryOp

end Itex.Kernels
