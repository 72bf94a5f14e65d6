import Itex.GraphUtils.View

/-!
Contract: the kernel of `_ITEXFusedBinary`
(`itex/core/kernels/gpu/fused_binary_op.cc`, `fused_binary_op.h`).

Owns: `FusedBinaryOp`, its constructor and `Compute`, and `FusedBinaryFunctor`.

Elements are of any type with exact arithmetic. The size of a work group, the order of work
items and what new memory holds come from the device.
-/

namespace Itex.Kernels

open Itex.Graph (DataType Failure require NodeDef)
open Itex.GraphUtils

/-- A dense tensor, its elements in row-major order. -/
@[ext]
structure Tensor (α : Type) where
  shape : List Nat
  data : List α
  sized : data.length = shape.prod

namespace Tensor

variable {α : Type}

def numElements (tensor : Tensor α) : Nat := tensor.shape.prod

def dims (tensor : Tensor α) : Nat := tensor.shape.length

end Tensor

/-- What a run of a kernel takes from the device. -/
structure Device (α : Type) where
  workgroupSize : Nat
  workgroupSize_pos : 0 < workgroupSize
  /-- The order in which work items run. -/
  schedule : Nat → List Nat
  schedule_perm : ∀ items, (schedule items).Perm (List.range items)
  allocate : Nat → List α
  length_allocate : ∀ size, (allocate size).length = size

def maxLength : Nat := 6

inductive UpdateOp where
  | add | sub | sub1 | mul
deriving DecidableEq, Repr

def toIntOffset (value : Nat) : Except Failure Nat :=
  if value % 2 ^ 32 < 2 ^ 31 then .ok (value % 2 ^ 32)
  else .error (.crash "negative offset")

section Functor

variable {α : Type} [Add α] [Sub α] [Mul α]

structure FusedBinaryFunctor (α : Type) where
  vecSize : Nat
  /-- A `uint32_t`. -/
  numElements : Nat
  numInputs : Nat
  inputs : List (List α)
  /-- An entry that was never set is `none`. -/
  ops : List (Option UpdateOp)
  isScalars : List Bool

namespace FusedBinaryFunctor

def cal (op : UpdateOp) (in0 in1 : α) : α :=
  match op with
  | .add => in0 + in1
  | .sub => in0 - in1
  | .sub1 => in1 - in0
  | .mul => in0 * in1

variable (functor : FusedBinaryFunctor α)

/-- `ops_[index]`. -/
def opAt (index : Nat) : Except Failure UpdateOp := do
  let entry ← fetch functor.ops index
  match entry with
  | some op => return op
  | none => .error (.crash "uninitialized value")

/-- `input[is_scalars_[inIdx] ? 0 : i]`. -/
def load (inIdx i : Nat) : Except Failure α := do
  let isScalar ← fetch functor.isScalars inIdx
  let input ← fetch functor.inputs inIdx
  fetch input (if isScalar then 0 else i)

/-- The body of the loop over the tail. -/
def scalarAt (i : Nat) : Except Failure α := do
  let op0 ← functor.opAt 0
  let in0 ← functor.load 0 i
  let in1 ← functor.load 1 i
  let op1 ← functor.opAt 1
  let in2 ← functor.load 2 i
  let res := cal op1 (cal op0 in0 in1) in2
  if 3 < functor.numInputs then
    let op2 ← functor.opAt 2
    let in3 ← functor.load 3 i
    return cal op2 res in3
  else return res

def getVec (inIdx offset : Nat) : Except Failure (List α) := do
  let isScalar ← fetch functor.isScalars inIdx
  let input ← fetch functor.inputs inIdx
  let offset ← toIntOffset offset
  if isScalar then
    let element ← fetch input 0
    return List.replicate functor.vecSize element
  else (List.range functor.vecSize).mapM fun lane => fetch input (offset + lane)

/-- `cal` of vectors. -/
def calVec (op : UpdateOp) (in0 in1 : List α) : List α := List.zipWith (cal op) in0 in1

def vectorAt (offset : Nat) : Except Failure (List α) := do
  let op0 ← functor.opAt 0
  let in0 ← functor.getVec 0 offset
  let in1 ← functor.getVec 1 offset
  let op1 ← functor.opAt 1
  let in2 ← functor.getVec 2 offset
  let res := calVec op1 (calVec op0 in0 in1) in2
  if 3 < functor.numInputs then
    let op2 ← functor.opAt 2
    let in3 ← functor.getVec 3 offset
    return calVec op2 res in3
  else return res

/-- `operator()`: one work item. -/
def runItem (output : List α) (id : Nat) : Except Failure (List α) :=
  if functor.numElements ≤ id * functor.vecSize then .ok output
  else if functor.numElements < (id + 1) * functor.vecSize then
    (List.range' (id * functor.vecSize) (functor.numElements - id * functor.vecSize)).foldlM
      (fun output i => do
        let res ← functor.scalarAt i
        return output.set i res) output
  else do
    let res ← functor.vectorAt (id * functor.vecSize)
    return res.zipIdx.foldl (fun output (element, lane) =>
      output.set (id * functor.vecSize + lane) element) output

end FusedBinaryFunctor

end Functor

/-! ## The kernel -/

structure FusedBinaryOp where
  dtype : DataType
  inputOrder : List Int
  fusedOps : List String

def attrError (name : String) : Failure := .status .invalidArgument ("No attr named '" ++ name ++ "'")

def FusedBinaryOp.construct (node : NodeDef) : Except Failure FusedBinaryOp := do
  let dtype ← match node.attr.lookup "T" with
    | some (.type dtype) => pure dtype
    | _ => .error (attrError "T")
  let inputOrder ← match node.attr.lookup "input_order" with
    | some (.ints values) => pure (values ++ [0])
    | _ => .error (attrError "input_order")
  let fusedOps ← match node.attr.lookup "fused_ops" with
    | some (.strings values) => pure values
    | _ => .error (attrError "fused_ops")
  require (inputOrder.length = fusedOps.length)
    (.status .invalidArgument ("input_order_ and fused_ops_ must have same size. " ++
      toString inputOrder.length ++ " vs " ++ toString fusedOps.length))
  return ⟨dtype, inputOrder, fusedOps⟩

/-- The members and locals of `Compute` that its loop writes. -/
structure Decoded (α : Type) where
  outputShape : List Nat
  hasZeroInput : Bool := false
  inputs : List (List α) := List.replicate (maxLength + 1) []
  ops : List (Option UpdateOp) := List.replicate maxLength none
  isScalars : List Bool := List.replicate maxLength false

namespace FusedBinaryOp

variable (kernel : FusedBinaryOp)

/-- The op at a position of `fused_ops_`; other ops leave their entry unset. -/
def updateOp (fusedOp : String) (order : Int) : Option UpdateOp :=
  if fusedOp == "Add" || fusedOp == "AddV2" then some .add
  else if fusedOp == "Sub" then (if order == 0 then some .sub else some .sub1)
  else if fusedOp == "Mul" then some .mul
  else none

variable {α : Type}

/-- The output shape once an input was looked at. -/
def growShape (outputShape shape : List Nat) : List Nat :=
  if outputShape.prod < shape.prod then shape
  else if shape.prod = outputShape.prod ∧ outputShape.length < shape.length then shape
  else outputShape

/-- One turn of the loop. -/
def decodeInput (inputs : List (Tensor α)) (state : Decoded α) (i : Nat) : Except Failure (Decoded α) := do
  let num := inputs.length
  let input ← fetch inputs i
  let grown := { state with outputShape := growShape state.outputShape input.shape }
  if input.numElements = 0 then
    return { grown with hasZeroInput := true, outputShape := input.shape }
  else
    let mirrored ← fetch inputs (num - 1 - i)
    let loaded := { grown with
      inputs := grown.inputs.set i mirrored.data
      isScalars := grown.isScalars.set i (decide (mirrored.numElements = 1)) }
    if i < kernel.inputOrder.length then
      let order ← fetch kernel.inputOrder i
      let fusedOp ← fetch kernel.fusedOps i
      match updateOp fusedOp order with
      | some op => return { loaded with ops := loaded.ops.set (num - 2 - i) (some op) }
      | none => return loaded
    else return loaded

/-- The loop, which an empty input ends. -/
def decode (inputs : List (Tensor α)) : List Nat → Decoded α → Except Failure (Decoded α)
  | [], state => .ok state
  | i :: rest, state => do
    let next ← kernel.decodeInput inputs state i
    if next.hasZeroInput then return next else decode inputs rest next

def vecLength : Except Failure Nat :=
  if kernel.dtype = .float then .ok 4
  else if kernel.dtype = .bfloat16 ∨ kernel.dtype = .half then .ok 8
  else .error (.status .invalidArgument "only support float/bfloat16/half")

variable [Add α] [Sub α] [Mul α]

/-- `Compute`: the shape and the elements of the output. -/
def compute (device : Device α) (inputs : List (Tensor α)) : Except Failure (List Nat × List α) := do
  let first ← fetch inputs 0
  let decoded ← kernel.decode inputs (List.range inputs.length) { outputShape := first.shape }
  let numElements := decoded.outputShape.prod
  let output := device.allocate numElements
  if decoded.hasZeroInput then return (decoded.outputShape, output)
  else
    let vecLength ← kernel.vecLength
    let outSizeVec ← toIntOffset (numElements / vecLength + 1)
    let numWorkgroups := (outSizeVec + device.workgroupSize - 1) / device.workgroupSize
    let functor : FusedBinaryFunctor α := {
      vecSize := vecLength
      numElements := numElements % 2 ^ 32
      numInputs := inputs.length
      inputs := decoded.inputs
      ops := decoded.ops
      isScalars := decoded.isScalars }
    let elements ← (device.schedule (numWorkgroups * device.workgroupSize)).foldlM functor.runItem output
    return (decoded.outputShape, elements)

end FusedBinaryOp

end Itex.Kernels
