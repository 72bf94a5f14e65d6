import Itex.Lib.Binary32
import Itex.Lib.Reshape
import Itex.Remapper.Context

/-!
Contract: how fusions of the remapper read constants
(`itex/core/graph/remapper/remapper.cc`, `itex/core/graph/utils/utils.cc`,
`op_types.cc`, `graph_common_utils.cc`).

Owns: the tests on constants and scalars, the first element of a constant as a float, the
constant as a tensor of numbers of a field, and what is assumed of nodes with one output.
-/

namespace Itex.Remapper

open Itex.Graph (DataType Failure AttrValue NodeDef Number TensorProto)
open Itex.GraphUtils

def isConstant (node : NodeDef) : Bool := node.op == "Const"

def isAnyConst (node : NodeDef) : Bool := node.op == "Const" || node.op == "HostConst"

/-- `IsScalar`: one element, of any rank. -/
def isScalar (proto : TensorShapeProto) : Bool :=
  if proto.unknownRank then false
  else if proto.dim.any (· < 0) then false
  else proto.dim.prod == 1

def getDataTypeFromAttr (node : NodeDef) (typeAttr : String) : DataType :=
  ((node.attr.lookup typeAttr).map AttrValue.typeValue).getD .invalid

def getTensorFromConstant (node : NodeDef) : Except Failure TensorProto := do
  let value ← attrAt node "value"
  match value with
  | .tensor proto => return proto
  | _ => .error (.crash "Could not construct Tensor from TensorProto")

def isVector (tensor : TensorProto) : Bool := tensor.shape.length == 1

def numElements (tensor : TensorProto) : Nat := tensor.shape.prod

/-- `flat<T>()(0)` of a floating point type. -/
def firstNumber (tensor : TensorProto) (expected : DataType) : Except Failure Number :=
  if tensor.dtype ≠ expected then .error (.crash "unexpected dtype")
  else
    match tensor.numbers with
    | [] => .error (.crash "no element")
    | number :: _ => .ok number

theorem firstNumber_eq_ok {tensor : TensorProto} {expected : DataType} {number : Number}
    (read : firstNumber tensor expected = .ok number) : ∃ others, tensor.numbers = number :: others := by
  unfold firstNumber at read
  split at read
  · cases read
  · split at read
    · cases read
    next others isNumbers =>
      cases read
      exact ⟨others, isNumbers⟩

/-- `flat<T>()` of an integer type. -/
def flatInts (tensor : TensorProto) (expected : DataType) : Except Failure (List Int) :=
  if tensor.dtype ≠ expected then .error (.crash "unexpected dtype") else .ok tensor.ints

/-- `static_cast<float>` from a floating point type: exact but from `double`. -/
def toFloat (dtype : DataType) (number : Number) : Number :=
  match dtype, number with
  | .double, .finite value =>
    let nearest := Lib.Binary32.ofRat value
    if 2 ^ 128 ≤ |nearest| then .infinite (nearest < 0) else .finite nearest
  | _, _ => number

def isAbove (number : Number) (bound : Rat) : Bool :=
  match number with
  | .finite value => bound < value
  | .infinite negative => !negative
  | .nan => false

/-- The nodes of a kind have one output, as their ops declare. -/
def OneOutput (kind : NodeDef → Bool) (view : MutableGraphView) : Prop :=
  ∀ {i k : Nat} {fanin : RegularFanin} {def_ : NodeDef}, view.fanin i k = some fanin →
    view.nodeDef? fanin.nodeIndex = some def_ → kind def_ = true → fanin.index = 0

/-- An inferred shape describes extents: what it knows is right. -/
structure Described (prop : TensorShapeProto) (extents : List Nat) : Prop where
  dims : prop.unknownRank = false →
    List.Forall₂ (fun (dim : Int) (extent : Nat) => 0 ≤ dim → dim = (extent : Int)) prop.dim extents
  unknown : prop.unknownRank = true → prop.dim = []

/-- The inferred shape of an input that reads a constant describes the constant. -/
def DescribesConstants (ctx : RemapperContext) : Prop :=
  ∀ {i k : Nat} {fanin : RegularFanin} {def_ constDef : NodeDef} {props : List TensorShapeProto}
    {prop : TensorShapeProto} {tensor : TensorProto}, ctx.view.nodeDef? i = some def_ →
    ctx.view.fanin i k = some fanin → ctx.view.nodeDef? fanin.nodeIndex = some constDef →
    isAnyConst constDef = true → getTensorFromConstant constDef = .ok tensor →
    ctx.inputProperties def_.name = .ok props → props[k]? = some prop → Described prop tensor.shape

theorem prod_of_forall₂ {dims : List Int} {extents : List Nat}
    (described : List.Forall₂ (fun (dim : Int) (extent : Nat) => 0 ≤ dim → dim = (extent : Int)) dims extents)
    (known : ∀ dim ∈ dims, 0 ≤ dim) : dims.prod = (extents.prod : Int) := by
  induction described with
  | nil => rfl
  | cons same _ ih =>
    have later := ih fun dim mem => known dim (List.mem_cons_of_mem _ mem)
    rw [List.prod_cons, List.prod_cons, later, same (known _ List.mem_cons_self), Nat.cast_mul]

section

variable {prop : TensorShapeProto} {extents : List Nat} (described : Described prop extents)

include described

theorem Described.prod_eq_one (scalar : isScalar prop = true) : extents.prod = 1 := by
  unfold isScalar at scalar
  split at scalar
  · cases scalar
  next knownRank =>
    split at scalar
    · cases scalar
    next nonnegative =>
      have known : ∀ dim ∈ prop.dim, 0 ≤ dim := by
        intro dim mem
        by_contra negative
        exact nonnegative (List.any_eq_true.2 ⟨dim, mem, decide_eq_true (not_le.1 negative)⟩)
      have single : prop.dim.prod = 1 := beq_iff_eq.1 scalar
      have sameProduct := prod_of_forall₂ (described.dims (Bool.eq_false_iff.2 knownRank)) known
      rw [single] at sameProduct
      exact_mod_cast sameProduct.symm

theorem Described.eq_nil (scalar : rank prop = 0) : extents = [] := by
  unfold rank at scalar
  split at scalar
  · cases scalar
  next knownRank =>
    have sameLength := (described.dims (Bool.eq_false_iff.2 knownRank)).length_eq
    exact List.eq_nil_of_length_eq_zero (by rw [← sameLength]; exact_mod_cast scalar)

theorem Described.length_eq (hasDim : 0 < prop.dim.length) : prop.dim.length = extents.length := by
  cases isUnknown : prop.unknownRank with
  | false => exact (described.dims isUnknown).length_eq
  | true =>
    rw [described.unknown isUnknown] at hasDim
    exact absurd hasDim (by decide)

end

/-! ## Values

An entry without a value is not a real number. -/

section Values

variable (R : Type) [DivisionRing R]

def realOf : Number → Option R
  | .finite value => some value
  | .infinite _ | .nan => none

def constantTensor (constant : TensorProto) : Lib.Tensor (Option R) :=
  ⟨constant.shape, fun index => (constant.numbers[Lib.rowMajor constant.shape index]?).bind (realOf R)⟩

def realTensor {R : Type} (tensor : Lib.Tensor R) : Lib.Tensor (Option R) :=
  ⟨tensor.extents, fun index => some (tensor.entry index)⟩

variable {R}

theorem constantTensor_entry {constant : TensorProto} {number : Number} {rest : List Number}
    (single : constant.shape.prod = 1) (isNumbers : constant.numbers = number :: rest) {index : List Nat}
    (mem : index ∈ Lib.indices constant.shape) : (constantTensor R constant).entry index = realOf R number := by
  have below := Lib.rowMajor_lt mem
  rw [single, Nat.lt_one_iff] at below
  unfold constantTensor
  dsimp only
  rw [below, isNumbers]
  rfl

end Values

end Itex.Remapper
