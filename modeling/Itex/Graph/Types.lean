import Mathlib

/-!
Contract: the GraphDef data that the graph passes read and write.

Owns: data types, attribute values, node and graph definitions, operator
definitions, type attribute identifiers with `GetDataType`
(`itex/core/graph/utils/node_type_attr_map.cc`) and `SetDataType`
(`itex/core/graph/auto_mixed_precision/auto_mixed_precision.cc`), and the ways a
pass can fail.

An input of a node is kept as the `TensorId` that `ParseTensorName` gives for
its text. Attribute values the passes copy but never read are opaque text.
-/

namespace Itex.Graph

/-- `DataType`; `ref` adds `kDataTypeRefOffset`. -/
inductive DataType where
  | invalid | float | double | int32 | uint8 | int16 | int8 | string | complex64
  | int64 | bool | qint8 | quint8 | qint32 | bfloat16 | qint16 | quint16 | uint16
  | complex128 | half | resource | variant | uint32 | uint64
  | ref (base : DataType)
  | unrecognized (value : Nat)
deriving DecidableEq, Repr

def DataType.dataTypeString : DataType → String
  | .invalid => "INVALID"
  | .float => "float"
  | .double => "double"
  | .int32 => "int32"
  | .uint8 => "uint8"
  | .int16 => "int16"
  | .int8 => "int8"
  | .string => "string"
  | .complex64 => "complex64"
  | .int64 => "int64"
  | .bool => "bool"
  | .qint8 => "qint8"
  | .quint8 => "quint8"
  | .qint32 => "qint32"
  | .bfloat16 => "bfloat16"
  | .qint16 => "qint16"
  | .quint16 => "quint16"
  | .uint16 => "uint16"
  | .complex128 => "complex128"
  | .half => "half"
  | .resource => "resource"
  | .variant => "variant"
  | .uint32 => "uint32"
  | .uint64 => "uint64"
  | .ref base => base.dataTypeString ++ "_ref"
  | .unrecognized value => "unknown dtype enum (" ++ toString value ++ ")"

def DataType.isQuantized (dtype : DataType) : Bool :=
  dtype ∈ [.qint8, .quint8, .qint16, .quint16, .qint32]

/-- Status codes the passes return. -/
inductive Code where
  | invalidArgument
  | failedPrecondition
  | internal
  | other
deriving DecidableEq, Repr

/-- Ways a pass stops before its end: an error status, or an aborted process (a
failed `ITEX_CHECK`, a missing map key, an empty optional, a null pointer). -/
inductive Failure where
  | status (code : Code) (message : String)
  | crash (reason : String)
deriving DecidableEq, Repr

/-- A condition that the pass checks. -/
def require (condition : Prop) [Decidable condition] (failure : Failure) : Except Failure Unit :=
  if condition then .ok () else .error failure

@[simp] theorem require_eq_ok {condition : Prop} [Decidable condition] {failure : Failure}
    {u : Unit} : require condition failure = .ok u ↔ condition := by
  unfold require
  split <;> simp_all

/-- The number that a floating point element stands for, without the sign of zero. -/
inductive Number where
  | finite (value : Rat)
  | infinite (negative : Bool)
  | nan
deriving DecidableEq, Repr

/-- `TensorProto`, with its elements decoded: `numbers` for floating point types, `ints` for
integer types. -/
structure TensorProto where
  dtype : DataType
  shape : List Nat
  numbers : List Number := []
  ints : List Int := []
deriving DecidableEq, Repr

inductive AttrValue where
  | type (value : DataType)
  /-- `list`: its types, and its other repeated fields as text. -/
  | list (types : List DataType) (others : String)
  /-- A `list` of which only strings are set. -/
  | strings (values : List String)
  /-- A `list` of which only booleans are set. -/
  | bools (values : List Bool)
  /-- A `list` of which only integers are set. -/
  | ints (values : List Int)
  | s (value : String)
  | i (value : Int)
  | b (value : Bool)
  | f (value : Number)
  | tensor (value : TensorProto)
  | other (text : String)
deriving DecidableEq, Repr

namespace AttrValue

/-- `type()`: `DT_INVALID` when another field of the oneof is set. -/
def typeValue : AttrValue → DataType
  | .type value => value
  | _ => .invalid

/-- `list().type()`: empty when another field of the oneof is set. -/
def listTypes : AttrValue → List DataType
  | .list types _ => types
  | _ => []

/-- `list().s()`. -/
def listStrings : AttrValue → List String
  | .strings values => values
  | _ => []

/-- `list().b()`. -/
def listBools : AttrValue → List Bool
  | .bools values => values
  | _ => []

def listInts : AttrValue → List Int
  | .ints values => values
  | _ => []

/-- `s()`. -/
def stringValue : AttrValue → String
  | .s value => value
  | _ => ""

/-- `b()`. -/
def boolValue : AttrValue → Bool
  | .b value => value
  | _ => false

/-- `i()`: zero when another field of the oneof is set. -/
def intValue : AttrValue → Int
  | .i value => value
  | _ => 0

def setListType (value : AttrValue) (index : Nat) (dtype : DataType) : AttrValue :=
  match value with
  | .list types others => .list (types.set index dtype) others
  | .strings _ | .bools _ | .ints _ | .s _ | .type _ | .i _ | .b _ | .f _ | .tensor _ | .other _ =>
    value

end AttrValue

/-- A port number, or `kControlSlot`. -/
inductive PortId where
  | controlSlot
  | port (number : Nat)
deriving DecidableEq, Repr

structure TensorId where
  node : String
  index : PortId
deriving DecidableEq, Repr

def TensorId.text (tensor : TensorId) : String :=
  match tensor.index with
  | .controlSlot => "^" ++ tensor.node
  | .port 0 => tensor.node
  | .port number => tensor.node ++ ":" ++ toString number

abbrev AttrMap := AList fun _ : String => AttrValue

structure NodeDef where
  name : String
  op : String
  device : String
  input : List TensorId
  attr : AttrMap
deriving DecidableEq

/-- The nodes of a `GraphDef`; its function library is part of the environment
of a pass. -/
abbrev GraphDef := List NodeDef

/-- `OpDef::ArgDef`. An empty name stands for an unset field, as in the source. -/
structure ArgDef where
  type : DataType := .invalid
  typeAttr : String := ""
  numberAttr : String := ""
  typeListAttr : String := ""
deriving DecidableEq, Repr

inductive AttrKind where
  | type
  | listType
  | other
deriving DecidableEq, Repr

structure AttrDef where
  name : String
  kind : AttrKind
  allowedTypes : List DataType := []
deriving DecidableEq, Repr

structure OpDef where
  inputArg : List ArgDef
  outputArg : List ArgDef
  attr : List AttrDef
deriving DecidableEq, Repr

def findAttr (name : String) (opDef : OpDef) : Option AttrDef :=
  opDef.attr.find? fun attrDef => attrDef.name == name

/-- Identifies a type of a node: a type attribute, an entry of a list attribute,
or a fixed type. -/
structure TypeAttrId where
  attrName : String
  typeIndex : Int
  fixedType : DataType
deriving DecidableEq, Repr

namespace TypeAttrId

abbrev kSingleType : Int := -1

def ofAttr (attrName : String) (typeIndex : Int) : TypeAttrId :=
  ⟨attrName, typeIndex, .invalid⟩

def single (attrName : String) : TypeAttrId := ofAttr attrName kSingleType

def fixed (fixedType : DataType) : TypeAttrId := ⟨"", kSingleType, fixedType⟩

/-- How the type map builds identifiers: a fixed type only without a name. -/
def Canonical (typeAttr : TypeAttrId) : Prop :=
  typeAttr.attrName ≠ "" → typeAttr.fixedType = .invalid

def debugString (typeAttr : TypeAttrId) : String :=
  if typeAttr.attrName ≠ "" then
    if typeAttr.typeIndex = kSingleType then typeAttr.attrName
    else typeAttr.attrName ++ "[" ++ toString typeAttr.typeIndex ++ "]"
  else typeAttr.fixedType.dataTypeString

end TypeAttrId

open TypeAttrId (kSingleType)

def getDataType (node : NodeDef) (typeAttr : TypeAttrId) : DataType :=
  if typeAttr.attrName = "" then typeAttr.fixedType
  else
    match node.attr.lookup typeAttr.attrName with
    | none => .invalid
    | some value =>
      if typeAttr.typeIndex = kSingleType then value.typeValue
      else if typeAttr.typeIndex < 0 then .invalid
      else value.listTypes.getD typeAttr.typeIndex.toNat .invalid

/-- `SetDataType`; `none` where the source returns false. -/
def setDataType (node : NodeDef) (typeAttr : TypeAttrId) (dtype : DataType) : Option NodeDef :=
  if typeAttr.attrName = "" then none
  else
    match node.attr.lookup typeAttr.attrName with
    | none => none
    | some value =>
      if typeAttr.typeIndex = kSingleType then
        some { node with attr := node.attr.insert typeAttr.attrName (.type dtype) }
      else if typeAttr.typeIndex < 0 ∨ (value.listTypes.length : Int) ≤ typeAttr.typeIndex then none
      else
        some { node with
          attr := node.attr.insert typeAttr.attrName
            (value.setListType typeAttr.typeIndex.toNat dtype) }

section SetDataType

variable {node changed : NodeDef} {typeAttr : TypeAttrId} {dtype : DataType}

section

variable (set : setDataType node typeAttr dtype = some changed)

include set

theorem setDataType_cases : typeAttr.attrName ≠ "" ∧ ∃ value, node.attr.lookup typeAttr.attrName = some value ∧
      ((typeAttr.typeIndex = kSingleType ∧
          changed = { node with attr := node.attr.insert typeAttr.attrName (.type dtype) }) ∨
        (typeAttr.typeIndex ≠ kSingleType ∧ 0 ≤ typeAttr.typeIndex ∧
          typeAttr.typeIndex < (value.listTypes.length : Int) ∧
          changed = { node with
            attr := node.attr.insert typeAttr.attrName
              (value.setListType typeAttr.typeIndex.toNat dtype) })) := by
  unfold setDataType at set
  split at set
  · simp at set
  next named =>
    grind

theorem setDataType_frame :
    changed.name = node.name ∧ changed.op = node.op ∧ changed.device = node.device ∧ changed.input = node.input := by
  obtain ⟨-, value, -, ⟨-, rfl⟩ | ⟨-, -, -, rfl⟩⟩ := setDataType_cases set <;>
    exact ⟨rfl, rfl, rfl, rfl⟩

theorem setDataType_lookup_ne {name : String} (ne : name ≠ typeAttr.attrName) : changed.attr.lookup name = node.attr.lookup name := by
  obtain ⟨-, value, -, ⟨-, rfl⟩ | ⟨-, -, -, rfl⟩⟩ := setDataType_cases set <;>
    exact AList.lookup_insert_ne ne

end

end SetDataType

end Itex.Graph
