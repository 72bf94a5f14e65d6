import Itex.GraphUtils.Invariant

/-!
Contract: what the fusions of the remapper read
(`itex/core/graph/remapper/remapper.h`, `remapper.cc`,
`itex/core/graph/utils/op_types.cc`, `symbolic_shapes.cc`, `utils.cc`).

Owns: the context of the pass, inferred shapes, and the tests on nodes that fusions share.

The properties of a node and the backend of a device are parameters: they come from
TensorFlow.
-/

namespace Itex.Remapper

open Itex.Graph (DataType Failure AttrValue AttrMap NodeDef PortId TensorId)
open Itex.GraphUtils Itex.Lib

variable {def_ producer : NodeDef} {i k p : Nat} {node nodeView : MutableNodeView}

structure TensorShapeProto where
  unknownRank : Bool
  dim : List Int
deriving DecidableEq

def isUnknown (dim : Int) : Bool := dim == -1

def shapesSymbolicallyEqual (left right : TensorShapeProto) : Bool :=
  if left.unknownRank || right.unknownRank || left.dim.length != right.dim.length then false
  else (left.dim.zip right.dim).all fun (ldim, rdim) =>
    !(isUnknown ldim || isUnknown rdim || ldim != rdim)

def rank (shape : TensorShapeProto) : Int :=
  if shape.unknownRank then -1 else shape.dim.length

structure RemapperContext where
  view : MutableGraphView
  nodesToPreserve : List String
  /-- `GetInputProperties`. -/
  inputProperties : String → Except Failure (List TensorShapeProto)
  /-- `GetOutputProperties`. -/
  outputProperties : String → Except Failure (List TensorShapeProto)
  /-- Devices with the CPU as their backend. -/
  cpuDevice : String → Bool
  /-- Devices with the GPU as their backend. -/
  gpuDevice : String → Bool

namespace RemapperContext

variable (ctx : RemapperContext)

def nodeIsOnCpu (node : NodeDef) : Bool := ctx.cpuDevice node.device

def nodeIsOnGpu (node : NodeDef) : Bool := ctx.gpuDevice node.device

def isInPreserveSet (node : NodeDef) : Bool := ctx.nodesToPreserve.contains node.name

def nodeDef (nodeView : MutableNodeView) : Except Failure NodeDef := do
  let stored ← fetch ctx.view.graph nodeView.nodeIndex
  return stored.nodeDef

variable {ctx} in
theorem nodeDef_eq_ok :
    ctx.nodeDef node = .ok def_ ↔ ctx.view.nodeDef? node.nodeIndex = some def_ := by
  unfold nodeDef MutableGraphView.nodeDef?
  rw [bind_ok, Option.map_eq_some_iff]
  constructor
  · intro ⟨stored, fetched, ran⟩
    cases ran
    exact ⟨stored, MutableGraphView.fetch_eq_ok.1 fetched, rfl⟩
  · intro ⟨stored, fetched, isDef⟩
    exact ⟨stored, MutableGraphView.fetch_eq_ok.2 fetched, by rw [← isDef]; rfl⟩

variable {ctx} in
theorem nodeDef?_of_fetch (indexed : ctx.view.Indexed)
    (fetched : fetch ctx.view.nodes i = .ok node) (isDef : ctx.nodeDef node = .ok def_) :
    ctx.view.nodes[i]? = some node ∧ ctx.view.nodeDef? i = some def_ := by
  have atNode := MutableGraphView.fetch_eq_ok.1 fetched
  rw [nodeDef_eq_ok, indexed.nodeIndex atNode] at isDef
  exact ⟨atNode, isDef⟩

def nodeDefAt (index : Nat) : Except Failure NodeDef := do
  let nodeView ← fetch ctx.view.nodes index
  ctx.nodeDef nodeView

def faninDef (nodeView : MutableNodeView) (k : Nat) : Except Failure NodeDef := do
  let fanin ← fetch nodeView.regularFanins k
  ctx.nodeDefAt fanin.nodeIndex

variable {ctx} in
theorem nodeDefAt_eq_ok (indexed : ctx.view.Indexed)
    (ran : ctx.nodeDefAt i = .ok def_) : ctx.view.nodeDef? i = some def_ := by
  obtain ⟨nodeView, fetched, isDef⟩ := bind_ok.1 ran
  exact (nodeDef?_of_fetch indexed fetched isDef).2

end RemapperContext

def hasControlFanin (nodeView : MutableNodeView) : Bool := decide (0 < nodeView.controllingFanins.length)

def hasControlFaninOrFanout (nodeView : MutableNodeView) : Bool :=
  decide (0 < nodeView.controllingFanins.length) || decide (0 < nodeView.controlledFanouts.length)

/-- `GetRegularFanout(port)`: none where there is no such port. -/
def regularFanout (nodeView : MutableNodeView) (port : Nat) : List Fanout :=
  nodeView.regularFanoutsByPort.getD port []

def hasAtMostOneFanoutAtPort0 (nodeView : MutableNodeView) : Bool :=
  decide ((regularFanout nodeView 0).length ≤ 1)

/-- `HasDataType`, of attribute `T`. -/
def hasDataType (node : NodeDef) (expected : DataType) : Bool :=
  ((node.attr.lookup "T").map AttrValue.typeValue).getD .invalid == expected

def attrAt (node : NodeDef) (name : String) : Except Failure AttrValue :=
  match node.attr.lookup name with
  | some value => .ok value
  | none => .error (.crash "missing attribute")

/-- `AddNodeAttr`, which keeps an entry that is there. -/
def addNodeAttr (attr : AttrMap) (name : String) (value : AttrValue) : AttrMap :=
  if name ∈ attr then attr else attr.insert name value

/-- `CopyAllAttrs` to a node without attributes: those that its op declares. -/
def copyAllAttrs (declared : List String) (node : NodeDef) : AttrMap :=
  declared.foldl (fun attr name =>
    match node.attr.lookup name with
    | some value => attr.insert name value
    | none => attr) ∅

theorem lookup_foldl_insert (node : NodeDef) (name : String) : ∀ (declared : List String) (attr : AttrMap),
    (declared.foldl (fun attr name =>
      match node.attr.lookup name with
      | some value => attr.insert name value
      | none => attr) attr).lookup name =
      if name ∈ declared ∧ name ∈ node.attr then node.attr.lookup name else attr.lookup name := by
  intro declared
  induction declared with
  | nil =>
    intro attr
    simp
  | cons head tail ih =>
    intro attr
    rw [List.foldl_cons, ih]
    by_cases there : name ∈ node.attr
    · by_cases later : name ∈ tail
      · simp [later, there]
      · by_cases isHead : name = head
        · obtain ⟨found, isFound⟩ := Option.isSome_iff_exists.1 (AList.lookup_isSome.2 there)
          subst isHead
          simp [later, there, isFound]
        · cases node.attr.lookup head with
          | none => simp [later, isHead]
          | some found => simp [later, isHead, AList.lookup_insert_ne isHead]
    · cases atHead : node.attr.lookup head with
      | none => simp [there]
      | some found =>
        have ne : name ≠ head := by
          intro isHead
          rw [isHead, ← AList.lookup_isSome, atHead] at there
          exact there rfl
        simp [there, AList.lookup_insert_ne ne]

theorem lookup_copyAllAttrs {declared : List String} (node : NodeDef) {name : String} (isDeclared : name ∈ declared) :
    (copyAllAttrs declared node).lookup name = node.attr.lookup name := by
  unfold copyAllAttrs
  rw [lookup_foldl_insert]
  by_cases there : name ∈ node.attr
  · rw [if_pos ⟨isDeclared, there⟩]
  · rw [if_neg fun both => there both.2, AList.lookup_empty, AList.lookup_eq_none.2 there]

section Edges

open MutableGraphView

variable {ctx : RemapperContext}

theorem input_of_fanin (navigable : ctx.view.Navigable)
    {fanin : RegularFanin} (atNode : ctx.view.nodes[i]? = some nodeView)
    (atDef : ctx.view.nodeDef? i = some def_) (atFanin : nodeView.regularFanins[k]? = some fanin) :
    def_.input[k]? = some ⟨ctx.view.nameAt fanin.nodeIndex, .port fanin.index⟩ := by
  have bound := read_lt atFanin
  rw [navigable.inputs atNode atDef, MutableGraphView.inputsOf,
    List.getElem?_append_left (by simpa using bound), List.getElem?_map, atFanin]
  rfl

theorem faninDef_eq (navigable : ctx.view.Navigable)
    {found : NodeDef} {port : PortId} (atNode : ctx.view.nodes[i]? = some nodeView)
    (atDef : ctx.view.nodeDef? i = some def_) (isInput : def_.input[k]? = some ⟨producer.name, port⟩)
    (atProducer : ctx.view.nodeDef? p = some producer) (ran : ctx.faninDef nodeView k = .ok found) :
    found = producer := by
  obtain ⟨fanin, atFanin, atFound⟩ := bind_ok.1 ran
  have atFound := RemapperContext.nodeDefAt_eq_ok navigable.indexed atFound
  have sameTensor := input_of_fanin navigable atNode atDef (fetch_eq_ok.1 atFanin)
  rw [isInput, nameAt_of_nodeDef? atFound] at sameTensor
  have sameName := congrArg TensorId.node (Option.some.inj sameTensor)
  rw [← navigable.indexed.eq_of_name atProducer atFound sameName, atProducer] at atFound
  exact (Option.some.inj atFound).symm

theorem input_of_fanout (navigable : ctx.view.Navigable) {port : Nat} {producerView : MutableNodeView}
    {consumer : NodeDef} {fanout : Fanout} (atView : ctx.view.nodes[p]? = some producerView)
    (atProducer : ctx.view.nodeDef? p = some producer) (mem : fanout ∈ regularFanout producerView port)
    (atConsumer : ctx.view.nodeDef? fanout.nodeIndex = some consumer) :
    consumer.input[fanout.faninIndex]? = some ⟨producer.name, .port port⟩ := by
  obtain ⟨j, atJ⟩ := List.mem_iff_getElem?.1 mem
  have atFanout : ctx.view.fanout p port j = some fanout := by
    rw [MutableGraphView.fanout, field_of_getElem? atView, Option.bind_some]
    unfold regularFanout at atJ
    grind
  have atFanin := navigable.linked.fanout atFanout
  obtain ⟨consumerView, atConsumerView⟩ := navigable.indexed.node atConsumer
  rw [MutableGraphView.fanin, field_of_getElem? atConsumerView, Option.bind_some] at atFanin
  rw [navigable.inputs atConsumerView atConsumer, inputsOf, List.getElem?_append_left, List.getElem?_map, atFanin,
    Option.map_some, nameAt_of_nodeDef? atProducer]
  rw [List.length_map]
  exact read_lt atFanin

end Edges

def isAdd (node : NodeDef) : Except Failure Bool :=
  if node.op == "AddV2" then .ok true
  else if node.op == "Add" then do
    let value ← attrAt node "T"
    return value.typeValue != .string
  else .ok false

def isMul (node : NodeDef) : Bool := node.op == "Mul"

def isSub (node : NodeDef) : Bool := node.op == "Sub"

end Itex.Remapper
