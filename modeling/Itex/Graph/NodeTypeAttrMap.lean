import Itex.Lib.Fallible
import Itex.Graph.Types

/-!
Contract: `NodeTypeAttrMap` (`itex/core/graph/utils/node_type_attr_map.cc`), the
type attributes of each node and the ports that carry them.

Owns: the map of a graph and its lookups, and what a node of a built map
satisfies.

`type2io_` and `io2type_` are filled together, so only the keys of `type2io_` are kept
beside the per-port vectors. Node pointers are node indices.
-/

namespace Itex.Graph

open Itex.Lib

variable {typeAttr : TypeAttrId}

/-- The operator registry and the function library of the graph. -/
structure Registry where
  lookUpOpDef : String → Except Failure OpDef
  /-- `function_library_.Find(op) != nullptr`. -/
  isFunction : String → Bool

/-- The entries of one node in `type2io_` (its keys) and `io2type_`. -/
structure NodeTypes where
  typeAttrs : List TypeAttrId
  inputs : List TypeAttrId
  outputs : List TypeAttrId
deriving DecidableEq, Repr

/-- `ArgDefIndexes`: one entry per tensor of the argument. -/
def argDefIndexes (node : NodeDef) (argDef : ArgDef) : Except Failure (List (ArgDef × Int)) :=
  if argDef.typeListAttr ≠ "" then
    match node.attr.lookup argDef.typeListAttr with
    | none => .error (.crash "attr().at: no such attribute")
    | some value =>
      .ok ((List.range value.listTypes.length).map fun index => (argDef, (index : Int)))
  else
    match node.attr.lookup argDef.numberAttr with
    | none => .ok [(argDef, -1)]
    | some value =>
      -- `i()` is an `int64`, stored in an `int` and then used as a `size_t`.
      let repeats := value.intValue.bmod (2 ^ 32)
      if repeats < 0 then .error (.crash "vector::insert: length error")
      else .ok (List.replicate repeats.toNat (argDef, -1))

def portArgDefIndexes (node : NodeDef) (args : List ArgDef) : Except Failure (List (ArgDef × Int)) := do
  let indexes ← args.mapM (argDefIndexes node)
  return indexes.flatten

def getTypeAttrId (argDef : ArgDef) (argTypeIndex : Int) : TypeAttrId :=
  if argDef.typeListAttr ≠ "" then .ofAttr argDef.typeListAttr argTypeIndex
  else if argDef.typeAttr ≠ "" then .single argDef.typeAttr
  else .fixed argDef.type

def nonControlInputs (node : NodeDef) : List TensorId :=
  node.input.filter fun tensor => tensor.index ≠ .controlSlot

def portTypeAttr (node : NodeDef) (arg : ArgDef × Int) : Except Failure TypeAttrId :=
  let typeAttr := getTypeAttrId arg.1 arg.2
  if typeAttr.attrName ≠ "" ∧ node.attr.lookup typeAttr.attrName = none then
    .error (.status .invalidArgument
      ("Type attribute " ++ typeAttr.attrName ++ " is not present in node " ++ node.name))
  else .ok typeAttr

/-- Attributes that other tools add to nodes whose operator does not declare
them. -/
def toleratedAttr (op attrName : String) : Bool :=
  (op == "QuantizeV2" && attrName == "dtype") ||
  (op == "_MklFusedBatchMatMulV2" && attrName == "epsilon") ||
  ((op == "QuantizedMaxPool" || op == "QuantizedConcatV2") && attrName == "out_type")

/-- The type attributes that one attribute of the node stands for. -/
def attrTypeAttrs (node : NodeDef) (opDef : OpDef) (attrName : String) (value : AttrValue) :
    Except Failure (List TypeAttrId) :=
  if attrName.toList.head? = some '_' then .ok []
  else
    match findAttr attrName opDef with
    | none =>
      if toleratedAttr node.op attrName then .ok []
      else .error (.status .invalidArgument
        ("AttrDef not found for attribute " ++ attrName ++ " of node " ++ node.name))
    | some attrDef =>
      match attrDef.kind with
      | .type => .ok [.single attrName]
      | .listType =>
        .ok ((List.range value.listTypes.length).map fun index => .ofAttr attrName index)
      | .other => .ok []

/-- `NodeTypeAttrMap::AddNode`. -/
def addNodeTypes (registry : Registry) (node : NodeDef) : Except Failure NodeTypes := do
  let opDef ← registry.lookUpOpDef node.op
  let inputArgs ← portArgDefIndexes node opDef.inputArg
  require ((nonControlInputs node).length = inputArgs.length)
    (.status .invalidArgument
      ("Expected " ++ node.op ++ " node " ++ node.name ++ " to have " ++
        toString inputArgs.length ++ " non-control input(s), but got " ++
        toString node.input.length))
  let inputs ← inputArgs.mapM (portTypeAttr node)
  let outputArgs ← portArgDefIndexes node opDef.outputArg
  let outputs ← outputArgs.mapM (portTypeAttr node)
  let attrs ← node.attr.entries.mapM fun entry => attrTypeAttrs node opDef entry.1 entry.2
  return ⟨(inputs ++ outputs ++ attrs.flatten).dedup, inputs, outputs⟩

abbrev NodeTypeAttrMap := List NodeTypes

def NodeTypeAttrMap.init (registry : Registry) (graph : GraphDef) : Except Failure NodeTypeAttrMap :=
  graph.mapM (addNodeTypes registry)

namespace NodeTypeAttrMap

/-- The entries of a node; nodes outside the map have none. -/
def entry (map : NodeTypeAttrMap) (node : Nat) : NodeTypes := map.getD node ⟨[], [], []⟩

def getTypeAttrs (map : NodeTypeAttrMap) (node : Nat) : List TypeAttrId :=
  (map.entry node).typeAttrs

/-- Ports of a per-port vector that carry a type attribute. -/
def portsOf (types : List TypeAttrId) (typeAttr : TypeAttrId) : List Nat :=
  (List.range types.length).filter fun port => types[port]? = some typeAttr

def getInputPorts (map : NodeTypeAttrMap) (node : Nat) (typeAttr : TypeAttrId) : List Nat :=
  portsOf (map.entry node).inputs typeAttr

def getOutputPorts (map : NodeTypeAttrMap) (node : Nat) (typeAttr : TypeAttrId) : List Nat :=
  portsOf (map.entry node).outputs typeAttr

/-- A checked lookup in a per-port vector. -/
def portType (types : List TypeAttrId) (port : PortId) : Except Failure TypeAttrId :=
  match port with
  | .controlSlot => .error (.crash "ITEX_CHECK_GE(port, 0)")
  | .port number =>
    match types[number]? with
    | none => .error (.crash "ITEX_CHECK_LT(port, type_vec.size())")
    | some typeAttr => .ok typeAttr

def getInputTypeAttr (map : NodeTypeAttrMap) (node : Nat) (port : PortId) : Except Failure TypeAttrId :=
  portType (map.entry node).inputs port

def getOutputTypeAttr (map : NodeTypeAttrMap) (node : Nat) (port : PortId) : Except Failure TypeAttrId :=
  portType (map.entry node).outputs port

@[simp] theorem mem_portsOf {types : List TypeAttrId} {port : Nat} :
    port ∈ portsOf types typeAttr ↔ types[port]? = some typeAttr := by
  simp only [portsOf, List.mem_filter, List.mem_range, decide_eq_true_eq, and_iff_right_iff_imp]
  intro found
  exact read_lt found

theorem portType_eq_ok {types : List TypeAttrId} {port : PortId} :
    portType types port = .ok typeAttr ↔ ∃ number, port = .port number ∧ types[number]? = some typeAttr := by
  cases port with
  | controlSlot => simp [portType]
  | port number =>
    simp only [portType, PortId.port.injEq, exists_eq_left']
    cases types[number]? <;> simp

end NodeTypeAttrMap

/-! ## Entries of a built map -/

/-- What `AddNode` computed for a node whose operator is `opDef`. -/
structure Described (node : NodeDef) (opDef : OpDef) (types : NodeTypes) : Prop where
  inputs : ∃ args, portArgDefIndexes node opDef.inputArg = .ok args ∧
    (nonControlInputs node).length = args.length ∧ args.mapM (portTypeAttr node) = .ok types.inputs
  outputs : ∃ args, portArgDefIndexes node opDef.outputArg = .ok args ∧
    args.mapM (portTypeAttr node) = .ok types.outputs
  typeAttrs : ∃ attrs, node.attr.entries.mapM
      (fun entry => attrTypeAttrs node opDef entry.1 entry.2) = .ok attrs ∧
    types.typeAttrs = (types.inputs ++ types.outputs ++ attrs.flatten).dedup

theorem described_of_addNodeTypes {registry : Registry} {node : NodeDef} {types : NodeTypes}
    (ran : addNodeTypes registry node = .ok types) :
    ∃ opDef, registry.lookUpOpDef node.op = .ok opDef ∧ Described node opDef types := by
  unfold addNodeTypes at ran
  obtain ⟨opDef, found, ran⟩ := bind_ok.1 ran
  obtain ⟨inputArgs, inputArgsOk, ran⟩ := bind_ok.1 ran
  obtain ⟨_, counted, ran⟩ := bind_ok.1 ran
  obtain ⟨inputs, inputsOk, ran⟩ := bind_ok.1 ran
  obtain ⟨outputArgs, outputArgsOk, ran⟩ := bind_ok.1 ran
  obtain ⟨outputs, outputsOk, ran⟩ := bind_ok.1 ran
  obtain ⟨attrs, attrsOk, ran⟩ := bind_ok.1 ran
  cases ran
  exact ⟨opDef, found, ⟨inputArgs, inputArgsOk, require_eq_ok.1 counted, inputsOk⟩,
    ⟨outputArgs, outputArgsOk, outputsOk⟩, ⟨attrs, attrsOk, rfl⟩⟩

theorem mem_args_of_argDefIndexes {node : NodeDef} {argDef : ArgDef}
    {indexes : List (ArgDef × Int)} (ran : argDefIndexes node argDef = .ok indexes)
    {entry : ArgDef × Int} (mem : entry ∈ indexes) : entry.1 = argDef := by
  unfold argDefIndexes at ran
  split at ran
  · split at ran
    · cases ran
    · cases ran
      obtain ⟨_, -, rfl⟩ := List.mem_map.1 mem
      rfl
  · grind

/-- A port's type attribute comes from an argument of the operator, and is on the
node if it is named. -/
theorem port_of_mapM {node : NodeDef} {args : List ArgDef} {entries : List (ArgDef × Int)}
    {types : List TypeAttrId} (listed : portArgDefIndexes node args = .ok entries)
    (typed : entries.mapM (portTypeAttr node) = .ok types) (mem : typeAttr ∈ types) :
    (∃ argDef ∈ args, ∃ index, typeAttr = getTypeAttrId argDef index) ∧
      (typeAttr.attrName ≠ "" → node.attr.lookup typeAttr.attrName ≠ none) := by
  obtain ⟨entry, source, entryOk⟩ := mem_source_of_mapM typed mem
  unfold portTypeAttr at entryOk
  dsimp only at entryOk
  split at entryOk
  · cases entryOk
  next present =>
    cases entryOk
    unfold portArgDefIndexes at listed
    obtain ⟨indexes, indexesOk, listed⟩ := bind_ok.1 listed
    cases listed
    obtain ⟨list, inList, mem⟩ := List.mem_flatten.1 source
    obtain ⟨argDef, isArg, argOk⟩ := mem_source_of_mapM indexesOk inList
    have same := mem_args_of_argDefIndexes argOk mem
    exact ⟨⟨argDef, isArg, entry.2, same ▸ rfl⟩, fun named absent => present ⟨named, absent⟩⟩

theorem getTypeAttrId_canonical (argDef : ArgDef) (index : Int) : (getTypeAttrId argDef index).Canonical := by
  unfold getTypeAttrId
  split
  · exact fun _ => rfl
  · split
    · exact fun _ => rfl
    · exact fun named => absurd rfl named

namespace Described

variable {node : NodeDef} {opDef : OpDef} {types : NodeTypes}

section

variable (described : Described node opDef types)

include described

theorem inputArg (mem : typeAttr ∈ types.inputs) :
    ∃ argDef ∈ opDef.inputArg, ∃ index, typeAttr = getTypeAttrId argDef index := by
  obtain ⟨_, listed, -, typed⟩ := described.inputs
  exact (port_of_mapM listed typed mem).1

theorem outputArg (mem : typeAttr ∈ types.outputs) :
    ∃ argDef ∈ opDef.outputArg, ∃ index, typeAttr = getTypeAttrId argDef index := by
  obtain ⟨_, listed, typed⟩ := described.outputs
  exact (port_of_mapM listed typed mem).1

theorem nodup : types.typeAttrs.Nodup := by
  obtain ⟨attrs, -, same⟩ := described.typeAttrs
  rw [same]
  exact List.nodup_dedup _

theorem input_mem (mem : typeAttr ∈ types.inputs) : typeAttr ∈ types.typeAttrs := by
  obtain ⟨attrs, -, same⟩ := described.typeAttrs
  simp [same, mem]

theorem output_mem (mem : typeAttr ∈ types.outputs) : typeAttr ∈ types.typeAttrs := by
  obtain ⟨attrs, -, same⟩ := described.typeAttrs
  simp [same, mem]

theorem inputs_length : types.inputs.length = (nonControlInputs node).length := by
  obtain ⟨args, -, counted, typed⟩ := described.inputs
  rw [counted, (mapM_eq_ok.1 typed).length_eq]

theorem canonical (mem : typeAttr ∈ types.typeAttrs) : typeAttr.Canonical := by
  obtain ⟨attrs, attrsOk, same⟩ := described.typeAttrs
  simp only [same, List.mem_dedup, List.mem_append] at mem
  rcases mem with (mem | mem) | mem
  · obtain ⟨argDef, -, index, rfl⟩ := described.inputArg mem
    exact getTypeAttrId_canonical argDef index
  · obtain ⟨argDef, -, index, rfl⟩ := described.outputArg mem
    exact getTypeAttrId_canonical argDef index
  · obtain ⟨list, listed, mem⟩ := List.mem_flatten.1 mem
    obtain ⟨entry, -, entryOk⟩ := mem_source_of_mapM attrsOk listed
    unfold attrTypeAttrs at entryOk
    split at entryOk
    · cases entryOk
      cases mem
    · split at entryOk
      · split at entryOk
        · cases entryOk
          cases mem
        · cases entryOk
      · split at entryOk
        · cases entryOk
          rw [List.mem_singleton.1 mem]
          exact fun _ => rfl
        · cases entryOk
          obtain ⟨_, -, rfl⟩ := List.mem_map.1 mem
          exact fun _ => rfl
        · cases entryOk
          cases mem

/-- A node has no attribute without a name, for its operator declares none. -/
theorem lookup_unnamed (undeclared : findAttr "" opDef = none) : node.attr.lookup "" = none := by
  obtain ⟨attrs, attrsOk, -⟩ := described.typeAttrs
  rw [AList.lookup_eq_none]
  intro mem
  obtain ⟨value, found⟩ := Option.isSome_iff_exists.1 (AList.lookup_isSome.2 mem)
  obtain ⟨_, -, entryOk⟩ := mem_result_of_mapM attrsOk (AList.mem_lookup_iff.1 found)
  have untolerated : toleratedAttr node.op "" = false := by simp [toleratedAttr]
  simp [attrTypeAttrs, undeclared, untolerated] at entryOk

theorem outputs_of_single {argDef : ArgDef}
    (undeclared : findAttr "" opDef = none) (single : opDef.outputArg = [argDef])
    (plain : argDef.typeListAttr = "" ∧ argDef.numberAttr = "") : types.outputs = [getTypeAttrId argDef (-1)] := by
  obtain ⟨args, listed, typed⟩ := described.outputs
  have isArg : argDefIndexes node argDef = .ok [(argDef, -1)] := by
    unfold argDefIndexes
    rw [if_neg (not_not.2 plain.1), plain.2, described.lookup_unnamed undeclared]
  unfold portArgDefIndexes at listed
  obtain ⟨indexes, indexesOk, listed⟩ := bind_ok.1 listed
  cases listed
  rw [single, mapM_eq_ok, List.forall₂_cons_left_iff] at indexesOk
  obtain ⟨first, rest, firstOk, restOk, rfl⟩ := indexesOk
  rw [List.forall₂_nil_left_iff] at restOk
  cases firstOk.symm.trans isArg
  subst restOk
  rw [mapM_eq_ok, List.flatten_cons, List.flatten_nil, List.append_nil, List.forall₂_cons_left_iff] at typed
  obtain ⟨only, rest, onlyOk, restOk, same⟩ := typed
  rw [List.forall₂_nil_left_iff] at restOk
  unfold portTypeAttr at onlyOk
  dsimp only at onlyOk
  split at onlyOk
  · cases onlyOk
  · cases onlyOk
    rw [same, restOk]

end

end Described

theorem NodeTypeAttrMap.entry_described {registry : Registry} {graph : GraphDef}
    {map : NodeTypeAttrMap} (built : NodeTypeAttrMap.init registry graph = .ok map) :
    map.length = graph.length ∧ ∀ (n : Nat) node, graph[n]? = some node →
      ∃ opDef, registry.lookUpOpDef node.op = .ok opDef ∧ Described node opDef (map.entry n) := by
  have pairs := mapM_eq_ok.1 built
  refine ⟨pairs.length_eq.symm, fun n node found => ?_⟩
  have bound := read_lt found
  have bound' : n < map.length := pairs.length_eq ▸ bound
  have pair := List.forall₂_iff_get.1 pairs |>.2 n bound bound'
  have isNode : graph.get ⟨n, bound⟩ = node := by
    rw [List.getElem?_eq_getElem bound] at found
    exact Option.some.inj found
  have isEntry : map.entry n = map.get ⟨n, bound'⟩ := by
    simp [NodeTypeAttrMap.entry, List.getD, List.getElem?_eq_getElem bound']
  rw [isNode] at pair
  rw [isEntry]
  exact described_of_addNodeTypes pair

end Itex.Graph
