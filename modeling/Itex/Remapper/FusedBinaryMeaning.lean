import Itex.GraphUtils.Construction
import Itex.GraphUtils.Renumbering
import Itex.Kernels.FusedBinaryRun
import Itex.Remapper.FusedBinary

/-!
Contract: the fusion of sequential binary ops keeps the value of the chain.

Owns: the meaning of a binary node, and that the fused node, run by its kernel, has the
value of the root of the chain.

Does not own: shape inference. What it says of a node is assumed to describe the tensors.
-/

namespace Itex.Remapper

open Itex.Graph (Failure require AttrValue TensorId AttrMap NodeDef GraphDef)
open Itex.Lib (bind_ok of_guard)
open Itex.GraphUtils Itex.GraphUtils.MutableGraphView Itex.Kernels
open Itex.Kernels.FusedBinaryOp RemapperContext

variable {attr : AttrMap} {fanin : RegularFanin} {fourth third : TensorId} {name : String}
  {nextDef node rootDef : NodeDef} {nextIndex order : Nat}

variable {α : Type} [CommRing α]

/-! ## Meaning of a binary node -/

def binaryFunction (op : String) : Option (α → α → α) :=
  if op == "Add" || op == "AddV2" then some (· + ·)
  else if op == "Sub" then some (· - ·)
  else if op == "Mul" then some (· * ·)
  else none

/-- The result on operands of one shape, or of which one is a scalar. -/
def evalBinary (f : α → α → α) (first second : Tensor α) : Option (Tensor α) :=
  let shape := if first.shape = [] then second.shape else first.shape
  if first.shape = second.shape ∨ first.shape = [] ∨ second.shape = [] then
    some ⟨shape, (List.range shape.prod).map fun i => f (element first i) (element second i), by simp⟩
  else none

section Eval

variable {f : α → α → α} {first second result : Tensor α}

theorem evalBinary_isSome (shapes : first.shape = second.shape ∨ first.shape = [] ∨ second.shape = []) :
    ∃ result, evalBinary f first second = some result := by
  unfold evalBinary
  exact ⟨_, if_pos shapes⟩

theorem evalBinary_cases (isResult : evalBinary f first second = some result) :
    (first.shape = [] ∨ first.shape = result.shape) ∧ (second.shape = [] ∨ second.shape = result.shape) ∧
      (first.shape = result.shape ∨ second.shape = result.shape) ∧
      result.data = (List.range result.shape.prod).map fun i => f (element first i) (element second i) := by
  unfold evalBinary at isResult
  dsimp only at isResult
  split at isResult
  next shapes =>
    grind
  · cases isResult

theorem element_eq_zero {input : Tensor α} (isShape : input.shape = [] ∨ input.shape = result.shape)
    (single : result.numElements = 1) (i : Nat) : element input i = element input 0 := by
  have isSingle : input.numElements = 1 := by
    rcases isShape with isNil | same
    · rw [Tensor.numElements, isNil]
      rfl
    · rw [Tensor.numElements, same]
      exact single
  simp [element, Tensor.get, isSingle]

theorem element_evalBinary (isResult : evalBinary f first second = some result) {i : Nat}
    (covers : result.Covers i) : element result i = f (element first i) (element second i) := by
  obtain ⟨isFirst, isSecond, -, isData⟩ := evalBinary_cases isResult
  by_cases single : result.numElements = 1
  · rw [element_eq_zero isFirst single i, element_eq_zero isSecond single i]
    unfold element Tensor.get
    rw [if_pos single, isData, List.getElem?_map, List.getElem?_range]
    · rfl
    · exact Nat.lt_of_lt_of_eq Nat.one_pos single.symm
  · have inside : i < result.shape.prod := covers.resolve_left single
    unfold element Tensor.get
    rw [if_neg single, isData, List.getElem?_map, List.getElem?_range inside]
    rfl

end Eval

/-- The kernel's op, with the chain first, is the node's with the chain on its side. -/
theorem cal_updateOp {op : String} {f : α → α → α} (isOp : binaryFunction op = some f) (order : Nat) :
    ∃ update, updateOp op (Int.ofNat order) = some update ∧ ∀ chain other : α,
      FusedBinaryFunctor.cal update chain other = if order = 0 then f chain other else f other chain := by
  unfold binaryFunction at isOp
  unfold updateOp
  split at isOp
  next isAdd =>
    cases isOp
    rw [if_pos isAdd]
    refine ⟨.add, rfl, ?_⟩
    intro chain other
    split
    · rfl
    · exact add_comm chain other
  next notAdd =>
    rw [if_neg notAdd]
    split at isOp
    next isSub =>
      cases isOp
      rw [if_pos isSub]
      by_cases first : order = 0
      · refine ⟨.sub, by simp [first], ?_⟩
        intro chain other
        rw [if_pos first]
        rfl
      · refine ⟨.sub1, by simp [first], ?_⟩
        intro chain other
        rw [if_neg first]
        rfl
    next notSub =>
      rw [if_neg notSub]
      split at isOp
      next isMul =>
        cases isOp
        rw [if_pos isMul]
        refine ⟨.mul, rfl, ?_⟩
        intro chain other
        split
        · rfl
        · exact mul_comm chain other
      next => cases isOp

theorem binaryFunction_of_isBinary (binary : isBinary node = .ok true) :
    ∃ f : α → α → α, binaryFunction node.op = some f := by
  obtain ⟨add, isAdd, found⟩ := bind_ok.1 binary
  have found : (add || isMul node || isSub node) = true := by simpa [pure, Except.pure] using found
  unfold binaryFunction
  by_cases addOp : (node.op == "Add" || node.op == "AddV2") = true
  · rw [if_pos addOp]
    exact ⟨_, rfl⟩
  · have notAdd : add = false := by
      unfold Remapper.isAdd at isAdd
      simp only [Bool.or_eq_true, not_or, Bool.not_eq_true] at addOp
      rw [addOp.1, addOp.2] at isAdd
      simpa using isAdd.symm
    rw [if_neg addOp]
    by_cases subOp : (node.op == "Sub") = true
    · rw [if_pos subOp]
      exact ⟨_, rfl⟩
    · rw [if_neg subOp]
      have mulOp : (node.op == "Mul") = true := by
        simpa [notAdd, isMul, isSub, subOp] using found
      rw [if_pos mulOp]
      exact ⟨_, rfl⟩

/-- Binary nodes are as their op declares: two inputs, one output, and no attribute of the
fused op but `T`. -/
structure Declared (view : MutableGraphView) : Prop where
  inputs : ∀ {i : Nat} {node : MutableNodeView} {def_ : NodeDef}, view.nodes[i]? = some node →
    view.nodeDef? i = some def_ → isBinary def_ = .ok true → node.regularFanins.length = 2
  output : ∀ {i k : Nat} {fanin : RegularFanin} {def_ : NodeDef}, view.fanin i k = some fanin →
    view.nodeDef? fanin.nodeIndex = some def_ → isBinary def_ = .ok true → fanin.index = 0
  attrs : ∀ {i : Nat} {def_ : NodeDef}, view.nodeDef? i = some def_ → isBinary def_ = .ok true →
    "fused_ops" ∉ def_.attr ∧ "input_order" ∉ def_.attr

/-- A run of the graph: binary nodes have the result of their op as their value. -/
def Computes (view : MutableGraphView) (value : TensorId → Tensor α) : Prop :=
  ∀ {i : Nat} {def_ : NodeDef} {f : α → α → α} {first second : TensorId} {rest : List TensorId}
    {result : Tensor α}, view.nodeDef? i = some def_ → binaryFunction def_.op = some f →
    def_.input = first :: second :: rest → evalBinary f (value first) (value second) = some result →
    value ⟨def_.name, .port 0⟩ = result

/-- The inferred shapes describe the tensors of a run. -/
structure Describes (ctx : RemapperContext) (value : TensorId → Tensor α) : Prop where
  equal : ∀ {i : Nat} {def_ : NodeDef} {first second : TensorId} {rest : List TensorId}
    {firstProp secondProp : TensorShapeProto} {props : List TensorShapeProto},
    ctx.view.nodeDef? i = some def_ → def_.input = first :: second :: rest →
    ctx.inputProperties def_.name = .ok (firstProp :: secondProp :: props) →
    shapesSymbolicallyEqual firstProp secondProp = true → (value first).shape = (value second).shape
  scalar : ∀ {i : Nat} {def_ : NodeDef} {first second : TensorId} {rest : List TensorId}
    {firstProp secondProp : TensorShapeProto} {props : List TensorShapeProto},
    ctx.view.nodeDef? i = some def_ → def_.input = first :: second :: rest →
    ctx.inputProperties def_.name = .ok (firstProp :: secondProp :: props) →
    (rank firstProp = 0 → (value first).shape = []) ∧ (rank secondProp = 0 → (value second).shape = [])

/-! ## The chain -/

structure ChainNode (ctx : RemapperContext) (value : TensorId → Tensor α) (i : Nat) (def_ : NodeDef)
    (f : α → α → α) (first second : TensorId) : Prop where
  atDef : ctx.view.nodeDef? i = some def_
  atNode : ∃ node fanin0 fanin1, ctx.view.nodes[i]? = some node ∧ node.regularFanins = [fanin0, fanin1] ∧
    first = ⟨ctx.view.nameAt fanin0.nodeIndex, .port fanin0.index⟩ ∧
    second = ⟨ctx.view.nameAt fanin1.nodeIndex, .port fanin1.index⟩
  binary : isBinary def_ = .ok true
  isFunction : binaryFunction def_.op = some f
  isInput : ∃ rest, def_.input = first :: second :: rest
  computed : evalBinary f (value first) (value second) = some (value ⟨def_.name, .port 0⟩)

section Chain

variable {ctx : RemapperContext} {value : TensorId → Tensor α}

theorem evalBinary_of_validShape (describes : Describes ctx value) {i : Nat} {def_ : NodeDef}
    {first second : TensorId} {rest : List TensorId} (atDef : ctx.view.nodeDef? i = some def_)
    (isInput : def_.input = first :: second :: rest) (valid : ctx.validShape def_ = .ok true)
    (f : α → α → α) : ∃ result, evalBinary f (value first) (value second) = some result := by
  apply evalBinary_isSome
  unfold RemapperContext.validShape at valid
  obtain ⟨props, isProps, valid⟩ := bind_ok.1 valid
  split at valid
  next firstProp secondProp others =>
    have scalars := describes.scalar atDef isInput isProps
    by_cases same : shapesSymbolicallyEqual firstProp secondProp = true
    · exact .inl (describes.equal atDef isInput isProps same)
    · by_cases firstScalar : rank firstProp = 0
      · exact .inr (.inl (scalars.1 firstScalar))
      · by_cases secondScalar : rank secondProp = 0
        · exact .inr (.inr (scalars.2 secondScalar))
        · simp [same, firstScalar, secondScalar, pure, Except.pure] at valid
  next => cases valid

theorem exists_chainNode (navigable : ctx.view.Navigable) (declared : Declared ctx.view)
    (computes : Computes ctx.view value) (describes : Describes ctx value) {i : Nat}
    {node : MutableNodeView} {def_ : NodeDef} (atNode : ctx.view.nodes[i]? = some node)
    (atDef : ctx.view.nodeDef? i = some def_) (binary : isBinary def_ = .ok true)
    (valid : ctx.validShape def_ = .ok true) : ∃ f first second, ChainNode ctx value i def_ f first second := by
  obtain ⟨f, isFunction⟩ : ∃ f : α → α → α, binaryFunction def_.op = some f :=
    binaryFunction_of_isBinary binary
  obtain ⟨fanin0, fanin1, isFanins⟩ := List.length_eq_two.1 (declared.inputs atNode atDef binary)
  have isInput := navigable.inputs atNode atDef
  unfold MutableGraphView.inputsOf at isInput
  rw [isFanins, List.map_cons, List.map_singleton, List.cons_append, List.cons_append] at isInput
  obtain ⟨result, isResult⟩ := evalBinary_of_validShape describes atDef isInput valid f
  refine ⟨f, _, _, atDef, ⟨node, fanin0, fanin1, atNode, isFanins, rfl, rfl⟩, binary, isFunction, ⟨_, isInput⟩, ?_⟩
  rw [computes atDef isFunction isInput isResult]
  exact isResult

theorem nextInChain_eq_some {entry : RegularFanin × Nat} :
    ∀ {entries : List (RegularFanin × Nat)}, ctx.nextInChain entries = .ok (some entry) →
      entry ∈ entries ∧ ctx.extendsChain entry.1 = .ok true := by
  intro entries
  induction entries with
  | nil =>
    intro found
    cases found
  | cons head tail ih =>
    intro found
    obtain ⟨extends_, isExtends, found⟩ := bind_ok.1 found
    cases extends_ with
    | true =>
      cases found
      exact ⟨List.mem_cons_self, isExtends⟩
    | false =>
      obtain ⟨mem, isExtends⟩ := ih found
      exact ⟨List.mem_cons_of_mem _ mem, isExtends⟩

/-- What `FindFusedBinary` tested of an input at which the chain goes on. -/
theorem extendsChain_eq_true (indexed : ctx.view.Indexed)
    (found : ctx.extendsChain fanin = .ok true) : ∃ node def_, ctx.view.nodes[fanin.nodeIndex]? = some node ∧
      ctx.view.nodeDef? fanin.nodeIndex = some def_ ∧ isBinary def_ = .ok true ∧ ctx.validShape def_ = .ok true := by
  unfold RemapperContext.extendsChain at found
  obtain ⟨node, isNode, found⟩ := bind_ok.1 found
  obtain ⟨def_, isDef, found⟩ := bind_ok.1 found
  obtain ⟨binary, isBinary_, found⟩ := bind_ok.1 found
  have atNode := fetch_eq_ok.1 isNode
  rw [nodeDef_eq_ok, indexed.nodeIndex atNode] at isDef
  cases binary with
  | false => cases found
  | true =>
    simp only [Bool.not_true, Bool.false_eq_true, if_false] at found
    obtain ⟨-, found⟩ := of_guard found
    obtain ⟨-, found⟩ := of_guard found
    exact ⟨node, def_, atNode, isDef, isBinary_, found⟩

def chainOperand (first second : TensorId) (order : Nat) : TensorId := if order = 0 then first else second

def otherOperand (first second : TensorId) (order : Nat) : TensorId := if order = 0 then second else first

theorem ChainNode.next (navigable : ctx.view.Navigable) (declared : Declared ctx.view)
    (computes : Computes ctx.view value) (describes : Describes ctx value) {i : Nat} {def_ : NodeDef}
    {f : α → α → α} {first second : TensorId} (chainNode : ChainNode ctx value i def_ f first second)
    {node : MutableNodeView} (atNode : ctx.view.nodes[i]? = some node)
    (found : ctx.nextInChain node.regularFanins.zipIdx = .ok (some (fanin, order))) :
    order ≤ 1 ∧ ∃ nextDef g third fourth, ChainNode ctx value fanin.nodeIndex nextDef g third fourth ∧
      chainOperand first second order = ⟨nextDef.name, .port 0⟩ := by
  obtain ⟨mem, extends_⟩ := nextInChain_eq_some found
  obtain ⟨nextNode, nextDef, atNext, atNextDef, binary, valid⟩ :=
    extendsChain_eq_true navigable.indexed extends_
  obtain ⟨g, third, fourth, next⟩ :=
    exists_chainNode navigable declared computes describes atNext atNextDef binary valid
  have atOrder : node.regularFanins[order]? = some fanin := List.mem_zipIdx_iff_getElem?.1 mem
  have isOutput : fanin.index = 0 := declared.output (fanin_of_getElem? atNode atOrder) atNextDef binary
  have isName : ctx.view.nameAt fanin.nodeIndex = nextDef.name := nameAt_of_nodeDef? atNextDef
  obtain ⟨node', fanin0, fanin1, atNode', isFanins, isFirst, isSecond⟩ := chainNode.atNode
  rw [atNode] at atNode'
  cases atNode'
  rw [isFanins] at atOrder
  match order, atOrder with
  | 0, atOrder =>
    cases atOrder
    refine ⟨by decide, nextDef, g, third, fourth, next, ?_⟩
    rw [chainOperand, if_pos rfl, isFirst, isName, isOutput]
  | 1, atOrder =>
    cases atOrder
    refine ⟨by decide, nextDef, g, third, fourth, next, ?_⟩
    rw [chainOperand, if_neg (by decide), isSecond, isName, isOutput]

section

variable {i : Nat} {def_ : NodeDef} {f : α → α → α} {first second : TensorId}
  (chainNode : ChainNode ctx value i def_ f first second)

include chainNode

theorem ChainNode.element (order : Nat) :
    ∃ update, updateOp def_.op (Int.ofNat order) = some update ∧ ∀ k, (value ⟨def_.name, .port 0⟩).Covers k →
        FusedBinaryOp.element (value ⟨def_.name, .port 0⟩) k = FusedBinaryFunctor.cal update
          (FusedBinaryOp.element (value (chainOperand first second order)) k)
          (FusedBinaryOp.element (value (otherOperand first second order)) k) := by
  obtain ⟨update, isUpdate, isCal⟩ := cal_updateOp chainNode.isFunction order
  refine ⟨update, isUpdate, ?_⟩
  intro k covers
  rw [isCal, element_evalBinary chainNode.computed covers]
  unfold chainOperand otherOperand
  split <;> rfl

theorem ChainNode.shapes (order : Nat) : let chain := (value (chainOperand first second order)).shape
    let other := (value (otherOperand first second order)).shape
    let result := (value ⟨def_.name, .port 0⟩).shape
    (chain = [] ∨ chain = result) ∧ (other = [] ∨ other = result) ∧ (chain = result ∨ other = result) := by
  obtain ⟨isFirst, isSecond, one, -⟩ := evalBinary_cases chainNode.computed
  unfold chainOperand otherOperand
  by_cases isZero : order = 0
  · simp only [if_pos isZero]
    exact ⟨isFirst, isSecond, one⟩
  · simp only [if_neg isZero]
    exact ⟨isSecond, isFirst, one.symm⟩

theorem ChainNode.fetch_other (small : order ≤ 1) :
    fetch def_.input (1 - order) = .ok (otherOperand first second order) := by
  obtain ⟨rest, isInput⟩ := chainNode.isInput
  rw [isInput]
  unfold otherOperand
  match order, small with
  | 0, _ => rfl
  | 1, _ => rfl

end

theorem ChainNode.fetch_nodeDef (indexed : ctx.view.Indexed) {i : Nat} {def_ : NodeDef} {f : α → α → α}
    {first second : TensorId} (chainNode : ChainNode ctx value i def_ f first second) :
    ∃ node, fetch ctx.view.nodes i = .ok node ∧ ctx.nodeDef node = .ok def_ := by
  obtain ⟨node, _, _, atNode, -⟩ := chainNode.atNode
  refine ⟨node, fetch_eq_ok.2 atNode, ?_⟩
  rw [nodeDef_eq_ok, indexed.nodeIndex atNode]
  exact chainNode.atDef

theorem ChainNode.fetch_input {i : Nat} {def_ : NodeDef} {f : α → α → α} {first second : TensorId}
    (chainNode : ChainNode ctx value i def_ f first second) :
    fetch def_.input 1 = .ok second ∧ fetch def_.input 0 = .ok first := by
  obtain ⟨rest, isInput⟩ := chainNode.isInput
  rw [isInput]
  exact ⟨rfl, rfl⟩

end Chain

section Fused

variable {ctx : RemapperContext} {value : TensorId → Tensor α}

theorem lookup_addNodeAttr_ne {other : String} {value : AttrValue}
    (ne : other ≠ name) : (addNodeAttr attr name value).lookup other = attr.lookup other := by
  unfold addNodeAttr
  split
  · rfl
  · exact AList.lookup_insert_ne ne

theorem lookup_addNodeAttr {value : AttrValue} (absent : attr.lookup name = none) :
    (addNodeAttr attr name value).lookup name = some value := by
  unfold addNodeAttr
  rw [if_neg (by rw [← AList.lookup_isSome, absent]; simp), AList.lookup_insert]

/-- The kernel reads back what the fusion wrote. -/
theorem construct_fused {rootDef : NodeDef} (isFloat : hasFusedBinaryType rootDef = true)
    (attrs : "fused_ops" ∉ rootDef.attr ∧ "input_order" ∉ rootDef.attr) {name op device : String}
    {input : List TensorId} {num : Int} {fusedOps : List String} {inputOrder : List Int}
    (sizes : inputOrder.length + 1 = fusedOps.length) :
    ∃ dtype vecSize, FusedBinaryOp.construct ⟨name, op, device, input,
        addNodeAttr (addNodeAttr (addNodeAttr (copyAllAttrs fusedBinaryAttrs rootDef) "num_args" (.i num))
          "fused_ops" (.strings fusedOps)) "input_order" (.ints inputOrder)⟩ =
        .ok ⟨dtype, inputOrder ++ [0], fusedOps⟩ ∧ vecLength ⟨dtype, inputOrder ++ [0], fusedOps⟩ = .ok vecSize := by
  obtain ⟨dtype, atType, isType⟩ : ∃ dtype, rootDef.attr.lookup "T" = some (.type dtype) ∧
      (dtype = .float ∨ dtype = .bfloat16 ∨ dtype = .half) := by
    unfold hasFusedBinaryType hasDataType at isFloat
    cases atT : rootDef.attr.lookup "T" with
    | none => simp [atT] at isFloat
    | some found =>
      cases found with
      | type dtype =>
        simp [atT, AttrValue.typeValue, or_assoc] at isFloat
        exact ⟨dtype, rfl, isFloat⟩
      | _ => simp [atT, AttrValue.typeValue] at isFloat
  have copied : ∀ name, (copyAllAttrs fusedBinaryAttrs rootDef).lookup name =
      if name ∈ fusedBinaryAttrs ∧ name ∈ rootDef.attr then rootDef.attr.lookup name else none := by
    intro name
    exact lookup_foldl_insert rootDef name fusedBinaryAttrs ∅
  have noOps : (copyAllAttrs fusedBinaryAttrs rootDef).lookup "fused_ops" = none := by
    rw [copied, if_neg fun found => attrs.1 found.2]
  have noOrder : (copyAllAttrs fusedBinaryAttrs rootDef).lookup "input_order" = none := by
    rw [copied, if_neg fun found => attrs.2 found.2]
  have isT : (copyAllAttrs fusedBinaryAttrs rootDef).lookup "T" = some (.type dtype) := by
    rw [copied, if_pos ⟨by decide, by rw [← AList.lookup_isSome, atType]; rfl⟩, atType]
  generalize isAttr : addNodeAttr (addNodeAttr (addNodeAttr (copyAllAttrs fusedBinaryAttrs rootDef) "num_args" (.i num))
    "fused_ops" (.strings fusedOps)) "input_order" (.ints inputOrder) = attr
  have typeKept : attr.lookup "T" = some (.type dtype) := by
    rw [← isAttr, lookup_addNodeAttr_ne (by decide), lookup_addNodeAttr_ne (by decide),
      lookup_addNodeAttr_ne (by decide), isT]
  have opsKept : attr.lookup "fused_ops" = some (.strings fusedOps) := by
    rw [← isAttr, lookup_addNodeAttr_ne (by decide), lookup_addNodeAttr]
    rw [lookup_addNodeAttr_ne (by decide), noOps]
  have orderKept : attr.lookup "input_order" = some (.ints inputOrder) := by
    rw [← isAttr, lookup_addNodeAttr]
    rw [lookup_addNodeAttr_ne (by decide), lookup_addNodeAttr_ne (by decide), noOrder]
  have built : FusedBinaryOp.construct ⟨name, op, device, input, attr⟩ = .ok ⟨dtype, inputOrder ++ [0], fusedOps⟩ := by
    unfold FusedBinaryOp.construct
    simp [typeKept, opsKept, orderKept, require, sizes, bind, Except.bind, pure, Except.pure]
  rcases isType with isFloat | isBfloat | isHalf
  · exact ⟨dtype, 4, built, by simp [vecLength, isFloat]⟩
  · exact ⟨dtype, 8, built, by simp [vecLength, isBfloat]⟩
  · exact ⟨dtype, 8, built, by simp [vecLength, isHalf]⟩

theorem findFusedBinary_cases (navigable : ctx.view.Navigable) (declared : Declared ctx.view)
    (computes : Computes ctx.view value) (describes : Describes ctx value) {i : Nat} {matched : FusedBinary}
    (found : ctx.findFusedBinary i = .ok (some matched)) :
    ∃ rootDef f first second order nextIndex nextDef g third fourth,
      ChainNode ctx value i rootDef f first second ∧ hasFusedBinaryType rootDef = true ∧ order ≤ 1 ∧
      ChainNode ctx value nextIndex nextDef g third fourth ∧ chainOperand first second order = ⟨nextDef.name, .port 0⟩ ∧
      (matched = ⟨i, [nextIndex], [order], 2⟩ ∨ ∃ order' lastIndex lastDef h fifth sixth, order' ≤ 1 ∧
          ChainNode ctx value lastIndex lastDef h fifth sixth ∧
          chainOperand third fourth order' = ⟨lastDef.name, .port 0⟩ ∧
          matched = ⟨i, [nextIndex, lastIndex], [order, order'], 3⟩) := by
  unfold RemapperContext.findFusedBinary at found
  obtain ⟨node, isNode, found⟩ := bind_ok.1 found
  obtain ⟨rootDef, isDef, found⟩ := bind_ok.1 found
  have atNode := fetch_eq_ok.1 isNode
  rw [nodeDef_eq_ok, navigable.indexed.nodeIndex atNode] at isDef
  obtain ⟨-, found⟩ := of_guard found
  obtain ⟨binary, isBinary_, found⟩ := bind_ok.1 found
  cases binary with
  | false => cases found
  | true =>
    simp only [Bool.not_true, Bool.false_eq_true, if_false] at found
    obtain ⟨isFloat, found⟩ := of_guard found
    obtain ⟨valid, isValid, found⟩ := bind_ok.1 found
    cases valid with
    | false => cases found
    | true =>
      simp only [Bool.not_true, Bool.false_eq_true, if_false] at found
      obtain ⟨result, extended, found⟩ := bind_ok.1 found
      obtain ⟨f, first, second, root⟩ :=
        exists_chainNode navigable declared computes describes atNode isDef isBinary_ isValid
      -- Two turns of the loop, of which the first must go on.
      obtain ⟨node', isNode', extended⟩ := bind_ok.1 extended
      rw [isNode] at isNode'
      cases isNode'
      obtain ⟨_, -, extended⟩ := bind_ok.1 extended
      obtain ⟨next, isNext, extended⟩ := bind_ok.1 extended
      cases next with
      | none =>
        cases extended
        cases found
      | some entry =>
        obtain ⟨fanin, order⟩ := entry
        obtain ⟨small, nextDef, g, third, fourth, chainNode, isOperand⟩ :=
          root.next navigable declared computes describes atNode isNext
        refine ⟨rootDef, f, first, second, order, fanin.nodeIndex, nextDef, g, third, fourth, root,
          by simpa using isFloat, small, chainNode, isOperand, ?_⟩
        obtain ⟨nextNode, isNextNode, extended⟩ := bind_ok.1 extended
        obtain ⟨_, -, extended⟩ := bind_ok.1 extended
        obtain ⟨last, isLast, extended⟩ := bind_ok.1 extended
        cases last with
        | none =>
          cases extended
          cases found
          exact .inl rfl
        | some entry' =>
          obtain ⟨fanin', order'⟩ := entry'
          obtain ⟨small', lastDef, h, fifth, sixth, lastNode, isLastOperand⟩ :=
            chainNode.next navigable declared computes describes (fetch_eq_ok.1 isNextNode) isLast
          cases extended
          cases found
          exact .inr ⟨order', fanin'.nodeIndex, lastDef, h, fifth, sixth, small', lastNode, isLastOperand, rfl⟩

theorem nil_or_trans {inner middle outer : List Nat} (isInner : inner = [] ∨ inner = middle)
    (isMiddle : middle = [] ∨ middle = outer) : inner = [] ∨ inner = outer := by
  rcases isInner with isNil | rfl
  · exact .inl isNil
  · exact isMiddle

/-- The fused node, run by its kernel on any device, has the value of the root. -/
def KeepsValue (ctx : RemapperContext) (value : TensorId → Tensor α) (matched : FusedBinary) : Prop :=
  ∃ rootDef node kernel, ctx.view.nodeDef? matched.root = some rootDef ∧
    ctx.fusedBinaryNode matched = .ok node ∧ node.name = rootDef.name ∧
    FusedBinaryOp.construct node = .ok kernel ∧ ∀ device : Device α, kernel.compute device (node.input.map value) =
        .ok ((value ⟨rootDef.name, .port 0⟩).shape, (value ⟨rootDef.name, .port 0⟩).data)

theorem keepsValue_two (indexed : ctx.view.Indexed) {i : Nat} {f g : α → α → α} {first second : TensorId}
    (root : ChainNode ctx value i rootDef f first second) (isFloat : hasFusedBinaryType rootDef = true)
    (attrs : "fused_ops" ∉ rootDef.attr ∧ "input_order" ∉ rootDef.attr) (small : order ≤ 1)
    (next : ChainNode ctx value nextIndex nextDef g third fourth)
    (isOperand : chainOperand first second order = ⟨nextDef.name, .port 0⟩)
    (elements : (value ⟨rootDef.name, .port 0⟩).numElements < 2 ^ 31) :
    KeepsValue ctx value ⟨i, [nextIndex], [order], 2⟩ := by
  obtain ⟨rootNode, isRootNode, isRootDef⟩ := root.fetch_nodeDef indexed
  obtain ⟨nextNode, isNextNode, isNextDef⟩ := next.fetch_nodeDef indexed
  obtain ⟨stored, isStored, isDef⟩ := Option.map_eq_some_iff.1 root.atDef
  have fetchStored : fetch ctx.view.graph i = .ok stored := fetch_eq_ok.2 isStored
  obtain ⟨dtype, vecSize, isKernel, isVec⟩ := @construct_fused rootDef isFloat attrs rootDef.name
    kFusedBinary rootDef.device [otherOperand first second order, fourth, third] 3
    [rootDef.op, nextDef.op] [Int.ofNat order] rfl
  obtain ⟨update0, isOp0, isRoot⟩ := root.element order
  obtain ⟨update1, isOp1, isNext⟩ := next.element 0
  refine ⟨rootDef, _, _, root.atDef, ?_, ?_, isKernel, ?_⟩
  · unfold RemapperContext.fusedBinaryNode
    simp [fetchStored, isRootNode, isRootDef, isDef, require, addFusedInput, root.fetch_other small,
      isNextNode, isNextDef, next.fetch_input, bind, Except.bind, pure, Except.pure]
  · rfl
  · intro device
    obtain ⟨isChain, isOther, oneOfRoot⟩ := root.shapes order
    obtain ⟨isThird, isFourth, oneOfNext⟩ := next.shapes 0
    rw [isOperand] at isChain oneOfRoot isRoot
    have common : Common (value ⟨rootDef.name, .port 0⟩).shape
        [value (otherOperand first second order), value fourth, value third] := by
      constructor
      · intro input mem
        simp only [List.mem_cons, List.not_mem_nil, or_false] at mem
        rcases mem with rfl | rfl | rfl
        · exact isOther
        · exact nil_or_trans isFourth isChain
        · exact nil_or_trans isThird isChain
      · rcases oneOfRoot with chain | other
        · rcases oneOfNext with inThird | inFourth
          · exact ⟨value third, by simp, inThird.trans chain⟩
          · exact ⟨value fourth, by simp, inFourth.trans chain⟩
        · exact ⟨_, List.mem_cons_self, other⟩
    apply (compute_two device isOp0 isOp1 common elements isVec).trans
    rw [data_eq_map_element]
    congr 2
    apply List.map_congr_left
    intro k mem
    have inside := List.mem_range.1 mem
    rw [isRoot k (.inr inside), isNext k (Tensor.covers_of_shape isChain inside)]
    rfl

theorem keepsValue_three (indexed : ctx.view.Indexed) {i lastIndex order' : Nat}
    {lastDef : NodeDef} {f g h : α → α → α} {first second fifth sixth : TensorId}
    (root : ChainNode ctx value i rootDef f first second) (isFloat : hasFusedBinaryType rootDef = true)
    (attrs : "fused_ops" ∉ rootDef.attr ∧ "input_order" ∉ rootDef.attr) (small : order ≤ 1)
    (next : ChainNode ctx value nextIndex nextDef g third fourth)
    (isOperand : chainOperand first second order = ⟨nextDef.name, .port 0⟩) (small' : order' ≤ 1)
    (last : ChainNode ctx value lastIndex lastDef h fifth sixth)
    (isOperand' : chainOperand third fourth order' = ⟨lastDef.name, .port 0⟩)
    (elements : (value ⟨rootDef.name, .port 0⟩).numElements < 2 ^ 31) :
    KeepsValue ctx value ⟨i, [nextIndex, lastIndex], [order, order'], 3⟩ := by
  obtain ⟨rootNode, isRootNode, isRootDef⟩ := root.fetch_nodeDef indexed
  obtain ⟨nextNode, isNextNode, isNextDef⟩ := next.fetch_nodeDef indexed
  obtain ⟨lastNode, isLastNode, isLastDef⟩ := last.fetch_nodeDef indexed
  obtain ⟨stored, isStored, isDef⟩ := Option.map_eq_some_iff.1 root.atDef
  have fetchStored : fetch ctx.view.graph i = .ok stored := fetch_eq_ok.2 isStored
  obtain ⟨dtype, vecSize, isKernel, isVec⟩ := @construct_fused rootDef isFloat attrs rootDef.name
    kFusedBinary rootDef.device
    [otherOperand first second order, otherOperand third fourth order', sixth, fifth] 4
    [rootDef.op, nextDef.op, lastDef.op] [Int.ofNat order, Int.ofNat order'] rfl
  obtain ⟨update0, isOp0, isRoot⟩ := root.element order
  obtain ⟨update1, isOp1, isNext⟩ := next.element order'
  obtain ⟨update2, isOp2, isLast⟩ := last.element 0
  refine ⟨rootDef, _, _, root.atDef, ?_, ?_, isKernel, ?_⟩
  · unfold RemapperContext.fusedBinaryNode
    simp [fetchStored, isRootNode, isRootDef, isDef, require, addFusedInput, root.fetch_other small,
      next.fetch_other small', isNextNode, isNextDef, isLastNode, isLastDef, last.fetch_input, bind,
      Except.bind, pure, Except.pure]
  · rfl
  · intro device
    obtain ⟨isChain, isOther, oneOfRoot⟩ := root.shapes order
    obtain ⟨isChain', isOther', oneOfNext⟩ := next.shapes order'
    obtain ⟨isFifth, isSixth, oneOfLast⟩ := last.shapes 0
    rw [isOperand] at isChain oneOfRoot isRoot
    rw [isOperand'] at isChain' oneOfNext isNext
    have isLastShape := nil_or_trans isChain' isChain
    have common : Common (value ⟨rootDef.name, .port 0⟩).shape
        [value (otherOperand first second order), value (otherOperand third fourth order'),
          value sixth, value fifth] := by
      constructor
      · intro input mem
        simp only [List.mem_cons, List.not_mem_nil, or_false] at mem
        rcases mem with rfl | rfl | rfl | rfl
        · exact isOther
        · exact nil_or_trans isOther' isChain
        · exact nil_or_trans isSixth isLastShape
        · exact nil_or_trans isFifth isLastShape
      · rcases oneOfRoot with chain | other
        · rcases oneOfNext with chain' | other'
          · rcases oneOfLast with inFifth | inSixth
            · exact ⟨value fifth, by simp, inFifth.trans (chain'.trans chain)⟩
            · exact ⟨value sixth, by simp, inSixth.trans (chain'.trans chain)⟩
          · exact ⟨_, by simp, other'.trans chain⟩
        · exact ⟨_, List.mem_cons_self, other⟩
    apply (compute_three device isOp0 isOp1 isOp2 common elements isVec).trans
    rw [data_eq_map_element]
    congr 2
    apply List.map_congr_left
    intro k mem
    have inside := List.mem_range.1 mem
    rw [isRoot k (.inr inside), isNext k (Tensor.covers_of_shape isChain inside),
      isLast k (Tensor.covers_of_shape isLastShape inside)]
    rfl

/-- The fused node means what it replaced. -/
theorem findFusedBinary_keepsValue (navigable : ctx.view.Navigable) (declared : Declared ctx.view)
    (computes : Computes ctx.view value) (describes : Describes ctx value) {i : Nat} {matched : FusedBinary}
    (found : ctx.findFusedBinary i = .ok (some matched)) (elements : ∀ rootDef, ctx.view.nodeDef? i = some rootDef →
      (value ⟨rootDef.name, .port 0⟩).numElements < 2 ^ 31) : KeepsValue ctx value matched := by
  obtain ⟨rootDef, f, first, second, order, nextIndex, nextDef, g, third, fourth, root, isFloat, small, next,
    isOperand, isMatched⟩ := findFusedBinary_cases navigable declared computes describes found
  have attrs := declared.attrs root.atDef root.binary
  have isSmall := elements rootDef root.atDef
  rcases isMatched with rfl | ⟨order', lastIndex, lastDef, h, fifth, sixth, small', last, isOperand', rfl⟩
  · exact keepsValue_two navigable.indexed root isFloat attrs small next isOperand isSmall
  · exact keepsValue_three navigable.indexed root isFloat attrs small next isOperand small' last isOperand'
      isSmall

end Fused

/-! ## A chain of two nodes -/

def floatAttr : AttrMap := (∅ : AttrMap).insert "T" (.type .float)

def chainGraph : GraphDef :=
  [⟨"x", "Placeholder", "", [], ∅⟩, ⟨"y", "Placeholder", "", [], ∅⟩, ⟨"z", "Placeholder", "", [], ∅⟩,
    ⟨"mul", "Mul", "", [⟨"x", .port 0⟩, ⟨"y", .port 0⟩], floatAttr⟩,
    ⟨"sub", "Sub", "", [⟨"z", .port 0⟩, ⟨"mul", .port 0⟩], floatAttr⟩]

/-- Vectors of two elements, but for the scalar `y`. -/
def chainShapes (name : String) : Except Failure (List TensorShapeProto) :=
  if name = "mul" then .ok [⟨false, [2]⟩, ⟨false, []⟩]
  else if name = "sub" then .ok [⟨false, [2]⟩, ⟨false, [2]⟩]
  else .ok []

def chainContext (view : MutableGraphView) : RemapperContext :=
  ⟨view, [], chainShapes, chainShapes, fun _ => false, fun _ => false⟩

def chainValue (tensor : TensorId) : Tensor Int :=
  if tensor.node = "y" then ⟨[], [3], rfl⟩
  else if tensor.node = "x" then ⟨[2], [1, 2], rfl⟩
  else if tensor.node = "z" then ⟨[2], [10, 20], rfl⟩
  else if tensor.node = "mul" then ⟨[2], [3, 6], rfl⟩
  else ⟨[2], [7, 14], rfl⟩

section Example

variable {view : MutableGraphView}

theorem chainGraph_cases (isGraph : view.graph.map StoredNode.nodeDef = chainGraph) {i : Nat} {def_ : NodeDef}
    (atDef : view.nodeDef? i = some def_) : (def_.op = "Placeholder" ∧ def_.input = []) ∨
      (i = 3 ∧ def_ = ⟨"mul", "Mul", "", [⟨"x", .port 0⟩, ⟨"y", .port 0⟩], floatAttr⟩) ∨
      (i = 4 ∧ def_ = ⟨"sub", "Sub", "", [⟨"z", .port 0⟩, ⟨"mul", .port 0⟩], floatAttr⟩) := by
  rw [nodeDef?_of_graph isGraph] at atDef
  match i, atDef with
  | 0, atDef =>
    cases atDef
    exact .inl ⟨rfl, rfl⟩
  | 1, atDef =>
    cases atDef
    exact .inl ⟨rfl, rfl⟩
  | 2, atDef =>
    cases atDef
    exact .inl ⟨rfl, rfl⟩
  | 3, atDef =>
    cases atDef
    exact .inr (.inl ⟨rfl, rfl⟩)
  | 4, atDef =>
    cases atDef
    exact .inr (.inr ⟨rfl, rfl⟩)

theorem not_isBinary_placeholder (isPlaceholder : node.op = "Placeholder") :
    isBinary node ≠ .ok true := by
  simp [isBinary, isAdd, isMul, isSub, isPlaceholder, bind, Except.bind, pure, Except.pure]

section

variable (isGraph : view.graph.map StoredNode.nodeDef = chainGraph)

include isGraph

theorem chainGraph_declared (arity : view.nodes.map (fun node => node.regularFanins.length) = [0, 0, 0, 2, 2])
    (ports : view.allFanins (fun _ _ fanin => fanin.index == 0) = true) : Declared view := by
  refine ⟨?_, ?_, ?_⟩
  · intro i node def_ atNode atDef binary
    have atArity : (view.nodes.map fun node => node.regularFanins.length)[i]? = some node.regularFanins.length := by
      rw [List.getElem?_map, atNode]
      rfl
    rw [arity] at atArity
    rcases chainGraph_cases isGraph atDef with ⟨isPlaceholder, -⟩ | ⟨rfl, -⟩ | ⟨rfl, -⟩
    · exact absurd binary (not_isBinary_placeholder isPlaceholder)
    · exact (Option.some.inj atArity).symm
    · exact (Option.some.inj atArity).symm
  · intro i k fanin def_ atFanin _ _
    exact beq_iff_eq.1 (of_all_fanins ports atFanin)
  · intro i def_ atDef binary
    rcases chainGraph_cases isGraph atDef with ⟨isPlaceholder, -⟩ | ⟨-, rfl⟩ | ⟨-, rfl⟩
    · exact absurd binary (not_isBinary_placeholder isPlaceholder)
    · exact ⟨by decide, by decide⟩
    · exact ⟨by decide, by decide⟩

theorem chainGraph_computes : Computes view chainValue := by
  intro i def_ f first second rest result atDef isFunction isInput isResult
  rcases chainGraph_cases isGraph atDef with ⟨-, noInput⟩ | ⟨-, rfl⟩ | ⟨-, rfl⟩
  · rw [noInput] at isInput
    cases isInput
  · cases isFunction
    cases isInput
    exact Option.some.inj isResult
  · cases isFunction
    cases isInput
    exact Option.some.inj isResult

theorem chainGraph_describes : Describes (chainContext view) chainValue := by
  constructor
  · intro i def_ first second rest firstProp secondProp props atDef isInput isProps same
    rcases chainGraph_cases isGraph atDef with ⟨-, noInput⟩ | ⟨-, rfl⟩ | ⟨-, rfl⟩
    · rw [noInput] at isInput
      cases isInput
    · cases isProps
      exact absurd same (by decide)
    · cases isInput
      rfl
  · intro i def_ first second rest firstProp secondProp props atDef isInput isProps
    rcases chainGraph_cases isGraph atDef with ⟨-, noInput⟩ | ⟨-, rfl⟩ | ⟨-, rfl⟩
    · rw [noInput] at isInput
      cases isInput
    · cases isProps
      cases isInput
      exact ⟨fun isScalar => absurd isScalar (by decide), fun _ => rfl⟩
    · cases isProps
      exact ⟨fun isScalar => absurd isScalar (by decide), fun isScalar => absurd isScalar (by decide)⟩

end

end Example

/-- `z - x * y`, fused: the subtraction first, the chain second. -/
theorem chainGraph_fused : ∃ view, construct chainGraph = .ok view ∧
    (chainContext view).findFusedBinary 4 = .ok (some ⟨4, [3], [1], 2⟩) ∧
    KeepsValue (chainContext view) chainValue ⟨4, [3], [1], 2⟩ := by
  obtain ⟨view, built, isGraph, arity, ports, found⟩ : ∃ view, construct chainGraph = .ok view ∧
      view.graph.map StoredNode.nodeDef = chainGraph ∧
      view.nodes.map (fun node => node.regularFanins.length) = [0, 0, 0, 2, 2] ∧
      view.allFanins (fun _ _ fanin => fanin.index == 0) = true ∧
      (chainContext view).findFusedBinary 4 = .ok (some ⟨4, [3], [1], 2⟩) := ⟨_, rfl, rfl, rfl, rfl, rfl⟩
  refine ⟨view, built, found, ?_⟩
  apply findFusedBinary_keepsValue (construct_inv built).1.navigable
    (chainGraph_declared isGraph arity ports) (chainGraph_computes isGraph)
    (chainGraph_describes isGraph) found
  intro rootDef atRoot
  change view.nodeDef? 4 = some rootDef at atRoot
  rw [nodeDef?_of_graph isGraph] at atRoot
  cases atRoot
  decide

end Itex.Remapper
