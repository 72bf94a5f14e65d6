import Itex.GraphUtils.Construction
import Itex.GraphUtils.Renumbering
import Itex.Lib.Broadcast
import Itex.Remapper.Constants

/-!
Contract: the rewrite of dropout from two selects to a cast and two products
(`itex/core/graph/remapper/remapper.cc`).

Owns: `FindDropout`, the nodes that `AddDropout` builds, and when these have the values and
the types of the selects.

Does not own: shape inference. What it says of a constant is assumed to describe it.
-/

namespace Itex.Remapper

open Itex.Graph (DataType Failure AttrValue PortId TensorId AttrMap NodeDef GraphDef Number TensorProto)
open Itex.Lib (bind_ok broadcastExtents alignIndex indices of_guard)
open Itex.GraphUtils Itex.GraphUtils.MutableGraphView

variable {constDef : NodeDef} {constant : TensorProto} {i p : Nat} {number : Number}
  {types : TensorId → DataType}

structure Dropout where
  select0 : Nat
  select1 : Nat
  greaterEqual : Nat
  constNode0 : Nat
  constNode1 : Nat
deriving DecidableEq

def isSelect (node : NodeDef) : Bool := node.op == "Select" || node.op == "SelectV2"

def isGreaterEqual (node : NodeDef) : Bool := node.op == "GreaterEqual"

def hasControlFanout (nodeView : MutableNodeView) : Bool := decide (0 < nodeView.controlledFanouts.length)

def hasSelectType (node : NodeDef) : Bool :=
  hasDataType node .float || hasDataType node .bfloat16 || hasDataType node .half

/-- The literal `1e-2`, a `double`. -/
def kOneHundredth : Rat := 5764607523034235 / 2 ^ 59

def validValue (constNode : NodeDef) : Except Failure Bool := do
  let constTensor ← getTensorFromConstant constNode
  let constDtype := getDataTypeFromAttr constNode "dtype"
  if constDtype ∈ [DataType.bfloat16, .half, .float] then
    let constValue ← firstNumber constTensor constDtype
    return !isAbove constValue kOneHundredth
  else return false

namespace RemapperContext

variable (ctx : RemapperContext)

def validSelectShape (select : NodeDef) : Except Failure Bool := do
  let props ← ctx.inputProperties select.name
  match props with
  | condition :: t :: e :: _ =>
    let sameInput := shapesSymbolicallyEqual condition t
    let hasScalar := rank e == 0
    return sameInput && hasScalar
  | _ => return false

def isDropoutSelect (selectView : MutableNodeView) (select : NodeDef) : Except Failure Bool :=
  if !isSelect select || hasControlFanin selectView then .ok false
  else if !hasSelectType select then .ok false
  -- SelectOp has 3 input, condition, t and e.
  else if selectView.regularFanins.length != 3 then .ok false
  else ctx.validSelectShape select

/-- The second select, with the other fanout of the comparison. -/
def findSelect1 (select1Index : Nat) : Except Failure (Option Nat) := do
  let select1View ← fetch ctx.view.nodes select1Index
  let select1 ← ctx.nodeDef select1View
  let isSelect1 ← ctx.isDropoutSelect select1View select1
  if !isSelect1 then return none
  else
    -- Nothing says that this node is a constant.
    let fanin ← fetch select1View.regularFanins 2
    let constView ← fetch ctx.view.nodes fanin.nodeIndex
    let constNode ← ctx.nodeDef constView
    let valid ← validValue constNode
    if valid then return some fanin.nodeIndex else return none

def findDropout (nodeIndex : Nat) : Except Failure (Option Dropout) := do
  let nodeView ← fetch ctx.view.nodes nodeIndex
  let node ← ctx.nodeDef nodeView
  let isSelect0 ← ctx.isDropoutSelect nodeView node
  if !isSelect0 then return none
  else
    let fanin0 ← fetch nodeView.regularFanins 0
    let greaterEqual ← fetch ctx.view.nodes fanin0.nodeIndex
    let greaterEqualDef ← ctx.nodeDef greaterEqual
    if !isGreaterEqual greaterEqualDef || hasControlFanout greaterEqual then return none
    else
      let fanin2 ← fetch nodeView.regularFanins 2
      let constant ← fetch ctx.view.nodes fanin2.nodeIndex
      let constantDef ← ctx.nodeDef constant
      if !isConstant constantDef || hasControlFaninOrFanout constant then return none
      else
        let valid ← validValue constantDef
        if !valid then return none
        else
          match regularFanout greaterEqual 0 with
          | [first, second] =>
            let select1Index := if first.nodeIndex = nodeIndex then second.nodeIndex else first.nodeIndex
            let constNode1 ← ctx.findSelect1 select1Index
            return constNode1.map fun constNode1 =>
              ⟨nodeIndex, select1Index, fanin0.nodeIndex, fanin2.nodeIndex, constNode1⟩
          | _ => return none

/-- The product that replaces a select. -/
def dropoutMul (castName : String) (select : NodeDef) : Except Failure NodeDef := do
  let t ← fetch select.input 1
  let dtype ← attrAt select "T"
  return {
    name := select.name
    op := "Mul"
    device := select.device
    input := [t, ⟨castName, .port 0⟩]
    attr := (∅ : AttrMap).insert "T" dtype }

/-- The nodes that `AddDropout` adds. -/
def dropoutNodes (matched : Dropout) : Except Failure (NodeDef × NodeDef × NodeDef) := do
  let select0 ← fetch ctx.view.graph matched.select0
  let select1 ← fetch ctx.view.graph matched.select1
  let greaterEqual ← fetch ctx.view.graph matched.greaterEqual
  let dstT ← attrAt greaterEqual.nodeDef "T"
  let cast : NodeDef := {
    name := greaterEqual.nodeDef.name ++ "_cast"
    op := "Cast"
    device := greaterEqual.nodeDef.device
    input := [⟨greaterEqual.nodeDef.name, .port 0⟩]
    attr := ((∅ : AttrMap).insert "SrcT" (.type .bool)).insert "DstT" dstT }
  let mul ← dropoutMul cast.name select0.nodeDef
  let mul1 ← dropoutMul cast.name select1.nodeDef
  return (cast, mul, mul1)

end RemapperContext

/-- A graph whose selects and comparisons are typed as their ops declare. -/
structure TypedSelects (view : MutableGraphView) (types : TensorId → DataType) : Prop where
  select : ∀ {i : Nat} {def_ : NodeDef} {c t e : TensorId} {rest : List TensorId},
    view.nodeDef? i = some def_ → isSelect def_ = true → def_.input = c :: t :: e :: rest →
    types c = .bool ∧ types t = getDataTypeFromAttr def_ "T" ∧ types e = getDataTypeFromAttr def_ "T" ∧
      types ⟨def_.name, .port 0⟩ = getDataTypeFromAttr def_ "T"
  greaterEqual : ∀ {i : Nat} {def_ : NodeDef}, view.nodeDef? i = some def_ → isGreaterEqual def_ = true →
    types ⟨def_.name, .port 0⟩ = .bool

/-- The edges of a `Cast`. -/
def CastTyped (types : TensorId → DataType) (node : NodeDef) : Prop :=
  (∀ input ∈ node.input, types input = getDataTypeFromAttr node "SrcT") ∧
    types ⟨node.name, .port 0⟩ = getDataTypeFromAttr node "DstT"

/-- The edges of a `Mul`. -/
def MulTyped (types : TensorId → DataType) (node : NodeDef) : Prop :=
  (∀ input ∈ node.input, types input = getDataTypeFromAttr node "T") ∧
    types ⟨node.name, .port 0⟩ = getDataTypeFromAttr node "T"

/-- The types of the rewritten graph: the cast has a new output. -/
def castTypes (types : TensorId → DataType) (cast : NodeDef) (tensor : TensorId) : DataType :=
  if tensor = ⟨cast.name, .port 0⟩ then getDataTypeFromAttr cast "DstT" else types tensor

section Values

variable {A R : Type} [Field R]

/-- `Select` and `SelectV2`. -/
def evalSelect (c : Lib.Tensor Bool) (t e : Lib.Tensor (Option A)) : Option (Lib.Tensor (Option A)) := do
  let picked ← Lib.Tensor.elementwise Prod.mk c t
  Lib.Tensor.elementwise (fun pair e => if pair.1 then pair.2 else e) picked e

/-- `Cast` of booleans. -/
def evalCast (c : Lib.Tensor Bool) : Lib.Tensor (Option R) :=
  ⟨c.extents, fun index => some (if c.entry index then 1 else 0)⟩

def evalMulNode (node : NodeDef) (value : TensorId → Lib.Tensor (Option R)) : Option (Lib.Tensor (Option R)) :=
  match node.input with
  | [x, y] => Lib.Tensor.elementwise (Option.map₂ (· * ·)) (value x) (value y)
  | _ => none

/-- A tensor that has the constant as its value where it is the output of one. -/
def Provides (view : MutableGraphView) (tensor : TensorId) (value : Lib.Tensor (Option R)) : Prop :=
  ∀ {i : Nat} {constDef : NodeDef} {constant : TensorProto}, view.nodeDef? i = some constDef →
    tensor = ⟨constDef.name, .port 0⟩ → isAnyConst constDef = true →
    getTensorFromConstant constDef = .ok constant → value = constantTensor R constant

variable (R) in
/-- The product has the value of the select, for every condition of these extents, every
finite `t`, and a scalar `e`. -/
def KeepsSelect (view : MutableGraphView) (cast select mul : NodeDef) (extents : List Nat) : Prop :=
  ∃ c t e rest castInput, select.input = c :: t :: e :: rest ∧ cast.input = [castInput] ∧
    ∀ (booleans : TensorId → Lib.Tensor Bool) (x : Lib.Tensor R) (scalar : Lib.Tensor (Option R)),
      (∀ tensor, (booleans tensor).extents = extents) → x.extents = extents → scalar.extents = [] →
      Provides view e scalar →
      ∃ selected product, evalSelect (booleans c) (realTensor x) scalar = some selected ∧
        evalMulNode mul (fun tensor =>
          if tensor = ⟨cast.name, .port 0⟩ then evalCast (booleans castInput)
          else realTensor x) = some product ∧
        selected.Same product

variable (R) in
def KeepsDropout (ctx : RemapperContext) (types : TensorId → DataType) (matched : Dropout)
    (select0 select1 : NodeDef) (extents : List Nat) : Prop :=
  ∃ cast mul mul1, ctx.dropoutNodes matched = .ok (cast, mul, mul1) ∧
    (CastTyped (castTypes types cast) cast ∧ MulTyped (castTypes types cast) mul ∧
      MulTyped (castTypes types cast) mul1) ∧
    (cast.name ≠ mul.name ∧ cast.name ≠ mul1.name) ∧
    KeepsSelect R ctx.view cast select0 mul extents ∧ KeepsSelect R ctx.view cast select1 mul1 extents

section Select

variable {c : Lib.Tensor Bool} {extents : List Nat}

theorem exists_evalSelect {x : Lib.Tensor A} {scalar : Lib.Tensor (Option A)} (cExtents : c.extents = extents) (xExtents : x.extents = extents)
    (isScalar : scalar.extents = []) :
    ∃ selected, evalSelect c (realTensor x) scalar = some selected ∧ selected.extents = extents ∧
      ∀ index ∈ indices extents, selected.entry index =
        if c.entry index then some (x.entry index) else scalar.entry [] := by
  obtain ⟨picked, isPicked, pickedExtents, pickedEntry⟩ :=
    Lib.Tensor.exists_elementwise_same Prod.mk (x := c) (y := realTensor x) (xExtents.trans cExtents.symm)
  obtain ⟨selected, isSelected, selectedExtents, selectedEntry⟩ :=
    Lib.Tensor.exists_elementwise_scalar (fun (pair : Bool × Option A) e => if pair.1 then pair.2 else e) picked isScalar
  rw [pickedExtents, cExtents] at selectedExtents selectedEntry
  rw [cExtents] at pickedEntry
  unfold evalSelect
  rw [isPicked]
  refine ⟨selected, isSelected, selectedExtents, ?_⟩
  intro index mem
  rw [selectedEntry index mem, pickedEntry index mem]
  rfl

theorem exists_evalMulNode (value : TensorId → Lib.Tensor (Option R)) {mul : NodeDef} {first second : TensorId}
    (isInput : mul.input = [first, second]) (firstExtents : (value first).extents = extents)
    (secondExtents : (value second).extents = extents) :
    ∃ product, evalMulNode mul value = some product ∧ product.extents = extents ∧
      ∀ index ∈ indices extents, product.entry index =
        Option.map₂ (· * ·) ((value first).entry index) ((value second).entry index) := by
  obtain ⟨product, isProduct, productExtents, productEntry⟩ :=
    Lib.Tensor.exists_elementwise_same (Option.map₂ (· * ·)) (x := value first) (y := value second)
      (secondExtents.trans firstExtents.symm)
  rw [firstExtents] at productExtents productEntry
  unfold evalMulNode
  rw [isInput]
  exact ⟨product, isProduct, productExtents, productEntry⟩

end Select

section Keeps

variable {view : MutableGraphView} {cast select mul : NodeDef} {c t e : TensorId} {rest : List TensorId}
  {extents : List Nat}

theorem keepsSelect_iff_entries (isSelect : select.input = c :: t :: e :: rest) (isCast : cast.input = [c])
    (isMul : mul.input = [t, ⟨cast.name, .port 0⟩]) : KeepsSelect R view cast select mul extents ↔
      ∀ (booleans : TensorId → Lib.Tensor Bool) (x : Lib.Tensor R) (scalar : Lib.Tensor (Option R)),
        (∀ tensor, (booleans tensor).extents = extents) → x.extents = extents → scalar.extents = [] →
        Provides view e scalar → ∀ index ∈ indices extents,
          (if (booleans c).entry index then some (x.entry index) else scalar.entry []) =
            some ((if t = ⟨cast.name, .port 0⟩ then if (booleans c).entry index then 1 else 0
              else x.entry index) * if (booleans c).entry index then 1 else 0) := by
  have products : ∀ (booleans : TensorId → Lib.Tensor Bool) (x : Lib.Tensor R),
      (∀ tensor, (booleans tensor).extents = extents) → x.extents = extents →
      ∃ product, evalMulNode mul (fun tensor =>
          if tensor = ⟨cast.name, .port 0⟩ then evalCast (booleans c) else realTensor x) = some product ∧
        product.extents = extents ∧ ∀ index ∈ indices extents, product.entry index =
          some ((if t = ⟨cast.name, .port 0⟩ then if (booleans c).entry index then 1 else 0
            else x.entry index) * if (booleans c).entry index then 1 else 0) := by
    intro booleans x cExtents xExtents
    have operand : (if t = ⟨cast.name, .port 0⟩ then evalCast (booleans c) else realTensor x).extents = extents := by
      split
      · exact cExtents c
      · exact xExtents
    obtain ⟨product, isProduct, productExtents, productEntry⟩ := exists_evalMulNode
      (fun tensor => if tensor = ⟨cast.name, .port 0⟩ then evalCast (booleans c) else realTensor x)
      isMul operand (by rw [if_pos rfl]; exact cExtents c)
    refine ⟨product, isProduct, productExtents, ?_⟩
    intro index mem
    rw [productEntry index mem, if_pos rfl]
    split <;> rfl
  constructor
  · intro ⟨c', t', e', rest', castInput, isSelect', isCast', keeps⟩
    rw [isSelect] at isSelect'
    rw [isCast] at isCast'
    cases isSelect'
    cases isCast'
    intro booleans x scalar cExtents xExtents isScalar provides index mem
    obtain ⟨selected, product, isSelected, isProduct, same⟩ :=
      keeps booleans x scalar cExtents xExtents isScalar provides
    obtain ⟨selected', isSelected', selectedExtents, selectedEntry⟩ :=
      exists_evalSelect (cExtents c) xExtents isScalar
    obtain ⟨product', isProduct', -, productEntry⟩ := products booleans x cExtents xExtents
    rw [isSelected'] at isSelected
    rw [isProduct'] at isProduct
    cases isSelected
    cases isProduct
    rw [← selectedEntry index mem, ← productEntry index mem]
    exact same.2 index (by rw [selectedExtents]; exact mem)
  · intro entries
    refine ⟨c, t, e, rest, c, isSelect, isCast, ?_⟩
    intro booleans x scalar cExtents xExtents isScalar provides
    obtain ⟨selected, isSelected, selectedExtents, selectedEntry⟩ :=
      exists_evalSelect (cExtents c) xExtents isScalar
    obtain ⟨product, isProduct, productExtents, productEntry⟩ := products booleans x cExtents xExtents
    refine ⟨selected, product, isSelected, isProduct, selectedExtents.trans productExtents.symm, ?_⟩
    simp_all

/-- The node behind `e`, and what the matcher and its declaration say of it. -/
structure ReadsScalar (view : MutableGraphView) (e : TensorId) (constDef : NodeDef) (constant : TensorProto)
    (number : Number) : Prop where
  atConst : ∃ i, view.nodeDef? i = some constDef
  node : e.node = constDef.name
  isConstant : getTensorFromConstant constDef = .ok constant
  numbers : ∃ others, constant.numbers = number :: others
  declared : isAnyConst constDef = true → e = ⟨constDef.name, .port 0⟩ ∧ constant.shape = []

theorem exists_provides (indexed : view.Indexed) (reads : ReadsScalar view e constDef constant number) :
    ∃ scalar : Lib.Tensor (Option R), scalar.extents = [] ∧ Provides view e scalar ∧
      scalar.entry [] = if isAnyConst constDef then realOf R number else some 1 := by
  obtain ⟨i, atConst⟩ := reads.atConst
  obtain ⟨others, isNumbers⟩ := reads.numbers
  by_cases isConst : isAnyConst constDef = true
  · obtain ⟨isOutput, isScalar⟩ := reads.declared isConst
    refine ⟨constantTensor R constant, isScalar, ?_, ?_⟩
    · intro j constDef' constant' atConst' isOutput' _ isConstant'
      rw [isOutput] at isOutput'
      have sameIndex := indexed.eq_of_name atConst atConst' (congrArg TensorId.node isOutput')
      rw [sameIndex, atConst'] at atConst
      cases atConst
      rw [reads.isConstant] at isConstant'
      cases isConstant'
      rfl
    · rw [if_pos isConst]
      exact constantTensor_entry (by rw [isScalar]; rfl) isNumbers (by rw [isScalar]; exact Lib.mem_indices_nil.2 rfl)
  · refine ⟨⟨[], fun _ => some 1⟩, rfl, ?_, by rw [if_neg isConst]⟩
    intro j constDef' constant' atConst' isOutput' isConst' _
    have sameIndex := indexed.eq_of_name atConst atConst'
      (reads.node.symm.trans (congrArg TensorId.node isOutput'))
    rw [sameIndex, atConst'] at atConst
    cases atConst
    exact absurd isConst' isConst

theorem keepsSelect_iff [CharZero R] (indexed : view.Indexed) (isSelect : select.input = c :: t :: e :: rest)
    (isCast : cast.input = [c]) (isMul : mul.input = [t, ⟨cast.name, .port 0⟩])
    (reads : ReadsScalar view e constDef constant number) :
    KeepsSelect R view cast select mul extents ↔
      0 ∈ extents ∨ (t ≠ ⟨cast.name, .port 0⟩ ∧ isAnyConst constDef = true ∧ number = .finite 0) := by
  rw [keepsSelect_iff_entries isSelect isCast isMul]
  obtain ⟨scalar, isScalar, provides, isEntry⟩ := exists_provides (R := R) indexed reads
  constructor
  · intro same
    by_cases isEmpty : 0 ∈ extents
    · exact .inl isEmpty
    · obtain ⟨index, mem⟩ := Lib.exists_mem_indices isEmpty
      have atTwo := same (fun _ => ⟨extents, fun _ => true⟩) ⟨extents, fun _ => 2⟩ scalar (fun _ => rfl) rfl
        isScalar provides index mem
      have atZero := same (fun _ => ⟨extents, fun _ => false⟩) ⟨extents, fun _ => 0⟩ scalar (fun _ => rfl) rfl
        isScalar provides index mem
      simp only [if_true, mul_one, Option.some.injEq] at atTwo
      simp only [Bool.false_eq_true, if_false, mul_zero, isEntry] at atZero
      refine .inr ⟨?_, ?_⟩
      · intro isCastOutput
        rw [if_pos isCastOutput] at atTwo
        norm_num at atTwo
      · by_cases isConst : isAnyConst constDef = true
        · rw [if_pos isConst] at atZero
          refine ⟨isConst, ?_⟩
          cases number with
          | infinite negative => cases atZero
          | nan => cases atZero
          | finite value =>
            have isZero : (value : R) = 0 := Option.some.inj atZero
            rw [Rat.cast_eq_zero.1 isZero]
        · rw [if_neg isConst] at atZero
          exact absurd (Option.some.inj atZero) one_ne_zero
  · intro right booleans x scalar' cExtents xExtents isScalar' provides' index mem
    rcases right with isEmpty | ⟨other, isConst, isZero⟩
    · exact absurd mem (Lib.not_mem_indices isEmpty)
    · obtain ⟨i, atConst⟩ := reads.atConst
      obtain ⟨others, isNumbers⟩ := reads.numbers
      obtain ⟨isOutput, constantScalar⟩ := reads.declared isConst
      have atScalar : scalar'.entry [] = some 0 := by
        rw [provides' atConst isOutput isConst reads.isConstant, constantTensor_entry (by rw [constantScalar]; rfl)
          isNumbers (by rw [constantScalar]; exact Lib.mem_indices_nil.2 rfl), isZero]
        exact congrArg some Rat.cast_zero
      rw [if_neg other, atScalar]
      split
      · rw [mul_one]
      · rw [mul_zero]

end Keeps

end Values

section Match

open RemapperContext

variable {ctx : RemapperContext}

def isComparisonOrConst (node : NodeDef) : Bool := isGreaterEqual node || isAnyConst node

theorem validValue_eq_true {constNode : NodeDef} (found : validValue constNode = .ok true) :
    ∃ constant number others, getTensorFromConstant constNode = .ok constant ∧ constant.numbers = number :: others := by
  unfold validValue at found
  obtain ⟨constant, isConstant, found⟩ := bind_ok.1 found
  dsimp only at found
  split at found
  next =>
    obtain ⟨number, isNumber, -⟩ := bind_ok.1 found
    obtain ⟨others, isNumbers⟩ := firstNumber_eq_ok isNumber
    exact ⟨constant, number, others, isConstant, isNumbers⟩
  next => cases found

/-- What is tested of either select. -/
structure DropoutSelect (ctx : RemapperContext) (selectView : MutableNodeView) (select : NodeDef) : Prop where
  isSelect : isSelect select = true
  hasType : hasSelectType select = true
  noControl : selectView.controllingFanins = []
  three : selectView.regularFanins.length = 3
  scalar : ∃ condition t e rest, ctx.inputProperties select.name = .ok (condition :: t :: e :: rest) ∧ rank e = 0

theorem isDropoutSelect_eq_true {selectView : MutableNodeView} {select : NodeDef}
    (found : ctx.isDropoutSelect selectView select = .ok true) : DropoutSelect ctx selectView select := by
  unfold isDropoutSelect at found
  obtain ⟨tested, found⟩ := of_guard found
  obtain ⟨typed, found⟩ := of_guard found
  obtain ⟨three, found⟩ := of_guard found
  unfold validSelectShape at found
  obtain ⟨props, isProps, found⟩ := bind_ok.1 found
  split at found
  next condition t e rest =>
    have isValid : (shapesSymbolicallyEqual condition t && rank e == 0) = true := by
      simpa [pure, Except.pure] using found
    simp only [Bool.or_eq_true, Bool.not_eq_true', not_or, Bool.not_eq_false, Bool.not_eq_true] at tested
    simp only [Bool.not_eq_true', Bool.not_eq_false] at typed
    rw [Bool.and_eq_true, beq_iff_eq] at isValid
    exact
      { isSelect := tested.1
        hasType := typed
        noControl := by
          have free := tested.2
          unfold hasControlFanin at free
          rw [decide_eq_false_iff_not, Nat.not_lt, Nat.le_zero] at free
          exact List.eq_nil_of_length_eq_zero free
        three := by simpa using three
        scalar := ⟨condition, t, e, rest, isProps, isValid.2⟩ }
  next => cases found

theorem DropoutSelect.inputs (navigable : ctx.view.Navigable)
    (oneOutput : OneOutput isComparisonOrConst ctx.view) (describes : DescribesConstants ctx)
    {selectView : MutableNodeView} {select : NodeDef} {fanin2 : RegularFanin}
    (tested : DropoutSelect ctx selectView select) (atView : ctx.view.nodes[i]? = some selectView)
    (atSelect : ctx.view.nodeDef? i = some select) (atFanin2 : selectView.regularFanins[2]? = some fanin2)
    (atConst : ctx.view.nodeDef? fanin2.nodeIndex = some constDef) (valid : validValue constDef = .ok true) :
    ∃ fanin0 t e constant number, selectView.regularFanins[0]? = some fanin0 ∧
      select.input = [⟨ctx.view.nameAt fanin0.nodeIndex, .port fanin0.index⟩, t, e] ∧
      ReadsScalar ctx.view e constDef constant number := by
  obtain ⟨fanin0, fanin1, fanin2', isFanins⟩ := List.length_eq_three.1 tested.three
  have isInput := navigable.inputs atView atSelect
  rw [inputsOf, tested.noControl, isFanins] at isInput
  rw [isFanins] at atFanin2
  cases atFanin2
  obtain ⟨constant, number, others, isConstant, isNumbers⟩ := validValue_eq_true valid
  have atFanin : ctx.view.fanin i 2 = some fanin2 := by
    rw [MutableGraphView.fanin, field_of_getElem? atView, isFanins]
    rfl
  refine ⟨fanin0, ⟨ctx.view.nameAt fanin1.nodeIndex, .port fanin1.index⟩,
    ⟨ctx.view.nameAt fanin2.nodeIndex, .port fanin2.index⟩, constant, number, by rw [isFanins]; rfl, isInput, ?_⟩
  exact
    { atConst := ⟨_, atConst⟩
      node := nameAt_of_nodeDef? atConst
      isConstant := isConstant
      numbers := ⟨others, isNumbers⟩
      declared := by
        intro isConst
        obtain ⟨condition, t, e, rest, isProps, isScalar⟩ := tested.scalar
        have isOutput := oneOutput atFanin atConst (by rw [isComparisonOrConst, isConst, Bool.or_true])
        refine ⟨by rw [nameAt_of_nodeDef? atConst, isOutput], ?_⟩
        exact (describes atSelect atFanin atConst isConst isConstant isProps rfl).eq_nil isScalar }

structure Dropout.Of (matched : Dropout) (ctx : RemapperContext) (select0 select1 greaterEqual const0 const1 : NodeDef) :
    Prop where
  atSelect0 : ctx.view.nodeDef? matched.select0 = some select0
  atSelect1 : ctx.view.nodeDef? matched.select1 = some select1
  atGreaterEqual : ctx.view.nodeDef? matched.greaterEqual = some greaterEqual
  atConst0 : ctx.view.nodeDef? matched.constNode0 = some const0
  atConst1 : ctx.view.nodeDef? matched.constNode1 = some const1

/-- A select of a match, with the comparison as its condition. -/
structure MatchedSelect (view : MutableGraphView) (select greaterEqual constDef : NodeDef) (t e : TensorId)
    (constant : TensorProto) (number : Number) : Prop where
  isSelect : isSelect select = true
  hasType : hasSelectType select = true
  isInput : select.input = [⟨greaterEqual.name, .port 0⟩, t, e]
  reads : ReadsScalar view e constDef constant number

theorem findSelect1_eq_some (indexed : ctx.view.Indexed) {j : Nat} (found : ctx.findSelect1 j = .ok (some p)) :
    ∃ selectView select fanin constDef, ctx.view.nodes[j]? = some selectView ∧
      ctx.view.nodeDef? j = some select ∧ DropoutSelect ctx selectView select ∧
      selectView.regularFanins[2]? = some fanin ∧ fanin.nodeIndex = p ∧
      ctx.view.nodeDef? fanin.nodeIndex = some constDef ∧ validValue constDef = .ok true := by
  unfold findSelect1 at found
  obtain ⟨selectView, isView, found⟩ := bind_ok.1 found
  obtain ⟨select, isDef, found⟩ := bind_ok.1 found
  obtain ⟨isSelect1, tested, found⟩ := bind_ok.1 found
  obtain ⟨atView, atSelect⟩ := nodeDef?_of_fetch indexed isView isDef
  cases isSelect1 with
  | false => cases found
  | true =>
    obtain ⟨fanin, isFanin, found⟩ := bind_ok.1 found
    obtain ⟨constView, isConstView, found⟩ := bind_ok.1 found
    obtain ⟨constDef, isConstDef, found⟩ := bind_ok.1 found
    obtain ⟨valid, isValid, found⟩ := bind_ok.1 found
    cases valid with
    | false => cases found
    | true =>
      cases found
      exact ⟨selectView, select, fanin, constDef, atView, atSelect, isDropoutSelect_eq_true tested,
        fetch_eq_ok.1 isFanin, rfl, (nodeDef?_of_fetch indexed isConstView isConstDef).2, isValid⟩

theorem eq_zero_of_typed (typed : TypedSelects ctx.view types) {k : Nat}
    {select greaterEqual : NodeDef} {c t e : TensorId} (atSelect : ctx.view.nodeDef? i = some select)
    (atGreaterEqual : ctx.view.nodeDef? p = some greaterEqual) (isSelect_ : isSelect select = true)
    (hasType : hasSelectType select = true) (isComparison : isGreaterEqual greaterEqual = true)
    (isInput : select.input = [c, t, e]) (atK : select.input[k]? = some ⟨greaterEqual.name, .port 0⟩) :
    c = ⟨greaterEqual.name, .port 0⟩ := by
  obtain ⟨-, isT, isE, -⟩ := typed.select atSelect isSelect_ isInput
  have isBool := typed.greaterEqual atGreaterEqual isComparison
  have notBool : getDataTypeFromAttr select "T" ≠ .bool := by
    intro isBool
    unfold getDataTypeFromAttr at isBool
    simp [hasSelectType, hasDataType, isBool] at hasType
  grind

theorem findDropout_selects (navigable : ctx.view.Navigable)
    (oneOutput : OneOutput isComparisonOrConst ctx.view) (describes : DescribesConstants ctx)
    {types : TensorId → DataType} (typed : TypedSelects ctx.view types) {i : Nat} {matched : Dropout}
    (found : ctx.findDropout i = .ok (some matched)) {select0 select1 greaterEqual const0 const1 : NodeDef}
    (of : matched.Of ctx select0 select1 greaterEqual const0 const1) : isGreaterEqual greaterEqual = true ∧
      (∃ t e constant number, MatchedSelect ctx.view select0 greaterEqual const0 t e constant number) ∧
      ∃ t e constant number, MatchedSelect ctx.view select1 greaterEqual const1 t e constant number := by
  unfold findDropout at found
  obtain ⟨nodeView, atView, found⟩ := bind_ok.1 found
  obtain ⟨node, atNode, found⟩ := bind_ok.1 found
  obtain ⟨isSelect0, tested0, found⟩ := bind_ok.1 found
  obtain ⟨passed0, found⟩ := of_guard found
  obtain ⟨fanin0, atFanin0, found⟩ := bind_ok.1 found
  obtain ⟨greaterEqualView, atGreaterEqual, found⟩ := bind_ok.1 found
  obtain ⟨greaterEqualDef, atGreaterEqualDef, found⟩ := bind_ok.1 found
  obtain ⟨passedComparison, found⟩ := of_guard found
  obtain ⟨fanin2, atFanin2, found⟩ := bind_ok.1 found
  obtain ⟨constView, atConstView, found⟩ := bind_ok.1 found
  obtain ⟨constDef, atConstDef, found⟩ := bind_ok.1 found
  split at found
  · cases found
  next =>
    obtain ⟨valid, isValid, found⟩ := bind_ok.1 found
    obtain ⟨passedValue, found⟩ := of_guard found
    split at found
    next first second isFanouts =>
      dsimp only at found
      obtain ⟨constNode1, isSelect1, found⟩ := bind_ok.1 found
      cases constNode1 with
      | none => cases found
      | some constNode1 =>
        cases found
        have indexed := navigable.indexed
        obtain ⟨atView, atNode⟩ := nodeDef?_of_fetch indexed atView atNode
        obtain ⟨atGreaterEqual, atGreaterEqualDef⟩ :=
          nodeDef?_of_fetch indexed atGreaterEqual atGreaterEqualDef
        obtain ⟨-, atConstDef⟩ := nodeDef?_of_fetch indexed atConstView atConstDef
        obtain ⟨select1View, select1Def, fanin1, const1Def, atView1, atNode1, passed1, atFanin1, isConst1,
          atConst1, isValid1⟩ := findSelect1_eq_some indexed isSelect1
        have sameSelect0 := of.atSelect0
        have sameSelect1 := of.atSelect1
        have sameGreaterEqual := of.atGreaterEqual
        have sameConst0 := of.atConst0
        have sameConst1 := of.atConst1
        dsimp only at sameSelect0 sameSelect1 sameGreaterEqual sameConst0 sameConst1
        rw [atNode] at sameSelect0
        rw [atNode1] at sameSelect1
        rw [atGreaterEqualDef] at sameGreaterEqual
        rw [atConstDef] at sameConst0
        rw [← isConst1, atConst1] at sameConst1
        cases sameSelect0
        cases sameSelect1
        cases sameGreaterEqual
        cases sameConst0
        cases sameConst1
        simp only [Bool.not_eq_true', Bool.not_eq_false] at passed0 passedValue
        rw [passed0] at tested0
        rw [passedValue] at isValid
        simp only [Bool.or_eq_true, Bool.not_eq_true', not_or, Bool.not_eq_false] at passedComparison
        have isComparison := passedComparison.1
        have passed0 := isDropoutSelect_eq_true tested0
        obtain ⟨fanin0', t, e, constant, number, atFanin0', isInput, reads⟩ :=
          passed0.inputs navigable oneOutput describes atView atNode (fetch_eq_ok.1 atFanin2) atConstDef isValid
        obtain ⟨faninC, t1, e1, constant1, number1, -, isInput1, reads1⟩ :=
          passed1.inputs navigable oneOutput describes atView1 atNode1 atFanin1 atConst1 isValid1
        refine ⟨isComparison, ⟨t, e, constant, number, passed0.isSelect, passed0.hasType, ?_, reads⟩,
          t1, e1, constant1, number1, passed1.isSelect, passed1.hasType, ?_, reads1⟩
        · rw [fetch_eq_ok.1 atFanin0] at atFanin0'
          cases atFanin0'
          have isOutput : fanin0.index = 0 := oneOutput (fanin_of_getElem? atView (fetch_eq_ok.1 atFanin0))
            atGreaterEqualDef (by rw [isComparisonOrConst, isComparison, Bool.true_or])
          rw [isInput, isOutput, nameAt_of_nodeDef? atGreaterEqualDef]
        · obtain ⟨fanout, mem, isNode⟩ : ∃ fanout ∈ regularFanout greaterEqualView 0,
              fanout.nodeIndex = if first.nodeIndex = i then second.nodeIndex else first.nodeIndex := by
            rw [isFanouts]
            split
            · exact ⟨second, by simp, rfl⟩
            · exact ⟨first, by simp, rfl⟩
          rw [← isNode] at atNode1
          have atK := input_of_fanout navigable atGreaterEqual atGreaterEqualDef mem atNode1
          have isCondition := eq_zero_of_typed typed atNode1 atGreaterEqualDef passed1.isSelect passed1.hasType
            isComparison isInput1 atK
          rw [isInput1, isCondition]
    next => cases found

/-! ## The result -/

structure StandsFor (castName : String) (select mul : NodeDef) : Prop where
  name : mul.name = select.name
  input : ∀ {t : TensorId}, select.input[1]? = some t → mul.input = [t, ⟨castName, .port 0⟩]
  type : getDataTypeFromAttr mul "T" = getDataTypeFromAttr select "T"

theorem dropoutMul_eq_ok {castName : String} {select mul : NodeDef} (built : dropoutMul castName select = .ok mul) :
    StandsFor castName select mul := by
  unfold dropoutMul at built
  obtain ⟨t, isT, built⟩ := bind_ok.1 built
  obtain ⟨dtype, isType, built⟩ := bind_ok.1 built
  cases built
  refine ⟨rfl, ?_, ?_⟩
  · intro t' isT'
    rw [fetch_eq_ok.1 isT] at isT'
    cases isT'
    rfl
  · unfold attrAt at isType
    split at isType
    next value isValue =>
      cases isType
      unfold getDataTypeFromAttr
      rw [AList.lookup_insert, isValue]
    next => cases isType

theorem exists_dropoutMul (castName : String) {select : NodeDef} {t : TensorId} (isT : select.input[1]? = some t)
    (hasType : hasSelectType select = true) : ∃ mul, dropoutMul castName select = .ok mul := by
  unfold dropoutMul attrAt
  rw [fetch_eq_ok.2 isT]
  cases isType : select.attr.lookup "T" with
  | none => simp [hasSelectType, hasDataType, isType] at hasType
  | some value => exact ⟨_, rfl⟩

structure CastsComparison (greaterEqual cast : NodeDef) : Prop where
  name : cast.name = greaterEqual.name ++ "_cast"
  input : cast.input = [⟨greaterEqual.name, .port 0⟩]
  srcT : getDataTypeFromAttr cast "SrcT" = .bool
  dstT : getDataTypeFromAttr cast "DstT" = getDataTypeFromAttr greaterEqual "T"

theorem CastsComparison.name_ne {greaterEqual cast : NodeDef} (casts : CastsComparison greaterEqual cast) :
    greaterEqual.name ≠ cast.name := by
  intro same
  have sameLength := congrArg String.length (same.trans casts.name)
  rw [String.length_append] at sameLength
  have five : "_cast".length = 5 := rfl
  omega

theorem fetch_graph {def_ : NodeDef} (atDef : ctx.view.nodeDef? i = some def_) :
    ∃ stored, fetch ctx.view.graph i = .ok stored ∧ stored.nodeDef = def_ := by
  obtain ⟨stored, atStored, isDef⟩ := Option.map_eq_some_iff.1 atDef
  exact ⟨stored, fetch_eq_ok.2 atStored, isDef⟩

section Nodes

variable {matched : Dropout} {select0 select1 greaterEqual const0 const1 cast mul mul1 : NodeDef}

theorem dropoutNodes_eq_ok (of : matched.Of ctx select0 select1 greaterEqual const0 const1)
    (built : ctx.dropoutNodes matched = .ok (cast, mul, mul1)) :
    CastsComparison greaterEqual cast ∧ StandsFor cast.name select0 mul ∧ StandsFor cast.name select1 mul1 := by
  obtain ⟨stored0, fetched0, rfl⟩ := fetch_graph of.atSelect0
  obtain ⟨stored1, fetched1, rfl⟩ := fetch_graph of.atSelect1
  obtain ⟨stored, fetched, rfl⟩ := fetch_graph of.atGreaterEqual
  unfold dropoutNodes at built
  obtain ⟨_, isStored0, built⟩ := bind_ok.1 built
  obtain ⟨_, isStored1, built⟩ := bind_ok.1 built
  obtain ⟨_, isStored, built⟩ := bind_ok.1 built
  rw [fetched0] at isStored0
  rw [fetched1] at isStored1
  rw [fetched] at isStored
  cases isStored0
  cases isStored1
  cases isStored
  obtain ⟨dstT, isDst, built⟩ := bind_ok.1 built
  obtain ⟨mul', isMul, built⟩ := bind_ok.1 built
  obtain ⟨mul1', isMul1, built⟩ := bind_ok.1 built
  cases built
  refine ⟨⟨rfl, rfl, rfl, ?_⟩, dropoutMul_eq_ok isMul, dropoutMul_eq_ok isMul1⟩
  unfold attrAt at isDst
  split at isDst
  next value isValue =>
    cases isDst
    unfold getDataTypeFromAttr
    rw [AList.lookup_insert, isValue]
  next => cases isDst

theorem exists_dropoutNodes (of : matched.Of ctx select0 select1 greaterEqual const0 const1)
    {t0 t1 : TensorId} (isT0 : select0.input[1]? = some t0) (isT1 : select1.input[1]? = some t1)
    (hasType0 : hasSelectType select0 = true) (hasType1 : hasSelectType select1 = true)
    (sameType : getDataTypeFromAttr greaterEqual "T" = getDataTypeFromAttr select0 "T") :
    ∃ cast mul mul1, ctx.dropoutNodes matched = .ok (cast, mul, mul1) := by
  obtain ⟨stored0, fetched0, rfl⟩ := fetch_graph of.atSelect0
  obtain ⟨stored1, fetched1, rfl⟩ := fetch_graph of.atSelect1
  obtain ⟨stored, fetched, rfl⟩ := fetch_graph of.atGreaterEqual
  unfold dropoutNodes
  rw [fetched0, fetched1, fetched]
  obtain ⟨mul, isMul⟩ := exists_dropoutMul (stored.nodeDef.name ++ "_cast") isT0 hasType0
  obtain ⟨mul1, isMul1⟩ := exists_dropoutMul (stored.nodeDef.name ++ "_cast") isT1 hasType1
  cases isType : stored.nodeDef.attr.lookup "T" with
  | none =>
    have noType : getDataTypeFromAttr stored0.nodeDef "T" = .invalid := by
      rw [← sameType, getDataTypeFromAttr, isType]
      rfl
    unfold getDataTypeFromAttr at noType
    simp [hasSelectType, hasDataType, noType] at hasType0
  | some value =>
    simp only [bind, Except.bind, attrAt, isType, isMul, isMul1]
    exact ⟨_, _, _, rfl⟩

end Nodes

theorem mulTyped_iff (typed : TypedSelects ctx.view types)
    {select greaterEqual cast mul : NodeDef} {c t e : TensorId} (atSelect : ctx.view.nodeDef? i = some select)
    (isSelect_ : isSelect select = true) (isInput : select.input = [c, t, e])
    (casts : CastsComparison greaterEqual cast) (stands : StandsFor cast.name select mul)
    (apart : cast.name ≠ mul.name) : MulTyped (castTypes types cast) mul ↔
      getDataTypeFromAttr greaterEqual "T" = getDataTypeFromAttr select "T" := by
  obtain ⟨-, isT, -, isOutput⟩ := typed.select atSelect isSelect_ isInput
  have mulInput := stands.input (by rw [isInput]; rfl : select.input[1]? = some t)
  unfold MulTyped
  rw [mulInput, stands.type]
  have castOutput : castTypes types cast ⟨cast.name, .port 0⟩ = getDataTypeFromAttr greaterEqual "T" := by
    rw [castTypes, if_pos rfl, casts.dstT]
  constructor
  · intro ⟨inputs, _⟩
    rw [← castOutput]
    exact inputs _ (by simp)
  · intro sameType
    constructor
    · intro input mem
      rcases List.mem_cons.1 mem with rfl | mem
      · unfold castTypes
        split
        · rw [casts.dstT, sameType]
        · exact isT
      · rw [List.mem_singleton.1 mem, castOutput, sameType]
    · have other : (⟨mul.name, .port 0⟩ : TensorId) ≠ ⟨cast.name, .port 0⟩ := by
        intro same
        exact apart (congrArg TensorId.node same).symm
      rw [castTypes, if_neg other, stands.name, isOutput]

theorem castTyped (typed : TypedSelects ctx.view types)
    {greaterEqual cast : NodeDef} (atGreaterEqual : ctx.view.nodeDef? p = some greaterEqual)
    (isComparison : isGreaterEqual greaterEqual = true) (casts : CastsComparison greaterEqual cast) :
    CastTyped (castTypes types cast) cast := by
  constructor
  · intro input mem
    rw [casts.input, List.mem_singleton] at mem
    have other : input ≠ ⟨cast.name, .port 0⟩ := by
      rw [mem]
      intro same
      exact casts.name_ne (congrArg TensorId.node same)
    rw [castTypes, if_neg other, mem, typed.greaterEqual atGreaterEqual isComparison, casts.srcT]
  · rw [castTypes, if_pos rfl]

def IsZero (constDef : NodeDef) : Prop :=
  isAnyConst constDef = true ∧ ∃ constant, getTensorFromConstant constDef = .ok constant ∧
    constant.numbers.head? = some (.finite 0)

theorem ReadsScalar.isZero_iff {e : TensorId} (reads : ReadsScalar ctx.view e constDef constant number) :
    IsZero constDef ↔ isAnyConst constDef = true ∧ number = .finite 0 := by
  obtain ⟨others, isNumbers⟩ := reads.numbers
  unfold IsZero
  rw [reads.isConstant]
  simp_all

/-- The new nodes keep values and types exactly if the comparison has the type of both selects,
the name of the cast is that of neither, and, unless there is nothing to select, both constants
are zero and no `t` is read under the name of the cast. -/
theorem findDropout_keeps_iff {R : Type} [Field R] [CharZero R] (navigable : ctx.view.Navigable)
    (oneOutput : OneOutput isComparisonOrConst ctx.view) (describes : DescribesConstants ctx)
    {types : TensorId → DataType} (typed : TypedSelects ctx.view types) {i : Nat} {matched : Dropout}
    (found : ctx.findDropout i = .ok (some matched)) {select0 select1 greaterEqual const0 const1 : NodeDef}
    (of : matched.Of ctx select0 select1 greaterEqual const0 const1) (extents : List Nat) :
    KeepsDropout R ctx types matched select0 select1 extents ↔
      (getDataTypeFromAttr greaterEqual "T" = getDataTypeFromAttr select0 "T" ∧
        getDataTypeFromAttr greaterEqual "T" = getDataTypeFromAttr select1 "T") ∧
      (greaterEqual.name ++ "_cast" ≠ select0.name ∧ greaterEqual.name ++ "_cast" ≠ select1.name) ∧
      (0 ∈ extents ∨ ((∀ select ∈ [select0, select1],
        select.input[1]? ≠ some ⟨greaterEqual.name ++ "_cast", .port 0⟩) ∧ IsZero const0 ∧ IsZero const1)) := by
  obtain ⟨isComparison, ⟨t0, e0, constant0, number0, matched0⟩, t1, e1, constant1, number1, matched1⟩ :=
    findDropout_selects navigable oneOutput describes typed found of
  have isT0 : select0.input[1]? = some t0 := by
    rw [matched0.isInput]
    rfl
  have isT1 : select1.input[1]? = some t1 := by
    rw [matched1.isInput]
    rfl
  have kept : ∀ {cast mul mul1}, ctx.dropoutNodes matched = .ok (cast, mul, mul1) →
      CastsComparison greaterEqual cast ∧ StandsFor cast.name select0 mul ∧ StandsFor cast.name select1 mul1 ∧
      (KeepsSelect R ctx.view cast select0 mul extents ∧ KeepsSelect R ctx.view cast select1 mul1 extents ↔
        0 ∈ extents ∨ ((∀ select ∈ [select0, select1],
          select.input[1]? ≠ some ⟨greaterEqual.name ++ "_cast", .port 0⟩) ∧ IsZero const0 ∧ IsZero const1)) := by
    intro cast mul mul1 built
    obtain ⟨casts, stands0, stands1⟩ := dropoutNodes_eq_ok of built
    refine ⟨casts, stands0, stands1, ?_⟩
    rw [keepsSelect_iff navigable.indexed matched0.isInput casts.input (stands0.input isT0) matched0.reads,
      keepsSelect_iff navigable.indexed matched1.isInput casts.input (stands1.input isT1) matched1.reads,
      ← matched0.reads.isZero_iff, ← matched1.reads.isZero_iff, casts.name, ← or_and_left]
    simp only [List.forall_mem_cons, isT0, isT1, ne_eq, Option.some.injEq, List.not_mem_nil, false_implies,
      implies_true, and_true]
    apply or_congr_right
    exact and_and_and_comm
  constructor
  · intro ⟨cast, mul, mul1, built, ⟨_, typed0, typed1⟩, apart, keeps⟩
    obtain ⟨casts, stands0, stands1, iff_⟩ := kept built
    have sameType0 := (mulTyped_iff typed of.atSelect0 matched0.isSelect matched0.isInput casts stands0 apart.1).1 typed0
    have sameType1 := (mulTyped_iff typed of.atSelect1 matched1.isSelect matched1.isInput casts stands1 apart.2).1 typed1
    rw [stands0.name, stands1.name, casts.name] at apart
    exact ⟨⟨sameType0, sameType1⟩, apart, iff_.1 keeps⟩
  · intro ⟨sameType, apart, right⟩
    obtain ⟨cast, mul, mul1, built⟩ :=
      exists_dropoutNodes of isT0 isT1 matched0.hasType matched1.hasType sameType.1
    obtain ⟨casts, stands0, stands1, iff_⟩ := kept built
    rw [← casts.name, ← stands0.name, ← stands1.name] at apart
    refine ⟨cast, mul, mul1, built, ⟨castTyped typed of.atGreaterEqual isComparison casts, ?_, ?_⟩, apart,
      iff_.2 right⟩
    · exact (mulTyped_iff typed of.atSelect0 matched0.isSelect matched0.isInput casts stands0 apart.1).2 sameType.1
    · exact (mulTyped_iff typed of.atSelect1 matched1.isSelect matched1.isInput casts stands1 apart.2).2 sameType.2

end Match

/-! ## Two graphs -/

def floatNodeAttr : AttrMap := (∅ : AttrMap).insert "T" (.type .float)

def scalarAttr (value : Rat) : AttrMap :=
  ((∅ : AttrMap).insert "dtype" (.type .float)).insert "value" (.tensor ⟨.float, [], [.finite value], []⟩)

/-- Dropout and its gradient, which put `value` where `r` is below `rate`. -/
def dropoutGraph (value : Rat) : GraphDef :=
  [⟨"r", "Placeholder", "", [], ∅⟩, ⟨"rate", "Placeholder", "", [], ∅⟩,
    ⟨"keep", "GreaterEqual", "", [⟨"r", .port 0⟩, ⟨"rate", .port 0⟩], floatNodeAttr⟩,
    ⟨"dropped", "Const", "", [], scalarAttr value⟩, ⟨"x", "Placeholder", "", [], ∅⟩,
    ⟨"forward", "SelectV2", "", [⟨"keep", .port 0⟩, ⟨"x", .port 0⟩, ⟨"dropped", .port 0⟩], floatNodeAttr⟩,
    ⟨"dy", "Placeholder", "", [], ∅⟩,
    ⟨"backward", "SelectV2", "", [⟨"keep", .port 0⟩, ⟨"dy", .port 0⟩, ⟨"dropped", .port 0⟩], floatNodeAttr⟩]

def dropoutShapes (name : String) : Except Failure (List TensorShapeProto) :=
  if name = "forward" ∨ name = "backward" then .ok [⟨false, [2]⟩, ⟨false, [2]⟩, ⟨false, []⟩] else .ok []

def dropoutContext (view : MutableGraphView) : RemapperContext :=
  ⟨view, [], dropoutShapes, dropoutShapes, fun _ => false, fun _ => false⟩

def dropoutTypes (tensor : TensorId) : DataType := if tensor.node = "keep" then .bool else .float

section Example

variable {view : MutableGraphView} {value : Rat}

theorem dropoutGraph_oneOutput (ports : view.allFanins (fun _ _ fanin => fanin.index == 0) = true) :
    OneOutput isComparisonOrConst view := by
  intro i k fanin def_ atFanin _ _
  exact beq_iff_eq.1 (of_all_fanins ports atFanin)

theorem dropoutGraph_typed (isGraph : view.graph.map StoredNode.nodeDef = dropoutGraph value) :
    TypedSelects view dropoutTypes := by
  constructor
  · intro i def_ c t e rest atDef isSelect_ isInput
    rw [nodeDef?_of_graph isGraph] at atDef
    match i, atDef with
    | 0, atDef | 1, atDef | 2, atDef | 3, atDef | 4, atDef | 6, atDef =>
      cases atDef
      cases isSelect_
    | 5, atDef | 7, atDef =>
      cases atDef
      cases isInput
      exact ⟨rfl, rfl, rfl, rfl⟩
  · intro i def_ atDef isComparison
    rw [nodeDef?_of_graph isGraph] at atDef
    match i, atDef with
    | 0, atDef | 1, atDef | 3, atDef | 4, atDef | 5, atDef | 6, atDef | 7, atDef =>
      cases atDef
      cases isComparison
    | 2, atDef =>
      cases atDef
      rfl

theorem dropoutGraph_describes (isGraph : view.graph.map StoredNode.nodeDef = dropoutGraph value)
    (reads : view.allFanins (fun i k fanin => fanin.nodeIndex != 3 || (i == 5 || i == 7) && k == 2) = true) :
    DescribesConstants (dropoutContext view) := by
  intro i k fanin def_ constDef props prop tensor atDef atFanin atConst isConst isTensor isProps atProp
  change view.nodeDef? fanin.nodeIndex = some constDef at atConst
  have ofFanin := of_all_fanins reads atFanin
  rw [nodeDef?_of_graph isGraph] at atConst
  change view.nodeDef? i = some def_ at atDef
  rw [nodeDef?_of_graph isGraph] at atDef
  generalize fanin.nodeIndex = p at atConst ofFanin
  match p, atConst with
  | 0, atConst | 1, atConst | 2, atConst | 4, atConst | 5, atConst | 6, atConst | 7, atConst =>
    cases atConst
    cases isConst
  | 3, atConst =>
    cases atConst
    cases isTensor
    simp only [bne_self_eq_false, Bool.false_or, Bool.and_eq_true, Bool.or_eq_true, beq_iff_eq] at ofFanin
    rw [ofFanin.2] at atProp
    rcases ofFanin.1 with rfl | rfl
    · cases atDef
      cases isProps
      cases atProp
      exact ⟨fun _ => List.Forall₂.nil, fun isUnknown => by cases isUnknown⟩
    · cases atDef
      cases isProps
      cases atProp
      exact ⟨fun _ => List.Forall₂.nil, fun isUnknown => by cases isUnknown⟩

structure DropoutView (view : MutableGraphView) (value : Rat) : Prop where
  built : construct (dropoutGraph value) = .ok view
  isGraph : view.graph.map StoredNode.nodeDef = dropoutGraph value
  ports : view.allFanins (fun _ _ fanin => fanin.index == 0) = true
  reads : view.allFanins (fun i k fanin => fanin.nodeIndex != 3 || (i == 5 || i == 7) && k == 2) = true
  found : (dropoutContext view).findDropout 5 = .ok (some ⟨5, 7, 2, 3, 3⟩)

end Example

/-- Selects of zero, over vectors of two entries. -/
theorem zero_dropped : ∃ view, construct (dropoutGraph 0) = .ok view ∧
    (dropoutContext view).findDropout 5 = .ok (some ⟨5, 7, 2, 3, 3⟩) ∧
    ∃ select0 select1, view.nodeDef? 5 = some select0 ∧ view.nodeDef? 7 = some select1 ∧
      KeepsDropout Rat (dropoutContext view) dropoutTypes ⟨5, 7, 2, 3, 3⟩ select0 select1 [2] := by
  obtain ⟨view, built, isGraph, ports, reads, found⟩ : ∃ view, DropoutView view 0 := ⟨_, rfl, rfl, rfl, rfl, by decide +kernel⟩
  have of : (⟨5, 7, 2, 3, 3⟩ : Dropout).Of (dropoutContext view) _ _ _ _ _ :=
    ⟨nodeDef?_of_graph isGraph 5, nodeDef?_of_graph isGraph 7, nodeDef?_of_graph isGraph 2,
      nodeDef?_of_graph isGraph 3, nodeDef?_of_graph isGraph 3⟩
  refine ⟨view, built, found, _, _, of.atSelect0, of.atSelect1, ?_⟩
  rw [@findDropout_keeps_iff (dropoutContext view) Rat _ _ (construct_inv built).1.navigable
    (dropoutGraph_oneOutput ports) (dropoutGraph_describes isGraph reads) _ (dropoutGraph_typed isGraph)
    _ _ found _ _ _ _ _ of]
  exact ⟨⟨rfl, rfl⟩, ⟨by decide, by decide⟩, .inr ⟨by decide, ⟨rfl, _, rfl, rfl⟩, ⟨rfl, _, rfl, rfl⟩⟩⟩

/-- Selects of -1, which is less than the tolerance too. -/
theorem minus_one_dropped : ∃ view, construct (dropoutGraph (-1)) = .ok view ∧ view.Navigable ∧
    OneOutput isComparisonOrConst view ∧ DescribesConstants (dropoutContext view) ∧ TypedSelects view dropoutTypes ∧
    (dropoutContext view).findDropout 5 = .ok (some ⟨5, 7, 2, 3, 3⟩) ∧
    ∃ select0 select1, view.nodeDef? 5 = some select0 ∧ view.nodeDef? 7 = some select1 ∧
      ¬ KeepsDropout Rat (dropoutContext view) dropoutTypes ⟨5, 7, 2, 3, 3⟩ select0 select1 [2] := by
  obtain ⟨view, built, isGraph, ports, reads, found⟩ : ∃ view, DropoutView view (-1) := ⟨_, rfl, rfl, rfl, rfl, by decide +kernel⟩
  have navigable := (construct_inv built).1.navigable
  have oneOutput : OneOutput isComparisonOrConst view := dropoutGraph_oneOutput ports
  have describes : DescribesConstants (dropoutContext view) := dropoutGraph_describes isGraph reads
  have typed := dropoutGraph_typed isGraph
  have of : (⟨5, 7, 2, 3, 3⟩ : Dropout).Of (dropoutContext view) _ _ _ _ _ :=
    ⟨nodeDef?_of_graph isGraph 5, nodeDef?_of_graph isGraph 7, nodeDef?_of_graph isGraph 2,
      nodeDef?_of_graph isGraph 3, nodeDef?_of_graph isGraph 3⟩
  refine ⟨view, built, navigable, oneOutput, describes, typed, found, _, _, of.atSelect0, of.atSelect1, ?_⟩
  intro ⟨cast, mul, mul1, isNodes, _, _, keeps, _⟩
  obtain ⟨-, ⟨t, e, constant, number, matched⟩, -⟩ :=
    @findDropout_selects (dropoutContext view) navigable oneOutput describes _ typed _ _ found _ _ _ _ _ of
  obtain ⟨casts, stands, -⟩ := dropoutNodes_eq_ok of isNodes
  rcases (keepsSelect_iff navigable.indexed matched.isInput casts.input
    (stands.input (by rw [matched.isInput]; rfl)) matched.reads).1 keeps with isEmpty | ⟨-, isZero⟩
  · exact absurd isEmpty (by decide)
  · obtain ⟨-, constant', isConstant, isFirst⟩ := matched.reads.isZero_iff.2 isZero
    cases isConstant
    exact absurd isFirst (by decide)

end Itex.Remapper
