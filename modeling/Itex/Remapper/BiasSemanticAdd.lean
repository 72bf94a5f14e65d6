import Itex.GraphUtils.Construction
import Itex.Remapper.Context
import Itex.Lib.Broadcast
import Itex.Lib.Collapse

/-!
Contract: an `Add` of a contraction that is taken for a `BiasAdd` (`remapper.cc`).

Owns: the test on formats and inferred shapes, the `BiasAdd` of a flattened operand, and for
which shapes the two agree.
-/

namespace Itex.Remapper

open Itex.Graph (Failure NodeDef)
open Itex.GraphUtils Itex.Lib

variable {channels count : Nat} {lead : List Nat}

/-! ## The test -/

def isConvOrMatMul (node : NodeDef) : Bool :=
  ["Conv3D", "Conv2D", "DepthwiseConv2dNative", "MatMul"].contains node.op

def isChannelLastFormat (node : NodeDef) : Bool :=
  match node.attr.lookup "data_format" with
  | none => true
  | some (.s format) => format == "NHWC" || format == "NDHWC"
  | some _ => false

/-- A conversion from `int64` to `int`. -/
def toInt (size : Int) : Int := size.bmod (2 ^ 32)

/-- `BCast::IsValid`, whose `output_dim` is an `int`. -/
def bcastIsValid (left right : List Int) : Bool :=
  (List.range (max left.length right.length)).all fun j =>
    left.reverse.getD j 1 = 1 ∨ right.reverse.getD j 1 = 1 ∨ right.reverse.getD j 1 = toInt (left.reverse.getD j 1)

def shapesBroadcastable (left right : TensorShapeProto) : Bool :=
  !left.unknownRank && !right.unknownRank && !left.dim.any isUnknown && !right.dim.any isUnknown &&
    bcastIsValid left.dim right.dim

def isSupportedShape (shape bcastShape : List Int) : Bool :=
  let convChannelDim := toInt (shape.getLastD 0)
  if shape.length = 4 ∧ bcastShape.length > 4 then false
  else if shape.length = 5 ∧ bcastShape.length > 5 then false
  else if shape.length < 2 then false
  else if convChannelDim ≠ bcastShape.getLastD 0 then false
  else bcastShape.dropLast.all (· = 1)

/-- The shapes of the contraction and of the other operand. -/
def isBiasShape (contractionShape biasShape : TensorShapeProto) : Bool :=
  if contractionShape.unknownRank || biasShape.unknownRank || contractionShape.dim.length < 1 ||
      biasShape.dim.length < 1 || isUnknown (contractionShape.dim.getLastD 0) ||
      isUnknown (biasShape.dim.getLastD 0) then false
  else if shapesSymbolicallyEqual contractionShape biasShape || !shapesBroadcastable contractionShape biasShape then
    false
  else isSupportedShape contractionShape.dim biasShape.dim

/-- `IsBiasSemanticAdd`; the bias port when it returns true. -/
def RemapperContext.isBiasSemanticAdd (ctx : RemapperContext) (nodeView : MutableNodeView) :
    Except Failure (Option Nat) := do
  let nodeDef ← ctx.nodeDef nodeView
  if !(← isAdd nodeDef) || nodeView.regularFanins.length ≠ 2 then return none
  let props ← ctx.inputProperties nodeDef.name
  let left := (← fetch ctx.view.graph (← fetch nodeView.regularFanins 0).nodeIndex).nodeDef
  let right := (← fetch ctx.view.graph (← fetch nodeView.regularFanins 1).nodeIndex).nodeDef
  match props with
  | first :: second :: _ =>
    if isConvOrMatMul left && isChannelLastFormat left then
      return if isBiasShape first second then some 1 else none
    else if isConvOrMatMul right && isChannelLastFormat right then
      return if isBiasShape second first then some 0 else none
    else return none
  | _ => return none

section Operations

variable {α : Type} [AddCommMagma α]

/-- `BiasAdd` in a channel-last format. -/
def biasAdd (x bias : Tensor α) : Option (Tensor α) :=
  match bias.extents, x.extents.getLast? with
  | [channels], some channels' =>
    if channels = channels' then
      some ⟨x.extents, fun index => x.entry index + bias.entry [index.getLastD 0]⟩
    else none
  | _, _ => none

/-- The `Add` has the shape of the contraction, and adds the flattened operand as a bias. -/
def AddsBias (biasPort : Nat) (x y : Tensor α) : Prop :=
  ∃ z z', (if biasPort = 1 then x.elementwise (· + ·) y else y.elementwise (· + ·) x) = some z ∧
    biasAdd x (y.reshape [y.extents.getLastD 1]) = some z' ∧ z.extents = x.extents ∧ z.Same z'

def extentOf (symbol : Int → Nat) (dim : Int) : Nat := if 0 ≤ dim then dim.toNat else symbol dim

/-- Extents of an inferred shape, for these values of its symbols. -/
def Instance (symbol : Int → Nat) (shape : TensorShapeProto) (extents : List Nat) : Prop :=
  List.Forall₂ (fun dim extent => isUnknown dim = false → extent = extentOf symbol dim) shape.dim extents

theorem biasAdd_eq_some {x bias z : Tensor α} (isBias : biasAdd x bias = some z) :
    ∃ channels, bias.extents = [channels] ∧ x.extents.getLast? = some channels := by
  rw [biasAdd] at isBias
  split at isBias
  next channels channels' ofBias ofX =>
    split at isBias
    next same => exact ⟨channels, ofBias, same ▸ ofX⟩
    next => cases isBias
  next => cases isBias

theorem ofRowMajor_ones {k : Nat} (bound : k < channels) :
    ofRowMajor (List.replicate count 1 ++ [channels]) k = List.replicate count 0 ++ [k] := by
  induction count with
  | zero =>
    change [k / 1] = [k]
    rw [Nat.div_one]
  | succ count ih =>
    have product : (List.replicate count 1 ++ [channels]).prod = channels := by simp
    rw [List.replicate_succ, List.cons_append, ofRowMajor, product, Nat.div_eq_of_lt bound, Nat.mod_eq_of_lt bound, ih]
    rfl

theorem alignIndex_ones {k : Nat} (le : count ≤ lead.length) (bound : k < channels) :
    alignIndex (List.replicate count 1 ++ [channels]) (lead ++ [k]) = List.replicate count 0 ++ [k] := by
  have zeros : List.zipWith pulled (List.replicate count 1) lead.reverse = List.replicate count 0 := by
    apply List.ext_getElem
    · simpa using le
    · intro i _ _
      simp [pulled]
  rw [alignIndex, List.reverse_append, List.reverse_append, List.reverse_singleton, List.reverse_singleton,
    List.singleton_append, List.singleton_append, List.zipWith_cons_cons, pulled_lt_of_lt bound,
    List.reverse_replicate, zeros, List.reverse_cons, List.reverse_replicate]

theorem broadcastExtents_bias (le : count ≤ lead.length) (channels : Nat) :
    broadcastExtents (lead ++ [channels]) (List.replicate count 1 ++ [channels]) = some (lead ++ [channels]) := by
  have areOnes : ∀ x ∈ List.replicate count 1, x = 1 := fun _ mem => List.eq_of_mem_replicate mem
  have shorter : (List.replicate count 1).length ≤ lead.reverse.length := by simpa using le
  have ones := broadcastFromLast_ones areOnes shorter
  rw [broadcastExtents_comm, broadcastExtents]
  simp [broadcastFromLast, broadcastExtent_self, ones]

/-- Extents that end alike, and are one before in the operand. -/
theorem addsBias_of_extents (biasPort : Nat) {x y : Tensor α}
    (le : count ≤ lead.length) (ofX : x.extents = lead ++ [channels])
    (ofY : y.extents = List.replicate count 1 ++ [channels]) : AddsBias biasPort x y := by
  have sum : x.elementwise (· + ·) y = some ⟨x.extents, fun index =>
      x.entry (alignIndex x.extents index) + y.entry (alignIndex y.extents index)⟩ := by
    rw [Tensor.elementwise, ofX, ofY, broadcastExtents_bias le]
    rfl
  have sum' : (if biasPort = 1 then x.elementwise (· + ·) y else y.elementwise (· + ·) x) = some ⟨x.extents, fun index =>
      x.entry (alignIndex x.extents index) + y.entry (alignIndex y.extents index)⟩ := by
    rw [Tensor.elementwise_comm (fun a b => add_comm a b) y x, sum, ite_self]
  have lastY : y.extents.getLastD 1 = channels := by rw [ofY, List.getLastD_concat]
  have bias : biasAdd x (y.reshape [y.extents.getLastD 1]) = some ⟨x.extents, fun index =>
      x.entry index + (y.reshape [y.extents.getLastD 1]).entry [index.getLastD 0]⟩ := by
    have lastX : x.extents.getLast? = some channels := by rw [ofX, List.getLast?_concat]
    rw [biasAdd, lastX, lastY]
    exact if_pos rfl
  refine ⟨_, _, sum', bias, rfl, rfl, ?_⟩
  intro index mem
  dsimp only at mem ⊢
  rw [alignIndex_self mem, lastY]
  rw [ofX, mem_indices_iff_forall₂, ← List.forall₂_reverse_iff, List.reverse_append, List.reverse_singleton,
    List.singleton_append, List.forall₂_cons_right_iff] at mem
  obtain ⟨k, front, bound, fronts, isIndex⟩ := mem
  have isConcat : index = front.reverse ++ [k] := by rw [← List.reverse_reverse index, isIndex, List.reverse_cons]
  have length : front.reverse.length = lead.length := by
    rw [List.length_reverse, fronts.length_eq, List.length_reverse]
  have position : rowMajor [channels] [k] = k := Nat.mul_one k
  change _ = _ + y.entry (ofRowMajor y.extents (rowMajor [channels] [index.getLastD 0]))
  rw [isConcat, List.getLastD_concat, position, ofY, alignIndex_ones (length ▸ le) bound, ofRowMajor_ones bound]

theorem isBiasShape_facts {contraction bias : TensorShapeProto} (taken : isBiasShape contraction bias = true) :
    ∃ lead ones channel channel', contraction.dim = lead ++ [channel] ∧ bias.dim = ones ++ [channel'] ∧
      isUnknown channel = false ∧ isUnknown channel' = false ∧ ∀ dim ∈ ones, dim = 1 := by
  have concat : ∀ dims : List Int, ¬ dims.length < 1 → dims = dims.dropLast ++ [dims.getLastD 0] := by
    intro dims long
    rcases List.eq_nil_or_concat dims with isNil | ⟨front, last, rfl⟩
    · exact absurd (by rw [isNil]; exact Nat.one_pos) long
    · rw [List.concat_eq_append, List.dropLast_concat, List.getLastD_concat]
  rw [isBiasShape] at taken
  split at taken
  · cases taken
  next plain =>
    simp only [Bool.or_eq_true, not_or, decide_eq_true_eq, Bool.not_eq_true] at plain
    obtain ⟨⟨⟨⟨-, longContraction⟩, longBias⟩, known⟩, known'⟩ := plain
    have ones : ∀ dim ∈ bias.dim.dropLast, dim = 1 := by
      split at taken
      · cases taken
      · unfold isSupportedShape at taken
        grind
    exact ⟨_, _, _, _, concat _ longContraction, concat _ longBias, known, known', ones⟩

variable {ctx : RemapperContext} {nodeView : MutableNodeView} {biasPort : Nat}
  (taken : ctx.isBiasSemanticAdd nodeView = .ok (some biasPort)) {nodeDef : NodeDef}
  (isNode : ctx.nodeDef nodeView = .ok nodeDef) {props : List TensorShapeProto}
  (areProps : ctx.inputProperties nodeDef.name = .ok props) {contraction bias : TensorShapeProto}
  (atContraction : props[1 - biasPort]? = some contraction) (atBias : props[biasPort]? = some bias)

include taken isNode areProps atContraction atBias

/-- The test is made with the shape of the contraction and with that of the other operand. -/
theorem isBiasShape_of_taken : isBiasShape contraction bias = true := by
  rw [RemapperContext.isBiasSemanticAdd] at taken
  obtain ⟨nodeDef', isNode', taken⟩ := bind_ok.1 taken
  cases isNode.symm.trans isNode'
  obtain ⟨isSum, _, taken⟩ := bind_ok.1 taken
  split at taken
  · cases taken
  obtain ⟨props', areProps', taken⟩ := bind_ok.1 taken
  cases areProps.symm.trans areProps'
  obtain ⟨fanin, -, taken⟩ := bind_ok.1 taken
  obtain ⟨left, -, taken⟩ := bind_ok.1 taken
  obtain ⟨fanin', -, taken⟩ := bind_ok.1 taken
  obtain ⟨right, -, taken⟩ := bind_ok.1 taken
  dsimp only at taken
  split at taken
  next first second _ =>
    split at taken
    · split at taken
      next isShape =>
        cases taken
        cases atContraction
        cases atBias
        exact isShape
      · cases taken
    · split at taken
      · split at taken
        next isShape =>
          cases taken
          cases atContraction
          cases atBias
          exact isShape
        · cases taken
      · cases taken
  · cases taken

/-- An `Add` that is taken for a `BiasAdd` is one exactly when its operand has no more dims than
the contraction and as many channels. -/
theorem isBiasSemanticAdd_iff [Inhabited α] :
    (∀ (symbol : Int → Nat) (x y : Tensor α), Instance symbol contraction x.extents →
      Instance symbol bias y.extents → AddsBias biasPort x y) ↔
        bias.dim.length ≤ contraction.dim.length ∧ bias.dim.getLast? = contraction.dim.getLast? := by
  obtain ⟨lead, ones, channel, channel', ofContraction, ofBias, known, known', areOnes⟩ :=
    isBiasShape_facts (isBiasShape_of_taken taken isNode areProps atContraction atBias)
  rw [ofContraction, ofBias, List.getLast?_concat, List.getLast?_concat, List.length_append, List.length_append]
  constructor
  · intro adds
    -- Symbols that tell the two channels apart.
    let symbol : Int → Nat := fun dim =>
      if dim = channel then channel'.toNat + 1 else channel.toNat + channel'.toNat + 2
    have isInstance : ∀ shape : TensorShapeProto, Instance symbol shape (shape.dim.map (extentOf symbol)) := by
      intro shape
      exact List.forall₂_map_right_iff.2 (List.forall₂_same.2 fun dim _ _ => rfl)
    obtain ⟨z, z', isSum, isBias, sameExtents, -⟩ := adds symbol ⟨contraction.dim.map (extentOf symbol), fun _ => default⟩
      ⟨bias.dim.map (extentOf symbol), fun _ => default⟩ (isInstance _) (isInstance _)
    constructor
    · rw [Tensor.elementwise_comm (fun a b => add_comm a b) ⟨bias.dim.map _, _⟩, ite_self] at isSum
      obtain ⟨result, isResult, rfl⟩ := Option.map_eq_some_iff.1 isSum
      have lengths := length_broadcastExtents isResult
      rw [show result = _ from sameExtents, List.length_map, List.length_map, ofContraction, ofBias,
        List.length_append, List.length_append] at lengths
      omega
    · obtain ⟨channels, ofY, ofX⟩ := biasAdd_eq_some isBias
      rw [ofContraction, List.map_append, List.map_singleton, List.getLast?_concat] at ofX
      change [(bias.dim.map (extentOf symbol)).getLastD 1] = _ at ofY
      rw [ofBias, List.map_append, List.map_singleton, List.getLastD_concat] at ofY
      have sameExtent : extentOf symbol channel = extentOf symbol channel' :=
        (Option.some.inj ofX).trans (List.cons.inj ofY).1.symm
      congr 1
      by_contra differ
      have atChannel : symbol channel = channel'.toNat + 1 := if_pos rfl
      have atOther : symbol channel' = channel.toNat + channel'.toNat + 2 := if_neg differ
      rw [extentOf, extentOf, atChannel, atOther] at sameExtent
      split at sameExtent <;> split at sameExtent <;> omega
  · rintro ⟨le, sameChannel⟩ symbol x y isX isY
    cases sameChannel
    rw [Instance, ofContraction, ← List.forall₂_reverse_iff, List.reverse_append, List.reverse_singleton,
      List.singleton_append, List.forall₂_cons_left_iff] at isX
    rw [Instance, ofBias, ← List.forall₂_reverse_iff, List.reverse_append, List.reverse_singleton,
      List.singleton_append, List.forall₂_cons_left_iff] at isY
    obtain ⟨channels, front, isChannel, fronts, ofX⟩ := isX
    obtain ⟨channels', front', isChannel', fronts', ofY⟩ := isY
    have isSame : channels' = channels := (isChannel' known).trans (isChannel known).symm
    have onesBefore : front' = List.replicate front'.length 1 := by
      apply List.eq_replicate_of_mem
      intro extent member
      obtain ⟨k, atK⟩ := List.mem_iff_getElem?.1 member
      obtain ⟨inside, atDim⟩ := List.getElem?_eq_some_iff.1 atK
      have isExtent := fronts'.get (i := k) (by rw [fronts'.length_eq]; exact inside) inside
      have isOne := areOnes _ (List.mem_reverse.1 (List.get_mem ones.reverse ⟨k, fronts'.length_eq ▸ inside⟩))
      rw [isOne] at isExtent
      exact atDim.symm.trans (isExtent rfl)
    have le : front'.length ≤ front.reverse.length := by
      have sameLength := fronts.length_eq
      have sameLength' := fronts'.length_eq
      rw [List.length_reverse] at sameLength sameLength' ⊢
      omega
    have endsX : x.extents = front.reverse ++ [channels] := by
      rw [← List.reverse_reverse x.extents, ofX, List.reverse_cons]
    have endsY : y.extents = List.replicate front'.length 1 ++ [channels] := by
      rw [← List.reverse_reverse y.extents, ofY, List.reverse_cons, isSame, onesBefore, List.reverse_replicate,
        List.length_replicate]
    exact addsBias_of_extents biasPort le endsX endsY

end Operations

def denseGraph : Itex.Graph.GraphDef :=
  [⟨"x", "Placeholder", "", [], ∅⟩, ⟨"b", "Placeholder", "", [], ∅⟩,
    ⟨"product", "MatMul", "", [⟨"x", .port 0⟩, ⟨"x", .port 0⟩], ∅⟩,
    ⟨"sum", "AddV2", "", [⟨"product", .port 0⟩, ⟨"b", .port 0⟩], ∅⟩]

def denseContext (view : MutableGraphView) (bias : List Int) : RemapperContext where
  view
  nodesToPreserve := []
  inputProperties := fun _ => .ok [⟨false, [2, 2]⟩, ⟨false, bias⟩]
  outputProperties := fun _ => .ok []
  cpuDevice := fun _ => false
  gpuDevice := fun _ => false

theorem dense_adds_bias : ∃ view nodeView, MutableGraphView.construct denseGraph = .ok view ∧ view.nodes[3]? = some nodeView ∧
    (denseContext view [2]).isBiasSemanticAdd nodeView = .ok (some 1) ∧
      ∀ (symbol : Int → Nat) (x y : Tensor Int), Instance symbol ⟨false, [2, 2]⟩ x.extents →
        Instance symbol ⟨false, [2]⟩ y.extents → AddsBias 1 x y := by
  obtain ⟨view, nodeView, nodeDef, built, isView, taken, isNode⟩ : ∃ view nodeView nodeDef,
      MutableGraphView.construct denseGraph = .ok view ∧ view.nodes[3]? = some nodeView ∧
        (denseContext view [2]).isBiasSemanticAdd nodeView = .ok (some 1) ∧
          (denseContext view [2]).nodeDef nodeView = .ok nodeDef := ⟨_, _, _, rfl, rfl, rfl, rfl⟩
  exact ⟨view, nodeView, built, isView, taken, (isBiasSemanticAdd_iff taken isNode rfl rfl rfl).2 (by decide)⟩

/-- With a dim more than the product, the operand gives the sum a dim more as well. -/
theorem dense_of_three_dims : ∃ view nodeView, MutableGraphView.construct denseGraph = .ok view ∧ view.nodes[3]? = some nodeView ∧
    (denseContext view [1, 1, 2]).isBiasSemanticAdd nodeView = .ok (some 1) ∧
      ¬ AddsBias (α := Int) 1 ⟨[2, 2], fun _ => 0⟩ ⟨[1, 1, 2], fun _ => 0⟩ := by
  refine ⟨_, _, rfl, rfl, rfl, ?_⟩
  rintro ⟨z, z', isSum, -, sameExtents, -⟩
  cases isSum
  cases sameExtents

end Itex.Remapper
